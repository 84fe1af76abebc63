import Mathlib.Logic.Basic

/-!
# Programs as trees of atomic actions

A thread runs a `Prog E α`: a tree whose inner nodes are atomic actions of
the signature `E` and whose branches are the answers that an action can
get.  A loop that tests a condition and retries has a node of its own,
since the number of its rounds is not known in advance.

The tree is a monad, so a function of the source is written as a `do`
block.  A fallible function is a `do` block in `ExceptT ε (Prog E)`:
`call` performs an action that answers an `Except`, `sect` performs an
action that cannot fail, and `deferred` runs a clean-up on every way out
of a block, as the `defer` statement of Go does.

`Prog.All` says that every action of a tree satisfies a predicate.  It is
the fact that lets a proof pass over a whole subprogram that has nothing
to do with the property at hand.
-/

namespace Conc

/-- A program over the signature `E` with a result in `α`.  `loop body k`
runs `body` again and again until it answers `some b`, and then goes on
with `k b`. -/
inductive Prog (E : Type → Type) : Type → Type 1
  | ret {α : Type} (a : α) : Prog E α
  | act {α β : Type} (e : E β) (k : β → Prog E α) : Prog E α
  | loop {α β : Type} (body : Prog E (Option β)) (k : β → Prog E α) : Prog E α

namespace Prog

variable {E : Type → Type} {α β ε : Type}

/-- Sequencing: graft `f` onto the leaves of the tree. -/
def bind : {α : Type} → Prog E α → (α → Prog E β) → Prog E β
  | _, ret a, f => f a
  | _, act e k, f => act e fun b => bind (k b) f
  | _, loop body k, f => loop body fun b => bind (k b) f

instance : Monad (Prog E) where
  pure := ret
  bind := bind

@[simp] theorem pure_eq (a : α) : (pure a : Prog E α) = ret a := rfl

@[simp] theorem bind_eq (p : Prog E α) (f : α → Prog E β) : p >>= f = p.bind f := rfl

/-- Whether the program has run to its end. -/
def isRet : Prog E α → Bool
  | ret _ => true
  | _ => false

/-- The result of a program that has run to its end. -/
def result : Prog E α → Option α
  | ret a => some a
  | _ => none

@[simp] theorem isRet_ret (a : α) : (ret a : Prog E α).isRet = true := rfl

@[simp] theorem result_ret (a : α) : (ret a : Prog E α).result = some a := rfl

/-- One round of a loop followed by the rest of the loop. -/
def unroll (body : Prog E (Option β)) (k : β → Prog E α) : Prog E α :=
  body.bind fun
    | none => loop body k
    | some b => k b

/-! ## Fallible blocks -/

/-- Perform one action. -/
def perform (e : E α) : Prog E α := act e ret

/-- Perform an action that can fail. -/
def call (e : E (Except ε α)) : ExceptT ε (Prog E) α := ExceptT.mk (perform e)

/-- Perform an action that cannot fail. -/
def sect (e : E α) : ExceptT ε (Prog E) α := ExceptT.mk (act e fun a => ret (.ok a))

/-- Run a fallible block and hand its result to the caller as a value. -/
def attempt (body : ExceptT ε (Prog E) α) : ExceptT ε (Prog E) (Except ε α) :=
  ExceptT.mk (body.run.bind fun r => ret (.ok r))

/-- Run `fin` on every way out of `body`. -/
def deferred (body : ExceptT ε (Prog E) α) (fin : Prog E Unit) : ExceptT ε (Prog E) α :=
  ExceptT.mk (body.run.bind fun r => fin.bind fun _ => ret r)

/-- Repeat a fallible round until it fails or answers a value. -/
def forever (round : ExceptT ε (Prog E) (Option α)) : ExceptT ε (Prog E) α :=
  ExceptT.mk (loop
    (round.run.bind fun
      | .ok none => ret none
      | .ok (some a) => ret (some (.ok a))
      | .error e => ret (some (.error e)))
    ret)

/-! ## Properties of every action of a tree -/

/-- Every action of the tree satisfies `P`. -/
def All (P : {β : Type} → E β → Prop) : {α : Type} → Prog E α → Prop
  | _, ret _ => True
  | _, act e k => P e ∧ ∀ b, All P (k b)
  | _, loop body k => All P body ∧ ∀ b, All P (k b)

section All

variable {P P' : {β : Type} → E β → Prop}

@[simp] theorem all_ret (a : α) : All P (ret a : Prog E α) := trivial

theorem all_bind {p : Prog E α} {f : α → Prog E β} (hp : All P p) (hf : ∀ a, All P (f a)) :
    All P (p.bind f) := by
  induction p with
  | ret a => exact hf a
  | act e k ih | loop body k _ ih => exact ⟨hp.1, fun b => ih b (hp.2 b) hf⟩

theorem All.mono {p : Prog E α} (h : All P p) (hPP : ∀ {β : Type} (e : E β), P e → P' e) :
    All P' p := by
  induction p with
  | ret a => trivial
  | act e k ih => exact ⟨hPP e h.1, fun b => ih b (h.2 b)⟩
  | loop body k ihb ihk => exact ⟨ihb h.1, fun b => ihk b (h.2 b)⟩

theorem all_call {e : E (Except ε α)} (h : P e) : All P (call e).run := ⟨h, fun _ => trivial⟩

theorem all_sect {e : E α} (h : P e) : All P (sect (ε := ε) e).run := ⟨h, fun _ => trivial⟩

theorem all_run_pure (a : α) : All P (pure a : ExceptT ε (Prog E) α).run := trivial

theorem all_run_throw (e : ε) : All P (throw e : ExceptT ε (Prog E) α).run := trivial

theorem all_run_bind {x : ExceptT ε (Prog E) α} {f : α → ExceptT ε (Prog E) β}
    (hx : All P x.run) (hf : ∀ a, All P (f a).run) : All P (x >>= f).run := by
  refine all_bind hx ?_
  rintro (e | a)
  · trivial
  · exact hf a

theorem all_attempt {x : ExceptT ε (Prog E) α} (hx : All P x.run) : All P (attempt x).run :=
  all_bind hx fun _ => trivial

theorem all_deferred {x : ExceptT ε (Prog E) α} {fin : Prog E Unit} (hx : All P x.run)
    (hfin : All P fin) : All P (deferred x fin).run :=
  all_bind hx fun _ => all_bind hfin fun _ => trivial

theorem all_forever {round : ExceptT ε (Prog E) (Option α)} (h : All P round.run) :
    All P (forever round).run := by
  refine ⟨all_bind h ?_, fun _ => trivial⟩
  rintro (e | _ | a) <;> trivial

end All

end Prog

end Conc
