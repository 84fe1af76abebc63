import Firedoze.Conc.Prog
import Mathlib.Logic.Function.Basic

/-!
# Interleaved runs of programs over one shared world

A `System` says what an atomic action of a thread does to the shared world
and what the environment may do to it.  A `State` holds the world, the
rest of the program of each thread, and the actions each thread has
performed with their answers.  One step lets one thread perform its next
action, or lets the environment act, so the runs of a system are all the
interleavings of its threads.

The set of threads is fixed.  A thread that has not taken a step yet
stands for a call that has not been made yet.

An outcome `o : O` chooses between the answers that an action can get,
such as success and failure.  `System.step` is a function, so a run on
concrete data can be computed with `System.run`.

A run is restricted by a condition `K` on the state before each step and
on the label of the step.  `Reach K s₀ s` says that a run whose steps all
meet `K` leads from `s₀` to `s`.
-/

namespace Conc

/-- The behaviour of atomic actions and of the environment.  `exec t w e o`
is what action `e` of thread `t` does in the world `w` under the outcome
`o`; it is `none` when the action cannot happen that way in `w`. -/
structure System (T W O V : Type) (E : Type → Type) where
  exec : {β : Type} → T → W → E β → O → Option (β × W)
  env : W → V → Option W

/-- An action a thread has performed, with the answer it got. -/
structure Event (E : Type → Type) where
  {β : Type}
  act : E β
  ans : β

/-- The shared world, the rest of each thread's program, and each thread's
past actions, the last one first. -/
structure State (T W R : Type) (E : Type → Type) where
  world : W
  prog : T → Prog E R
  hist : T → List (Event E)

/-- Who takes a step, and with which outcome. -/
inductive Label (T O V : Type)
  | thread (t : T) (o : O)
  | env (v : V)

variable {T W O V R : Type} {E : Type → Type}

namespace State

/-- The action that a thread performs in the step satisfies `P`. -/
def Next (s : State T W R E) (P : {β : Type} → T → E β → O → Prop) : Label T O V → Prop
  | .thread t o =>
      match s.prog t with
      | .act e _ => P t e o
      | _ => True
  | .env _ => True

/-- The action that a thread performs in the step passes the test `P`. -/
def next (s : State T W R E) (P : {β : Type} → T → E β → O → Bool) : Label T O V → Bool
  | .thread t o =>
      match s.prog t with
      | .act e _ => P t e o
      | _ => true
  | .env _ => true

theorem Next.act {s : State T W R E} {P : {β : Type} → T → E β → O → Prop} {t : T} {o : O}
    {β : Type} {e : E β} {k : β → Prog E R} (h : s.Next (V := V) P (.thread t o))
    (hp : s.prog t = .act e k) : P t e o := by
  simp only [Next, hp] at h
  exact h

theorem Next.of_act {s : State T W R E} {P : {β : Type} → T → E β → O → Prop} {t : T} {o : O}
    (h : ∀ (β : Type) (e : E β) (k : β → Prog E R), s.prog t = .act e k → P t e o) :
    s.Next (V := V) P (.thread t o) := by
  unfold Next
  cases hp : s.prog t with
  | ret r | loop body k => simp only [hp]
  | act e k =>
    simp only [hp]
    exact h _ e k hp

theorem next_act {s : State T W R E} {P : {β : Type} → T → E β → O → Bool} {t : T} {o : O}
    {β : Type} {e : E β} {k : β → Prog E R} (h : s.next (V := V) P (.thread t o) = true)
    (hp : s.prog t = .act e k) : P t e o = true := by
  simp only [next, hp] at h
  exact h

/-- The start of a run: no thread has performed an action. -/
def initial (w : W) (prog : T → Prog E R) : State T W R E := ⟨w, prog, fun _ => []⟩

/-- The state after an action of the thread. -/
abbrev acted [DecidableEq T] (s : State T W R E) (t : T) {β : Type} (e : E β) (b : β)
    (k : β → Prog E R) (w : W) : State T W R E :=
  ⟨w, Function.update s.prog t (k b), Function.update s.hist t (⟨e, b⟩ :: s.hist t)⟩

/-- The thread has performed an action and has not come to its end. -/
def InProgress (s : State T W R E) (t : T) : Prop :=
  s.hist t ≠ [] ∧ (s.prog t).isRet = false

/-- The thread has not come to its end. -/
def live (s : State T W R E) (t : T) : Bool := !(s.prog t).isRet

/-- The thread has come to its end with result `r`. -/
def Finished (s : State T W R E) (t : T) (r : R) : Prop := (s.prog t).result = some r

end State

namespace System

variable [DecidableEq T] (S : System T W O V E)

/-- One step of thread `t` whose rest is `p`. -/
def stepThread (s : State T W R E) (t : T) (o : O) : Prog E R → Option (State T W R E)
  | .ret _ => none
  | .act e k =>
      match S.exec t s.world e o with
      | none => none
      | some (b, w) =>
          some ⟨w, Function.update s.prog t (k b), Function.update s.hist t (⟨e, b⟩ :: s.hist t)⟩
  | .loop body k => some { s with prog := Function.update s.prog t (Prog.unroll body k) }

/-- One step of a run. -/
def step (s : State T W R E) : Label T O V → Option (State T W R E)
  | .thread t o => S.stepThread s t o (s.prog t)
  | .env v => (S.env s.world v).map fun w => { s with world := w }

/-- The run that takes the given steps in turn. -/
def run (s : State T W R E) : List (Label T O V) → Option (State T W R E)
  | [] => some s
  | l :: ls => (S.step s l).bind fun s' => run s' ls

/-- Whether every step of the run meets `k`. -/
def runMeets (k : State T W R E → Label T O V → Bool) (s : State T W R E) :
    List (Label T O V) → Bool
  | [] => true
  | l :: ls => k s l && (S.step s l).elim true fun s' => runMeets k s' ls

/-- The states that a run from `s₀` reaches when all of its steps meet `K`. -/
inductive Reach (K : State T W R E → Label T O V → Prop) (s₀ : State T W R E) :
    State T W R E → Prop
  | refl : Reach K s₀ s₀
  | tail {s s' : State T W R E} {l : Label T O V} :
      Reach K s₀ s → K s l → S.step s l = some s' → Reach K s₀ s'

variable {S} {K J : State T W R E → Label T O V → Prop} {s₀ s s' : State T W R E}

/-- The invariant rule: what holds at the start and is kept by every step
that meets `K` holds in every state reached. -/
theorem Reach.invariant {I : State T W R E → Prop} (h0 : I s₀)
    (hstep : ∀ s l s', S.Reach K s₀ s → I s → K s l → S.step s l = some s' → I s')
    (h : S.Reach K s₀ s) : I s := by
  induction h with
  | refl => exact h0
  | tail hr hk hs ih => exact hstep _ _ _ hr ih hk hs

/-- A run under a stronger condition is a run under a weaker one. -/
theorem Reach.mono (hKK : ∀ s l, K s l → J s l) (h : S.Reach K s₀ s) : S.Reach J s₀ s := by
  induction h with
  | refl => exact .refl
  | tail _ hk hs ih => exact .tail ih (hKK _ _ hk) hs

/-- The same, where the weaker condition is only needed in states that the
run reaches. -/
theorem Reach.mono_reach (hKK : ∀ s l, S.Reach K s₀ s → K s l → J s l) (h : S.Reach K s₀ s) :
    S.Reach J s₀ s := by
  induction h with
  | refl => exact .refl
  | tail hr hk hs ih => exact .tail ih (hKK _ _ hr hk) hs

theorem Reach.trans {s₁ : State T W R E} (h : S.Reach K s₀ s₁) (h' : S.Reach K s₁ s) :
    S.Reach K s₀ s := by
  induction h' with
  | refl => exact h
  | tail _ hk hs ih => exact .tail ih hk hs

/-- A computed run reaches its last state. -/
theorem reach_of_run {k : State T W R E → Label T O V → Bool} {ls : List (Label T O V)}
    (hk : S.runMeets k s ls = true) (h : S.run s ls = some s') :
    S.Reach (fun s l => k s l = true) s s' := by
  induction ls generalizing s with
  | nil =>
    obtain rfl : s = s' := by simpa [run] using h
    exact .refl
  | cons l ls ih =>
    simp only [run] at h
    simp only [runMeets, Bool.and_eq_true] at hk
    cases hs : S.step s l with
    | none => simp [hs] at h
    | some s₁ =>
      rw [hs] at h hk
      exact (Reach.tail .refl hk.1 hs).trans (ih hk.2 h)

variable (S) in
/-- A computed run whose last state passes a test reaches such a state. -/
theorem exists_reach_of_run {k : State T W R E → Label T O V → Bool} {l : List (Label T O V)}
    {P : State T W R E → Bool} (hk : S.runMeets k s l = true) (h : (S.run s l).any P = true) :
    ∃ s', S.Reach (fun s l => k s l = true) s s' ∧ P s' = true := by
  cases hs : S.run s l with
  | none => simp [hs] at h
  | some s' =>
    rw [hs] at h
    exact ⟨s', reach_of_run hk hs, h⟩

variable (S) in
/-- The same for a run without a condition on its steps. -/
theorem exists_reach {l : List (Label T O V)} {P : State T W R E → Bool}
    (h : (S.run s l).any P = true) : ∃ s', S.Reach (fun _ _ => True) s s' ∧ P s' = true := by
  have hmeets : ∀ (ls : List (Label T O V)) (s : State T W R E),
      S.runMeets (fun _ _ => true) s ls = true := by
    intro ls
    induction ls with
    | nil => exact fun _ => rfl
    | cons l ls ih => exact fun s => by cases hs : S.step s l <;> simp [runMeets, hs, ih]
  obtain ⟨s', hr, hP⟩ := S.exists_reach_of_run (hmeets l s) h
  exact ⟨s', hr.mono fun _ _ _ => trivial, hP⟩

/-- The three ways a step can go: an action of a thread, a loop that starts
its next round, or an event of the environment. -/
theorem step_cases {l : Label T O V} (h : S.step s l = some s') :
    (∃ t o, l = .thread t o ∧ ∃ (β : Type) (e : E β) (k : β → Prog E R) (b : β) (w : W),
        s.prog t = .act e k ∧ S.exec t s.world e o = some (b, w) ∧
        s' = s.acted t e b k w) ∨
      (∃ t o, l = .thread t o ∧ ∃ (β : Type) (body : Prog E (Option β)) (k : β → Prog E R),
        s.prog t = .loop body k ∧
        s' = { s with prog := Function.update s.prog t (Prog.unroll body k) }) ∨
      (∃ v w, l = .env v ∧ S.env s.world v = some w ∧ s' = { s with world := w }) := by
  cases l with
  | thread t o =>
    simp only [step] at h
    generalize hp : s.prog t = p at h
    cases p with
    | ret a => simp [stepThread] at h
    | act e k =>
      simp only [stepThread] at h
      cases he : S.exec t s.world e o with
      | none => simp [he] at h
      | some bw =>
        obtain ⟨b, w⟩ := bw
        simp only [he, Option.some.injEq] at h
        exact Or.inl ⟨t, o, rfl, _, e, k, b, w, hp, he, h.symm⟩
    | loop body k =>
      simp only [stepThread, Option.some.injEq] at h
      exact Or.inr (Or.inl ⟨t, o, rfl, _, body, k, hp, h.symm⟩)
  | env v =>
    simp only [step, Option.map_eq_some_iff] at h
    obtain ⟨w, hw, rfl⟩ := h
    exact Or.inr (Or.inr ⟨v, w, rfl, hw, rfl⟩)

/-- What holds of every action of the programs holds of every action that is
still to be performed. -/
theorem Reach.all {P : {β : Type} → E β → Prop} {w₀ : W} {prog : T → Prog E R} {t : T}
    (h : S.Reach K (.initial w₀ prog) s) (h0 : (prog t).All P) : (s.prog t).All P := by
  refine h.invariant (I := fun s => (s.prog t).All P) h0 ?_
  intro s l s' _ ih _ hs
  rcases step_cases hs with
    ⟨u, o, -, β, e, k, b, w, hp, -, rfl⟩ | ⟨u, o, -, β, body, k, hp, rfl⟩ | ⟨v, w, -, -, rfl⟩
  · by_cases hu : t = u
    · subst hu
      rw [hp] at ih
      simpa using ih.2 b
    · simpa [hu] using ih
  · by_cases hu : t = u
    · subst hu
      rw [hp] at ih
      have hunroll : (Prog.unroll body k).All P := by
        refine Prog.all_bind ih.1 ?_
        intro r
        cases r with
        | none => exact ih
        | some b => exact ih.2 b
      simpa using hunroll
    · simpa [hu] using ih
  · exact ih

/-- What holds of every action of a program holds of every action that its
thread has performed. -/
theorem Reach.hist_all {P : {β : Type} → E β → Prop} {w₀ : W} {prog : T → Prog E R} {t : T}
    (h : S.Reach K (.initial w₀ prog) s) (h0 : (prog t).All P) : ∀ ev ∈ s.hist t, P ev.act := by
  refine h.invariant (I := fun s => ∀ ev ∈ s.hist t, P ev.act) (by simp [State.initial]) ?_
  intro s l s' hr ih _ hs
  rcases step_cases hs with
    ⟨u, o, -, β, e, k, b, w, hp, -, rfl⟩ | ⟨u, o, -, β, body, k, hp, rfl⟩ | ⟨v, w, -, -, rfl⟩
  · by_cases hu : t = u
    · subst hu
      have hall := hr.all h0
      rw [hp] at hall
      simpa using ⟨hall.1, ih⟩
    · simpa [hu] using ih
  · exact ih
  · exact ih

end System

end Conc
