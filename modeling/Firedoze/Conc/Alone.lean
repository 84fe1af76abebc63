import Firedoze.Conc.System

/-!
# A thread that runs alone

`Alone S t w p a w'` says that thread `t`, with nobody else taking a step,
can run the program `p` in the world `w` to its end, with the result `a` and
the world `w'`.  It is the way to exhibit a run that is too long to be
computed: `Alone.bind` and `Alone.call_bind` follow the program, and
`Alone.reach` turns the result into a run of the system.

The relation covers the paths through a program that meet no loop.
-/

namespace Conc

open Prog

variable {T W O V R ε α β γ : Type} {E : Type → Type} {S : System T W O V E} {t : T}
  {w w' w'' : W}

/-- The thread can run the program to its end in one go. -/
inductive Alone (S : System T W O V E) (t : T) : {α : Type} → W → Prog E α → α → W → Prop
  | ret {α : Type} {w : W} (a : α) : Alone S t w (.ret a) a w
  | act {α β : Type} {w w' w'' : W} {e : E β} {k : β → Prog E α} {o : O} {b : β} {a : α} :
      S.exec t w e o = some (b, w') → Alone S t w' (k b) a w'' → Alone S t w (.act e k) a w''

namespace Alone

theorem bind {p : Prog E α} {f : α → Prog E β} {a : α} {b : β} (h : Alone S t w p a w')
    (h' : Alone S t w' (f a) b w'') : Alone S t w (p.bind f) b w'' := by
  induction h with
  | ret a => exact h'
  | act he _ ih => exact .act he (ih h')

/-- An action that goes well, and the rest of the block. -/
theorem call_bind {e : E (Except ε α)} {f : α → ExceptT ε (Prog E) β} {u v : W} {o : O} {a : α}
    {r : Except ε β} (he : S.exec t u e o = some (.ok a, v))
    (h : Alone S t v (f a).run r w) : Alone S t u (call e >>= f).run r w :=
  .act he h

/-- A block that ends well, and the rest of the block around it. -/
theorem run_bind {x : ExceptT ε (Prog E) α} {f : α → ExceptT ε (Prog E) β} {a : α}
    {r : Except ε β} (hx : Alone S t w x.run (.ok a) w')
    (hf : Alone S t w' (f a).run r w'') : Alone S t w (x >>= f).run r w'' :=
  bind hx hf

/-- What a thread can do alone is a run of the system that touches no other
thread. -/
theorem reach [DecidableEq T] {p : Prog E R} {a : R} (h : Alone S t w p a w') :
    ∀ {s : State T W R E}, s.world = w → s.prog t = p →
      ∃ s', S.Reach (fun _ _ => True) s s' ∧ s'.world = w' ∧ ∀ u ≠ t, s'.prog u = s.prog u := by
  induction h with
  | ret a => exact fun hw _ => ⟨_, .refl, hw, fun _ _ => rfl⟩
  | @act _ _ w₁ _ e k o b _ he _ ih =>
    intro s hw hp
    subst hw
    let s₁ : State T W R E :=
      ⟨w₁, Function.update s.prog t (k b), Function.update s.hist t (⟨e, b⟩ :: s.hist t)⟩
    have hstep : S.step s (.thread t o) = some s₁ := by
      simp only [System.step, hp, System.stepThread, he, s₁]
    obtain ⟨s', hs', hw', hprog⟩ := ih (s := s₁) rfl (Function.update_self t (k b) s.prog)
    refine ⟨s', (System.Reach.tail .refl trivial hstep).trans hs', hw', fun u hu => ?_⟩
    exact (hprog u hu).trans (Function.update_of_ne hu _ _)

end Alone

end Conc
