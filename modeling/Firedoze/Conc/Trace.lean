import Firedoze.Conc.Monitor

/-!
# Runs with the order of their actions

A `State` knows the past of each thread, but not in which order the actions
of different threads took place.  `Trace K s₀ log s` says that a run whose
steps all meet `K` leads from `s₀` to `s`, and that `log` holds its actions,
the last one first.

Such a run is a run of the system (`Trace.reach`), and the log holds the pasts
of the threads (`Trace.hist`).
-/

namespace Conc

/-- An action of a run: who performed it, how it went, and what it was
answered. -/
structure Entry (T O : Type) (E : Type → Type) where
  thread : T
  outcome : O
  event : Event E

variable {T W O V R L : Type} {E : Type → Type}

namespace System

variable [DecidableEq T] (S : System T W O V E)

/-- The states that a run from `s₀` reaches when all of its steps meet `K`,
with the actions of the run, the last one first. -/
inductive Trace (K : State T W R E → Label T O V → Prop) (s₀ : State T W R E) :
    List (Entry T O E) → State T W R E → Prop
  | refl : Trace K s₀ [] s₀
  | act {log : List (Entry T O E)} {s : State T W R E} {t : T} {o : O} {β : Type} {e : E β}
      {k : β → Prog E R} {b : β} {w : W} :
      Trace K s₀ log s → K s (.thread t o) → s.prog t = .act e k →
      S.exec t s.world e o = some (b, w) →
      Trace K s₀ (⟨t, o, ⟨e, b⟩⟩ :: log)
        ⟨w, Function.update s.prog t (k b), Function.update s.hist t (⟨e, b⟩ :: s.hist t)⟩
  | loop {log : List (Entry T O E)} {s : State T W R E} {t : T} {o : O} {β : Type}
      {body : Prog E (Option β)} {k : β → Prog E R} :
      Trace K s₀ log s → K s (.thread t o) → s.prog t = .loop body k →
      Trace K s₀ log { s with prog := Function.update s.prog t (Prog.unroll body k) }
  | env {log : List (Entry T O E)} {s : State T W R E} {v : V} {w : W} :
      Trace K s₀ log s → K s (.env v) → S.env s.world v = some w →
      Trace K s₀ log { s with world := w }

variable {S} {K K' : State T W R E → Label T O V → Prop} {s₀ s s' : State T W R E}
  {log : List (Entry T O E)}

theorem Trace.reach (h : S.Trace K s₀ log s) : S.Reach K s₀ s := by
  induction h with
  | refl => exact .refl
  | act _ hk hp he ih => exact .tail ih hk (by simp only [step, hp, stepThread, he])
  | loop _ hk hp ih => exact .tail (l := .thread _ _) ih hk (by simp only [step, hp, stepThread])
  | env _ hk hv ih => exact .tail ih hk (by simp [step, hv])

/-- The action that a step performs, if any. -/
def entry (s : State T W R E) : Label T O V → List (Entry T O E)
  | .thread t o =>
      match s.prog t with
      | .act e _ =>
          match S.exec t s.world e o with
          | some (b, _) => [⟨t, o, ⟨e, b⟩⟩]
          | none => []
      | _ => []
  | .env _ => []

theorem Trace.step {l : Label T O V} (h : S.Trace K s₀ log s) (hk : K s l)
    (hs : S.step s l = some s') : S.Trace K s₀ (S.entry s l ++ log) s' := by
  rcases step_cases hs with
    ⟨t, o, rfl, β, e, k, b, w, hp, he, rfl⟩ | ⟨t, o, rfl, β, body, k, hp, rfl⟩ |
    ⟨v, w, rfl, hv, rfl⟩
  · simpa [entry, hp, he] using Trace.act h hk hp he
  · simpa [entry, hp] using Trace.loop h hk hp
  · exact .env h hk hv

theorem Trace.mono (hKK : ∀ s l, K s l → K' s l) (h : S.Trace K s₀ log s) :
    S.Trace K' s₀ log s := by
  induction h with
  | refl => exact .refl
  | act _ hk hp he ih => exact .act ih (hKK _ _ hk) hp he
  | loop _ hk hp ih => exact .loop ih (hKK _ _ hk) hp
  | env _ hk hv ih => exact .env ih (hKK _ _ hk) hv

/-- The past of a thread is its part of the log. -/
theorem Trace.hist {w₀ : W} {prog : T → Prog E R} (h : S.Trace K (.initial w₀ prog) log s)
    (t : T) : s.hist t = (log.filter (·.thread = t)).map (·.event) := by
  induction h with
  | refl => rfl
  | act _ _ _ _ ih =>
    rename_i u _ _ _ _ _ _ _ _ _ _
    by_cases hu : u = t
    · subst hu
      simp [ih]
    · simp [hu, Ne.symm hu, ih]
  | loop _ _ _ ih | env _ _ _ ih => exact ih

/-! ## Computed runs -/

variable (S) in
/-- The run that takes the given steps in turn, with its actions. -/
def runLog (s : State T W R E) (log : List (Entry T O E)) :
    List (Label T O V) → Option (List (Entry T O E) × State T W R E)
  | [] => some (log, s)
  | l :: ls => (S.step s l).bind fun s' => runLog s' (S.entry s l ++ log) ls

theorem Trace.run {k : State T W R E → Label T O V → Bool} {ls : List (Label T O V)}
    {log' : List (Entry T O E)} (h : S.Trace (fun s l => k s l = true) s₀ log s)
    (hk : S.runMeets k s ls = true) (hrun : S.runLog s log ls = some (log', s')) :
    S.Trace (fun s l => k s l = true) s₀ log' s' := by
  induction ls generalizing s log with
  | nil =>
    cases hrun
    exact h
  | cons l ls ih =>
    simp only [runMeets, Bool.and_eq_true] at hk
    obtain ⟨s₁, hs, hrest⟩ := Option.bind_eq_some_iff.mp hrun
    rw [hs] at hk
    exact ih (h.step hk.1 hs) hk.2 hrest

variable (S) in
/-- A computed run whose last state and log pass a test. -/
theorem exists_trace_of_run {k : State T W R E → Label T O V → Bool} {l : List (Label T O V)}
    {P : List (Entry T O E) → State T W R E → Bool} (hk : S.runMeets k s l = true)
    (h : ((S.runLog s [] l).any fun (log, s') => P log s') = true) :
    ∃ log s', S.Trace (fun s l => k s l = true) s log s' ∧ P log s' = true := by
  obtain ⟨⟨log, s'⟩, hrun, hP⟩ := (Option.any_eq_true _ _).mp h
  exact ⟨log, s', Trace.refl.run hk hrun, hP⟩

end System

end Conc
