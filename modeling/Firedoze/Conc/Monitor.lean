import Firedoze.Conc.System

/-!
# Monitors: the phase of a thread as a function of its own past

A property of all interleavings is proved in two parts.

* A `Monitor` reads the actions of one thread, with their answers, and
  keeps a phase.  It also says which actions are in order in which phase.
  `Conforms` says that a program only performs actions that are in order,
  whatever answers it gets.  It is a property of the program alone: no
  other thread and no world occurs in it.
* An invariant relates the world and the phases of all threads.  It has to
  be kept by every action that is in order.

`Monitor.invariant` puts the two parts together.  The first part holds the
whole control flow of the programs, so the second part is a case analysis
over actions and phases.

The answers that an action can get may be restricted by `A`, when the
runs give no other answers.  `Conforms` then only follows the answers that
`A` allows.
-/

namespace Conc

variable {T W O V R L : Type} {E : Type → Type}

/-- A phase for each past of a thread, and the actions that are in order in
each phase. -/
structure Monitor (E : Type → Type) (L : Type) where
  start : L
  ok : {β : Type} → L → E β → β → Prop
  next : {β : Type} → L → E β → β → L

namespace Monitor

variable (M : Monitor E L)

/-- The phase after the given past, the last action first. -/
def phase : List (Event E) → L
  | [] => M.start
  | ev :: h => M.next (phase h) ev.act ev.ans

/-- The phases of all threads. -/
def phases (s : State T W R E) (t : T) : L := M.phase (s.hist t)

/-- Every path of the program that answers as `A` allows is in order when
it starts in phase `l`, and ends in a result and a phase that satisfy `Q`.
For a loop there has to be a set of phases that one round does not leave. -/
def Conforms (A : {β : Type} → E β → β → Prop) :
    {α : Type} → Prog E α → L → (α → L → Prop) → Prop
  | _, .ret a, l, Q => Q a l
  | _, .act e k, l, Q =>
      ∀ b, A e b → M.ok l e b ∧ Conforms A (k b) (M.next l e b) Q
  | _, .loop body k, l, Q => ∃ J : L → Prop, J l ∧ ∀ l, J l →
      Conforms A body l fun r l' =>
        match r with
        | none => J l'
        | some b => Conforms A (k b) l' Q

variable {M} {A : {β : Type} → E β → β → Prop} {α β ε : Type} {l : L}

theorem conforms_mono {p : Prog E α} {Q Q' : α → L → Prop} (hQ : ∀ a l, Q a l → Q' a l)
    (h : M.Conforms A p l Q) : M.Conforms A p l Q' := by
  induction p generalizing l with
  | ret a => exact hQ a l h
  | act e k ih => exact fun b hb => ⟨(h b hb).1, ih b hQ (h b hb).2⟩
  | loop body k ihb ihk =>
    obtain ⟨J, hJ, hbody⟩ := h
    refine ⟨J, hJ, fun l hl => ihb ?_ (hbody l hl)⟩
    rintro (_ | b) l' h'
    · exact h'
    · exact ihk b hQ h'

theorem conforms_bind {p : Prog E α} {f : α → Prog E β} {Q : β → L → Prop} :
    M.Conforms A (p.bind f) l Q ↔ M.Conforms A p l fun a l' => M.Conforms A (f a) l' Q := by
  induction p generalizing l with
  | ret a => exact Iff.rfl
  | act e k ih => exact forall₂_congr fun b _ => and_congr_right fun _ => ih b
  | loop body k ihb ihk =>
    -- The rounds are the same, and what follows them is the induction hypothesis.
    have hafter : ∀ {J : L → Prop} (r : Option _) (l' : L),
        (match r with
          | none => J l'
          | some b => M.Conforms A ((k b).bind f) l' Q) ↔
        match r with
          | none => J l'
          | some b => M.Conforms A (k b) l' fun a l' => M.Conforms A (f a) l' Q := by
      rintro J (_ | b) l'
      · exact Iff.rfl
      · exact ihk b
    constructor
    · rintro ⟨J, hJ, hbody⟩
      exact ⟨J, hJ, fun l hl => conforms_mono (fun r l' => (hafter r l').mp) (hbody l hl)⟩
    · rintro ⟨J, hJ, hbody⟩
      exact ⟨J, hJ, fun l hl => conforms_mono (fun r l' => (hafter r l').mpr) (hbody l hl)⟩

/-- A loop that starts its next round is still in order. -/
theorem conforms_unroll {body : Prog E (Option β)} {k : β → Prog E α} {Q : α → L → Prop}
    (h : M.Conforms A (.loop body k) l Q) : M.Conforms A (Prog.unroll body k) l Q := by
  obtain ⟨J, hJ, hbody⟩ := h
  refine conforms_bind.mpr (conforms_mono ?_ (hbody l hJ))
  rintro (_ | b) l' h'
  · exact ⟨J, h', hbody⟩
  · exact h'

/-! ## Rules for fallible blocks -/

theorem conforms_run_bind {x : ExceptT ε (Prog E) α} {f : α → ExceptT ε (Prog E) β}
    {Q : Except ε β → L → Prop} :
    M.Conforms A (x >>= f).run l Q ↔
      M.Conforms A x.run l fun r l' =>
        match r with
        | .ok a => M.Conforms A (f a).run l' Q
        | .error e => Q (.error e) l' := by
  refine conforms_bind.trans ⟨conforms_mono ?_, conforms_mono ?_⟩
  all_goals
    rintro (e | a) l' h <;> exact h

/-- The rule for a block whose first part is known to end in `P`. -/
theorem conforms_then {x : ExceptT ε (Prog E) α} {f : α → ExceptT ε (Prog E) β}
    {P : Except ε α → L → Prop} {Q : Except ε β → L → Prop} (hx : M.Conforms A x.run l P)
    (hok : ∀ a l', P (.ok a) l' → M.Conforms A (f a).run l' Q)
    (herr : ∀ e l', P (.error e) l' → Q (.error e) l') : M.Conforms A (x >>= f).run l Q := by
  refine conforms_run_bind.mpr (conforms_mono ?_ hx)
  rintro (e | a) l' h
  · exact herr e l' h
  · exact hok a l' h

theorem conforms_attempt {x : ExceptT ε (Prog E) α} {Q : Except ε (Except ε α) → L → Prop} :
    M.Conforms A (Prog.attempt x).run l Q ↔
      M.Conforms A x.run l fun r l' => Q (.ok r) l' := conforms_bind

theorem conforms_deferred {x : ExceptT ε (Prog E) α} {fin : Prog E Unit}
    {Q : Except ε α → L → Prop} :
    M.Conforms A (Prog.deferred x fin).run l Q ↔
      M.Conforms A x.run l fun r l' => M.Conforms A fin l' fun _ l'' => Q r l'' := by
  refine conforms_bind.trans ⟨conforms_mono ?_, conforms_mono ?_⟩ <;> intro r l' h
  · exact conforms_bind.mp h
  · exact conforms_bind.mpr h

/-- A retry loop conforms when one round keeps a set `J` of phases. -/
theorem conforms_forever {round : ExceptT ε (Prog E) (Option α)} {Q : Except ε α → L → Prop}
    (J : L → Prop) (hJ : J l)
    (hround : ∀ l, J l → M.Conforms A round.run l fun r l' =>
      match r with
      | .ok none => J l'
      | .ok (some a) => Q (.ok a) l'
      | .error e => Q (.error e) l') :
    M.Conforms A (Prog.forever round).run l Q := by
  refine ⟨J, hJ, fun l hl => conforms_bind.mpr (conforms_mono ?_ (hround l hl))⟩
  rintro (e | _ | a) l' h <;> exact h

theorem conforms_call_bind {e : E (Except ε α)} {f : α → ExceptT ε (Prog E) β}
    {Q : Except ε β → L → Prop}
    (hok : ∀ a, A e (.ok a) →
      M.ok l e (.ok a) ∧ M.Conforms A (f a).run (M.next l e (.ok a)) Q)
    (herr : ∀ x, A e (.error x) →
      M.ok l e (.error x) ∧ Q (.error x) (M.next l e (.error x))) :
    M.Conforms A (Prog.call e >>= f).run l Q := by
  refine conforms_run_bind.mpr ?_
  intro r hr
  cases r with
  | ok a => exact hok a hr
  | error x => exact herr x hr

theorem conforms_sect_bind {e : E α} {f : α → ExceptT ε (Prog E) β} {Q : Except ε β → L → Prop}
    (h : ∀ a, A e a → M.ok l e a ∧ M.Conforms A (f a).run (M.next l e a) Q) :
    M.Conforms A (Prog.sect (ε := ε) e >>= f).run l Q :=
  conforms_run_bind.mpr fun a ha => h a ha

theorem conforms_attempt_bind {x : ExceptT ε (Prog E) α} {f : Except ε α → ExceptT ε (Prog E) β}
    {Q : Except ε β → L → Prop}
    (h : M.Conforms A x.run l fun r l' => M.Conforms A (f r).run l' Q) :
    M.Conforms A (Prog.attempt x >>= f).run l Q :=
  conforms_run_bind.mpr (conforms_attempt.mpr h)

theorem conforms_attempt_call_bind {e : E (Except ε α)} {f : Except ε α → ExceptT ε (Prog E) β}
    {Q : Except ε β → L → Prop}
    (h : ∀ r, A e r → M.ok l e r ∧ M.Conforms A (f r).run (M.next l e r) Q) :
    M.Conforms A (Prog.attempt (Prog.call e) >>= f).run l Q := conforms_attempt_bind h

/-- A monitor for which every action is in order. -/
theorem conforms_of_ok {p : Prog E α}
    (hok : ∀ {β : Type} (l : L) (e : E β) (b : β), M.ok l e b) :
    M.Conforms A p l fun _ _ => True := by
  induction p generalizing l with
  | ret a => trivial
  | act e k ih => exact fun b _ => ⟨hok l e b, ih b⟩
  | loop body k ihb ihk =>
    refine ⟨fun _ => True, trivial, fun l _ => conforms_mono ?_ (ihb (l := l))⟩
    intro r l' _
    cases r with
    | none => trivial
    | some b => exact ihk b

/-- A program whose actions are in order in the phases `J`, and do not leave
them, conforms. -/
theorem conforms_of_all {p : Prog E α} {Q : α → L → Prop} {P : {β : Type} → E β → Prop}
    (J : L → Prop) (hp : p.All P) (hl : J l)
    (hJ : ∀ {β : Type} (l : L) (e : E β) (b : β), J l → P e → A e b →
      M.ok l e b ∧ J (M.next l e b))
    (hQ : ∀ a l, J l → Q a l) : M.Conforms A p l Q := by
  induction p generalizing l with
  | ret a => exact hQ a l hl
  | act e k ih =>
    intro b hb
    obtain ⟨hok, hnext⟩ := hJ l e b hl hp.1 hb
    exact ⟨hok, ih b (hp.2 b) hnext hQ⟩
  | loop body k ihb ihk =>
    refine ⟨J, hl, fun l' hl' => ihb hp.1 hl' ?_⟩
    intro r l' hl'
    cases r with
    | none => exact hl'
    | some b => exact ihk b (hp.2 b) hl' hQ

/-- The same for the first part of a block. -/
theorem conforms_skip {x : ExceptT ε (Prog E) α} {f : α → ExceptT ε (Prog E) β}
    {Q : Except ε β → L → Prop} {P : {β : Type} → E β → Prop}
    (J : L → Prop) (hx : x.run.All P) (hl : J l)
    (hJ : ∀ {β : Type} (l : L) (e : E β) (b : β), J l → P e → A e b →
      M.ok l e b ∧ J (M.next l e b))
    (hf : ∀ a l, J l → M.Conforms A (f a).run l Q) (herr : ∀ e l, J l → Q (.error e) l) :
    M.Conforms A (x >>= f).run l Q :=
  conforms_then (conforms_of_all J hx hl hJ fun _ _ hl' => hl') hf herr

/-! ## Monitors without phases -/

/-- The monitor that lets every action pass that satisfies `P`. -/
def always (P : {β : Type} → E β → Prop) : Monitor E Unit where
  start := ()
  ok := fun _ e _ => P e
  next := fun _ _ _ => ()

theorem always_bind {P : {β : Type} → E β → Prop} {x : ExceptT ε (Prog E) α}
    {f : α → ExceptT ε (Prog E) β} {R : α → Prop} {Q : Except ε β → Unit → Prop}
    (hx : (always P).Conforms A x.run () fun r _ => ∀ a, r = .ok a → R a)
    (hf : ∀ a, R a → (always P).Conforms A (f a).run () Q) (herr : ∀ e, Q (.error e) ()) :
    (always P).Conforms A (x >>= f).run () Q :=
  conforms_then hx (fun a _ ha => hf a (ha a rfl)) fun e _ _ => herr e

theorem always_mono {p : Prog E α} {P P' : {β : Type} → E β → Prop} {Q : α → Unit → Prop}
    (hP : ∀ {β : Type} (e : E β), P e → P' e) (h : (always P).Conforms A p () Q) :
    (always P').Conforms A p () Q := by
  induction p with
  | ret a => exact h
  | act e k ih => exact fun b hb => ⟨hP e (h b hb).1, ih b (h b hb).2⟩
  | loop body k ihb ihk =>
    obtain ⟨J, hJ, hbody⟩ := h
    refine ⟨J, hJ, fun l hl => conforms_mono ?_ (ihb (hbody l hl))⟩
    intro r l' hr
    cases r with
    | none => exact hr
    | some b => exact ihk b hr

theorem always_of_all {p : Prog E α} {P P' : {β : Type} → E β → Prop} (hp : p.All P')
    (hP : ∀ {β : Type} (e : E β), P' e → P e) :
    (always P).Conforms A p () fun _ _ => True :=
  conforms_of_all (fun _ => True) hp trivial (fun _ e _ _ he _ => ⟨hP e he, trivial⟩)
    fun _ _ _ => trivial

/-! ## Layers -/

section Over

variable {L' : Type} {start : L'} {ok : {β : Type} → L × L' → E β → β → Prop}
  {next : {β : Type} → L × L' → E β → β → L'}

/-- A monitor whose phases have a second part.  The second part may look at
the first one, which goes on as before. -/
def above (M : Monitor E L) (start : L') (ok : {β : Type} → L × L' → E β → β → Prop)
    (next : {β : Type} → L × L' → E β → β → L') : Monitor E (L × L') where
  start := (M.start, start)
  ok := ok
  next := fun l e b => (M.next l.1 e b, next l e b)

theorem above_phase (h : List (Event E)) : ((M.above start ok next).phase h).1 = M.phase h := by
  induction h with
  | nil => rfl
  | cons ev h ih => simp only [phase, above, ← ih]

theorem above_phases (s : State T W R E) (t : T) :
    ((M.above start ok next).phases s t).1 = M.phases s t := above_phase _

/-- What the monitor below says about a program holds of the first part. -/
theorem conforms_above {p : Prog E α} {l : L × L'} {Q : α → L → Prop} {G : α → L × L' → Prop}
    (h : M.Conforms A p l.1 Q) (h' : (M.above start ok next).Conforms A p l G) :
    (M.above start ok next).Conforms A p l fun a l' => Q a l'.1 ∧ G a l' := by
  induction p generalizing l with
  | ret a => exact ⟨h, h'⟩
  | act e k ih => exact fun b hb => ⟨(h' b hb).1, ih b (h b hb).2 (h' b hb).2⟩
  | loop body k ihb ihk =>
    obtain ⟨J, hJ, hbody⟩ := h
    obtain ⟨J', hJ', hbody'⟩ := h'
    refine ⟨fun l => J l.1 ∧ J' l, ⟨hJ, hJ'⟩, fun l hl => ?_⟩
    refine conforms_mono ?_ (ihb (hbody l.1 hl.1) (hbody' l hl.2))
    intro r l' hr
    cases r with
    | none => exact hr
    | some b => exact ihk b hr.1 hr.2

end Over

/-! ## The invariant rule -/

section Runs

variable [DecidableEq T] {S : System T W O V E} {K : State T W R E → Label T O V → Prop}
  {w₀ : W} {prog : T → Prog E R} {s : State T W R E} {Q : T → R → L → Prop}

theorem phases_update (s : State T W R E) (w : W) (p : T → Prog E R) (t : T) (e : E β) (b : β) :
    M.phases (⟨w, p, Function.update s.hist t (⟨e, b⟩ :: s.hist t)⟩ : State T W R E) =
      Function.update (M.phases s) t (M.next (M.phases s t) e b) := by
  funext u
  by_cases h : u = t
  · subst h
    simp [phases, phase]
  · simp [phases, h]

omit [DecidableEq T] in
/-- The phases depend on the start and the next phase only. -/
theorem phases_congr {M' : Monitor E L} (hstart : M.start = M'.start)
    (hnext : ∀ {β : Type} (l : L) (e : E β) (b : β), M.next l e b = M'.next l e b)
    (s : State T W R E) (t : T) : M.phases s t = M'.phases s t := by
  have hphase (h : List (Event E)) : M.phase h = M'.phase h := by
    induction h with
    | nil => exact hstart
    | cons ev h ih => simp only [phase, ih, hnext]
  exact hphase _

/-- A step of one thread leaves the phases of the others alone. -/
theorem phases_step_of_ne {s s' : State T W R E} {t u : T} {o : O}
    (h : S.step s (.thread t o) = some s') (hu : u ≠ t) : M.phases s' u = M.phases s u := by
  rcases System.step_cases h with
    ⟨t', o', hl, β, e, k, b, w, -, -, rfl⟩ | ⟨t', o', hl, β, body, k, -, rfl⟩ | ⟨v, w, hl, -, rfl⟩
  · obtain ⟨rfl, rfl⟩ := Label.thread.inj hl
    rw [phases_update, Function.update_of_ne hu]
  · rfl
  · rfl

/-- What the actions of one program keep of the phase holds of the phase of
its thread. -/
theorem phase_reach {J : L → Prop} {P : {β : Type} → E β → Prop} {t : T} (h0 : J M.start)
    (hP : (prog t).All P)
    (hJ : ∀ {β : Type} (l : L) (e : E β) (b : β), J l → P e → J (M.next l e b))
    (h : S.Reach K (.initial w₀ prog) s) : J (M.phases s t) := by
  refine h.invariant (I := fun s => J (M.phases s t))
    (show J (M.phases (.initial w₀ prog) t) from h0) ?_
  intro s l s' hr ih _ hs
  rcases System.step_cases hs with
    ⟨u, o, -, β, e, k, b, w, hp, -, rfl⟩ | ⟨u, o, -, β, body, k, -, rfl⟩ | ⟨v, w, -, -, rfl⟩
  · rw [phases_update]
    by_cases hu : t = u
    · subst hu
      have hall := hr.all hP
      rw [hp] at hall
      rw [Function.update_self]
      exact hJ _ e b ih hall.1
    · rw [Function.update_of_ne hu]
      exact ih
  · exact ih
  · exact ih

/-- A step leaves the rest of a program in order, when the answer of an action
is one that `A` allows. -/
theorem conforms_step {s s' : State T W R E} {a : Label T O V} {t : T} {Q : R → L → Prop}
    (hs : S.step s a = some s')
    (hA : ∀ {β : Type} (o : O) (e : E β) (k : β → Prog E R) (b : β) (w : W), a = .thread t o →
      s.prog t = .act e k → S.exec t s.world e o = some (b, w) → A e b)
    (h : M.Conforms A (s.prog t) (M.phases s t) Q) :
    M.Conforms A (s'.prog t) (M.phases s' t) Q := by
  rcases System.step_cases hs with
    ⟨u, o, ha, β, e, k, b, w, hp, he, rfl⟩ | ⟨u, o, -, β, body, k, hp, rfl⟩ | ⟨v, w, -, -, rfl⟩
  · rw [phases_update]
    by_cases hu : t = u
    · subst hu
      rw [hp] at h
      simpa using (h b (hA o e k b w ha hp he)).2
    · simpa [hu] using h
  · change M.Conforms A (Function.update s.prog u (Prog.unroll body k) t) (M.phases s t) Q
    by_cases hu : t = u
    · subst hu
      rw [hp] at h
      simpa using conforms_unroll h
    · simpa [hu] using h
  · exact h

section Answers

variable (hcan : ∀ {β : Type} (s : State T W R E) (t : T) (e : E β) (o : O) (b : β) (w : W),
  S.Reach K (.initial w₀ prog) s → S.exec t s.world e o = some (b, w) → A e b)
include hcan

/-- In every state of a run the rest of a program that conforms still does. -/
theorem conforms_reach {t : T} {Q : R → L → Prop} (h0 : M.Conforms A (prog t) M.start Q)
    (h : S.Reach K (.initial w₀ prog) s) : M.Conforms A (s.prog t) (M.phases s t) Q :=
  h.invariant (I := fun s => M.Conforms A (s.prog t) (M.phases s t) Q) h0 fun _ _ _ hr ih _ hs =>
    conforms_step hs (fun _ _ _ _ _ _ _ he => hcan _ _ _ _ _ _ hr he) ih

/-- The next action of a program that conforms is in order. -/
theorem ok_reach {t : T} {Q : R → L → Prop} {e : E β} {k : β → Prog E R} {b : β}
    (h0 : M.Conforms A (prog t) M.start Q) (h : S.Reach K (.initial w₀ prog) s)
    (hp : s.prog t = .act e k) (hb : A e b) : M.ok (M.phases s t) e b := by
  have hc := conforms_reach hcan h0 h
  rw [hp] at hc
  exact (hc b hb).1

/-- A thread that has come to its end did so in a phase its program
promises. -/
theorem finished_reach {t : T} {Q : R → L → Prop} {r : R}
    (h0 : M.Conforms A (prog t) M.start Q) (h : S.Reach K (.initial w₀ prog) s)
    (hr : s.Finished t r) : Q r (M.phases s t) := by
  have hc := conforms_reach hcan h0 h
  unfold State.Finished at hr
  cases hp : s.prog t with
  | ret a =>
    rw [hp] at hr hc
    obtain rfl : a = r := by simpa using hr
    exact hc
  | act e k | loop body k => simp [hp, Prog.result] at hr

/-- The invariant rule.  An invariant of the world and the phases is kept by
every action that is in order and by every event of the environment.  It may also
say which threads have not come to their end, when a thread that comes to its end
only makes it weaker. -/
theorem invariant_live
    (hconf : ∀ t, M.Conforms A (prog t) M.start (Q t))
    {I : W → (T → L) → (T → Bool) → Prop}
    (hmono : ∀ w ph live live', (∀ t, live' t = true → live t = true) → I w ph live → I w ph live')
    (h0 : I w₀ (fun _ => M.start) fun _ => true)
    (hact : ∀ (s : State T W R E) (t : T) (o : O) {β : Type} (e : E β) (k : β → Prog E R) (b : β)
      (w : W), S.Reach K (.initial w₀ prog) s → I s.world (M.phases s) s.live →
      K s (.thread t o) → s.prog t = .act e k → S.exec t s.world e o = some (b, w) → A e b →
      M.ok (M.phases s t) e b →
      I w (Function.update (M.phases s) t (M.next (M.phases s t) e b)) s.live)
    (henv : ∀ (s : State T W R E) (v : V) (w : W), S.Reach K (.initial w₀ prog) s →
      I s.world (M.phases s) s.live → K s (.env v) → S.env s.world v = some w →
      I w (M.phases s) s.live)
    (h : S.Reach K (.initial w₀ prog) s) : I s.world (M.phases s) s.live := by
  -- A thread that takes a step was live before it.
  have hlive : ∀ (s : State T W R E) (t : T) (p : Prog E R), (s.prog t).isRet = false →
      ∀ u, (!(Function.update s.prog t p u).isRet) = true → s.live u = true := by
    intro s t p ht u hu
    by_cases hut : u = t
    · subst hut
      simp [State.live, ht]
    · simpa [State.live, hut] using hu
  refine h.invariant (I := fun s => I s.world (M.phases s) s.live)
    (hmono _ _ _ _ (fun _ _ => rfl) h0) ?_
  intro s l s' hr ih hk hs
  rcases System.step_cases hs with
    ⟨t, o, rfl, β, e, k, b, w, hp, he, rfl⟩ | ⟨t, o, -, β, body, k, hp, rfl⟩ | ⟨v, w, rfl, hv, rfl⟩
  · rw [phases_update]
    have hb := hcan _ _ _ _ _ _ hr he
    exact hmono _ _ _ _ (hlive s t (k b) (by rw [hp]; rfl))
      (hact s t o e k b w hr ih hk hp he hb (ok_reach hcan (hconf t) hr hp hb))
  · exact hmono _ _ _ _ (hlive s t _ (by rw [hp]; rfl)) ih
  · exact henv s v w hr ih hk hv

/-- The rule for an invariant of the world and the phases only. -/
theorem invariant
    (hconf : ∀ t, M.Conforms A (prog t) M.start (Q t))
    {I : W → (T → L) → Prop} (h0 : I w₀ fun _ => M.start)
    (hact : ∀ (s : State T W R E) (t : T) (o : O) {β : Type} (e : E β) (k : β → Prog E R) (b : β)
      (w : W), S.Reach K (.initial w₀ prog) s → I s.world (M.phases s) → K s (.thread t o) →
      s.prog t = .act e k → S.exec t s.world e o = some (b, w) → A e b →
      M.ok (M.phases s t) e b →
      I w (Function.update (M.phases s) t (M.next (M.phases s t) e b)))
    (henv : ∀ (s : State T W R E) (v : V) (w : W), S.Reach K (.initial w₀ prog) s →
      I s.world (M.phases s) → K s (.env v) → S.env s.world v = some w → I w (M.phases s))
    (h : S.Reach K (.initial w₀ prog) s) : I s.world (M.phases s) :=
  invariant_live hcan hconf (I := fun w ph _ => I w ph) (fun _ _ _ _ _ hI => hI) h0 hact henv h

end Answers

/-- Assume and guarantee: the answers of the actions follow from an invariant
of the world, the programs then only perform actions that satisfy `P`, and
such actions keep the invariant. -/
theorem always_invariant {P : T → {β : Type} → E β → Prop} {I : W → Prop}
    (hcan : ∀ (s : State T W R E) (t : T) (o : O) {β : Type} (e : E β) (k : β → Prog E R) (b : β)
      (w : W), S.Reach K (.initial w₀ prog) s → I s.world → K s (.thread t o) →
      s.prog t = .act e k → S.exec t s.world e o = some (b, w) → A e b)
    (hconf : ∀ t, (always (P t)).Conforms A (prog t) () fun _ _ => True) (h0 : I w₀)
    (hact : ∀ (s : State T W R E) (t : T) (o : O) {β : Type} (e : E β) (k : β → Prog E R) (b : β)
      (w : W), S.Reach K (.initial w₀ prog) s → I s.world → s.prog t = .act e k →
      S.exec t s.world e o = some (b, w) → P t e → I w)
    (henv : ∀ (s : State T W R E) (v : V) (w : W), S.Reach K (.initial w₀ prog) s → I s.world →
      S.env s.world v = some w → I w)
    (h : S.Reach K (.initial w₀ prog) s) :
    I s.world ∧ ∀ t, (always (P t)).Conforms A (s.prog t) () fun _ _ => True := by
  refine h.invariant
    (I := fun s => I s.world ∧ ∀ t, (always (P t)).Conforms A (s.prog t) () fun _ _ => True)
    ⟨h0, hconf⟩ ?_
  rintro s l s' hr ⟨hI, hall⟩ hk hs
  refine ⟨?_, fun t => conforms_step hs (M := always (P t)) ?_ (hall t)⟩
  · rcases System.step_cases hs with
      ⟨t, o, rfl, β, e, k, b, w, hp, he, rfl⟩ | ⟨t, o, -, β, body, k, -, rfl⟩ | ⟨v, w, -, hv, rfl⟩
    · have hc := hall t
      rw [hp] at hc
      exact hact s t o e k b w hr hI hp he (hc b (hcan s t o e k b w hr hI hk hp he)).1
    · exact hI
    · exact henv s v w hr hI hv
  · rintro β o e k b w rfl hp he
    exact hcan s t o e k b w hr hI hk hp he

end Runs

end Monitor

end Conc
