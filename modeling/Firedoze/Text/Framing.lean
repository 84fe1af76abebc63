import Firedoze.Text.Strings

/-!
# Framed bytes

`frame` marks each byte, and the end, so that a reader knows where the bytes
stop.  `unframe` reads them back from a longer text (`unframe_frame`) and finds
that they are cut short (`unframe_cut`).  The plain codecs are made of frames.
-/

namespace Text

/-- Each byte behind a one, and a zero at the end. -/
def frame : Bytes → Bytes
  | [] => [0]
  | b :: bs => 1 :: b :: frame bs

/-- The framed bytes at the beginning of a text, and the rest. -/
def unframe : Bytes → Option (Bytes × Bytes)
  | [] => none
  | [mark] => if mark = 0 then some ([], []) else none
  | mark :: b :: rest =>
      if mark = 0 then some ([], b :: rest)
      else (unframe rest).map fun r => (b :: r.1, r.2)

theorem unframe_frame (bs rest : Bytes) : unframe (frame bs ++ rest) = some (bs, rest) := by
  induction bs with
  | nil => cases rest <;> rfl
  | cons b bs ih =>
    change (unframe (frame bs ++ rest)).map _ = _
    rw [ih]
    rfl

theorem unframe_cut {p bs : Bytes} (h : p <+: frame bs) (hne : p ≠ frame bs) :
    unframe p = none := by
  induction bs generalizing p with
  | nil =>
    cases p with
    | nil => rfl
    | cons mark p =>
      obtain ⟨rfl, hp⟩ := List.cons_prefix_cons.mp h
      exact absurd (by rw [List.prefix_nil.mp hp]; rfl) hne
  | cons b bs ih =>
    match p, h with
    | [], _ => rfl
    | [mark], h =>
      obtain ⟨rfl, -⟩ := List.cons_prefix_cons.mp h
      rfl
    | mark :: b' :: p, h =>
      obtain ⟨rfl, h'⟩ := List.cons_prefix_cons.mp h
      obtain ⟨rfl, hp⟩ := List.cons_prefix_cons.mp h'
      change (unframe p).map _ = none
      rw [ih hp fun heq => hne (by rw [heq]; rfl)]
      rfl

theorem unframe_shorter {text bs rest : Bytes} (h : unframe text = some (bs, rest)) :
    rest.length < text.length := by
  fun_induction unframe text generalizing bs with
  | case1 | case3 => cases h
  | case2 | case4 b tail =>
    cases h
    simp
  | case5 mark b tail hmark ih =>
    obtain ⟨r, hr, heq⟩ := Option.map_eq_some_iff.mp h
    cases heq
    have hlt := ih hr
    simp only [List.length_cons]
    omega

/-- Framed bytes are told apart from what follows. -/
theorem frame_append_inj {a b rest rest' : Bytes} (h : frame a ++ rest = frame b ++ rest') :
    a = b ∧ rest = rest' := by
  have hread := unframe_frame a rest
  rw [h, unframe_frame] at hread
  obtain ⟨hb, hrest⟩ := Prod.mk.inj (Option.some.inj hread)
  exact ⟨hb.symm, hrest.symm⟩

end Text
