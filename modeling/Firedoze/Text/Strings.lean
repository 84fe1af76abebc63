import Mathlib.Algebra.Ring.Int.Defs
import Mathlib.Algebra.Ring.Nat
import Mathlib.Data.List.Infix

/-!
# Strings as the standard library of Go takes them apart

`toLower`, `trimSpace`, `hasSuffix`, `trimSuffix`, `contains`,
`splitHostPort` and `joinHostPort` follow the functions of the packages
`strings` and `net` with these names.  A string is the list of its
characters.

Go lowers a string and trims its blanks by the tables of the package
`unicode`.  The tables are a parameter, `Unicode`, that carries the few laws
the proofs need.  `Unicode.ascii` is a table that satisfies them.

There are four groups of lemmas.

* How the functions act on an appended string.
* Which strings a function leaves alone.
* Where the characters of an answer come from.
* Which strings have a port (`splitHostPort_isSome_iff`).
-/

namespace Text

/-! ## Bytes -/

/-- A string of Go as it is stored. -/
abbrev Bytes := List UInt8

/-- The bytes of a string. -/
def bytes (s : String) : Bytes := s.toByteArray.data.toList

theorem bytes_injective : Function.Injective bytes := by
  intro s t h
  exact String.toByteArray_inj.mp (ByteArray.ext (Array.toList_inj.mp h))

/-! ## Tables -/

/-- The tables of the package `unicode` that the functions below read. -/
structure Unicode where
  toLower : Char → Char
  isSpace : Char → Bool
  toLower_toLower : ∀ c, toLower (toLower c) = toLower c
  isSpace_toLower : ∀ c, isSpace (toLower c) = isSpace c
  toLower_ascii : ∀ c : Char, c.toNat < 128 → toLower c = c.toLower
  isSpace_ascii : ∀ c : Char, c.toNat < 128 →
    isSpace c = decide (c.toNat = 32 ∨ 9 ≤ c.toNat ∧ c.toNat ≤ 13)

theorem toNat_toLower (c : Char) :
    c.toLower.toNat = if 65 ≤ c.toNat ∧ c.toNat ≤ 90 then c.toNat + 32 else c.toNat := by
  have hA : c.val ≥ 'A'.val ∧ c.val ≤ 'Z'.val ↔ 65 ≤ c.toNat ∧ c.toNat ≤ 90 := by
    rw [ge_iff_le, UInt32.le_iff_toNat_le, UInt32.le_iff_toNat_le]
    rfl
  unfold Char.toLower
  split
  · rename_i h
    have hn := hA.mp h
    rw [if_pos hn]
    show (c.val + ('a'.val - 'A'.val)).toNat = c.toNat + 32
    rw [UInt32.toNat_add]
    change (c.toNat + 32) % 2 ^ 32 = _
    omega
  · rename_i h
    rw [if_neg fun hn => h (hA.mpr hn)]

/-- The table that only knows the letters and blanks of ASCII. -/
def Unicode.ascii : Unicode where
  toLower := Char.toLower
  isSpace c := decide (c.toNat = 32 ∨ 9 ≤ c.toNat ∧ c.toNat ≤ 13)
  toLower_toLower c := by
    apply Char.toNat_inj.mp
    rw [toNat_toLower, toNat_toLower]
    split_ifs <;> omega
  isSpace_toLower c := by
    rw [toNat_toLower]
    split_ifs
    · simp only [decide_eq_decide]
      omega
    · rfl
  toLower_ascii _ _ := rfl
  isSpace_ascii _ _ := rfl

/-! ## Functions -/

variable (U : Unicode)

/-- `strings.ToLower`. -/
def toLower (s : String) : String := String.ofList (s.toList.map U.toLower)

/-- `strings.TrimSpace`. -/
def trimSpace (s : String) : String :=
  String.ofList ((s.toList.dropWhile U.isSpace).reverse.dropWhile U.isSpace).reverse

/-- `strings.HasSuffix`. -/
def hasSuffix (s suffix : String) : Bool := suffix.toList.isSuffixOf s.toList

/-- `strings.TrimSuffix`. -/
def trimSuffix (s suffix : String) : String :=
  if hasSuffix s suffix then
    String.ofList (s.toList.take (s.toList.length - suffix.toList.length))
  else s

/-- `strings.HasPrefix`. -/
def hasPrefix (s start : String) : Bool := start.toList.isPrefixOf s.toList

/-- `strings.TrimPrefix`. -/
def trimPrefix (s start : String) : String :=
  if hasPrefix s start then String.ofList (s.toList.drop start.toList.length) else s

/-- The position of the last occurrence of a character. -/
def lastIndexOf (c : Char) (s : List Char) : Option Nat :=
  (s.reverse.idxOf? c).map fun k => s.length - 1 - k

/-- `net.SplitHostPort` on a list of characters, with `none` for an error. -/
def splitHostPortList (s : List Char) : Option (List Char × List Char) :=
  match lastIndexOf ':' s with
  | none => none
  | some i =>
      match s with
      | '[' :: rest =>
          -- The first `]` has to stand right before the last colon.
          match rest.idxOf? ']' with
          | none => none
          | some e =>
              if e + 2 ≠ i then none
              else if '[' ∈ rest ∨ ']' ∈ s.drop (e + 2) then none
              else some (rest.take e, s.drop (i + 1))
      | s =>
          if ':' ∈ s.take i then none
          else if '[' ∈ s ∨ ']' ∈ s then none
          else some (s.take i, s.drop (i + 1))

/-- `net.SplitHostPort`, with `none` for an error. -/
def splitHostPort (s : String) : Option (String × String) :=
  (splitHostPortList s.toList).map fun (host, port) => (String.ofList host, String.ofList port)

/-- `net.JoinHostPort`. -/
def joinHostPort (host port : String) : String :=
  if ':' ∈ host.toList then "[" ++ host ++ "]:" ++ port else host ++ ":" ++ port

/-- `strings.Contains`. -/
def contains (s part : String) : Bool := decide (part.toList <:+: s.toList)

/-- `strings.Fields`. -/
def fields (s : String) : List String :=
  ((s.toList.splitOnP U.isSpace).filter (· ≠ [])).map String.ofList

/-- The strings are equal up to the case of ASCII letters. -/
def equalFold (s t : String) : Bool :=
  decide (s.toList.map Char.toLower = t.toList.map Char.toLower)

/-! ## Appended strings -/

variable {U} {s t : String}

@[simp] theorem toList_toLower : (toLower U s).toList = s.toList.map U.toLower := by
  simp [toLower]

theorem toLower_append : toLower U (s ++ t) = toLower U s ++ toLower U t := by
  simp [← String.toList_inj]

theorem hasSuffix_iff : hasSuffix s t = true ↔ ∃ u, s = u ++ t := by
  unfold hasSuffix
  rw [List.isSuffixOf_iff_suffix]
  constructor
  · rintro ⟨u, hu⟩
    exact ⟨String.ofList u, by simp [← String.toList_inj, hu]⟩
  · rintro ⟨u, rfl⟩
    exact ⟨u.toList, by simp⟩

theorem hasSuffix_append : hasSuffix (s ++ t) t = true := hasSuffix_iff.mpr ⟨s, rfl⟩

theorem trimSuffix_append : trimSuffix (s ++ t) t = s := by
  simp [trimSuffix, hasSuffix_append]

theorem trimSuffix_of_not (h : hasSuffix s t = false) : trimSuffix s t = s := by
  simp [trimSuffix, h]

/-- A suffix that is cut off can be put back. -/
theorem trimSuffix_append_of_hasSuffix (h : hasSuffix s t = true) : trimSuffix s t ++ t = s := by
  obtain ⟨u, rfl⟩ := hasSuffix_iff.mp h
  rw [trimSuffix_append]

theorem hasSuffix_dot_iff : hasSuffix s "." = true ↔ s.toList.getLast? = some '.' := by
  rw [hasSuffix_iff]
  constructor
  · rintro ⟨u, rfl⟩
    simp
  · intro h
    obtain ⟨u, hu⟩ := List.getLast?_eq_some_iff.mp h
    exact ⟨String.ofList u, by simp [← String.toList_inj, hu]⟩

/-! ## Strings that are left alone -/

/-- No character is changed by lowering. -/
def Lowered (U : Unicode) (s : String) : Prop := ∀ c ∈ s.toList, U.toLower c = c

theorem toLower_of_lowered (h : Lowered U s) : toLower U s = s := by
  rw [← String.toList_inj, toList_toLower]
  exact (List.map_congr_left h).trans (List.map_id _)

theorem lowered_toLower : Lowered U (toLower U s) := by
  intro c hc
  rw [toList_toLower] at hc
  obtain ⟨d, -, rfl⟩ := List.mem_map.mp hc
  exact U.toLower_toLower d

/-- The first and the last character are no blanks. -/
structure Trimmed (U : Unicode) (s : String) : Prop where
  first : ∀ c, s.toList.head? = some c → U.isSpace c = false
  last : ∀ c, s.toList.getLast? = some c → U.isSpace c = false

variable {l : List Char} {c : Char}

theorem dropWhile_of_head {p : Char → Bool} {l : List Char}
    (h : ∀ c, l.head? = some c → p c = false) : l.dropWhile p = l := by
  cases l with
  | nil => rfl
  | cons c l => simp [List.dropWhile, h c rfl]

theorem trimSpace_of_trimmed (h : Trimmed U s) : trimSpace U s = s := by
  unfold trimSpace
  rw [dropWhile_of_head h.first, dropWhile_of_head, List.reverse_reverse, String.ofList_toList]
  intro c hc
  exact h.last c (by rwa [List.head?_reverse] at hc)

theorem trimmed_of_forall (h : ∀ c ∈ s.toList, U.isSpace c = false) : Trimmed U s :=
  ⟨fun c hc => h c (List.mem_of_head? hc), fun c hc => h c (List.mem_of_getLast? hc)⟩

/-- What is left after trimming is trimmed. -/
theorem trimmed_trimSpace : Trimmed U (trimSpace U s) := by
  have hdrop : ∀ (l : List Char) c, (l.dropWhile U.isSpace).head? = some c →
      U.isSpace c = false := by
    intro l c hc
    have := List.head?_dropWhile_not U.isSpace l
    rw [hc] at this
    simpa using this
  unfold trimSpace
  refine ⟨fun c hc => ?_, fun c hc => ?_⟩
  · -- The first character of the result is that of the string without leading blanks.
    rw [String.toList_ofList] at hc
    have hpre : ((s.toList.dropWhile U.isSpace).reverse.dropWhile U.isSpace).reverse <+:
        s.toList.dropWhile U.isSpace := by
      have hsuf := List.dropWhile_suffix (l := (s.toList.dropWhile U.isSpace).reverse) U.isSpace
      simpa using List.reverse_prefix.mpr hsuf
    obtain ⟨u, hu⟩ := hpre
    refine hdrop s.toList c ?_
    rw [← hu, List.head?_append, hc]
    rfl
  · rw [String.toList_ofList, List.getLast?_reverse] at hc
    exact hdrop _ c hc

theorem trimmed_toLower (h : Trimmed U s) : Trimmed U (toLower U s) := by
  refine ⟨fun c hc => ?_, fun c hc => ?_⟩
  · rw [toList_toLower, List.head?_map] at hc
    obtain ⟨d, hd, rfl⟩ := Option.map_eq_some_iff.mp hc
    rw [U.isSpace_toLower]
    exact h.first d hd
  · rw [toList_toLower, List.getLast?_map] at hc
    obtain ⟨d, hd, rfl⟩ := Option.map_eq_some_iff.mp hc
    rw [U.isSpace_toLower]
    exact h.last d hd

/-! ## Where characters come from -/

theorem mem_trimSuffix (h : c ∈ (trimSuffix s t).toList) : c ∈ s.toList := by
  unfold trimSuffix at h
  split at h
  · rw [String.toList_ofList] at h
    exact List.mem_of_mem_take h
  · exact h

theorem head?_of_trimSuffix (h : (trimSuffix s t).toList.head? = some c) :
    s.toList.head? = some c := by
  unfold trimSuffix at h
  split at h
  · rw [String.toList_ofList, List.head?_take] at h
    split_ifs at h
    exact h
  · exact h

theorem lowered_trimSuffix (h : Lowered U s) : Lowered U (trimSuffix s t) :=
  fun c hc => h c (mem_trimSuffix hc)

theorem mem_splitHostPort {host port : String} (h : splitHostPort s = some (host, port))
    (hc : c ∈ host.toList) : c ∈ s.toList := by
  obtain ⟨⟨hs, ps⟩, hsplit, heq⟩ := Option.map_eq_some_iff.mp h
  cases heq
  rw [String.toList_ofList] at hc
  unfold splitHostPortList at hsplit
  split at hsplit
  · cases hsplit
  · split at hsplit
    · rename_i rest hrest
      split at hsplit
      · cases hsplit
      · split_ifs at hsplit
        cases hsplit
        rw [hrest]
        exact List.mem_cons_of_mem _ (List.mem_of_mem_take hc)
    · split_ifs at hsplit
      cases hsplit
      exact List.mem_of_mem_take hc

/-- A character is a separator, or stands in one of the parts. -/
theorem mem_splitOn (sep : Char) (hc : c ∈ l) :
    c = sep ∨ ∃ part ∈ l.splitOn sep, c ∈ part := by
  induction l with
  | nil => cases hc
  | cons d l ih =>
    rw [List.splitOn_cons_eq_if_modifyHead]
    split_ifs with hd
    · rcases List.mem_cons.mp hc with rfl | hc
      · exact Or.inl (by simpa using hd)
      · exact (ih hc).imp_right fun ⟨part, hpart, h⟩ => ⟨part, List.mem_cons_of_mem _ hpart, h⟩
    · obtain ⟨first, rest, hsplit⟩ := List.exists_cons_of_ne_nil (List.splitOn_ne_nil sep l)
      rw [hsplit, List.modifyHead_cons]
      rcases List.mem_cons.mp hc with rfl | hc
      · exact Or.inr ⟨c :: first, List.mem_cons_self, List.mem_cons_self⟩
      · refine (ih hc).imp_right fun ⟨part, hpart, h⟩ => ?_
        rw [hsplit] at hpart
        rcases List.mem_cons.mp hpart with rfl | hpart
        · exact ⟨d :: part, List.mem_cons_self, List.mem_cons_of_mem _ h⟩
        · exact ⟨part, List.mem_cons_of_mem _ hpart, h⟩

/-- A string whose parts are not empty does not end in a separator. -/
theorem getLast?_ne_of_splitOn {sep : Char} (h : [] ∉ l.splitOn sep) :
    l.getLast? ≠ some sep := by
  intro hlast
  obtain ⟨u, rfl⟩ := List.getLast?_eq_some_iff.mp hlast
  exact h (by simp [List.splitOn_append_cons_self])

/-! ## Hosts and ports -/

/-- The table lowers no other character to one that takes a host and a port
apart. -/
def Unicode.Punctual (U : Unicode) : Prop :=
  ∀ c, ∀ p ∈ ['.', ':', '[', ']'], U.toLower c = p → c = p

theorem Unicode.punctual_ascii : Unicode.ascii.Punctual := by
  intro c p hp hc
  have hnat := toNat_toLower c
  have hlow : c.toLower.toNat = p.toNat := congrArg Char.toNat hc
  rw [hlow] at hnat
  apply Char.toNat_inj.mp
  simp only [List.mem_cons, List.not_mem_nil, or_false] at hp
  rcases hp with rfl | rfl | rfl | rfl <;>
    (revert hnat; simp only [Char.reduceToNat]; split_ifs <;> omega)

/-- Lowering keeps the places of these characters. -/
theorem Unicode.Punctual.toLower_eq_iff (h : U.Punctual) {c p : Char}
    (hp : p ∈ ['.', ':', '[', ']']) : U.toLower c = p ↔ c = p := by
  refine ⟨h c p hp, ?_⟩
  rintro rfl
  simp only [List.mem_cons, List.not_mem_nil, or_false] at hp
  rcases hp with rfl | rfl | rfl | rfl <;>
    exact (U.toLower_ascii _ (by decide)).trans (by decide)

theorem Unicode.Punctual.mem_map_iff (h : U.Punctual) {p : Char} (hp : p ∈ ['.', ':', '[', ']']) :
    p ∈ l.map U.toLower ↔ p ∈ l := by
  simp [h.toLower_eq_iff hp]

theorem Unicode.Punctual.count_map (h : U.Punctual) {p : Char} (hp : p ∈ ['.', ':', '[', ']']) :
    (l.map U.toLower).count p = l.count p := by
  simp only [List.count, List.countP_map]
  refine List.countP_congr fun c _ => ?_
  simp [h.toLower_eq_iff hp]

/-- Blanks of a string do not stand in the way of the next field. -/
theorem fields_append (hne : s ≠ "") (h : ∀ c ∈ s.toList, U.isSpace c = false) :
    fields U (s ++ " " ++ t) = s :: fields U t := by
  have hspace : U.isSpace ' ' = true := (U.isSpace_ascii ' ' (by decide)).trans (by decide)
  have hlist : (s ++ " " ++ t).toList = s.toList ++ ' ' :: t.toList := by simp
  unfold fields
  rw [hlist, List.splitOnP_append_cons_of_forall_mem h ' ' hspace,
    List.filter_cons_of_pos (by simpa using hne)]
  simp

theorem fields_of_no_space (hne : s ≠ "") (h : ∀ c ∈ s.toList, U.isSpace c = false) :
    fields U s = [s] := by
  unfold fields
  rw [List.splitOnP_eq_singleton h, List.filter_cons_of_pos (by simpa using hne)]
  simp

/-- A string without a colon has no port. -/
theorem splitHostPort_of_no_colon (h : ':' ∉ s.toList) : splitHostPort s = none := by
  have hidx : s.toList.reverse.idxOf? ':' = none := by
    simpa [List.idxOf?_eq_none_iff] using h
  simp [splitHostPort, splitHostPortList, lastIndexOf, hidx]

theorem lastIndexOf_append {a b : List Char} (hb : c ∉ b) :
    lastIndexOf c (a ++ c :: b) = some a.length := by
  have hidx : (a ++ c :: b).reverse.idxOf? c = some b.length := by
    rw [List.idxOf?_eq_some_iff]
    refine ⟨by simp, by simp, fun j hj hc => hb ?_⟩
    have hget : (a ++ c :: b).reverse[j]? = b.reverse[j]? := by
      rw [List.reverse_append, List.reverse_cons, List.append_assoc,
        List.getElem?_append_left (by simpa using hj)]
    rw [← List.mem_reverse]
    exact List.mem_of_getElem? (hget.symm.trans (List.getElem?_eq_some_iff.mpr ⟨_, hc⟩))
  rw [lastIndexOf, hidx]
  simp only [Option.map_some, List.length_append, List.length_cons]
  congr 1
  omega

theorem exists_lastIndexOf (h : c ∈ l) :
    ∃ i, lastIndexOf c l = some i := by
  have hsome : (l.reverse.idxOf? c).isSome := by
    rw [List.isSome_idxOf?]
    exact List.mem_reverse.mpr h
  obtain ⟨k, hk⟩ := Option.isSome_iff_exists.mp hsome
  exact ⟨l.length - 1 - k, by rw [lastIndexOf, hk, Option.map_some]⟩

/-- A string that does not start with a bracket is split at its only colon. -/
theorem splitHostPortList_append {a b : List Char} (hb : ':' ∉ b)
    (hhead : (a ++ ':' :: b).head? ≠ some '[') :
    splitHostPortList (a ++ ':' :: b) =
      if ':' ∈ a ∨ '[' ∈ a ++ ':' :: b ∨ ']' ∈ a ++ ':' :: b then none else some (a, b) := by
  unfold splitHostPortList
  rw [lastIndexOf_append hb]
  simp only
  split
  · rename_i rest hrest
    rw [hrest] at hhead
    exact absurd rfl hhead
  · have htake : (a ++ ':' :: b).take a.length = a := by simp
    have hdrop : (a ++ ':' :: b).drop (a.length + 1) = b := by
      rw [← List.drop_drop]
      simp
    rw [htake, hdrop]
    split_ifs <;> tauto

/-- The last colon of a string. -/
theorem exists_last_colon (h : ':' ∈ l) : ∃ a b, l = a ++ ':' :: b ∧ ':' ∉ b := by
  obtain ⟨a, b, hl, ha⟩ := List.eq_append_cons_of_mem (List.mem_reverse.mpr h)
  refine ⟨b.reverse, a.reverse, ?_, by simpa using ha⟩
  rw [← List.reverse_reverse l, hl]
  simp

/-- The string would be taken for a host and a port. -/
def looksLikePort (s : String) : Bool :=
  decide (s.toList.count ':' = 1 ∧ '[' ∉ s.toList ∧ ']' ∉ s.toList)

/-- A string that does not start with a bracket has a port when it has one
colon and no brackets. -/
theorem splitHostPort_isSome_iff (hhead : s.toList.head? ≠ some '[') :
    (splitHostPort s).isSome = true ↔ looksLikePort s = true := by
  by_cases hcolon : ':' ∈ s.toList
  · obtain ⟨a, b, hs, hb⟩ := exists_last_colon hcolon
    rw [splitHostPort, Option.isSome_map, hs, splitHostPortList_append hb (hs ▸ hhead),
      looksLikePort, hs]
    have hcount : (a ++ ':' :: b).count ':' = 1 ↔ ':' ∉ a := by
      rw [List.count_append, List.count_cons_self, List.count_eq_zero_of_not_mem hb,
        ← List.count_eq_zero]
      omega
    rw [decide_eq_true_eq, hcount]
    split_ifs with h
    · simp only [Option.isSome_none, Bool.false_eq_true, false_iff]
      tauto
    · simp only [Option.isSome_some, true_iff]
      tauto
  · simp [splitHostPort_of_no_colon hcolon, looksLikePort, List.count_eq_zero_of_not_mem hcolon]

/-- The host in front of a port has no colon. -/
theorem colon_not_mem_of_splitHostPort {host port : String} (hhead : s.toList.head? ≠ some '[')
    (h : splitHostPort s = some (host, port)) : ':' ∉ host.toList := by
  have hport := (splitHostPort_isSome_iff hhead).mp (by rw [h]; rfl)
  have hcolon : ':' ∈ s.toList := by
    rw [← List.count_pos_iff, (of_decide_eq_true hport).1]
    exact Nat.one_pos
  obtain ⟨a, b, hs, hb⟩ := exists_last_colon hcolon
  obtain ⟨⟨hs', ps⟩, hsplit, heq⟩ := Option.map_eq_some_iff.mp h
  cases heq
  rw [hs, splitHostPortList_append hb (hs ▸ hhead)] at hsplit
  split_ifs at hsplit with hif
  cases hsplit
  rw [String.toList_ofList]
  exact fun hmem => hif (Or.inl hmem)

end Text
