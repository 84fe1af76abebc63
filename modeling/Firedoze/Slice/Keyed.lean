import Mathlib.Data.List.Nodup

/-!
# Slices with keys

Programs keep records in a slice and find them by a key.  Three operations
change such a slice.

* `put` writes over the first record with the key, or appends a record.
* `cut` takes the first record with a key out.
* `filterInPlace` keeps the records that pass a test.  It writes them to the
  front of the array that it is still reading from.

Each of them leaves the records with other keys alone, and keeps keys distinct.
-/

namespace Slice

variable {α κ ε : Type} [DecidableEq κ] (key : α → κ)

/-- The index of the first record with a key. -/
def indexOf (k : κ) (xs : List α) : Option Nat := xs.findIdx? fun x => decide (key x = k)

/-- Write over the first record with the same key, or append. -/
def put (x : α) (xs : List α) : List α :=
  match indexOf key (key x) xs with
  | some i => xs.set i x
  | none => xs ++ [x]

/-- Take the first record with a key out. -/
def cut (k : κ) (xs : List α) : Option (List α) := (indexOf key k xs).map xs.eraseIdx

/-! ## Writing a record -/

variable {key} {x y : α} {k : κ} {xs : List α}

theorem indexOf_cons (k : κ) (y : α) (xs : List α) :
    indexOf key k (y :: xs) = if key y = k then some 0 else (indexOf key k xs).map (· + 1) := by
  simp [indexOf, List.findIdx?_cons]

theorem put_cons (x y : α) (xs : List α) :
    put key x (y :: xs) = if key y = key x then x :: xs else y :: put key x xs := by
  unfold put
  rw [indexOf_cons]
  split_ifs
  · rfl
  · cases indexOf key (key x) xs <;> rfl

theorem mem_put_self (x : α) (xs : List α) : x ∈ put key x xs := by
  induction xs with
  | nil => simp [put, indexOf]
  | cons y xs ih =>
    rw [put_cons]
    split_ifs <;> simp [ih]

theorem mem_of_mem_put (h : y ∈ put key x xs) : y = x ∨ y ∈ xs := by
  induction xs with
  | nil => simpa [put, indexOf] using h
  | cons z xs ih =>
    rw [put_cons] at h
    split_ifs at h
    · rcases List.mem_cons.mp h with rfl | h
      · exact Or.inl rfl
      · exact Or.inr (List.mem_cons_of_mem _ h)
    · rcases List.mem_cons.mp h with rfl | h
      · exact Or.inr List.mem_cons_self
      · exact (ih h).imp_right (List.mem_cons_of_mem _)

theorem mem_put_iff_of_ne (hne : key y ≠ key x) : y ∈ put key x xs ↔ y ∈ xs := by
  constructor
  · intro h
    rcases mem_of_mem_put h with rfl | h
    · exact absurd rfl hne
    · exact h
  · intro h
    induction xs with
    | nil => cases h
    | cons z xs ih =>
      rw [put_cons]
      rcases List.mem_cons.mp h with rfl | h
      · rw [if_neg hne]
        exact List.mem_cons_self
      · split_ifs
        · exact List.mem_cons_of_mem _ h
        · exact List.mem_cons_of_mem _ (ih h)

theorem nodup_put (h : (xs.map key).Nodup) : ((put key x xs).map key).Nodup := by
  induction xs with
  | nil => simp [put, indexOf]
  | cons y xs ih =>
    rw [List.map_cons, List.nodup_cons] at h
    rw [put_cons]
    split_ifs with hkey
    · rw [List.map_cons, List.nodup_cons, ← hkey]
      exact h
    · rw [List.map_cons, List.nodup_cons]
      refine ⟨fun hmem => ?_, ih h.2⟩
      obtain ⟨z, hz, hzkey⟩ := List.mem_map.mp hmem
      rcases mem_of_mem_put hz with rfl | hz
      · exact hkey hzkey.symm
      · exact h.1 (List.mem_map.mpr ⟨z, hz, hzkey⟩)

/-! ## Taking a record out -/

theorem exists_of_cut {ys : List α} (h : cut key k xs = some ys) :
    ∃ a x b, xs = a ++ x :: b ∧ ys = a ++ b ∧ key x = k := by
  induction xs generalizing ys with
  | nil => simp [cut, indexOf] at h
  | cons y xs ih =>
    unfold cut at h
    rw [indexOf_cons] at h
    split_ifs at h with hkey
    · exact ⟨[], y, xs, rfl, (Option.some.inj h).symm, hkey⟩
    · rw [Option.map_map] at h
      obtain ⟨i, hi, rfl⟩ := Option.map_eq_some_iff.mp h
      obtain ⟨a, x, b, hxs, hys, hx⟩ := @ih (xs.eraseIdx i) (by rw [cut, hi, Option.map_some])
      refine ⟨y :: a, x, b, by rw [hxs, List.cons_append], ?_, hx⟩
      simp [hys]

theorem sublist_of_cut {ys : List α} (h : cut key k xs = some ys) : ys.Sublist xs := by
  obtain ⟨a, x, b, rfl, rfl, -⟩ := exists_of_cut h
  exact (List.sublist_cons_self x b).append_left a

theorem mem_iff_of_cut {ys : List α} (h : cut key k xs = some ys) (hne : key y ≠ k) :
    y ∈ ys ↔ y ∈ xs := by
  obtain ⟨a, x, b, rfl, rfl, rfl⟩ := exists_of_cut h
  have hyx : y ≠ x := by
    rintro rfl
    exact hne rfl
  simp [hyx]

/-! ## Filtering in place -/

/-- Read the record at `i`, and write it at `n` if it is kept. -/
def filterLoop (keep : α → Except ε Bool) : Nat → Nat → Nat → List α → Except ε (List α)
  | 0, _, n, xs => .ok (xs.take n)
  | todo + 1, i, n, xs =>
      match xs[i]? with
      | none => .ok (xs.take n)
      | some x =>
          match keep x with
          | .error err => .error err
          | .ok true => filterLoop keep todo (i + 1) (n + 1) (xs.set n x)
          | .ok false => filterLoop keep todo (i + 1) n xs

/-- Keep the records that pass a test.  The first error ends the loop. -/
def filterInPlace (keep : α → Except ε Bool) (xs : List α) : Except ε (List α) :=
  filterLoop keep xs.length 0 0 xs

/-- The test does not reject the record. -/
def passes (keep : α → Except ε Bool) (x : α) : Bool :=
  match keep x with
  | .ok kept => kept
  | .error _ => true

theorem take_set_succ {n : Nat} (hn : n < xs.length) (x : α) :
    (xs.set n x).take (n + 1) = xs.take n ++ [x] := by
  rw [List.take_add_one, List.take_set_of_le (Nat.le_refl n), List.getElem?_set_self hn]
  rfl

/-- The loop has read more than it has written, so it reads what was there at its
start. -/
theorem filterLoop_eq {keep : α → Except ε Bool} {todo i n : Nat} {ys : List α} (hn : n ≤ i)
    (hlen : i + todo = xs.length) (h : filterLoop keep todo i n xs = .ok ys) :
    ys = xs.take n ++ (xs.drop i).filter (passes keep) := by
  induction todo generalizing i n xs with
  | zero =>
    rw [List.drop_eq_nil_of_le (by omega), List.filter_nil, List.append_nil]
    exact (Except.ok.inj h).symm
  | succ todo ih =>
    have hi : i < xs.length := by omega
    have hdrop : xs.drop i = xs[i] :: xs.drop (i + 1) := List.drop_eq_getElem_cons hi
    unfold filterLoop at h
    rw [List.getElem?_eq_getElem hi] at h
    dsimp only at h
    rw [hdrop, List.filter_cons]
    split at h
    · cases h
    · rename_i hkeep
      have hys := ih (Nat.succ_le_succ hn) (by rw [List.length_set]; omega) h
      rw [take_set_succ (by omega), List.drop_set_of_lt (by omega)] at hys
      rw [hys, if_pos (by simp [passes, hkeep]), List.append_assoc]
      rfl
    · rename_i hkeep
      have hys := ih (Nat.le_succ_of_le hn) (by omega) h
      rw [hys, if_neg (by simp [passes, hkeep])]

theorem filterInPlace_eq {keep : α → Except ε Bool} {ys : List α}
    (h : filterInPlace keep xs = .ok ys) : ys = xs.filter (passes keep) := by
  simpa using filterLoop_eq (Nat.le_refl 0) (Nat.zero_add _) h

end Slice
