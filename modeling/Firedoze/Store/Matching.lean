import Firedoze.Model.World
import Firedoze.Text.Pattern

/-!
# Listing VMs by patterns

`ListVMsMatching` of `internal/store/vms.go` lists the VMs whose names match one of
some patterns.  `GlobToLike` translates a pattern, and the database matches the
names with `like`.

`GlobMatches` is the meaning of the patterns.  `globToLike_like` says that the
translation keeps it, and `listVMsMatching_exact` says what is listed.
-/

namespace Firedoze

open Text.Pattern

/-! ## The source -/

/-- One character of `GlobToLike`. -/
def globCharToLike (c : Char) : List Char :=
  if c = '*' then ['%']
  else if c = '?' then ['_']
  else if c = '%' ∨ c = '_' ∨ c = '\\' then ['\\', c]
  else [c]

/-- `GlobToLike`. -/
def globToLike (pattern : String) : List Char := pattern.toList.flatMap globCharToLike

/-- The `where` clause of `ListVMsMatching`. -/
def nameMatches (patterns : List String) (name : String) : Bool :=
  patterns.isEmpty || patterns.any fun pattern => like '\\' (globToLike pattern) name.toList

/-- `ListVMsMatching`. -/
def Store.listVMsMatching (s : Store) (patterns : List String) : List VM :=
  (((List.range s.nextUuid).filterMap fun u => (s.vms u).map fun r => (⟨r, u⟩ : VM)).filter
    fun vm => nameMatches patterns vm.name).insertionSort fun a b => a.name ≤ b.name

/-! ## What a pattern means -/

/-- The pattern matches the text: `*` stands for any string, `?` for any character,
and any other character for itself, in either case. -/
inductive GlobMatches : List Char → List Char → Prop
  | nil : GlobMatches [] []
  | star {pattern text : List Char} (skipped : List Char) (h : GlobMatches pattern text) :
      GlobMatches ('*' :: pattern) (skipped ++ text)
  | question {pattern text : List Char} (c : Char) (h : GlobMatches pattern text) :
      GlobMatches ('?' :: pattern) (c :: text)
  | char {pattern text : List Char} {c d : Char} (hstar : c ≠ '*') (hquestion : c ≠ '?')
      (hc : c.toLower = d.toLower) (h : GlobMatches pattern text) :
      GlobMatches (c :: pattern) (d :: text)

/-- The item that a character of a pattern stands for. -/
def globItem (c : Char) : Item :=
  if c = '*' then .any else if c = '?' then .one else .lit c

theorem matches_map_globItem_iff {pattern text : List Char} :
    Matches (pattern.map globItem) text ↔ GlobMatches pattern text := by
  constructor
  · intro h
    induction pattern generalizing text with
    | nil =>
      cases h
      exact .nil
    | cons c pattern ih =>
      rw [List.map_cons, globItem] at h
      split_ifs at h with hstar hquestion
      · subst hstar
        cases h with
        | any skipped h => exact .star skipped (ih h)
      · subst hquestion
        cases h with
        | one d h => exact .question d (ih h)
      · cases h with
        | lit hc h => exact .char hstar hquestion hc (ih h)
  · intro h
    induction h with
    | nil => exact .nil
    | star skipped _ ih => exact .any skipped ih
    | question c _ ih => exact .one c ih
    | char hstar hquestion hc _ ih =>
      rw [List.map_cons, globItem, if_neg hstar, if_neg hquestion]
      exact .lit hc ih

/-- The translation neither loses nor makes a wildcard. -/
theorem likeItems_globToLike (pattern : List Char) :
    likeItems '\\' (pattern.flatMap globCharToLike) = some (pattern.map globItem) := by
  induction pattern with
  | nil => rfl
  | cons c pattern ih =>
    rw [List.flatMap_cons, List.map_cons, globCharToLike, globItem]
    split_ifs with hstar hquestion hescaped
    · rw [List.cons_append, List.nil_append, likeItems_cons (by decide), ih]
      rfl
    · rw [List.cons_append, List.nil_append, likeItems_cons (by decide), ih]
      rfl
    · rw [List.cons_append, List.cons_append, List.nil_append, likeItems_escaped hescaped, ih]
      rfl
    · push Not at hescaped
      have hitem : likeItem c = .lit c := by simp [likeItem, hescaped]
      rw [List.cons_append, List.nil_append, likeItems_cons hescaped.2.2, ih, hitem]
      rfl

/-- The database finds the names that the pattern matches. -/
theorem globToLike_like (pattern name : String) :
    like '\\' (globToLike pattern) name.toList = true ↔
      GlobMatches pattern.toList name.toList := by
  rw [like, globToLike, likeItems_globToLike, Option.any_some, matchItems_iff,
    matches_map_globItem_iff]

/-! ## What is listed -/

theorem nameMatches_iff {patterns : List String} {name : String} :
    nameMatches patterns name = true ↔
      patterns = [] ∨ ∃ pattern ∈ patterns, GlobMatches pattern.toList name.toList := by
  simp [nameMatches, globToLike_like]

/-- The listing of a store. -/
structure ListsMatching (s : Store) (patterns : List String) (vms : List VM) : Prop where
  sorted : vms.Pairwise fun a b => a.name ≤ b.name
  nodup : vms.Nodup
  mem_iff : ∀ vm : VM, vm ∈ vms ↔
    (vm.uuid < s.nextUuid ∧ s.vms vm.uuid = some vm.toVMRow) ∧
      (patterns = [] ∨ ∃ pattern ∈ patterns, GlobMatches pattern.toList vm.name.toList)

theorem Store.listVMsMatching_exact (s : Store) (patterns : List String) :
    ListsMatching s patterns (s.listVMsMatching patterns) := by
  refine ⟨?_, ?_, fun vm => ?_⟩
  · exact List.pairwise_insertionSort _ _
  · refine (List.perm_insertionSort _ _).nodup_iff.mpr (List.Nodup.filter _ ?_)
    refine List.nodup_range.filterMap ?_
    intro u v vm hu hv
    obtain ⟨r, -, rfl⟩ := Option.map_eq_some_iff.mp hu
    obtain ⟨r', -, heq⟩ := Option.map_eq_some_iff.mp hv
    exact (congrArg VM.uuid heq).symm
  · unfold listVMsMatching
    rw [(List.perm_insertionSort _ _).mem_iff, List.mem_filter, nameMatches_iff,
      List.mem_filterMap]
    refine and_congr_left fun _ => ⟨?_, ?_⟩
    · rintro ⟨u, hu, hvm⟩
      obtain ⟨r, hr, rfl⟩ := Option.map_eq_some_iff.mp hvm
      exact ⟨List.mem_range.mp hu, hr⟩
    · rintro ⟨hlt, hrow⟩
      exact ⟨vm.uuid, List.mem_range.mpr hlt, by rw [hrow]; rfl⟩

end Firedoze
