import Firedoze.Text.Lines
import Firedoze.Text.Strings

/-!
# Users and groups of a guest image

`ensureNamedLineText` and `ensureGroupMemberText` of
`cmd/firedoze-image-builder/main.go` edit the files `passwd`, `shadow`, `group`
and `gshadow` of a guest image.  The first one replaces the line of a user, the
second one adds a member to a group.

Both functions take a text apart into lines, edit some of the lines, add one line
if there was none to edit, and join the lines.  `editLines` is this step, and
`linesOf_editLines` says which lines the text has afterwards.  What the two
functions do follows from it: `namedLine_sound` and `groupMember_sound`.

An empty list of members is the empty text, so an empty member cannot be added to
it (`empty_member_not_listed`).
-/

namespace Firedoze.ImageBuilder

open Text

/-! ## Separators -/

def newline : UInt8 := 10

def colon : UInt8 := 58

def comma : UInt8 := 44

/-- The text holds no separator. -/
structure Plain (s : Bytes) : Prop where
  newline : newline ∉ s
  colon : colon ∉ s
  comma : comma ∉ s

/-! ## Lines and members -/

/-- `nonemptyLines`. -/
def nonemptyLines (text : Bytes) : List Bytes := linesOf newline text

/-- `splitCSV`. -/
def splitCSV (value : Bytes) : List Bytes := splitList comma value

/-- Edit the lines that a test selects, or add a line if it selects none. -/
def editLines (text : Bytes) (selects : Bytes → Bool) (edit : Bytes → Bytes) (line : Bytes) :
    Bytes :=
  let lines := nonemptyLines text
  textOf newline
    (if lines.any selects then lines.map fun l => if selects l then edit l else l
    else lines ++ [line])

/-- `ensureNamedLineText`. -/
def ensureNamedLineText (text name line : Bytes) : Bytes :=
  editLines text (fun current => (name ++ [colon]).isPrefixOf current) (fun _ => line) line

/-- The fields of a line behind the first one. -/
structure GroupEntry where
  password : Bytes
  gid : Bytes
  members : Bytes
  deriving DecidableEq, Repr

/-- The entry of a group, if the line is one. -/
def groupEntry (name line : Bytes) : Option GroupEntry :=
  match line.splitOn colon with
  | [first, password, gid, members] => if first = name then some ⟨password, gid, members⟩ else none
  | _ => none

/-- The line of an entry. -/
def groupLine (name : Bytes) (entry : GroupEntry) : Bytes :=
  [colon].intercalate [name, entry.password, entry.gid, entry.members]

/-- The members of an entry, with one more. -/
def addMember (member : Bytes) (entry : GroupEntry) : GroupEntry :=
  let members := splitCSV entry.members
  { entry with
    members := [comma].intercalate (if member ∈ members then members else members ++ [member]) }

/-- `ensureGroupMemberText`. -/
def ensureGroupMemberText (text name password gid member : Bytes) : Bytes :=
  editLines text (fun line => (groupEntry name line).isSome)
    (fun line =>
      ((groupEntry name line).map fun entry => groupLine name (addMember member entry)).getD line)
    (groupLine name ⟨password, gid, member⟩)

/-! ## Edits of lines -/

section Edit

variable {selects : Bytes → Bool} {edit : Bytes → Bytes} {line : Bytes}

/-- The edited lines are lines again, and are selected again. -/
structure Edits (selects : Bytes → Bool) (edit : Bytes → Bytes) (line : Bytes) : Prop where
  edit_newline : ∀ l, newline ∉ l → selects l = true → newline ∉ edit l
  edit_ne : ∀ l, selects l = true → edit l ≠ []
  edit_selects : ∀ l, newline ∉ l → selects l = true → selects (edit l) = true
  line_newline : newline ∉ line
  line_selects : selects line = true
  line_ne : line ≠ []

theorem areLines_map {lines : List Bytes} (h : AreLines newline lines)
    (hedit : Edits selects edit line) :
    AreLines newline (lines.map fun l => if selects l then edit l else l) := by
  constructor
  · intro l hl
    obtain ⟨l₀, hl₀, rfl⟩ := List.mem_map.mp hl
    split_ifs with hs
    · exact hedit.edit_newline l₀ (h.not_mem l₀ hl₀) hs
    · exact h.not_mem l₀ hl₀
  · rw [List.getLast?_map]
    intro hlast
    obtain ⟨l₀, hl₀, heq⟩ := Option.map_eq_some_iff.mp hlast
    split_ifs at heq with hs
    · exact hedit.edit_ne l₀ hs heq
    · exact h.last_ne (by rw [hl₀, heq])

theorem areLines_concat {lines : List Bytes} (h : AreLines newline lines)
    (hline : newline ∉ line) (hne : line ≠ []) : AreLines newline (lines ++ [line]) := by
  constructor
  · intro l hl
    rcases List.mem_append.mp hl with hl | hl
    · exact h.not_mem l hl
    · rwa [List.mem_singleton.mp hl]
  · simpa using hne

/-- The lines after an edit. -/
theorem linesOf_editLines (hedit : Edits selects edit line) (text : Bytes) :
    nonemptyLines (editLines text selects edit line) =
      if (nonemptyLines text).any selects then
        (nonemptyLines text).map fun l => if selects l then edit l else l
      else nonemptyLines text ++ [line] := by
  have hlines : AreLines newline (nonemptyLines text) := areLines_linesOf _ _
  unfold editLines nonemptyLines
  rw [linesOf_textOf]
  split_ifs
  · exact areLines_map hlines hedit
  · exact areLines_concat hlines hedit.line_newline hedit.line_ne

/-- The lines that are not selected stay, and stay in order. -/
theorem filter_editLines (hedit : Edits selects edit line) (text : Bytes) :
    (nonemptyLines (editLines text selects edit line)).filter (fun l => !selects l) =
      (nonemptyLines text).filter fun l => !selects l := by
  have hmem : ∀ l ∈ nonemptyLines text, newline ∉ l := (areLines_linesOf _ _).not_mem
  rw [linesOf_editLines hedit]
  split_ifs
  · generalize nonemptyLines text = lines at hmem
    induction lines with
    | nil => rfl
    | cons l lines ih =>
      have hrest := ih fun l' hl' => hmem l' (List.mem_cons_of_mem _ hl')
      rw [List.map_cons]
      by_cases hs : selects l = true
      · have hs' := hedit.edit_selects l (hmem l List.mem_cons_self) hs
        simpa [hs, hs'] using hrest
      · simpa [hs] using hrest
  · rw [List.filter_append]
    simp [hedit.line_selects]

/-- A second edit finds what the first one wrote. -/
theorem editLines_editLines (hedit : Edits selects edit line)
    (hidem : ∀ l, newline ∉ l → selects l = true → edit (edit l) = edit l)
    (hline : edit line = line) (text : Bytes) :
    editLines (editLines text selects edit line) selects edit line =
      editLines text selects edit line := by
  have hmem : ∀ l ∈ nonemptyLines text, newline ∉ l := (areLines_linesOf _ _).not_mem
  have hlines := linesOf_editLines hedit text
  have htext : editLines text selects edit line =
      textOf newline (nonemptyLines (editLines text selects edit line)) := by
    rw [hlines]
    rfl
  -- Every line is selected and edited a second time, or is left alone twice.
  have hsame : (nonemptyLines (editLines text selects edit line)).map
      (fun l => if selects l then edit l else l) =
        nonemptyLines (editLines text selects edit line) := by
    rw [hlines]
    split_ifs with hany
    · rw [List.map_map]
      refine List.map_congr_left fun l hl => ?_
      simp only [Function.comp_apply]
      by_cases hs : selects l = true
      · rw [if_pos hs, if_pos (hedit.edit_selects l (hmem l hl) hs), hidem l (hmem l hl) hs]
      · rw [if_neg hs, if_neg hs]
    · rw [List.map_append, List.map_singleton, if_pos hedit.line_selects, hline]
      congr 1
      conv_rhs => rw [← List.map_id (nonemptyLines text)]
      refine List.map_congr_left fun l hl => if_neg ?_
      exact fun hs => hany (List.any_eq_true.mpr ⟨l, hl, hs⟩)
  have hany : (nonemptyLines (editLines text selects edit line)).any selects = true := by
    rw [hlines]
    split_ifs with hany
    · obtain ⟨l, hl, hs⟩ := List.any_eq_true.mp hany
      refine List.any_eq_true.mpr ⟨edit l, List.mem_map.mpr ⟨l, hl, if_pos hs⟩, ?_⟩
      exact hedit.edit_selects l (hmem l hl) hs
    · simp [hedit.line_selects]
  conv_rhs => rw [htext]
  rw [editLines, if_pos hany, hsame]

end Edit

/-! ## The line of a user -/

/-- What `ensureNamedLineText` does to every text. -/
structure NamedLineSound (name line : Bytes) : Prop where
  idempotent : ∀ text, ensureNamedLineText (ensureNamedLineText text name line) name line =
    ensureNamedLineText text name line
  others : ∀ text,
    (nonemptyLines (ensureNamedLineText text name line)).filter
        (fun l => !(name ++ [colon]).isPrefixOf l) =
      (nonemptyLines text).filter fun l => !(name ++ [colon]).isPrefixOf l
  contains : ∀ text, line ∈ nonemptyLines (ensureNamedLineText text name line)

theorem namedLine_sound {name line : Bytes} (hline : newline ∉ line)
    (hname : name ++ [colon] <+: line) : NamedLineSound name line := by
  have hselects : (name ++ [colon]).isPrefixOf line = true := List.isPrefixOf_iff_prefix.mpr hname
  have hne : line ≠ [] := by
    rintro rfl
    simp at hname
  have hedit : Edits (fun current => (name ++ [colon]).isPrefixOf current) (fun _ => line) line :=
    ⟨fun _ _ _ => hline, fun _ _ => hne, fun _ _ _ => hselects, hline, hselects, hne⟩
  refine ⟨editLines_editLines hedit (fun _ _ _ => rfl) rfl, filter_editLines hedit, fun text => ?_⟩
  rw [ensureNamedLineText, linesOf_editLines hedit]
  split_ifs with hany
  · obtain ⟨l, hl, hs⟩ := List.any_eq_true.mp hany
    exact List.mem_map.mpr ⟨l, hl, if_pos hs⟩
  · simp

/-! ## The entry of a group -/

section Group

variable {name line member : Bytes} {entry : GroupEntry}

/-- No field of the entry holds the byte. -/
structure GroupEntry.Free (x : UInt8) (entry : GroupEntry) : Prop where
  password : x ∉ entry.password
  gid : x ∉ entry.gid
  members : x ∉ entry.members

theorem groupEntry_groupLine (hname : colon ∉ name) (h : entry.Free colon) :
    groupEntry name (groupLine name entry) = some entry := by
  have hfields : ∀ field ∈ [name, entry.password, entry.gid, entry.members], colon ∉ field := by
    simp [hname, h.password, h.gid, h.members]
  unfold groupEntry groupLine
  rw [List.splitOn_intercalate colon hfields (by simp)]
  exact if_pos rfl

/-- A line with an entry is the line of the entry. -/
theorem groupEntry_eq_some (h : groupEntry name line = some entry) :
    line = groupLine name entry ∧ entry.Free colon := by
  unfold groupEntry at h
  split at h
  · rename_i first password gid members hsplit
    split_ifs at h with hfirst
    cases h
    have hjoin : [colon].intercalate (line.splitOn colon) = line := List.intercalate_splitOn colon
    have hfree : ∀ field ∈ line.splitOn colon, colon ∉ field := fun _ => not_mem_of_mem_splitOn
    rw [hsplit] at hjoin hfree
    refine ⟨?_, hfree _ (by simp), hfree _ (by simp), hfree _ (by simp)⟩
    rw [groupLine, ← hfirst, hjoin]
  · cases h

theorem mem_groupLine_iff {x : UInt8} (hx : x ≠ colon) :
    x ∈ groupLine name entry ↔
      x ∈ name ∨ x ∈ entry.password ∨ x ∈ entry.gid ∨ x ∈ entry.members := by
  rw [groupLine, mem_intercalate_iff hx]
  simp

theorem groupLine_ne_nil : groupLine name entry ≠ [] := by
  simp [groupLine, List.intercalate_cons_cons]

theorem free_of_not_mem_groupLine {x : UInt8} (hx : x ≠ colon) (h : x ∉ groupLine name entry) :
    entry.Free x := by
  rw [mem_groupLine_iff hx] at h
  exact ⟨fun hmem => h (by simp [hmem]), fun hmem => h (by simp [hmem]),
    fun hmem => h (by simp [hmem])⟩

/-- A member brings no byte along but its own and the comma. -/
theorem GroupEntry.Free.addMember {x : UInt8} (hx : x ≠ comma) (h : entry.Free x)
    (hmember : x ∉ member) : (addMember member entry).Free x := by
  refine ⟨h.password, h.gid, ?_⟩
  have hitems : ∀ item ∈ splitCSV entry.members, x ∉ item := by
    intro item hitem hmem
    refine h.members ?_
    have hjoin : [comma].intercalate (splitCSV entry.members) = entry.members :=
      intercalate_splitList _
    rw [← hjoin, mem_intercalate_iff hx]
    exact ⟨item, hitem, hmem⟩
  unfold ImageBuilder.addMember
  dsimp only
  rw [mem_intercalate_iff hx]
  rintro ⟨item, hitem, hmem⟩
  split_ifs at hitem
  · exact hitems item hitem hmem
  · rcases List.mem_append.mp hitem with hold | hnew
    · exact hitems item hold hmem
    · rw [List.mem_singleton.mp hnew] at hmem
      exact hmember hmem

/-- A member that is listed is not added. -/
theorem addMember_of_mem (h : member ∈ splitCSV entry.members) :
    addMember member entry = entry := by
  have hjoin : [comma].intercalate (splitCSV entry.members) = entry.members :=
    intercalate_splitList _
  unfold addMember
  dsimp only
  rw [if_pos h, hjoin]

/-- The only member that can be added without being listed is the empty one, to an
empty list. -/
theorem addMember_of_not_mem (hmember : comma ∉ member) (h : member ∉ splitCSV entry.members) :
    splitCSV (addMember member entry).members = splitCSV entry.members ++ [member] ∨
      member = [] ∧ splitCSV entry.members = [] ∧ addMember member entry = entry := by
  by_cases hempty : splitCSV entry.members ++ [member] = [[]]
  · right
    have hnil : splitCSV entry.members = [] ∧ member = [] := by
      cases hitems : splitCSV entry.members with
      | nil => simpa [hitems] using hempty
      | cons item items => simp [hitems] at hempty
    have hmembers : entry.members = [] := by
      have hjoin : [comma].intercalate (splitCSV entry.members) = entry.members :=
        intercalate_splitList _
      rw [← hjoin, hnil.1]
      rfl
    refine ⟨hnil.2, hnil.1, ?_⟩
    cases entry
    simp_all [addMember]
  · left
    unfold addMember
    dsimp only
    rw [if_neg h]
    refine splitList_intercalate ?_ hempty
    intro item hitem
    rcases List.mem_append.mp hitem with hold | hnew
    · exact not_mem_of_mem_splitList hold
    · rwa [List.mem_singleton.mp hnew]

theorem addMember_addMember (hmember : comma ∉ member) (entry : GroupEntry) :
    addMember member (addMember member entry) = addMember member entry := by
  by_cases h : member ∈ splitCSV entry.members
  · rw [addMember_of_mem h, addMember_of_mem h]
  · rcases addMember_of_not_mem hmember h with hlist | ⟨-, -, hsame⟩
    · exact addMember_of_mem (by rw [hlist]; simp)
    · rw [hsame, hsame]

/-- An entry with one member. -/
theorem addMember_new (hmember : comma ∉ member) (password gid : Bytes) :
    addMember member ⟨password, gid, member⟩ = ⟨password, gid, member⟩ := by
  have hitems : splitCSV member = if member = [] then [] else [member] := by
    unfold splitCSV splitList
    rw [List.splitOn_eq_singleton hmember]
  by_cases hnil : member = []
  · subst hnil
    rfl
  · refine addMember_of_mem ?_
    show member ∈ splitCSV member
    rw [hitems, if_neg hnil]
    exact List.mem_singleton_self _

/-- The members other than the one that is added. -/
theorem filter_members_addMember (hmember : comma ∉ member) (entry : GroupEntry) :
    (splitCSV (addMember member entry).members).filter (· ≠ member) =
      (splitCSV entry.members).filter (· ≠ member) := by
  by_cases h : member ∈ splitCSV entry.members
  · rw [addMember_of_mem h]
  · rcases addMember_of_not_mem hmember h with hlist | ⟨-, -, hsame⟩
    · rw [hlist, List.filter_append]
      simp
    · rw [hsame]

end Group

/-! ## The members of a group -/

section Members

variable {name password gid member : Bytes}

/-- The entries of a group in a text. -/
def groupEntries (name text : Bytes) : List GroupEntry :=
  (nonemptyLines text).filterMap (groupEntry name)

/-- The password, the number, and the members other than one. -/
def withoutMember (member : Bytes) (entry : GroupEntry) : Bytes × Bytes × List Bytes :=
  (entry.password, entry.gid, (splitCSV entry.members).filter (· ≠ member))

/-- What the edit of a line writes. -/
theorem groupEntry_edit (hname : Plain name) (hmember : Plain member) {line : Bytes}
    {entry : GroupEntry} (h : groupEntry name line = some entry) :
    groupEntry name (groupLine name (addMember member entry)) = some (addMember member entry) :=
  groupEntry_groupLine hname.colon
    ((groupEntry_eq_some h).2.addMember (by decide) hmember.colon)

theorem group_edits (hname : Plain name) (hpassword : Plain password) (hgid : Plain gid)
    (hmember : Plain member) :
    Edits (fun line => (groupEntry name line).isSome)
      (fun line => ((groupEntry name line).map fun entry =>
        groupLine name (addMember member entry)).getD line)
      (groupLine name ⟨password, gid, member⟩) where
  edit_newline l hl hs := by
    obtain ⟨entry, hentry⟩ := Option.isSome_iff_exists.mp hs
    obtain ⟨rfl, -⟩ := groupEntry_eq_some hentry
    have hfree := (free_of_not_mem_groupLine (by decide) hl).addMember (x := newline) (by decide)
      hmember.newline
    simp only [hentry, Option.map_some, Option.getD_some]
    rw [mem_groupLine_iff (by decide)]
    simp [hname.newline, hfree.password, hfree.gid, hfree.members]
  edit_ne l hs := by
    obtain ⟨entry, hentry⟩ := Option.isSome_iff_exists.mp hs
    simp only [hentry, Option.map_some, Option.getD_some]
    exact groupLine_ne_nil
  edit_selects l _ hs := by
    obtain ⟨entry, hentry⟩ := Option.isSome_iff_exists.mp hs
    simp only [hentry, Option.map_some, Option.getD_some, groupEntry_edit hname hmember hentry]
    rfl
  line_newline := by
    rw [mem_groupLine_iff (by decide)]
    simp [hname.newline, hpassword.newline, hgid.newline, hmember.newline]
  line_selects := by
    rw [groupEntry_groupLine hname.colon ⟨hpassword.colon, hgid.colon, hmember.colon⟩]
    rfl
  line_ne := groupLine_ne_nil

/-- The entries after a member was added. -/
theorem groupEntries_ensure (hname : Plain name) (hpassword : Plain password) (hgid : Plain gid)
    (hmember : Plain member) (text : Bytes) :
    groupEntries name (ensureGroupMemberText text name password gid member) =
      if groupEntries name text = [] then [⟨password, gid, member⟩]
      else (groupEntries name text).map (addMember member) := by
  have hnew : groupEntry name (groupLine name ⟨password, gid, member⟩) =
      some ⟨password, gid, member⟩ :=
    groupEntry_groupLine hname.colon ⟨hpassword.colon, hgid.colon, hmember.colon⟩
  have hany : ((nonemptyLines text).any fun line => (groupEntry name line).isSome) = true ↔
      groupEntries name text ≠ [] := by
    rw [List.any_eq_true, groupEntries, ne_eq, List.filterMap_eq_nil_iff]
    push Not
    exact exists_congr fun l => and_congr_right fun _ => Option.isSome_iff_ne_none
  rw [groupEntries, ensureGroupMemberText,
    linesOf_editLines (group_edits hname hpassword hgid hmember)]
  by_cases hentries : groupEntries name text = []
  · rw [if_pos hentries, if_neg (fun h => hany.mp h hentries), List.filterMap_append]
    rw [groupEntries] at hentries
    simp [hentries, hnew]
  · rw [if_neg hentries, if_pos (hany.mpr hentries), List.filterMap_map, groupEntries,
      List.map_filterMap]
    refine List.filterMap_congr fun l _ => ?_
    simp only [Function.comp_apply]
    cases hentry : groupEntry name l with
    | none => simp [hentry]
    | some entry => simp [groupEntry_edit hname hmember hentry]

/-- What `ensureGroupMemberText` does to every text. -/
structure GroupMemberSound (name password gid member : Bytes) : Prop where
  idempotent : ∀ text,
    ensureGroupMemberText (ensureGroupMemberText text name password gid member) name password gid
        member = ensureGroupMemberText text name password gid member
  others : ∀ text,
    (nonemptyLines (ensureGroupMemberText text name password gid member)).filter
        (fun l => !(groupEntry name l).isSome) =
      (nonemptyLines text).filter fun l => !(groupEntry name l).isSome
  members : ∀ text, groupEntries name text ≠ [] →
    (groupEntries name (ensureGroupMemberText text name password gid member)).map
        (withoutMember member) =
      (groupEntries name text).map (withoutMember member)
  created : ∀ text, groupEntries name text = [] →
    groupEntries name (ensureGroupMemberText text name password gid member) =
      [⟨password, gid, member⟩]
  contains : ∀ text,
    groupEntries name (ensureGroupMemberText text name password gid member) ≠ []

/-- A member that no entry of the group lists is listed once in an entry
afterwards. -/
def ListsOnce (name password gid member : Bytes) : Prop :=
  ∀ text, (∀ entry ∈ groupEntries name text, member ∉ splitCSV entry.members) →
    ∃ entry ∈ groupEntries name (ensureGroupMemberText text name password gid member),
      (splitCSV entry.members).count member = 1

theorem groupMember_sound (hname : Plain name) (hpassword : Plain password) (hgid : Plain gid)
    (hmember : Plain member) : GroupMemberSound name password gid member where
  idempotent := by
    refine editLines_editLines (group_edits hname hpassword hgid hmember) (fun l _ hs => ?_) ?_
    · obtain ⟨entry, hentry⟩ := Option.isSome_iff_exists.mp hs
      simp only [hentry, Option.map_some, Option.getD_some, groupEntry_edit hname hmember hentry,
        addMember_addMember hmember.comma]
    · rw [groupEntry_groupLine hname.colon ⟨hpassword.colon, hgid.colon, hmember.colon⟩,
        Option.map_some, Option.getD_some, addMember_new hmember.comma]
  others := filter_editLines (group_edits hname hpassword hgid hmember)
  members text hentries := by
    rw [groupEntries_ensure hname hpassword hgid hmember, if_neg hentries, List.map_map]
    refine List.map_congr_left fun entry _ => ?_
    simp only [Function.comp_apply, withoutMember, filter_members_addMember hmember.comma]
    rfl
  created text hentries := by
    rw [groupEntries_ensure hname hpassword hgid hmember, if_pos hentries]
  contains text := by
    rw [groupEntries_ensure hname hpassword hgid hmember]
    split_ifs with hentries
    · exact List.cons_ne_nil _ _
    · simpa using hentries

theorem groupMember_listsOnce (hname : Plain name) (hpassword : Plain password) (hgid : Plain gid)
    (hmember : Plain member) (hne : member ≠ []) : ListsOnce name password gid member := by
  intro text habsent
  rw [groupEntries_ensure hname hpassword hgid hmember]
  split_ifs with hentries
  · refine ⟨⟨password, gid, member⟩, List.mem_singleton_self _, ?_⟩
    have hitems : splitCSV member = [member] := by
      unfold splitCSV splitList
      rw [if_neg hne, List.splitOn_eq_singleton hmember.comma]
    rw [hitems, List.count_singleton_self]
  · obtain ⟨entry, hentry⟩ := List.exists_mem_of_ne_nil _ hentries
    refine ⟨addMember member entry, List.mem_map_of_mem hentry, ?_⟩
    rcases addMember_of_not_mem hmember.comma (habsent entry hentry) with hlist | ⟨hnil, -, -⟩
    · rw [hlist, List.count_append, List.count_eq_zero_of_not_mem (habsent entry hentry),
        List.count_singleton_self]
    · exact absurd hnil hne

/-- The two functions that edit the files of a guest image. -/
theorem accountFiles_sound (hname : Plain name) (hpassword : Plain password) (hgid : Plain gid)
    (hmember : Plain member) {user line : Bytes} (hline : newline ∉ line)
    (huser : user ++ [colon] <+: line) :
    GroupMemberSound name password gid member ∧
      (member ≠ [] → ListsOnce name password gid member) ∧ NamedLineSound user line :=
  ⟨groupMember_sound hname hpassword hgid hmember,
    groupMember_listsOnce hname hpassword hgid hmember, namedLine_sound hline huser⟩

end Members

theorem plain_of_all {s : Bytes}
    (h : s.all (fun x => x != newline && x != colon && x != comma) = true) :
    Plain s := by
  rw [List.all_eq_true] at h
  have hne : ∀ x ∈ s, x ≠ newline ∧ x ≠ colon ∧ x ≠ comma := by
    intro x hx
    simpa [and_assoc] using h x hx
  exact ⟨fun hx => (hne _ hx).1 rfl, fun hx => (hne _ hx).2.1 rfl, fun hx => (hne _ hx).2.2 rfl⟩

/-- The user and the group `sudo` of a guest image. -/
theorem accountFiles_sound_ubuntu :
    GroupMemberSound (bytes "sudo") (bytes "x") (bytes "27") (bytes "ubuntu") ∧
      (bytes "ubuntu" ≠ [] → ListsOnce (bytes "sudo") (bytes "x") (bytes "27") (bytes "ubuntu")) ∧
      NamedLineSound (bytes "ubuntu") (bytes "ubuntu:x:1000:1000:Ubuntu:/home/ubuntu:/bin/bash") :=
  accountFiles_sound (plain_of_all (by decide)) (plain_of_all (by decide))
    (plain_of_all (by decide)) (plain_of_all (by decide)) (by decide)
    (List.isPrefixOf_iff_prefix.mp (by decide))

/-- The empty member of a group that is new is not listed. -/
theorem empty_member_not_listed :
    Plain (bytes "sudo") ∧ Plain (bytes "x") ∧ Plain (bytes "27") ∧ Plain [] ∧
      ¬ ListsOnce (bytes "sudo") (bytes "x") (bytes "27") [] := by
  refine ⟨plain_of_all (by decide), plain_of_all (by decide),
    plain_of_all (by decide),
    plain_of_all rfl, fun h => ?_⟩
  obtain ⟨entry, hentry, hcount⟩ := h [] (by simp [groupEntries, nonemptyLines, linesOf])
  have hresult : groupEntries (bytes "sudo")
      (ensureGroupMemberText [] (bytes "sudo") (bytes "x") (bytes "27") []) =
        [⟨bytes "x", bytes "27", []⟩] := by decide
  rw [hresult, List.mem_singleton] at hentry
  subst hentry
  revert hcount
  decide

end Firedoze.ImageBuilder
