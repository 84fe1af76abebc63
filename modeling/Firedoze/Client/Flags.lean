import Firedoze.Client.Args

/-!
# Names and flags in any order

`parseNamesAndFlags` of `cmd/firedoze/main.go` takes names and flags in any order.
It sorts the arguments first, and hands the flags to `FlagSet.Parse` of the package
`flag`.  To know which argument is the value of a flag, `sortArgs` follows the
rules of that package on its own.  `foundFlag` looks at the arguments a third time.

An argument list is built from items: names and groups, a group being a flag with
its value (`Item`, `Group`).  `sortArgs_items` says that the arguments are sorted into the
names and the groups again, and `foundFlag_items` says what `foundFlag` sees.

The two functions do not know which arguments are values.  A value that starts with
a dash is taken for a flag (`Swallows`), and a name or a value may look like the
flag that `foundFlag` is after (`ReadsAs`).
-/

namespace Firedoze.Client

open Text

variable (quote : String → String) {σ : Type}

/-- `foundFlag`. -/
def foundFlag (args : List String) (name : String) : Bool :=
  args.any fun arg => FlagSet.trimDashes arg == name ||
    hasPrefix (FlagSet.trimDashes arg) (name ++ "=")

/-! ## Names and groups -/

/-- How a value is given to a flag. -/
inductive Form
  | bare
  | equals (value : String)
  | separate (value : String)

/-- A flag with its value, as the package `flag` accepts it. -/
structure Group where
  double : Bool
  name : String
  form : Form

namespace Group

def dashed (g : Group) : String := (if g.double then "--" else "-") ++ g.name

def args (g : Group) : List String :=
  match g.form with
  | .bare => [g.dashed]
  | .equals value => [g.dashed ++ "=" ++ value]
  | .separate value => [g.dashed, value]

/-- The flag is defined, and takes a value in this way. -/
def Fits (flags : FlagSet σ) (g : Group) : Prop :=
  g.name ≠ "" ∧ ∃ flag, flags.lookup g.name = some flag ∧
    match g.form with
    | .bare => flag.isBool = true
    | .equals _ => True
    | .separate _ => flag.isBool = false

/-- The value that the group gives to its flag. -/
def value (g : Group) : Option String :=
  match g.form with
  | .bare => none
  | .equals value => some value
  | .separate value => some value

/-- Set the flag of the group. -/
def apply (flags : FlagSet σ) (s : σ) (g : Group) : Except String σ :=
  match flags.lookup g.name with
  | none => .error (undefinedFlag g.name)
  | some flag => flag.assign quote g.name g.value s

end Group

/-- A name or a group. -/
inductive Item
  | name (s : String)
  | group (g : Group)

namespace Item

def args : Item → List String
  | .name s => [s]
  | .group g => g.args

def name? : Item → Option String
  | .name s => some s
  | .group _ => none

def group? : Item → Option Group
  | .name _ => none
  | .group g => some g

/-- Names do not start with a dash, and groups fit the flags. -/
def Fits (flags : FlagSet σ) : Item → Prop
  | .name s => hasPrefix s "-" = false
  | .group g => g.Fits flags

end Item

/-- The arguments of an interleaving of names and groups. -/
def argsOf (items : List Item) : List String := items.flatMap Item.args

def namesOf (items : List Item) : List String := items.filterMap Item.name?

def groupsOf (items : List Item) : List Group := items.filterMap Item.group?

/-- The value of the group is taken for a flag that has a value itself. -/
def Swallows (flags : FlagSet σ) (g : Group) : Prop :=
  ∃ value, g.form = .separate value ∧ hasPrefix value "-" = true ∧ contains value "=" = false ∧
    flags.flagConsumesValue value = true

/-- No group that swallows stands before a name. -/
def Apart (flags : FlagSet σ) : List Item → Prop
  | .group g :: .name s :: items => ¬ Swallows flags g ∧ Apart flags (.name s :: items)
  | _ :: items => Apart flags items
  | [] => True

/-! ## Arguments of a group -/

theorem hasPrefix_dash_iff (s : String) : hasPrefix s "-" = true ↔ s.toList.head? = some '-' := by
  rw [hasPrefix, List.isPrefixOf_iff_prefix]
  cases s.toList with
  | nil => simp
  | cons c rest => simp [List.cons_prefix_cons, eq_comm]

theorem contains_equals_iff (s : String) : contains s "=" = true ↔ '=' ∈ s.toList := by
  rw [contains, decide_eq_true_iff]
  exact List.singleton_infix_iff '=' s.toList

theorem toList_dashed (g : Group) :
    g.dashed.toList = (if g.double then ['-', '-'] else ['-']) ++ g.name.toList := by
  unfold Group.dashed
  cases g.double <;> simp

theorem hasPrefix_dashed (g : Group) (rest : String) : hasPrefix (g.dashed ++ rest) "-" = true := by
  rw [hasPrefix_dash_iff, String.toList_append, toList_dashed]
  cases g.double <;> rfl

section Fits

variable {flags : FlagSet σ} {g : Group}

theorem Group.Fits.no_equals (h : g.Fits flags) : '=' ∉ g.name.toList := by
  obtain ⟨-, flag, hflag, -⟩ := h
  exact flags.no_equals _ flag hflag

/-- The name of a flag is a letter and what follows. -/
theorem Group.Fits.exists_cons (h : g.Fits flags) :
    ∃ c rest, g.name.toList = c :: rest ∧ c ≠ '-' ∧ c ≠ '=' := by
  have hequals := h.no_equals
  obtain ⟨hne, flag, hflag, -⟩ := h
  have hdash := flags.no_dash _ flag hflag
  cases hname : g.name.toList with
  | nil => exact absurd (String.toList_eq_nil_iff.mp hname) hne
  | cons c rest =>
    rw [hname] at hdash hequals
    refine ⟨c, rest, rfl, by simpa using hdash, fun hc => hequals (by simp [hc])⟩

theorem trimDashes_dashed (h : g.Fits flags) (rest : String) :
    FlagSet.trimDashes (g.dashed ++ rest) = g.name ++ rest := by
  obtain ⟨c, tail, hname, hc, -⟩ := h.exists_cons
  apply String.toList_injective
  have hfirst : (c == '-') = false := by simpa using hc
  rw [FlagSet.trimDashes, String.toList_append, toList_dashed, String.toList_append, hname]
  cases g.double <;> simp [List.dropWhile, hfirst]

theorem splitFlag_name {name : List Char} (h : '=' ∉ name) :
    splitFlag name = (String.ofList name, none) := by
  have hall : ∀ c ∈ name, (c != '=') = true := by
    intro c hc
    have hne : c ≠ '=' := fun heq => h (heq ▸ hc)
    simpa using hne
  have hdrop : (name ++ []).dropWhile (· != '=') = [] := List.dropWhile_append_of_pos hall
  have htake : (name ++ []).takeWhile (· != '=') = name ++ [] := List.takeWhile_append_of_pos hall
  rw [List.append_nil] at hdrop htake
  simp [splitFlag, hdrop, htake]

theorem splitFlag_equals {name : List Char} (h : '=' ∉ name) (value : List Char) :
    splitFlag (name ++ '=' :: value) = (String.ofList name, some (String.ofList value)) := by
  have hall : ∀ c ∈ name, (c != '=') = true := by
    intro c hc
    have hne : c ≠ '=' := fun heq => h (heq ▸ hc)
    simpa using hne
  have hdrop : (name ++ '=' :: value).dropWhile (· != '=') = '=' :: value := by
    rw [List.dropWhile_append_of_pos hall]
    simp
  have htake : (name ++ '=' :: value).takeWhile (· != '=') = name := by
    rw [List.takeWhile_append_of_pos hall]
    simp
  simp [splitFlag, hdrop, htake]

/-- What `FlagSet.Parse` sees of a group's first argument. -/
theorem token_dashed (h : g.Fits flags) (rest : String) :
    token (g.dashed ++ rest) = .flag (splitFlag (g.name ++ rest).toList).1
      (splitFlag (g.name ++ rest).toList).2 := by
  obtain ⟨c, tail, hname, hdash, hequals⟩ := h.exists_cons
  unfold token
  simp only [String.toList_append, toList_dashed, hname]
  cases g.double <;> simp [hdash, hequals]

theorem token_name (h : g.Fits flags) : token g.dashed = .flag g.name none := by
  have htoken := token_dashed h ""
  rw [String.append_empty, String.append_empty, splitFlag_name h.no_equals,
    String.ofList_toList] at htoken
  exact htoken

theorem token_equals (h : g.Fits flags) (value : String) :
    token (g.dashed ++ "=" ++ value) = .flag g.name (some value) := by
  have htoken := token_dashed h ("=" ++ value)
  have hlist : (g.name ++ ("=" ++ value)).toList = g.name.toList ++ '=' :: value.toList := by simp
  rw [hlist, splitFlag_equals h.no_equals, String.ofList_toList, String.ofList_toList] at htoken
  rwa [String.append_assoc]

end Fits

/-! ## Sorting -/

namespace FlagSet

variable {flags : FlagSet σ} {arg next : String} {args rest : List String}

theorem sortArgs_name (h : hasPrefix arg "-" = false) :
    flags.sortArgs (arg :: args) =
      (arg :: (flags.sortArgs args).1, (flags.sortArgs args).2) := by
  simp [sortArgs, h]

/-- An argument for a flag that stands alone. -/
theorem sortArgs_alone (h : hasPrefix arg "-" = true)
    (halone : contains arg "=" = true ∨ flags.flagConsumesValue arg = false) :
    flags.sortArgs (arg :: args) =
      ((flags.sortArgs args).1, arg :: (flags.sortArgs args).2) := by
  have htakes : (!contains arg "=" && flags.flagConsumesValue arg) = false := by
    rcases halone with halone | halone <;> simp [halone]
  simp [sortArgs, h, htakes]

/-- A flag before another argument that starts with a dash. -/
theorem sortArgs_before (h : hasPrefix arg "-" = true)
    (hnext : ∀ next, args.head? = some next → hasPrefix next "-" = true) :
    flags.sortArgs (arg :: args) =
      ((flags.sortArgs args).1, arg :: (flags.sortArgs args).2) := by
  by_cases htakes : (!contains arg "=" && flags.flagConsumesValue arg) = true
  · cases args with
    | nil => simp [sortArgs, h, htakes]
    | cons next rest =>
      rw [sortArgs]
      simp [h, htakes, hnext next rfl]
  · refine sortArgs_alone h ?_
    simpa [or_iff_not_imp_left] using htakes

/-- A flag takes the next argument along. -/
theorem sortArgs_takes (h : hasPrefix arg "-" = true) (hequals : contains arg "=" = false)
    (htakes : flags.flagConsumesValue arg = true) (hnext : hasPrefix next "-" = false) :
    flags.sortArgs (arg :: next :: rest) =
      ((flags.sortArgs rest).1, arg :: next :: (flags.sortArgs rest).2) := by
  rw [sortArgs]
  simp [h, hequals, htakes, hnext]

end FlagSet

section Sorting

variable {flags : FlagSet σ} {g : Group} {items : List Item}

theorem hasPrefix_head_args (g : Group) {arg : String} (h : g.args.head? = some arg) :
    hasPrefix arg "-" = true := by
  have hdashed := hasPrefix_dashed g ""
  rw [String.append_empty] at hdashed
  unfold Group.args at h
  cases hform : g.form with
  | bare | separate value =>
    simpa [hform, ← show g.dashed = arg by simpa [hform] using h] using hdashed
  | equals value =>
    have harg : g.dashed ++ "=" ++ value = arg := by simpa [hform] using h
    rw [← harg, String.append_assoc]
    exact hasPrefix_dashed g _

theorem apart_tail {item : Item} (h : Apart flags (item :: items)) : Apart flags items := by
  cases item with
  | name s => exact h
  | group g =>
    cases items with
    | nil => trivial
    | cons next items =>
      cases next with
      | name s => exact h.2
      | group g' => exact h

/-- Behind a group that swallows there is another group. -/
theorem hasPrefix_of_swallows (h : Apart flags (.group g :: items)) (hswallows : Swallows flags g)
    {arg : String} (harg : (argsOf items).head? = some arg) : hasPrefix arg "-" = true := by
  cases items with
  | nil => simp [argsOf] at harg
  | cons next items =>
    cases next with
    | name s => exact absurd hswallows h.1
    | group g' =>
      refine hasPrefix_head_args g' ?_
      have hne : g'.args ≠ [] := by
        unfold Group.args
        cases g'.form <;> simp
      have hargs : argsOf (.group g' :: items) = g'.args ++ argsOf items := rfl
      rwa [hargs, List.head?_append_of_ne_nil _ hne] at harg

theorem flagConsumesValue_dashed (h : g.Fits flags) :
    flags.flagConsumesValue g.dashed = true ↔
      ∃ flag, flags.lookup g.name = some flag ∧ flag.isBool = false := by
  have htrim := trimDashes_dashed h ""
  rw [String.append_empty, String.append_empty] at htrim
  obtain ⟨hne, flag, hflag, -⟩ := h
  simp [FlagSet.flagConsumesValue, htrim, hne, hflag]

theorem sortArgs_group (h : g.Fits flags) (hapart : Apart flags (.group g :: items)) :
    flags.sortArgs (g.args ++ argsOf items) =
      ((flags.sortArgs (argsOf items)).1, g.args ++ (flags.sortArgs (argsOf items)).2) := by
  have hdashed : hasPrefix g.dashed "-" = true := by
    simpa using hasPrefix_dashed g ""
  have hplain : contains g.dashed "=" = false := by
    rw [Bool.eq_false_iff, Ne, contains_equals_iff, toList_dashed]
    have := h.no_equals
    cases g.double <;> simpa using this
  have hconsumes := flagConsumesValue_dashed h
  obtain ⟨-, flag, hflag, hform⟩ := h
  simp only [hflag, Option.some.injEq, exists_eq_left'] at hconsumes
  unfold Group.args
  cases hg : g.form with
  | bare =>
    have hbool : flag.isBool = true := by simpa [hg] using hform
    refine FlagSet.sortArgs_alone hdashed (Or.inr ?_)
    rw [Bool.eq_false_iff, Ne, hconsumes, hbool]
    simp
  | equals value =>
    have hprefix : hasPrefix (g.dashed ++ "=" ++ value) "-" = true := by
      rw [String.append_assoc]
      exact hasPrefix_dashed g _
    refine FlagSet.sortArgs_alone hprefix (Or.inl ?_)
    rw [contains_equals_iff]
    simp
  | separate value =>
    have htakes : flags.flagConsumesValue g.dashed = true :=
      hconsumes.mpr (by simpa [hg] using hform)
    cases hvalue : hasPrefix value "-" with
    | false => exact FlagSet.sortArgs_takes hdashed hplain htakes hvalue
    | true =>
      -- The value is sorted as a flag of its own.
      have hsecond : flags.sortArgs (value :: argsOf items) =
          ((flags.sortArgs (argsOf items)).1, value :: (flags.sortArgs (argsOf items)).2) := by
        by_cases hswallows : Swallows flags g
        · exact FlagSet.sortArgs_before hvalue fun next hnext =>
            hasPrefix_of_swallows hapart hswallows hnext
        · refine FlagSet.sortArgs_alone hvalue ?_
          by_contra halone
          push Not at halone
          exact hswallows ⟨value, hg, hvalue, by simpa using halone.1, by simpa using halone.2⟩
      have hfirst : flags.sortArgs (g.dashed :: value :: argsOf items) = _ :=
        FlagSet.sortArgs_before hdashed (by simp [hvalue])
      rw [hsecond] at hfirst
      exact hfirst

/-- The arguments are sorted into the names and the groups. -/
theorem sortArgs_items (hfits : ∀ item ∈ items, item.Fits flags) (hapart : Apart flags items) :
    flags.sortArgs (argsOf items) = (namesOf items, (groupsOf items).flatMap Group.args) := by
  induction items with
  | nil => rfl
  | cons item items ih =>
    have ih := ih (fun i hi => hfits i (List.mem_cons_of_mem _ hi)) (apart_tail hapart)
    have hitem := hfits item List.mem_cons_self
    cases item with
    | name s =>
      have hargs : argsOf (.name s :: items) = s :: argsOf items := rfl
      rw [hargs, FlagSet.sortArgs_name hitem, ih]
      rfl
    | group g =>
      have hargs : argsOf (.group g :: items) = g.args ++ argsOf items := rfl
      rw [hargs, sortArgs_group hitem hapart, ih]
      rfl

end Sorting

/-! ## Parsing -/

section Parsing

variable {flags : FlagSet σ} {items : List Item}

theorem parse_group {g : Group} (h : g.Fits flags) (args : List String) (s : σ) :
    flags.parse quote (g.args ++ args) s =
      g.apply quote flags s >>= fun s => flags.parse quote args s := by
  have hname := token_name h
  have hequals := token_equals h
  obtain ⟨-, flag, hflag, hform⟩ := h
  unfold Group.args Group.apply Group.value
  cases hg : g.form with
  | bare =>
    have hbool : flag.isBool = true := by simpa [hg] using hform
    simp [FlagSet.parse, hname, hflag, hbool]
  | equals value => simp [FlagSet.parse, hequals, hflag]
  | separate value =>
    have hbool : flag.isBool = false := by simpa [hg] using hform
    simp [FlagSet.parse, hname, hflag, hbool]

/-- Groups alone are parsed one after the other, and nothing is left over. -/
theorem parse_groups {groups : List Group} (h : ∀ g ∈ groups, g.Fits flags) (s : σ) :
    flags.parse quote (groups.flatMap Group.args) s =
      (groups.foldlM (Group.apply quote flags) s).map fun s => (s, []) := by
  induction groups generalizing s with
  | nil => rfl
  | cons g groups ih =>
    rw [List.flatMap_cons, parse_group quote (h g List.mem_cons_self), List.foldlM_cons]
    cases Group.apply quote flags s g with
    | error e => rfl
    | ok s' => exact ih (fun g' hg' => h g' (List.mem_cons_of_mem _ hg')) s'

theorem fits_of_mem_groupsOf (hfits : ∀ item ∈ items, item.Fits flags) {g : Group}
    (hg : g ∈ groupsOf items) : g.Fits flags := by
  obtain ⟨item, hitem, hgroup⟩ := List.mem_filterMap.mp hg
  cases item with
  | name s => simp [Item.group?] at hgroup
  | group g' =>
    obtain rfl : g' = g := by simpa [Item.group?] using hgroup
    exact hfits _ hitem

theorem argsOf_ne_nil (h : items ≠ []) : argsOf items ≠ [] := by
  cases items with
  | nil => exact absurd rfl h
  | cons item items =>
    cases item with
    | name s => simp [argsOf, Item.args]
    | group g =>
      unfold argsOf Item.args Group.args
      cases hg : g.form <;> simp [hg]

/-- Names and groups are parsed as the groups alone, and there has to be a name. -/
theorem parseNamesAndFlags_items (hfits : ∀ item ∈ items, item.Fits flags)
    (hapart : Apart flags items) (s : σ) :
    flags.parseNamesAndFlags quote (argsOf items) s =
      if items = [] then .error "missing name"
      else (groupsOf items).foldlM (Group.apply quote flags) s >>= fun s =>
        if namesOf items = [] then .error "missing name" else .ok (namesOf items, s) := by
  unfold FlagSet.parseNamesAndFlags
  by_cases hnil : items = []
  · subst hnil
    rfl
  · rw [if_neg (argsOf_ne_nil hnil), if_neg hnil, sortArgs_items hfits hapart]
    dsimp only [pure_bind]
    rw [parse_groups quote (fun g hg => fits_of_mem_groupsOf hfits hg)]
    cases (groupsOf items).foldlM (Group.apply quote flags) s with
    | error e => rfl
    | ok s' =>
      by_cases hnames : namesOf items = []
      · simp [hnames, Except.map, bind, Except.bind, throw, throwThe, MonadExceptOf.throw]
      · simp [hnames, Except.map, bind, Except.bind, pure, Except.pure]

end Parsing

/-! ## Looking for a flag -/

/-- The argument looks like the flag. -/
def ReadsAs (name arg : String) : Prop :=
  FlagSet.trimDashes arg = name ∨ hasPrefix (FlagSet.trimDashes arg) (name ++ "=") = true

theorem foundFlag_iff {args : List String} {name : String} :
    foundFlag args name = true ↔ ∃ arg ∈ args, ReadsAs name arg := by
  simp [foundFlag, ReadsAs]

section Found

variable {flags : FlagSet σ} {g : Group} {name : String}

theorem readsAs_dashed (h : g.Fits flags) : ReadsAs name g.dashed ↔ g.name = name := by
  have htrim := trimDashes_dashed h ""
  rw [String.append_empty, String.append_empty] at htrim
  unfold ReadsAs
  rw [htrim, or_iff_left_iff_imp]
  intro hprefix
  obtain ⟨rest, hrest⟩ := List.isPrefixOf_iff_prefix.mp hprefix
  exact absurd (by rw [← hrest]; simp) h.no_equals

theorem readsAs_equals (h : g.Fits flags) (hname : '=' ∉ name.toList) (value : String) :
    ReadsAs name (g.dashed ++ "=" ++ value) ↔ g.name = name := by
  unfold ReadsAs
  rw [String.append_assoc, trimDashes_dashed h]
  have hlist : (g.name ++ ("=" ++ value)).toList = g.name.toList ++ '=' :: value.toList := by simp
  constructor
  · rintro (heq | hprefix)
    · refine absurd ?_ hname
      rw [← heq, hlist]
      simp
    · obtain ⟨rest, hrest⟩ := List.isPrefixOf_iff_prefix.mp hprefix
      have hsplit : splitFlag (name.toList ++ '=' :: rest) =
          splitFlag (g.name.toList ++ '=' :: value.toList) := by
        rw [← hlist, ← hrest]
        simp
      rw [splitFlag_equals hname, splitFlag_equals h.no_equals] at hsplit
      simpa using (congrArg Prod.fst hsplit).symm
  · rintro rfl
    refine Or.inr (List.isPrefixOf_iff_prefix.mpr ⟨value.toList, ?_⟩)
    simp

/-- What `foundFlag` sees of a group. -/
theorem readsAs_group (h : g.Fits flags) (hname : '=' ∉ name.toList) :
    (∃ arg ∈ g.args, ReadsAs name arg) ↔
      g.name = name ∨ ∃ value, g.form = .separate value ∧ ReadsAs name value := by
  unfold Group.args
  cases hg : g.form with
  | bare | separate value => simp [readsAs_dashed h]
  | equals value => simp [readsAs_equals h hname]

/-- `foundFlag` sees the flags, and the names and values that look like one. -/
theorem foundFlag_items {items : List Item} (hfits : ∀ item ∈ items, item.Fits flags)
    (hname : '=' ∉ name.toList) :
    foundFlag (argsOf items) name = true ↔
      (∃ g ∈ groupsOf items, g.name = name) ∨ (∃ s ∈ namesOf items, ReadsAs name s) ∨
        ∃ g ∈ groupsOf items, ∃ value, g.form = .separate value ∧ ReadsAs name value := by
  rw [foundFlag_iff]
  induction items with
  | nil => simp [argsOf, groupsOf, namesOf]
  | cons item items ih =>
    have ih := ih fun i hi => hfits i (List.mem_cons_of_mem _ hi)
    have hitem := hfits item List.mem_cons_self
    cases item with
    | name s =>
      have hargs : argsOf (.name s :: items) = s :: argsOf items := rfl
      have hnames : namesOf (.name s :: items) = s :: namesOf items := rfl
      have hgroups : groupsOf (.name s :: items) = groupsOf items := rfl
      simp only [hargs, hnames, hgroups, List.exists_mem_cons_iff, ih]
      exact iff_of_eq (by ac_rfl)
    | group g =>
      have hargs : argsOf (.group g :: items) = g.args ++ argsOf items := rfl
      have hnames : namesOf (.group g :: items) = namesOf items := rfl
      have hgroups : groupsOf (.group g :: items) = g :: groupsOf items := rfl
      have hsplit : (∃ arg ∈ g.args ++ argsOf items, ReadsAs name arg) ↔
          (∃ arg ∈ g.args, ReadsAs name arg) ∨ ∃ arg ∈ argsOf items, ReadsAs name arg := by
        simp only [List.mem_append, or_and_right, exists_or]
      rw [hargs, hnames, hgroups, hsplit, readsAs_group hitem hname, ih]
      simp only [List.exists_mem_cons_iff]
      exact iff_of_eq (by ac_rfl)

end Found

/-! ## Interleavings -/

/-- No name and no value on its own looks like the flag. -/
def Unlike (name : String) (items : List Item) : Prop :=
  (∀ s ∈ namesOf items, ¬ ReadsAs name s) ∧
    ∀ g ∈ groupsOf items, ∀ value, g.form = .separate value → ¬ ReadsAs name value

/-- The names come back in order, and the flags are set as the groups alone set
them.  Without a name there is an error.  `foundFlag` tells whether there is a group
for `publish`. -/
theorem parseNamesAndFlags_interleaving (flags : FlagSet σ) (items : List Item) (s s' : σ)
    (hfits : ∀ item ∈ items, item.Fits flags) (hapart : Apart flags items)
    (haccepted : flags.parse quote ((groupsOf items).flatMap Group.args) s = .ok (s', [])) :
    (namesOf items ≠ [] →
      flags.parseNamesAndFlags quote (argsOf items) s = .ok (namesOf items, s')) ∧
    (namesOf items = [] →
      flags.parseNamesAndFlags quote (argsOf items) s = .error "missing name") ∧
    (Unlike "publish" items →
      (foundFlag (argsOf items) "publish" = true ↔ ∃ g ∈ groupsOf items, g.name = "publish")) := by
  rw [parse_groups quote fun g hg => fits_of_mem_groupsOf hfits hg] at haccepted
  have hgroups : (groupsOf items).foldlM (Group.apply quote flags) s = .ok s' := by
    cases hfold : (groupsOf items).foldlM (Group.apply quote flags) s with
    | error e =>
      rw [hfold] at haccepted
      cases haccepted
    | ok s'' =>
      rw [hfold] at haccepted
      rw [(Prod.mk.inj (Except.ok.inj haccepted)).1]
  rw [parseNamesAndFlags_items quote hfits hapart, hgroups]
  refine ⟨fun hnames => ?_, fun hnames => ?_, fun hunlike => ?_⟩
  · have hne : items ≠ [] := fun hnil => hnames (by simp [hnil, namesOf])
    rw [if_neg hne]
    exact if_neg hnames
  · split_ifs <;> rfl
  · rw [foundFlag_items hfits (by decide)]
    refine or_iff_left ?_
    rintro (⟨n, hn, hreads⟩ | ⟨g, hg, value, hvalue, hreads⟩)
    · exact hunlike.1 n hn hreads
    · exact hunlike.2 g hg value hvalue hreads

/-- A boolean and a flag with a value. -/
def upFlags : FlagSet (List (String × String)) where
  lookup := fun name =>
    if name = "publish" then some ⟨true, fun v s => .ok (("publish", v) :: s)⟩
    else if name = "vcpus" then some ⟨false, fun v s => .ok (("vcpus", v) :: s)⟩
    else none
  no_dash := by
    intro name flag h
    split_ifs at h with h₁ h₂
    · subst h₁; decide
    · subst h₂; decide
  no_equals := by
    intro name flag h
    split_ifs at h with h₁ h₂
    · subst h₁; decide
    · subst h₂; decide

/-- `-vcpus 2 demo --publish=false`. -/
def upItems : List Item :=
  [.group ⟨false, "vcpus", .separate "2"⟩, .name "demo", .group ⟨true, "publish", .equals "false"⟩]

theorem upItems_fits : ∀ item ∈ upItems, item.Fits upFlags := by
  intro item hitem
  simp only [upItems, List.mem_cons, List.not_mem_nil, or_false] at hitem
  rcases hitem with rfl | rfl | rfl
  · exact ⟨by decide, _, rfl, rfl⟩
  · exact (by decide : hasPrefix "demo" "-" = false)
  · exact ⟨by decide, _, rfl, trivial⟩

theorem upItems_apart : Apart upFlags upItems := by
  refine ⟨?_, trivial⟩
  rintro ⟨value, hvalue, hdash, -⟩
  obtain rfl : "2" = value := Form.separate.inj hvalue
  exact absurd hdash (by decide)

theorem parseNamesAndFlags_interleaving_upItems :
    upFlags.parseNamesAndFlags id ["-vcpus", "2", "demo", "--publish=false"] [] =
      .ok (["demo"], [("publish", "false"), ("vcpus", "2")]) :=
  (parseNamesAndFlags_interleaving id upFlags upItems [] [("publish", "false"), ("vcpus", "2")]
    upItems_fits upItems_apart (by decide)).1 (by decide)

/-- Flags without a name. -/
theorem parseNamesAndFlags_no_name :
    upFlags.parse id ["-publish"] [] = .ok ([("publish", "true")], []) ∧
      upFlags.parseNamesAndFlags id ["-publish"] [] = .error "missing name" := by
  decide

end Firedoze.Client
