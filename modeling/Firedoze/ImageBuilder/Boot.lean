import Firedoze.ImageBuilder.TarPath
import Mathlib.Data.Prod.Lex
import Mathlib.Data.List.Lex
import Mathlib.Data.List.Pairwise

/-!
# Kernel and initrd

`bootArtifacts.remember` of `cmd/firedoze-image-builder/main.go` looks at the files
of a root file system as they come by, and keeps a kernel and an initrd from
`boot`.  When it sees a second kernel, `versionLess` says which one stays.

`versionLess` sorts the two paths as strings.  So `remember` keeps the version that
sorts last, whatever the order of the files (`keepsLast_rememberAll`).  That is the
newest version as long as sorting as strings and comparing component by component
agree on it (`Agree`).
-/

namespace Firedoze.ImageBuilder

open Text Path

/-! ## The source -/

/-- `bootArtifact`. -/
structure BootArtifact where
  path : Bytes
  data : Bytes
deriving DecidableEq

/-- `bootArtifacts`. -/
structure BootArtifacts where
  kernel : Option BootArtifact := none
  initrd : Option BootArtifact := none

/-- A string as `<` of Go compares it. -/
def codes (s : Bytes) : List ℕ := s.map UInt8.toNat

/-- `sort.Strings` on two strings. -/
def sortStrings (a b : Bytes) : Bytes × Bytes := if codes b < codes a then (b, a) else (a, b)

/-- `versionLess`. -/
def versionLess (a b : Bytes) : Bool := (sortStrings a b).1 == a && a != b

/-- `path.Dir(p) == "boot" && strings.HasPrefix(path.Base(p), name)`. -/
def inBoot (name p : Bytes) : Bool := dir p == bytes "boot" && name.isPrefixOf (base p)

/-- Keep the file if there is none yet, or if its path is the greater one. -/
def supersede (kept : Option BootArtifact) (file : BootArtifact) : Option BootArtifact :=
  match kept with
  | none => some file
  | some old => if versionLess old.path file.path then some file else some old

/-- `bootArtifacts.remember`. -/
def BootArtifacts.remember (a : BootArtifacts) (p data : Bytes) : BootArtifacts :=
  if inBoot (bytes "vmlinuz-") p then { a with kernel := supersede a.kernel ⟨p, data⟩ }
  else if inBoot (bytes "initrd.img-") p then { a with initrd := supersede a.initrd ⟨p, data⟩ }
  else a

/-! ## Versions -/

/-- The components of a version: a run of digits is one component, with its value,
and every other byte is a component.  A run of digits compares to another byte as
a digit does. -/
def componentsFrom : Option ℕ → Bytes → List (ℕ ×ₗ ℕ)
  | run, [] => (run.map fun n => toLex (48, n)).toList
  | run, b :: rest =>
    if 48 ≤ b.toNat ∧ b.toNat ≤ 57 then
      componentsFrom (some (10 * run.getD 0 + (b.toNat - 48))) rest
    else
      (run.map fun n => toLex (48, n)).toList ++ toLex (b.toNat, 0) :: componentsFrom none rest

def components (version : Bytes) : List (ℕ ×ₗ ℕ) := componentsFrom none version

example : components (bytes "6.8.0-14") < components (bytes "6.8.0-100") := by decide

/-- The version of a file in `boot`, if its name starts with the given one. -/
def versionOf (name p : Bytes) : Option Bytes :=
  if (bytes "boot/" ++ name).isPrefixOf p ∧ slash ∉ p.drop (bytes "boot/" ++ name).length then
    some (p.drop (bytes "boot/" ++ name).length)
  else none

theorem versionOf_eq_some_iff {name p version : Bytes} :
    versionOf name p = some version ↔ p = bytes "boot/" ++ name ++ version ∧ slash ∉ version := by
  unfold versionOf
  rw [Option.ite_none_right_eq_some]
  constructor
  · rintro ⟨⟨hpre, hslash⟩, heq⟩
    obtain ⟨rest, rfl⟩ := List.isPrefixOf_iff_prefix.mp hpre
    rw [List.drop_left] at hslash heq
    cases heq
    exact ⟨rfl, hslash⟩
  · rintro ⟨rfl, hslash⟩
    refine ⟨⟨List.isPrefixOf_iff_prefix.mpr ⟨version, rfl⟩, ?_⟩, ?_⟩
    · rwa [List.drop_left]
    · rw [List.drop_left]

/-! ## Files of a root file system -/

/-- A file that `populateRootfs` hands to `remember`: its path is the path of some
tar entry. -/
structure RootfsFile where
  path : Bytes
  data : Bytes
  accepted : ∃ name, cleanTarPath name = some path

/-- `remember` on one file after the other. -/
def rememberAll (files : List RootfsFile) : BootArtifacts :=
  files.foldl (fun a file => a.remember file.path file.data) {}

/-- The versions of the files in `boot` with the given name, in their order. -/
def versions (name : Bytes) (files : List RootfsFile) : List Bytes :=
  files.filterMap fun file => versionOf name file.path

/-! ## Which files are in question -/

/-- A name of a file that starts like this is a name, whatever follows. -/
structure IsStem (name : Bytes) : Prop where
  isName : IsName name
  no_dot : name.head? ≠ some 46

variable {name : Bytes} {files : List RootfsFile} {kept : Option BootArtifact}

theorem IsStem.append {name : Bytes} (h : IsStem name) {rest : Bytes} (hrest : slash ∉ rest) :
    IsName (name ++ rest) := by
  have hhead : (name ++ rest).head? ≠ some 46 := by
    cases name with
    | nil => exact absurd rfl h.isName.ne_nil
    | cons b name => simpa using h.no_dot
  refine ⟨?_, ?_, ?_, ?_⟩
  · exact List.append_ne_nil_of_left_ne_nil h.isName.ne_nil rest
  · intro heq
    exact hhead (by rw [heq]; rfl)
  · intro heq
    exact hhead (by rw [heq]; rfl)
  · simpa using ⟨h.isName.no_slash, hrest⟩

theorem isStem_kernel : IsStem (bytes "vmlinuz-") :=
  ⟨⟨by decide, by decide, by decide, by decide⟩, by decide⟩

theorem isStem_initrd : IsStem (bytes "initrd.img-") :=
  ⟨⟨by decide, by decide, by decide, by decide⟩, by decide⟩

theorem isName_boot : IsName (bytes "boot") :=
  ⟨by decide, by decide, by decide, by decide⟩

theorem join_boot (e : Bytes) : join [bytes "boot", e] = bytes "boot/" ++ e := by
  have hboot : bytes "boot/" = bytes "boot" ++ [slash] := by decide
  rw [hboot]
  simp [join, List.intercalate_cons_cons]

/-- The test of `remember` picks the files that have a version. -/
theorem inBoot_iff (file : RootfsFile) (hname : IsStem name) :
    inBoot name file.path = true ↔ ∃ version, versionOf name file.path = some version := by
  obtain ⟨tarName, haccepted⟩ := file.accepted
  generalize file.path = p at haccepted
  simp only [versionOf_eq_some_iff, inBoot, Bool.and_eq_true, beq_iff_eq]
  constructor
  · rintro ⟨hdir, hbase⟩
    by_cases hdoubled : Doubled tarName
    · -- The directory of a rooted path is not `boot`.
      rw [cleanTarPath_of_doubled hdoubled] at haccepted
      split_ifs at haccepted
      have hroot : isRooted (dir p) = true :=
        isRooted_dir (by rw [← Option.some.inj haccepted]; rfl)
      rw [hdir] at hroot
      exact absurd hroot (by decide)
    · obtain ⟨rfl, hnames, hne, -⟩ := exists_names_of_cleanTarPath hdoubled haccepted
      generalize cleanName tarName = es at *
      obtain ⟨init, e, rfl⟩ := (List.eq_nil_or_concat' es).resolve_left hne
      have he : IsName e := hnames e (by simp)
      have hinit : ∀ e' ∈ init, IsName e' := fun e' he' => hnames e' (by simp [he'])
      by_cases hnil : init = []
      · subst hnil
        rw [show join ([] ++ [e]) = e by simp [join], dir_of_no_slash he.no_slash] at hdir
        exact absurd hdir (by decide)
      · rw [dir_join_concat hinit hnil he.no_slash] at hdir
        have hboot : init = [bytes "boot"] := by
          rw [← splitOn_join hinit hnil, hdir]
          decide
        rw [base_join_concat he] at hbase
        obtain ⟨version, rfl⟩ := List.isPrefixOf_iff_prefix.mp hbase
        refine ⟨version, ?_, fun hmem => he.no_slash (by simp [hmem])⟩
        rw [hboot, List.append_assoc, ← join_boot]
        rfl
  · rintro ⟨version, rfl, hslash⟩
    have he := hname.append hslash
    have hjoin : bytes "boot/" ++ name ++ version = join ([bytes "boot"] ++ [name ++ version]) := by
      rw [List.append_assoc, ← join_boot]
      rfl
    rw [hjoin, dir_join_concat (by simpa using isName_boot) (by simp) he.no_slash,
      base_join_concat he]
    exact ⟨by simp [join], List.isPrefixOf_iff_prefix.mpr ⟨version, rfl⟩⟩

/-! ## What is kept -/

section Greatest

variable {κ : Type*} [LE κ]

/-- The version is in the list, and no version of the list has a greater key. -/
def Greatest (key : Bytes → κ) (version : Bytes) (vs : List Bytes) : Prop :=
  version ∈ vs ∧ ∀ other ∈ vs, key other ≤ key version

/-- A file with the greatest version is kept, if there is a version. -/
def KeepsGreatest (key : Bytes → κ) (name : Bytes) (files : List RootfsFile) :
    Option BootArtifact → Prop
  | none => versions name files = []
  | some kept => ∃ file ∈ files, kept = ⟨file.path, file.data⟩ ∧
      ∃ version, versionOf name file.path = some version ∧
        Greatest key version (versions name files)

end Greatest

theorem codes_injective : Function.Injective codes :=
  List.map_injective_iff.mpr fun _ _ h => UInt8.toNat_inj.mp h

theorem versionLess_iff {a b : Bytes} : versionLess a b = true ↔ codes a < codes b := by
  unfold versionLess sortStrings
  rcases lt_trichotomy (codes a) (codes b) with hlt | heq | hgt
  · have hne : a ≠ b := fun heq => absurd hlt (by simp [heq])
    simp [not_lt_of_gt hlt, hlt, hne]
  · simp [codes_injective heq]
  · have hne : b ≠ a := fun heq => absurd hgt (by simp [heq])
    simp [hgt, not_lt_of_gt hgt, hne]

/-- Two paths with the same beginning compare as their versions do. -/
theorem codes_append_lt_iff (start a b : Bytes) :
    codes (start ++ a) < codes (start ++ b) ↔ codes a < codes b := by
  induction start with
  | nil => rfl
  | cons c start ih => simpa [codes, List.cons_lt_cons_iff] using ih

theorem versionLess_path {name p q v w : Bytes} (hp : versionOf name p = some v)
    (hq : versionOf name q = some w) : versionLess p q = true ↔ codes v < codes w := by
  rw [versionLess_iff, (versionOf_eq_some_iff.mp hp).1, (versionOf_eq_some_iff.mp hq).1,
    codes_append_lt_iff]

/-- One more file. -/
theorem keepsGreatest_supersede {file : RootfsFile} {version : Bytes}
    (h : KeepsGreatest codes name files kept) (hversion : versionOf name file.path = some version) :
    KeepsGreatest codes name (files ++ [file]) (supersede kept ⟨file.path, file.data⟩) := by
  have hversions : versions name (files ++ [file]) = versions name files ++ [version] := by
    simp [versions, hversion]
  cases kept with
  | none =>
    have hnil : versions name files = [] := h
    refine ⟨file, by simp, rfl, version, hversion, ?_⟩
    rw [hversions, hnil]
    exact ⟨by simp, by simp⟩
  | some old =>
    obtain ⟨oldFile, hmem, rfl, oldVersion, hold, hin, hgreatest⟩ := h
    unfold supersede
    dsimp only
    by_cases hless : versionLess oldFile.path file.path = true
    · rw [if_pos hless]
      have hlt := (versionLess_path hold hversion).mp hless
      refine ⟨file, by simp, rfl, version, hversion, by simp [hversions], ?_⟩
      intro other hother
      rw [hversions] at hother
      rcases List.mem_append.mp hother with hother | hother
      · exact (hgreatest other hother).trans hlt.le
      · rw [List.mem_singleton.mp hother]
    · rw [if_neg hless]
      have hle := le_of_not_gt (mt (versionLess_path hold hversion).mpr hless)
      refine ⟨oldFile, by simp [hmem], rfl, oldVersion, hold, by simp [hversions, hin], ?_⟩
      intro other hother
      rw [hversions] at hother
      rcases List.mem_append.mp hother with hother | hother
      · exact hgreatest other hother
      · rw [List.mem_singleton.mp hother]
        exact hle

/-- A file that has no version changes nothing. -/
theorem keepsGreatest_skip {file : RootfsFile} (h : KeepsGreatest codes name files kept)
    (hversion : versionOf name file.path = none) :
    KeepsGreatest codes name (files ++ [file]) kept := by
  have hversions : versions name (files ++ [file]) = versions name files := by
    simp [versions, hversion]
  cases kept with
  | none => exact hversions.trans h
  | some old =>
    obtain ⟨oldFile, hmem, heq, oldVersion, hold, hgreatest⟩ := h
    exact ⟨oldFile, by simp [hmem], heq, oldVersion, hold, by rwa [hversions]⟩

theorem inBoot_eq_false_iff (file : RootfsFile) (hname : IsStem name) :
    inBoot name file.path = false ↔ versionOf name file.path = none := by
  rw [Bool.eq_false_iff, Ne, inBoot_iff file hname, Option.eq_none_iff_forall_ne_some, not_exists]

/-- No file is a kernel and an initrd. -/
theorem not_initrd_of_kernel {p : Bytes} (h : inBoot (bytes "vmlinuz-") p = true) :
    inBoot (bytes "initrd.img-") p = false := by
  have hkernel := List.isPrefixOf_iff_prefix.mp (Bool.and_eq_true_iff.mp h).2
  by_contra hinitrd
  rw [Bool.not_eq_false] at hinitrd
  have hinitrd := List.isPrefixOf_iff_prefix.mp (Bool.and_eq_true_iff.mp hinitrd).2
  have hstart := List.prefix_of_prefix_length_le hkernel hinitrd (by decide)
  exact absurd hstart (by decide)

/-- What `remember` keeps, in both places. -/
structure KeepsLast (files : List RootfsFile) (a : BootArtifacts) : Prop where
  kernel : KeepsGreatest codes (bytes "vmlinuz-") files a.kernel
  initrd : KeepsGreatest codes (bytes "initrd.img-") files a.initrd

theorem keepsLast_remember {a : BootArtifacts} (h : KeepsLast files a) (file : RootfsFile) :
    KeepsLast (files ++ [file]) (a.remember file.path file.data) := by
  unfold BootArtifacts.remember
  by_cases hkernel : inBoot (bytes "vmlinuz-") file.path = true
  · rw [if_pos hkernel]
    obtain ⟨version, hversion⟩ := (inBoot_iff file isStem_kernel).mp hkernel
    have hinitrd := (inBoot_eq_false_iff file isStem_initrd).mp (not_initrd_of_kernel hkernel)
    exact ⟨keepsGreatest_supersede h.kernel hversion, keepsGreatest_skip h.initrd hinitrd⟩
  · rw [if_neg hkernel]
    rw [Bool.not_eq_true, inBoot_eq_false_iff file isStem_kernel] at hkernel
    by_cases hinitrd : inBoot (bytes "initrd.img-") file.path = true
    · rw [if_pos hinitrd]
      obtain ⟨version, hversion⟩ := (inBoot_iff file isStem_initrd).mp hinitrd
      exact ⟨keepsGreatest_skip h.kernel hkernel, keepsGreatest_supersede h.initrd hversion⟩
    · rw [if_neg hinitrd]
      rw [Bool.not_eq_true, inBoot_eq_false_iff file isStem_initrd] at hinitrd
      exact ⟨keepsGreatest_skip h.kernel hkernel, keepsGreatest_skip h.initrd hinitrd⟩

/-- `remember` keeps the versions that sort last. -/
theorem keepsLast_rememberAll (files : List RootfsFile) : KeepsLast files (rememberAll files) := by
  induction files using List.reverseRecOn with
  | nil => exact ⟨rfl, rfl⟩
  | append_singleton files file ih =>
    rw [rememberAll, List.foldl_append]
    exact keepsLast_remember ih file

/-! ## Newest versions -/

/-- The version that sorts last as a string is the newest one. -/
def Agree (vs : List Bytes) : Prop :=
  ∀ version, Greatest codes version vs → Greatest components version vs

theorem greatest_codes_unique {a b : Bytes} {vs : List Bytes} (ha : Greatest codes a vs)
    (hb : Greatest codes b vs) : a = b :=
  codes_injective (le_antisymm (hb.2 a ha.1) (ha.2 b hb.1))

theorem keepsGreatest_components_iff (h : KeepsGreatest codes name files kept) :
    KeepsGreatest components name files kept ↔ Agree (versions name files) := by
  cases kept with
  | none =>
    have hnil : versions name files = [] := h
    refine iff_of_true hnil fun version hgreatest => ?_
    exact absurd hgreatest.1 (by simp [hnil])
  | some a =>
    obtain ⟨file, hmem, rfl, version, hversion, hlast⟩ := h
    constructor
    · rintro ⟨file', -, heq, version', hversion', hnewest⟩ other hother
      have hpath : file.path = file'.path := congrArg BootArtifact.path heq
      have hsame : version = version' :=
        Option.some.inj (by rw [← hversion, ← hversion', hpath])
      rwa [greatest_codes_unique hother hlast, hsame]
    · intro hagree
      exact ⟨file, hmem, rfl, version, hversion, hagree version hlast⟩

/-- The newest kernel and the newest initrd are kept. -/
structure KeepsNewest (files : List RootfsFile) : Prop where
  kernel : KeepsGreatest components (bytes "vmlinuz-") files (rememberAll files).kernel
  initrd : KeepsGreatest components (bytes "initrd.img-") files (rememberAll files).initrd

/-- Every order of the files gives the same choice. -/
def OrderFree (files : List RootfsFile) : Prop :=
  ∀ files' : List RootfsFile, files.Perm files' → rememberAll files' = rememberAll files

/-- The version of what is kept. -/
def keptVersion (name : Bytes) (kept : Option BootArtifact) : Option Bytes :=
  kept.bind fun a => versionOf name a.path

/-- Kernel and initrd have the same version, if they exist for the same versions. -/
def Matching (files : List RootfsFile) : Prop :=
  (∀ version, version ∈ versions (bytes "vmlinuz-") files ↔
    version ∈ versions (bytes "initrd.img-") files) →
  keptVersion (bytes "vmlinuz-") (rememberAll files).kernel =
    keptVersion (bytes "initrd.img-") (rememberAll files).initrd

/-- With distinct versions, a version belongs to one file. -/
theorem file_eq_of_versionOf {name version : Bytes} (hnodup : (versions name files).Nodup)
    {f g : RootfsFile} (hf : f ∈ files) (hg : g ∈ files)
    (hvf : versionOf name f.path = some version) (hvg : versionOf name g.path = some version) :
    f = g := by
  have hpairs := List.pairwise_filterMap.mp hnodup
  by_contra hne
  have : Std.Symm fun a b : RootfsFile => ∀ v, versionOf name a.path = some v →
      ∀ w, versionOf name b.path = some w → v ≠ w := ⟨fun _ _ h v hv w hw => (h w hw v hv).symm⟩
  exact hpairs.forall hf hg hne version hvf version hvg rfl

theorem kept_eq_of_perm {files files' : List RootfsFile} (hperm : files.Perm files')
    (hnodup : (versions name files).Nodup) {kept kept' : Option BootArtifact}
    (h : KeepsGreatest codes name files kept) (h' : KeepsGreatest codes name files' kept') :
    kept' = kept := by
  have hversions : (versions name files).Perm (versions name files') := hperm.filterMap _
  cases kept with
  | none =>
    have hnil : versions name files = [] := h
    cases kept' with
    | none => rfl
    | some a =>
      obtain ⟨file, -, -, version, -, hin, -⟩ := h'
      exact absurd (hversions.mem_iff.mpr hin) (by simp [hnil])
  | some a =>
    obtain ⟨file, hmem, rfl, version, hversion, hlast⟩ := h
    cases kept' with
    | none =>
      have hnil : versions name files' = [] := h'
      exact absurd (hversions.mem_iff.mp hlast.1) (by simp [hnil])
    | some a' =>
      obtain ⟨file', hmem', rfl, version', hversion', hlast'⟩ := h'
      have hlast'' : Greatest codes version' (versions name files) :=
        ⟨hversions.mem_iff.mpr hlast'.1, fun v hv => hlast'.2 v (hversions.mem_iff.mp hv)⟩
      rw [greatest_codes_unique hlast'' hlast] at hversion'
      rw [file_eq_of_versionOf hnodup (hperm.mem_iff.mpr hmem') hmem hversion' hversion]

theorem orderFree (hkernel : (versions (bytes "vmlinuz-") files).Nodup)
    (hinitrd : (versions (bytes "initrd.img-") files).Nodup) : OrderFree files := by
  intro files' hperm
  have h := keepsLast_rememberAll files
  have h' := keepsLast_rememberAll files'
  have hk := kept_eq_of_perm hperm hkernel h.kernel h'.kernel
  have hi := kept_eq_of_perm hperm hinitrd h.initrd h'.initrd
  cases hold : rememberAll files
  cases hnew : rememberAll files'
  simp_all

theorem keptVersion_cases (h : KeepsGreatest codes name files kept) :
    keptVersion name kept = none ∧ versions name files = [] ∨
      ∃ version, keptVersion name kept = some version ∧
        Greatest codes version (versions name files) := by
  cases kept with
  | none => exact Or.inl ⟨rfl, h⟩
  | some a =>
    obtain ⟨file, -, rfl, version, hversion, hlast⟩ := h
    exact Or.inr ⟨version, hversion, hlast⟩

theorem matching (files : List RootfsFile) : Matching files := by
  intro hsame
  have h := keepsLast_rememberAll files
  rcases keptVersion_cases h.kernel with ⟨hkernel, hnil⟩ | ⟨v, hkernel, hv⟩ <;>
    rcases keptVersion_cases h.initrd with ⟨hinitrd, hnil'⟩ | ⟨w, hinitrd, hw⟩
  · rw [hkernel, hinitrd]
  · exact absurd ((hsame w).mpr hw.1) (by simp [hnil])
  · exact absurd ((hsame v).mp hv.1) (by simp [hnil'])
  · have hw' : Greatest codes w (versions (bytes "vmlinuz-") files) :=
      ⟨(hsame w).mpr hw.1, fun u hu => hw.2 u ((hsame u).mp hu)⟩
    rw [hkernel, hinitrd, greatest_codes_unique hv hw']

/-- The newest kernel and the newest initrd are kept exactly when they are the ones
that sort last.  The order of the files never matters, and kernel and initrd always
match. -/
theorem remember_keeps_newest_iff (files : List RootfsFile)
    (hkernel : (versions (bytes "vmlinuz-") files).Nodup)
    (hinitrd : (versions (bytes "initrd.img-") files).Nodup) :
    (KeepsNewest files ↔
      Agree (versions (bytes "vmlinuz-") files) ∧ Agree (versions (bytes "initrd.img-") files)) ∧
      OrderFree files ∧ Matching files := by
  have h := keepsLast_rememberAll files
  refine ⟨?_, orderFree hkernel hinitrd, matching files⟩
  rw [← keepsGreatest_components_iff h.kernel, ← keepsGreatest_components_iff h.initrd]
  exact ⟨fun h => ⟨h.kernel, h.initrd⟩, fun h => ⟨h.1, h.2⟩⟩

/-- Two kernels of one release, the older one with the path that sorts last. -/
def twoKernels : List RootfsFile :=
  [⟨bytes "boot/vmlinuz-6.8.0-100", [1], bytes "/boot/vmlinuz-6.8.0-100", by decide⟩,
    ⟨bytes "boot/vmlinuz-6.8.0-14", [2], bytes "./boot/vmlinuz-6.8.0-14", by decide⟩]

theorem remember_keeps_newest_iff_twoKernels :
    (KeepsNewest twoKernels ↔ Agree (versions (bytes "vmlinuz-") twoKernels) ∧
      Agree (versions (bytes "initrd.img-") twoKernels)) ∧
      OrderFree twoKernels ∧ Matching twoKernels :=
  remember_keeps_newest_iff twoKernels (by decide) (by decide)

/-- The older kernel is kept. -/
theorem remember_keeps_older :
    (rememberAll twoKernels).kernel = some ⟨bytes "boot/vmlinuz-6.8.0-14", [2]⟩ ∧
      bytes "6.8.0-100" ∈ versions (bytes "vmlinuz-") twoKernels ∧
      components (bytes "6.8.0-14") < components (bytes "6.8.0-100") := by
  decide

end Firedoze.ImageBuilder
