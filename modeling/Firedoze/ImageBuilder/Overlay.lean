import Firedoze.Conc.Monitor
import Firedoze.ImageBuilder.Groups
import Firedoze.ImageBuilder.TarPath

/-!
# The guest overlay, and files of an image

A `GuestOverlay` lists what `cmd/firedoze-image-builder/main.go` puts into a guest
image itself: files that are edited, links, and directories that stay empty.  A
path that the overlay owns is not taken over from the tar archive.

`mkdirAll`, `writeFile` and `symlink` are the helpers that change an image.  The
image is a file system of the package `ext4`, so each of its operations is an
action that may fail.  `all_writeFile` and `all_symlink` say which paths the two
helpers touch: the path itself, and the directories above it.
-/

namespace Firedoze.ImageBuilder

open Text Path Conc Conc.Prog

/-! ## The overlay -/

/-- `fileOverlay`. -/
structure FileOverlay where
  mode : BitVec 32
  uid : Int
  gid : Int
  transform : Bytes → Bytes
  data : Option Bytes := none

/-- The file with its new content. -/
def FileOverlay.capture (f : FileOverlay) (data : Bytes) : FileOverlay :=
  { f with data := some (f.transform data) }

/-- `guestOverlay`. -/
structure GuestOverlay where
  files : List (Bytes × FileOverlay)
  symlinks : List (Bytes × Bytes)
  skipPrefixes : List Bytes

/-- The units that `newGuestOverlay` masks. -/
def maskedUnits : List String :=
  ["apparmor.service", "snapd.apparmor.service", "ssh.socket", "cloud-init.service",
    "cloud-init-local.service", "cloud-config.service", "cloud-final.service",
    "cloud-init-main.service", "cloud-init-network.service", "cloud-init.target",
    "systemd-networkd-wait-online.service", "systemd-binfmt.service",
    "proc-sys-fs-binfmt_misc.mount", "multipathd.service", "multipathd.socket",
    "open-iscsi.service", "iscsid.socket", "lvm2-monitor.service", "dm-event.socket",
    "lvm2-lvmpolld.socket", "snapd.service", "snapd.socket", "snapd.seeded.service",
    "snapd.autoimport.service", "snapd.core-fixup.service",
    "snapd.recovery-chooser-trigger.service", "snapd.snap-repair.timer",
    "snapd.system-shutdown.service", "unattended-upgrades.service", "apt-daily.service",
    "apt-daily.timer", "apt-daily-upgrade.service", "apt-daily-upgrade.timer", "man-db.service",
    "man-db.timer", "motd-news.timer", "update-notifier-download.timer",
    "update-notifier-motd.timer", "sysstat-collect.timer", "sysstat-rotate.timer",
    "sysstat-summary.timer", "sysstat.service", "pollinate.service", "networkd-dispatcher.service",
    "ModemManager.service", "udisks2.service", "polkit.service", "e2scrub_reap.service",
    "e2scrub_all.timer", "xfs_scrub_all.timer", "fstrim.timer", "fwupd-refresh.timer",
    "dpkg-db-backup.timer", "logrotate.timer", "mdcheck_continue.timer", "mdcheck_start.timer",
    "mdmonitor-oneshot.timer", "lxd-installer.socket", "open-vm-tools.service", "vgauth.service",
    "secureboot-db.service", "ua-reboot-cmds.service", "ubuntu-advantage.service",
    "ua-timer.timer", "systemd-pstore.service", "apport-autoreport.path",
    "apport-autoreport.timer", "apport-forward.socket", "tpm-udev.path", "rsyslog.service",
    "qemu-guest-agent.service", "ufw.service", "apport.service"]

/-- The other links of `newGuestOverlay`.  A link without a target is left out. -/
def guestLinks : List (String × String) :=
  [("etc/ssh/sshd_config.d/60-cloudimg-settings.conf", ""),
    ("etc/systemd/system/sockets.target.wants/ssh.socket", ""),
    ("etc/systemd/system/sysinit.target.wants/firedoze-grow-root.service",
      "/etc/systemd/system/firedoze-grow-root.service"),
    ("etc/systemd/system/sysinit.target.wants/firedoze-network.service",
      "/etc/systemd/system/firedoze-network.service"),
    ("etc/systemd/system/sysinit.target.wants/firedoze-sshd.service",
      "/etc/systemd/system/firedoze-sshd.service"),
    ("etc/systemd/system/multi-user.target.wants/firedoze-memd.service",
      "/etc/systemd/system/firedoze-memd.service"),
    ("etc/systemd/system/multi-user.target.wants/firedoze-zram.service",
      "/etc/systemd/system/firedoze-zram.service")]

/-- `newGuestOverlay`. -/
def newGuestOverlay : GuestOverlay where
  files :=
    [(bytes "etc/passwd",
        { mode := 0o644, uid := 0, gid := 0
          transform := fun data => ensureNamedLineText data (bytes "ubuntu")
            (bytes "ubuntu:x:1000:1000:Ubuntu:/home/ubuntu:/bin/bash") }),
      (bytes "etc/shadow",
        { mode := 0o640, uid := 0, gid := 42
          transform := fun data => ensureNamedLineText data (bytes "ubuntu")
            (bytes "ubuntu::19723:0:99999:7:::") }),
      (bytes "etc/group",
        { mode := 0o644, uid := 0, gid := 0
          transform := fun data =>
            ensureGroupMemberText
              (ensureGroupMemberText data (bytes "ubuntu") (bytes "x") (bytes "1000")
                (bytes "ubuntu"))
              (bytes "sudo") (bytes "x") (bytes "27") (bytes "ubuntu") }),
      (bytes "etc/gshadow",
        { mode := 0o640, uid := 0, gid := 42
          transform := fun data =>
            ensureGroupMemberText
              (ensureGroupMemberText data (bytes "ubuntu") (bytes "!") [] (bytes "ubuntu"))
              (bytes "sudo") (bytes "*") [] (bytes "ubuntu") }),
      (bytes "etc/fstab",
        { mode := 0o644, uid := 0, gid := 0
          transform := fun _ => bytes "/dev/vda / ext4 defaults,errors=remount-ro 0 1\n" })]
  symlinks :=
    maskedUnits.map (fun u => (bytes "etc/systemd/system/" ++ bytes u, bytes "/dev/null")) ++
      guestLinks.map fun link => (bytes link.1, bytes link.2)
  skipPrefixes :=
    (["usr/share/doc/", "usr/share/man/", "usr/share/info/", "usr/share/lintian/",
      "usr/share/linda/", "usr/share/locale/", "usr/share/help/", "usr/share/command-not-found/",
      "usr/lib/command-not-found", "var/lib/command-not-found/", "var/cache/man/",
      "var/cache/apt/", "var/lib/apt/lists/", "var/lib/cloud/", "var/log/", "var/crash/"]).map bytes

namespace GuestOverlay

/-- The path is a file or a link of the overlay. -/
def hasKey (o : GuestOverlay) (p : Bytes) : Bool :=
  o.files.any (·.1 == p) || o.symlinks.any (·.1 == p)

/-- `guestOverlay.shouldSkip`. -/
def shouldSkip (o : GuestOverlay) (p : Bytes) : Bool :=
  o.hasKey p || o.skipPrefixes.any (·.isPrefixOf p)

/-- `guestOverlay.captureFile`. -/
def captureFile (o : GuestOverlay) (p data : Bytes) : Option GuestOverlay :=
  if o.files.any (·.1 == p) then
    some { o with files := o.files.map fun f => (f.1, if f.1 == p then f.2.capture data else f.2) }
  else none

theorem hasKey_captureFile {o o' : GuestOverlay} {p data : Bytes}
    (h : o.captureFile p data = some o') (q : Bytes) : o'.hasKey q = o.hasKey q := by
  unfold captureFile at h
  split_ifs at h
  cases h
  unfold hasKey
  rw [List.any_map]
  rfl

theorem shouldSkip_captureFile {o o' : GuestOverlay} {p data : Bytes}
    (h : o.captureFile p data = some o') (q : Bytes) : o'.shouldSkip q = o.shouldSkip q := by
  unfold shouldSkip
  rw [hasKey_captureFile h]
  unfold captureFile at h
  split_ifs at h
  cases h
  rfl

/-- The overlay owns what the path denotes. -/
def Owns (o : GuestOverlay) (p : Bytes) : Prop := o.shouldSkip (join (elements p)) = true

end GuestOverlay

/-! ## The image -/

/-- Mode, owner and time. -/
structure Attributes where
  mode : BitVec 32
  uid : Int
  gid : Int
  modTime : Int

inductive TypeFlag
  | reg
  | dir
  | symlink
  | link
  | other
deriving DecidableEq

/-- The header of a tar entry.  `isDir` is `FileInfo().IsDir()`. -/
structure TarHeader where
  name : Bytes
  linkname : Bytes := []
  typeflag : TypeFlag
  mode : BitVec 64
  uid : Int
  gid : Int
  modTime : Int
  isDir : Bool

/-- Errors, with the words that are put in front of their cause. -/
inductive ImageError
  | image (text : Bytes)
  | tar (text : Bytes)
  | notDirectory (p : Bytes)
  | pointsTo (p current target : Bytes)
  | notSymlink (p : Bytes)
  | wrapped (words : Bytes) (cause : ImageError)

/-- Operations of the file system, and the step of the tar reader to its next
entry.  `stat` answers whether the path is a directory. -/
inductive ImageEff : Type → Type
  | next (entry : Option TarHeader) : ImageEff Unit
  | stat (p : Bytes) : ImageEff (Option Bool)
  | mkdir (p : Bytes) : ImageEff (Except ImageError Unit)
  | chmod (p : Bytes) (mode : BitVec 32) : ImageEff Unit
  | chown (p : Bytes) (uid gid : Int) : ImageEff Unit
  | chtimes (p : Bytes) (modTime : Int) : ImageEff Unit
  | truncate (p : Bytes) : ImageEff (Except ImageError Unit)
  | openFile (p : Bytes) (create : Bool) : ImageEff (Except ImageError Unit)
  | copy (p data : Bytes) : ImageEff (Except ImageError Unit)
  | close (p : Bytes) : ImageEff (Except ImageError Unit)
  | readLink (p : Bytes) : ImageEff (Option Bytes)
  | symlink (target p : Bytes) : ImageEff (Except ImageError Unit)
  | readFile (p : Bytes) : ImageEff (Except ImageError Bytes)

/-- The path that an operation changes. -/
def ImageEff.touched {β : Type} : ImageEff β → Option Bytes
  | .mkdir p | .chmod p _ | .chown p _ _ | .chtimes p _ | .truncate p | .openFile p _
  | .copy p _ | .close p | .symlink _ p => some p
  | .next _ | .stat _ | .readLink _ | .readFile _ => none

abbrev Image (α : Type) := ExceptT ImageError (Prog ImageEff) α

/-- `fmt.Errorf("words: %w", err)` for an error of the block. -/
def wrap {α : Type} (words : Bytes) (x : Image α) : Image α := do
  match ← attempt x with
  | .ok a => pure a
  | .error e => throw (.wrapped words e)

/-- `Chmod`, `Chown` and `Chtimes`, whose errors are dropped. -/
def setAttributes (p : Bytes) (attrs : Attributes) : Image Unit := do
  sect (.chmod p attrs.mode)
  sect (.chown p attrs.uid attrs.gid)
  sect (.chtimes p attrs.modTime)

/-- The loop of `mkdirAll`. -/
def mkdirParts : Bytes → List Bytes → Image Unit
  | _, [] => pure ()
  | current, part :: parts =>
    if part = [] then mkdirParts current parts
    else do
      match ← sect (.stat (joinTwo current part)) with
      | some true => mkdirParts (joinTwo current part) parts
      | some false => throw (.notDirectory (joinTwo current part))
      | none => do
        call (.mkdir (joinTwo current part))
        mkdirParts (joinTwo current part) parts

/-- `mkdirAll`. -/
def mkdirAll (p : Bytes) (attrs : Attributes) : Image Unit :=
  if p = [] then pure ()
  else do
    mkdirParts [] (p.splitOn slash)
    setAttributes p attrs

/-- The directory above a path, as `writeFile` and `symlink` make it. -/
def mkdirAbove (p : Bytes) (modTime : Int) : Image Unit := mkdirAll (dir p) ⟨0o755, 0, 0, modTime⟩

/-- `OpenFile`, `io.Copy` and `Close`. -/
def copyInto (p : Bytes) (create : Bool) (data : Bytes) : Image Unit := do
  call (.openFile p create)
  match ← attempt (call (.copy p data)) with
  | .ok () => call (.close p)
  | .error e => do
    let _ ← attempt (call (.close p))
    throw e

/-- `writeFile`. -/
def writeFile (p data : Bytes) (attrs : Attributes) : Image Unit := do
  mkdirAbove p attrs.modTime
  match ← sect (.stat p) with
  | none => copyInto p true data
  | some _ => do
    call (.truncate p)
    copyInto p false data
  setAttributes p attrs

/-- `symlink`. -/
def symlink (target p : Bytes) (modTime : Int) : Image Unit := do
  mkdirAbove p modTime
  match ← sect (.readLink p) with
  | some current =>
    if current ≠ target then throw (.pointsTo p current target) else sect (.chtimes p modTime)
  | none => do
    match ← sect (.stat p) with
    | some _ => throw (.notSymlink p)
    | none => call (.symlink target p)

/-! ## What the helpers touch -/

def ImageEff.isNext {β : Type} : ImageEff β → Bool
  | .next _ => true
  | _ => false

/-- The operation touches paths of `S` only, and is no step of the tar reader. -/
def Touches (S : Bytes → Prop) {β : Type} (e : ImageEff β) : Prop :=
  e.isNext = false ∧ ∀ p, e.touched = some p → S p

section Touches

variable {S : Bytes → Prop} {p data : Bytes}

theorem touches_of_touched {β : Type} {e : ImageEff β} (hnext : e.isNext = false)
    (htouched : e.touched = some p) (h : S p) : Touches S e := by
  refine ⟨hnext, fun q hq => ?_⟩
  rwa [← Option.some.inj (htouched.symm.trans hq)]

theorem touches_of_untouched {β : Type} {e : ImageEff β} (hnext : e.isNext = false)
    (htouched : e.touched = none) : Touches S e :=
  ⟨hnext, fun q hq => absurd (htouched.symm.trans hq) (by simp)⟩

theorem all_setAttributes (h : S p) (attrs : Attributes) :
    All (Touches S) (setAttributes p attrs).run :=
  all_run_bind (all_sect (touches_of_touched rfl rfl h)) fun _ =>
    all_run_bind (all_sect (touches_of_touched rfl rfl h)) fun _ =>
      all_sect (touches_of_touched rfl rfl h)

/-- The directories that `mkdirParts` looks at. -/
def mkdirPaths : Bytes → List Bytes → List Bytes
  | _, [] => []
  | current, part :: parts =>
    if part = [] then mkdirPaths current parts
    else joinTwo current part :: mkdirPaths (joinTwo current part) parts

theorem all_mkdirParts {current : Bytes} {parts : List Bytes}
    (h : ∀ q ∈ mkdirPaths current parts, S q) : All (Touches S) (mkdirParts current parts).run := by
  induction parts generalizing current with
  | nil => exact all_run_pure _
  | cons part parts ih =>
    unfold mkdirParts
    unfold mkdirPaths at h
    by_cases hpart : part = []
    · rw [if_pos hpart] at h ⊢
      exact ih h
    · rw [if_neg hpart] at h ⊢
      have hrest := ih fun q hq => h q (List.mem_cons_of_mem _ hq)
      refine all_run_bind (all_sect (touches_of_untouched rfl rfl)) fun info => ?_
      match info with
      | some true => exact hrest
      | some false => exact all_run_throw _
      | none =>
        exact all_run_bind (all_call (touches_of_touched rfl rfl (h _ List.mem_cons_self)))
          fun _ => hrest

theorem all_mkdirAll (h : ∀ q ∈ mkdirPaths [] (p.splitOn slash), S q) (hp : S p)
    (attrs : Attributes) : All (Touches S) (mkdirAll p attrs).run := by
  unfold mkdirAll
  split_ifs
  · exact all_run_pure _
  · exact all_run_bind (all_mkdirParts h) fun _ => all_setAttributes hp attrs

theorem all_copyInto (h : S p) (create : Bool) : All (Touches S) (copyInto p create data).run := by
  refine all_run_bind (all_call (touches_of_touched rfl rfl h)) fun _ => ?_
  refine all_run_bind (all_attempt (all_call (touches_of_touched rfl rfl h))) fun r => ?_
  have hclose : All (Touches S) (call (ImageEff.close p)).run :=
    all_call (touches_of_touched rfl rfl h)
  match r with
  | .ok () => exact hclose
  | .error e => exact all_run_bind (all_attempt hclose) fun _ => all_run_throw _

theorem all_writeFile (h : S p) (attrs : Attributes)
    (habove : All (Touches S) (mkdirAbove p attrs.modTime).run) :
    All (Touches S) (writeFile p data attrs).run := by
  refine all_run_bind habove fun _ => ?_
  refine all_run_bind (all_sect (touches_of_untouched rfl rfl)) fun info => ?_
  match info with
  | none => exact all_run_bind (all_copyInto h true) fun _ => all_setAttributes h attrs
  | some _ =>
    refine all_run_bind (all_call (touches_of_touched rfl rfl h)) fun _ => ?_
    exact all_run_bind (all_copyInto h false) fun _ => all_setAttributes h attrs

theorem all_symlink {target : Bytes} {modTime : Int} (h : S p)
    (habove : All (Touches S) (mkdirAbove p modTime).run) :
    All (Touches S) (symlink target p modTime).run := by
  refine all_run_bind habove fun _ => ?_
  refine all_run_bind (all_sect (touches_of_untouched rfl rfl)) fun link => ?_
  match link with
  | some current =>
    dsimp only
    split_ifs
    · exact all_run_throw _
    · exact all_sect (touches_of_touched rfl rfl h)
  | none =>
    refine all_run_bind (all_sect (touches_of_untouched rfl rfl)) fun info => ?_
    match info with
    | some _ => exact all_run_throw _
    | none => exact all_call (touches_of_touched rfl rfl h)

theorem all_wrap {α : Type} {x : Image α} (h : All (Touches S) x.run) (words : Bytes) :
    All (Touches S) (wrap words x).run := by
  refine all_run_bind (all_attempt h) fun r => ?_
  match r with
  | .ok a => exact all_run_pure a
  | .error e => exact all_run_throw _

end Touches

/-! ## Paths that the overlay does not own -/

/-- A path that the overlay does not own, below directories that it does not own. -/
structure Clear (o : GuestOverlay) (p : Bytes) : Prop where
  eq : ∃ es e, p = join (es ++ [e]) ∧ (∀ e' ∈ es ++ [e], IsName e') ∧
    ∀ above, above <+: es → o.hasKey (join above) = false
  shouldSkip : o.shouldSkip p = false

theorem mem_mkdirPaths {es parts : List Bytes} (hes : ∀ e ∈ es, IsName e)
    (hparts : ∀ e ∈ parts, IsName e) {q : Bytes} (hq : q ∈ mkdirPaths (join es) parts) :
    ∃ taken, taken <+: parts ∧ q = join (es ++ taken) := by
  induction parts generalizing es with
  | nil => exact absurd hq (by simp [mkdirPaths])
  | cons part parts ih =>
    have hpart := hparts part List.mem_cons_self
    rw [mkdirPaths, if_neg hpart.ne_nil, joinTwo_join hes hpart] at hq
    rcases List.mem_cons.mp hq with rfl | hmem
    · exact ⟨[part], ⟨parts, rfl⟩, rfl⟩
    · have hnext : ∀ e ∈ es ++ [part], IsName e := by
        intro e he
        rcases List.mem_append.mp he with he | he
        · exact hes e he
        · rwa [List.mem_singleton.mp he]
      obtain ⟨taken, htaken, rfl⟩ := ih hnext (fun e he => hparts e (List.mem_cons_of_mem _ he))
        hmem
      exact ⟨part :: taken, by simpa using htaken, by simp⟩

theorem elements_join_of_names {es : List Bytes} (h : ∀ e ∈ es, IsName e) :
    elements (join es) = es := by
  by_cases hne : es = []
  · subst hne
    rfl
  · exact elements_join h hne

namespace Clear

variable {o : GuestOverlay} {p : Bytes}

/-- Nothing that starts a clear path is owned. -/
theorem shouldSkip_of_prefix (h : Clear o p) {above : Bytes} (hkey : o.hasKey above = false)
    (hpre : above <+: p) : o.shouldSkip above = false := by
  have hp := h.shouldSkip
  simp only [GuestOverlay.shouldSkip, Bool.or_eq_false_iff, List.any_eq_false] at hp ⊢
  refine ⟨hkey, fun skip hskip hstarts => hp.2 skip hskip ?_⟩
  exact List.isPrefixOf_iff_prefix.mpr ((List.isPrefixOf_iff_prefix.mp hstarts).trans hpre)

theorem not_owns (h : Clear o p) : ¬ o.Owns p := by
  obtain ⟨es, e, rfl, hnames, -⟩ := h.eq
  rw [GuestOverlay.Owns, elements_join_of_names hnames, h.shouldSkip]
  simp

theorem all_mkdirAbove (h : Clear o p) (modTime : Int) :
    All (Touches fun q => ¬ o.Owns q) (mkdirAbove p modTime).run := by
  obtain ⟨es, e, rfl, hnames, habove⟩ := h.eq
  have hes : ∀ e' ∈ es, IsName e' := fun e' he' => hnames e' (List.mem_append_left _ he')
  have he : IsName e := hnames e (by simp)
  have hfree : ∀ above, above <+: es → ¬ o.Owns (join above) := by
    intro above hpre
    have hstart : above <+: es ++ [e] := hpre.trans (List.prefix_append _ _)
    obtain ⟨rest, hrest⟩ := hstart
    rw [GuestOverlay.Owns, elements_join_of_names fun e' he' => hes e' (hpre.subset he'),
      h.shouldSkip_of_prefix (habove above hpre) (by rw [← hrest]; exact join_prefix _ _)]
    simp
  unfold mkdirAbove
  by_cases hnil : es = []
  · subst hnil
    have hroot : ¬ o.Owns here := hfree [] List.nil_prefix
    have hdir : dir (join ([] ++ [e])) = here := by
      rw [show join ([] ++ [e]) = e by simp [join], dir_of_no_slash he.no_slash]
    rw [hdir]
    refine all_mkdirAll ?_ hroot _
    intro q hq
    rw [show mkdirPaths [] (here.splitOn slash) = [here] by decide] at hq
    rwa [List.mem_singleton.mp hq]
  · rw [dir_join_concat hes hnil he.no_slash]
    refine all_mkdirAll ?_ (hfree es (List.prefix_refl es)) _
    intro q hq
    rw [splitOn_join hes hnil] at hq
    obtain ⟨taken, htaken, rfl⟩ := mem_mkdirPaths (fun _ h => absurd h List.not_mem_nil) hes hq
    exact hfree taken htaken

end Clear

end Firedoze.ImageBuilder
