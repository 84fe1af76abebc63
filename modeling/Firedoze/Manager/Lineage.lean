import Firedoze.Manager.Address
import Firedoze.Manager.Images

/-!
# Booted and copied images are the recorded ones

`Faithful` is the invariant: an identifier that was recorded since the operator
has replaced its file is the hash of the file that is there.
`Faithful.act` and `Faithful.event` say that the steps keep it, one lemma for
each kind of action below them, and `faithful_reach` that every run does.

The condition is `KeepsImages`.  `boots_recorded_image` is the result: what is
booted has the hash in `kernel_id`, and what is copied the one in
`base_image_id`.

Without the condition `StartVM` boots whatever kernel is there
(`boots_replaced_kernel`).
-/

namespace Firedoze

open Conc Conc.Prog Function

/-! ## Rows -/

/-- The identifiers in the row of a VM. -/
def Store.lineageOf (s : Store) (u : Uuid) : Option (String × String) :=
  (s.vms u).map fun r => (r.baseImageID, r.kernelID)

/-- The identifiers in the row of a snapshot. -/
def Store.snapshotLineageOf (s : Store) (name : String) : Option (String × String) :=
  (s.snapshots name).map fun snap => (snap.baseImageID, snap.kernelID)

section Rows

variable {β : Type} {t : Tid} {w : World} {o : Outcome} {b : β} {e : StoreEff β} {st : Store}

theorem Store.vms_isNone {s : Store} {u : Uuid} :
    (s.vms u).isNone = (s.lineageOf u).isNone := by
  simp [Store.lineageOf]

theorem Store.snapshots_isNone {s : Store} {name : String} :
    (s.snapshots name).isNone = (s.snapshotLineageOf name).isNone := by
  simp [Store.snapshotLineageOf]

/-- The identifiers of a VM stay as they are, go with the row, or are those
that are inserted. -/
theorem execStore_lineageOf {l : Option (String × String)} (h : execStore w t o e = some (b, st))
    (hok : lineageOk l (.store e) b) (u : Uuid) :
    st.lineageOf u = w.store.lineageOf u ∨ st.lineageOf u = none ∨
      u = w.store.nextUuid ∧ st.lineageOf u = l := by
  rcases execStore_cases h with rfl | hwrites
  · exact Or.inl rfl
  · cases hwrites with
    | @insertVM c params =>
      have hl : l = some (params.baseImageID, params.kernelID) := hok
      by_cases hu : u = w.store.nextUuid
      · exact Or.inr (Or.inr ⟨hu, by simp [Store.lineageOf, hu, Store.newRow, hl]⟩)
      · exact Or.inl (by simp [Store.lineageOf, hu])
    | @deleteVM _ v =>
      by_cases hu : u = v
      · exact Or.inr (Or.inl (by simp [Store.lineageOf, hu]))
      · exact Or.inl (by simp [Store.lineageOf, hu])
    | @setVMState _ v _ _ hr | @setVMArchivedDiskPath _ v _ _ hr | @updateSettings _ v _ _ hr =>
      refine Or.inl ?_
      by_cases hu : u = v
      · simp [Store.lineageOf, hu, hr, VMRow.withState, VMRow.withSettings]
      · simp [Store.lineageOf, hu]
    | _ => exact Or.inl rfl

/-- No row lies beyond the next key. -/
theorem execStore_fresh (h : execStore w t o e = some (b, st))
    (hfresh : ∀ u r, w.store.vms u = some r → u < w.store.nextUuid) :
    ∀ u r, st.vms u = some r → u < st.nextUuid := by
  intro u r hr
  rcases execStore_cases h with rfl | hwrites
  · exact hfresh u r hr
  · cases hwrites with
    | insertVM =>
      rcases update_some hr with ⟨rfl, -⟩ | ⟨-, hold⟩
      · exact Nat.lt_succ_self _
      · exact Nat.lt_succ_of_lt (hfresh u r hold)
    | setVMState hv | setVMArchivedDiskPath hv | updateSettings hv =>
      rcases update_some hr with ⟨rfl, -⟩ | ⟨-, hold⟩
      · exact hfresh _ _ hv
      · exact hfresh u r hold
    | deleteVM => exact hfresh u r (update_none hr).2
    | _ => exact hfresh u r hr

/-- The identifiers of a snapshot stay as they are, go with the row, or are
those that are inserted. -/
theorem execStore_snapshotLineageOf {l : Option (String × String)}
    (h : execStore w t o e = some (b, st)) (hok : lineageOk l (.store e) b) (name : String) :
    st.snapshotLineageOf name = w.store.snapshotLineageOf name ∨
      st.snapshotLineageOf name = none ∨
      w.store.snapshotLineageOf name = none ∧ (l = none ∨ st.snapshotLineageOf name = l) := by
  rcases execStore_cases h with rfl | hwrites
  · exact Or.inl rfl
  · cases hwrites with
    | @insertSnapshot _ snap hnone =>
      by_cases hname : name = snap.name
      · subst hname
        refine Or.inr (Or.inr ⟨by simp [Store.snapshotLineageOf, hnone], ?_⟩)
        rcases hok with hl | hl
        · exact Or.inl hl
        · exact Or.inr (by simp [Store.snapshotLineageOf, hl])
      · exact Or.inl (by simp [Store.snapshotLineageOf, hname])
    | @deleteSnapshot _ name' =>
      by_cases hname : name = name'
      · exact Or.inr (Or.inl (by simp [Store.snapshotLineageOf, hname]))
      · exact Or.inl (by simp [Store.snapshotLineageOf, hname])
    | _ => exact Or.inl rfl

/-- `GetVM` answers what is in the row. -/
theorem getVM_lineageOf {c : Ctx} {u : Uuid} {vm : VM}
    (h : execStore w t o (.getVM c u) = some (.ok vm, st)) :
    w.store.lineageOf u = some (vm.baseImageID, vm.kernelID) := by
  have hvm := (reply_eq h).2.resolve_right (by simp)
  unfold Store.getVM at hvm
  split at hvm
  · cases hvm
  · rename_i r hr
    cases hvm
    simp [Store.lineageOf, hr]

/-- `GetSnapshot` answers what is in the row. -/
theorem getSnapshot_lineageOf {c : Ctx} {name : String} {snap : Snapshot}
    (h : execStore w t o (.getSnapshot c name) = some (.ok snap, st)) :
    w.store.snapshotLineageOf name = some (snap.baseImageID, snap.kernelID) := by
  have hsnap := (reply_eq h).2.resolve_right (by simp)
  split at hsnap
  · cases hsnap
  · rename_i r hr
    cases hsnap
    simp [Store.snapshotLineageOf, hr]

end Rows

/-! ## The invariant -/

/-- Of the identifiers `x`, recorded when the files had been replaced `n` times,
each is the hash of its file if that was not replaced since. -/
def ImageWorld.Known (cfg : Config) (w : ImageWorld) (n : Path → Nat)
    (x : Option (String × String)) : Prop :=
  n ≤ w.replaced ∧
    (n cfg.baseRootfsPath = w.replaced cfg.baseRootfsPath →
      ∃ ids, x = some ids ∧ w.rootfsHash cfg = some ids.1) ∧
    (n cfg.baseKernelPath = w.replaced cfg.baseKernelPath →
      ∃ ids, x = some ids ∧ w.kernelHash cfg = some ids.2)

/-- The cache is right about the files, if its key is that of the files. -/
def ImageWorld.CacheRight (cfg : Config) (w : ImageWorld) : Prop :=
  ∀ ids, w.cache = some (w.baseImageSignature cfg, ids) → w.hashes cfg = some ids

/-- What was recorded since a file was replaced is true of the file that is
there, and what was booted and copied is what was recorded. -/
structure Faithful (cfg : Config) (w : ImageWorld) (ph : Tid → Option (String × String)) :
    Prop where
  fresh : ∀ u r, w.world.store.vms u = some r → u < w.world.store.nextUuid
  cached : w.CacheRight cfg
  vms : ∀ u n, w.recorded u = some n → w.Known cfg n (w.world.store.lineageOf u)
  snapshots : ∀ name n, w.recordedSnapshot name = some n →
    w.Known cfg n (w.world.store.snapshotLineageOf name)
  threads : ∀ t n, w.reading t = some n → w.Known cfg n (ph t)
  boots : ∀ b ∈ w.boots, ∃ id, b.kernel = some id ∧ b.kernelID = some id
  provisions : ∀ p ∈ w.provisions, ∃ id, p.rootfs = some id ∧ p.baseImageID = some id

/-- The action changes one of the two files. -/
def Eff.TouchesImages (cfg : Config) : {β : Type} → Eff β → Prop
  | _, .host e => e.Touches cfg.baseRootfsPath ∨ e.Touches cfg.baseKernelPath
  | _, _ => False

/-- The VM that an action boots. -/
def Eff.bootsVM : {β : Type} → Eff β → Option Uuid
  | _, .host (.cmdStart l) => if l.bootDisk.isSome then some l.uuid else none
  | _, _ => none

/-- The disk that an action copies from the base image, and the file that was
opened for it. -/
def Eff.provisionsDisk (cfg : Config) : {β : Type} → Eff β → Option (Path × File)
  | _, .host (.copyData _ dst src f) =>
      if src.path = cfg.baseRootfsPath then some (dst.path, f) else none
  | _, _ => none

/-- The file at the path is the one whose hash was recorded for the VM. -/
def ImageWorld.keptSince (w : ImageWorld) (u : Uuid) (p : Path) : Bool :=
  (w.recorded u).any fun n => n p = w.replaced p

/-- The condition on an action.  The manager does not write to the two files.  A
VM is booted only when the operator has not replaced the kernel since its
identifiers were recorded, and it gets its disk only when they have not replaced
the root file system. -/
structure ImagesKept (cfg : Config) (w : ImageWorld) {β : Type} (e : Eff β) : Prop where
  untouched : ¬ e.TouchesImages cfg
  boots : ∀ u, e.bootsVM = some u → w.keptSince u cfg.baseKernelPath = true
  provisions : ∀ disk f, e.provisionsDisk cfg = some (disk, f) →
    w.world.host.files cfg.baseRootfsPath = some f ∧
      ∃ vm, w.diskOwner cfg disk = some vm ∧ w.keptSince vm.uuid cfg.baseRootfsPath = true

/-- The condition on an event.  A file that has the size and the time of the
one in the cache has its content too. -/
def EventKept (cfg : Config) (w : ImageWorld) : ImageEvent → Prop
  | .manager v =>
      ¬ v.Touches w.world.host cfg.baseRootfsPath ∧ ¬ v.Touches w.world.host cfg.baseKernelPath
  | .replaceRootfs hash info => (w.replaceRootfs cfg hash info).CacheRight cfg
  | .replaceKernel hash info => (w.replaceKernel cfg hash info).CacheRight cfg

/-- Every step of the run meets the condition. -/
def KeepsImages (cfg : Config) (s : ImageState) : ImageLabel → Prop
  | .thread t o =>
      s.Next (fun _ e _ => ImagesKept cfg s.world e) (Label.thread (V := ImageEvent) t o)
  | .env v => EventKept cfg s.world v

section Step

variable {cfg : Config} {w w₁ : ImageWorld} {ph : Tid → Option (String × String)} {β : Type}
  {t : Tid} {o : Outcome} {b : β} {n : Path → Nat} {x : Option (String × String)}

theorem ImageWorld.hashes_eq {rootfs kernel : String} :
    w.hashes cfg = some (rootfs, kernel) ↔
      w.rootfsHash cfg = some rootfs ∧ w.kernelHash cfg = some kernel := by
  unfold ImageWorld.hashes
  cases w.rootfsHash cfg <;> cases w.kernelHash cfg <;> simp

/-- The two files are the same. -/
def ImageWorld.SameImages (cfg : Config) (w w₁ : ImageWorld) : Prop :=
  w.world.host.SameFile cfg.baseRootfsPath w₁.world.host ∧
    w.world.host.SameFile cfg.baseKernelPath w₁.world.host

theorem ImageWorld.SameImages.hashes (h : w.SameImages cfg w₁) :
    w₁.hashes cfg = w.hashes cfg := by
  simp only [ImageWorld.hashes, ImageWorld.rootfsHash, ImageWorld.kernelHash, h.1.1, h.2.1]

theorem ImageWorld.Known.congr (h : w.Known cfg n x) (hrep : w₁.replaced = w.replaced)
    (hh : w.SameImages cfg w₁) : w₁.Known cfg n x := by
  unfold ImageWorld.Known ImageWorld.rootfsHash ImageWorld.kernelHash
  rw [hrep, hh.1.1, hh.2.1]
  exact h

/-- What was recorded before a file was replaced is no longer known of it. -/
theorem ImageWorld.Known.replaced {p : Path} (h : w.Known cfg n x)
    (hrep : w₁.replaced = update w.replaced p (w.replaced p + 1))
    (hfiles : ∀ q ≠ p, w₁.world.host.files q = w.world.host.files q) : w₁.Known cfg n x := by
  have hne {q : Path} (hn : n q = w₁.replaced q) : q ≠ p ∧ n q = w.replaced q := by
    have hle : n q ≤ w.replaced q := h.1 q
    rw [hrep] at hn
    by_cases hq : q = p
    · subst hq
      rw [update_self] at hn
      omega
    · exact ⟨hq, by rwa [update_of_ne hq] at hn⟩
  refine ⟨?_, fun hn => ?_, fun hn => ?_⟩
  · rw [hrep]
    exact h.1.trans (le_update_self_iff.mpr (Nat.le_succ _))
  · rw [ImageWorld.rootfsHash, hfiles _ (hne hn).1]
    exact h.2.1 (hne hn).2
  · rw [ImageWorld.kernelHash, hfiles _ (hne hn).1]
    exact h.2.2 (hne hn).2

theorem noteStore_recorded {w' : World} {e : StoreEff β} {u : Uuid}
    (h : (w.noteStore t w' e b).recorded u = some n) :
    w'.store.lineageOf u ≠ none ∧
      (w.world.store.lineageOf u = none ∧ w.reading t = some n ∨
        w.world.store.lineageOf u ≠ none ∧ w.recorded u = some n) := by
  simp only [ImageWorld.noteStore, Store.vms_isNone] at h
  split_ifs at h with hnew hold
  · exact ⟨by simpa using hnew, Or.inl ⟨by simpa using hold, h⟩⟩
  · exact ⟨by simpa using hnew, Or.inr ⟨by simpa using hold, h⟩⟩

theorem noteStore_recordedSnapshot {w' : World} {e : StoreEff β} {name : String}
    (h : (w.noteStore t w' e b).recordedSnapshot name = some n) :
    w'.store.snapshotLineageOf name ≠ none ∧
      (w.world.store.snapshotLineageOf name = none ∧ w.reading t = some n ∨
        w.world.store.snapshotLineageOf name ≠ none ∧ w.recordedSnapshot name = some n) := by
  simp only [ImageWorld.noteStore, Store.snapshots_isNone] at h
  split_ifs at h with hnew hold
  · exact ⟨by simpa using hnew, Or.inl ⟨by simpa using hold, h⟩⟩
  · exact ⟨by simpa using hnew, Or.inr ⟨by simpa using hold, h⟩⟩

/-- The identifiers that a thread has read from a row are as well known as
those of the row. -/
theorem Faithful.nextReading (hI : Faithful cfg w ph) {e : StoreEff β} {st : Store}
    (he : execStore w.world t o e = some (b, st)) (hn : w.nextReading t e b = some n) :
    w.Known cfg n (lineageNextStore (ph t) e b) := by
  cases e with
  | getVM c u =>
    cases b with
    | ok vm =>
      have hrow : w.world.store.lineageOf u = some (vm.baseImageID, vm.kernelID) :=
        getVM_lineageOf he
      have hknown := hI.vms u n hn
      rwa [hrow] at hknown
    | error e => exact hI.threads t n hn
  | getSnapshot c name =>
    cases b with
    | ok snap =>
      have hrow : w.world.store.snapshotLineageOf name = some (snap.baseImageID, snap.kernelID) :=
        getSnapshot_lineageOf he
      have hknown := hI.snapshots name n hn
      rwa [hrow] at hknown
    | error e => exact hI.threads t n hn
  | _ => exact hI.threads t n hn

/-- A call of the store keeps the invariant. -/
theorem Faithful.store (hI : Faithful cfg w ph) {e : StoreEff β}
    (he : execImage cfg t w (.store e) o = some (b, w₁)) (hok : lineageOk (ph t) (.store e) b) :
    Faithful cfg w₁ (update ph t (lineageNextStore (ph t) e b)) := by
  obtain ⟨st, hst, rfl⟩ := execImage_store he
  have hknown {n : Path → Nat} {x : Option (String × String)} (h : w.Known cfg n x) :
      (w.noteStore t { w.world with store := st } e b).Known cfg n x := h
  refine ⟨execStore_fresh hst hI.fresh, hI.cached, fun u n hn => ?_, fun name n hn => ?_,
    fun t' n hn => ?_, hI.boots, hI.provisions⟩
  · obtain ⟨hsome, hrow⟩ := noteStore_recorded hn
    rcases execStore_lineageOf hst hok u with hsame | hnone | ⟨hu, hl⟩
    · rcases hrow with ⟨hold, -⟩ | ⟨-, hrec⟩
      · exact absurd (hsame.trans hold) hsome
      · have h := hI.vms u n hrec
        rw [← hsame] at h
        exact hknown h
    · exact absurd hnone hsome
    · rcases hrow with ⟨-, hread⟩ | ⟨hold, -⟩
      · have h := hI.threads t n hread
        rw [← hl] at h
        exact hknown h
      · -- A row that is there does not lie at the next key.
        obtain ⟨ids, hids⟩ := Option.ne_none_iff_exists'.mp hold
        obtain ⟨r, hr, -⟩ := Option.map_eq_some_iff.mp hids
        exact absurd (hu ▸ hI.fresh u r hr) (lt_irrefl _)
  · obtain ⟨hsome, hrow⟩ := noteStore_recordedSnapshot hn
    rcases execStore_snapshotLineageOf hst hok name with hsame | hnone | ⟨hnew, hl⟩
    · rcases hrow with ⟨hold, -⟩ | ⟨-, hrec⟩
      · exact absurd (hsame.trans hold) hsome
      · have h := hI.snapshots name n hrec
        rw [← hsame] at h
        exact hknown h
    · exact absurd hnone hsome
    · rcases hrow with ⟨-, hread⟩ | ⟨hold, -⟩
      · have h := hI.threads t n hread
        rcases hl with hl | hl
        · -- A thread that has read nothing has nothing to be known.
          rw [hl] at h
          refine hknown ⟨h.1, fun heq => ?_, fun heq => ?_⟩
          · obtain ⟨ids, hids, -⟩ := h.2.1 heq
            cases hids
          · obtain ⟨ids, hids, -⟩ := h.2.2 heq
            cases hids
        · rw [← hl] at h
          exact hknown h
      · exact absurd hnew hold
  · by_cases ht : t' = t
    · subst ht
      rw [update_self]
      simp only [ImageWorld.noteStore, update_self] at hn
      exact hknown (hI.nextReading hst hn)
    · rw [update_of_ne ht]
      simp only [ImageWorld.noteStore, update_of_ne ht] at hn
      exact hknown (hI.threads t' n hn)

/-- `baseImageMetadata` keeps the invariant. -/
theorem Faithful.metadata (hI : Faithful cfg w ph) {rootfs kernel : Path}
    {r : Except Err (String × String)}
    (he : execImage cfg t w (.host (.baseImageMetadata rootfs kernel)) o = some (r, w₁)) :
    Faithful cfg w₁
      (update ph t (lineageNextHost (ph t) (.baseImageMetadata rootfs kernel) r)) := by
  rcases baseImageMetadata_cases he with ⟨e, rfl, rfl⟩ | ⟨ids, rfl, cache, rfl, hcache⟩
  · change Faithful cfg w₁ (update ph t (ph t))
    rwa [update_eq_self]
  · have hids : w.hashes cfg = some ids := by
      rcases hcache with ⟨hsame, hkey⟩ | ⟨hids, -⟩
      · exact hI.cached ids (hsame ▸ hkey)
      · exact hids
    have hkey : cache = some (w.baseImageSignature cfg, ids) := hcache.elim (·.2) (·.2)
    refine ⟨hI.fresh, fun ids' hids' => ?_, hI.vms, hI.snapshots, fun t' n hn => ?_, hI.boots,
      hI.provisions⟩
    · rw [hkey] at hids'
      obtain rfl : ids = ids' := (Prod.mk.inj (Option.some.inj hids')).2
      exact hids
    · by_cases ht : t' = t
      · subst ht
        rw [update_self]
        simp only [update_self] at hn
        cases hn
        have hboth := ImageWorld.hashes_eq.mp hids
        exact ⟨le_refl _, fun _ => ⟨ids, rfl, hboth.1⟩, fun _ => ⟨ids, rfl, hboth.2⟩⟩
      · rw [update_of_ne ht]
        simp only [update_of_ne ht] at hn
        exact hI.threads t' n hn

/-- What is booted is what was recorded. -/
theorem Faithful.nextBoots (hI : Faithful cfg w ph) {e : HostEff β}
    (hk : ImagesKept cfg w (.host e)) :
    ∀ boot ∈ w.nextBoots cfg e b, ∃ id, boot.kernel = some id ∧ boot.kernelID = some id := by
  cases e with
  | cmdStart l =>
    intro boot hboot
    simp only [ImageWorld.nextBoots] at hboot
    split at hboot
    · rename_i hcond
      rcases List.mem_cons.mp hboot with rfl | hold
      · have hdisk : l.bootDisk.isSome = true := ((Bool.and_eq_true _ _).mp hcond).2
        obtain ⟨n, hrec, hn⟩ := (Option.any_eq_true _ _).mp (hk.boots l.uuid (if_pos hdisk))
        obtain ⟨⟨rootfs, kernel⟩, hrow, hhash⟩ :=
          (hI.vms l.uuid n hrec).2.2 (of_decide_eq_true hn)
        refine ⟨kernel, hhash, ?_⟩
        obtain ⟨r, hr, hids⟩ := Option.map_eq_some_iff.mp hrow
        simp only [hr, Option.map_some, (Prod.mk.inj hids).2]
      · exact hI.boots boot hold
    · exact hI.boots boot hboot
  | _ => exact hI.boots

/-- What is copied is what was recorded. -/
theorem Faithful.nextProvisions (hI : Faithful cfg w ph) {e : HostEff β}
    (hk : ImagesKept cfg w (.host e)) :
    ∀ p ∈ w.nextProvisions cfg e b, ∃ id, p.rootfs = some id ∧ p.baseImageID = some id := by
  cases e with
  | copyData c dst src f =>
    intro p hp
    simp only [ImageWorld.nextProvisions] at hp
    split at hp
    · rename_i hcond
      rcases List.mem_cons.mp hp with rfl | hold
      · have hsrc : src.path = cfg.baseRootfsPath :=
          of_decide_eq_true ((Bool.and_eq_true _ _).mp hcond).2
        obtain ⟨hfile, vm, howner, hkept⟩ := hk.provisions dst.path f (if_pos hsrc)
        obtain ⟨n, hrec, hn⟩ := (Option.any_eq_true _ _).mp hkept
        obtain ⟨⟨rootfs, kernel⟩, hrow, hhash⟩ :=
          (hI.vms vm.uuid n hrec).2.1 (of_decide_eq_true hn)
        have hunchanged : w.world.host.unchanged src f = true := by
          simp [Host.unchanged, hsrc, hfile]
        have hroot : f.rootfsHash = some rootfs := by
          simpa [ImageWorld.rootfsHash, hfile] using hhash
        refine ⟨rootfs, by simp only [hunchanged, if_true, hroot], ?_⟩
        have hvm : w.world.store.vms vm.uuid = some vm.toVMRow :=
          (Store.mem_listVMs_iff.mp (List.mem_of_find?_eq_some howner)).2
        obtain ⟨r, hr, hids⟩ := Option.map_eq_some_iff.mp hrow
        obtain rfl : vm.toVMRow = r := Option.some.inj (hvm.symm.trans hr)
        simp only [howner, Option.map_some, (Prod.mk.inj hids).1]
      · exact hI.provisions p hold
    · exact hI.provisions p hp
  | _ => exact hI.provisions

/-- A call of the host keeps the invariant. -/
theorem Faithful.host (hI : Faithful cfg w ph) {e : HostEff β}
    (he : execImage cfg t w (.host e) o = some (b, w₁)) (hk : ImagesKept cfg w (.host e)) :
    Faithful cfg w₁ (update ph t (lineageNextHost (ph t) e b)) := by
  cases hread : e.readsHashes with
  | true =>
    cases e with
    | baseImageMetadata rootfs kernel => exact hI.metadata he
    | _ => cases hread
  | false =>
    obtain ⟨hst, hhost, rfl⟩ := execImage_host he hread
    have hnext : lineageNextHost (ph t) e b = ph t := by
      cases e with
      | baseImageMetadata rootfs kernel => cases hread
      | _ => rfl
    rw [hnext, update_eq_self]
    have huntouched := not_or.mp hk.untouched
    have hhash : w.SameImages cfg (w.noteHost cfg { w.world with host := hst } e b) :=
      ⟨execHost_files hhost huntouched.1, execHost_files hhost huntouched.2⟩
    refine ⟨hI.fresh, fun ids hids => hhash.hashes.trans (hI.cached ids hids), fun u n hn => ?_,
      fun name n hn => ?_, fun t' n hn => ?_, hI.nextBoots hk, hI.nextProvisions hk⟩
    · exact (hI.vms u n hn).congr rfl hhash
    · exact (hI.snapshots name n hn).congr rfl hhash
    · exact (hI.threads t' n hn).congr rfl hhash

/-- An action that meets the condition keeps the invariant. -/
theorem Faithful.act (hI : Faithful cfg w ph) {e : Eff β}
    (he : execImage cfg t w e o = some (b, w₁)) (hok : lineageOk (ph t) e b)
    (hk : ImagesKept cfg w e) : Faithful cfg w₁ (update ph t (lineageNext (ph t) e b)) := by
  cases e with
  | store e => exact hI.store he hok
  | mem e =>
    obtain ⟨m, rfl⟩ := execImage_mem he
    change Faithful cfg _ (update ph t (ph t))
    rw [update_eq_self]
    exact ⟨hI.fresh, hI.cached, hI.vms, hI.snapshots, hI.threads, hI.boots, hI.provisions⟩
  | host e => exact hI.host he hk

/-- An event of the operator keeps the invariant, if the cache is right
afterwards. -/
theorem Faithful.replace {p : Path} (hI : Faithful cfg w ph)
    (hstore : w₁.world.store = w.world.store)
    (hrep : w₁.replaced = update w.replaced p (w.replaced p + 1))
    (hfiles : ∀ q ≠ p, w₁.world.host.files q = w.world.host.files q)
    (hrec : w₁.recorded = w.recorded) (hsnap : w₁.recordedSnapshot = w.recordedSnapshot)
    (hread : w₁.reading = w.reading)
    (hboots : w₁.boots = w.boots) (hprov : w₁.provisions = w.provisions)
    (hcache : w₁.CacheRight cfg) : Faithful cfg w₁ ph := by
  refine ⟨by rw [hstore]; exact hI.fresh, hcache, fun u n hn => ?_, fun name n hn => ?_,
    fun t' n hn => ?_, by rw [hboots]; exact hI.boots, by rw [hprov]; exact hI.provisions⟩
  · rw [hstore]
    exact (hI.vms u n (hrec ▸ hn)).replaced hrep hfiles
  · rw [hstore]
    exact (hI.snapshots name n (hsnap ▸ hn)).replaced hrep hfiles
  · exact (hI.threads t' n (hread ▸ hn)).replaced hrep hfiles

/-- An event that meets the condition keeps the invariant. -/
theorem Faithful.event (hI : Faithful cfg w ph) {v : ImageEvent}
    (he : execImageEnv cfg w v = some w₁) (hk : EventKept cfg w v) : Faithful cfg w₁ ph := by
  cases v with
  | replaceRootfs hash info | replaceKernel hash info =>
    cases he
    exact hI.replace rfl rfl (fun q hq => update_of_ne hq _ _) rfl rfl rfl rfl rfl hk
  | manager v =>
    obtain ⟨w', hw', rfl⟩ := Option.map_eq_some_iff.mp he
    have hstore := execEnv_store hw'
    have hhash : w.SameImages cfg
        { w with world := w', cache := if v = .crash then none else w.cache } :=
      ⟨execEnv_files hw' hk.1, execEnv_files hw' hk.2⟩
    refine ⟨?_, fun ids hids => ?_, fun u n hn => ?_, fun name n hn => ?_, fun t' n hn => ?_,
      hI.boots, hI.provisions⟩
    · simpa only [hstore] using hI.fresh
    · rw [hhash.hashes]
      simp only at hids
      split at hids
      · cases hids
      · exact hI.cached ids hids
    · simp only [hstore]
      exact (hI.vms u n hn).congr rfl hhash
    · simp only [hstore]
      exact (hI.snapshots name n hn).congr rfl hhash
    · exact (hI.threads t' n hn).congr rfl hhash

end Step

/-! ## Runs -/

section Reach

variable {cfg : Config} {calls : Calls} {w : ImageWorld} {s : ImageState}

theorem faithful_reach (hw : Faithful cfg w fun _ => none)
    (h : (imageSystem cfg).Reach (KeepsImages cfg) (.initial w (threads cfg calls)) s) :
    Faithful cfg s.world (lineage.phases s) := by
  refine Monitor.invariant (M := lineage) (A := fun _ _ => True) (Q := fun _ _ _ => True)
    (I := Faithful cfg) (fun _ _ _ _ _ _ _ _ => trivial) (lineage_threads cfg calls) hw ?_ ?_ h
  · intro s t o β e k b w' _ hI hk hp he _ hok
    have hkept : s.Next (fun _ e _ => ImagesKept cfg s.world e)
        (Label.thread (V := ImageEvent) t o) := hk
    exact hI.act he hok (hkept.act hp)
  · intro s v w' _ hI hk hv
    exact hI.event hv hk

/-- In every run that meets the condition, every kernel that is booted has the
hash in the `kernel_id` of its VM, and every root file system that is copied
has the hash in its `base_image_id`. -/
theorem boots_recorded_image (cfg : Config) (calls : Calls) {w : ImageWorld}
    (hw : Faithful cfg w fun _ => none) {s : ImageState}
    (h : (imageSystem cfg).Reach (KeepsImages cfg) (.initial w (threads cfg calls)) s) :
    (∀ b ∈ s.world.boots, ∃ id, b.kernel = some id ∧ b.kernelID = some id) ∧
      ∀ p ∈ s.world.provisions, ∃ id, p.rootfs = some id ∧ p.baseImageID = some id :=
  ⟨(faithful_reach hw h).boots, (faithful_reach hw h).provisions⟩

end Reach

/-! ## A VM that is created and started -/

/-- A host with two base images and no VM. -/
def ImageWorld.sample : ImageWorld where
  world := .sample [] []
  rootfsInfo := ⟨50, 1⟩
  kernelInfo := ⟨20, 1⟩
  cache := none
  replaced := fun _ => 0
  recorded := fun _ => none
  recordedSnapshot := fun _ => none
  reading := fun _ => none
  boots := []
  provisions := []

theorem faithful_sample (cfg : Config) : Faithful cfg .sample fun _ => none where
  fresh := fun _ _ hr => by cases hr
  cached := nofun
  vms := nofun
  snapshots := nofun
  threads := nofun
  boots := nofun
  provisions := nofun

/-- One call makes a VM, and one call starts it. -/
def Calls.createAndStart : Calls := .ofList [.createVM { name := "a" }, .startVM 0]

/-- The steps of a thread that all go well. -/
def imageSteps (t : Tid) (k : Nat) : List ImageLabel := List.replicate k (.thread t .ok)

/-- Whether no image lies at the path. -/
def Config.apartFrom (cfg : Config) (p : Path) : Bool :=
  decide (cfg.baseRootfsPath ≠ p) && decide (cfg.baseKernelPath ≠ p)

/-- A test for `ImagesKept`. -/
def keepsImages (cfg : Config) (w : ImageWorld) : {β : Type} → Eff β → Bool
  | _, .host (.io _) => true
  | _, .host (.stat _) => true
  | _, .host (.openRead _) => true
  | _, .host (.deleteTap _) => true
  | _, .host (.linkAdd _ _) => true
  | _, .host (.baseImageMetadata _ _) => true
  | _, .host (.remove p) => cfg.apartFrom p
  | _, .host (.openExcl p) => cfg.apartFrom p
  | _, .host (.truncate dst _) => cfg.apartFrom dst.path
  | _, .host (.resizeDiskImage _ p) => cfg.apartFrom p
  | _, .host (.rewriteGuestIdentity _ p _) => cfg.apartFrom p
  | _, .host (.rewriteGuestNetwork _ p) => cfg.apartFrom p
  | _, .host (.copyData _ dst _ f) =>
      cfg.apartFrom dst.path && decide (w.world.host.files cfg.baseRootfsPath = some f) &&
        (w.diskOwner cfg dst.path).any fun vm => w.keptSince vm.uuid cfg.baseRootfsPath
  | _, .host (.cmdStart l) => w.keptSince l.uuid cfg.baseKernelPath
  | _, .host _ => false
  | _, _ => true

theorem imagesKept_of_keepsImages {cfg : Config} {w : ImageWorld} {β : Type} {e : Eff β}
    (h : keepsImages cfg w e = true) : ImagesKept cfg w e := by
  have happart : ∀ {p : Path}, cfg.apartFrom p = true →
      ¬ (cfg.baseRootfsPath = p ∨ cfg.baseKernelPath = p) := by
    intro p hp
    simpa [Config.apartFrom] using hp
  cases e with
  | store e | mem e => exact ⟨id, nofun, nofun⟩
  | host e =>
    cases e with
    | io | stat | openRead | deleteTap | linkAdd | baseImageMetadata =>
      exact ⟨fun h => h.elim id id, nofun, nofun⟩
    | remove | openExcl | truncate | resizeDiskImage | rewriteGuestIdentity | rewriteGuestNetwork =>
      exact ⟨happart h, nofun, nofun⟩
    | copyData c dst src f =>
      obtain ⟨⟨hdst, hfile⟩, howner⟩ : (cfg.apartFrom dst.path = true ∧ _) ∧ _ := by
        simpa only [keepsImages, Bool.and_eq_true] using h
      refine ⟨happart hdst, nofun, fun disk f' hp => ?_⟩
      obtain ⟨-, hp⟩ := Option.ite_none_right_eq_some.mp hp
      cases hp
      obtain ⟨vm, hvm, hrec⟩ := (Option.any_eq_true _ _).mp howner
      exact ⟨of_decide_eq_true hfile, vm, hvm, hrec⟩
    | cmdStart l =>
      refine ⟨fun h => h.elim id id, fun u hu => ?_, nofun⟩
      obtain ⟨-, hu⟩ := Option.ite_none_right_eq_some.mp hu
      cases hu
      exact h
    | _ => cases h

/-- The same for a step, where no event happens. -/
def keepsImagesStep (cfg : Config) (s : ImageState) : ImageLabel → Bool
  | .thread t o =>
      s.next (fun _ e _ => keepsImages cfg s.world e) (Label.thread (V := ImageEvent) t o)
  | .env _ => false

theorem keepsImages_of_step {cfg : Config} {s : ImageState} {l : ImageLabel}
    (h : keepsImagesStep cfg s l = true) : KeepsImages cfg s l := by
  cases l with
  | env v => cases h
  | thread t o =>
    have hact : s.next (fun _ e _ => keepsImages cfg s.world e)
        (Label.thread (V := ImageEvent) t o) = true := h
    change s.Next (fun _ e _ => ImagesKept cfg s.world e) (Label.thread (V := ImageEvent) t o)
    exact State.Next.of_act fun β e k hp => imagesKept_of_keepsImages (State.next_act hact hp)

/-- A VM that is made and booted. -/
theorem boots_recorded_image_created :
    ∃ s, (imageSystem .sample).Reach (KeepsImages .sample)
        (.initial .sample (threads .sample .createAndStart)) s ∧
      s.world.boots ≠ [] ∧ s.world.provisions ≠ [] ∧
      (∀ b ∈ s.world.boots, ∃ id, b.kernel = some id ∧ b.kernelID = some id) ∧
      ∀ p ∈ s.world.provisions, ∃ id, p.rootfs = some id ∧ p.baseImageID = some id := by
  obtain ⟨s, hs, hP⟩ := (imageSystem .sample).exists_reach_of_run
    (k := keepsImagesStep .sample) (s := .initial .sample (threads .sample .createAndStart))
    (l := imageSteps (.call 0 0) 5 ++ imageSteps (.call 0 1) 30)
    (P := fun s => !s.world.boots.isEmpty && !s.world.provisions.isEmpty)
    (by decide) (by decide)
  have hreach := hs.mono fun _ _ h => keepsImages_of_step h
  obtain ⟨hboots, hprov⟩ : s.world.boots ≠ [] ∧ s.world.provisions ≠ [] := by simpa using hP
  exact ⟨s, hreach, hboots, hprov,
    boots_recorded_image _ _ (faithful_sample _) hreach⟩

/-- The operator replaces the files only when no call has begun that has not
come to its end. -/
def betweenCalls (s : ImageState) : ImageLabel → Bool
  | .env (.manager _) => true
  | .env _ => (List.range 2).all fun n =>
      (s.prog (.call 0 n)).isRet || (s.hist (.call 0 n)).isEmpty
  | .thread _ _ => true

/-- The operator replaces both files between the call that makes the VM and
the one that starts it.  The new kernel is booted, and the new root file system
is copied. -/
theorem boots_replaced_kernel :
    ∃ s, (imageSystem .sample).Reach (fun s l => betweenCalls s l = true)
        (.initial .sample (threads .sample .createAndStart)) s ∧
      ⟨0, some "vmlinux-new", some "vmlinux"⟩ ∈ s.world.boots ∧
      ⟨Config.sample.diskPath "a", some "rootfs-new", some "rootfs"⟩ ∈ s.world.provisions := by
  obtain ⟨s, hs, hP⟩ := (imageSystem .sample).exists_reach_of_run
    (k := betweenCalls) (s := .initial .sample (threads .sample .createAndStart))
    (l := imageSteps (.call 0 0) 5 ++
      .env (.replaceKernel "vmlinux-new" ⟨21, 2⟩) :: .env (.replaceRootfs "rootfs-new" ⟨50, 2⟩) ::
        imageSteps (.call 0 1) 30)
    (P := fun s => decide (⟨0, some "vmlinux-new", some "vmlinux"⟩ ∈ s.world.boots) &&
      decide (⟨Config.sample.diskPath "a", some "rootfs-new", some "rootfs"⟩ ∈ s.world.provisions))
    (by decide) (by decide)
  obtain ⟨hboot, hprov⟩ := (Bool.and_eq_true _ _).mp hP
  exact ⟨s, hs, of_decide_eq_true hboot, of_decide_eq_true hprov⟩

end Firedoze
