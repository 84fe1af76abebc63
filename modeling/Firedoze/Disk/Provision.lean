import Firedoze.Disk.Copy
import Firedoze.Manager.Calls

/-!
# The disk of a new VM

`ensureDisk` makes the disk of a VM from the base image, and always truncates
it to the `disk_bytes` of the VM.  `RestoreSnapshot` makes it from the disk of a
snapshot, and only makes it larger.  So a VM whose `disk_bytes` are less than the
size of the image gets the start of the image in the first case, and a disk of
another size than its own in the second case.

* `fillFile_ok` is the part that both share: a clone, or a copy.
* `provisioned_iff` is the result.
-/

namespace Firedoze.DiskImage

open Posix

/-- `isCloneUnsupported`. -/
def isCloneUnsupported (e : Errno) : Bool :=
  e == .EINVAL || e == .ENOTTY || e == .EOPNOTSUPP || e == .ENOSYS || e == .EXDEV

/-- What the calls of the operating system answer while a disk is made.  `clone`
is the answer of `FICLONE`, and the other answers are errors, if there are. -/
structure DiskCalls where
  openSource : Option Errno
  openDest : Option Errno
  clone : Except Errno Unit
  faults : SeekFaults
  truncate : Option Errno
  close : Option Errno

/-- A call that fails or not. -/
def orFail (e : Option Errno) : Except CopyError Unit :=
  match e with
  | some e => .error (.errno e)
  | none => .ok ()

section Fill

variable (calls : DiskCalls) (src : SparseFile)

/-- `tryCloneFile` for a regular file. -/
def tryCloneFile (out : OpenFile) : Except CopyError Bool × OpenFile :=
  match calls.clone with
  | .ok _ => (.ok true, { out with content := src.bytes })
  | .error e => (if isCloneUnsupported e then .ok false else .error (.errno e), out)

/-- The destination after a clone, or after a copy. -/
def fillFile : Except CopyError Unit × OpenFile :=
  match tryCloneFile calls src ⟨[], 0⟩ with
  | (.error e, out) => (.error e, out)
  | (.ok true, out) => (.ok (), out)
  | (.ok false, out) => copySparseFile src calls.faults true out

/-- `ensureDisk`, with the file that it leaves at the path. -/
def ensureDisk (path : Option (List UInt8)) (size : Int) :
    Except CopyError Bool × Option (List UInt8) :=
  match path with
  | some content => (.ok false, some content)
  | none =>
      match calls.openSource, calls.openDest with
      | some e, _ => (.error (.errno e), none)
      | none, some e => (.error (.errno e), none)
      | none, none =>
          match fillFile calls src with
          | (.error e, out) => (.error e, some out.content)
          | (.ok _, out) =>
              if size < 0 then (.error (.errno .EINVAL), some out.content)
              else
                match calls.truncate with
                | some e => (.error (.errno e), some out.content)
                | none =>
                    ((orFail calls.close).map fun _ => true, some (resize out.content size.toNat))

/-- `copyFile` into a new file, with its content. -/
def copyFile : Except CopyError (List UInt8) := do
  orFail calls.openSource
  orFail calls.openDest
  let (r, out) := fillFile calls src
  r
  orFail calls.close
  .ok out.content

/-- The disk that `RestoreSnapshot` makes, before it is resized. -/
def restoreSnapshot (diskBytes : Int) : Except CopyError (List UInt8) := do
  let content ← copyFile calls src
  if diskBytes > src.size then
    orFail calls.truncate
    .ok (resize content diskBytes.toNat)
  else .ok content

end Fill

/-! ## The content of the destination -/

section Content

variable {calls : DiskCalls} {src : SparseFile} {out : OpenFile} {disk : List UInt8} {n : Int}

/-- The offset at which the copy falls back, if the file is not cloned. -/
def lateOffset (calls : DiskCalls) (src : SparseFile) : Nat :=
  match calls.clone with
  | .ok _ => 0
  | .error _ => (fallbackOffset src calls.faults).getD 0

theorem fillFile_ok (h : fillFile calls src = (.ok (), out)) :
    out.content = src.bytes.take (lateOffset calls src) ++ src.bytes := by
  unfold fillFile tryCloneFile at h
  unfold lateOffset
  cases hclone : calls.clone with
  | ok u =>
    rw [hclone] at h
    cases h
    rfl
  | error e =>
    rw [hclone] at h
    by_cases he : isCloneUnsupported e
    · simp only [he, if_true] at h
      have hends := copySparseFile_ends src calls.faults
      rw [h] at hends
      cases hends with
      | whole pos hnone => simp only [hnone, Option.getD_none, List.take_zero, List.nil_append]
      | dense offset hsome hle => simp only [hsome, Option.getD_some]
    · simp only [he] at h
      cases h

theorem lateOffset_le (calls : DiskCalls) (src : SparseFile) :
    lateOffset calls src ≤ src.size := by
  unfold lateOffset
  cases calls.clone with
  | ok u => exact Nat.zero_le _
  | error e =>
    have hends := copySparseFile_ends src calls.faults
    cases hfallback : fallbackOffset src calls.faults with
    | none => exact Nat.zero_le _
    | some o =>
      rw [hfallback] at hends
      generalize copySparseFile src calls.faults true ⟨[], 0⟩ = r at hends
      cases hends with
      | whole pos h | failed e out h => cases h
      | dense offset h hle =>
        cases h
        exact hle

theorem bind_eq_ok {α β : Type} {x : Except CopyError α} {f : α → Except CopyError β} {b : β} :
    (x >>= f) = .ok b ↔ ∃ a, x = .ok a ∧ f a = .ok b := by
  cases x with
  | error e | ok a => simp [bind, Except.bind]

theorem copyFile_ok (h : copyFile calls src = .ok disk) :
    disk = src.bytes.take (lateOffset calls src) ++ src.bytes := by
  unfold copyFile at h
  obtain ⟨_, -, h⟩ := bind_eq_ok.mp h
  obtain ⟨_, -, h⟩ := bind_eq_ok.mp h
  obtain ⟨_, hr, h⟩ := bind_eq_ok.mp h
  obtain ⟨_, -, h⟩ := bind_eq_ok.mp h
  cases h
  exact fillFile_ok (Prod.ext hr rfl)

/-- What `ensureDisk` leaves when it has made the disk. -/
theorem ensureDisk_ok (h : ensureDisk calls src none n = (.ok true, some disk)) :
    0 ≤ n ∧ disk = resize (src.bytes.take (lateOffset calls src) ++ src.bytes) n.toNat := by
  unfold ensureDisk at h
  cases hopen : calls.openSource with
  | some e => simp [hopen] at h
  | none =>
    cases hdest : calls.openDest with
    | some e => simp [hopen, hdest] at h
    | none =>
      cases hfill : fillFile calls src with
      | mk r out =>
        cases r with
        | error e => simp [hopen, hdest, hfill] at h
        | ok u =>
          by_cases hneg : n < 0
          · simp [hopen, hdest, hfill, hneg] at h
          · cases htruncate : calls.truncate with
            | some e => simp [hopen, hdest, hfill, hneg, htruncate] at h
            | none =>
              simp only [hopen, hdest, hfill, hneg, htruncate, if_false, Prod.mk.injEq,
                Option.some.injEq] at h
              exact ⟨by omega, by rw [← h.2, fillFile_ok hfill]⟩

/-- What `RestoreSnapshot` leaves. -/
theorem restoreSnapshot_ok (h : restoreSnapshot calls src n = .ok disk) :
    disk = if n > src.size then
        resize (src.bytes.take (lateOffset calls src) ++ src.bytes) n.toNat
      else src.bytes.take (lateOffset calls src) ++ src.bytes := by
  unfold restoreSnapshot at h
  obtain ⟨content, hcopy, h⟩ := bind_eq_ok.mp h
  have hcontent := copyFile_ok hcopy
  split_ifs at h ⊢
  · obtain ⟨_, -, h⟩ := bind_eq_ok.mp h
    rw [← Except.ok.inj h, hcontent]
  · rw [← Except.ok.inj h, hcontent]

end Content

/-! ## The result -/

/-- Where the disk of a VM comes from. -/
inductive Origin
  | baseImage
  | snapshot
  deriving DecidableEq, Repr

/-- A disk that was made without an error for a VM with the parameters `q`. -/
inductive Makes (cfg : Config) (calls : DiskCalls) (src : SparseFile) :
    Origin → CreateVMParams → List UInt8 → Prop
  | create {p q : CreateVMParams} {disk : List UInt8}
      (hq : completeParams cfg cfg.defaultDiskBytes p = .ok q)
      (h : ensureDisk calls src none q.diskBytes = (.ok true, some disk)) :
      Makes cfg calls src .baseImage q disk
  | restore {p q : CreateVMParams} {disk : List UInt8}
      (hq : completeParams cfg src.size p = .ok q)
      (h : restoreSnapshot calls src q.diskBytes = .ok disk) :
      Makes cfg calls src .snapshot q disk

/-- The disk starts with the whole image, and has the size that is recorded for
the VM. -/
structure Provisioned (src : SparseFile) (q : CreateVMParams) (disk : List UInt8) : Prop where
  image : src.bytes <+: disk
  size : (disk.length : Int) = q.diskBytes

section Result

variable {cfg : Config} {calls : DiskCalls} {src : SparseFile} {origin : Origin}
  {q : CreateVMParams} {disk : List UInt8}

/-- The source, written behind a part of itself, starts with the source exactly
when it repeats that part. -/
theorem prefix_take_append_iff {l : List UInt8} {o : Nat} :
    l <+: l.take o ++ l ↔ l.drop o <+: l := by
  conv_lhs => lhs; rw [← List.take_append_drop o l]
  exact List.prefix_append_right_inj _

/-- A disk that has been truncated to its size. -/
theorem provisioned_resize_iff {o : Nat} (hn : 0 ≤ q.diskBytes) :
    Provisioned src q (resize (src.bytes.take o ++ src.bytes) q.diskBytes.toNat) ↔
      (src.size : Int) ≤ q.diskBytes ∧ src.bytes.drop o <+: src.bytes := by
  have hsize : src.size = src.bytes.length := rfl
  have hlen : src.bytes.length ≤ (src.bytes.take o ++ src.bytes).length := by
    rw [List.length_append]
    omega
  have hstarts := prefix_resize_iff q.diskBytes.toNat hlen
  rw [prefix_take_append_iff] at hstarts
  constructor
  · intro h
    obtain ⟨hle, hrepeats⟩ := hstarts.mp h.image
    exact ⟨by omega, hrepeats⟩
  · rintro ⟨hle, hrepeats⟩
    refine ⟨hstarts.mpr ⟨by omega, hrepeats⟩, ?_⟩
    rw [length_resize]
    omega

/-- A disk is made as it should be exactly when the image fits into it, and the
copy did not fall back after it had copied a region.  A late fallback does no
harm if the image repeats its start and the disk is truncated afterwards. -/
theorem provisioned_iff (h : Makes cfg calls src origin q disk) :
    Provisioned src q disk ↔ (src.size : Int) ≤ q.diskBytes ∧
      (lateOffset calls src = 0 ∨ src.bytes.drop (lateOffset calls src) <+: src.bytes ∧
        (origin = .snapshot → (src.size : Int) < q.diskBytes)) := by
  have hlate := lateOffset_le calls src
  have hzero : lateOffset calls src = 0 →
      src.bytes.drop (lateOffset calls src) <+: src.bytes := by
    intro h0
    simp [h0]
  cases h with
  | create hq h =>
    obtain ⟨hn, rfl⟩ := ensureDisk_ok h
    rw [provisioned_resize_iff hn]
    refine and_congr_right fun _ => ⟨fun hrepeats => Or.inr ⟨hrepeats, fun h => by cases h⟩, ?_⟩
    rintro (h0 | ⟨hrepeats, -⟩)
    · exact hzero h0
    · exact hrepeats
  | restore hq h =>
    have hdisk := restoreSnapshot_ok h
    split_ifs at hdisk with hgrow
    · subst hdisk
      rw [provisioned_resize_iff (by omega)]
      refine and_congr_right fun _ => ⟨fun hrepeats => Or.inr ⟨hrepeats, fun _ => by omega⟩, ?_⟩
      rintro (h0 | ⟨hrepeats, -⟩)
      · exact hzero h0
      · exact hrepeats
    · -- The disk keeps the size that the copy has left.
      subst hdisk
      have hsize : src.size = src.bytes.length := rfl
      constructor
      · intro h
        have hlen := h.size
        rw [List.length_append, List.length_take] at hlen
        exact ⟨by omega, Or.inl (by omega)⟩
      · rintro ⟨hle, h0 | ⟨-, hlt⟩⟩
        · rw [h0, List.take_zero, List.nil_append]
          exact ⟨List.prefix_rfl, by omega⟩
        · have := hlt rfl
          omega

end Result

/-! ## Three disks -/

/-- A file system that clones. -/
def DiskCalls.cloning : DiskCalls where
  openSource := none
  openDest := none
  clone := .ok ()
  faults := thirdSeekFails
  truncate := none
  close := none

/-- A VM with the given size of its disk. -/
def sizedParams (n : Int) : CreateVMParams :=
  { name := "a", vcpus := 1, memoryMinMiB := 128, memoryMaxMiB := 128, diskBytes := n,
    defaultHTTPPort := 80, autoWake := true }

/-- The disk is larger than the base image. -/
theorem provisioned_iff_larger :
    Makes .sample .cloning oneByteFile .baseImage (sizedParams 5) [1, 0, 0, 0, 0] ∧
      Provisioned oneByteFile (sizedParams 5) [1, 0, 0, 0, 0] := by
  have hmakes : Makes .sample .cloning oneByteFile .baseImage (sizedParams 5) [1, 0, 0, 0, 0] :=
    .create (p := { sizedParams 5 with autoWake := false }) (by decide) (by decide)
  exact ⟨hmakes, (provisioned_iff hmakes).mpr ⟨by decide, Or.inl (by decide)⟩⟩

/-- The base image is cut off, and the disk of a snapshot keeps its size. -/
theorem disk_bytes_too_small :
    (Makes .sample .cloning oneByteFile .baseImage (sizedParams 2) [1, 0] ∧
        ¬ Provisioned oneByteFile (sizedParams 2) [1, 0]) ∧
      Makes .sample .cloning oneByteFile .snapshot (sizedParams 2) [1, 0, 0] ∧
        ¬ Provisioned oneByteFile (sizedParams 2) [1, 0, 0] := by
  refine ⟨⟨.create (p := { sizedParams 2 with autoWake := false }) (by decide) (by decide),
    fun h => ?_⟩, .restore (p := { sizedParams 2 with autoWake := false }) (by decide) (by decide),
    fun h => ?_⟩
  · exact absurd h.image.length_le (by decide)
  · exact absurd h.size (by decide)

end Firedoze.DiskImage
