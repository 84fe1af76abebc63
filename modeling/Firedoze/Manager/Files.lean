import Firedoze.Manager.Frame

/-!
# Which files an action changes

`HostEff.Touches` says which paths a call of the host is about, and
`execHost_files` reads `execHost` once for it.  `EnvEvent.Touches` and
`execEnv_files` say the same of what happens without the manager: a
Firecracker process binds its socket, and a guest writes to its disk.
-/

namespace Firedoze

open Conc Conc.Prog Function

/-! ## Paths of a call -/

/-- The paths whose files a call of the host can change. -/
def HostEff.Touches : {β : Type} → HostEff β → Path → Prop
  | _, .remove p, q => q = p
  | _, .removeAll dir, q => dir <+: q
  | _, .rename src dst, q => q = src ∨ q = dst
  | _, .createTemp dir, q => ∃ n, q = dir ++ [.temp n]
  | _, .unpackSnapshotBundle _ _ p, q => q = p
  | _, .renameDir src dst, q => src <+: q ∨ dst <+: q
  | _, .openTrunc p, q => q = p
  | _, .openExcl p, q => q = p
  | _, .copyData _ dst _ _, q => q = dst.path
  | _, .truncate dst _, q => q = dst.path
  | _, .truncatePath p _, q => q = p
  | _, .resizeDiskImage _ p, q => q = p
  | _, .rewriteGuestIdentity _ p _, q => q = p
  | _, .rewriteGuestNetwork _ p, q => q = p
  | _, .fcCreateSnapshot _ _ state mem, q => q = state ∨ q = mem
  | _, _, _ => False

/-- The paths whose files an event of the environment can change. -/
def EnvEvent.Touches (h : Host) : EnvEvent → Path → Prop
  | .bind p, q => (h.os p).any fun proc => decide (proc.socketPath = q)
  | .guestWrite p _, q => (h.os p).any fun proc => proc.disk.any fun disk => decide (disk.1 = q)
  | _, _ => False

section Exec

variable {β : Type} {t : Tid} {w w' : World} {o : Outcome} {b : β} {p q : Path}

/-- The file of a path, and the number of times the path has changed it. -/
def Host.SameFile (h : Host) (p : Path) (h' : Host) : Prop :=
  h'.files p = h.files p ∧ h'.gens p = h.gens p

theorem Host.SameFile.refl (h : Host) (p : Path) : h.SameFile p h := ⟨rfl, rfl⟩

theorem Host.sameFile_write {h : Host} {f : File} (hq : q ≠ p) : h.SameFile q (h.write p f) :=
  ⟨update_of_ne hq _ _, rfl⟩

theorem Host.sameFile_writeTo {h : Host} {dst : Handle} {f : File} (hq : q ≠ dst.path) :
    h.SameFile q (h.writeTo dst f) := by
  unfold Host.writeTo
  split
  · exact Host.sameFile_write hq
  · exact .refl h q

theorem Host.sameFile_truncate {h : Host} {size : Int} (hq : q ≠ p) :
    h.SameFile q (h.truncate p size) := by
  unfold Host.truncate
  split
  · exact Host.sameFile_write hq
  · exact .refl h q

theorem Host.sameFile_modifyDisk {h : Host} {f : Disk → Disk} (hq : q ≠ p) :
    h.SameFile q (h.modifyDisk p f) := by
  unfold Host.modifyDisk
  split
  · exact ⟨update_of_ne hq _ _, rfl⟩
  · exact .refl h q

theorem Host.start_files (h : Host) (epoch : Nat) (l : Launch) :
    (h.start epoch l).files = h.files ∧ (h.start epoch l).gens = h.gens := by
  unfold Host.start
  simp only
  split
  · exact ⟨rfl, rfl⟩
  · split <;> exact ⟨rfl, rfl⟩

/-! A lemma for each way in which a call can end. -/

section Ends

variable {α : Type} {done : Bool} {r : Except Err α} {hst : Host}

/-- A call that makes its change, or leaves everything alone. -/
theorem sameFile_attempt {x : Option (α × Host)}
    (h : attemptOn done w.host x none o = some (r, hst))
    (hx : ∀ a h', x = some (a, h') → w.host.SameFile q h') : w.host.SameFile q hst :=
  attemptOn_inv h (.refl _ q) hx fun _ hy => by cases hy

/-- A call that writes one file. -/
theorem sameFile_attempt_write {a : α} {f : File}
    (h : attemptOn done w.host (some (a, w.host.write p f)) none o = some (r, hst)) (hq : q ≠ p) :
    w.host.SameFile q hst :=
  sameFile_attempt h fun _ _ hx => (Prod.mk.inj (Option.some.inj hx)).2 ▸ Host.sameFile_write hq

/-- A program that works on a disk, and may fail in the middle. -/
theorem sameFile_attempt_modifyDisk {a : α} {f g : Disk → Disk}
    (h : attemptOn done w.host (some (a, w.host.modifyDisk p f)) (some (w.host.modifyDisk p g)) o =
      some (r, hst)) (hq : q ≠ p) : w.host.SameFile q hst :=
  attemptOn_inv h (.refl _ q)
    (fun _ _ hx => (Prod.mk.inj (Option.some.inj hx)).2 ▸ Host.sameFile_modifyDisk hq)
    fun _ hy => Option.some.inj hy ▸ Host.sameFile_modifyDisk hq

end Ends

/-- A call that removes or moves files leaves the others alone. -/
theorem execHost_files_move {e : HostEff β} {hst : Host} (h : execHost w t o e = some (b, hst))
    (hq : ¬ e.Touches q)
    (he : match e with
      | .remove _ | .removeAll _ | .rename _ _ | .renameDir _ _ => True
      | _ => False) : w.host.SameFile q hst := by
  cases e with
  | remove p =>
    cases o <;> simp only [execHost] at h <;> try cases h
    · split at h <;> cases h
      · exact ⟨update_of_ne hq _ _, update_of_ne hq _ _⟩
      · exact .refl _ q
    · exact .refl _ q
  | removeAll dir =>
    have hpre : ¬ dir <+: q := hq
    cases o <;> simp only [execHost] at h <;> cases h
    · exact ⟨by simp [Host.unlinkAll, hpre], by simp [Host.unlinkAll, hpre]⟩
    · exact .refl _ q
    · exact ⟨by simp [Host.unlinkAll, hpre], by simp [Host.unlinkAll, hpre]⟩
  | rename src dst =>
    obtain ⟨⟨r, h'⟩, hreply, h⟩ := Option.bind_eq_some_iff.mp h
    obtain ⟨rfl, -⟩ := reply_eq hreply
    have hne : q ≠ src ∧ q ≠ dst := not_or.mp hq
    simp only at h
    split at h <;> cases h
    · exact ⟨by simp [Host.rename, hne.1, hne.2], by simp [Host.rename, hne.1, hne.2]⟩
    · exact .refl _ q
    · exact .refl _ q
  | renameDir src dst =>
    refine sameFile_attempt h fun _ _ hx => ?_
    obtain ⟨-, hx⟩ := Option.ite_none_left_eq_some.mp hx
    cases hx
    have hne := not_or.mp hq
    exact ⟨by simp [Host.renameDir, hne.1, hne.2], by simp [Host.renameDir, hne.1, hne.2]⟩
  | _ => exact he.elim

/-- A call of the host leaves the files alone that it is not about. -/
theorem execHost_files {e : HostEff β} {hst : Host} (h : execHost w t o e = some (b, hst))
    (hq : ¬ e.Touches q) : w.host.SameFile q hst := by
  have hrefl := Host.SameFile.refl w.host q
  cases e with
  | remove | removeAll | rename | renameDir => exact execHost_files_move h hq trivial
  | createTemp dir =>
    simp only [execHost] at h
    refine sameFile_attempt h fun _ _ hx => ?_
    cases hx
    exact Host.sameFile_write fun heq => hq ⟨_, heq⟩
  | unpackSnapshotBundle c bundle p =>
    simp only [execHost] at h
    refine attemptOn_inv h hrefl (fun b s' hx => ?_) fun s' hy => ?_
    · split at hx <;> cases hx
      exact Host.sameFile_write hq
    · exact Option.some.inj hy ▸ Host.sameFile_write hq
  | openTrunc p => exact sameFile_attempt_write h hq
  | openExcl p =>
    refine sameFile_attempt h fun _ _ hx => ?_
    obtain ⟨-, hx⟩ := Option.ite_none_left_eq_some.mp hx
    exact (Prod.mk.inj (Option.some.inj hx)).2 ▸ Host.sameFile_write hq
  | copyData c dst src f =>
    simp only [execHost] at h
    refine sameFile_attempt h fun _ _ hx => ?_
    exact (Prod.mk.inj (Option.some.inj hx)).2 ▸ Host.sameFile_writeTo hq
  | truncate dst size =>
    refine sameFile_attempt h fun _ _ hx => ?_
    obtain ⟨-, hx⟩ := Option.ite_none_left_eq_some.mp hx
    split at hx <;> cases hx
    · exact Host.sameFile_truncate hq
    · exact hrefl
  | truncatePath p size =>
    refine sameFile_attempt h fun _ _ hx => ?_
    obtain ⟨-, hx⟩ := Option.ite_none_left_eq_some.mp hx
    exact (Prod.mk.inj (Option.some.inj hx)).2 ▸ Host.sameFile_truncate hq
  | resizeDiskImage | rewriteGuestIdentity | rewriteGuestNetwork =>
    exact sameFile_attempt_modifyDisk h hq
  | fcCreateSnapshot c sock state mem =>
    have hne := not_or.mp hq
    have hwrite : ∀ f g, w.host.SameFile q ((w.host.write state f).write mem g) := fun f g =>
      ⟨(update_of_ne hne.2 _ _).trans (update_of_ne hne.1 _ _), rfl⟩
    rcases execHost_fcCreateSnapshot h with ⟨-, _, _, _, _, -, -, -, rfl⟩ | ⟨_, -, rfl | rfl⟩
    · exact hwrite _ _
    · exact hrefl
    · exact hwrite _ _
  | cmdStart l =>
    simp only [execHost] at h
    refine sameFile_attempt h fun _ _ hx => ?_
    cases hx
    obtain ⟨hfiles, hgens⟩ := Host.start_files w.host w.epoch l
    exact ⟨congrFun hfiles q, congrFun hgens q⟩
  | fcAction c sock => exact execHost_fcAction h ▸ hrefl
  | fcPause c sock =>
    rcases execHost_fcPause h with rfl | ⟨_, _, -, -, rfl⟩ <;> exact hrefl
  | fcResume c sock =>
    rcases execHost_fcResume h with rfl | ⟨_, _, _, _, -, -, -, rfl⟩ <;> exact hrefl
  | fcLoadSnapshot c sock state mem =>
    rcases execHost_fcLoadSnapshot h with rfl | ⟨_, _, _, -, -, -, -, -, rfl⟩ <;> exact hrefl
  | _ =>
    have hsame : hst.files = w.host.files ∧ hst.gens = w.host.gens := by
      cases o <;> simp only [execHost, reply, attemptOn] at h <;> grind
    exact ⟨congrFun hsame.1 q, congrFun hsame.2 q⟩

/-- An event of the environment leaves the files alone that it is not about. -/
theorem execEnv_files {v : EnvEvent} (h : execEnv w v = some w') (hq : ¬ v.Touches w.host q) :
    w.host.SameFile q w'.host := by
  cases v with
  | exit p =>
    simp only [execEnv] at h
    split at h
    · obtain ⟨-, h⟩ := Option.ite_none_right_eq_some.mp h
      cases h
      exact .refl _ q
    · cases h
  | bind p =>
    simp only [execEnv] at h
    split at h
    · rename_i proc hproc
      obtain ⟨-, h⟩ := Option.ite_none_right_eq_some.mp h
      cases h
      have hne : q ≠ proc.socketPath := fun heq => hq (by simp [EnvEvent.Touches, hproc, heq])
      exact ⟨update_of_ne hne _ _, rfl⟩
    · cases h
  | guestWrite p data =>
    simp only [execEnv] at h
    split at h
    · rename_i proc hproc
      split at h
      · rename_i disk gen hdisk
        obtain ⟨-, h⟩ := Option.ite_none_right_eq_some.mp h
        cases h
        have hne : q ≠ disk := fun heq => hq (by simp [EnvEvent.Touches, hproc, hdisk, heq])
        unfold Host.guestWrite
        split
        · exact Host.sameFile_modifyDisk hne
        · exact ⟨rfl, rfl⟩
      · cases h
    · cases h
  | cancel t | tick | crash =>
    cases h
    exact .refl _ q

end Exec

end Firedoze
