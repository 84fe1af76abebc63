import Firedoze.Config.Load
import Firedoze.WireGuard.Watch

/-!
# The daemon follows the peers of its configuration file

`Follows` says what each phase of the daemon means for the world, and
`follows_reach` that it does in every run in which the file is left alone
between two looks that the daemon takes for one (`FileLeftAlone`).
`peers_follow_file` is the result: after a tick without an error the peers on
the device are those of the version whose signature the daemon holds.

An edit between the load of `run` and the first signature is never noticed
(`edit_during_startup_missed`).
-/

namespace Firedoze

open Conc Conc.Prog WireGuard

/-! ## The condition on the runs -/

section Runs

variable {lib : NetSyntax} (cs : ConfigSyntax lib)

/-- The daemon has looked at the file, and will take what it sees at its next
look for the same version. -/
def WatchPhase.BetweenLooks (lastSig : Option FileSignature) : WatchPhase → Prop
  | .loaded _ => True
  | .ensured _ => True
  | .assigned _ => True
  | .compared sig => some sig ≠ lastSig
  | .changed _ => True
  | .reloading _ _ => True
  | _ => False

/-- The condition on the steps.  The file is left alone between the load of
`run` and the first signature, and between the signature of a tick and the
load that it causes; and no edit gives the file a signature that it had with
another text. -/
def FileLeftAlone (s : WatchState lib) :
    Label Unit (WatchOutcome lib) FileEvent → Prop
  | .thread _ _ => True
  | .env .remove => ¬ ((following cs).phases s ()).BetweenLooks s.world.lastSig
  | .env (.edit v) => ¬ ((following cs).phases s ()).BetweenLooks s.world.lastSig ∧
      ∀ v' ∈ s.world.versions, v'.signature = v.signature → v'.text = v.text

/-- The device is in the state that `EnsureWireGuard` installs for the
peers. -/
def Installed (d : Device lib.Key lib.IPNet) (peers : List WGPeer) : Prop :=
  ∃ installed, ensureWireGuardPeers peers = .ok installed ∧
    ∀ d₀ : Device lib.Key lib.IPNet, d = d₀.configureDevice true installed

/-- The file has had a version with the signature, and every such version has
the given peers. -/
def WatchWorld.Signs (w : WatchWorld lib) (sig : FileSignature) (peers : List WGPeer) : Prop :=
  (∃ v ∈ w.versions, v.signature = sig) ∧
    ∀ v ∈ w.versions, v.signature = sig → ∃ cfg, cs.load (.ok v.text) = .ok cfg ∧ cfg.peers = peers

/-- The peers are valid, and the device has them. -/
structure Runs (w : WatchWorld lib) (peers : List WGPeer) : Prop where
  valid : lib.ValidPeers peers
  installed : Installed w.device peers

/-- What the daemon has installed is the version whose signature it holds. -/
structure Synced (w : WatchWorld lib) : Prop where
  runs : Runs w w.current.peers
  signs : ∀ sig, w.lastSig = some sig → w.Signs cs sig w.current.peers

/-- What the file gives when it is loaded now. -/
def WatchWorld.Gives (w : WatchWorld lib) (cfg : WireGuardConfig) : Prop :=
  ∀ v, w.file = some v → cs.load (.ok v.text) = .ok cfg

/-- The signature of the file now. -/
def WatchWorld.HasSignature (w : WatchWorld lib) (sig : FileSignature) : Prop :=
  ∃ v, w.file = some v ∧ v.signature = sig

/-- What each phase says about the world. -/
def Follows (w : WatchWorld lib) : WatchPhase → Prop
  | .start => True
  | .loaded cfg => lib.ValidPeers cfg.peers ∧ w.Gives cs cfg
  | .ensured cfg => Runs w cfg.peers ∧ w.Gives cs cfg
  | .assigned cfg => Runs w cfg.peers ∧ w.Gives cs cfg ∧ w.current = cfg
  | .signed cfg sig => Runs w cfg.peers ∧ w.current = cfg ∧
      ∀ sig', sig = some sig' → w.Signs cs sig' cfg.peers
  | .watching seen => Synced cs w ∧ ∀ sig, seen = some sig → w.lastSig = some sig
  | .ticked => Synced cs w
  | .compared sig => Synced cs w ∧ (some sig ≠ w.lastSig → w.HasSignature sig)
  | .changed sig => Synced cs w ∧ w.HasSignature sig
  | .reloading sig current => Synced cs w ∧ w.HasSignature sig ∧ w.current = current
  | .reloaded sig current peers => Synced cs w ∧ w.current = current ∧ lib.ValidPeers peers ∧
      w.Signs cs sig peers
  | .reconciled sig target => Runs w target.peers ∧ w.Signs cs sig target.peers
  | .updated sig => Runs w w.current.peers ∧ w.Signs cs sig w.current.peers

/-- Versions with one signature have one text. -/
def WatchWorld.Unique (w : WatchWorld lib) : Prop :=
  ∀ v ∈ w.versions, ∀ v' ∈ w.versions, v.signature = v'.signature → v.text = v'.text

variable {cs} {w w' : WatchWorld lib} {o : WatchOutcome lib} {l : WatchPhase}

theorem signs_of_file (hunique : w.Unique) {v : FileVersion} (hv : w.file = some v)
    {cfg : WireGuardConfig} (hload : cs.load (.ok v.text) = .ok cfg) :
    w.Signs cs v.signature cfg.peers := by
  have hmem := w.recorded v hv
  refine ⟨⟨v, hmem, rfl⟩, fun v' hmem' hsig => ⟨cfg, ?_, rfl⟩⟩
  rw [hunique v' hmem' v hmem hsig]
  exact hload

/-- The difference leads from one installed list to the next. -/
theorem Installed.diff {d : Device lib.Key lib.IPNet} {old new : List WGPeer}
    {order order' : MapOrder (String × RuntimeWGPeer lib)} {diff : PeerDiff lib}
    (h : Installed d old) (hvalid : lib.ValidPeers old) (hvalid' : lib.ValidPeers new)
    (hdiff : wireGuardPeerDiff order order' old new = .ok diff) :
    Installed (d.configureDevice false diff.1) new := by
  obtain ⟨installed, hinstalled, heq⟩ := h
  obtain ⟨oldByKey, newByKey, hrun, hrun', -⟩ := wireGuardPeerDiff_ok hdiff
  obtain ⟨installed₀, hinstalled₀, hinstall⟩ := ensure_holds hvalid hrun
  obtain ⟨installed', hinstalled', hinstall'⟩ := ensure_holds hvalid' hrun'
  obtain rfl : installed₀ = installed := Except.ok.inj (hinstalled₀.symm.trans hinstalled)
  have hd : d.Holds (lib.table old) := by
    rw [heq d]
    exact hinstall d
  refine ⟨installed', hinstalled', fun d₀ => ?_⟩
  exact (diff_holds hvalid hvalid' hdiff hd).eq (hinstall' d₀)

/-- What a read of the file answers. -/
theorem execWatch_readFile {r : Except Err (List Char)}
    (h : execWatch w .readFile o = some (r, w')) :
    w' = w ∧ ((∃ e, r = .error e ∧ (e = .notExist → w.file = none)) ∨
      ∃ v, w.file = some v ∧ r = .ok v.text) := by
  cases o with
  | ok =>
    cases hfile : w.file with
    | none =>
      obtain ⟨rfl, rfl⟩ : Except.error Err.notExist = r ∧ w = w' := by
        simpa [execWatch, hfile] using h
      exact ⟨rfl, .inl ⟨_, rfl, fun _ => rfl⟩⟩
    | some v =>
      obtain ⟨rfl, rfl⟩ : Except.ok v.text = r ∧ w = w' := by simpa [execWatch, hfile] using h
      exact ⟨rfl, .inr ⟨v, rfl, rfl⟩⟩
  | fail text | order o =>
    obtain ⟨rfl, rfl⟩ : Except.error Err.io = r ∧ w = w' := by simpa [execWatch] using h
    exact ⟨rfl, .inl ⟨_, rfl, fun h => by cases h⟩⟩

theorem execWatch_stat {r : Except Err FileSignature} (h : execWatch w .stat o = some (r, w')) :
    w' = w ∧ ∀ sig, r = .ok sig → w.HasSignature sig := by
  cases o with
  | ok =>
    cases hfile : w.file with
    | none =>
      obtain ⟨rfl, rfl⟩ : Except.error Err.notExist = r ∧ w = w' := by
        simpa [execWatch, hfile] using h
      exact ⟨rfl, fun _ h => by cases h⟩
    | some v =>
      obtain ⟨rfl, rfl⟩ : Except.ok v.signature = r ∧ w = w' := by
        simpa [execWatch, hfile] using h
      exact ⟨rfl, fun sig hsig => ⟨v, hfile, Except.ok.inj hsig⟩⟩
  | fail text | order o =>
    obtain ⟨rfl, rfl⟩ : Except.error Err.io = r ∧ w = w' := by simpa [execWatch] using h
    exact ⟨rfl, fun _ h => by cases h⟩

/-- `ConfigureDevice` succeeds or leaves the device as it was. -/
theorem execWatch_configureDevice {replacePeers : Bool}
    {peers : List (PeerConfig lib.Key lib.IPNet)} {r : Except String Unit}
    (h : execWatch w (.configureDevice replacePeers peers) o = some (r, w')) :
    (∃ u, r = .ok u) ∧ w' = { w with device := w.device.configureDevice replacePeers peers } ∨
      (∃ e, r = .error e) ∧ w' = w := by
  cases o with
  | ok =>
    cases h
    exact .inl ⟨⟨_, rfl⟩, rfl⟩
  | fail text =>
    cases h
    exact .inr ⟨⟨_, rfl⟩, rfl⟩
  | order o => cases h

/-- A read of the file keeps the invariant. -/
theorem Follows.readFile (h : Follows cs w l) (hunique : w.Unique) {r : Except Err (List Char)}
    (hok : watchOk l (.readFile : WatchEff lib _) r)
    (hr : (∃ e, r = .error e ∧ (e = .notExist → w.file = none)) ∨
      ∃ v, w.file = some v ∧ r = .ok v.text) :
    Follows cs w (watchNext cs l .readFile r) := by
  cases hload : cs.load r with
  | error e =>
    rcases hok with rfl | ⟨sig, current, rfl⟩
    · simpa [watchNext, hload] using h
    · simpa [watchNext, hload] using h
  | ok cfg =>
    have hvalid := validPeers_of_load hload
    rcases hok with rfl | ⟨sig, current, rfl⟩
    · simp only [watchNext, hload]
      refine ⟨hvalid, fun v hv => ?_⟩
      obtain ⟨e, rfl, hnone⟩ | ⟨v', hv', rfl⟩ := hr
      · -- Only a missing file is replaced by the defaults.
        simp only [ConfigSyntax.load] at hload
        split_ifs at hload with hdefault
        simp [hnone hdefault.1] at hv
      · obtain rfl := Option.some.inj (hv.symm.trans hv')
        exact hload
    · simp only [watchNext, hload]
      obtain ⟨hsynced, ⟨v, hv, rfl⟩, hcurrent⟩ := h
      obtain ⟨e, rfl, hnone⟩ | ⟨v', hv', rfl⟩ := hr
      · simp only [ConfigSyntax.load] at hload
        split_ifs at hload with hdefault
        simp [hnone hdefault.1] at hv
      · obtain rfl := Option.some.inj (hv.symm.trans hv')
        exact ⟨hsynced, hcurrent, hvalid, signs_of_file hunique hv hload⟩

/-- A configuration of the device keeps the invariant. -/
theorem Follows.configureDevice (h : Follows cs w l) {replacePeers : Bool}
    {peers : List (PeerConfig lib.Key lib.IPNet)}
    (hok : watchOk l (.configureDevice replacePeers peers : WatchEff lib _) (.ok ())) :
    Follows cs { w with device := w.device.configureDevice replacePeers peers }
      (watchNext cs l (.configureDevice replacePeers peers) (.ok ())) := by
  obtain ⟨cfg, rfl, rfl, hpeers⟩ | ⟨sig, current, new, order, order', diff, rfl, rfl, hdiff, rfl⟩ :=
    hok
  · exact ⟨⟨h.1, peers, hpeers, fun _ => rfl⟩, h.2⟩
  · obtain ⟨hsynced, rfl, hvalid, hsigns⟩ := h
    exact ⟨⟨hvalid, hsynced.runs.installed.diff hsynced.runs.valid hvalid hdiff⟩, hsigns⟩

/-- An action of the daemon keeps the invariant. -/
theorem Follows.act (h : Follows cs w l) (hunique : w.Unique) {β : Type} {e : WatchEff lib β}
    {b : β}
    (he : execWatch w e o = some (b, w')) (hok : watchOk l e b) :
    Follows cs w' (watchNext cs l e b) ∧ w'.Unique := by
  cases e with
  | readFile =>
    obtain ⟨rfl, hr⟩ := execWatch_readFile he
    exact ⟨h.readFile hunique hok hr, hunique⟩
  | stat =>
    obtain ⟨rfl, hr⟩ := execWatch_stat he
    refine ⟨?_, hunique⟩
    rcases hok with ⟨cfg, rfl⟩ | rfl
    · obtain ⟨hruns, hgives, hcurrent⟩ := h
      refine ⟨hruns, hcurrent, fun sig hsig => ?_⟩
      cases b with
      | error e => cases hsig
      | ok sig' =>
        cases hsig
        obtain ⟨v, hv, rfl⟩ := hr _ rfl
        exact signs_of_file hunique hv (hgives v hv)
    · cases b with
      | error e => exact h
      | ok sig => exact ⟨h, fun _ => hr sig rfl⟩
  | host step =>
    have hw : w' = w := by
      cases o with
      | ok | fail text => exact (Prod.mk.inj (Option.some.inj he)).2.symm
      | order o => cases he
    subst hw
    exact ⟨h, hunique⟩
  | mapOrder =>
    have hw : w' = w := by
      cases o with
      | order o => exact (Prod.mk.inj (Option.some.inj he)).2.symm
      | ok | fail text => cases he
    subst hw
    exact ⟨h, hunique⟩
  | configureDevice replacePeers peers =>
    obtain ⟨⟨u, rfl⟩, rfl⟩ | ⟨⟨e, rfl⟩, rfl⟩ := execWatch_configureDevice he
    · exact ⟨h.configureDevice hok, hunique⟩
    · refine ⟨?_, hunique⟩
      obtain ⟨cfg, rfl, -⟩ | ⟨sig, current, new, order, order', diff, rfl, -⟩ := hok
      · exact h
      · exact h
  | getCurrent =>
    cases he
    obtain ⟨sig, rfl⟩ := hok
    exact ⟨⟨h.1, h.2, rfl⟩, hunique⟩
  | setCurrent cfg =>
    cases he
    refine ⟨?_, hunique⟩
    obtain rfl | ⟨sig, rfl⟩ |
      ⟨sig, current, peers, order, order', diff, rfl, rfl, hdiff, hempty⟩ := hok
    · exact ⟨⟨h.1.valid, h.1.installed⟩, h.2, rfl⟩
    · exact ⟨⟨h.1.valid, h.1.installed⟩, h.2⟩
    · -- There was no difference, so the device has the new peers already.
      obtain ⟨hsynced, rfl, hvalid, hsigns⟩ := h
      have hinstalled := hsynced.runs.installed.diff hsynced.runs.valid hvalid hdiff
      rw [hempty] at hinstalled
      exact ⟨⟨hvalid, hinstalled⟩, hsigns⟩
  | getLastSig =>
    cases he
    refine ⟨?_, hunique⟩
    obtain ⟨sig, rfl⟩ := hok
    simp only [watchNext]
    split
    · rename_i hsame
      exact ⟨h.1, fun sig' hsig => hsame.symm.trans hsig⟩
    · rename_i hdiffers
      exact ⟨h.1, h.2 hdiffers⟩
  | setLastSig sig =>
    cases he
    refine ⟨?_, hunique⟩
    obtain ⟨cfg, rfl⟩ | ⟨sig', rfl, rfl⟩ := hok
    · obtain ⟨hruns, rfl, hsigns⟩ := h
      exact ⟨⟨⟨hruns.valid, hruns.installed⟩, hsigns⟩, fun _ hsig => by cases hsig⟩
    · refine ⟨⟨⟨h.1.valid, h.1.installed⟩, fun sig hsig => ?_⟩, fun _ h => h⟩
      cases hsig
      exact h.2
  | select =>
    have hw : w' = w := by
      cases o <;> exact (Prod.mk.inj (Option.some.inj he)).2.symm
    subst hw
    obtain ⟨seen, rfl⟩ := hok
    exact ⟨h.1, hunique⟩
  | warn text =>
    cases he
    refine ⟨?_, hunique⟩
    obtain ⟨cfg, sig, rfl⟩ | rfl | ⟨sig, current, rfl⟩ | ⟨sig, current, peers, rfl⟩ := hok
    · exact h
    · exact ⟨h, fun _ hsig => by cases hsig⟩
    · exact ⟨h.1, fun _ hsig => by cases hsig⟩
    · exact ⟨h.1, fun _ hsig => by cases hsig⟩

/-- What an event does, when no edit gives the file an old signature with a
new text. -/
theorem execFileEvent_frame (cs : ConfigSyntax lib) {v : FileEvent} (hunique : w.Unique)
    (hnew : ∀ v₀, v = .edit v₀ → ∀ v' ∈ w.versions, v'.signature = v₀.signature → v'.text = v₀.text)
    (he : execFileEvent w v = some w') :
    w'.device = w.device ∧ w'.current = w.current ∧ w'.lastSig = w.lastSig ∧ w'.Unique ∧
      ∀ sig peers, w.Signs cs sig peers → w'.Signs cs sig peers := by
  cases v with
  | remove =>
    cases he
    exact ⟨rfl, rfl, rfl, hunique, fun _ _ h => h⟩
  | edit v₀ =>
    simp only [execFileEvent] at he
    split_ifs at he
    cases he
    have htext := hnew v₀ rfl
    refine ⟨rfl, rfl, rfl, ?_, ?_⟩
    · intro v hv v' hv' hsig
      rcases List.mem_cons.mp hv with rfl | hin <;> rcases List.mem_cons.mp hv' with rfl | hin'
      · rfl
      · exact (htext v' hin' hsig.symm).symm
      · exact htext v hin hsig
      · exact hunique v hin v' hin' hsig
    · rintro sig peers ⟨⟨v, hv, hsig⟩, hall⟩
      refine ⟨⟨v, List.mem_cons_of_mem _ hv, hsig⟩, fun v' hv' hsig' => ?_⟩
      rcases List.mem_cons.mp hv' with rfl | hv'
      · rw [← htext v hv (hsig.trans hsig'.symm)]
        exact hall v hv hsig
      · exact hall v' hv' hsig'

/-- An event that does not fall between two looks keeps the invariant. -/
theorem Follows.event (h : Follows cs w l) (hfar : ¬ l.BetweenLooks w.lastSig)
    (hdevice : w'.device = w.device)
    (hcurrent : w'.current = w.current) (hlastSig : w'.lastSig = w.lastSig)
    (hsigns : ∀ sig peers, w.Signs cs sig peers → w'.Signs cs sig peers) : Follows cs w' l := by
  have hruns {peers : List WGPeer} (h : Runs w peers) : Runs w' peers :=
    ⟨h.valid, by rw [hdevice]; exact h.installed⟩
  have hsynced (h : Synced cs w) : Synced cs w' := by
    refine ⟨by rw [hcurrent]; exact hruns h.runs, ?_⟩
    rw [hlastSig, hcurrent]
    exact fun sig hsig => hsigns _ _ (h.signs sig hsig)
  cases l with
  | start => trivial
  | loaded cfg | ensured cfg | assigned cfg | changed sig | reloading sig current =>
    exact absurd trivial hfar
  | signed cfg sig =>
    exact ⟨hruns h.1, hcurrent.trans h.2.1, fun sig' hsig' => hsigns _ _ (h.2.2 sig' hsig')⟩
  | watching seen => exact ⟨hsynced h.1, by rw [hlastSig]; exact h.2⟩
  | ticked => exact hsynced h
  | compared sig =>
    refine ⟨hsynced h.1, fun hdiffers => absurd ?_ hfar⟩
    rwa [hlastSig] at hdiffers
  | reloaded sig current peers =>
    exact ⟨hsynced h.1, hcurrent.trans h.2.1, h.2.2.1, hsigns _ _ h.2.2.2⟩
  | reconciled sig target => exact ⟨hruns h.1, hsigns _ _ h.2⟩
  | updated sig => exact ⟨by rw [hcurrent]; exact hruns h.1, by rw [hcurrent]; exact hsigns _ _ h.2⟩

theorem follows_reach {file : Option FileVersion} {d : Device lib.Key lib.IPNet}
    {s : WatchState lib}
    (h : (watchSystem lib).Reach (FileLeftAlone cs) (startDaemon cs file d) s) :
    Follows cs s.world ((following cs).phases s ()) ∧ s.world.Unique := by
  refine Monitor.invariant (M := following cs) (A := fun _ _ => True) (Q := fun _ _ _ => True)
    (I := fun w ph => Follows cs w (ph ()) ∧ w.Unique) (fun _ _ _ _ _ _ _ _ => trivial)
    (fun _ => following_runDaemon) ⟨trivial, ?_⟩ ?_ ?_ h
  · intro v hv v' hv' _
    have hv : file = some v := by simpa using hv
    have hv' : file = some v' := by simpa using hv'
    rw [Option.some.inj (hv.symm.trans hv')]
  · intro s t o β e k b w hr hI hk hp he _ hok
    rw [Function.update_self]
    exact hI.1.act hI.2 he hok
  · intro s v w hr hI hk hv
    have hfar : ¬ ((following cs).phases s ()).BetweenLooks s.world.lastSig := by
      cases v with
      | remove => exact hk
      | edit v₀ => exact hk.1
    have hnew : ∀ v₀, v = .edit v₀ → ∀ v' ∈ s.world.versions,
        v'.signature = v₀.signature → v'.text = v₀.text := by
      rintro v₀ rfl
      exact hk.2
    obtain ⟨hdevice, hcurrent, hlastSig, hunique, hsigns⟩ :=
      execFileEvent_frame cs hI.2 hnew hv
    exact ⟨hI.1.event hfar hdevice hcurrent hlastSig hsigns, hunique⟩

/-! ## Ticks without an error -/

/-- Whether the daemon has logged no warning since its last tick. -/
def cleanTick : List (Event (WatchEff lib)) → Bool
  | [] => false
  | ⟨.select, _⟩ :: _ => true
  | ⟨.warn _, _⟩ :: _ => false
  | _ :: h => cleanTick h

/-- No tick has come yet, or the last one ended with a warning. -/
def WatchPhase.unclean : WatchPhase → Bool
  | .start => true
  | .loaded _ => true
  | .ensured _ => true
  | .assigned _ => true
  | .signed _ _ => true
  | .watching seen => seen.isNone
  | _ => false

theorem cleanTick_of_unclean (hist : List (Event (WatchEff lib)))
    (h : ((following cs).phase hist).unclean = true) : cleanTick hist = false := by
  induction hist with
  | nil => rfl
  | cons ev hist ih =>
    obtain ⟨e, b⟩ := ev
    change (watchNext cs ((following cs).phase hist) e b).unclean = true at h
    generalize (following cs).phase hist = l at h ih
    -- Any other action than a tick or a warning leads there only from there.
    cases e with
    | select => simp [watchNext, WatchPhase.unclean] at h
    | warn text => rfl
    | host step | mapOrder => exact ih h
    | getLastSig =>
      refine ih ?_
      simp only [watchNext] at h
      split at h
      · split at h <;> simp [WatchPhase.unclean] at h
      · exact h
    | readFile | configureDevice replacePeers peers | getCurrent | setCurrent cfg
    | setLastSig sig => exact ih (by simp only [watchNext] at h; split at h <;> exact h)
    | stat =>
      refine ih ?_
      simp only [watchNext] at h
      split at h
      · rfl
      · cases h
      · exact h

/-- The signature that the daemon has seen since its last tick. -/
def tickSignature : List (Event (WatchEff lib)) → Option FileSignature
  | [] => none
  | ⟨.select, _⟩ :: _ => none
  | ⟨.stat, .ok sig⟩ :: _ => some sig
  | _ :: h => tickSignature h

/-- The signature that a tick has seen and not yet done with. -/
def WatchPhase.seen : WatchPhase → Option FileSignature
  | .watching seen => seen
  | .compared sig => some sig
  | .changed sig => some sig
  | .reloading sig _ => some sig
  | .reloaded sig _ _ => some sig
  | .reconciled sig _ => some sig
  | .updated sig => some sig
  | _ => none

theorem tickSignature_of_seen (hist : List (Event (WatchEff lib))) {sig : FileSignature}
    (h : ((following cs).phase hist).seen = some sig) : tickSignature hist = some sig := by
  induction hist with
  | nil => cases h
  | cons ev hist ih =>
    obtain ⟨e, b⟩ := ev
    change (watchNext cs ((following cs).phase hist) e b).seen = some sig at h
    generalize (following cs).phase hist = l at h ih
    cases e with
    | select => cases h
    | stat =>
      simp only [watchNext] at h
      split at h
      · cases h
      · exact h
      · exact ih h
    | warn text => simp only [watchNext] at h; split at h <;> cases h
    | host step | mapOrder => exact ih h
    | getLastSig =>
      refine ih ?_
      simp only [watchNext] at h
      split at h
      · split at h <;> exact h
      · exact h
    | readFile | configureDevice replacePeers peers | getCurrent | setCurrent cfg
    | setLastSig sig => exact ih (by simp only [watchNext] at h; split at h <;> exact h)

/-- No step changes the file. -/
def FileUnchanged (_ : WatchState lib) : Label Unit (WatchOutcome lib) FileEvent → Prop
  | .thread _ _ => True
  | .env _ => False

theorem execWatch_file {β : Type} {e : WatchEff lib β} {b : β}
    (h : execWatch w e o = some (b, w')) : w'.file = w.file := by
  cases e with
  | readFile => rw [(execWatch_readFile h).1]
  | stat => rw [(execWatch_stat h).1]
  | configureDevice replacePeers peers =>
    obtain ⟨-, rfl⟩ | ⟨-, rfl⟩ := execWatch_configureDevice h <;> rfl
  | _ => cases o <;> cases h <;> rfl

/-- A tick that falls into a time in which the file does not change has seen
the file as it is at the end. -/
theorem hasSignature_of_tick {s₀ s : WatchState lib} {k : Bool → Prog (WatchEff lib) Unit}
    (hp : s₀.prog () = .act .select k) (h : (watchSystem lib).Reach FileUnchanged s₀ s)
    (hne : s.hist () ≠ s₀.hist ()) {sig : FileSignature}
    (hsig : tickSignature (s.hist ()) = some sig) : s.world.HasSignature sig := by
  have hinv : (s.hist () = s₀.hist () ∧ s.prog () = s₀.prog ()) ∨
      ∀ sig, tickSignature (s.hist ()) = some sig → s.world.HasSignature sig := by
    refine h.invariant (I := fun s => (s.hist () = s₀.hist () ∧ s.prog () = s₀.prog ()) ∨
      ∀ sig, tickSignature (s.hist ()) = some sig → s.world.HasSignature sig) (.inl ⟨rfl, rfl⟩) ?_
    intro s l s' _ ih hk hs
    rcases System.step_cases hs with
      ⟨t, o, rfl, β, e, k', b, w', hp', he, rfl⟩ | ⟨t, o, rfl, β, body, k', hp', rfl⟩ |
      ⟨v, w', rfl, hv, rfl⟩
    · right
      simp only [Function.update_self]
      rcases ih with ⟨-, hprog⟩ | ih
      · -- The first action is the tick, which forgets what was seen before it.
        cases hp'.symm.trans (hprog.trans hp)
        exact nofun
      · have hkeep : ∀ sig, tickSignature (s.hist ()) = some sig → w'.HasSignature sig := by
          intro sig hsig
          obtain ⟨v, hv, hvsig⟩ := ih sig hsig
          exact ⟨v, (execWatch_file he).trans hv, hvsig⟩
        cases e with
        | select => exact nofun
        | stat =>
          obtain ⟨rfl, hr⟩ := execWatch_stat he
          cases b with
          | ok sig => exact fun sig' hsig => hr sig' (congrArg Except.ok (Option.some.inj hsig))
          | error e => exact hkeep
        | _ => exact hkeep
    · rcases ih with ⟨-, hprog⟩ | ih
      · cases hp'.symm.trans (hprog.trans hp)
      · exact .inr ih
    · cases hk
  exact hinv.resolve_left (fun h => hne h.1) sig hsig

/-- In every run in which the file is left alone between two looks, when a
tick has found no error:

* `lastSig` is the signature that the tick has seen;
* every version of the file that had this signature has the peers that are
  held as current, and they are installed on the device;
* if the file has not changed since an earlier round of the loop, the peers
  are those of the file. -/
theorem peers_follow_file (cs : ConfigSyntax lib) (file : Option FileVersion)
    (d : Device lib.Key lib.IPNet) {s : WatchState lib}
    (h : (watchSystem lib).Reach (FileLeftAlone cs) (startDaemon cs file d) s)
    {k : Bool → Prog (WatchEff lib) Unit} (hp : s.prog () = .act .select k)
    (hclean : cleanTick (s.hist ()) = true) :
    ∃ sig, tickSignature (s.hist ()) = some sig ∧ s.world.lastSig = some sig ∧
      s.world.Signs cs sig s.world.current.peers ∧
      Installed s.world.device s.world.current.peers ∧
      ∀ (s₀ : WatchState lib) (k₀ : Bool → Prog (WatchEff lib) Unit),
        s₀.prog () = .act .select k₀ → (watchSystem lib).Reach FileUnchanged s₀ s →
        s.hist () ≠ s₀.hist () →
        ∃ v cfg, s.world.file = some v ∧ v.signature = sig ∧
          cs.load (.ok v.text) = .ok cfg ∧ cfg.peers = s.world.current.peers := by
  obtain ⟨seen, hphase⟩ : watchOk ((following cs).phases s ()) (.select : WatchEff lib _) true :=
    Monitor.ok_reach (M := following cs) (t := ()) (b := true) (A := fun _ _ => True)
      (Q := fun _ _ => True) (fun _ _ _ _ _ _ _ _ => trivial) following_runDaemon h hp trivial
  have hfollows := (follows_reach h).1
  rw [hphase] at hfollows
  obtain ⟨hsynced, hseen⟩ := hfollows
  have hsome : seen.isSome := by
    by_contra hnone
    have hunclean : ((following cs).phase (s.hist ())).unclean = true := by
      change ((following cs).phases s ()).unclean = true
      rw [hphase]
      simpa [WatchPhase.unclean] using hnone
    rw [cleanTick_of_unclean _ hunclean] at hclean
    cases hclean
  obtain ⟨sig, rfl⟩ := Option.isSome_iff_exists.mp hsome
  have hlast := hseen sig rfl
  have hphaseSeen : ((following cs).phase (s.hist ())).seen = some sig := by
    change ((following cs).phases s ()).seen = some sig
    rw [hphase]
    rfl
  have htick := tickSignature_of_seen _ hphaseSeen
  have hsigns := hsynced.signs sig hlast
  refine ⟨sig, htick, hlast, hsigns, hsynced.runs.installed, fun s₀ k₀ hp₀ hr hne => ?_⟩
  obtain ⟨v, hv, hvsig⟩ := hasSignature_of_tick hp₀ hr hne htick
  obtain ⟨cfg, hload, hpeers⟩ := hsigns.2 v (s.world.recorded v hv) hvsig
  exact ⟨v, cfg, hv, hvsig, hload, hpeers⟩

end Runs

/-! ## An edit during the startup -/

open ConfigFile

/-- The configuration of the daemon at the default path. -/
def plainConfigSyntax : ConfigSyntax plainNetSyntax where
  parse text := (load plainConfigLib text).map (·.wireGuard)
  defaults := .ok Config.default.wireGuard
  isDefaultPath := true

/-- The daemon waits for a tick. -/
def WatchState.selects {lib : NetSyntax} (s : WatchState lib) : Bool :=
  match s.prog () with
  | .act .select _ => true
  | _ => false

theorem WatchState.exists_select {lib : NetSyntax} {s : WatchState lib}
    (h : WatchState.selects s = true) : ∃ k, s.prog () = .act .select k := by
  unfold WatchState.selects at h
  split at h
  · rename_i k hp
    exact ⟨k, hp⟩
  · cases h

/-- An edit is noticed by the next tick, and the peer is removed. -/
theorem peers_follow_file_removed :
    ∃ s₀ s : WatchState plainNetSyntax,
      (watchSystem plainNetSyntax).Reach (FileLeftAlone plainConfigSyntax)
        (startDaemon plainConfigSyntax (some ⟨0, onePeerFile "wireguard"⟩) Device.empty) s₀ ∧
      (watchSystem plainNetSyntax).Reach FileUnchanged s₀ s ∧
      s₀.world.current.peers.length = 1 ∧ s.world.current.peers = [] ∧
      ∃ sig, s.world.lastSig = some sig ∧ Installed s.world.device s.world.current.peers ∧
        ∃ v cfg, s.world.file = some v ∧ v.signature = sig ∧
          plainConfigSyntax.load (.ok v.text) = .ok cfg ∧ cfg.peers = s.world.current.peers := by
  -- The tick after the edit.
  let tick : List (Label Unit (WatchOutcome plainNetSyntax) FileEvent) :=
    List.replicate 5 (.thread () .ok) ++ [.thread () (.order forwardOrder),
      .thread () (.order backwardOrder)] ++ List.replicate 5 (.thread () .ok)
  obtain ⟨s₀, hs₀, hP₀⟩ := (watchSystem plainNetSyntax).exists_reach_of_run
    (s := startDaemon plainConfigSyntax (some ⟨0, onePeerFile "wireguard"⟩) Device.empty)
    (k := fun s l => match l with
      | .thread _ _ => true
      | .env .remove => false
      | .env (.edit v) =>
          decide ((following plainConfigSyntax).phases s () = .watching none) &&
            decide (∀ v' ∈ s.world.versions, v'.signature ≠ v.signature))
    (l := List.replicate 14 (.thread () .ok) ++ [.env (.edit ⟨1, noPeersFile⟩)])
    (P := fun s₀ => WatchState.selects s₀ && decide (s₀.world.current.peers.length = 1) &&
      (watchSystem plainNetSyntax).runMeets (fun _ l => l matches .thread _ _) s₀ tick &&
      ((watchSystem plainNetSyntax).run s₀ tick).any fun (s : WatchState plainNetSyntax) =>
        WatchState.selects s && cleanTick (s.hist ()) && decide (s.world.current.peers = []) &&
          decide ((s.hist ()).length ≠ (s₀.hist ()).length))
    (by decide +kernel) (by decide +kernel)
  simp only [Bool.and_eq_true, decide_eq_true_eq] at hP₀
  obtain ⟨⟨⟨hselects₀, hone⟩, hmeets⟩, hrun⟩ := hP₀
  obtain ⟨s, hs, hP⟩ := (watchSystem plainNetSyntax).exists_reach_of_run hmeets hrun
  simp only [Bool.and_eq_true, decide_eq_true_eq] at hP
  obtain ⟨⟨⟨hselects, hclean⟩, hnone⟩, hlength⟩ := hP
  have hreach₀ : (watchSystem plainNetSyntax).Reach (FileLeftAlone plainConfigSyntax)
      (startDaemon plainConfigSyntax (some ⟨0, onePeerFile "wireguard"⟩) Device.empty) s₀ := by
    refine hs₀.mono fun s l hk => ?_
    cases l with
    | thread t o => trivial
    | env v =>
      cases v with
      | remove => cases hk
      | edit v =>
        simp only [Bool.and_eq_true, decide_eq_true_eq] at hk
        refine ⟨by rw [hk.1]; exact id, fun v' hv' hsig => absurd hsig (hk.2 v' hv')⟩
  have hreach : (watchSystem plainNetSyntax).Reach FileUnchanged s₀ s := by
    refine hs.mono fun s l hk => ?_
    cases l with
    | thread t o => trivial
    | env v => cases hk
  have halone : ∀ (s : WatchState plainNetSyntax) l, FileUnchanged s l →
      FileLeftAlone plainConfigSyntax s l := by
    intro s l hk
    cases l with
    | thread t o => trivial
    | env v => cases hk
  obtain ⟨k₀, hp₀⟩ := WatchState.exists_select hselects₀
  obtain ⟨k, hp⟩ := WatchState.exists_select hselects
  obtain ⟨sig, -, hsig, -, hinstalled, hfile⟩ := peers_follow_file plainConfigSyntax _ _
    (hreach₀.trans (hreach.mono halone)) hp hclean
  exact ⟨s₀, s, hreach₀, hreach, hone, hnone, sig, hsig, hinstalled,
    hfile s₀ k₀ hp₀ hreach fun h => hlength (by rw [h])⟩

/-- A peer is removed from the file while the daemon starts.  The first
signature is the one of the new version, so the peer stays on the device. -/
theorem edit_during_startup_missed :
    ∃ s : WatchState plainNetSyntax,
      (watchSystem plainNetSyntax).Reach (fun _ _ => True)
        (startDaemon plainConfigSyntax (some ⟨0, onePeerFile "wireguard"⟩) Device.empty) s ∧
      WatchState.selects s = true ∧ cleanTick (s.hist ()) = true ∧
      s.world.file = some ⟨1, noPeersFile⟩ ∧
      s.world.lastSig = some (FileVersion.signature ⟨1, noPeersFile⟩) ∧
      s.world.current.peers.length = 1 ∧
      ∃ cfg, plainConfigSyntax.load (.ok noPeersFile) = .ok cfg ∧ cfg.peers = [] := by
  obtain ⟨s, hs, hP⟩ := (watchSystem plainNetSyntax).exists_reach_of_run
    (s := startDaemon plainConfigSyntax (some ⟨0, onePeerFile "wireguard"⟩) Device.empty)
    (k := fun _ _ => true)
    (l := List.replicate 10 (.thread () .ok) ++ [.env (.edit ⟨1, noPeersFile⟩)] ++
      List.replicate 8 (.thread () .ok))
    (P := fun s => WatchState.selects s && cleanTick (s.hist ()) &&
      decide (s.world.file = some ⟨1, noPeersFile⟩ ∧
        s.world.lastSig = some (FileVersion.signature ⟨1, noPeersFile⟩) ∧
        s.world.current.peers.length = 1)) (by decide +kernel) (by decide +kernel)
  simp only [Bool.and_eq_true, decide_eq_true_eq] at hP
  obtain ⟨⟨hselects, hclean⟩, hfile, hlastSig, hpeers⟩ := hP
  obtain ⟨cfg, hload, hnone⟩ := exists_of_succeedsWith
    (x := plainConfigSyntax.load (.ok noPeersFile))
    (p := fun cfg : WireGuardConfig => decide (cfg.peers = [])) (by decide +kernel)
  exact ⟨s, hs.mono fun _ _ _ => trivial, hselects, hclean, hfile, hlastSig, hpeers, cfg, hload,
    of_decide_eq_true hnone⟩

end Firedoze
