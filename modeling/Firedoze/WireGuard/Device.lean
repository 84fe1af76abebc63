import Mathlib.Data.Finset.Basic

/-!
# The peers of a WireGuard device

A device has a set of peers and a table of allowed IPs.  An allowed IP
belongs to one peer at a time, and is taken over when it is assigned to
another one.  `configurePeer` applies one `PeerConfig`, and
`configureDevice` applies a list of them one after another.

The keys `K` and the allowed IPs `A` are any types.

* `owner_configureAll` says what a list of updates leaves when no two of them
  want the same allowed IP.
* `Reconciles` lists what a difference between two peer lists has to hold, in
  any order, and `Reconciles.holds` says that it leads from one to the other.
* `holds_install` says the same of an installation from scratch, and
  `Holds.eq` that a device is determined by the peers it holds.
-/

namespace WireGuard

variable {K A : Type} [DecidableEq K] [DecidableEq A]

/-! ## Devices -/

/-- The peers of a device, and the peer that each allowed IP belongs to. -/
@[ext] structure Device (K A : Type) where
  peers : Finset K
  owner : A → Option K
  owned : ∀ a k, owner a = some k → k ∈ peers

/-- `wgtypes.PeerConfig`. -/
structure PeerConfig (K A : Type) where
  publicKey : K
  remove : Bool := false
  replaceAllowedIPs : Bool := false
  allowedIPs : List A := []
  deriving DecidableEq, Repr

/-- The configuration of a peer that is installed or updated. -/
def PeerConfig.assign (p : K × List A) : PeerConfig K A where
  publicKey := p.1
  replaceAllowedIPs := true
  allowedIPs := p.2

namespace Device

/-- A device without peers. -/
def empty : Device K A where
  peers := ∅
  owner := fun _ => none
  owned := fun _ _ h => by cases h

/-- The table without the allowed IPs of a peer. -/
def clearOwner (d : Device K A) (k : K) (a : A) : Option K :=
  if d.owner a = some k then none else d.owner a

/-- Delete a peer. -/
def removePeer (d : Device K A) (k : K) : Device K A where
  peers := d.peers.erase k
  owner := d.clearOwner k
  owned := by
    intro a k' h
    unfold clearOwner at h
    split_ifs at h with hk
    refine Finset.mem_erase.mpr ⟨?_, d.owned a k' h⟩
    rintro rfl
    exact hk h

/-- Make a peer, if it is not there, and assign its allowed IPs. -/
def setPeer (d : Device K A) (c : PeerConfig K A) : Device K A where
  peers := insert c.publicKey d.peers
  owner := fun a =>
    if a ∈ c.allowedIPs then some c.publicKey
    else if c.replaceAllowedIPs then d.clearOwner c.publicKey a
    else d.owner a
  owned := by
    intro a k h
    simp only [clearOwner] at h
    split_ifs at h
    · cases h
      exact Finset.mem_insert_self _ _
    · exact Finset.mem_insert_of_mem (d.owned a k h)
    · exact Finset.mem_insert_of_mem (d.owned a k h)

/-- Apply one `PeerConfig`. -/
def configurePeer (d : Device K A) (c : PeerConfig K A) : Device K A :=
  if c.remove then d.removePeer c.publicKey else d.setPeer c

/-- Apply a list of them in turn. -/
def configureAll (d : Device K A) (cs : List (PeerConfig K A)) : Device K A :=
  cs.foldl configurePeer d

/-- `ConfigureDevice`. -/
def configureDevice (d : Device K A) (replacePeers : Bool) (cs : List (PeerConfig K A)) :
    Device K A :=
  if replacePeers then empty.configureAll cs else d.configureAll cs

/-- The device has exactly the given peers, with exactly their allowed IPs. -/
structure Holds (d : Device K A) (ps : List (K × List A)) : Prop where
  peers : ∀ k, k ∈ d.peers ↔ ∃ as, (k, as) ∈ ps
  owner : ∀ a k, d.owner a = some k ↔ ∃ as, (k, as) ∈ ps ∧ a ∈ as

omit [DecidableEq K] [DecidableEq A] in
theorem Holds.eq {d d' : Device K A} {ps : List (K × List A)} (h : d.Holds ps)
    (h' : d'.Holds ps) : d = d' := by
  refine Device.ext (Finset.ext fun k => (h.peers k).trans (h'.peers k).symm) (funext fun a => ?_)
  exact Option.ext fun k => (h.owner a k).trans (h'.owner a k).symm

/-! ## Removals -/

variable {d : Device K A} {cs : List (PeerConfig K A)}

/-- What a list of removals leaves. -/
theorem configureAll_removals (h : ∀ c ∈ cs, c.remove = true) :
    (∀ k, k ∈ (d.configureAll cs).peers ↔ k ∈ d.peers ∧ ∀ c ∈ cs, c.publicKey ≠ k) ∧
      ∀ a k, (d.configureAll cs).owner a = some k ↔
        d.owner a = some k ∧ ∀ c ∈ cs, c.publicKey ≠ k := by
  induction cs generalizing d with
  | nil => simp [configureAll]
  | cons c cs ih =>
    have hc : d.configurePeer c = d.removePeer c.publicKey := by
      simp [configurePeer, h c List.mem_cons_self]
    obtain ⟨ihp, iho⟩ := ih (d := d.configurePeer c) fun c' hc' => h c' (List.mem_cons_of_mem _ hc')
    change (∀ k, k ∈ ((d.configurePeer c).configureAll cs).peers ↔ _) ∧
      ∀ a k, ((d.configurePeer c).configureAll cs).owner a = some k ↔ _
    refine ⟨fun k => (ihp k).trans ?_, fun a k => (iho a k).trans ?_⟩
    · simp only [hc, removePeer, Finset.mem_erase, List.mem_cons, forall_eq_or_imp]
      grind
    · simp only [hc, removePeer, clearOwner, List.mem_cons, forall_eq_or_imp]
      grind

/-! ## Updates -/

/-- The updates replace the allowed IPs of different peers, and no two of them
want the same one. -/
structure Compatible (cs : List (PeerConfig K A)) : Prop where
  update : ∀ c ∈ cs, c.remove = false ∧ c.replaceAllowedIPs = true
  keys : (cs.map (·.publicKey)).Nodup
  disjoint : ∀ c ∈ cs, ∀ c' ∈ cs, ∀ a, a ∈ c.allowedIPs → a ∈ c'.allowedIPs →
    c.publicKey = c'.publicKey

omit [DecidableEq K] [DecidableEq A] in
theorem Compatible.tail {c : PeerConfig K A} (h : Compatible (c :: cs)) : Compatible cs where
  update c' hc' := h.update c' (List.mem_cons_of_mem _ hc')
  keys := (List.nodup_cons.mp h.keys).2
  disjoint c₁ h₁ c₂ h₂ := h.disjoint c₁ (List.mem_cons_of_mem _ h₁) c₂ (List.mem_cons_of_mem _ h₂)

theorem mem_peers_configureAll (h : ∀ c ∈ cs, c.remove = false) (k : K) :
    k ∈ (d.configureAll cs).peers ↔ k ∈ d.peers ∨ ∃ c ∈ cs, c.publicKey = k := by
  induction cs generalizing d with
  | nil => simp [configureAll]
  | cons c cs ih =>
    have hc : d.configurePeer c = d.setPeer c := by
      simp [configurePeer, h c List.mem_cons_self]
    change k ∈ ((d.configurePeer c).configureAll cs).peers ↔ _
    rw [ih fun c' hc' => h c' (List.mem_cons_of_mem _ hc'), hc]
    simp only [setPeer, Finset.mem_insert, List.mem_cons, exists_eq_or_imp]
    grind

/-- What a list of updates leaves: every update has its allowed IPs, and a
peer that is not updated keeps those that no update wants. -/
theorem owner_configureAll (h : Compatible cs) (a : A) (k : K) :
    (d.configureAll cs).owner a = some k ↔
      (∃ c ∈ cs, c.publicKey = k ∧ a ∈ c.allowedIPs) ∨
        ((∀ c ∈ cs, c.publicKey ≠ k ∧ a ∉ c.allowedIPs) ∧ d.owner a = some k) := by
  induction cs generalizing d with
  | nil => simp [configureAll]
  | cons c cs ih =>
    obtain ⟨hremove, hreplace⟩ := h.update c List.mem_cons_self
    have hc : d.configurePeer c = d.setPeer c := by simp [configurePeer, hremove]
    -- A later update has another key, and wants none of these allowed IPs.
    have hother : ∀ c' ∈ cs, c'.publicKey ≠ c.publicKey := by
      intro c' hc' heq
      exact (List.nodup_cons.mp h.keys).1 (List.mem_map.mpr ⟨c', hc', heq⟩)
    have hapart : ∀ c' ∈ cs, ∀ a, a ∈ c.allowedIPs → a ∉ c'.allowedIPs := by
      intro c' hc' a ha ha'
      exact hother c' hc' (h.disjoint c' (List.mem_cons_of_mem _ hc') c List.mem_cons_self a ha' ha)
    change ((d.configurePeer c).configureAll cs).owner a = some k ↔ _
    rw [ih h.tail, hc]
    simp only [setPeer, clearOwner, hreplace, if_true, List.mem_cons, exists_eq_or_imp,
      forall_eq_or_imp]
    by_cases ha : a ∈ c.allowedIPs
    · have hnone : ∀ c' ∈ cs, a ∉ c'.allowedIPs := fun c' hc' => hapart c' hc' a ha
      grind
    · grind

/-! ## From one list of peers to another -/

/-- A list of peers in which no key and no allowed IP occurs twice. -/
structure Distinct (ps : List (K × List A)) : Prop where
  keys : ∀ k as as', (k, as) ∈ ps → (k, as') ∈ ps → as = as'
  disjoint : ∀ k k' as as' a, (k, as) ∈ ps → (k', as') ∈ ps → a ∈ as → a ∈ as' → k = k'

/-- The changes from one list of peers to another: the peers that are gone are
removed, and every peer of the new list is updated or was there before with
the same allowed IPs. -/
structure Reconciles (old new : List (K × List A)) (removals updates : List (PeerConfig K A)) :
    Prop where
  remove : ∀ c ∈ removals, c.remove = true
  removed : ∀ k, (∃ c ∈ removals, c.publicKey = k) ↔
    (∃ as, (k, as) ∈ old) ∧ ¬ ∃ as, (k, as) ∈ new
  update : ∀ c ∈ updates, c.remove = false ∧ c.replaceAllowedIPs = true
  keys : (updates.map (·.publicKey)).Nodup
  updated : ∀ c ∈ updates, (c.publicKey, c.allowedIPs) ∈ new
  kept : ∀ k as, (k, as) ∈ new → (∃ c ∈ updates, c.publicKey = k) ∨
    ∃ as', (k, as') ∈ old ∧ ∀ a, a ∈ as' ↔ a ∈ as

section Lists

variable {old new : List (K × List A)} {removals updates : List (PeerConfig K A)}

omit [DecidableEq K] [DecidableEq A] in
theorem Reconciles.compatible (h : Reconciles old new removals updates) (hnew : Distinct new) :
    Compatible updates where
  update := h.update
  keys := h.keys
  disjoint c hc c' hc' a ha ha' :=
    hnew.disjoint _ _ _ _ a (h.updated c hc) (h.updated c' hc') ha ha'

/-- The changes lead from a device that holds the old peers to one that holds
the new peers. -/
theorem Reconciles.holds (h : Reconciles old new removals updates) (hold : Distinct old)
    (hnew : Distinct new) (hd : d.Holds old) :
    (d.configureAll (removals ++ updates)).Holds new := by
  have hsplit : d.configureAll (removals ++ updates) =
      (d.configureAll removals).configureAll updates := List.foldl_append
  obtain ⟨hpeers, howner⟩ := configureAll_removals (d := d) h.remove
  rw [hsplit]
  constructor
  · intro k
    rw [mem_peers_configureAll fun c hc => (h.update c hc).1, hpeers, hd.peers]
    constructor
    · rintro (⟨hin, hkeep⟩ | ⟨c, hc, rfl⟩)
      · by_contra hgone
        obtain ⟨c, hc, hk⟩ := (h.removed k).mpr ⟨hin, hgone⟩
        exact hkeep c hc hk
      · exact ⟨_, h.updated c hc⟩
    · rintro ⟨as, has⟩
      rcases h.kept k as has with hup | ⟨as', has', -⟩
      · exact .inr hup
      · exact .inl ⟨⟨as', has'⟩, fun c hc hk => ((h.removed k).mp ⟨c, hc, hk⟩).2 ⟨as, has⟩⟩
  · intro a k
    rw [owner_configureAll (h.compatible hnew), howner, hd.owner]
    constructor
    · rintro (⟨c, hc, rfl, ha⟩ | ⟨hnone, ⟨as, has, ha⟩, hkeep⟩)
      · exact ⟨_, h.updated c hc, ha⟩
      · -- The peer was not removed, so it is in the new list, and unchanged.
        have hin : ∃ as', (k, as') ∈ new := by
          by_contra hgone
          obtain ⟨c, hc, hk⟩ := (h.removed k).mpr ⟨⟨as, has⟩, hgone⟩
          exact hkeep c hc hk
        obtain ⟨as', has'⟩ := hin
        rcases h.kept k as' has' with ⟨c, hc, hk⟩ | ⟨as₀, has₀, hsame⟩
        · exact absurd hk (hnone c hc).1
        · obtain rfl := hold.keys k as as₀ has has₀
          exact ⟨as', has', (hsame a).mp ha⟩
    · rintro ⟨as, has, ha⟩
      by_cases hup : ∃ c ∈ updates, c.publicKey = k
      · obtain ⟨c, hc, rfl⟩ := hup
        obtain rfl := hnew.keys _ _ _ has (h.updated c hc)
        exact .inl ⟨c, hc, rfl, ha⟩
      · refine .inr ⟨fun c hc => ⟨fun hk => hup ⟨c, hc, hk⟩, fun hca => ?_⟩, ?_, ?_⟩
        · exact hup ⟨c, hc, hnew.disjoint _ _ _ _ a (h.updated c hc) has hca ha⟩
        · obtain ⟨as', has', hsame⟩ := (h.kept k as has).resolve_left hup
          exact ⟨as', has', (hsame a).mpr ha⟩
        · exact fun c hc hk => ((h.removed k).mp ⟨c, hc, hk⟩).2 ⟨as, has⟩

/-- An installation from scratch. -/
theorem holds_install (hkeys : (new.map Prod.fst).Nodup) (hnew : Distinct new) (d : Device K A) :
    (d.configureDevice true (new.map PeerConfig.assign)).Holds new := by
  have hrec : Reconciles [] new [] (new.map PeerConfig.assign) := by
    refine ⟨by simp, by simp, ?_, ?_, ?_, ?_⟩
    · intro c hc
      obtain ⟨p, -, rfl⟩ := List.mem_map.mp hc
      exact ⟨rfl, rfl⟩
    · rw [List.map_map]
      exact hkeys
    · intro c hc
      obtain ⟨p, hp, rfl⟩ := List.mem_map.mp hc
      exact hp
    · exact fun k as has => .inl ⟨_, List.mem_map_of_mem has, rfl⟩
  have hempty : (empty : Device K A).Holds [] := ⟨by simp [empty], by simp [empty]⟩
  exact hrec.holds ⟨by simp, by simp⟩ hnew hempty

end Lists

end Device

end WireGuard
