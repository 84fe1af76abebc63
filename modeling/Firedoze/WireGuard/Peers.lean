import Firedoze.Model.Types
import Firedoze.WireGuard.Device
import Mathlib.Data.List.Pairwise
import Mathlib.Data.List.Sort

/-!
# The WireGuard peers of the configuration

`WireGuardConfig.Validate`, the part of `EnsureWireGuard` that installs the
peers, and `wireGuardPeerDiff`, which `ReconcileWireGuardPeers` applies to a
device that is in use.

The functions that parse keys and networks belong to libraries.  They are
the parameter `NetSyntax`, with the two laws that the proofs need: the text of
a key determines the key, and the text of a network that is not IPv4
determines the network.

Go iterates over a map in any order.  A map is the list of its entries, and
`MapOrder` is the order that one iteration takes.

* `validatePeers_ok` says what an accepted list of peers satisfies.
* `runtimeWGPeersByKey_ok` says what the map of a list of peers holds.
* `reconciles_diff` puts the two together: the difference has what
  `WireGuard.Device.Reconciles` asks for, in every order.
* `diff_holds` and `ensure_holds` say what the two ways to configure a device
  leave on it.
-/

namespace Firedoze

open WireGuard

/-! ## Keys and networks -/

/-- The functions of `wgtypes` and `net` that read and print keys and
networks, and the verb `%q`.  `isIPv4` is `ip.To4() != nil`. -/
structure NetSyntax where
  Key : Type
  IP : Type
  IPNet : Type
  [decKey : DecidableEq Key]
  [decIPNet : DecidableEq IPNet]
  parseKey : String → Except String Key
  keyString : Key → String
  keyString_injective : Function.Injective keyString
  parseCIDR : String → Except String (IP × IPNet)
  isIPv4 : IP → Bool
  netString : IPNet → String
  netString_injective : ∀ {s s' : String} {ip ip' : IP} {n n' : IPNet},
    parseCIDR s = .ok (ip, n) → isIPv4 ip = false → parseCIDR s' = .ok (ip', n') →
    isIPv4 ip' = false → netString n = netString n' → n = n'
  quote : String → String

attribute [instance] NetSyntax.decKey NetSyntax.decIPNet

/-- `config.WGPeer`. -/
structure WGPeer where
  name : String
  publicKey : String
  allowedIPs : List String
  deriving DecidableEq, Repr

/-- `config.WireGuardConfig`. -/
structure WireGuardConfig where
  interface : String
  listenPort : Int
  address : String
  endpoint : String
  privateKeyFile : String
  peers : List WGPeer
  deriving DecidableEq, Repr

namespace NetSyntax

variable (lib : NetSyntax)

/-- The networks of a list of texts. -/
def nets (cidrs : List String) : List lib.IPNet :=
  cidrs.filterMap fun s => (lib.parseCIDR s).toOption.map Prod.snd

/-- The peers of a list as a device knows them. -/
def table (peers : List WGPeer) : List (lib.Key × List lib.IPNet) :=
  peers.filterMap fun p =>
    (lib.parseKey p.publicKey).toOption.map fun k => (k, lib.nets p.allowedIPs)

/-- A network that was parsed from the text of an IPv6 address. -/
def IsIPv6Net (n : lib.IPNet) : Prop :=
  ∃ s ip, lib.parseCIDR s = .ok (ip, n) ∧ lib.isIPv4 ip = false

variable {lib}

theorem IsIPv6Net.eq {n n' : lib.IPNet} (h : lib.IsIPv6Net n) (h' : lib.IsIPv6Net n')
    (hs : lib.netString n = lib.netString n') : n = n' := by
  obtain ⟨s, ip, hp, hv⟩ := h
  obtain ⟨s', ip', hp', hv'⟩ := h'
  exact lib.netString_injective hp hv hp' hv' hs

theorem nets_cons_ok {s : String} {ip : lib.IP} {n : lib.IPNet} (cidrs : List String)
    (h : lib.parseCIDR s = .ok (ip, n)) : lib.nets (s :: cidrs) = n :: lib.nets cidrs := by
  simp [nets, h, Except.toOption]

theorem table_cons_ok {p : WGPeer} {k : lib.Key} {peers : List WGPeer}
    (h : lib.parseKey p.publicKey = .ok k) :
    lib.table (p :: peers) = (k, lib.nets p.allowedIPs) :: lib.table peers := by
  simp [table, h, Except.toOption]

theorem mem_table {k : lib.Key} {as : List lib.IPNet} {peers : List WGPeer} :
    (k, as) ∈ lib.table peers ↔
      ∃ p ∈ peers, lib.parseKey p.publicKey = .ok k ∧ lib.nets p.allowedIPs = as := by
  unfold table
  rw [List.mem_filterMap]
  refine exists_congr fun p => and_congr_right fun _ => ?_
  cases lib.parseKey p.publicKey with
  | error e | ok k' => simp [Except.toOption]

end NetSyntax

/-! ## `WireGuardConfig.Validate` -/

section Validate

variable (lib : NetSyntax)

/-- The start of the path of a peer's field. -/
def peerPath (i : Nat) : String := "wireguard.peers[" ++ toString i ++ "]"

/-- The start of the path of an allowed IP. -/
def allowedIPPath (i j : Nat) : String := peerPath i ++ ".allowed_ips[" ++ toString j ++ "]"

/-- The inner loop of `Validate`, which answers the map `peerAllowedIPs`. -/
def validateAllowedIPs (i : Nat) :
    Nat → List String → List (String × Nat) → Except Err (List (String × Nat))
  | _, [], seen => .ok seen
  | j, cidr :: rest, seen =>
      match lib.parseCIDR cidr with
      | .error e => .error (.msg (allowedIPPath i j ++ " must be CIDR: " ++ e))
      | .ok (ip, ipNet) =>
          if lib.isIPv4 ip then .error (.msg (allowedIPPath i j ++ " must be IPv6"))
          else
            match seen.lookup (lib.netString ipNet) with
            | some first =>
                .error (.msg (allowedIPPath i j ++ " duplicates " ++ peerPath first ++
                  " allowed IP " ++ lib.netString ipNet))
            | none => validateAllowedIPs i (j + 1) rest ((lib.netString ipNet, i) :: seen)

/-- The maps of `Validate`. -/
structure PeersSeen where
  names : List (String × Nat) := []
  publicKeys : List (String × Nat) := []
  allowedIPs : List (String × Nat) := []

/-- The loop of `Validate` over the peers. -/
def validatePeers : Nat → List WGPeer → PeersSeen → Except Err Unit
  | _, [], _ => .ok ()
  | i, peer :: rest, seen =>
      if peer.name = "" then .error (.msg (peerPath i ++ ".name is required"))
      else
        match seen.names.lookup peer.name with
        | some first =>
            .error (.msg (peerPath i ++ ".name duplicates " ++ peerPath first ++ ".name " ++
              lib.quote peer.name))
        | none =>
            if peer.publicKey = "" then .error (.msg (peerPath i ++ ".public_key is required"))
            else
              match seen.publicKeys.lookup peer.publicKey with
              | some first =>
                  .error (.msg (peerPath i ++ ".public_key duplicates " ++ peerPath first ++
                    ".public_key"))
              | none =>
                  if peer.allowedIPs = [] then
                    .error (.msg (peerPath i ++ ".allowed_ips is required"))
                  else
                    match validateAllowedIPs lib i 0 peer.allowedIPs seen.allowedIPs with
                    | .error e => .error e
                    | .ok allowedIPs =>
                        validatePeers (i + 1) rest
                          { names := (peer.name, i) :: seen.names
                            publicKeys := (peer.publicKey, i) :: seen.publicKeys
                            allowedIPs := allowedIPs }

/-- `WireGuardConfig.Validate`. -/
def WireGuardConfig.validate (c : WireGuardConfig) : Except Err Unit :=
  if c.interface = "" then .error (.msg "wireguard.interface is required")
  else if c.listenPort ≤ 0 ∨ 65535 < c.listenPort then
    .error (.msg "wireguard.listen_port must be between 1 and 65535")
  else if c.privateKeyFile = "" then .error (.msg "wireguard.private_key_file is required")
  else
    match lib.parseCIDR c.address with
    | .error e => .error (.msg ("wireguard.address must be CIDR: " ++ e))
    | .ok (ip, _) =>
        if lib.isIPv4 ip then .error (.msg "wireguard.address must be IPv6")
        else validatePeers lib 0 c.peers {}

variable {lib}

theorem lookup_eq_none_iff {V : Type} {m : List (String × V)} {k : String} :
    m.lookup k = none ↔ ∀ e ∈ m, e.1 ≠ k := by
  induction m with
  | nil => simp
  | cons e m ih =>
    rw [List.lookup_cons]
    split
    · rename_i h
      simp [beq_iff_eq.mp h]
    · rename_i h
      simp only [ih, List.mem_cons, forall_eq_or_imp, iff_and_self]
      exact fun _ he => by simp [he] at h

/-- The names under which `Validate` remembers a list of allowed IPs. -/
def NetSyntax.norms (lib : NetSyntax) (cidrs : List String) : List String :=
  (lib.nets cidrs).map lib.netString

/-- What an accepted list of allowed IPs satisfies: they are IPv6 networks, no
two are the same, and none of them was seen before. -/
theorem validateAllowedIPs_ok {i j : Nat} {cidrs : List String} {seen seen' : List (String × Nat)}
    (h : validateAllowedIPs lib i j cidrs seen = .ok seen') :
    (∀ n ∈ lib.nets cidrs, lib.IsIPv6Net n) ∧ (lib.norms cidrs).Nodup ∧
      (∀ x ∈ lib.norms cidrs, ∀ e ∈ seen, e.1 ≠ x) ∧
      ∀ x, (∃ e ∈ seen', e.1 = x) ↔ x ∈ lib.norms cidrs ∨ ∃ e ∈ seen, e.1 = x := by
  induction cidrs generalizing j seen with
  | nil =>
    obtain rfl : seen = seen' := by simpa [validateAllowedIPs] using h
    simp [NetSyntax.nets, NetSyntax.norms]
  | cons cidr rest ih =>
    simp only [validateAllowedIPs] at h
    split at h
    · cases h
    · rename_i ip ipNet hparse
      split_ifs at h with hv4
      split at h
      · cases h
      · rename_i hfresh
        obtain ⟨hv6, hnodup, hnew, hseen⟩ := ih h
        have hnets := NetSyntax.nets_cons_ok rest hparse
        have hnorms : lib.norms (cidr :: rest) = lib.netString ipNet :: lib.norms rest := by
          simp [NetSyntax.norms, hnets]
        rw [lookup_eq_none_iff] at hfresh
        rw [hnets, hnorms]
        refine ⟨?_, List.nodup_cons.mpr ⟨?_, hnodup⟩, ?_, ?_⟩
        · simp only [List.mem_cons, forall_eq_or_imp]
          exact ⟨⟨cidr, ip, hparse, by simpa using hv4⟩, hv6⟩
        · exact fun hin => hnew _ hin _ List.mem_cons_self rfl
        · simp only [List.mem_cons, forall_eq_or_imp]
          exact ⟨hfresh, fun x hx e he => hnew x hx e (List.mem_cons_of_mem _ he)⟩
        · intro x
          rw [hseen x]
          simp only [List.mem_cons, exists_eq_or_imp]
          grind

/-- The checks of one peer, before those of the peers behind it. -/
theorem validatePeers_cons_eq_ok {i : Nat} {peer : WGPeer} {rest : List WGPeer}
    {seen : PeersSeen} :
    validatePeers lib i (peer :: rest) seen = .ok () ↔
      (peer.name ≠ "" ∧ seen.names.lookup peer.name = none) ∧
      (peer.publicKey ≠ "" ∧ seen.publicKeys.lookup peer.publicKey = none) ∧
      peer.allowedIPs ≠ [] ∧
      ∃ allowedIPs, validateAllowedIPs lib i 0 peer.allowedIPs seen.allowedIPs = .ok allowedIPs ∧
        validatePeers lib (i + 1) rest
          { names := (peer.name, i) :: seen.names
            publicKeys := (peer.publicKey, i) :: seen.publicKeys
            allowedIPs := allowedIPs } = .ok () := by
  by_cases hname : peer.name = ""
  · simp [validatePeers, hname]
  cases hnames : seen.names.lookup peer.name with
  | some first => simp [validatePeers, hname, hnames]
  | none =>
    by_cases hkey : peer.publicKey = ""
    · simp [validatePeers, hname, hnames, hkey]
    cases hkeys : seen.publicKeys.lookup peer.publicKey with
    | some first => simp [validatePeers, hname, hnames, hkey, hkeys]
    | none =>
      by_cases hips : peer.allowedIPs = []
      · simp [validatePeers, hname, hnames, hkey, hkeys, hips]
      cases hok : validateAllowedIPs lib i 0 peer.allowedIPs seen.allowedIPs with
      | error e | ok allowedIPs => simp [validatePeers, hname, hnames, hkey, hkeys, hips, hok]

/-- What an accepted list of peers satisfies: the allowed IPs are IPv6
networks, and no two of them are the same, within a peer or between peers. -/
theorem validatePeers_ok {i : Nat} {peers : List WGPeer} {seen : PeersSeen}
    (h : validatePeers lib i peers seen = .ok ()) :
    (∀ p ∈ peers, ∀ n ∈ lib.nets p.allowedIPs, lib.IsIPv6Net n) ∧
      (peers.flatMap fun p => lib.norms p.allowedIPs).Nodup ∧
      ∀ x ∈ peers.flatMap fun p => lib.norms p.allowedIPs, ∀ e ∈ seen.allowedIPs, e.1 ≠ x := by
  induction peers generalizing i seen with
  | nil => simp
  | cons peer rest ih =>
    obtain ⟨-, -, -, allowedIPs, hok, h⟩ := validatePeers_cons_eq_ok.mp h
    obtain ⟨hv6, hnodup, hnew, hseen⟩ := validateAllowedIPs_ok hok
    obtain ⟨hv6s, hnodups, hnews⟩ := ih h
    -- What the map holds after this peer is new to the peers that follow.
    have hapart : ∀ x ∈ rest.flatMap fun p => lib.norms p.allowedIPs,
        x ∉ lib.norms peer.allowedIPs ∧ ∀ e ∈ seen.allowedIPs, e.1 ≠ x := by
      intro x hx
      have hno : ¬ ∃ e ∈ allowedIPs, e.1 = x := fun ⟨e, he, heq⟩ => hnews x hx e he heq
      rw [hseen x, not_or] at hno
      exact ⟨hno.1, fun e he heq => hno.2 ⟨e, he, heq⟩⟩
    rw [List.flatMap_cons]
    refine ⟨?_, List.nodup_append.mpr ⟨hnodup, hnodups, ?_⟩, ?_⟩
    · simp only [List.mem_cons, forall_eq_or_imp]
      exact ⟨hv6, hv6s⟩
    · rintro x hx y hy rfl
      exact (hapart x hy).1 hx
    · intro x hx
      rcases List.mem_append.mp hx with hx | hx
      · exact hnew x hx
      · exact (hapart x hx).2

theorem validatePeers_of_validate {c : WireGuardConfig} (h : c.validate lib = .ok ()) :
    validatePeers lib 0 c.peers {} = .ok () := by
  simp only [WireGuardConfig.validate] at h
  split_ifs at h
  split at h
  · cases h
  split_ifs at h
  exact h

/-- Another list of peers in an accepted configuration. -/
theorem validate_of_validatePeers {c : WireGuardConfig} {peers : List WGPeer}
    (h : c.validate lib = .ok ()) (hpeers : validatePeers lib 0 peers {} = .ok ()) :
    ({ c with peers := peers } : WireGuardConfig).validate lib = .ok () := by
  simp only [WireGuardConfig.validate] at h ⊢
  split_ifs at h ⊢
  split at h
  · cases h
  split_ifs at h ⊢
  exact hpeers

/-- What a list of peers in an accepted configuration satisfies. -/
structure NetSyntax.ValidPeers (lib : NetSyntax) (peers : List WGPeer) : Prop where
  ipv6 : ∀ p ∈ peers, ∀ n ∈ lib.nets p.allowedIPs, lib.IsIPv6Net n
  disjoint : ∀ p ∈ peers, ∀ p' ∈ peers, ∀ n ∈ lib.nets p.allowedIPs,
    n ∈ lib.nets p'.allowedIPs → p = p'

theorem validPeers_of_validate {c : WireGuardConfig} (h : c.validate lib = .ok ()) :
    lib.ValidPeers c.peers := by
  obtain ⟨hv6, hnodup, -⟩ := validatePeers_ok (validatePeers_of_validate h)
  refine ⟨hv6, fun p hp p' hp' n hn hn' => ?_⟩
  by_contra hne
  obtain ⟨-, hpairwise⟩ := List.nodup_flatMap.mp hnodup
  have hsymm : Std.Symm (Function.onFun List.Disjoint fun p : WGPeer => lib.norms p.allowedIPs) :=
    ⟨fun _ _ h => h.symm⟩
  exact hpairwise.forall hp hp' hne (List.mem_map_of_mem hn) (List.mem_map_of_mem hn')

end Validate

/-! ## The maps of `wireGuardPeerDiff` -/

section Diff

variable (lib : NetSyntax)

/-- The loop over the allowed IPs of a peer, as `EnsureWireGuard` and
`runtimeWGPeersByKey` have it. -/
def parseAllowedIPs (name : String) : List String → Except Err (List lib.IPNet)
  | [] => .ok []
  | cidr :: rest =>
      match lib.parseCIDR cidr with
      | .error e => .error (.msg ("peer " ++ lib.quote name ++ " allowed_ips: " ++ e))
      | .ok (_, allowedIP) =>
          match parseAllowedIPs name rest with
          | .error e => .error e
          | .ok allowedIPs => .ok (allowedIP :: allowedIPs)

/-- `runtimeWGPeer`. -/
structure RuntimeWGPeer where
  name : String
  publicKey : lib.Key
  allowedIPs : List lib.IPNet
  allowedIPKeyParts : List String

/-- The loop of `runtimeWGPeersByKey`; `out` is the map so far. -/
def addRuntimeWGPeers (out : List (String × RuntimeWGPeer lib)) :
    List WGPeer → Except Err (List (String × RuntimeWGPeer lib))
  | [] => .ok out
  | peer :: rest =>
      match lib.parseKey peer.publicKey with
      | .error e => .error (.msg ("peer " ++ lib.quote peer.name ++ " public key: " ++ e))
      | .ok publicKey =>
          match out.lookup (lib.keyString publicKey) with
          | some existing =>
              .error (.msg ("wireguard peer " ++ lib.quote peer.name ++
                " duplicates public key for peer " ++ lib.quote existing.name))
          | none =>
              match parseAllowedIPs lib peer.name peer.allowedIPs with
              | .error e => .error e
              | .ok allowedIPs =>
                  addRuntimeWGPeers
                    (out ++ [(lib.keyString publicKey,
                      { name := peer.name
                        publicKey := publicKey
                        allowedIPs := allowedIPs
                        allowedIPKeyParts :=
                          (allowedIPs.map lib.netString).insertionSort (· ≤ ·) })])
                    rest

/-- `runtimeWGPeersByKey`. -/
def runtimeWGPeersByKey (peers : List WGPeer) : Except Err (List (String × RuntimeWGPeer lib)) :=
  addRuntimeWGPeers lib [] peers

/-- `sameStringSet`. -/
def sameStringSet (a b : List String) : Bool :=
  if a.length ≠ b.length then false else (a.zip b).all fun p => p.1 == p.2

/-- An order in which a map may be iterated. -/
structure MapOrder (α : Type) where
  order : List α → List α
  perm : ∀ entries, (order entries).Perm entries

/-- `wireGuardPeerDiffSummary`. -/
structure WireGuardPeerDiffSummary where
  added : Nat := 0
  updated : Nat := 0
  removed : Nat := 0
  deriving DecidableEq, Repr

/-- The list that `wireGuardPeerDiff` builds, and its summary. -/
abbrev PeerDiff := List (PeerConfig lib.Key lib.IPNet) × WireGuardPeerDiffSummary

variable {lib}

/-- The configuration that adds or updates a peer. -/
def RuntimeWGPeer.config (peer : RuntimeWGPeer lib) : PeerConfig lib.Key lib.IPNet :=
  PeerConfig.assign (peer.publicKey, peer.allowedIPs)

/-- The body of the first loop of `wireGuardPeerDiff`. -/
def diffOld (newByKey : List (String × RuntimeWGPeer lib)) (acc : PeerDiff lib)
    (entry : String × RuntimeWGPeer lib) : PeerDiff lib :=
  match newByKey.lookup entry.1 with
  | some _ => acc
  | none =>
      (acc.1 ++ [{ publicKey := entry.2.publicKey, remove := true }],
        { acc.2 with removed := acc.2.removed + 1 })

/-- The body of the second loop of `wireGuardPeerDiff`. -/
def diffNew (oldByKey : List (String × RuntimeWGPeer lib)) (acc : PeerDiff lib)
    (entry : String × RuntimeWGPeer lib) : PeerDiff lib :=
  match oldByKey.lookup entry.1 with
  | none => (acc.1 ++ [entry.2.config], { acc.2 with added := acc.2.added + 1 })
  | some oldPeer =>
      if sameStringSet oldPeer.allowedIPKeyParts entry.2.allowedIPKeyParts = false then
        (acc.1 ++ [entry.2.config], { acc.2 with updated := acc.2.updated + 1 })
      else acc

/-- `wireGuardPeerDiff`; `order` and `order'` are the orders of its two
loops. -/
def wireGuardPeerDiff (order order' : MapOrder (String × RuntimeWGPeer lib))
    (oldPeers newPeers : List WGPeer) : Except Err (PeerDiff lib) :=
  match runtimeWGPeersByKey lib oldPeers with
  | .error e => .error e
  | .ok oldByKey =>
      match runtimeWGPeersByKey lib newPeers with
      | .error e => .error e
      | .ok newByKey =>
          .ok ((order'.order newByKey).foldl (diffNew oldByKey)
            ((order.order oldByKey).foldl (diffOld newByKey) ([], {})))

/-- The peers that `EnsureWireGuard` configures. -/
def ensureWireGuardPeers : List WGPeer → Except Err (List (PeerConfig lib.Key lib.IPNet))
  | [] => .ok []
  | peer :: rest =>
      match lib.parseKey peer.publicKey with
      | .error e => .error (.msg ("peer " ++ lib.quote peer.name ++ " public key: " ++ e))
      | .ok publicKey =>
          match parseAllowedIPs lib peer.name peer.allowedIPs with
          | .error e => .error e
          | .ok allowedIPs =>
              match ensureWireGuardPeers rest with
              | .error e => .error e
              | .ok peers =>
                  .ok (PeerConfig.assign (publicKey, allowedIPs) :: peers)

theorem parseAllowedIPs_ok {name : String} {cidrs : List String} {allowedIPs : List lib.IPNet}
    (h : parseAllowedIPs lib name cidrs = .ok allowedIPs) : allowedIPs = lib.nets cidrs := by
  induction cidrs generalizing allowedIPs with
  | nil =>
    simp only [parseAllowedIPs, Except.ok.injEq] at h
    simp [← h, NetSyntax.nets]
  | cons cidr rest ih =>
    simp only [parseAllowedIPs] at h
    split at h
    · cases h
    · rename_i ip allowedIP hparse
      split at h
      · cases h
      · rename_i tail htail
        simp only [Except.ok.injEq] at h
        rw [← h, NetSyntax.nets_cons_ok _ hparse, ih htail]

/-- The map of a list of peers: its entries are the peers of the list under
the text of their keys, and no text occurs twice. -/
structure NetSyntax.Entries (lib : NetSyntax) (m : List (String × RuntimeWGPeer lib))
    (table : List (lib.Key × List lib.IPNet)) : Prop where
  entries : m.map (fun e => (e.2.publicKey, e.2.allowedIPs)) = table
  key : ∀ e ∈ m, e.1 = lib.keyString e.2.publicKey
  parts : ∀ e ∈ m,
    e.2.allowedIPKeyParts = (e.2.allowedIPs.map lib.netString).insertionSort (· ≤ ·)
  keys : (m.map Prod.fst).Nodup

theorem NetSyntax.Entries.nil (lib : NetSyntax) : lib.Entries [] [] :=
  ⟨rfl, by simp, by simp, by simp⟩

theorem addRuntimeWGPeers_ok {peers : List WGPeer} {out m : List (String × RuntimeWGPeer lib)}
    {table : List (lib.Key × List lib.IPNet)} (hout : lib.Entries out table)
    (h : addRuntimeWGPeers lib out peers = .ok m) :
    lib.Entries m (table ++ lib.table peers) := by
  induction peers generalizing out table with
  | nil =>
    obtain rfl : out = m := by simpa [addRuntimeWGPeers] using h
    simpa [NetSyntax.table] using hout
  | cons peer rest ih =>
    simp only [addRuntimeWGPeers] at h
    split at h
    · cases h
    rename_i publicKey hkey
    split at h
    · cases h
    rename_i hfresh
    split at h
    · cases h
    rename_i allowedIPs hips
    rw [lookup_eq_none_iff] at hfresh
    obtain rfl := parseAllowedIPs_ok hips
    rw [NetSyntax.table_cons_ok hkey, List.append_cons]
    refine ih ?_ h
    constructor
    · simp [hout.entries]
    · simp only [List.mem_append, List.mem_singleton]
      rintro e (he | rfl)
      · exact hout.key e he
      · rfl
    · simp only [List.mem_append, List.mem_singleton]
      rintro e (he | rfl)
      · exact hout.parts e he
      · rfl
    · rw [List.map_append, List.nodup_append]
      refine ⟨hout.keys, by simp, ?_⟩
      simp only [List.map_cons, List.map_nil, List.mem_singleton, List.mem_map]
      rintro x ⟨e, he, rfl⟩ y rfl
      exact hfresh e he

theorem runtimeWGPeersByKey_ok {peers : List WGPeer} {m : List (String × RuntimeWGPeer lib)}
    (h : runtimeWGPeersByKey lib peers = .ok m) : lib.Entries m (lib.table peers) :=
  addRuntimeWGPeers_ok (.nil lib) h

/-! ## What the difference does -/

theorem sameStringSet_iff {a b : List String} : sameStringSet a b = true ↔ a = b := by
  unfold sameStringSet
  split
  · rename_i hlen
    simp only [Bool.false_eq_true, false_iff]
    exact fun h => hlen (congrArg List.length h)
  · rename_i hlen
    rw [← List.forall₂_eq_eq_eq, List.forall₂_iff_zip]
    simp [not_not.mp hlen]

/-- The peer is new, or its allowed IPs are not those it had. -/
def changed (oldByKey : List (String × RuntimeWGPeer lib)) (entry : String × RuntimeWGPeer lib) :
    Bool :=
  match oldByKey.lookup entry.1 with
  | none => true
  | some oldPeer => !sameStringSet oldPeer.allowedIPKeyParts entry.2.allowedIPKeyParts

theorem foldl_diffOld (newByKey es : List (String × RuntimeWGPeer lib)) (acc : PeerDiff lib) :
    (es.foldl (diffOld newByKey) acc).1 =
      acc.1 ++ (es.filter fun e => (newByKey.lookup e.1).isNone).map
        fun e => { publicKey := e.2.publicKey, remove := true } := by
  induction es generalizing acc with
  | nil => simp
  | cons e es ih =>
    rw [List.foldl_cons, ih, List.filter_cons, diffOld]
    cases newByKey.lookup e.1 with
    | none | some peer => simp

theorem foldl_diffNew (oldByKey es : List (String × RuntimeWGPeer lib)) (acc : PeerDiff lib) :
    (es.foldl (diffNew oldByKey) acc).1 =
      acc.1 ++ (es.filter (changed oldByKey)).map fun e => e.2.config := by
  induction es generalizing acc with
  | nil => simp
  | cons e es ih =>
    rw [List.foldl_cons, ih, List.filter_cons, diffNew, changed]
    cases oldByKey.lookup e.1 with
    | none => simp
    | some peer =>
      by_cases hsame : sameStringSet peer.allowedIPKeyParts e.2.allowedIPKeyParts = false
      · simp [hsame]
      · simp [hsame]

theorem mem_of_lookup {V : Type} {m : List (String × V)} {k : String} {v : V}
    (h : m.lookup k = some v) : (k, v) ∈ m := by
  induction m with
  | nil => cases h
  | cons e m ih =>
    rw [List.lookup_cons] at h
    split at h
    · rename_i hk
      cases h
      obtain rfl := beq_iff_eq.mp hk
      exact List.mem_cons_self
    · exact List.mem_cons_of_mem _ (ih h)

namespace NetSyntax.Entries

variable {m : List (String × RuntimeWGPeer lib)} {table : List (lib.Key × List lib.IPNet)}

theorem mem_iff (h : lib.Entries m table) {k : lib.Key} {as : List lib.IPNet} :
    (k, as) ∈ table ↔ ∃ e ∈ m, e.2.publicKey = k ∧ e.2.allowedIPs = as := by
  simp only [← h.entries, List.mem_map, Prod.mk.injEq]

/-- A peer is found under the text of its key. -/
theorem lookup_eq_none (h : lib.Entries m table) {k : lib.Key} :
    m.lookup (lib.keyString k) = none ↔ ¬ ∃ as, (k, as) ∈ table := by
  rw [lookup_eq_none_iff]
  constructor
  · rintro hno ⟨as, has⟩
    obtain ⟨e, he, rfl, -⟩ := h.mem_iff.mp has
    exact hno e he (h.key e he)
  · rintro hno e he heq
    refine hno ⟨e.2.allowedIPs, h.mem_iff.mpr ⟨e, he, ?_, rfl⟩⟩
    exact lib.keyString_injective ((h.key e he).symm.trans heq)

theorem table_keys (h : lib.Entries m table) : (table.map Prod.fst).Nodup := by
  refine List.Nodup.of_map lib.keyString ?_
  have hfst : (table.map Prod.fst).map lib.keyString = m.map Prod.fst := by
    rw [← h.entries, List.map_map, List.map_map]
    exact List.map_congr_left fun e he => (h.key e he).symm
  rw [hfst]
  exact h.keys

end NetSyntax.Entries

/-- The same sorted texts are the texts of the same networks. -/
theorem mem_iff_of_parts_eq {as as' : List lib.IPNet} (h : ∀ n ∈ as, lib.IsIPv6Net n)
    (h' : ∀ n ∈ as', lib.IsIPv6Net n)
    (heq : (as.map lib.netString).insertionSort (· ≤ ·) =
      (as'.map lib.netString).insertionSort (· ≤ ·)) (a : lib.IPNet) : a ∈ as ↔ a ∈ as' := by
  have hperm : (as.map lib.netString).Perm (as'.map lib.netString) :=
    (List.perm_insertionSort (· ≤ ·) _).symm.trans (heq ▸ List.perm_insertionSort (· ≤ ·) _)
  constructor
  · intro ha
    obtain ⟨a', ha', hs⟩ := List.mem_map.mp (hperm.subset (List.mem_map_of_mem ha))
    rwa [← (h' a' ha').eq (h a ha) hs]
  · intro ha
    obtain ⟨a', ha', hs⟩ := List.mem_map.mp (hperm.symm.subset (List.mem_map_of_mem ha))
    rwa [← (h a' ha').eq (h' a ha) hs]

/-- No key and no allowed IP occurs twice among the peers of a valid list. -/
theorem distinct_table {peers : List WGPeer} {m : List (String × RuntimeWGPeer lib)}
    (h : lib.Entries m (lib.table peers)) (hvalid : lib.ValidPeers peers) :
    Device.Distinct (lib.table peers) := by
  constructor
  · intro k as as' has has'
    have := List.inj_on_of_nodup_map h.table_keys has has' rfl
    exact congrArg Prod.snd this
  · intro k k' as as' a has has' ha ha'
    obtain ⟨p, hp, hk, rfl⟩ := NetSyntax.mem_table.mp has
    obtain ⟨p', hp', hk', rfl⟩ := NetSyntax.mem_table.mp has'
    obtain rfl := hvalid.disjoint p hp p' hp' a ha ha'
    exact Except.ok.inj (hk.symm.trans hk')

theorem ipv6_table {peers : List WGPeer} (hvalid : lib.ValidPeers peers) {k : lib.Key}
    {as : List lib.IPNet} (has : (k, as) ∈ lib.table peers) : ∀ n ∈ as, lib.IsIPv6Net n := by
  obtain ⟨p, hp, -, rfl⟩ := NetSyntax.mem_table.mp has
  exact hvalid.ipv6 p hp

/-- The difference is one that leads from the old peers to the new ones. -/
theorem reconciles_diff {old new : List WGPeer}
    {oldByKey newByKey : List (String × RuntimeWGPeer lib)}
    (hold : lib.Entries oldByKey (lib.table old)) (hnew : lib.Entries newByKey (lib.table new))
    (hvalid : lib.ValidPeers old) (hvalid' : lib.ValidPeers new)
    {es es' : List (String × RuntimeWGPeer lib)} (hes : es.Perm oldByKey)
    (hes' : es'.Perm newByKey) :
    Device.Reconciles (lib.table old) (lib.table new)
      ((es.filter fun e => (newByKey.lookup e.1).isNone).map
        fun e => { publicKey := e.2.publicKey, remove := true })
      ((es'.filter (changed oldByKey)).map fun e => e.2.config) := by
  constructor
  case remove =>
    intro c hc
    obtain ⟨e, -, rfl⟩ := List.mem_map.mp hc
    rfl
  case removed =>
    intro k
    rw [← hnew.lookup_eq_none, ← Option.isNone_iff_eq_none]
    constructor
    · rintro ⟨c, hc, rfl⟩
      obtain ⟨e, he, rfl⟩ := List.mem_map.mp hc
      obtain ⟨he, hnone⟩ := List.mem_filter.mp he
      have hin := hes.subset he
      rw [hold.key e hin] at hnone
      exact ⟨⟨_, hold.mem_iff.mpr ⟨e, hin, rfl, rfl⟩⟩, hnone⟩
    · rintro ⟨⟨as, has⟩, hnone⟩
      obtain ⟨e, he, rfl, -⟩ := hold.mem_iff.mp has
      rw [← hold.key e he] at hnone
      exact ⟨_, List.mem_map_of_mem (List.mem_filter.mpr ⟨hes.symm.subset he, hnone⟩), rfl⟩
  case update =>
    intro c hc
    obtain ⟨e, -, rfl⟩ := List.mem_map.mp hc
    exact ⟨rfl, rfl⟩
  case keys =>
    -- The keys are those of entries of the map, whose texts are all different.
    refine List.Nodup.of_map lib.keyString ?_
    have htexts : (((es'.filter (changed oldByKey)).map fun e => e.2.config).map
        (·.publicKey)).map lib.keyString = (es'.filter (changed oldByKey)).map Prod.fst := by
      rw [List.map_map, List.map_map]
      refine List.map_congr_left fun e he => ?_
      exact (hnew.key e (hes'.subset (List.mem_filter.mp he).1)).symm
    rw [htexts]
    exact ((hes'.map Prod.fst).nodup_iff.mpr hnew.keys).sublist (List.filter_sublist.map _)
  case updated =>
    intro c hc
    obtain ⟨e, he, rfl⟩ := List.mem_map.mp hc
    exact hnew.mem_iff.mpr ⟨e, hes'.subset (List.mem_filter.mp he).1, rfl, rfl⟩
  case kept =>
    intro k as has
    obtain ⟨e, he, rfl, rfl⟩ := hnew.mem_iff.mp has
    by_cases hchanged : changed oldByKey e = true
    · have hmem := List.mem_filter.mpr ⟨hes'.symm.subset he, hchanged⟩
      exact .inl ⟨_, List.mem_map_of_mem hmem, rfl⟩
    · right
      unfold changed at hchanged
      split at hchanged
      · exact absurd rfl hchanged
      rename_i oldPeer hlookup
      have hin := mem_of_lookup hlookup
      have hsame := sameStringSet_iff.mp (by simpa using hchanged)
      have hkey : oldPeer.publicKey = e.2.publicKey :=
        lib.keyString_injective ((hold.key _ hin).symm.trans (hnew.key e he))
      have hin' : (e.2.publicKey, oldPeer.allowedIPs) ∈ lib.table old :=
        hold.mem_iff.mpr ⟨_, hin, hkey, rfl⟩
      rw [hold.parts _ hin, hnew.parts e he] at hsame
      exact ⟨_, hin', mem_iff_of_parts_eq (ipv6_table hvalid hin') (ipv6_table hvalid' has) hsame⟩

/-- What `EnsureWireGuard` configures is the list of the peers. -/
theorem ensureWireGuardPeers_of_entries {peers : List WGPeer}
    {out m : List (String × RuntimeWGPeer lib)} (h : addRuntimeWGPeers lib out peers = .ok m) :
    ensureWireGuardPeers peers = .ok ((lib.table peers).map PeerConfig.assign) := by
  induction peers generalizing out with
  | nil => rfl
  | cons peer rest ih =>
    simp only [addRuntimeWGPeers] at h
    split at h
    · cases h
    rename_i publicKey hkey
    split at h
    · cases h
    split at h
    · cases h
    rename_i allowedIPs hips
    simp only [ensureWireGuardPeers, hkey, hips, ih h]
    rw [NetSyntax.table_cons_ok hkey, parseAllowedIPs_ok hips]
    rfl

theorem wireGuardPeerDiff_ok {order order' : MapOrder (String × RuntimeWGPeer lib)}
    {old new : List WGPeer} {diff : PeerDiff lib}
    (h : wireGuardPeerDiff order order' old new = .ok diff) :
    ∃ oldByKey newByKey, runtimeWGPeersByKey lib old = .ok oldByKey ∧
      runtimeWGPeersByKey lib new = .ok newByKey ∧
      diff.1 = ((order.order oldByKey).filter fun e => (newByKey.lookup e.1).isNone).map
          (fun e => { publicKey := e.2.publicKey, remove := true }) ++
        ((order'.order newByKey).filter (changed oldByKey)).map fun e => e.2.config := by
  simp only [wireGuardPeerDiff] at h
  split at h
  · cases h
  rename_i oldByKey hold
  split at h
  · cases h
  rename_i newByKey hnew
  refine ⟨oldByKey, newByKey, hold, hnew, ?_⟩
  rw [← Except.ok.inj h, foldl_diffNew, foldl_diffOld, List.nil_append]

/-- What `EnsureWireGuard` leaves on any device. -/
theorem ensure_holds {peers : List WGPeer} {m : List (String × RuntimeWGPeer lib)}
    (hvalid : lib.ValidPeers peers) (hrun : runtimeWGPeersByKey lib peers = .ok m) :
    ∃ installed, ensureWireGuardPeers peers = .ok installed ∧
      ∀ d₀ : Device lib.Key lib.IPNet,
        (d₀.configureDevice true installed).Holds (lib.table peers) := by
  have hentries := runtimeWGPeersByKey_ok hrun
  have hdistinct := distinct_table hentries hvalid
  exact ⟨_, ensureWireGuardPeers_of_entries hrun,
    Device.holds_install hentries.table_keys hdistinct⟩

/-- What the difference leaves on a device that holds the old peers. -/
theorem diff_holds {order order' : MapOrder (String × RuntimeWGPeer lib)} {old new : List WGPeer}
    (hvalid : lib.ValidPeers old) (hvalid' : lib.ValidPeers new) {diff : PeerDiff lib}
    (hdiff : wireGuardPeerDiff order order' old new = .ok diff)
    {d : Device lib.Key lib.IPNet} (hd : d.Holds (lib.table old)) :
    (d.configureDevice false diff.1).Holds (lib.table new) := by
  obtain ⟨oldByKey, newByKey, hrun, hrun', hcfgs⟩ := wireGuardPeerDiff_ok hdiff
  have hentries := runtimeWGPeersByKey_ok hrun
  have hentries' := runtimeWGPeersByKey_ok hrun'
  have hrec := reconciles_diff hentries hentries' hvalid hvalid' (order.perm oldByKey)
    (order'.perm newByKey)
  change (d.configureAll diff.1).Holds _
  rw [hcfgs]
  exact hrec.holds (distinct_table hentries hvalid) (distinct_table hentries' hvalid') hd

/-- The difference of two valid lists leads a device that holds the old peers,
in any order of the two maps, to the state that `EnsureWireGuard` installs for
the new ones. -/
theorem diff_installs_new (order order' : MapOrder (String × RuntimeWGPeer lib))
    {old new : WireGuardConfig} (hold : old.validate lib = .ok ())
    (hnew : new.validate lib = .ok ()) {diff : PeerDiff lib}
    (hdiff : wireGuardPeerDiff order order' old.peers new.peers = .ok diff)
    {d : Device lib.Key lib.IPNet} (hd : d.Holds (lib.table old.peers)) :
    (d.configureDevice false diff.1).Holds (lib.table new.peers) ∧
      ∃ installed, ensureWireGuardPeers new.peers = .ok installed ∧
        ∀ d₀ : Device lib.Key lib.IPNet,
          d₀.configureDevice true installed = d.configureDevice false diff.1 := by
  have hvalid' := validPeers_of_validate hnew
  have hholds := diff_holds (validPeers_of_validate hold) hvalid' hdiff hd
  obtain ⟨-, newByKey, -, hrun, -⟩ := wireGuardPeerDiff_ok hdiff
  obtain ⟨installed, hinstalled, hinstall⟩ := ensure_holds hvalid' hrun
  exact ⟨hholds, installed, hinstalled, fun d₀ => (hinstall d₀).eq hholds⟩

end Diff

/-! ## Two peers that swap their addresses -/

/-- Keys and networks whose texts stand for themselves, where an address with
a dot is IPv4. -/
def plainNetSyntax : NetSyntax where
  Key := String
  IP := String
  IPNet := String
  parseKey s := if s.toList.length = 44 then .ok s else .error "wgtypes: incorrect key size"
  keyString := id
  keyString_injective := Function.injective_id
  parseCIDR s :=
    if s.toList.contains '/' then .ok (s, s) else .error ("invalid CIDR address: " ++ s)
  isIPv4 s := s.toList.contains '.'
  netString := id
  netString_injective _ _ _ _ h := h
  quote s := "\"" ++ s ++ "\""

/-- A configuration of two peers with the given addresses. -/
def twoPeers (ip ip' : String) : WireGuardConfig where
  interface := "fdwg0"
  listenPort := 51820
  address := "fd7a:115c:a1e1::1/64"
  endpoint := ""
  privateKeyFile := "/etc/firedoze/wg.key"
  peers :=
    [⟨"ada", "AAAAAAAAAAAAAAAAAAAAAAAAAAAAAAAAAAAAAAAAAAA=", [ip]⟩,
     ⟨"bob", "BBBBBBBBBBBBBBBBBBBBBBBBBBBBBBBBBBBBBBBBBBA=", [ip']⟩]

/-- The order of the list, and the order from its end. -/
def forwardOrder {α : Type} : MapOrder α := ⟨id, fun _ => .refl _⟩

def backwardOrder {α : Type} : MapOrder α := ⟨List.reverse, List.reverse_perm⟩

/-- The call succeeds with an answer that passes the test. -/
def succeedsWith {α : Type} (p : α → Bool) : Except Err α → Bool
  | .ok a => p a
  | .error _ => false

theorem exists_of_succeedsWith {α : Type} {p : α → Bool} {x : Except Err α}
    (h : succeedsWith p x = true) : ∃ a, x = .ok a ∧ p a = true := by
  cases x with
  | error e => cases h
  | ok a => exact ⟨a, rfl, h⟩

/-- Each of two peers takes over the address of the other one. -/
theorem diff_installs_new_swap :
    ∃ d : Device plainNetSyntax.Key plainNetSyntax.IPNet,
      d.Holds (plainNetSyntax.table (twoPeers "fd7a::2/128" "fd7a::3/128").peers) ∧
      ∃ diff, wireGuardPeerDiff forwardOrder backwardOrder
          (twoPeers "fd7a::2/128" "fd7a::3/128").peers
          (twoPeers "fd7a::3/128" "fd7a::2/128").peers = .ok diff ∧
        diff.2 = { updated := 2 } ∧
        (d.configureDevice false diff.1).Holds
          (plainNetSyntax.table (twoPeers "fd7a::3/128" "fd7a::2/128").peers) := by
  have hold : (twoPeers "fd7a::2/128" "fd7a::3/128").validate plainNetSyntax = .ok () := by
    decide
  have hnew : (twoPeers "fd7a::3/128" "fd7a::2/128").validate plainNetSyntax = .ok () := by
    decide
  obtain ⟨m, hrun, -⟩ : ∃ m, runtimeWGPeersByKey plainNetSyntax
      (twoPeers "fd7a::2/128" "fd7a::3/128").peers = .ok m ∧ true = true :=
    exists_of_succeedsWith (p := fun _ => true) (by decide)
  obtain ⟨installed, -, hinstall⟩ := ensure_holds (validPeers_of_validate hold) hrun
  obtain ⟨diff, hdiff, htwo⟩ := exists_of_succeedsWith
    (x := @wireGuardPeerDiff plainNetSyntax forwardOrder backwardOrder
      (twoPeers "fd7a::2/128" "fd7a::3/128").peers (twoPeers "fd7a::3/128" "fd7a::2/128").peers)
    (p := fun diff : PeerDiff plainNetSyntax => decide (diff.2 = { updated := 2 }))
    (by decide)
  refine ⟨_, hinstall Device.empty, diff, hdiff, of_decide_eq_true htwo, ?_⟩
  exact (diff_installs_new forwardOrder backwardOrder hold hnew hdiff (hinstall _)).1

end Firedoze
