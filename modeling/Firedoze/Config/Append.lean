import Firedoze.Config.Load
import Firedoze.Net.CIDR
import Firedoze.Toml.Quote

/-!
# Appending a peer to the configuration file

`NewPeerSetup` makes a peer for a configuration, and `AppendPeer` writes it
behind the text of the file: it renders the peer with the quotes of Go, writes
a temporary file, loads that file and renames it.

* `scan_appended`: what TOML reads in the new text.
* `unmarshal_appended` and `firewall_appended`: what the two calls of
  `toml.Unmarshal` make of it.
* `appendPeer_keeps_config`: when the file is left alone or has the old
  configuration with the peer.

The old peers are lost if the file gives them under a key that differs from
`wireguard.peers` in case: `toml.Unmarshal` puts both arrays into one field,
and clears the field where the second array begins.
-/

namespace Firedoze.ConfigFile

open Toml Text Net

/-- The functions that a peer is made and written with.  `isPrint` is
`strconv.IsPrint`, `isSingle` says that the mask of a network is as long as
its address, `parseSubnet` is `net.ParseCIDR`, with addresses as numbers, and
`ipString` is `IP.String`. -/
structure PeerLib extends ConfigLib where
  isPrint : Char → Bool
  isSingle : net.IPNet → Bool
  parseSubnet : String → Except String CIDR
  ipString : Nat → String
  isPrint_control : ∀ c, isPrint c = true → 32 ≤ c.toNat ∧ c.toNat ≠ 127
  parse_netString : ∀ {s : String} {ip : net.IP} {n : net.IPNet}, net.parseCIDR s = .ok (ip, n) →
    net.isIPv4 ip = false → isSingle n = true →
    ∃ ip' n', net.parseCIDR (net.netString n) = .ok (ip', n') ∧ net.isIPv4 ip' = false

/-- A peer that is to be appended.  Its name is any string of Go. -/
structure NewPeer where
  name : GoString
  publicKey : String
  allowedIPs : List String
  deriving DecidableEq

section Peer

variable (L : PeerLib)

/-! ## `NewPeerSetup` -/

/-- The check of the peers that are there. -/
def checkOtherPeers (name : GoString) (publicKey allowedIP : String) :
    List WGPeer → Except Err Unit
  | [] => .ok ()
  | peer :: rest =>
      if goString peer.name = name then
        .error (.msg ("wireguard peer " ++ String.ofList (quote L.isPrint name) ++
          " already exists"))
      else if peer.publicKey = publicKey then
        .error (.msg ("wireguard peer " ++ L.net.quote peer.name ++
          " already uses that public key"))
      else if peer.allowedIPs.any fun s =>
          match L.net.parseCIDR s with
          | .error _ => false
          | .ok (_, n) => L.net.netString n == allowedIP then
        .error (.msg ("wireguard peer " ++ L.net.quote peer.name ++ " already uses " ++ allowedIP))
      else checkOtherPeers name publicKey allowedIP rest

/-- `addToIP`. -/
def addToIP (ip offset : Nat) : Except String Nat :=
  if 2 ^ 128 ≤ ip + offset then
    .error ("IP offset " ++ toString offset ++ " overflows " ++ L.ipString ip)
  else .ok (ip + offset)

/-- The map `used`: the address of the server and the single addresses of the
peers. -/
def usedIPs (server : CIDR) (peers : List WGPeer) : List String :=
  L.ipString server.ip :: (peers.flatMap WGPeer.allowedIPs).filterMap fun allowedIP =>
    match L.parseSubnet allowedIP with
    | .error _ => none
    | .ok c => if c.bits ≠ 128 ∨ (to4 c.ip).isSome then none else some (L.ipString c.ip)

/-- The loop from an offset on, with as many rounds as there are offsets left.
There are fewer peers than the 64 bits of the offset can count. -/
def findPeerIP (address : String) (network : Nat) (used : List String) :
    Nat → Nat → Except String String
  | 0, _ => .error ("no free wireguard peer addresses in " ++ address)
  | left + 1, offset =>
      match addToIP L network offset with
      | .error e => .error e
      | .ok candidate =>
          if L.ipString candidate ∈ used then findPeerIP address network used left (offset + 1)
          else .ok (L.ipString candidate ++ "/128")

/-- `nextPeerAllowedIP`. -/
def nextPeerAllowedIP (cfg : Config) : Except String String :=
  match L.parseSubnet (cfg.settings.text .address) with
  | .error e => .error ("wireguard.address must be CIDR: " ++ e)
  | .ok server =>
      if (to4 server.ip).isSome then
        .error "automatic peer addresses require an IPv6 wireguard.address"
      else if 126 < server.bits then
        .error "wireguard.address subnet is too small for automatic peer addresses"
      else
        findPeerIP L (cfg.settings.text .address) server.network (usedIPs L server cfg.peers)
          (server.size - 1) 1

/-- The given address, or the next free one. -/
def chooseAllowedIP (cfg : Config) (allowedIP : String) : Except Err String :=
  if allowedIP = "" then (nextPeerAllowedIP L cfg).mapError Err.msg else .ok allowedIP

/-- The allowed IP of a new peer, in the form of `ipNet.String()`. -/
def normalizeAllowedIP (allowedIP : String) : Except Err String :=
  match L.net.parseCIDR allowedIP with
  | .error e => .error (.msg ("allowed IP must be CIDR: " ++ e))
  | .ok (ip, n) =>
      if L.isSingle n = false then
        .error (.msg "allowed IP must be a single client address, such as fd7a:115c:a1e1::2/128")
      else if L.net.isIPv4 ip then .error (.msg "allowed IP must be IPv6")
      else .ok (L.net.netString n)

/-- `NewPeerSetup`, up to the text for the client.  `serverKey` is the error of
`ensureServerPrivateKey`. -/
def newPeerSetup (cfg : Config) (name : GoString) (publicKey allowedIP : String)
    (serverKey : Except Err Unit) : Except Err NewPeer :=
  if name = [] then .error (.msg "peer name is required")
  else if publicKey = "" then .error (.msg "peer public key is required")
  else
    match L.net.parseKey publicKey with
    | .error e => .error (.msg ("peer public key: " ++ e))
    | .ok _ => do
        let allowedIP ← chooseAllowedIP L cfg allowedIP
        let allowedIP ← normalizeAllowedIP L allowedIP
        checkOtherPeers L name publicKey allowedIP cfg.peers
        serverKey
        -- `peerConfig` prints the address of the server.
        match L.net.parseCIDR (cfg.settings.text .address) with
        | .error e => .error (.msg ("wireguard.address must be CIDR: " ++ e))
        | .ok _ => .ok ⟨name, publicKey, [allowedIP]⟩

/-! ## `AppendPeer` -/

/-- A string in quotes. -/
def quoted (s : String) : List Char := quote L.isPrint (goString s)

/-- `renderPeerTOML`. -/
def renderPeerTOML (peer : NewPeer) : List Char :=
  "\n[[wireguard.peers]]\nname = ".toList ++ quote L.isPrint peer.name ++
    "\npublic_key = ".toList ++ quoted L peer.publicKey ++
    "\nallowed_ips = [".toList ++ ", ".toList.intercalate (peer.allowedIPs.map (quoted L)) ++
    "]\n".toList

/-- The text of the new file. -/
def appended (text : List Char) (peer : NewPeer) : List Char :=
  (if text ≠ [] ∧ text.getLast? ≠ some '\n' then text ++ ['\n'] else text) ++
    renderPeerTOML L peer

/-- The calls of `AppendPeer` that can fail. -/
inductive AppendCall
  | readFile
  | stat
  | createTemp
  | write
  | chmod
  | close
  | readTemp
  | rename
  deriving DecidableEq, Repr

/-- `AppendPeer`, and the file after it.  The temporary file is loaded before
it is renamed. -/
def appendPeer (fails : AppendCall → Bool) (text : List Char) (peer : NewPeer) :
    Except Err Unit × List Char :=
  if fails .readFile ∨ fails .stat ∨ fails .createTemp ∨ fails .write ∨ fails .chmod ∨
      fails .close ∨ fails .readTemp then
    (.error .io, text)
  else
    match load L.toConfigLib (appended L text peer) with
    | .error _ => (.error (.msg "validate updated config"), text)
    | .ok _ => if fails .rename then (.error .io, text) else (.ok (), appended L text peer)

end Peer

/-! ## What a new peer satisfies -/

section Setup

variable {L : PeerLib} {cfg : Config} {name : GoString} {publicKey allowedIP : String}
  {serverKey : Except Err Unit} {peer : NewPeer}

theorem normalizeAllowedIP_ok {ip : String} (h : normalizeAllowedIP L allowedIP = .ok ip) :
    ∃ ip' n, L.net.parseCIDR ip = .ok (ip', n) ∧ L.net.isIPv4 ip' = false := by
  unfold normalizeAllowedIP at h
  split at h
  · cases h
  · rename_i ip₀ n hparse
    split at h
    · cases h
    · rename_i hsingle
      split at h
      · cases h
      · rename_i hv4
        cases h
        exact L.parse_netString hparse (by simpa using hv4) (by simpa using hsingle)

/-- A new peer has a name, a key and one address. -/
theorem newPeerSetup_ok (h : newPeerSetup L cfg name publicKey allowedIP serverKey = .ok peer) :
    peer.name ≠ [] ∧ peer.publicKey ≠ "" ∧ ∃ cidr, peer.allowedIPs = [cidr] ∧
      ∃ ip n, L.net.parseCIDR cidr = .ok (ip, n) ∧ L.net.isIPv4 ip = false := by
  unfold newPeerSetup at h
  split at h
  · cases h
  rename_i hname
  split at h
  · cases h
  rename_i hkey
  split at h
  · cases h
  · obtain ⟨allowed, -, h⟩ := bind_eq_ok.mp h
    obtain ⟨cidr, hcidr, h⟩ := bind_eq_ok.mp h
    obtain ⟨_, -, h⟩ := bind_eq_ok.mp h
    obtain ⟨_, -, h⟩ := bind_eq_ok.mp h
    split at h
    · cases h
    · cases h
      exact ⟨hname, hkey, cidr, rfl, normalizeAllowedIP_ok hcidr⟩

/-- A new peer is a valid list of peers. -/
theorem validate_single {p : WGPeer} {ip : L.net.IP} {n : L.net.IPNet} {cidr : String}
    (hcfg : cfg.wireGuard.validate L.net = .ok ()) (hname : p.name ≠ "") (hkey : p.publicKey ≠ "")
    (hips : p.allowedIPs = [cidr]) (hparse : L.net.parseCIDR cidr = .ok (ip, n))
    (hv4 : L.net.isIPv4 ip = false) :
    ({ cfg with peers := [p] } : Config).wireGuard.validate L.net = .ok () := by
  have hpeers : validatePeers L.net 0 [p] {} = .ok () := by
    simp [validatePeers, hname, hkey, hips, validateAllowedIPs, hparse, hv4]
  exact validate_of_validatePeers hcfg hpeers

end Setup

/-! ## What TOML reads in the new text -/

section Scan

variable {L : PeerLib} {text : List Char} {es : List Expr} {peer : NewPeer} {p : WGPeer}
  {cidr : String}

/-- The strings of a peer that TOML reads back. -/
def NewPeer.Readable (peer : NewPeer) : Prop :=
  peer.name.Readable ∧ (goString peer.publicKey).Readable ∧
    ∀ ip ∈ peer.allowedIPs, (goString ip).Readable

/-- A peer of the configuration that is the new one. -/
structure NewPeer.Is (peer : NewPeer) (p : WGPeer) : Prop where
  name : goString p.name = peer.name
  publicKey : p.publicKey = peer.publicKey
  allowedIPs : p.allowedIPs = peer.allowedIPs

/-- The expressions of a rendered peer. -/
def peerExprs (p : WGPeer) : List Expr :=
  [.arrayTable ["wireguard", "peers"], .keyValue ["name"] (.str p.name),
    .keyValue ["public_key"] (.str p.publicKey),
    .keyValue ["allowed_ips"] (.arr (p.allowedIPs.map .str))]

/-- The rendered peer without the line break in front. -/
def renderedLines (L : PeerLib) (name : GoString) (publicKey cidr : String) : List Char :=
  "[[wireguard.peers]]\nname = ".toList ++ '"' :: (name.flatMap (escape L.isPrint) ++ '"' :: '\n' ::
    ("public_key = ".toList ++ '"' :: ((goString publicKey).flatMap (escape L.isPrint) ++
      '"' :: '\n' :: ("allowed_ips = [".toList ++ '"' ::
        ((goString cidr).flatMap (escape L.isPrint) ++ '"' :: ']' :: ['\n'])))))

theorem renderPeerTOML_eq (hips : peer.allowedIPs = [cidr]) :
    renderPeerTOML L peer = '\n' :: renderedLines L peer.name peer.publicKey cidr := by
  have hheader : "\n[[wireguard.peers]]\nname = ".toList =
      '\n' :: "[[wireguard.peers]]\nname = ".toList := rfl
  have hkey : "\npublic_key = ".toList = '\n' :: "public_key = ".toList := rfl
  have hallowed : "\nallowed_ips = [".toList = '\n' :: "allowed_ips = [".toList := rfl
  have hend : "]\n".toList = [']', '\n'] := rfl
  unfold renderPeerTOML renderedLines quoted quote
  rw [hheader, hkey, hallowed, hend, hips]
  simp only [List.map_cons, List.map_nil, List.intercalate, List.intersperse_singleton,
    List.flatten_cons, List.flatten_nil, List.append_nil, List.append_assoc, List.cons_append,
    List.nil_append]

/-- A document that is continued with a rendered peer. -/
theorem scan_appended (hscan : scan L.bare text = some es) (hips : peer.allowedIPs = [cidr]) :
    scan L.bare (appended L text peer) =
      (run L.bare ⟨es, .start⟩ (renderedLines L peer.name peer.publicKey cidr)).bind
        (Toml.finish L.bare) := by
  have hstart : step L.bare ⟨es, .start⟩ '\n' = some ⟨es, .start⟩ := rfl
  unfold appended
  rw [renderPeerTOML_eq hips]
  split
  · rw [List.append_assoc, List.singleton_append, scan_append hscan, run_cons, hstart,
      Option.bind_some]
  · exact scan_append hscan

/-! The machine on the parts of a rendered peer. -/

theorem run_header : run L.bare ⟨es, .start⟩ "[[wireguard.peers]]\nname = ".toList =
    some ⟨es ++ [.arrayTable ["wireguard", "peers"]], .value (.top ["name"])⟩ := rfl

theorem run_publicKey : run L.bare ⟨es, .start⟩ "public_key = ".toList =
    some ⟨es, .value (.top ["public_key"])⟩ := rfl

theorem run_allowedIPs : run L.bare ⟨es, .start⟩ "allowed_ips = [".toList =
    some ⟨es, .array (.top ["allowed_ips"]) [] true .plain⟩ := rfl

theorem step_value {ctx : Toml.Ctx} : step L.bare ⟨es, .value ctx⟩ '"' =
    some ⟨es, .quoted ctx (.begun true true)⟩ := rfl

theorem step_item {ctx : Toml.Ctx} : step L.bare ⟨es, .array ctx [] true .plain⟩ '"' =
    some ⟨es, .quoted (.arr [] ctx) (.begun true true)⟩ := rfl

theorem separate_line {key : List String} {v : Value} : separate es (.top key) v '\n' =
    some ⟨es ++ [.keyValue key v], .start⟩ := rfl

theorem separate_item {key : List String} {v : Value} : separate es (.arr [] (.top key)) v ']' =
    some ⟨es ++ [.keyValue key (.arr [v])], .after⟩ := rfl

theorem run_lineEnd : run L.bare ⟨es, .after⟩ ['\n'] = some ⟨es, .start⟩ := rfl

/-- The machine on a rendered peer. -/
theorem run_renderedLines (hname : (goString p.name).Readable)
    (hkey : (goString p.publicKey).Readable) (hcidr : (goString cidr).Readable)
    (hips : p.allowedIPs = [cidr]) :
    run L.bare ⟨es, .start⟩ (renderedLines L (goString p.name) p.publicKey cidr) =
      some ⟨es ++ peerExprs p, .start⟩ := by
  unfold renderedLines
  rw [run_append, run_header, Option.bind_some, run_cons, step_value, Option.bind_some,
    run_quote L.isPrint_control hname (by decide), separate_line, Option.bind_some,
    run_append, run_publicKey, Option.bind_some, run_cons, step_value, Option.bind_some,
    run_quote L.isPrint_control hkey (by decide), separate_line, Option.bind_some,
    run_append, run_allowedIPs, Option.bind_some, run_cons, step_item, Option.bind_some,
    run_quote L.isPrint_control hcidr (by decide), separate_item, Option.bind_some, run_lineEnd]
  simp only [peerExprs, hips, List.map_cons, List.map_nil, List.append_assoc, List.cons_append,
    List.nil_append]

/-- The machine on a rendered peer with a string that TOML does not read. -/
theorem run_renderedLines_none {name : GoString} {publicKey : String}
    (h : ¬ (name.Readable ∧ (goString publicKey).Readable ∧ (goString cidr).Readable)) :
    run L.bare ⟨es, .start⟩ (renderedLines L name publicKey cidr) = none := by
  unfold renderedLines
  rw [run_append, run_header, Option.bind_some, run_cons, step_value, Option.bind_some]
  by_cases hname : name.Readable
  · obtain ⟨s, rfl⟩ := hname.exists_string
    rw [run_quote L.isPrint_control hname (by decide), separate_line, Option.bind_some, run_append,
      run_publicKey, Option.bind_some, run_cons, step_value, Option.bind_some]
    by_cases hkey : (goString publicKey).Readable
    · have hcidr : ¬ (goString cidr).Readable := fun hcidr => h ⟨hname, hkey, hcidr⟩
      rw [run_quote L.isPrint_control hkey (by decide), separate_line, Option.bind_some,
        run_append, run_allowedIPs, Option.bind_some, run_cons, step_item, Option.bind_some]
      exact run_quote_none L.isPrint_control hcidr
    · exact run_quote_none L.isPrint_control hkey
  · exact run_quote_none L.isPrint_control hname

end Scan

/-! ## What `toml.Unmarshal` makes of it -/

section Unmarshal

variable {L : PeerLib} {text : List Char} {es : List Expr} {peer : NewPeer} {p : WGPeer}
  {cidr : String} {seen : Seen}

/-- The rendered peer, with the mark of its array. -/
def peerMarked (p : WGPeer) (first : Bool) : List (Expr × Bool) :=
  [(.arrayTable ["wireguard", "peers"], first), (.keyValue ["name"] (.str p.name), false),
    (.keyValue ["public_key"] (.str p.publicKey), false),
    (.keyValue ["allowed_ips"] (.arr (p.allowedIPs.map .str)), false)]

theorem elemsWellFormed_str (l : List String) : elemsWellFormed (l.map .str) = true := by
  induction l with
  | nil => rfl
  | cons s l ih => simp [elemsWellFormed, Value.wellFormed, ih]

/-- The keys of a rendered peer are fine whenever its header is. -/
theorem annotate_peerExprs :
    (seen.annotate (peerExprs p)).map Prod.fst =
      (seen.checkArrayTable ["wireguard", "peers"]).map fun r => peerMarked p r.2 := by
  change ((seen.checkArrayTable ["wireguard", "peers"]).bind _).map Prod.fst = _
  cases hcheck : seen.checkArrayTable ["wireguard", "peers"] with
  | none => rfl
  | some r =>
    obtain ⟨hcurrent, hfresh⟩ := Seen.checkArrayTable_fresh hcheck
    obtain ⟨s', hs'⟩ := Seen.annotate_keyValues (s := r.1)
      [("name", .str p.name), ("public_key", .str p.publicKey),
        ("allowed_ips", .arr (p.allowedIPs.map .str))]
      (by simp [Value.wellFormed, elemsWellFormed_str]) (by simp)
      (by rw [hcurrent]; exact fun _ _ => hfresh _)
    simp only [List.map_cons, List.map_nil] at hs'
    simp only [Option.bind_some, hs', Option.map_some, peerMarked]

theorem lowered_wireguard (U : Unicode) : Lowered U "wireguard" := by
  have hascii : ("wireguard".toList.all fun c => c.toNat < 128 && c.toLower == c) = true := by
    decide
  intro c hc
  have hchar := List.all_eq_true.mp hascii c hc
  simp only [Bool.and_eq_true, decide_eq_true_eq, beq_iff_eq] at hchar
  rw [U.toLower_ascii c hchar.1, hchar.2]

theorem headerPlace_peers (U : Unicode) (c : Config) :
    headerPlace U configTarget c .root ["wireguard", "peers"] = some (some .peers) := by
  simp [headerPlace, lastElem, configTarget, fields, sectionFields, fieldOf, List.lookup_cons]

theorem place_peerName (U : Unicode) :
    place U configTarget .peer ["name"] = some (some .peerName) := by
  simp [place, configTarget, fields, fieldOf, List.lookup_cons]

theorem place_peerPublicKey (U : Unicode) :
    place U configTarget .peer ["public_key"] = some (some .peerPublicKey) := by
  simp [place, configTarget, fields, fieldOf, List.lookup_cons]

theorem place_peerAllowedIPs (U : Unicode) :
    place U configTarget .peer ["allowed_ips"] = some (some .peerAllowedIPs) := by
  simp [place, configTarget, fields, fieldOf, List.lookup_cons]

/-- The allowed IPs of the last peer. -/
theorem decodeElems_allowedIPs (U : Unicode) (settings : Settings) (ps : List WGPeer) (q : WGPeer)
    (l : List String) :
    decodeElems U configTarget .peerAllowedIPs (l.map .str) ⟨settings, ps ++ [q]⟩ =
      some ⟨settings, ps ++ [{ q with allowedIPs := q.allowedIPs ++ l }]⟩ := by
  induction l generalizing q with
  | nil => simp [decodeElems]
  | cons s l ih =>
    have hpush : configTarget.push .peerAllowedIPs ⟨settings, ps ++ [q]⟩ =
        some ⟨settings, ps ++ [{ q with allowedIPs := q.allowedIPs ++ [""] }]⟩ := by
      simp [configTarget, Config.modifyPeer, modifyLast_append]
    have hset : configTarget.setStr .peerAllowedIP s
          ⟨settings, ps ++ [{ q with allowedIPs := q.allowedIPs ++ [""] }]⟩ =
        some ⟨settings, ps ++ [{ q with allowedIPs := q.allowedIPs ++ [s] }]⟩ := by
      simp [configTarget, Config.modifyPeer, modifyLast_append]
    have helem : configTarget.elem .peerAllowedIPs = some .peerAllowedIP := rfl
    simp only [List.map_cons, decodeElems, hpush, Option.bind_some, helem, decodeValue, hset, ih,
      List.append_assoc, List.singleton_append]

/-- The array of the new peer begins in the field of the old ones.  If it is a
new array for TOML, the old peers are cleared. -/
theorem decode_peerMarked (d : Decoding Config Place) (first : Bool) :
    decode L.unicode configTarget d (peerMarked p first) =
      some ⟨{ d.value with peers := (if first then [] else d.value.peers) ++ [p] },
        some .peer⟩ := by
  obtain ⟨⟨settings, peers⟩, current⟩ := d
  let old : List WGPeer := if first then [] else peers
  have hheader : decodeExpr L.unicode configTarget ⟨⟨settings, peers⟩, current⟩
      (.arrayTable ["wireguard", "peers"], first) =
        some ⟨⟨settings, old ++ [⟨"", "", []⟩]⟩, some .peer⟩ := by
    have hroot : configTarget.root = .root := rfl
    simp only [decodeExpr, hroot, headerPlace_peers]
    cases first <;> rfl
  have hname : decodeExpr L.unicode configTarget
      ⟨⟨settings, old ++ [⟨"", "", []⟩]⟩, some .peer⟩ (.keyValue ["name"] (.str p.name), false) =
        some ⟨⟨settings, old ++ [⟨p.name, "", []⟩]⟩, some .peer⟩ := by
    simp only [decodeExpr, decodeMember, place_peerName, decodeValue]
    simp [configTarget, Config.modifyPeer, modifyLast_append]
  have hkey : decodeExpr L.unicode configTarget
      ⟨⟨settings, old ++ [⟨p.name, "", []⟩]⟩, some .peer⟩
      (.keyValue ["public_key"] (.str p.publicKey), false) =
        some ⟨⟨settings, old ++ [⟨p.name, p.publicKey, []⟩]⟩, some .peer⟩ := by
    simp only [decodeExpr, decodeMember, place_peerPublicKey, decodeValue]
    simp [configTarget, Config.modifyPeer, modifyLast_append]
  have hips : decodeExpr L.unicode configTarget
      ⟨⟨settings, old ++ [⟨p.name, p.publicKey, []⟩]⟩, some .peer⟩
      (.keyValue ["allowed_ips"] (.arr (p.allowedIPs.map .str)), false) =
        some ⟨⟨settings, old ++ [p]⟩, some .peer⟩ := by
    have hclear : configTarget.clear .peerAllowedIPs
        ⟨settings, old ++ [⟨p.name, p.publicKey, []⟩]⟩ =
          some ⟨settings, old ++ [⟨p.name, p.publicKey, []⟩]⟩ := by
      simp [configTarget, Config.modifyPeer, modifyLast_append]
    simp only [decodeExpr, decodeMember, place_peerAllowedIPs, decodeValue, hclear,
      Option.bind_some, decodeElems_allowedIPs, List.nil_append, Option.map_some]
  unfold decode peerMarked
  simp only [List.foldlM_cons, List.foldlM_nil, hheader, hname, hkey, hips, bind, Option.bind_some,
    pure]
  rfl

/-- The firewall does not see the new peer. -/
theorem decode_peerMarked_raw (d : Decoding RawFirewall RawPlace) (first : Bool) :
    decode L.unicode rawTarget d (peerMarked p first) = some { d with current := none } := by
  have hplace : headerPlace L.unicode rawTarget d.value .root ["wireguard", "peers"] =
      some none := by
    simp [headerPlace, lastElem, rawTarget, fieldOf, List.lookup_cons,
      toLower_of_lowered (lowered_wireguard L.unicode)]
  have hroot : rawTarget.root = .root := rfl
  unfold decode peerMarked
  simp only [List.foldlM_cons, List.foldlM_nil, decodeExpr, hroot, hplace, bind, Option.bind_some,
    pure]

variable {a : List (Expr × Bool) × Seen} {c : Config} {raw : RawFirewall}

/-- A peer with a string that TOML does not read makes the file invalid. -/
theorem unmarshal_unreadable (hscan : scan L.bare text = some es)
    (hips : peer.allowedIPs = [cidr]) (hread : ¬ peer.Readable) :
    unmarshalConfig L.toConfigLib (appended L text peer) = none := by
  have hnone : scan L.bare (appended L text peer) = none := by
    rw [scan_appended hscan hips, run_renderedLines_none fun ⟨hname, hkey, hcidr⟩ => hread
      ⟨hname, hkey, by simpa [hips] using hcidr⟩]
    rfl
  simp only [unmarshalConfig, unmarshal, hnone, Option.bind_none]

theorem scan_readable (hscan : scan L.bare text = some es) (hips : peer.allowedIPs = [cidr])
    (hread : peer.Readable) (hp : peer.Is p) :
    scan L.bare (appended L text peer) = some (es ++ peerExprs p) := by
  obtain ⟨hname, hkey, hcidr⟩ := hread
  rw [← hp.name] at hname
  rw [← hp.publicKey] at hkey
  rw [hips] at hcidr
  rw [scan_appended hscan hips, ← hp.name, ← hp.publicKey, run_renderedLines hname hkey
    (hcidr cidr List.mem_cons_self) (hp.allowedIPs.trans hips)]
  rfl

/-- The configuration of the new file. -/
theorem unmarshal_appended (hscan : scan L.bare text = some es)
    (hkeys : Seen.empty.annotate es = some a) (hips : peer.allowedIPs = [cidr])
    (hread : peer.Readable) (hp : peer.Is p) (hc : unmarshalConfig L.toConfigLib text = some c) :
    unmarshalConfig L.toConfigLib (appended L text peer) =
      (a.2.checkArrayTable ["wireguard", "peers"]).map fun r =>
        { c with peers := (if r.2 then [] else c.peers) ++ [p] } := by
  obtain ⟨d, hd, rfl⟩ := (unmarshal_eq_some hscan hkeys).mp hc
  unfold unmarshalConfig
  rw [unmarshal_continued (scan_readable hscan hips hread hp) hkeys hd, annotate_peerExprs]
  cases a.2.checkArrayTable ["wireguard", "peers"] with
  | none => rfl
  | some r => simp only [Option.map_some, Option.bind_some, decode_peerMarked]

/-- The firewall of the new file. -/
theorem firewall_appended (hscan : scan L.bare text = some es)
    (hkeys : Seen.empty.annotate es = some a) (hips : peer.allowedIPs = [cidr])
    (hread : peer.Readable) (hp : peer.Is p)
    (hraw : unmarshalFirewall L.toConfigLib text = some raw) :
    unmarshalFirewall L.toConfigLib (appended L text peer) =
      (a.2.checkArrayTable ["wireguard", "peers"]).map fun _ => raw := by
  obtain ⟨d, hd, rfl⟩ := (unmarshal_eq_some hscan hkeys).mp hraw
  unfold unmarshalFirewall
  rw [unmarshal_continued (scan_readable hscan hips hread hp) hkeys hd, annotate_peerExprs]
  cases a.2.checkArrayTable ["wireguard", "peers"] with
  | none => rfl
  | some r => simp only [Option.map_some, Option.bind_some, decode_peerMarked_raw]

end Unmarshal

/-! ## The file after `AppendPeer` -/

section Append

variable {L : PeerLib} {text : List Char} {cfg : Config} {peer : NewPeer}

/-- `AppendPeer` has failed and left the file alone, or the file has the old
configuration with the peer. -/
def Keeps (L : PeerLib) (text : List Char) (cfg : Config) (peer : NewPeer)
    (result : Except Err Unit × List Char) : Prop :=
  (∃ e, result = (.error e, text)) ∨
    result.1 = .ok () ∧ ∃ p, peer.Is p ∧
      load L.toConfigLib result.2 = .ok { cfg with peers := cfg.peers ++ [p] }

/-- The document of the file has no key `wireguard.peers`, spelled like this,
and can get one. -/
def LacksPeersKey (L : PeerLib) (text : List Char) : Prop :=
  ∃ es a, scan L.bare text = some es ∧ Seen.empty.annotate es = some a ∧
    a.2.Lacks "wireguard" "peers"

/-- `AppendPeer` on a file that does not load with the peer. -/
theorem keeps_of_error {e : Err} (h : load L.toConfigLib (appended L text peer) = .error e)
    (fails : AppendCall → Bool) : Keeps L text cfg peer (appendPeer L fails text peer) := by
  unfold appendPeer
  split
  · exact Or.inl ⟨_, rfl⟩
  · rw [h]
    exact Or.inl ⟨_, rfl⟩

/-- `AppendPeer` on a file that loads with the peer. -/
theorem keeps_of_ok {p : WGPeer} (hp : peer.Is p)
    (h : load L.toConfigLib (appended L text peer) =
      .ok { cfg with peers := cfg.peers ++ [p] })
    (fails : AppendCall → Bool) : Keeps L text cfg peer (appendPeer L fails text peer) := by
  unfold appendPeer
  split
  · exact Or.inl ⟨_, rfl⟩
  · rw [h]
    simp only
    split
    · exact Or.inl ⟨_, rfl⟩
    · exact Or.inr ⟨rfl, p, hp, h⟩

/-- A file whose new text is decoded as the old one with the peer. -/
theorem keeps_of_unmarshal {c : Config} {p : WGPeer} (hp : peer.Is p)
    (hc : LoadedFrom L.toConfigLib text cfg c)
    (hnew : unmarshalConfig L.toConfigLib (appended L text peer) =
      some { c with peers := c.peers ++ [p] })
    (fails : AppendCall → Bool) : Keeps L text cfg peer (appendPeer L fails text peer) := by
  cases hload : load L.toConfigLib (appended L text peer) with
  | error e => exact keeps_of_error hload fails
  | ok cfg' =>
    obtain rfl := hc.eq_of_load hnew hload
    rw [← hc.peers] at hload
    exact keeps_of_ok hp hload fails

/-- A file whose new text is not TOML for `toml.Unmarshal`. -/
theorem keeps_of_invalid
    (hnew : unmarshalConfig L.toConfigLib (appended L text peer) = none)
    (fails : AppendCall → Bool) : Keeps L text cfg peer (appendPeer L fails text peer) := by
  have hload : load L.toConfigLib (appended L text peer) = .error (.msg "toml") := by
    simp only [load, hnew]
  exact keeps_of_error hload fails

/-- A file whose list of peers has not become longer. -/
theorem not_keeps_of_load {cfg' : Config}
    (hload : load L.toConfigLib (appended L text peer) = .ok cfg')
    (hlength : cfg'.peers.length ≤ cfg.peers.length) :
    ¬ Keeps L text cfg peer (appendPeer L (fun _ => false) text peer) := by
  have happend : appendPeer L (fun _ => false) text peer = (.ok (), appended L text peer) := by
    simp [appendPeer, hload]
  rw [happend]
  rintro (⟨e, he⟩ | ⟨-, p, -, hkept⟩)
  · cases he
  · obtain rfl := Except.ok.inj (hload.symm.trans hkept)
    simp only [List.length_append, List.length_singleton] at hlength
    omega

/-- Wherever `AppendPeer` fails, the file is left alone or has the old
configuration with the new peer, exactly if the file has no peers yet, or has
the key `wireguard.peers` in this spelling, or the peer cannot be written in
TOML the way Go quotes it. -/
theorem appendPeer_keeps_config (L : PeerLib) (text : List Char) (cfg : Config) (name : GoString)
    (publicKey allowedIP : String) (serverKey : Except Err Unit) (peer : NewPeer)
    (hload : load L.toConfigLib text = .ok cfg)
    (hpeer : newPeerSetup L cfg name publicKey allowedIP serverKey = .ok peer) :
    (∀ fails, Keeps L text cfg peer (appendPeer L fails text peer)) ↔
      (cfg.peers = [] ∨ ¬ LacksPeersKey L text ∨ ¬ peer.Readable) := by
  obtain ⟨c, hc⟩ := load_eq_ok.mp hload
  obtain ⟨es, a, hscan, hkeys⟩ := exists_of_unmarshal hc.unmarshal
  obtain ⟨hname, hkey, cidr, hips, ip, n, hparse, hv4⟩ := newPeerSetup_ok hpeer
  have hlacks : LacksPeersKey L text ↔ a.2.Lacks "wireguard" "peers" := by
    constructor
    · rintro ⟨es', a', hscan', hkeys', hlacks⟩
      obtain rfl := Option.some.inj (hscan.symm.trans hscan')
      obtain rfl := Option.some.inj (hkeys.symm.trans hkeys')
      exact hlacks
    · exact fun h => ⟨es, a, hscan, hkeys, h⟩
  by_cases hread : peer.Readable
  · obtain ⟨s, hs⟩ := hread.1.exists_string
    have hp : peer.Is ⟨s, peer.publicKey, peer.allowedIPs⟩ := ⟨hs, rfl, rfl⟩
    have hnew := unmarshal_appended hscan hkeys hips hread hp hc.unmarshal
    rw [hlacks, ← Seen.checkArrayTable_first_iff]
    cases hcheck : a.2.checkArrayTable ["wireguard", "peers"] with
    | none =>
      rw [hcheck, Option.map_none] at hnew
      simp [keeps_of_invalid hnew]
    | some r =>
      obtain ⟨seen, first⟩ := r
      rw [hcheck, Option.map_some] at hnew
      cases first with
      | false => simp [keeps_of_unmarshal hp hc hnew]
      | true =>
        -- The array of the peer begins in an empty field, or in the old peers.
        by_cases hpeers : cfg.peers = []
        · have hold : c.peers = [] := hc.peers ▸ hpeers
          have hnew' : unmarshalConfig L.toConfigLib (appended L text peer) =
              some { c with peers := c.peers ++ [⟨s, peer.publicKey, peer.allowedIPs⟩] } := by
            rw [hnew, hold]
            rfl
          simp [hpeers, keeps_of_unmarshal hp hc hnew']
        · have hs' : s ≠ "" := by
            rintro rfl
            exact hname hs.symm
          obtain ⟨-, hwireGuard, -⟩ := validate_eq_ok.mp hc.valid
          have hvalid := validate_single (p := ⟨s, peer.publicKey, peer.allowedIPs⟩) hwireGuard hs'
            hkey hips hparse hv4
          have hfirewall : unmarshalFirewall L.toConfigLib (appended L text peer) =
              unmarshalFirewall L.toConfigLib text := by
            cases hraw : unmarshalFirewall L.toConfigLib text with
            | none =>
              have h := hc.firewall
              simp [validateExplicitHostFirewall, hraw] at h
            | some raw =>
              rw [firewall_appended hscan hkeys hips hread hp hraw, hcheck]
              rfl
          have hnew' := load_eq_ok.mpr ⟨_, hc.with_peers hnew hfirewall hvalid⟩
          have hlength : 1 ≤ cfg.peers.length := List.length_pos_iff.mpr hpeers
          refine iff_of_false (fun h => not_keeps_of_load hnew' hlength (h _)) ?_
          simp [hpeers, hread]
  · exact iff_of_true (keeps_of_invalid (unmarshal_unreadable hscan hips hread))
      (Or.inr (Or.inr hread))

/-! ## Two spellings of a key -/

/-- The library for the files below. -/
def plainPeerLib : PeerLib where
  toConfigLib := plainConfigLib
  isPrint c := decide (32 ≤ c.toNat ∧ c.toNat ≠ 127)
  isSingle s := hasSuffix s "/128"
  parseSubnet s := .error ("invalid CIDR address: " ++ s)
  ipString := toString
  isPrint_control _ h := of_decide_eq_true h
  parse_netString {s ip n} h hv4 _ := by
    simp only [plainConfigLib, plainNetSyntax] at h hv4 ⊢
    split at h
    · rename_i hslash
      cases h
      exact ⟨s, s, if_pos hslash, hv4⟩
    · cases h

/-- The key of the peer that is appended. -/
def secondKey : String := "BBBBBBBBBBBBBBBBBBBBBBBBBBBBBBBBBBBBBBBBBBA="

/-- The peer that is appended. -/
def secondPeer : NewPeer := ⟨goString "bob", secondKey, ["fd::3/128"]⟩

/-- The call that makes it. -/
def setupSecond (cfg : Config) : Except Err NewPeer :=
  newPeerSetup plainPeerLib cfg (goString "bob") secondKey "fd::3/128" (.ok ())

/-- The file is loaded with one peer, and the second one can be made. -/
theorem load_onePeerFile (key : String)
    (h : succeedsWith (fun cfg => decide (cfg.peers.map WGPeer.name = ["ada"]) &&
        succeedsWith (fun peer => decide (peer = secondPeer)) (setupSecond cfg))
      (load plainPeerLib.toConfigLib (onePeerFile key)) = true) :
    ∃ cfg, load plainPeerLib.toConfigLib (onePeerFile key) = .ok cfg ∧
      cfg.peers.map WGPeer.name = ["ada"] ∧ setupSecond cfg = .ok secondPeer := by
  obtain ⟨cfg, hload, htest⟩ := exists_of_succeedsWith h
  simp only [Bool.and_eq_true, decide_eq_true_eq] at htest
  obtain ⟨peer, hpeer, hsecond⟩ := exists_of_succeedsWith htest.2
  exact ⟨cfg, hload, htest.1, hpeer.trans (by rw [of_decide_eq_true hsecond])⟩

theorem appendPeer_keeps_config_second :
    ∃ cfg, load plainPeerLib.toConfigLib (onePeerFile "wireguard") = .ok cfg ∧
      cfg.peers.map WGPeer.name = ["ada"] ∧
      ∀ fails, Keeps plainPeerLib (onePeerFile "wireguard") cfg secondPeer
        (appendPeer plainPeerLib fails (onePeerFile "wireguard") secondPeer) := by
  obtain ⟨cfg, hload, hpeers, hsetup⟩ := load_onePeerFile "wireguard" (by decide +kernel)
  have hkey : ((scan plainPeerLib.bare (onePeerFile "wireguard")).bind fun es =>
      (Seen.empty.annotate es).map fun a => (a.2.find ["wireguard", "peers"]).isSome) =
        some true := by decide +kernel
  have hlacks : ¬ LacksPeersKey plainPeerLib (onePeerFile "wireguard") := by
    rintro ⟨es, a, hscan, hkeys, -, hfind⟩
    simp [hscan, hkeys, hfind] at hkey
  exact ⟨cfg, hload, hpeers, (appendPeer_keeps_config plainPeerLib _ cfg (goString "bob") secondKey
    "fd::3/128" (.ok ()) secondPeer hload hsetup).mpr (Or.inr (Or.inl hlacks))⟩

/-- The peers of a file that spells the key differently are lost. -/
theorem appendPeer_drops_peers :
    ∃ cfg cfg', load plainPeerLib.toConfigLib (onePeerFile "WireGuard") = .ok cfg ∧
      cfg.peers.map WGPeer.name = ["ada"] ∧ setupSecond cfg = .ok secondPeer ∧
      appendPeer plainPeerLib (fun _ => false) (onePeerFile "WireGuard") secondPeer =
        (.ok (), appended plainPeerLib (onePeerFile "WireGuard") secondPeer) ∧
      load plainPeerLib.toConfigLib (appended plainPeerLib (onePeerFile "WireGuard") secondPeer) =
        .ok cfg' ∧
      cfg'.peers.map WGPeer.name = ["bob"] ∧
      ¬ Keeps plainPeerLib (onePeerFile "WireGuard") cfg secondPeer
        (appendPeer plainPeerLib (fun _ => false) (onePeerFile "WireGuard") secondPeer) := by
  obtain ⟨cfg, hload, hpeers, hsetup⟩ := load_onePeerFile "WireGuard" (by decide +kernel)
  obtain ⟨cfg', hload', htest⟩ := exists_of_succeedsWith
    (p := fun cfg : Config => decide (cfg.peers.map WGPeer.name = ["bob"]))
    (x := load plainPeerLib.toConfigLib
      (appended plainPeerLib (onePeerFile "WireGuard") secondPeer))
    (by decide +kernel)
  have hpeers' : cfg'.peers.map WGPeer.name = ["bob"] := of_decide_eq_true htest
  have hlength : cfg'.peers.length ≤ cfg.peers.length := by
    rw [← List.length_map (f := WGPeer.name), hpeers', ← List.length_map (f := WGPeer.name), hpeers]
    rfl
  refine ⟨cfg, cfg', hload, hpeers, hsetup, ?_, hload', hpeers', not_keeps_of_load hload' hlength⟩
  simp [appendPeer, hload']

end Append

end Firedoze.ConfigFile
