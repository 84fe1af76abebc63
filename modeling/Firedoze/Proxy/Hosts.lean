import Firedoze.Model.World
import Firedoze.Text.Strings

/-!
# Hostnames

Three functions bring a hostname into a normal form, each for its own use.

* `routeHost` takes the `Host` header of a request.
* `normalizeHostname` takes the hostname of a protection, when it is stored
  and when it is looked up.
* `normalizeRouteAuthHostname` takes the hostname of an API request about
  protections and signed URLs.

`routeForHost` cuts the base domain off the answer of `routeHost`, and looks
up what is left among the VMs and the routes.

`normalizeHostname_routeHost` says that a host that resolves is in the
normal form of the protections, and `normalizeHostname_of_accepted` says the
same of a hostname that the API accepts.
-/

namespace Firedoze

open Text

variable (U : Unicode)

/-! ## The normal forms -/

/-- `NormalizeHostname`. -/
def normalizeHostname (hostname : String) : String :=
  trimSuffix (toLower U (trimSpace U hostname)) "."

/-- `normalizeRouteAuthHostname`. -/
def normalizeRouteAuthHostname (baseDomain hostname : String) : Except Err String :=
  let host := normalizeHostname U hostname
  let base := normalizeHostname U baseDomain
  if host = "" then .error (.msg "hostname is required")
  else if host.toList.any fun c => "/\\: \t\r\n".toList.contains c then
    .error (.msg "hostname must be a hostname, not a URL")
  else if host ≠ base ∧ hasSuffix host ("." ++ base) = false then
    .error (.msg ("hostname must be " ++ base ++ " or a subdomain of " ++ base))
  else .ok host

/-- `routeHost`. -/
def routeHost (hostport : String) : String :=
  let host := toLower U hostport
  trimSuffix
    (match splitHostPort host with
      | some (h, _) => h
      | none => host) "."

/-- `defaultHostname`, which the API reports for a VM. -/
def defaultHostname (baseDomain name : String) : String :=
  name ++ "." ++ trimSuffix baseDomain "."

/-! ## Resolving a host -/

/-- The base domain as `routeForHost` trims it. -/
def routeBase (baseDomain : String) : String := trimSuffix (toLower U baseDomain) "."

/-- The name that `routeForHost` looks up. -/
def routeName (baseDomain hostport : String) : Option String :=
  let host := routeHost U hostport
  let suffix := "." ++ routeBase U baseDomain
  if hasSuffix host suffix = false then none
  else if trimSuffix host suffix = "" then none
  else some (trimSuffix host suffix)

/-- What `routeForHost` finds under a name when no call of the store fails. -/
def Store.lookup (s : Store) (name : String) : Option (VM × Int) :=
  match s.getVMByName name with
  | .ok vm => some (vm, vm.defaultHTTPPort)
  | .error _ =>
      match s.getRoute name with
      | .error _ => none
      | .ok route =>
          match s.getVM route.vmUUID with
          | .error _ => none
          | .ok vm => some (vm, route.port)

/-- `routeForHost`, when no call of the store fails. -/
def routeForHost (s : Store) (baseDomain hostport : String) : Option (VM × Int) :=
  (routeName U baseDomain hostport).bind s.lookup

/-! ## Names -/

/-- A label of a DNS name, in either case. -/
def isDNSLabel (label : List Char) : Bool :=
  !label.isEmpty && label.all fun c => c.isAlphanum || c == '-'

/-- A DNS name in either case, with or without a trailing dot. -/
def isDNSName (s : String) : Bool := ((trimSuffix s ".").toList.splitOn '.').all isDNSLabel

/-- `validRouteName`. -/
def validRouteName (name : String) : Bool :=
  (name.toList.splitOn '.').all fun part => validDNSLabel (String.ofList part)

variable {U}

theorem isAlphanum_toNat {c : Char} (h : c.isAlphanum = true) :
    48 ≤ c.toNat ∧ c.toNat ≤ 57 ∨ 65 ≤ c.toNat ∧ c.toNat ≤ 90 ∨ 97 ≤ c.toNat ∧ c.toNat ≤ 122 := by
  have hdef : c.isAlphanum = ((decide (65 ≤ c.val ∧ c.val ≤ 90) ||
      decide (97 ≤ c.val) && decide (c.val ≤ 122)) || decide (48 ≤ c.val) && decide (c.val ≤ 57)) :=
    rfl
  simp only [hdef, Bool.or_eq_true, Bool.and_eq_true, decide_eq_true_eq,
    UInt32.le_iff_toNat_le] at h
  change (65 ≤ c.toNat ∧ c.toNat ≤ 90 ∨ 97 ≤ c.toNat ∧ c.toNat ≤ 122) ∨
    48 ≤ c.toNat ∧ c.toNat ≤ 57 at h
  omega

/-- The characters of a DNS name other than the dots. -/
def NameChar (c : Char) : Prop :=
  c.toNat = 45 ∨ 48 ≤ c.toNat ∧ c.toNat ≤ 57 ∨ 65 ≤ c.toNat ∧ c.toNat ≤ 90 ∨
    97 ≤ c.toNat ∧ c.toNat ≤ 122

theorem nameChar_of_label {label : List Char} {c : Char} (h : isDNSLabel label = true)
    (hc : c ∈ label) : NameChar c := by
  simp only [isDNSLabel, Bool.and_eq_true, List.all_eq_true, Bool.or_eq_true, beq_iff_eq] at h
  rcases h.2 c hc with hc | rfl
  · exact Or.inr (isAlphanum_toNat hc)
  · exact Or.inl rfl

theorem NameChar.ne_dot {c : Char} (h : NameChar c) : c ≠ '.' := by
  rintro rfl
  revert h
  unfold NameChar
  decide

theorem NameChar.lower {c : Char} (h : NameChar c) : NameChar (U.toLower c) := by
  unfold NameChar at h ⊢
  rw [U.toLower_ascii c (by omega), toNat_toLower]
  split_ifs <;> omega

theorem isSpace_of_nameChar {c : Char} (h : NameChar c ∨ c = '.') : U.isSpace c = false := by
  have hnat : c.toNat = 46 ∨ NameChar c := h.symm.imp_left fun hdot => by rw [hdot]; rfl
  unfold NameChar at hnat
  rw [U.isSpace_ascii c (by omega), decide_eq_false_iff_not]
  omega

theorem toLower_dot : toLower U "." = "." := by
  have hdot : U.toLower '.' = '.' := (U.toLower_ascii '.' (by decide)).trans (by decide)
  simp [← String.toList_inj, hdot]

/-! ## A base domain -/

section Base

variable {baseDomain : String} (hbase : isDNSName baseDomain = true)

include hbase

theorem nil_not_mem_labels : [] ∉ (trimSuffix baseDomain ".").toList.splitOn '.' := by
  intro h
  have hlabel := List.all_eq_true.mp hbase [] h
  simp [isDNSLabel] at hlabel

theorem nameChar_of_base {c : Char} (hc : c ∈ (trimSuffix baseDomain ".").toList) :
    NameChar c ∨ c = '.' := by
  rcases mem_splitOn '.' hc with rfl | ⟨label, hlabel, hc⟩
  · exact Or.inr rfl
  · exact Or.inl (nameChar_of_label (List.all_eq_true.mp hbase label hlabel) hc)

/-- The last character of a base domain without its trailing dot. -/
theorem exists_getLast?_base : ∃ c, (trimSuffix baseDomain ".").toList.getLast? = some c ∧
    NameChar c := by
  have hne : (trimSuffix baseDomain ".").toList ≠ [] := by
    intro h
    have hlabel := nil_not_mem_labels hbase
    rw [h] at hlabel
    simp at hlabel
  obtain ⟨c, hc⟩ := Option.ne_none_iff_exists'.mp (List.getLast?_eq_none_iff.not.mpr hne)
  refine ⟨c, hc, (nameChar_of_base hbase (List.mem_of_getLast? hc)).resolve_right ?_⟩
  rintro rfl
  exact getLast?_ne_of_splitOn (nil_not_mem_labels hbase) hc

theorem routeBase_eq : routeBase U baseDomain = toLower U (trimSuffix baseDomain ".") := by
  unfold routeBase
  cases hdot : hasSuffix baseDomain "." with
  | true =>
    conv_lhs => rw [← trimSuffix_append_of_hasSuffix hdot, toLower_append, toLower_dot]
    exact trimSuffix_append
  | false =>
    rw [trimSuffix_of_not hdot]
    obtain ⟨c, hc, hname⟩ := exists_getLast?_base hbase
    rw [trimSuffix_of_not hdot] at hc
    refine trimSuffix_of_not (Bool.eq_false_iff.mpr fun h => ?_)
    have hlast := hasSuffix_dot_iff.mp h
    rw [toList_toLower, List.getLast?_map, hc] at hlast
    exact hname.lower.ne_dot (Option.some.inj hlast)

/-- `routeForHost` and the protections agree on the base domain. -/
theorem normalizeHostname_base : normalizeHostname U baseDomain = routeBase U baseDomain := by
  unfold normalizeHostname routeBase
  rw [trimSpace_of_trimmed]
  refine trimmed_of_forall fun c hc => isSpace_of_nameChar ?_
  cases hdot : hasSuffix baseDomain "." with
  | true =>
    rw [← trimSuffix_append_of_hasSuffix hdot, String.toList_append, List.mem_append] at hc
    rcases hc with hc | hc
    · exact nameChar_of_base hbase hc
    · exact Or.inr (by simpa using hc)
  | false =>
    refine nameChar_of_base hbase ?_
    rwa [trimSuffix_of_not hdot]

theorem getLast?_routeBase : ∃ c, (routeBase U baseDomain).toList.getLast? = some c ∧
    NameChar c := by
  obtain ⟨c, hc, hname⟩ := exists_getLast?_base hbase
  refine ⟨U.toLower c, ?_, hname.lower⟩
  rw [routeBase_eq hbase, toList_toLower, List.getLast?_map, hc]
  rfl

/-- A lowered hostname below the base domain that does not start with a blank
is in normal form. -/
theorem normalizeHostname_of_suffix {host : String} (front : String) (hlow : Lowered U host)
    (hfirst : ∀ c, host.toList.head? = some c → U.isSpace c = false)
    (hhost : host = front ++ routeBase U baseDomain) : normalizeHostname U host = host := by
  obtain ⟨c, hc, hname⟩ := getLast?_routeBase (U := U) hbase
  have hlast : host.toList.getLast? = some c := by
    rw [hhost, String.toList_append, List.getLast?_append, hc]
    rfl
  have htrim : Trimmed U host := by
    refine ⟨hfirst, fun d hd => ?_⟩
    obtain rfl := Option.some.inj (hlast.symm.trans hd)
    exact isSpace_of_nameChar (Or.inl hname)
  unfold normalizeHostname
  rw [trimSpace_of_trimmed htrim, toLower_of_lowered hlow]
  refine trimSuffix_of_not (Bool.eq_false_iff.mpr fun h => ?_)
  exact hname.ne_dot (Option.some.inj (hlast.symm.trans (hasSuffix_dot_iff.mp h)))

end Base

/-! ## Hosts that resolve, and hostnames that are accepted -/

theorem lowered_routeHost {hostport : String} : Lowered U (routeHost U hostport) := by
  unfold routeHost
  refine lowered_trimSuffix ?_
  split
  · rename_i h port hsplit
    exact fun c hc => lowered_toLower c (mem_splitHostPort hsplit hc)
  · exact lowered_toLower

/-- A host that `routeForHost` looks up is a name in front of the base
domain. -/
theorem routeHost_of_routeName {baseDomain hostport n : String}
    (h : routeName U baseDomain hostport = some n) :
    n ≠ "" ∧ routeHost U hostport = n ++ ("." ++ routeBase U baseDomain) := by
  unfold routeName at h
  simp only at h
  split_ifs at h with hsuf hne
  obtain rfl := Option.some.inj h
  exact ⟨hne, (trimSuffix_append_of_hasSuffix (by simpa using hsuf)).symm⟩

/-- A name of VMs and routes consists of small letters, digits, hyphens and
dots. -/
theorem toNat_of_validRouteName {name : String} (h : validRouteName name = true) {c : Char}
    (hc : c ∈ name.toList) :
    c = '.' ∨ c.toNat = 45 ∨ 48 ≤ c.toNat ∧ c.toNat ≤ 57 ∨ 97 ≤ c.toNat ∧ c.toNat ≤ 122 := by
  rcases mem_splitOn '.' hc with rfl | ⟨part, hpart, hc⟩
  · exact Or.inl rfl
  · refine Or.inr ?_
    have hlabel := List.all_eq_true.mp h part hpart
    unfold validDNSLabel at hlabel
    rw [String.toList_ofList] at hlabel
    split at hlabel
    · simp only [Bool.and_eq_true, List.all_eq_true, Bool.or_eq_true, beq_iff_eq] at hlabel
      rcases hlabel.1.2 c hc with hchar | rfl
      · simp only [isLabelChar, Bool.or_eq_true, Bool.and_eq_true, decide_eq_true_eq,
          Char.le_def, UInt32.le_iff_toNat_le] at hchar
        change 97 ≤ c.toNat ∧ c.toNat ≤ 122 ∨ 48 ≤ c.toNat ∧ c.toNat ≤ 57 at hchar
        omega
      · exact Or.inl rfl
    · cases hlabel

theorem nameChar_of_validRouteName {name : String} (h : validRouteName name = true) {c : Char}
    (hc : c ∈ name.toList) : NameChar c ∨ c = '.' := by
  unfold NameChar
  rcases toNat_of_validRouteName h hc with rfl | hnat
  · exact Or.inr rfl
  · exact Or.inl (by omega)

/-- A host that resolves to a name is in the normal form of the
protections. -/
theorem normalizeHostname_routeHost {baseDomain hostport n : String}
    (hbase : isDNSName baseDomain = true) (hn : validRouteName n = true)
    (h : routeName U baseDomain hostport = some n) :
    normalizeHostname U (routeHost U hostport) = routeHost U hostport := by
  obtain ⟨hne, hhost⟩ := routeHost_of_routeName h
  refine normalizeHostname_of_suffix hbase (n ++ ".") lowered_routeHost ?_
    (hhost.trans (String.append_assoc ..).symm)
  intro c hc
  obtain ⟨d, ds, hds⟩ := List.exists_cons_of_ne_nil (l := n.toList) (by simpa using hne)
  rw [hhost, String.toList_append, hds] at hc
  obtain rfl : d = c := by simpa using hc
  exact isSpace_of_nameChar (nameChar_of_validRouteName hn (by simp [hds]))

/-- A hostname that the API accepts is stored as it was accepted. -/
theorem normalizeHostname_of_accepted {baseDomain p q : String}
    (hbase : isDNSName baseDomain = true)
    (h : normalizeRouteAuthHostname U baseDomain p = .ok q) : normalizeHostname U q = q := by
  unfold normalizeRouteAuthHostname at h
  simp only at h
  split_ifs at h with hempty hany hsuf
  obtain rfl := Except.ok.inj h
  have hfront : ∃ front, normalizeHostname U p = front ++ routeBase U baseDomain := by
    rw [normalizeHostname_base hbase] at hsuf
    by_cases heq : normalizeHostname U p = routeBase U baseDomain
    · exact ⟨"", by simpa using heq⟩
    · have hhas : hasSuffix (normalizeHostname U p) ("." ++ routeBase U baseDomain) = true := by
        simpa [heq] using hsuf
      obtain ⟨u, hu⟩ := hasSuffix_iff.mp hhas
      exact ⟨u ++ ".", hu.trans (String.append_assoc ..).symm⟩
  obtain ⟨front, hfront⟩ := hfront
  refine normalizeHostname_of_suffix hbase _ ?_ ?_ hfront
  · exact lowered_trimSuffix lowered_toLower
  · intro c hc
    exact (trimmed_toLower trimmed_trimSpace).first c (head?_of_trimSuffix hc)

/-- The names of VMs are names of routes. -/
theorem validRouteName_of_validVMName {name : String} (h : validVMName name = true) :
    validRouteName name = true := by
  have hlabel : validDNSLabel name = true := (Bool.and_eq_true _ _ ▸ h).1
  have hdot : '.' ∉ name.toList := by
    intro hmem
    unfold validDNSLabel at hlabel
    split at hlabel
    · simp only [Bool.and_eq_true, List.all_eq_true] at hlabel
      have := hlabel.1.2 '.' hmem
      revert this
      decide
    · cases hlabel
  simp [validRouteName, List.splitOn_eq_singleton hdot, hlabel]

end Firedoze
