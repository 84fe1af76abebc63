import Firedoze.Model.Types
import Firedoze.Text.Decimal

/-!
# Tokens of the route authentication

A token is the signed pair of a hostname and an expiry.  It has three parts
with full stops between them: the hostname, the expiry in seconds and the
signature, each of them encoded.  `validate` takes a token apart, compares
the hostname, reads the expiry and checks the signature of the first two
parts as they stand in the token.

The keyed hash is a parameter `mac`.  A time has the seconds and nanoseconds
of `time.Time`, and its seconds wrap as they do in Go.

* `validate_token`: a token is good for its hostname until its expiry, which
  comes back without its nanoseconds.
* `issued_of_validate`: when the signed part of a token that is accepted is
  the message of some pairs, then the hostname and the expiry that were
  accepted are one of these pairs.
-/

namespace Firedoze

open Text

/-! ## Times -/

instance neZeroNanoseconds : NeZero 1000000000 := ⟨by decide⟩

/-- `time.Time`: the seconds since the first of January of the year 1, and
the nanoseconds within the second. -/
structure Time where
  sec : Int64
  nsec : Fin 1000000000
  deriving DecidableEq, Repr

namespace Time

/-- `unixToInternal`. -/
def unixToInternal : Int64 := 62135596800

/-- `Time.Unix`. -/
def unix (t : Time) : Int64 := t.sec - unixToInternal

/-- `time.Unix(sec, 0)`. -/
def ofUnix (sec : Int64) : Time := ⟨sec + unixToInternal, 0⟩

/-- `Time.After`, by the clock on the wall. -/
def after (t u : Time) : Bool := decide (u.sec < t.sec ∨ t.sec = u.sec ∧ u.nsec < t.nsec)

/-- The time without its nanoseconds. -/
def truncate (t : Time) : Time := { t with nsec := 0 }

/-- `Time.Add` of a duration in nanoseconds.  The seconds do not wrap here. -/
def add (t : Time) (d : Int) : Time :=
  let n := (t.nsec.val : Int) + d
  let sum := t.sec.toInt + n / 1000000000
  { sec :=
      if 2 ^ 63 ≤ sum then Int64.ofInt (2 ^ 63 - 1)
      else if sum < -2 ^ 63 then Int64.ofInt (-(2 ^ 63 - 1))
      else Int64.ofInt sum
    nsec := Fin.ofNat _ (n % 1000000000).toNat }

theorem ofUnix_unix (t : Time) : ofUnix t.unix = t.truncate := by
  simp [ofUnix, unix, truncate]

end Time

/-! ## Keys -/

/-- `KeySize`. -/
def keySize : Nat := 32

/-- A key, which has the size that `loadOrGenerateKey` asks for. -/
structure Key where
  bytes : Bytes
  size : bytes.length = keySize
  deriving DecidableEq

/-- What `os.ReadFile` finds at the path of the key. -/
inductive KeyFile
  | missing
  | unreadable
  | content (bytes : Bytes)
  deriving DecidableEq

/-- Where a key can come from: the file, and the answer of `rand.Read`. -/
structure KeySource where
  file : KeyFile
  random : Option Key

/-- `routeauth.Manager`.  Every key that it holds comes from
`loadOrGenerateKey`. -/
structure AuthManager where
  keyPath : String
  key : Option Key

/-- `loadOrGenerateKey`, which also says whether the key was loaded. -/
def loadOrGenerateKey (path : String) (src : KeySource) : Except Err (Key × Bool) :=
  match src.file with
  | .content bytes =>
      if h : bytes.length = keySize then .ok (⟨bytes, h⟩, true)
      else .error (.msg (path ++ " has " ++ toString bytes.length ++ " bytes, want " ++
        toString keySize))
  | .unreadable => .error .io
  | .missing =>
      match src.random with
      | none => .error .io
      | some key => .ok (key, false)

/-- `Manager.keyBytes`. -/
def AuthManager.keyBytes (m : AuthManager) (src : KeySource) : Except Err Key × AuthManager :=
  match m.key with
  | some key => (.ok key, m)
  | none =>
      match loadOrGenerateKey m.keyPath src with
      | .error e => (.error e, m)
      | .ok (key, _) => (.ok key, { m with key := some key })

/-! ## Tokens -/

variable (mac : Key → Bytes → Bytes)

/-- The full stop between the parts of a token. -/
def dot : UInt8 := 46

/-- `encodePart`. -/
def encodePart (part : Bytes) : Bytes := Base64.encode part

/-- `decodePart`. -/
def decodePart (text : Bytes) : Option Bytes := Base64.decode text

/-- `sign`. -/
def sign (key : Key) (message : Bytes) : Bytes := Base64.encode (mac key message)

/-- `validSignature`. -/
def validSignature (key : Key) (message encodedSignature : Bytes) : Bool :=
  match Base64.decode encodedSignature with
  | none => false
  | some got => got == mac key message

/-- The part of a token that is signed. -/
def tokenMessage (host : Bytes) (expires : Time) : Bytes :=
  encodePart host ++ dot :: encodePart (Decimal.formatInt expires.unix)

/-- `Manager.Token`, once it has the key. -/
def tokenWith (key : Key) (host : Bytes) (expires : Time) : Bytes :=
  tokenMessage host expires ++ dot :: sign mac key (tokenMessage host expires)

/-- `Manager.Validate`, once it has the key.  The answer is the expiry of a
token that is accepted. -/
def validateWith (key : Key) (now : Time) (token host : Bytes) : Option Time :=
  match token.splitOn dot with
  | [hostPart, expiryPart, signature] =>
      match decodePart hostPart with
      | none => none
      | some tokenHost =>
          if tokenHost ≠ host then none
          else
            match (decodePart expiryPart).bind Decimal.parseInt with
            | none => none
            | some expiryUnix =>
                if now.after (.ofUnix expiryUnix) then none
                else if validSignature mac key (hostPart ++ dot :: expiryPart) signature then
                  some (.ofUnix expiryUnix)
                else none
  | _ => none

/-- `Manager.Token`. -/
def AuthManager.token (m : AuthManager) (src : KeySource) (host : Bytes) (expires : Time) :
    Except Err Bytes × AuthManager :=
  match m.keyBytes src with
  | (.error e, m) => (.error e, m)
  | (.ok key, m) => (.ok (tokenWith mac key host expires), m)

/-- `Manager.Validate`. -/
def AuthManager.validate (m : AuthManager) (src : KeySource) (now : Time) (token host : Bytes) :
    Option Time × AuthManager :=
  match m.keyBytes src with
  | (.error _, m) => (none, m)
  | (.ok key, m) => (validateWith mac key now token host, m)

/-! ## What a token says -/

variable {mac} {key : Key} {now expires : Time} {token host : Bytes}

theorem dot_not_mem_encodePart (part : Bytes) : dot ∉ encodePart part :=
  Base64.dot_not_mem_encode part

theorem decodePart_encodePart (part : Bytes) : decodePart (encodePart part) = some part :=
  Base64.decode_encode part

theorem splitOn_token (mac : Key → Bytes → Bytes) (key : Key) (host : Bytes) (expires : Time) :
    (tokenWith mac key host expires).splitOn dot =
      [encodePart host, encodePart (Decimal.formatInt expires.unix),
        sign mac key (tokenMessage host expires)] := by
  have hsign : dot ∉ sign mac key (tokenMessage host expires) := Base64.dot_not_mem_encode _
  unfold tokenWith
  generalize sign mac key (tokenMessage host expires) = signature at hsign ⊢
  rw [tokenMessage, List.append_assoc, List.cons_append,
    List.splitOn_append_cons_self_of_not_mem (dot_not_mem_encodePart _),
    List.splitOn_append_cons_self_of_not_mem (dot_not_mem_encodePart _),
    List.splitOn_eq_singleton hsign]

/-- A token is accepted for one hostname, until its expiry. -/
theorem validate_token (mac : Key → Bytes → Bytes) (key : Key) (now expires : Time)
    (host host' : Bytes) :
    validateWith mac key now (tokenWith mac key host expires) host' =
      if host = host' ∧ now.after expires.truncate = false then some expires.truncate
      else none := by
  have hvalid : validSignature mac key
      (encodePart host ++ dot :: encodePart (Decimal.formatInt expires.unix))
      (sign mac key (tokenMessage host expires)) = true := by
    simp [validSignature, sign, Base64.decode_encode, tokenMessage]
  simp only [validateWith, splitOn_token, decodePart_encodePart, Option.bind_some,
    Decimal.parseInt_formatInt, Time.ofUnix_unix, hvalid]
  by_cases hhost : host = host'
  · cases hafter : now.after expires.truncate <;> simp [hhost]
  · simp [hhost]

/-- What `validateWith` has seen of a token that it accepts. -/
structure Accepted (mac : Key → Bytes → Bytes) (key : Key) (now : Time) (token host : Bytes)
    (e : Time) (hostPart expiryPart signature : Bytes) : Prop where
  split : token.splitOn dot = [hostPart, expiryPart, signature]
  host : decodePart hostPart = some host
  expiry : ∃ unix, (decodePart expiryPart).bind Decimal.parseInt = some unix ∧ e = .ofUnix unix
  signed : validSignature mac key (hostPart ++ dot :: expiryPart) signature = true
  fresh : now.after e = false

theorem accepted_of_validate {e : Time} (h : validateWith mac key now token host = some e) :
    ∃ hostPart expiryPart signature,
      Accepted mac key now token host e hostPart expiryPart signature := by
  unfold validateWith at h
  split at h
  swap
  · cases h
  rename_i hostPart expiryPart signature hsplit
  split at h
  · cases h
  rename_i tokenHost hdecode
  split at h
  · cases h
  rename_i hne
  obtain rfl := not_not.mp hne
  split at h
  · cases h
  rename_i unix hunix
  split at h
  · cases h
  rename_i hafter
  split at h
  · rename_i hsigned
    obtain rfl := Option.some.inj h
    exact ⟨hostPart, expiryPart, signature, hsplit, hdecode, ⟨unix, hunix, rfl⟩, hsigned,
      by simpa using hafter⟩
  · cases h

/-- What a token says, whoever signed it. -/
def readToken (token : Bytes) : Option (Bytes × Time) :=
  match token.splitOn dot with
  | [hostPart, expiryPart, _] =>
      (decodePart hostPart).bind fun host =>
        ((decodePart expiryPart).bind Decimal.parseInt).map fun unix => (host, .ofUnix unix)
  | _ => none

theorem readToken_of_validate {e : Time} (h : validateWith mac key now token host = some e) :
    readToken token = some (host, e) := by
  obtain ⟨hostPart, expiryPart, signature, hacc⟩ := accepted_of_validate h
  obtain ⟨unix, hunix, rfl⟩ := hacc.expiry
  simp [readToken, hacc.split, hacc.host, hunix]

theorem fresh_of_validate {e : Time} (h : validateWith mac key now token host = some e) :
    now.after e = false := by
  obtain ⟨_, _, _, hacc⟩ := accepted_of_validate h
  exact hacc.fresh

/-- Whether the signed part of the token is the message of one of the pairs,
or the signature is wrong. -/
def signedFor (mac : Key → Bytes → Bytes) (key : Key) (token : Bytes)
    (pairs : List (Bytes × Time)) : Bool :=
  match token.splitOn dot with
  | [hostPart, expiryPart, signature] =>
      !validSignature mac key (hostPart ++ dot :: expiryPart) signature ||
        pairs.any fun p => hostPart ++ dot :: expiryPart == tokenMessage p.1 p.2
  | _ => true

/-- A token that is accepted was made for its hostname and its expiry. -/
theorem issued_of_validate {e : Time} {pairs : List (Bytes × Time)}
    (hsigned : signedFor mac key token pairs = true)
    (h : validateWith mac key now token host = some e) :
    ∃ p ∈ pairs, p.1 = host ∧ p.2.truncate = e := by
  obtain ⟨hostPart, expiryPart, signature, hacc⟩ := accepted_of_validate h
  simp only [signedFor, hacc.split, hacc.signed, Bool.not_true, Bool.false_or, List.any_eq_true,
    beq_iff_eq] at hsigned
  obtain ⟨p, hp, hmessage⟩ := hsigned
  obtain ⟨rfl, -, rfl⟩ := (List.append_cons_inj_of_notMem (dot_not_mem_encodePart _)
    (dot_not_mem_encodePart _)).mp hmessage.symm
  refine ⟨p, hp, Option.some.inj ((decodePart_encodePart _).symm.trans hacc.host), ?_⟩
  obtain ⟨unix, hunix, rfl⟩ := hacc.expiry
  rw [decodePart_encodePart, Option.bind_some, Decimal.parseInt_formatInt] at hunix
  rw [← Option.some.inj hunix, Time.ofUnix_unix]

end Firedoze
