import Firedoze.Idle.Check
import Firedoze.Proxy.Grants
import Firedoze.Text.Space

/-!
# Numbers that are scaled in 64 bits

Three numbers of users are multiplied by a unit without a bound: the lifetime of a
signed URL (`handleRouteSignedURL`), the time after which a stopped VM is archived
(`shouldArchiveStoppedVM`), and a size with a suffix (`parseSize`).  The products
are of type `int64`, so they can wrap.

For each of the three, the code does what it should exactly when the product fits,
or when the call is rejected anyway (`reportsTTL_iff`, `archivesInTime_iff`,
`exactSize_iff`).
-/

namespace Firedoze

open Text Text.Decimal Conc Conc.Prog Conc.Monitor

/-! ## The lifetime of a signed URL -/

/-- The lifetime of a request, with its default. -/
def ttlOf (ttlSeconds : Int64) : Int64 := if ttlSeconds = 0 then 24 * 60 * 60 else ttlSeconds

/-- The last reading of the clock, and the last expiry that was signed. -/
def signingNext (l : Option Time × Option Time) :
    {β : Type} → WebEff β → β → Option Time × Option Time
  | _, .now, now => (some now, l.2)
  | _, .token _ _ expires, _ => (l.1, some expires)
  | _, _, _ => l

def signing : Monitor WebEff (Option Time × Option Time) where
  start := (none, none)
  ok := fun _ _ _ => True
  next := fun l e b => signingNext l e b

/-- The clock shows a year after the first and before the year 10 ^ 11. -/
def saneClock : {β : Type} → WebEff β → β → Prop
  | _, .now, now => 0 ≤ now.sec.toInt ∧ now.sec.toInt < 2 ^ 61
  | _, _, _ => True

/-- A URL that is handed out expires after its lifetime, and the reply says so. -/
def ReportsTTL (site : Site) (hostname : String) (ttlSeconds : Int64) : Prop :=
  signing.Conforms saneClock (handleRouteSignedURL site (some (hostname, ttlSeconds))) (none, none)
    fun response l => ∀ host token ttl, response = .signed host token ttl →
      ttl = ttlOf ttlSeconds ∧ ∃ now expires, l = (some now, some expires) ∧
        expires.unix.toInt = now.unix.toInt + (ttlOf ttlSeconds).toInt

/-- The lifetime is refused, or its nanoseconds fit. -/
def TTLFits (ttlSeconds : Int64) : Prop :=
  ttlOf ttlSeconds < 0 ∨ (ttlOf ttlSeconds).toInt * 1000000000 < 2 ^ 63 ∨
    ttlOf ttlSeconds * 1000000000 ≤ 0

theorem toInt_mul_second {n : Int64} (h0 : 0 ≤ n.toInt) (h : n.toInt * 1000000000 < 2 ^ 63) :
    (n * 1000000000).toInt = n.toInt * 1000000000 := by
  have hsecond : (1000000000 : Int64).toInt = 1000000000 := by decide
  rw [Int64.toInt_mul, hsecond]
  exact Int.bmod_eq_of_le (by norm_num; omega) (by norm_num at h ⊢; omega)

theorem toInt_div_second {n : Int64} (h : 0 ≤ n.toInt) :
    (n / 1000000000).toInt = n.toInt / 1000000000 := by
  have hsecond : (1000000000 : Int64).toInt = 1000000000 := by decide
  have hlt := n.toInt_lt
  rw [Int64.toInt_div, hsecond, Int.tdiv_eq_ediv_of_nonneg h]
  exact Int.bmod_eq_of_le (by norm_num; omega) (by norm_num at hlt ⊢; omega)

/-- A lifetime in whole seconds moves the expiry by that many seconds. -/
theorem unix_add {now : Time} {seconds : Int} (hlo : 0 ≤ now.sec.toInt)
    (hhi : now.sec.toInt < 2 ^ 61) (h0 : 0 ≤ seconds) (h : seconds * 1000000000 < 2 ^ 63) :
    (now.add (seconds * 1000000000)).unix.toInt = now.unix.toInt + seconds := by
  have hnsec := now.nsec.isLt
  have hdiv : ((now.nsec.val : Int) + seconds * 1000000000) / 1000000000 = seconds := by omega
  have hlt : now.sec.toInt + seconds < 2 ^ 62 := by norm_num at h hhi ⊢; omega
  have hsec : (now.add (seconds * 1000000000)).sec = Int64.ofInt (now.sec.toInt + seconds) := by
    unfold Time.add
    dsimp only
    rw [hdiv, if_neg (by norm_num at hlt ⊢; omega), if_neg (by norm_num; omega)]
  have hconst : Time.unixToInternal.toInt = 62135596800 := by decide
  have hleft : (Int64.ofInt (now.sec.toInt + seconds)).toInt = now.sec.toInt + seconds :=
    Int64.toInt_ofInt_of_le (by norm_num; omega) (by norm_num at hlt ⊢; omega)
  rw [Time.unix, Time.unix, hsec, Int64.toInt_sub, Int64.toInt_sub, hleft, hconst,
    Int.bmod_eq_of_le (by norm_num; omega) (by norm_num at hlt ⊢; omega),
    Int.bmod_eq_of_le (by norm_num; omega) (by norm_num at hlt ⊢; omega)]
  omega

/-- What a request for a signed URL does when its hostname is accepted. -/
theorem handleRouteSignedURL_eq {site : Site} {hostname host : String}
    (hhost : normalizeRouteAuthHostname site.unicode site.baseDomain hostname = .ok host)
    (ttlSeconds : Int64) :
    handleRouteSignedURL site (some (hostname, ttlSeconds)) =
      if ttlOf ttlSeconds < 0 then ret (.apiError 400 (.msg "ttl_seconds must be positive"))
      else if ttlOf ttlSeconds * 1000000000 ≤ 0 then
        ret (.apiError 500 (.msg "ttl must be positive"))
      else act .now fun now =>
        act (.token .signedURL (bytes host) (now.add (ttlOf ttlSeconds * 1000000000).toInt))
          fun
          | .error e => ret (.apiError 500 e)
          | .ok token =>
            ret (.signed host token (ttlOf ttlSeconds * 1000000000 / 1000000000)) := by
  unfold handleRouteSignedURL
  dsimp only
  rw [hhost]
  change (if ttlOf ttlSeconds < 0 then _ else
    (signedURL host (ttlOf ttlSeconds * 1000000000)).bind _) = _
  by_cases hneg : ttlOf ttlSeconds < 0
  · rw [if_pos hneg, if_pos hneg]
  · rw [if_neg hneg, if_neg hneg]
    unfold signedURL
    by_cases hzero : ttlOf ttlSeconds * 1000000000 ≤ 0
    · rw [if_pos hzero, if_pos hzero]
      rfl
    · rw [if_neg hzero, if_neg hzero]
      rfl

theorem reportsTTL_iff {site : Site} {hostname host : String}
    (hhost : normalizeRouteAuthHostname site.unicode site.baseDomain hostname = .ok host)
    (ttlSeconds : Int64) : ReportsTTL site hostname ttlSeconds ↔ TTLFits ttlSeconds := by
  unfold ReportsTTL TTLFits
  rw [handleRouteSignedURL_eq hhost]
  generalize ttlOf ttlSeconds = ttl
  by_cases hneg : ttl < 0
  · rw [if_pos hneg]
    refine iff_of_true ?_ (Or.inl hneg)
    rintro host token n ⟨⟩
  · rw [if_neg hneg]
    by_cases hzero : ttl * 1000000000 ≤ 0
    · rw [if_pos hzero]
      refine iff_of_true ?_ (Or.inr (Or.inr hzero))
      rintro host token n ⟨⟩
    · rw [if_neg hzero]
      have h0 : 0 ≤ ttl.toInt := by simpa [Int64.lt_iff_toInt_lt] using hneg
      have hpos : 0 < (ttl * 1000000000).toInt := by simpa [Int64.le_iff_toInt_le] using hzero
      have hdiv := toInt_div_second hpos.le
      constructor
      · intro h
        -- The first tick of the clock and a token will do.
        obtain ⟨heq, -⟩ := ((h ⟨0, 0⟩ ⟨by decide, by decide⟩).2 (.ok []) trivial).2 _ _ _ rfl
        have hlt := (ttl * 1000000000).toInt_lt
        rw [heq] at hdiv
        exact Or.inr (Or.inl (by omega))
      · rintro (hneg' | hfits | hzero')
        · exact absurd hneg' hneg
        · have hexact := toInt_mul_second h0 hfits
          intro now hnow
          refine ⟨trivial, fun answer _ => ⟨trivial, ?_⟩⟩
          cases answer with
          | error e => rintro host token n ⟨⟩
          | ok token =>
            rintro host' token' n ⟨⟩
            refine ⟨?_, now, _, rfl, ?_⟩
            · rw [← Int64.toInt_inj, hdiv, hexact]
              omega
            · rw [hexact]
              exact unix_add hnow.1 hnow.2 h0 hfits
        · exact absurd hzero' hzero

/-! ## The time until a stopped VM is archived -/

/-- No VM is selected that has been stopped for less than the given seconds. -/
def ArchivesInTime (seconds : Int) : Prop :=
  ∀ vm now, shouldArchiveAfter seconds vm now = true →
    ∃ stamp, vm.stoppedAt = some stamp ∧ (parseStamp stamp : Int) + seconds * 1000000000 ≤ now

theorem archivesInTime_iff {seconds : Int} (h0 : 0 ≤ seconds) :
    ArchivesInTime seconds ↔ seconds * 1000000000 < 2 ^ 63 := by
  constructor
  · intro h
    by_contra hwraps
    -- A VM that was stopped at the start and is selected as soon as it can be.
    have hsmall : secondsDuration seconds < 2 ^ 63 := by
      rcases secondsDuration_eq seconds with ⟨heq, hlt⟩ | ⟨hneg, -⟩ <;> omega
    obtain ⟨stamp, hstamp, hlate⟩ := h ⟨{ VMRow.sample "a" 1 with stoppedAt := some 0 }, 0⟩
      (secondsDuration seconds).toNat (by
        simp [shouldArchiveAfter, VMRow.sample, parseStamp])
    obtain rfl : stamp = 0 := by simpa using hstamp.symm
    simp only [parseStamp] at hlate
    omega
  · intro hfits vm now hselected
    rw [shouldArchiveAfter, secondsDuration_of_lt h0 hfits] at hselected
    cases hstopped : vm.stoppedAt with
    | none => simp [hstopped] at hselected
    | some stamp =>
      exact ⟨stamp, rfl, by simpa [hstopped] using (Bool.and_eq_true_iff.mp hselected).2⟩

/-! ## Sizes with a suffix -/

inductive SizeError
  | required
  | suffix (last : UInt8)
  | invalid (text : Bytes)
deriving DecidableEq

/-- The unit of a suffix. -/
def sizeUnit (last : UInt8) : Option Int :=
  if last = 107 ∨ last = 75 then some 1024
  else if last = 109 ∨ last = 77 then some (1024 * 1024)
  else if last = 103 ∨ last = 71 then some (1024 * 1024 * 1024)
  else none

/-- The digits of a size, and its unit. -/
def splitSize (text : Bytes) : Except SizeError (Bytes × Int) :=
  match text.getLast? with
  | none => .error .required
  | some last =>
    if isDigit last then .ok (text, 1)
    else
      match sizeUnit last with
      | none => .error (.suffix last)
      | some unit => .ok (text.dropLast, unit)

/-- The value of the digits, with the unit. -/
def readNumber (text : Bytes) (unit : Int) : Except SizeError (Int × Int) :=
  match parseInt text with
  | none => .error (.invalid text)
  | some n => if n.toInt ≤ 0 then .error (.invalid text) else .ok (n.toInt, unit)

/-- The number and the unit of a size. -/
def readSize (value : Bytes) : Except SizeError (Int × Int) :=
  match splitSize (trimSpaceBytes value) with
  | .error e => .error e
  | .ok (text, unit) => readNumber text unit

/-- `parseSize`. -/
def parseSize (value : Bytes) : Except SizeError Int :=
  (readSize value).map fun size => int64 (size.1 * size.2)

/-- A size that is accepted is the number times its unit. -/
def ExactSize (value : Bytes) : Prop :=
  ∀ n unit, readSize value = .ok (n, unit) → parseSize value = .ok (n * unit)

theorem splitSize_unit_pos {text digits : Bytes} {unit : Int}
    (h : splitSize text = .ok (digits, unit)) : 0 < unit := by
  unfold splitSize at h
  split at h
  · cases h
  · rename_i last _
    split_ifs at h
    · cases h
      decide
    · unfold sizeUnit at h
      split_ifs at h <;> cases h <;> decide

theorem readSize_pos {value : Bytes} {n unit : Int} (h : readSize value = .ok (n, unit)) :
    0 < n ∧ 0 < unit := by
  unfold readSize at h
  cases hsplit : splitSize (trimSpaceBytes value) with
  | error e => simp [hsplit] at h
  | ok parts =>
    simp only [hsplit, readNumber] at h
    split at h
    · cases h
    · rename_i m _
      split_ifs at h with hle
      obtain ⟨rfl, rfl⟩ : m.toInt = n ∧ parts.2 = unit := by simpa using Except.ok.inj h
      exact ⟨by omega, splitSize_unit_pos hsplit⟩

theorem int64_lt (n : Int) : int64 n < 2 ^ 63 := by
  have h : n.bmod (2 ^ 64) < ((2 ^ 64 : Nat) + 1) / 2 := Int.bmod_lt (by norm_num)
  norm_num at h ⊢
  exact h

theorem exactSize_iff (value : Bytes) :
    ExactSize value ↔ ∀ n unit, readSize value = .ok (n, unit) → n * unit < 2 ^ 63 := by
  refine forall₂_congr fun n unit => forall_congr' fun hread => ?_
  obtain ⟨hn, hunit⟩ := readSize_pos hread
  have hpos : 0 < n * unit := Int.mul_pos hn hunit
  rw [parseSize, hread]
  constructor
  · intro h
    have hwrap : int64 (n * unit) = n * unit := Except.ok.inj h
    rw [← hwrap]
    exact int64_lt _
  · intro h
    change Except.ok (int64 (n * unit)) = _
    rw [int64_of_lt (by omega) h]

/-! ## All three -/

/-- Each of the three numbers is scaled exactly as long as the product fits, or the
number is refused. -/
theorem scaled_exact_iff {site : Site} {hostname host : String}
    (hhost : normalizeRouteAuthHostname site.unicode site.baseDomain hostname = .ok host)
    (ttlSeconds : Int64) {seconds : Int} (hseconds : 0 ≤ seconds) (size : Bytes) :
    (ReportsTTL site hostname ttlSeconds ↔ TTLFits ttlSeconds) ∧
    (ArchivesInTime seconds ↔ seconds * 1000000000 < 2 ^ 63) ∧
    (ExactSize size ↔ ∀ n unit, readSize size = .ok (n, unit) → n * unit < 2 ^ 63) :=
  ⟨reportsTTL_iff hhost ttlSeconds, archivesInTime_iff hseconds, exactSize_iff size⟩

theorem normalizeRouteAuthHostname_sample :
    normalizeRouteAuthHostname Site.sample.unicode Site.sample.baseDomain "a.example.com" =
      .ok "a.example.com" := by
  decide

theorem scaled_exact_iff_sample :
    (ReportsTTL Site.sample "a.example.com" 3600 ↔ TTLFits 3600) ∧
    (ArchivesInTime 60 ↔ (60 : Int) * 1000000000 < 2 ^ 63) ∧
    (ExactSize (bytes "2G") ↔
      ∀ n unit, readSize (bytes "2G") = .ok (n, unit) → n * unit < 2 ^ 63) :=
  scaled_exact_iff normalizeRouteAuthHostname_sample 3600 (by decide) (bytes "2G")

/-- A lifetime that wraps to a third of a second, a VM that is archived one second
after it was stopped, and a size that wraps to zero. -/
theorem scaled_wraps :
    ¬ ReportsTTL Site.sample "a.example.com" 18446744074 ∧
    shouldArchiveAfter 18446744074 ⟨{ VMRow.sample "a" 1 with stoppedAt := some 0 }, 0⟩
      1000000000 = true ∧
    readSize (bytes "17179869184G") = .ok (17179869184, 1073741824) ∧
    parseSize (bytes "17179869184G") = .ok 0 := by
  refine ⟨?_, by decide, by decide, by decide⟩
  rw [reportsTTL_iff normalizeRouteAuthHostname_sample]
  unfold TTLFits
  decide

end Firedoze
