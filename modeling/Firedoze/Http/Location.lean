import Firedoze.Path.Clean

/-!
# Redirects to a local path, and where a browser goes

`redirect` is the header `Location` that `http.Redirect` sends for a path with
one leading slash: the path is cleaned if `url.Parse` accepts it, bytes beyond
ASCII are escaped, and the header is written on one line.  `Browser.resolve` is
what the URL rules of a browser make of such a header, up to the host.  Tabs
and newlines are removed, a backslash counts as a slash, and what follows two
slashes is an authority.  The parser of authorities is a parameter.

Behind the first slash the header may start with a second one.
`startsAuthority` is this test, and it does not see the steps between
`http.Redirect` and the browser (`startsAuthority_hexEscapeNonASCII`,
`startsAuthority_map_newlineToSpace`, `startsAuthority_rdropWhile`).
`resolve_redirect_iff` is the result: a browser stays at its origin exactly if
the path, as it was given, is not `Doubled`.
-/

namespace Http

open Text Path

/-! ## What the server sends -/

def tab : UInt8 := 9

def backslash : UInt8 := 92

/-- The bytes that `url.Parse` refuses. -/
def isControl (b : UInt8) : Bool := b < 32 || b == 127

def isHex (b : UInt8) : Bool :=
  48 ≤ b && b ≤ 57 || 97 ≤ b && b ≤ 102 || 65 ≤ b && b ≤ 70

/-- Every percent sign stands before two hexadecimal digits. -/
def validEscapes : Bytes → Bool
  | [] => true
  | b :: rest =>
      if b = 37 then
        match rest with
        | x :: y :: rest => isHex x && isHex y && validEscapes rest
        | _ => false
      else validEscapes rest

/-- `url.Parse` accepts a path with one leading slash.  The control bytes of
the fragment are not looked at. -/
def parses (url : Bytes) : Bool :=
  let reference := url.takeWhile (· != 35)
  let fragment := (url.dropWhile (· != 35)).drop 1
  !reference.any isControl && validEscapes (reference.takeWhile (· != 63)) && validEscapes fragment

/-- The part before the question mark, with what may look like a fragment. -/
def pathPart (url : Bytes) : Bytes := url.takeWhile (· != 63)

def queryPart (url : Bytes) : Bytes := url.dropWhile (· != 63)

/-- The cleaning of `http.Redirect`, which keeps a trailing slash. -/
def cleanURL (url : Bytes) : Bytes :=
  let cleaned := clean (pathPart url)
  (if (pathPart url).getLast? = some slash ∧ cleaned.getLast? ≠ some slash then
    cleaned ++ [slash] else cleaned) ++ queryPart url

def hexDigit (n : UInt8) : UInt8 := if n < 10 then 48 + n else 87 + n

/-- `hexEscapeNonASCII`. -/
def hexEscapeNonASCII (url : Bytes) : Bytes :=
  url.flatMap fun b => if b < 128 then [b] else [37, hexDigit (b / 16), hexDigit (b % 16)]

/-- `headerNewlineToSpace`. -/
def newlineToSpace (b : UInt8) : UInt8 := if b = 10 ∨ b = 13 then 32 else b

def isASCIISpace (b : UInt8) : Bool := b == 32 || b == 9 || b == 10 || b == 13

/-- The value of a header as it is written. -/
def headerValue (v : Bytes) : Bytes :=
  ((v.map newlineToSpace).dropWhile isASCIISpace).rdropWhile isASCIISpace

/-- The header `Location` of `http.Redirect` for a path with one leading
slash. -/
def redirect (url : Bytes) : Bytes :=
  headerValue (hexEscapeNonASCII (if parses url then cleanURL url else url))

/-! ## What a browser makes of it -/

inductive Scheme
  | http
  | https
  deriving DecidableEq, Repr

/-- Scheme, host and port of a URL.  The default port is `none`. -/
structure Origin where
  scheme : Scheme
  host : Bytes
  port : Option Nat
  deriving DecidableEq

/-- The parts of a URL parser that are not modelled: authorities, and texts
that do not start with a slash. -/
structure Browser where
  authority : Scheme → Bytes → Option (Bytes × Option Nat)
  other : Origin → Bytes → Option Origin

def isSlash (b : UInt8) : Bool := b == slash || b == backslash

def isTabOrNewline (b : UInt8) : Bool := b == 9 || b == 10 || b == 13

/-- C0 controls and the space. -/
def isC0OrSpace (b : UInt8) : Bool := b ≤ 32

/-- An authority ends at a slash, a question mark or a number sign. -/
def endsAuthority (b : UInt8) : Bool := isSlash b || b == 63 || b == 35

/-- The text that the URL parser works on. -/
def urlText (input : Bytes) : Bytes :=
  ((input.dropWhile isC0OrSpace).rdropWhile isC0OrSpace).filter fun b => !isTabOrNewline b

/-- The origin of a text that is resolved against a URL with the given
origin. -/
def Browser.resolve (B : Browser) (base : Origin) (input : Bytes) : Option Origin :=
  match urlText input with
  | [] => some base
  | first :: rest =>
      if isSlash first = false then B.other base (first :: rest)
      else if rest.head?.any isSlash then
        (B.authority base.scheme ((rest.dropWhile isSlash).takeWhile (!endsAuthority ·))).map
          fun (host, port) => ⟨base.scheme, host, port⟩
      else some base

/-! ## The second slash -/

/-- Without its tabs the text starts with a slash or a backslash. -/
def startsAuthority (t : Bytes) : Bool := (t.filter (· != tab)).head?.any isSlash

/-- A byte with a property that the two slashes do not have. -/
theorem isSlash_eq_false {p : UInt8 → Bool} {b : UInt8} (hslash : p slash = false)
    (hbackslash : p backslash = false) (hb : p b = true) : isSlash b = false := by
  unfold isSlash
  have hne : b ≠ slash := by
    rintro rfl
    simp [hslash] at hb
  have hne' : b ≠ backslash := by
    rintro rfl
    simp [hbackslash] at hb
  simp [hne, hne']

theorem startsAuthority_tab (t : Bytes) : startsAuthority (tab :: t) = startsAuthority t := by
  simp [startsAuthority]

theorem startsAuthority_cons {b : UInt8} (h : b ≠ tab) (t : Bytes) :
    startsAuthority (b :: t) = isSlash b := by
  simp [startsAuthority, h]

theorem startsAuthority_append (t rest : Bytes) :
    startsAuthority (t ++ rest) =
      (startsAuthority t || t.all (· == tab) && startsAuthority rest) := by
  induction t with
  | nil => simp [startsAuthority]
  | cons b t ih =>
    by_cases hb : b = tab
    · subst hb
      simp [startsAuthority_tab, ih]
    · rw [List.cons_append, startsAuthority_cons hb, startsAuthority_cons hb]
      simp [hb]

theorem startsAuthority_hexEscapeNonASCII (t : Bytes) :
    startsAuthority (hexEscapeNonASCII t) = startsAuthority t := by
  induction t with
  | nil => rfl
  | cons b t ih =>
    have hcons : hexEscapeNonASCII (b :: t) =
        (if b < 128 then [b] else [37, hexDigit (b / 16), hexDigit (b % 16)]) ++
          hexEscapeNonASCII t := rfl
    rw [hcons]
    split_ifs with hb
    · by_cases htab : b = tab
      · subst htab
        simpa [startsAuthority_tab] using ih
      · simp [startsAuthority_cons htab]
    · have hslash : isSlash b = false :=
        isSlash_eq_false (p := fun b => !decide (b < 128)) (by decide) (by decide)
          (by simpa using hb)
      have htab : b ≠ tab := fun htab => hb (by rw [htab]; decide)
      rw [startsAuthority_cons htab, hslash]
      rfl

theorem startsAuthority_map_newlineToSpace (t : Bytes) :
    startsAuthority (t.map newlineToSpace) = startsAuthority t := by
  induction t with
  | nil => rfl
  | cons b t ih =>
    rw [List.map_cons]
    by_cases hb : b = 10 ∨ b = 13
    · have hspace : newlineToSpace b = 32 := if_pos hb
      rw [hspace]
      rcases hb with rfl | rfl <;> rfl
    · have hsame : newlineToSpace b = b := if_neg hb
      rw [hsame]
      by_cases htab : b = tab
      · rw [htab, startsAuthority_tab, startsAuthority_tab, ih]
      · rw [startsAuthority_cons htab, startsAuthority_cons htab]

theorem startsAuthority_concat {b : UInt8} (hb : isSlash b = false) (t : Bytes) :
    startsAuthority (t ++ [b]) = startsAuthority t := by
  unfold startsAuthority
  rw [List.filter_append, List.head?_append]
  cases (t.filter (· != tab)).head? with
  | some c => rfl
  | none =>
    by_cases htab : b = tab
    · simp [htab]
    · simp [htab, hb]

theorem startsAuthority_rdropWhile {p : UInt8 → Bool} (hslash : p slash = false)
    (hbackslash : p backslash = false) (t : Bytes) :
    startsAuthority (t.rdropWhile p) = startsAuthority t := by
  induction t using List.reverseRecOn with
  | nil => rfl
  | append_singleton t b ih =>
    by_cases hb : p b = true
    · rw [List.rdropWhile_concat_pos _ _ _ hb, ih,
        startsAuthority_concat (isSlash_eq_false hslash hbackslash hb)]
    · rw [List.rdropWhile_concat_neg _ _ _ hb]

/-- A byte that is not dropped keeps its place in front. -/
theorem rdropWhile_cons {p : UInt8 → Bool} {b : UInt8} (hb : p b = false) (t : Bytes) :
    (b :: t).rdropWhile p = b :: t.rdropWhile p := by
  induction t using List.reverseRecOn with
  | nil => simp [List.rdropWhile, hb]
  | append_singleton t c ih =>
    rw [← List.cons_append]
    by_cases hc : p c = true
    · rw [List.rdropWhile_concat_pos _ _ _ hc, List.rdropWhile_concat_pos _ _ _ hc, ih]
    · rw [List.rdropWhile_concat_neg _ _ _ hc, List.rdropWhile_concat_neg _ _ _ hc,
        List.cons_append]

/-! ## From the path to the browser -/

/-- The bytes of a header hold no newline. -/
theorem newline_notMem_headerValue {v : Bytes} {b : UInt8} (h : b ∈ headerValue v) :
    b ≠ 10 ∧ b ≠ 13 := by
  have hmap : b ∈ v.map newlineToSpace :=
    (List.dropWhile_sublist _).subset ((List.rdropWhile_prefix _ _).subset h)
  obtain ⟨c, -, rfl⟩ := List.mem_map.mp hmap
  unfold newlineToSpace
  split_ifs with hc
  · decide
  · exact not_or.mp hc

/-- A header that starts with a slash is read as a slash, and behind it the
test gives the same answer. -/
theorem urlText_headerValue (t : Bytes) :
    ∃ t', urlText (headerValue (slash :: t)) = slash :: t' ∧
      t'.head?.any isSlash = startsAuthority t := by
  have hheader : headerValue (slash :: t) =
      slash :: (t.map newlineToSpace).rdropWhile isASCIISpace := by
    unfold headerValue
    rw [List.map_cons]
    have hslash : newlineToSpace slash = slash := by decide
    rw [hslash, List.dropWhile_cons_of_neg (by decide), rdropWhile_cons (by decide)]
  have hnewlines : ∀ b ∈ (t.map newlineToSpace).rdropWhile isASCIISpace, b ≠ 10 ∧ b ≠ 13 := by
    intro b hb
    refine newline_notMem_headerValue (v := slash :: t) ?_
    rw [hheader]
    exact List.mem_cons_of_mem _ hb
  rw [hheader]
  generalize hu : (t.map newlineToSpace).rdropWhile isASCIISpace = u at hnewlines
  refine ⟨(u.rdropWhile isC0OrSpace).filter fun b => !isTabOrNewline b, ?_, ?_⟩
  · unfold urlText
    rw [List.dropWhile_cons_of_neg (by decide), rdropWhile_cons (by decide)]
    exact List.filter_cons_of_pos (by decide)
  · have hfilter : (u.rdropWhile isC0OrSpace).filter (fun b => !isTabOrNewline b) =
        (u.rdropWhile isC0OrSpace).filter (· != tab) := by
      refine List.filter_congr fun b hb => ?_
      have hb' := hnewlines b ((List.rdropWhile_prefix _ _).subset hb)
      have h10 : (b == 10) = false := by simpa using hb'.1
      have h13 : (b == 13) = false := by simpa using hb'.2
      simp only [isTabOrNewline, h10, h13, Bool.or_false]
      rfl
    rw [hfilter]
    change startsAuthority (u.rdropWhile isC0OrSpace) = startsAuthority t
    rw [startsAuthority_rdropWhile (by decide) (by decide), ← hu,
      startsAuthority_rdropWhile (by decide) (by decide), startsAuthority_map_newlineToSpace]

/-! ## Which paths leave the origin -/

/-- The path as it was given, with one leading slash, is read with two.  If
`url.Parse` accepts it, this is decided by the first element that is left when
the path is clean: without its tabs it starts with a backslash, or it is made
of tabs only and a slash follows. -/
def Doubled (url : Bytes) : Bool :=
  if parses url then
    match cleanElements true ((pathPart url).splitOn slash) with
    | [] => false
    | e :: es =>
        startsAuthority e ||
          e.all (· == tab) && (es != [] || (pathPart url).getLast? == some slash)
  else startsAuthority (url.drop 1)

theorem startsAuthority_queryPart (url : Bytes) : startsAuthority (queryPart url) = false := by
  cases hquery : queryPart url with
  | nil => rfl
  | cons b rest =>
    have hb : b = 63 := by
      have hhead := List.head?_dropWhile_not (· != 63) url
      unfold queryPart at hquery
      rw [hquery] at hhead
      simpa using hhead
    subst hb
    rfl

/-- A path of names does not end in a slash. -/
theorem getLast?_join {es : List Bytes} (h : ∀ e ∈ es, IsName e) (hne : es ≠ []) :
    ∃ b, (join es).getLast? = some b ∧ b ≠ slash := by
  have hlast := List.getLast?_eq_getLast_of_ne_nil hne
  have he : IsName (es.getLast hne) := h _ (List.getLast_mem hne)
  rw [join, getLast?_intercalate hlast he.ne_nil]
  cases hend : (es.getLast hne).getLast? with
  | none => exact absurd (List.getLast?_eq_none_iff.mp hend) he.ne_nil
  | some b => exact ⟨b, rfl, fun hb => he.no_slash (hb ▸ List.mem_of_getLast? hend)⟩

/-- What `http.Redirect` makes of a path with one leading slash. -/
theorem redirectURL_cons (rest : Bytes) :
    ∃ t, (if parses (slash :: rest) then cleanURL (slash :: rest) else slash :: rest) = slash :: t ∧
      startsAuthority t = Doubled (slash :: rest) := by
  unfold Doubled
  split_ifs with hparses
  swap
  · exact ⟨rest, rfl, rfl⟩
  have hpath : pathPart (slash :: rest) = slash :: rest.takeWhile (· != 63) :=
    List.takeWhile_cons_of_pos (by decide)
  have hroot : isRooted (pathPart (slash :: rest)) = true := by rw [hpath]; rfl
  obtain ⟨n, names, hstack, hnames, hn⟩ := stacked_cleanElements true (pathPart (slash :: rest))
  obtain rfl : n = 0 := hn rfl
  rw [List.replicate_zero, List.nil_append] at hstack
  unfold cleanURL clean
  rw [hroot, hstack]
  generalize pathPart (slash :: rest) = path
  cases names with
  | nil =>
    refine ⟨queryPart (slash :: rest), ?_, startsAuthority_queryPart _⟩
    simp [render, join]
  | cons e es =>
    have hlast : (slash :: join (e :: es)).getLast? ≠ some slash := by
      obtain ⟨b, hb, hne⟩ := getLast?_join hnames (by simp)
      rw [List.getLast?_cons, hb]
      simpa using hne
    refine ⟨join (e :: es) ++ ((if path.getLast? = some slash then [slash] else []) ++
      queryPart (slash :: rest)), ?_, ?_⟩
    · simp only [render, if_true, hlast, ne_eq, not_false_eq_true, and_true]
      split_ifs <;> simp
    · cases es with
      | nil =>
        have hjoin : join [e] = e := by simp [join]
        rw [hjoin, startsAuthority_append, startsAuthority_append, startsAuthority_queryPart]
        by_cases hslash : path.getLast? = some slash
        · rw [if_pos hslash, startsAuthority_cons (by decide)]
          simp [hslash, isSlash]
        · rw [if_neg hslash]
          simp [hslash, startsAuthority]
      | cons e' es =>
        have hjoin : join (e :: e' :: es) = e ++ (slash :: join (e' :: es)) := by
          simp [join, List.intercalate_cons_cons]
        rw [hjoin, List.append_assoc, startsAuthority_append, List.cons_append,
          startsAuthority_cons (by decide)]
        have hmore : (e' :: es != []) = true := rfl
        dsimp only
        rw [hmore]
        simp [isSlash]

/-- A browser stays at its origin, whatever the origin is, exactly if the path
is not read with two slashes. -/
theorem resolve_redirect_iff (B : Browser) (rest : Bytes) :
    (∀ base, B.resolve base (redirect (slash :: rest)) = some base) ↔
      Doubled (slash :: rest) = false := by
  obtain ⟨t, hurl, ht⟩ := redirectURL_cons rest
  have hescape : hexEscapeNonASCII (slash :: t) = slash :: hexEscapeNonASCII t := rfl
  obtain ⟨t', htext, ht'⟩ := urlText_headerValue (hexEscapeNonASCII t)
  rw [startsAuthority_hexEscapeNonASCII, ht] at ht'
  unfold redirect Browser.resolve
  rw [hurl, hescape, htext]
  simp only [ht', show isSlash slash = true from rfl, Bool.true_eq_false, if_false]
  cases Doubled (slash :: rest) with
  | false => simp
  | true =>
    simp only [if_true, Bool.true_eq_false, iff_false, not_forall]
    -- One of two hosts is not the one that is read.
    cases hauth : B.authority .http ((t'.dropWhile isSlash).takeWhile (!endsAuthority ·)) with
    | none => exact ⟨⟨.http, [], none⟩, by simp [hauth]⟩
    | some a =>
      refine ⟨⟨.http, slash :: a.1, none⟩, ?_⟩
      simp [hauth]

end Http
