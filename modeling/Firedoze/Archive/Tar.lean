import Firedoze.Text.Framing

/-!
# Tar archives in gzip streams

`Writer` and `Reader` are the writer and the reader of the package
`archive/tar`: the blocks of an entry, its padding, the two blocks of zeros at
the end, and what happens when an entry or the archive is cut short.  The
bytes of a header are left to a `HeaderCodec`, and those of a gzip stream to
`Gzip`.  Both carry the laws of the packages: a reader undoes its writer, and
a stream that is cut short is read as a part of it with an error at its end.

A `Stream` is what a reader delivers, with the way it ends, and
`Stream.Delivers` says that it delivers some bytes, or a part of them with an
error at its end.  The lemmas follow one entry through the reader.

* `next_header`, `readAll_append` and `next_trailer` read what is there.
* `next_cut` and `readAll_cut` find that it is cut short.
* `next_delivers_file`, `readAll_delivers` and `next_delivers_trailer` say what
  becomes of a stream that may be cut.

`Gzip.plain` and `HeaderCodec.plain` are formats that satisfy the laws.
-/

namespace Archive

open Text

/-- A cut lies in the first part, or in the second one. -/
theorem prefix_append_cases {α : Type} {p a b : List α} (h : p <+: a ++ b) :
    p <+: a ∧ p ≠ a ∨ ∃ q, q <+: b ∧ p = a ++ q := by
  rcases List.prefix_or_prefix_of_prefix h (List.prefix_append a b) with hp | ⟨q, rfl⟩
  · by_cases heq : p = a
    · exact Or.inr ⟨[], List.nil_prefix, by simp [heq]⟩
    · exact Or.inl ⟨hp, heq⟩
  · exact Or.inr ⟨q, (List.prefix_append_right_inj a).mp h, rfl⟩

theorem length_lt_of_prefix {α : Type} {p a : List α} (h : p <+: a) (hne : p ≠ a) :
    p.length < a.length :=
  lt_of_le_of_ne h.length_le fun hl => hne (h.eq_of_length hl)

/-! ## Streams -/

/-- What a reader delivers: the bytes, and whether `io.EOF` or another error
comes after them. -/
structure Stream where
  data : Bytes
  clean : Bool
  deriving DecidableEq

/-- The package `compress/gzip`.  A stream that is cut short has no valid
header, or it ends with an error. -/
structure Gzip where
  compress : Bytes → Bytes
  newReader : Bytes → Option Stream
  newReader_compress : ∀ d, newReader (compress d) = some ⟨d, true⟩
  newReader_cut : ∀ d p, p <+: compress d → p ≠ compress d →
    newReader p = none ∨ ∃ d', d' <+: d ∧ newReader p = some ⟨d', false⟩

/-- A stream delivers `b`, or a part of `b` with an error at its end. -/
def Stream.Delivers (s : Stream) (b : Bytes) : Prop :=
  s.data <+: b ∧ (s.clean = true → s.data = b)

/-- The first of two parts is cut short, or it is there and the stream goes on
with the second one. -/
theorem Stream.Delivers.append_cases {s : Stream} {a b : Bytes} (h : s.Delivers (a ++ b)) :
    (∃ p, p <+: a ∧ p ≠ a ∧ s = ⟨p, false⟩) ∨
      ∃ t : Stream, t.Delivers b ∧ s = ⟨a ++ t.data, t.clean⟩ := by
  obtain ⟨data, clean⟩ := s
  obtain ⟨hdata, hclean⟩ := h
  rcases prefix_append_cases hdata with ⟨hp, hne⟩ | ⟨q, hq, rfl⟩
  · have hlt : data.length < a.length := length_lt_of_prefix hp hne
    have hcut : clean = false := by
      rw [← Bool.not_eq_true]
      intro hc
      have hlen := congrArg List.length (hclean hc)
      simp only [List.length_append] at hlen
      omega
    exact Or.inl ⟨data, hp, hne, by rw [hcut]⟩
  · exact Or.inr ⟨⟨q, clean⟩, ⟨hq, fun hc => List.append_cancel_left (hclean hc)⟩, rfl⟩

/-- A part of a gzip stream delivers a part of its data. -/
theorem Gzip.newReader_delivers (G : Gzip) {d p : Bytes} (h : p <+: G.compress d) :
    G.newReader p = none ∨ ∃ s : Stream, s.Delivers d ∧ G.newReader p = some s := by
  by_cases hp : p = G.compress d
  · exact Or.inr ⟨⟨d, true⟩, ⟨List.prefix_refl d, fun _ => rfl⟩, hp ▸ G.newReader_compress d⟩
  · rcases G.newReader_cut d p h hp with hnone | ⟨d', hd, hsome⟩
    · exact Or.inl hnone
    · exact Or.inr ⟨⟨d', false⟩, ⟨hd, nofun⟩, hsome⟩

/-! ## Blocks -/

/-- Bytes of padding, or of the end of an archive. -/
def zeros (n : Nat) : Bytes := List.replicate n 0

/-- The number of bytes that fill the last block of an entry. -/
def padding (size : Nat) : Nat := (512 - size % 512) % 512

/-- The end of an archive: two blocks of zeros. -/
def trailer : Bytes := zeros 1024

@[simp] theorem length_zeros (n : Nat) : (zeros n).length = n := List.length_replicate

theorem drop_zeros_append (n : Nat) (b : Bytes) : (zeros n ++ b).drop n = b :=
  List.drop_left' (length_zeros n)

/-- The header of an entry. -/
structure Header where
  name : Bytes
  size : Nat
  isDir : Bool
  isRegular : Bool
  deriving DecidableEq

/-- The header that `WriteHeader` makes for a file. -/
def Header.file (name : Bytes) (size : Nat) : Header := ⟨name, size, false, true⟩

@[simp] theorem Header.file_name (name : Bytes) (size : Nat) : (file name size).name = name := rfl

@[simp] theorem Header.file_isDir (name : Bytes) (size : Nat) :
    (file name size).isDir = false := rfl

@[simp] theorem Header.file_isRegular (name : Bytes) (size : Nat) :
    (file name size).isRegular = true := rfl

/-- How a read of the archive ends: with `io.EOF` or with another error. -/
inductive ReadError
  | eof
  | invalid
  deriving DecidableEq

/-- A file that every format of an archive has room for: its name is short, of
visible ASCII characters and without a slash, and its size is an `int64`. -/
def Header.Fits (name : Bytes) (size : Nat) : Prop :=
  name ≠ [] ∧ name.length ≤ 100 ∧ (∀ b ∈ name, 32 < b ∧ b < 127 ∧ b ≠ 47) ∧ size < 2 ^ 63

/-- How headers are written and read.  A header, or the end of the archive,
that is cut short by an error of the stream is an error. -/
structure HeaderCodec where
  encode : Header → Int → Bytes
  decode : Stream → Except ReadError (Header × Stream)
  decode_encode : ∀ name size time rest clean, Header.Fits name size →
    decode ⟨encode (.file name size) time ++ rest, clean⟩ = .ok (.file name size, ⟨rest, clean⟩)
  decode_cut : ∀ name size time p, Header.Fits name size → p <+: encode (.file name size) time →
    p ≠ encode (.file name size) time → decode ⟨p, false⟩ = .error .invalid
  decode_trailer : ∀ rest clean, decode ⟨trailer ++ rest, clean⟩ = .error .eof
  decode_trailer_cut : ∀ p, p <+: trailer → p ≠ trailer → decode ⟨p, false⟩ = .error .invalid
  decode_shorter : ∀ s h s', decode s = .ok (h, s') → s'.data.length < s.data.length

/-! ## The writer -/

/-- `tar.Writer`: what was written, how many bytes of the entry are left, and
the padding that will follow them. -/
structure Writer where
  out : Bytes
  left : Nat
  pad : Nat

namespace Writer

variable (C : HeaderCodec) (w : Writer)

/-- `NewWriter`. -/
def new : Writer := ⟨[], 0, 0⟩

/-- `Flush` fails in the middle of an entry. -/
def flush : Option Writer := if w.left = 0 then some ⟨w.out ++ zeros w.pad, 0, 0⟩ else none

/-- `WriteHeader`. -/
def writeHeader (h : Header) (time : Int) : Option Writer :=
  w.flush.map fun w => ⟨w.out ++ C.encode h time, h.size, padding h.size⟩

/-- `Write`, and whether the entry had room for the bytes. -/
def write (data : Bytes) : Writer × Bool :=
  (⟨w.out ++ data.take w.left, w.left - data.length, w.pad⟩, decide (data.length ≤ w.left))

/-- `Close`, and whether the last entry was complete. -/
def close : Writer × Bool :=
  match w.flush with
  | none => (w, false)
  | some w => (⟨w.out ++ trailer, 0, 0⟩, true)

end Writer

/-! ## The reader -/

/-- `tar.Reader`: the rest of the stream, how many bytes of the entry are
left, and the padding after them. -/
structure Reader where
  stream : Stream
  left : Nat
  pad : Nat

/-- Pass over `n` bytes; `short` is the error if they are not there. -/
def Stream.skip (s : Stream) (n : Nat) (short : ReadError) : Except ReadError Stream :=
  if n ≤ s.data.length then .ok ⟨s.data.drop n, s.clean⟩ else .error short

namespace Reader

variable (C : HeaderCodec) (r : Reader)

/-- `NewReader`. -/
def new (s : Stream) : Reader := ⟨s, 0, 0⟩

/-- `Next`.  The end of the stream in the middle of an entry is an error, the
one in the middle of the padding is the end of the archive. -/
def next : Except ReadError (Header × Reader) :=
  match r.stream.skip r.left .invalid with
  | .error e => .error e
  | .ok s =>
      match s.skip r.pad (if s.clean then .eof else .invalid) with
      | .error e => .error e
      | .ok s =>
          match C.decode s with
          | .error e => .error e
          | .ok (h, s) => .ok (h, ⟨s, h.size, padding h.size⟩)

/-- All bytes of the entry, as `io.ReadAll` and `io.Copy` read them. -/
def readAll : Option (Bytes × Reader) :=
  if r.left ≤ r.stream.data.length then
    some (r.stream.data.take r.left, ⟨⟨r.stream.data.drop r.left, r.stream.clean⟩, 0, r.pad⟩)
  else none

end Reader

section Lemmas

variable {C : HeaderCodec} {name : Bytes} {size pad : Nat} {time : Int} {rest p : Bytes}
  {clean : Bool}

theorem skip_length_le {s s' : Stream} {n : Nat} {short : ReadError}
    (h : s.skip n short = .ok s') : s'.data.length ≤ s.data.length := by
  unfold Stream.skip at h
  split at h
  · cases h
    simp
  · cases h

/-- Each entry takes bytes from the stream. -/
theorem next_shorter {r r' : Reader} {h : Header} (hn : r.next C = .ok (h, r')) :
    r'.stream.data.length < r.stream.data.length := by
  unfold Reader.next at hn
  split at hn
  · cases hn
  · rename_i s₁ hs₁
    split at hn
    · cases hn
    · rename_i s₂ hs₂
      split at hn
      · cases hn
      · rename_i h' s₃ hs₃
        cases hn
        calc s₃.data.length < s₂.data.length := C.decode_shorter _ _ _ hs₃
          _ ≤ s₁.data.length := skip_length_le hs₂
          _ ≤ r.stream.data.length := skip_length_le hs₁

theorem readAll_length_le {r r' : Reader} {data : Bytes} (h : r.readAll = some (data, r')) :
    r'.stream.data.length ≤ r.stream.data.length := by
  unfold Reader.readAll at h
  split at h
  · cases h
    simp
  · cases h

/-- `Next` at the end of an entry that has been read. -/
theorem next_of_read {s : Stream} : (⟨s, 0, pad⟩ : Reader).next C =
    match s.skip pad (if s.clean then .eof else .invalid) with
    | .error e => .error e
    | .ok s =>
        match C.decode s with
        | .error e => .error e
        | .ok (h, s) => .ok (h, ⟨s, h.size, padding h.size⟩) := rfl

theorem skip_zeros {short : ReadError} :
    (⟨zeros pad ++ rest, clean⟩ : Stream).skip pad short = .ok ⟨rest, clean⟩ := by
  unfold Stream.skip
  rw [if_pos (by simp), drop_zeros_append]

theorem next_header {pad : Nat} (hfits : Header.Fits name size) :
    (⟨⟨zeros pad ++ (C.encode (.file name size) time ++ rest), clean⟩, 0, pad⟩ : Reader).next C =
      .ok (.file name size, ⟨⟨rest, clean⟩, size, padding size⟩) := by
  rw [next_of_read, skip_zeros]
  simp only [C.decode_encode _ _ _ _ _ hfits]
  rfl

theorem next_trailer :
    (⟨⟨zeros pad ++ (trailer ++ rest), clean⟩, 0, pad⟩ : Reader).next C = .error .eof := by
  rw [next_of_read, skip_zeros]
  simp only [C.decode_trailer]

/-- What follows the padding is cut short by an error of the stream. -/
theorem next_cut {part : Bytes}
    (hpart : ∀ q, q <+: part → q ≠ part → C.decode ⟨q, false⟩ = .error .invalid)
    (hp : p <+: zeros pad ++ part) (hne : p ≠ zeros pad ++ part) :
    (⟨⟨p, false⟩, 0, pad⟩ : Reader).next C = .error .invalid := by
  rw [next_of_read]
  rcases prefix_append_cases hp with ⟨hz, hz'⟩ | ⟨q, hq, rfl⟩
  · have hlt : p.length < pad := by simpa using length_lt_of_prefix hz hz'
    have hskip : (⟨p, false⟩ : Stream).skip pad .invalid = .error .invalid := by
      unfold Stream.skip
      rw [if_neg (by simpa using hlt)]
    simp only [Bool.false_eq_true, if_false, hskip]
  · rw [skip_zeros]
    simp only [hpart q hq fun h => hne (by rw [h])]

theorem readAll_append {data : Bytes} :
    (⟨⟨data ++ rest, clean⟩, data.length, pad⟩ : Reader).readAll =
      some (data, ⟨⟨rest, clean⟩, 0, pad⟩) := by
  simp [Reader.readAll]

theorem readAll_cut {data : Bytes} (hp : p <+: data) (hne : p ≠ data) :
    (⟨⟨p, clean⟩, data.length, pad⟩ : Reader).readAll = none := by
  unfold Reader.readAll
  rw [if_neg (by simpa using length_lt_of_prefix hp hne)]

/-! What `Next` and the read of an entry do on a stream that may be cut. -/

variable {s : Stream}

theorem next_delivers_file (hfits : Header.Fits name size)
    (h : s.Delivers (zeros pad ++ (C.encode (.file name size) time ++ rest))) :
    (⟨s, 0, pad⟩ : Reader).next C = .error .invalid ∨
      ∃ t : Stream, t.Delivers rest ∧
        (⟨s, 0, pad⟩ : Reader).next C = .ok (.file name size, ⟨t, size, padding size⟩) := by
  rw [← List.append_assoc] at h
  rcases h.append_cases with ⟨p, hp, hne, rfl⟩ | ⟨t, ht, rfl⟩
  · exact Or.inl (next_cut (C.decode_cut name size time · hfits) hp hne)
  · refine Or.inr ⟨t, ht, ?_⟩
    rw [List.append_assoc]
    exact next_header hfits

theorem next_delivers_trailer (h : s.Delivers (zeros pad ++ trailer)) :
    (⟨s, 0, pad⟩ : Reader).next C = .error .invalid ∨
      (⟨s, 0, pad⟩ : Reader).next C = .error .eof := by
  rw [← List.append_nil (zeros pad ++ trailer)] at h
  rcases h.append_cases with ⟨p, hp, hne, rfl⟩ | ⟨t, -, rfl⟩
  · exact Or.inl (next_cut C.decode_trailer_cut hp hne)
  · refine Or.inr ?_
    rw [List.append_assoc]
    exact next_trailer

theorem readAll_delivers (pad : Nat) {data : Bytes} (h : s.Delivers (data ++ rest)) :
    (⟨s, data.length, pad⟩ : Reader).readAll = none ∨
      ∃ t : Stream, t.Delivers rest ∧
        (⟨s, data.length, pad⟩ : Reader).readAll = some (data, ⟨t, 0, pad⟩) := by
  rcases h.append_cases with ⟨p, hp, hne, rfl⟩ | ⟨t, ht, rfl⟩
  · exact Or.inl (readAll_cut hp hne)
  · exact Or.inr ⟨t, ht, readAll_append⟩

/-- An archive that ends in the middle of an entry. -/
theorem readAll_delivers_part {data q : Bytes} (hq : q <+: data) (hne : q ≠ data)
    (h : s.Delivers q) : (⟨s, data.length, pad⟩ : Reader).readAll = none := by
  refine readAll_cut (h.1.trans hq) fun hdata => hne ?_
  exact hq.eq_of_length (Nat.le_antisymm hq.length_le (hdata ▸ h.1.length_le))

end Lemmas

/-! ## Plain formats -/

/-- A gzip stream that is a frame. -/
def Gzip.plain : Gzip where
  compress := frame
  newReader b := (unframe b).map fun r => ⟨r.1, true⟩
  newReader_compress d := by
    have h := unframe_frame d []
    rw [List.append_nil] at h
    rw [h]
    rfl
  newReader_cut d p hp hne := Or.inl (by rw [unframe_cut hp hne]; rfl)

namespace HeaderCodec

/-- A header that is a one and two frames: the name, and as many zeros as the
file has bytes. -/
def plainEncode (h : Header) (_time : Int) : Bytes := 1 :: (frame h.name ++ frame (zeros h.size))

/-- The frames of a header. -/
def plainFrames (b : Bytes) : Option (Header × Bytes) :=
  (unframe b).bind fun name => (unframe name.2).map fun size =>
    (Header.file name.1 size.1.length, size.2)

/-- `plainEncode` read back. -/
def plainDecode (s : Stream) : Except ReadError (Header × Stream) :=
  match s.data with
  | [] => .error (if s.clean then .eof else .invalid)
  | mark :: rest =>
      if mark = 0 then .error (if s.clean ∨ 1024 ≤ s.data.length then .eof else .invalid)
      else
        match plainFrames rest with
        | none => .error .invalid
        | some r => .ok (r.1, ⟨r.2, s.clean⟩)

theorem plainDecode_one (b : Bytes) (clean : Bool) :
    plainDecode ⟨1 :: b, clean⟩ =
      match plainFrames b with
      | none => .error .invalid
      | some r => .ok (r.1, ⟨r.2, clean⟩) := rfl

theorem plainFrames_encode (name rest : Bytes) (size : Nat) :
    plainFrames (frame name ++ frame (zeros size) ++ rest) = some (.file name size, rest) := by
  unfold plainFrames
  rw [List.append_assoc, unframe_frame, Option.bind_some, unframe_frame, Option.map_some,
    length_zeros]

theorem plainFrames_cut {name p : Bytes} {size : Nat} (hp : p <+: frame name ++ frame (zeros size))
    (hne : p ≠ frame name ++ frame (zeros size)) : plainFrames p = none := by
  unfold plainFrames
  rcases prefix_append_cases hp with ⟨hp', hne'⟩ | ⟨q, hq, rfl⟩
  · rw [unframe_cut hp' hne', Option.bind_none]
  · rw [unframe_frame, Option.bind_some, unframe_cut hq fun h => hne (by rw [h]), Option.map_none]

theorem plainFrames_shorter {b rest : Bytes} {h : Header} (hb : plainFrames b = some (h, rest)) :
    rest.length < b.length := by
  obtain ⟨name, hname, hrest⟩ := Option.bind_eq_some_iff.mp hb
  obtain ⟨size, hsize, heq⟩ := Option.map_eq_some_iff.mp hrest
  cases heq
  exact (unframe_shorter hsize).trans (unframe_shorter hname)

/-- Headers that are made of frames. -/
def plain : HeaderCodec where
  encode := plainEncode
  decode := plainDecode
  decode_encode name size time rest clean _ := by
    change plainDecode ⟨1 :: (frame name ++ frame (zeros size) ++ rest), clean⟩ = _
    rw [plainDecode_one, plainFrames_encode]
  decode_cut name size time p _ hp hne := by
    cases p with
    | nil => rfl
    | cons mark p =>
      obtain ⟨rfl, hp'⟩ := List.cons_prefix_cons.mp hp
      have hcut := plainFrames_cut hp' fun heq => hne (by rw [heq]; rfl)
      rw [plainDecode_one, hcut]
  decode_trailer rest clean := by
    have hlen : 1024 ≤ (trailer ++ rest).length := by simp [trailer]
    change Except.error (if clean = true ∨ 1024 ≤ (trailer ++ rest).length then _ else _) = _
    rw [if_pos (Or.inr hlen)]
  decode_trailer_cut p hp hne := by
    have hlen : ¬ 1024 ≤ p.length := by
      have hlt := length_lt_of_prefix hp hne
      simp only [trailer, length_zeros] at hlt
      omega
    cases p with
    | nil => rfl
    | cons mark p =>
      have hmark : mark = 0 :=
        (List.mem_replicate.mp (hp.subset (List.mem_cons_self))).2
      subst hmark
      change Except.error (if false = true ∨ 1024 ≤ (0 :: p).length then _ else _) = _
      rw [if_neg (by simpa using hlen)]
  decode_shorter s h s' hs := by
    unfold plainDecode at hs
    split at hs
    · cases hs
    · rename_i mark rest hdata
      split at hs
      · cases hs
      · split at hs
        · cases hs
        · rename_i r hframes
          cases hs
          have hlt := plainFrames_shorter hframes
          simp only [hdata, List.length_cons]
          omega

end HeaderCodec

end Archive
