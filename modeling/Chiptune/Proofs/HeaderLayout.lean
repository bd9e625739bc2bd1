import Chiptune.Album.Header
import Chiptune.Proofs.BlankText
import Mathlib

/-!
# Reading the header of an album inverts writing it

`Represents` says what 0x70 bytes stand for a header: sixteen of them are its
numbers, each at its own place, and three fields of 32 hold the texts. Reading
succeeds exactly on files that begin with such bytes. A field can hold a text in
many ways, with blanks around it or with anything after a NUL, but the written
field is one of them as long as the text has room in it, and every text that is
read has.
-/
namespace Chiptune.Album.Header

open Text (IsBlank IsTrimmed Trims)

/-! ### Text fields -/

/-- A field of 32 bytes that holds a text: the bytes before the first NUL, or all of them, are its
characters by their code points, with blanks around it. -/
def IsField (field : List UInt8) (text : String) : Prop :=
  field.length = 32 ∧ ∃ kept rest chars, field = kept ++ rest ∧ 0 ∉ kept ∧
    (∀ byte ∈ rest.head?, byte = 0) ∧ chars.map Char.toNat = kept.map UInt8.toNat ∧
    Trims chars text.toList

/-- A text that has room in a field, and that has nothing which a field does not keep. -/
structure FitsField (text : String) : Prop where
  length_le : text.toList.length ≤ 32
  latin1 : ∀ c ∈ text.toList, 1 ≤ c.toNat ∧ c.toNat ≤ 255
  trimmed : IsTrimmed text.toList

theorem toNat_ofUInt8 (byte : UInt8) : (Char.ofUInt8 byte).toNat = byte.toNat := rfl

theorem map_toNat_latin1 (bytes : List UInt8) :
    (latin1 bytes).map Char.toNat = bytes.map UInt8.toNat := by
  rw [latin1, List.map_map]
  rfl

/-- Blanks among the characters of one byte. -/
theorem isBlank_ofUInt8_iff (byte : UInt8) :
    IsBlank (Char.ofUInt8 byte) ↔
      (0x09 ≤ byte.toNat ∧ byte.toNat ≤ 0x0D) ∨ byte = 0x20 ∨ byte = 0x85 ∨ byte = 0xA0 := by
  have hlt := byte.toNat_lt
  simp only [IsBlank, Text.whiteSpace, toNat_ofUInt8, Finset.mem_insert, Finset.mem_singleton,
    ← UInt8.toNat_inj, UInt8.reduceToNat]
  omega

/-- The bytes of a text are those up to the first NUL. -/
theorem takeWhile_of_kept {kept rest : List UInt8} (hkept : 0 ∉ kept)
    (hrest : ∀ byte ∈ rest.head?, byte = 0) : (kept ++ rest).takeWhile (· != 0) = kept := by
  have hall : ∀ byte ∈ kept, (byte != 0) = true := fun byte hbyte =>
    bne_iff_ne.mpr fun hzero => hkept (hzero ▸ hbyte)
  rw [List.takeWhile_append_of_pos hall]
  cases rest with
  | nil => rw [List.takeWhile_nil, List.append_nil]
  | cons byte rest => rw [List.takeWhile_cons_of_neg (by simp [hrest byte rfl]), List.append_nil]

theorem IsField.fieldText_eq {field : List UInt8} {text : String} (h : IsField field text) :
    fieldText field = text := by
  obtain ⟨-, kept, rest, chars, rfl, hkept, hrest, hchars, htrims⟩ := h
  have hlatin1 : latin1 kept = chars := by
    apply List.map_injective_iff.mpr fun _ _ => Char.toNat_inj.mp
    rw [map_toNat_latin1, hchars]
  rw [fieldText, takeWhile_of_kept hkept hrest, hlatin1, Text.trim_eq_iff.mpr htrims,
    String.ofList_toList]

theorem isField_fieldText {field : List UInt8} (h : field.length = 32) :
    IsField field (fieldText field) := by
  refine ⟨h, field.takeWhile (· != 0), field.dropWhile (· != 0), latin1 (field.takeWhile (· != 0)),
    (List.takeWhile_append_dropWhile ..).symm, fun hzero => ?_, fun byte hbyte => ?_,
    map_toNat_latin1 _, ?_⟩
  · simpa using List.mem_takeWhile_imp hzero
  · have hhead := List.head?_dropWhile_not (· != 0) field
    rw [Option.mem_def.mp hbyte] at hhead
    simpa using hhead
  · rw [fieldText, String.toList_ofList]
    exact Text.trim_eq_iff.mp rfl

/-- A text that has been read has room in a field. -/
theorem IsField.fits {field : List UInt8} {text : String} (h : IsField field text) :
    FitsField text := by
  obtain ⟨hlength, kept, rest, chars, rfl, hkept, -, hchars, htrimmed, before, after, hparts, -⟩ :=
    h
  have hmem : ∀ c ∈ text.toList, c.toNat ∈ kept.map UInt8.toNat := by
    intro c hc
    rw [← hchars]
    exact List.mem_map_of_mem (by simp [hparts, hc])
  refine ⟨?_, fun c hc => ?_, htrimmed⟩
  · have hsame := congrArg List.length hchars
    rw [List.length_map, List.length_map, hparts] at hsame
    simp only [List.length_append] at hlength hsame
    omega
  · obtain ⟨byte, hbyte, hcode⟩ := List.mem_map.mp (hmem c hc)
    have hne : byte.toNat ≠ 0 := fun hzero =>
      hkept ((UInt8.toNat_inj.mp hzero : byte = 0) ▸ hbyte)
    have hlt := byte.toNat_lt
    omega

theorem length_fieldBytes (text : String) : (fieldBytes text).length = 32 := by
  simp [fieldBytes, textWidth]

/-- A written field holds the text that it was written for. -/
theorem FitsField.isField {text : String} (h : FitsField text) :
    IsField (fieldBytes text) text := by
  let bytes := text.toList.map fun c : Char => UInt8.ofNat c.toNat
  have hbyte : ∀ c ∈ text.toList, (UInt8.ofNat c.toNat).toNat = c.toNat := by
    intro c hc
    have hle := (h.latin1 c hc).2
    rw [UInt8.toNat_ofNat']
    omega
  refine ⟨length_fieldBytes text, bytes, List.replicate (32 - bytes.length) 0, text.toList, ?_,
    fun hzero => ?_, fun byte hhead => ?_, ?_, h.trimmed, [], [], by simp, by simp, by simp⟩
  · have hle : bytes.length ≤ 32 := by simpa [bytes] using h.length_le
    rw [fieldBytes, textWidth, List.take_append, List.take_of_length_le hle, List.take_replicate,
      Nat.min_eq_left (Nat.sub_le ..)]
  · obtain ⟨c, hc, hcode⟩ := List.mem_map.mp hzero
    have hpos := (h.latin1 c hc).1
    have hsame := hbyte c hc
    rw [hcode] at hsame
    simp at hsame
    omega
  · exact List.eq_of_mem_replicate (List.mem_of_mem_head? hhead)
  · rw [List.map_map]
    exact List.map_congr_left fun c hc => (hbyte c hc).symm

/-! ### The whole header -/

/-- The bytes before the text fields. -/
def fixedBytes (h : Header) : List UInt8 :=
  [0x47, 0x42, 0x53, h.version, h.trackTotal, h.startTrack] ++ wordBytes h.loadAddress ++
    wordBytes h.initAddress ++ wordBytes h.playAddress ++ wordBytes h.stackPointer ++
    [h.timerModulo, h.timerControl]

/-- Bytes that stand for a header. -/
def Represents (front : List UInt8) (h : Header) : Prop :=
  ∃ title author copyright, front = fixedBytes h ++ title ++ author ++ copyright ∧
    IsField title h.title ∧ IsField author h.author ∧ IsField copyright h.copyright

/-- A header that can be written. -/
structure Writable (h : Header) : Prop where
  version_eq : h.version = 1
  title : FitsField h.title
  author : FitsField h.author
  copyright : FitsField h.copyright

theorem length_fixedBytes (h : Header) : (fixedBytes h).length = 0x10 := rfl

theorem Represents.length_eq {front : List UInt8} {h : Header} (hfront : Represents front h) :
    front.length = 0x70 := by
  obtain ⟨title, author, copyright, rfl, ⟨htitle, -⟩, ⟨hauthor, -⟩, ⟨hcopyright, -⟩⟩ := hfront
  simp only [List.length_append, length_fixedBytes, htitle, hauthor, hcopyright]

theorem Writable.represents {h : Header} (hwritable : Writable h) : Represents (layout h) h :=
  ⟨_, _, _, rfl, hwritable.title.isField, hwritable.author.isField, hwritable.copyright.isField⟩

theorem Represents.writable {front : List UInt8} {h : Header} (hfront : Represents front h)
    (hversion : h.version = 1) : Writable h := by
  obtain ⟨title, author, copyright, -, htitle, hauthor, hcopyright⟩ := hfront
  exact ⟨hversion, htitle.fits, hauthor.fits, hcopyright.fits⟩

section

variable {data : ByteArray}

theorem bytesAt_add (data : ByteArray) (offset m n : ℕ) :
    bytesAt data offset (m + n) = bytesAt data offset m ++ bytesAt data (offset + m) n := by
  simp only [bytesAt, List.range_add, List.map_append, List.map_map, Nat.add_assoc]
  rfl

theorem length_bytesAt (data : ByteArray) (offset count : ℕ) :
    (bytesAt data offset count).length = count := by
  simp [bytesAt]

theorem bytesAt_zero {count : ℕ} (h : count ≤ data.size) :
    bytesAt data 0 count = data.data.toList.take count := by
  have hlength : data.data.toList.length = data.size := rfl
  apply List.ext_getElem
  · rw [length_bytesAt, List.length_take, hlength]
    omega
  · intro i hi hi'
    rw [length_bytesAt] at hi
    have hbyte : byteAt data i = data.data.toList[i] := by
      rw [byteAt, getElem?_pos data i (by omega)]
      rfl
    simp only [bytesAt, Nat.zero_add, List.getElem_map, List.getElem_range, hbyte,
      List.getElem_take]

/-- The header of a file, cut into its fields. -/
theorem bytesAt_header (data : ByteArray) :
    bytesAt data 0 0x70 = bytesAt data 0 0x10 ++ bytesAt data 0x10 32 ++ bytesAt data 0x30 32 ++
      bytesAt data 0x50 32 := by
  rw [← bytesAt_add data 0 0x10 32, ← bytesAt_add data 0 0x30 32, ← bytesAt_add data 0 0x50 32]

theorem wordBytes_wordAt (data : ByteArray) (offset : ℕ) :
    wordBytes (wordAt data offset) = [byteAt data offset, byteAt data (offset + 1)] := by
  rw [wordBytes, wordAt, Word.low_ofBytes, Word.high_ofBytes]

theorem wordAt_of_bytes {offset : ℕ} {word : UInt16} (hlow : byteAt data offset = Word.low word)
    (hhigh : byteAt data (offset + 1) = Word.high word) : wordAt data offset = word := by
  rw [wordAt, hlow, hhigh, Word.ofBytes_high_low]

theorem IsField.textAt_eq {field : List UInt8} {text : String} {offset : ℕ}
    (h : IsField field text) (hfield : bytesAt data offset 32 = field) :
    textAt data offset = text := by
  subst hfield
  exact h.fieldText_eq

/-- What is read stands in the first bytes of the file. -/
theorem represents_of_parse {h : Header} (hparse : parse data = .ok h) :
    h.version = 1 ∧ Represents (data.data.toList.take 0x70) h := by
  unfold parse at hparse
  split at hparse
  · contradiction
  split at hparse
  · contradiction
  split at hparse
  · contradiction
  rename_i hlong hmagic hversion
  have hmagic : bytesAt data 0 3 = magic := by simpa using hmagic
  have hversion : byteAt data 3 = supportedVersion := by simpa using hversion
  obtain rfl := Except.ok.inj hparse
  refine ⟨hversion, bytesAt data 0x10 32, bytesAt data 0x30 32, bytesAt data 0x50 32, ?_,
    isField_fieldText (length_bytesAt ..), isField_fieldText (length_bytesAt ..),
    isField_fieldText (length_bytesAt ..)⟩
  have hfront : data.data.toList.take 0x70 = bytesAt data 0 0x70 :=
    (bytesAt_zero (Nat.not_lt.mp hlong)).symm
  rw [hfront, bytesAt_header, bytesAt_add data 0 3 13, hmagic]
  simp only [fixedBytes, wordBytes_wordAt]
  rfl

theorem parse_of_represents {h : Header} {front rest : List UInt8} (hversion : h.version = 1)
    (hfront : Represents front h) (hdata : data.data.toList = front ++ rest) :
    parse data = .ok h := by
  have hlength := hfront.length_eq
  have hlong : size ≤ data.size := by
    have hsize : data.data.toList.length = data.size := rfl
    rw [← hsize, hdata, List.length_append, hlength]
    exact Nat.le_add_right ..
  have hheader : bytesAt data 0 0x70 = front := by
    have htake : bytesAt data 0 0x70 = data.data.toList.take 0x70 := bytesAt_zero hlong
    rw [htake, hdata, List.take_left' hlength]
  obtain ⟨title, author, copyright, rfl, htitle, hauthor, hcopyright⟩ := hfront
  rw [bytesAt_header] at hheader
  obtain ⟨hheader, hcopyrightBytes⟩ := List.append_inj' hheader
    (by rw [length_bytesAt, hcopyright.1])
  obtain ⟨hheader, hauthorBytes⟩ := List.append_inj' hheader (by rw [length_bytesAt, hauthor.1])
  obtain ⟨hfixed, htitleBytes⟩ := List.append_inj' hheader (by rw [length_bytesAt, htitle.1])
  have hfixed : (List.range 0x10).map (byteAt data) = fixedBytes h := by
    simpa [bytesAt] using hfixed
  simp only [List.range, List.range.loop, List.map_cons, List.map_nil, fixedBytes, wordBytes,
    List.cons_append, List.nil_append, List.cons.injEq, and_true] at hfixed
  obtain ⟨hG, hB, hS, hnumber, htotal, hstart, hload, hload', hinit, hinit', hplay, hplay', hstack,
    hstack', hmodulo, hcontrol⟩ := hfixed
  have hmagic : bytesAt data 0 3 = magic := by
    simp only [bytesAt, List.range, List.range.loop, List.map_cons, List.map_nil, Nat.zero_add, hG,
      hB, hS, magic]
  have hsupported : byteAt data 3 = supportedVersion := hnumber.trans hversion
  rw [parse, if_neg (Nat.not_lt.mpr hlong), if_neg (by simp [hmagic]),
    if_neg (by simp [hsupported]), hnumber, htotal, hstart, hmodulo, hcontrol,
    wordAt_of_bytes hload hload', wordAt_of_bytes hinit hinit', wordAt_of_bytes hplay hplay',
    wordAt_of_bytes hstack hstack', htitle.textAt_eq htitleBytes, hauthor.textAt_eq hauthorBytes,
    hcopyright.textAt_eq hcopyrightBytes]

theorem parse_eq_ok_iff {h : Header} :
    parse data = .ok h ↔ h.version = 1 ∧ Represents (data.data.toList.take 0x70) h :=
  ⟨represents_of_parse, fun ⟨hversion, hfront⟩ =>
    parse_of_represents hversion hfront (List.take_append_drop 0x70 _).symm⟩

end

/-- A written header is read back, whatever follows it. -/
theorem Writable.parse_layout {h : Header} (hwritable : Writable h) (rest : List UInt8) :
    parse (layout h ++ rest).toByteArray = .ok h :=
  parse_of_represents hwritable.version_eq hwritable.represents List.toList_data_toByteArray

/-- Reading inverts writing. A header of version 1 whose texts have room in their fields takes 0x70
bytes, and is read back from any file that begins with them. What is read from a file stands in its
first 0x70 bytes, by their layout, and depends on nothing else; written again, it is read again. -/
theorem parse_inverts_layout :
    (∀ h, Writable h → (layout h).length = 0x70 ∧
      ∀ rest, parse (layout h ++ rest).toByteArray = .ok h) ∧
      (∀ byte, IsBlank (Char.ofUInt8 byte) ↔
        (0x09 ≤ byte.toNat ∧ byte.toNat ≤ 0x0D) ∨ byte = 0x20 ∨ byte = 0x85 ∨ byte = 0xA0) ∧
      ∀ data h, parse data = .ok h →
        Represents (data.data.toList.take 0x70) h ∧
          (∀ other : ByteArray, other.data.toList.take 0x70 = data.data.toList.take 0x70 →
            parse other = .ok h) ∧
          Writable h ∧ ∀ rest, parse (layout h ++ rest).toByteArray = .ok h := by
  refine ⟨fun h hwritable => ⟨hwritable.represents.length_eq, hwritable.parse_layout⟩,
    isBlank_ofUInt8_iff, fun data h hparse => ?_⟩
  obtain ⟨hversion, hfront⟩ := parse_eq_ok_iff.mp hparse
  have hwritable := hfront.writable hversion
  refine ⟨hfront, fun other hother => ?_, hwritable, hwritable.parse_layout⟩
  rw [parse_eq_ok_iff, hother]
  exact ⟨hversion, hfront⟩

/-- A header with a title that takes its whole field. -/
def fullHeader : Header where
  version := 1
  trackTotal := 3
  startTrack := 2
  loadAddress := 0x0470
  initAddress := 0x0471
  playAddress := 0x7FFF
  stackPointer := 0xDFFF
  timerModulo := 0xC0
  timerControl := 0x84
  title := "Caf\u00E9, 32 characters and no room."
  author := "A"
  copyright := ""

theorem fullHeader_writable : Writable fullHeader where
  version_eq := rfl
  title := ⟨by decide, by simp [fullHeader],
    by simp [fullHeader, IsTrimmed, IsBlank, Text.whiteSpace]⟩
  author := ⟨by decide, by simp [fullHeader],
    by simp [fullHeader, IsTrimmed, IsBlank, Text.whiteSpace]⟩
  copyright := ⟨by decide, by simp [fullHeader], by simp [fullHeader, IsTrimmed]⟩

theorem parse_inverts_layout_fullHeader :
    let data := (layout fullHeader ++ [0xC9]).toByteArray
    Writable fullHeader ∧ parse data = .ok fullHeader ∧
      Represents (data.data.toList.take 0x70) fullHeader ∧
      parse (layout fullHeader ++ [0x00, 0x01]).toByteArray = .ok fullHeader := by
  intro data
  obtain ⟨hwrite, -, hread⟩ := parse_inverts_layout
  have hparse : parse data = .ok fullHeader := (hwrite fullHeader fullHeader_writable).2 [0xC9]
  obtain ⟨hfront, -, hwritable, hagain⟩ := hread data fullHeader hparse
  exact ⟨hwritable, hparse, hfront, hagain [0x00, 0x01]⟩

end Chiptune.Album.Header
