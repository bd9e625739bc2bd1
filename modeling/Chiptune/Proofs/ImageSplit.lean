import Chiptune.Album.Basic
import Chiptune.Proofs.HeaderLayout
import Mathlib

/-!
# The image of an album, split into banks

An album file is refused for one reason, the first that applies: it is too short
for a header, its magic or its version is wrong, or its image ends beyond the
last bank. Any other file is loaded, and then a byte of the image with the
absolute address `a` lies in bank `a / bankSize` at `a % bankSize`. There are
banks for these addresses and for no others, and what a bank has besides is zero.
-/
namespace Chiptune.Album

/-! ### One bank -/

theorem Bank.get_place (offset : Nat) (part : ByteArray) (h : offset + part.size ≤ bankSize)
    {i : Nat} (hi : i < bankSize) :
    (Bank.place offset part h).get i hi =
      if offset ≤ i then part.data[i - offset]?.getD 0 else 0 := by
  rw [← ByteArray.size_data] at h
  rw [get_eq_getD]
  simp only [place, ByteArray.data_append, zeros, Array.getElem?_append, Array.size_append,
    Array.size_replicate, Array.getElem?_replicate, ← ByteArray.size_data]
  by_cases hleft : i < offset
  · rw [if_pos (by omega), if_pos hleft, if_pos hleft, if_neg (by omega)]
    rfl
  rw [if_pos (Nat.not_lt.mp hleft)]
  by_cases hinside : i < offset + part.data.size
  · rw [if_pos hinside, if_neg hleft]
  · have hnone : part.data[i - offset]? = none := Array.getElem?_eq_none (by omega)
    rw [if_neg hinside, if_pos (by omega), hnone]
    rfl

/-- What lies at an absolute address: a byte of the image, or zero where it does not reach. -/
def imageByte (image : ByteArray) (load address : Nat) : UInt8 :=
  if load ≤ address then image.data[address - load]?.getD 0 else 0

section

variable {rom : Rom} {number : Nat} {offset : Fin bankSize} {image : ByteArray}

/-- The first bank that an image goes into. -/
theorem get_page (number : Nat) (offset : Fin bankSize) (image : ByteArray) {i : Nat}
    (hi : i < bankSize) :
    (Rom.page offset image).get i hi =
      imageByte image (number * bankSize + offset) (number * bankSize + i) := by
  rw [Rom.page, Bank.get_place, imageByte, Nat.add_sub_add_left]
  by_cases hoffset : offset ≤ i
  · rw [if_pos hoffset, if_pos (by omega), ByteArray.data_extract, Array.getElem?_extract]
    have hend : min (Rom.taken offset image) image.data.size = image.size ∨
        i - offset < min (Rom.taken offset image) image.data.size := by
      rw [Rom.taken, ByteArray.size_data]
      omega
    rw [Nat.zero_add, Nat.sub_zero]
    obtain hend | hend := hend
    · rw [hend]
      split
      · rfl
      · rename_i hout
        rw [Array.getElem?_eq_none (Nat.not_lt.mp hout)]
    · rw [if_pos hend]
  · rw [if_neg hoffset, if_neg (by omega)]

/-- What a bank leaves of an image lies behind the part that it takes. -/
theorem imageByte_extract (image : ByteArray) {load count address : Nat}
    (h : load + count ≤ address) :
    imageByte (image.extract count image.size) (load + count) address =
      imageByte image load address := by
  have hplace : count + (address - (load + count)) = address - load := by omega
  rw [imageByte, imageByte, if_pos h, if_pos (Nat.le_of_add_right_le h), ByteArray.data_extract,
    Array.getElem?_extract, hplace]
  split
  · rfl
  · rename_i hout
    rw [Array.getElem?_eq_none]
    rw [← ByteArray.size_data, Nat.min_self] at hout
    omega

/-! ### The loop over the banks -/

theorem bank?_put (rom : Rom) (number : Nat) (bank : Bank) (index : Nat) :
    (rom.put number bank).bank? index =
      if number = index ∧ index < bankLimit then some bank else rom.bank? index := by
  simp only [Rom.bank?, Rom.put, Vector.getElem?_setIfInBounds]
  by_cases hnumber : number = index
  · subst hnumber
    by_cases hlimit : number < bankLimit
    · rw [if_pos rfl, if_pos hlimit, if_pos ⟨rfl, hlimit⟩, Option.join_some]
    · rw [if_pos rfl, if_neg hlimit, if_neg fun h => hlimit h.2,
        Vector.getElem?_eq_none (Nat.not_lt.mp hlimit)]
  · rw [if_neg hnumber, if_neg fun h => hnumber h.1]

theorem bank?_blank (number : Nat) : Rom.blank.bank? number = none := by
  rw [Rom.bank?, Rom.blank, Vector.getElem?_replicate]
  split <;> rfl

theorem size_remainder (offset : Fin bankSize) (image : ByteArray) :
    (Rom.remainder offset image).size = image.size - (bankSize - offset) := by
  rw [Rom.remainder, ByteArray.size_extract, Rom.taken]
  omega

theorem isEmpty_remainder :
    (Rom.remainder offset image).isEmpty = true ↔ offset + image.size ≤ bankSize := by
  have hoffset := offset.isLt
  rw [ByteArray.isEmpty, beq_iff_eq, size_remainder]
  omega

/-- The numbers of the banks that an image of `length` bytes at `load` goes into. An empty image
goes into the bank of its address. -/
def Spans (load length number : Nat) : Prop :=
  load / bankSize ≤ number ∧ number ≤ (load + max length 1 - 1) / bankSize

theorem spans_of_le {length index : Nat} (h : offset + length ≤ bankSize) :
    Spans (number * bankSize + offset) length index ↔ number = index := by
  have hoffset := offset.isLt
  generalize (offset : Nat) = start at h hoffset ⊢
  simp only [Spans, bankSize] at h hoffset ⊢
  omega

theorem spans_of_lt {length index : Nat} (h : bankSize < offset + length) :
    Spans (number * bankSize + offset) length index ↔
      number = index ∨ Spans ((number + 1) * bankSize) (length - (bankSize - offset)) index := by
  have hoffset := offset.isLt
  generalize (offset : Nat) = start at h hoffset ⊢
  simp only [Spans, bankSize] at h hoffset ⊢
  omega

/-- An image at `load` has been filled in: its banks hold it and zeros, and the others are left. -/
structure Filled (rom : Rom) (load : Nat) (image : ByteArray) (filled : Rom) : Prop where
  inside : ∀ number, Spans load image.size number → ∃ bank, filled.bank? number = some bank ∧
    ∀ k (hk : k < bankSize), bank.get k hk = imageByte image load (number * bankSize + k)
  outside : ∀ number, ¬ Spans load image.size number → filled.bank? number = rom.bank? number

/-- The last bank takes all that is left. -/
theorem filled_put (hnumber : number < bankLimit) (h : offset + image.size ≤ bankSize) :
    Filled rom (number * bankSize + offset) image (rom.put number (Rom.page offset image)) where
  inside index hindex := by
    obtain rfl := (spans_of_le h).mp hindex
    exact ⟨_, by rw [bank?_put, if_pos ⟨rfl, hnumber⟩], fun k hk => get_page number offset image hk⟩
  outside index hindex := by
    rw [bank?_put, if_neg fun h' => hindex ((spans_of_le h).mpr h'.1)]

/-- A bank takes what fits, and the banks after it take the rest. -/
theorem Filled.cons {filled : Rom} (hnumber : number < bankLimit)
    (h : bankSize < offset + image.size)
    (hrest : Filled (rom.put number (Rom.page offset image)) ((number + 1) * bankSize)
      (Rom.remainder offset image) filled) :
    Filled rom (number * bankSize + offset) image filled := by
  have hoffset := offset.isLt
  have hspans (index : Nat) : Spans (number * bankSize + offset) image.size index ↔
      number = index ∨
        Spans ((number + 1) * bankSize) (Rom.remainder offset image).size index := by
    rw [size_remainder]
    exact spans_of_lt h
  constructor
  · intro index hindex
    obtain rfl | hlater := (hspans index).mp hindex
    · have hbefore :
          ¬ Spans ((number + 1) * bankSize) (Rom.remainder offset image).size number := by
        rw [Spans, Nat.mul_div_cancel _ (bankSize_pos)]
        omega
      refine ⟨Rom.page offset image, ?_, fun k hk => get_page number offset image hk⟩
      rw [hrest.outside number hbefore, bank?_put, if_pos ⟨rfl, hnumber⟩]
    · obtain ⟨bank, hbank, hget⟩ := hrest.inside index hlater
      refine ⟨bank, hbank, fun k hk => ?_⟩
      have hload : (number + 1) * bankSize =
          number * bankSize + offset + Rom.taken offset image := by
        rw [Rom.taken, Nat.add_mul]
        omega
      have hle : (number + 1) * bankSize ≤ index * bankSize + k := by
        have hfirst := hlater.1
        rw [Nat.mul_div_cancel _ (bankSize_pos)] at hfirst
        exact Nat.le_add_right_of_le (Nat.mul_le_mul_right _ hfirst)
      rw [hget k hk, hload, Rom.remainder]
      exact imageByte_extract image (hload.symm.trans_le hle)
  · intro index hindex
    have hboth := not_or.mp (mt (hspans index).mpr hindex)
    rw [hrest.outside index hboth.2, bank?_put, if_neg fun h => hboth.1 h.1]

/-- An image that ends within the last bank is filled in. -/
theorem filled_fill (rom : Rom)
    (h : number * bankSize + offset + max image.size 1 ≤ bankLimit * bankSize) :
    ∃ filled, rom.fill number offset image = .ok filled ∧
      Filled rom (number * bankSize + offset) image filled := by
  -- The induction is the one of the loop. The first case cannot be: one more byte at least is to be
  -- placed, and there is room for it.
  induction rom, number, offset, image using Rom.fill.induct with
  | case1 rom number offset image hfull =>
    have hend := Nat.mul_le_mul_right bankSize hfull
    omega
  | case2 rom number offset image hnumber _ hempty =>
    rw [Rom.fill, if_neg hnumber]
    exact ⟨_, if_pos hempty, filled_put (Nat.not_le.mp hnumber) (isEmpty_remainder.mp hempty)⟩
  | case3 rom number offset image hnumber _ rest hmore ih =>
    have hlt := Nat.not_le.mp (mt isEmpty_remainder.mpr hmore)
    have hsize : rest.size = image.size - (bankSize - offset) := size_remainder offset image
    have hoffset := offset.isLt
    rw [Nat.add_zero] at ih
    obtain ⟨filled, hfill, hfilled⟩ := ih (by rw [Nat.succ_mul]; omega)
    rw [Rom.fill, if_neg hnumber]
    exact ⟨filled, (if_neg hmore).trans hfill, hfilled.cons (Nat.not_le.mp hnumber) hlt⟩

/-- For any other image the banks run out. -/
theorem fill_of_lt (h : bankLimit * bankSize < number * bankSize + offset + max image.size 1) :
    rom.fill number offset image = .error (.tooManyBanks bankLimit) := by
  induction rom, number, offset, image using Rom.fill.induct with
  | case1 rom number offset image hfull => rw [Rom.fill, if_pos hfull]
  | case2 rom number offset image hnumber _ hempty =>
    have hend := isEmpty_remainder.mp hempty
    have hnext := Nat.mul_le_mul_right bankSize (Nat.not_le.mp hnumber)
    have hoffset := offset.isLt
    rw [Nat.succ_mul] at hnext
    omega
  | case3 rom number offset image hnumber _ rest hmore ih =>
    have hlt := Nat.not_le.mp (mt isEmpty_remainder.mpr hmore)
    have hsize : rest.size = image.size - (bankSize - offset) := size_remainder offset image
    have hoffset := offset.isLt
    rw [Rom.fill, if_neg hnumber]
    refine (if_neg hmore).trans (ih ?_)
    rw [Nat.succ_mul]
    omega

end

/-! ### The banks of an image -/

/-- An image of `length` bytes at `load` is what the banks hold. -/
structure Splits (load : Nat) (image : List UInt8) (rom : Rom) : Prop where
  /-- The banks are those from the first address of the image to the last one; an empty image has
  the bank of its address. -/
  isSome_iff : ∀ number, (rom.bank? number).isSome ↔
    load / 0x4000 ≤ number ∧ number ≤ (load + max image.length 1 - 1) / 0x4000
  bankCount_eq : rom.bankCount =
    (Finset.Icc (load / 0x4000) ((load + max image.length 1 - 1) / 0x4000)).card
  /-- Nothing is lost. -/
  kept : ∀ i (hi : i < image.length), ∃ bank, rom.bank? ((load + i) / 0x4000) = some bank ∧
    bank.get ((load + i) % 0x4000) (Nat.mod_lt _ (by decide)) = image[i]
  /-- Nothing is invented. -/
  blank : ∀ number bank, rom.bank? number = some bank → ∀ k (hk : k < 0x4000),
    (∀ i < image.length, load + i ≠ number * 0x4000 + k) → bank.get k hk = 0

section

variable {image : ByteArray} {load : Nat} {rom : Rom}

theorem imageByte_of_lt {i : Nat} (hi : i < image.data.toList.length) :
    imageByte image load (load + i) = image.data.toList[i] := by
  rw [imageByte, if_pos (Nat.le_add_right _ _), Nat.add_sub_cancel_left, ← Array.getElem?_toList,
    List.getElem?_eq_getElem hi, Option.getD_some]

theorem imageByte_of_ne {address : Nat}
    (h : ∀ i < image.data.toList.length, load + i ≠ address) :
    imageByte image load address = 0 := by
  rw [imageByte]
  by_cases hload : load ≤ address
  · have hend : image.data.toList.length ≤ address - load := by
      by_contra hlt
      exact h _ (Nat.not_le.mp hlt) (Nat.add_sub_cancel' hload)
    rw [if_pos hload, ← Array.getElem?_toList, List.getElem?_eq_none hend, Option.getD_none]
  · rw [if_neg hload]

theorem bankCount_eq_card (rom : Rom) :
    rom.bankCount = {number ∈ Finset.range bankLimit | (rom.bank? number).isSome}.card := by
  have hbanks : rom.banks.toList = (List.range bankLimit).map rom.bank? := by
    apply List.ext_getElem
    · simp
    · intro number hnumber hnumber'
      have hlt : number < bankLimit := by simpa using hnumber
      simp [Rom.bank?, hlt]
  have hfilter : {number ∈ Finset.range bankLimit | (rom.bank? number).isSome}.val =
      (List.range bankLimit).filter (Option.isSome ∘ rom.bank?) := by
    simp [Finset.filter, Finset.range, Multiset.range, Function.comp_def]
  rw [Rom.bankCount, ← Vector.countP_toList, hbanks, List.countP_map, List.countP_eq_length_filter,
    Finset.card, hfilter, Multiset.coe_card]

theorem Filled.isSome_iff (h : Filled .blank load image rom) (number : Nat) :
    (rom.bank? number).isSome ↔ Spans load image.size number := by
  by_cases hspans : Spans load image.size number
  · obtain ⟨bank, hbank, -⟩ := h.inside number hspans
    exact iff_of_true (hbank ▸ rfl) hspans
  · have hnone := (h.outside number hspans).trans (bank?_blank number)
    exact iff_of_false (by rw [hnone]; decide) hspans

/-- Every byte of a bank is the one at its absolute address. -/
theorem Filled.get_eq (h : Filled .blank load image rom) {number : Nat} {bank : Bank}
    (hbank : rom.bank? number = some bank) {k : Nat} (hk : k < bankSize) :
    bank.get k hk = imageByte image load (number * bankSize + k) := by
  have hspans := (h.isSome_iff number).mp (by rw [hbank, Option.isSome_some])
  obtain ⟨found, hfound, hget⟩ := h.inside number hspans
  obtain rfl := Option.some.inj (hbank.symm.trans hfound)
  exact hget k hk

theorem Filled.splits (h : Filled .blank load image rom)
    (hend : load + max image.size 1 ≤ bankLimit * bankSize) :
    Splits load image.data.toList rom where
  isSome_iff := h.isSome_iff
  bankCount_eq := by
    have hlast : (load + max image.data.toList.length 1 - 1) / 0x4000 < bankLimit := by
      rw [Nat.div_lt_iff_lt_mul (by decide)]
      exact Nat.lt_of_lt_of_le (Nat.sub_one_lt (by omega)) hend
    rw [bankCount_eq_card]
    congr 1
    ext number
    rw [Finset.mem_filter, Finset.mem_range, Finset.mem_Icc, h.isSome_iff]
    exact and_iff_right_of_imp fun hspans => Nat.lt_of_le_of_lt hspans.2 hlast
  kept i hi := by
    have hspans : Spans load image.size ((load + i) / bankSize) := by
      have hi : i < image.size := hi
      exact ⟨Nat.div_le_div_right (by omega), Nat.div_le_div_right (by omega)⟩
    obtain ⟨bank, hbank, hget⟩ := h.inside _ hspans
    refine ⟨bank, hbank, (hget _ (Nat.mod_lt _ (by decide))).trans ?_⟩
    rw [Nat.div_add_mod', imageByte_of_lt hi]
  blank number bank hbank k hk houtside := (h.get_eq hbank hk).trans (imageByte_of_ne houtside)

theorem place_firstOffset (load : Nat) :
    load / bankSize * bankSize + Rom.firstOffset load = load := Nat.div_add_mod' ..

/-- An image that ends within the last bank is cut. -/
theorem cut_splits (hload : load < bankLimit * bankSize)
    (h : load + image.size ≤ bankLimit * bankSize) :
    ∃ rom, Rom.cut image load = .ok rom ∧ Splits load image.data.toList rom := by
  have hend : load + max image.size 1 ≤ bankLimit * bankSize := by omega
  obtain ⟨rom, hcut, hfilled⟩ := filled_fill .blank ((place_firstOffset load).symm ▸ hend)
  rw [place_firstOffset] at hfilled
  exact ⟨rom, hcut, hfilled.splits hend⟩

theorem cut_of_lt (h : bankLimit * bankSize < load + image.size) :
    Rom.cut image load = .error (.tooManyBanks bankLimit) := by
  apply fill_of_lt
  rw [place_firstOffset]
  omega

end

/-! ### Files -/

/-- The bytes after the header. -/
def imageOf (data : ByteArray) : List UInt8 := data.data.toList.drop 0x70

/-- The address that the image is placed at, by the two bytes of the header that hold it. -/
def loadOf (data : ByteArray) : Nat :=
  (data.data.toList.getD 6 0).toNat + 0x100 * (data.data.toList.getD 7 0).toNat

/-- The header of a file can be read. -/
structure Readable (data : ByteArray) : Prop where
  long : 0x70 ≤ data.size
  magic : data.data.toList.take 3 = [0x47, 0x42, 0x53]
  version : data.data.toList[3]? = some 1

/-- What is wrong with a file: the first reason that applies, in this order. -/
inductive Refused (data : ByteArray) : AlbumError → Prop where
  | short (h : data.size < 0x70) : Refused data (.tooShort data.size)
  | magic (hlong : 0x70 ≤ data.size) (h : data.data.toList.take 3 ≠ [0x47, 0x42, 0x53]) :
    Refused data .badMagic
  | version (hlong : 0x70 ≤ data.size) (hmagic : data.data.toList.take 3 = [0x47, 0x42, 0x53])
    {version : UInt8} (hversion : data.data.toList[3]? = some version) (h : version ≠ 1) :
    Refused data (.unsupportedVersion version)
  | large (hreadable : Readable data) (h : 32 * 0x4000 < loadOf data + (imageOf data).length) :
    Refused data (.tooManyBanks 32)

section

variable {data : ByteArray}

theorem byteAt_eq (data : ByteArray) (offset : Nat) :
    Header.byteAt data offset = data.data.toList[offset]?.getD 0 := by
  rw [Header.byteAt, Array.getElem?_toList]
  by_cases h : offset < data.size
  · rw [getElem?_pos data offset h, Array.getElem?_eq_getElem h]
    rfl
  · rw [getElem?_neg data offset h, Array.getElem?_eq_none (Nat.not_lt.mp h)]

theorem bytesAt_magic (hlong : 0x70 ≤ data.size) :
    Header.bytesAt data 0 3 = data.data.toList.take 3 :=
  Header.bytesAt_zero (Nat.le_trans (by decide) hlong)

theorem Readable.parse_eq (h : Readable data) :
    ∃ header, Header.parse data = .ok header ∧ header.loadAddress.toNat = loadOf data := by
  have hlong : ¬ data.size < Header.size := Nat.not_lt.mpr h.long
  have hmagic : ¬ (Header.bytesAt data 0 3 != Header.magic) = true := by
    rw [bytesAt_magic h.long, h.magic]
    decide
  have hversion : ¬ (Header.byteAt data 3 != Header.supportedVersion) = true := by
    rw [byteAt_eq, h.version]
    decide
  rw [Header.parse, if_neg hlong, if_neg hmagic, if_neg hversion]
  refine ⟨_, rfl, ?_⟩
  rw [Header.wordAt, Word.toNat_ofBytes, Nat.add_comm, byteAt_eq, byteAt_eq,
    ← List.getD_eq_getElem?_getD, ← List.getD_eq_getElem?_getD]
  rfl

theorem loadOf_lt (data : ByteArray) : loadOf data < 0x10000 := by
  have hlow := (data.data.toList.getD 6 0).toNat_lt
  have hhigh := (data.data.toList.getD 7 0).toNat_lt
  rw [loadOf]
  omega

theorem imageOf_eq (data : ByteArray) :
    (data.extract Header.size data.size).data.toList = imageOf data := by
  rw [ByteArray.data_extract, Array.toList_extract, List.extract_eq_take_drop]
  exact List.take_of_length_le (by simp)

theorem length_imageOf (data : ByteArray) :
    (data.extract Header.size data.size).size = (imageOf data).length := by
  rw [← imageOf_eq]
  rfl

theorem ofBytes_of_parse_error {error : AlbumError} (h : Header.parse data = .error error) :
    ofBytes data = .error error := by
  rw [ofBytes, h]
  rfl

theorem ofBytes_of_parse_ok {header : Header} (h : Header.parse data = .ok header) :
    ofBytes data = (Rom.cut (data.extract Header.size data.size) header.loadAddress.toNat).map
      fun rom => { header, rom } := by
  simp only [ofBytes, h, bind, Except.bind]
  cases Rom.cut (data.extract Header.size data.size) header.loadAddress.toNat <;> rfl

theorem Refused.ofBytes_eq {error : AlbumError} (h : Refused data error) :
    ofBytes data = .error error := by
  cases h with
  | short h =>
    have hshort : data.size < Header.size := h
    apply ofBytes_of_parse_error
    rw [Header.parse, if_pos hshort]
  | magic hlong h =>
    have hsize : ¬ data.size < Header.size := Nat.not_lt.mpr hlong
    have hmagic : (Header.bytesAt data 0 3 != Header.magic) = true :=
      bne_iff_ne.mpr (bytesAt_magic hlong ▸ h)
    apply ofBytes_of_parse_error
    rw [Header.parse, if_neg hsize, if_pos hmagic]
  | @version hlong hmagic version hversion h =>
    have hsize : ¬ data.size < Header.size := Nat.not_lt.mpr hlong
    have hmagic : ¬ (Header.bytesAt data 0 3 != Header.magic) = true := by
      rw [bytesAt_magic hlong, hmagic]
      decide
    have hbyte : Header.byteAt data 3 = version := by rw [byteAt_eq, hversion, Option.getD_some]
    have hversion : (Header.byteAt data 3 != Header.supportedVersion) = true :=
      bne_iff_ne.mpr (hbyte ▸ h)
    apply ofBytes_of_parse_error
    rw [Header.parse, if_neg hsize, if_neg hmagic, if_pos hversion, hbyte]
  | large hreadable h =>
    obtain ⟨header, hheader, hload⟩ := hreadable.parse_eq
    have hlarge : bankLimit * bankSize <
        loadOf data + (data.extract Header.size data.size).size := by
      rwa [length_imageOf]
    rw [ofBytes_of_parse_ok hheader, hload, cut_of_lt hlarge]
    rfl

theorem Readable.ofBytes_eq (h : Readable data)
    (hfits : loadOf data + (imageOf data).length ≤ 32 * 0x4000) :
    ∃ album, ofBytes data = .ok album ∧ album.header.loadAddress.toNat = loadOf data ∧
      Splits (loadOf data) (imageOf data) album.rom := by
  obtain ⟨header, hheader, hload⟩ := h.parse_eq
  have hwithin : loadOf data + (data.extract Header.size data.size).size ≤
      bankLimit * bankSize := by
    rwa [length_imageOf]
  have hlow : loadOf data < bankLimit * bankSize := Nat.lt_trans (loadOf_lt data) (by decide)
  obtain ⟨rom, hcut, hsplits⟩ := cut_splits hlow hwithin
  refine ⟨{ header, rom }, ?_, hload, imageOf_eq data ▸ hsplits⟩
  rw [ofBytes_of_parse_ok hheader, hload, hcut]
  rfl

/-- A file that is not refused can be read, and its image ends within the last bank. -/
theorem readable_of_not_refused (h : ¬ ∃ error, Refused data error) :
    Readable data ∧ loadOf data + (imageOf data).length ≤ 32 * 0x4000 := by
  have hlong : 0x70 ≤ data.size := by
    by_contra hshort
    exact h ⟨_, .short (Nat.not_le.mp hshort)⟩
  have hmagic : data.data.toList.take 3 = [0x47, 0x42, 0x53] := by
    by_contra hmagic
    exact h ⟨_, .magic hlong hmagic⟩
  obtain ⟨version, hversion⟩ : ∃ version, data.data.toList[3]? = some version :=
    ⟨_, List.getElem?_eq_getElem (Nat.lt_of_lt_of_le (by decide) hlong)⟩
  obtain rfl : version = 1 := by
    by_contra hother
    exact h ⟨_, .version hlong hmagic hversion hother⟩
  refine ⟨⟨hlong, hmagic, hversion⟩, ?_⟩
  by_contra hlarge
  exact h ⟨_, .large ⟨hlong, hmagic, hversion⟩ (Nat.not_le.mp hlarge)⟩

end

/-- Splitting an image loses and invents nothing. A file is refused for the first of the reasons
that applies to it, and for no other. If there is none, it is loaded, and its banks hold the bytes
after its header, from the load address on, and zeros. -/
theorem image_split (data : ByteArray) :
    (∀ error, ofBytes data = .error error ↔ Refused data error) ∧
      ((¬ ∃ error, Refused data error) →
        ∃ album, ofBytes data = .ok album ∧ album.header.loadAddress.toNat = loadOf data ∧
          Splits (loadOf data) (imageOf data) album.rom) := by
  have hloads : (¬ ∃ error, Refused data error) →
      ∃ album, ofBytes data = .ok album ∧ album.header.loadAddress.toNat = loadOf data ∧
        Splits (loadOf data) (imageOf data) album.rom := by
    intro h
    obtain ⟨hreadable, hfits⟩ := readable_of_not_refused h
    exact hreadable.ofBytes_eq hfits
  refine ⟨fun error => ⟨fun h => ?_, Refused.ofBytes_eq⟩, hloads⟩
  by_cases hrefused : ∃ error, Refused data error
  · obtain ⟨other, hother⟩ := hrefused
    rw [hother.ofBytes_eq] at h
    rwa [← Except.error.inj h]
  · obtain ⟨album, halbum, -⟩ := hloads hrefused
    rw [halbum] at h
    contradiction

/-- A file with an image of two bytes: the last byte of bank 0 and the first one of bank 1. -/
def straddling : ByteArray where
  data := (Header.layout
    { version := 1, trackTotal := 1, startTrack := 1, loadAddress := 0x3FFF, initAddress := 0x3FFF
      playAddress := 0x4000, stackPointer := 0xFFFE, timerModulo := 0, timerControl := 0
      title := "", author := "", copyright := "" } ++ [0xAA, 0xBB]).toArray

theorem straddling_not_refused : ¬ ∃ error, Refused straddling error := by
  rintro ⟨error, h⟩
  cases h with
  | short h => exact absurd h (by decide +kernel)
  | magic _ h => exact absurd h (by decide +kernel)
  | version _ _ hversion h =>
    have hsupported : straddling.data.toList[3]? = some 1 := by decide +kernel
    exact h (Option.some.inj (hversion.symm.trans hsupported))
  | large _ h => exact absurd h (by decide +kernel)

theorem image_split_straddling : ∃ album, ofBytes straddling = .ok album ∧
    album.rom.bankCount = 2 ∧ ∃ bank, album.rom.bank? 1 = some bank ∧
      bank.get 0 (by decide) = 0xBB := by
  have hload : loadOf straddling = 0x3FFF := by decide +kernel
  have himage : imageOf straddling = [0xAA, 0xBB] := by decide +kernel
  obtain ⟨album, halbum, -, hsplits⟩ := (image_split straddling).2 straddling_not_refused
  rw [hload, himage] at hsplits
  obtain ⟨bank, hbank, hget⟩ := hsplits.kept 1 (by decide)
  exact ⟨album, halbum, hsplits.bankCount_eq, bank, hbank, hget⟩

end Chiptune.Album
