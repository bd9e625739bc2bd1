import Chiptune.Proofs.DeckRun

/-!
# The window of banked ROM

The lower half of memory is a copy: banks 0 and 1 are copied when a track
begins, the vectors are copied down from the load address, and every bank that
is selected is copied into the window. Yet nothing that a deck does can tell the
copy from an image that is read through a pointer. `romByte` is that image, and
`Memory.Windowed` says that the copy agrees with it; a write keeps the
agreement whatever its address is.
-/
namespace Chiptune

open Album (Bank Rom bankSize bankLimit)

/-! ### The image behind the window -/

namespace Album

theorem Bank.get_empty (i : Nat) (h : i < bankSize) : Bank.empty.get i h = 0 := by
  rw [Bank.get_eq_getD]
  simp only [Bank.empty, zeros, Array.getElem?_replicate, if_pos h, Option.getD_some]

/-- Byte `i` of a bank, zero where the image covers no such bank. -/
def Rom.byte (rom : Rom) (number i : Nat) : UInt8 :=
  match rom.bank? number with
  | some bank => if h : i < bankSize then bank.get i h else 0
  | none => 0

theorem Rom.byte_of_bank {rom : Rom} {number i : Nat} {bank : Bank}
    (hbank : rom.bank? number = some bank) (h : i < bankSize) :
    rom.byte number i = bank.get i h := by
  simp only [Rom.byte, hbank, dif_pos h]

theorem Rom.get_bankOrEmpty (rom : Rom) (number i : Nat) (h : i < bankSize) :
    (rom.bankOrEmpty number).get i h = rom.byte number i := by
  unfold Rom.bankOrEmpty Rom.byte
  cases hbank : rom.bank? number with
  | some bank => simp only [Option.getD_some, dif_pos h]
  | none => exact Bank.get_empty i h

/-- The image with banks 0 and 1 mapped and zeros above them. -/
def Rom.mapped (rom : Rom) (address : Nat) : UInt8 :=
  if address < bankSize then rom.byte 0 address
  else if address < 2 * bankSize then rom.byte 1 (address - bankSize)
  else 0

end Album

theorem Cells.get_ofBanks_eq_mapped (rom : Rom) (address : UInt16) :
    (Cells.ofBanks (rom.bankOrEmpty 0) (rom.bankOrEmpty 1)).get address =
      rom.mapped address.toNat := by
  rw [Cells.get_ofBanks]
  unfold Rom.mapped
  by_cases hlow : address.toNat < bankSize
  · rw [dif_pos hlow, if_pos hlow, Rom.get_bankOrEmpty]
  · by_cases hwindow : address.toNat < 2 * bankSize
    · rw [dif_neg hlow, if_neg hlow, dif_pos hwindow, if_pos hwindow, Rom.get_bankOrEmpty]
    · rw [dif_neg hlow, if_neg hlow, dif_neg hwindow, if_neg hwindow]

/-- The byte at an address of ROM while a bank is selected: the copied vectors, the rest of bank 0,
and the selected bank. -/
def romByte (album : Album) (bank address : Nat) : UInt8 :=
  if address < Cells.vectorCount ∧ album.header.loadAddress.toNat + address < addressCount then
    album.rom.mapped (album.header.loadAddress.toNat + address)
  else if address < bankSize then album.rom.byte 0 address
  else album.rom.byte bank (address - bankSize)

/-- Below the window it makes no difference which bank is selected. -/
theorem romByte_of_lt (album : Album) (bank other : Nat) {address : Nat} (h : address < bankSize) :
    romByte album bank address = romByte album other address := by
  simp only [romByte, if_pos h]

theorem romByte_of_le (album : Album) (bank : Nat) {address : Nat} (h : bankSize ≤ address) :
    romByte album bank address = album.rom.byte bank (address - bankSize) := by
  have hbank : bankSize = 0x4000 := rfl
  have hvectors : ¬ (address < Cells.vectorCount ∧
      album.header.loadAddress.toNat + address < addressCount) := by
    unfold Cells.vectorCount
    omega
  rw [romByte, if_neg hvectors, if_neg (Nat.not_lt.mpr h)]

/-! ### The copy agrees with the image -/

/-- A number that the bank register may hold. -/
def Album.Rom.Selects (rom : Rom) (number : Nat) : Prop :=
  number = 1 ∨ (1 ≤ number ∧ number < bankLimit ∧ (rom.bank? number).isSome)

/-- The lower half of the cells holds what is read from the image through the bank register. -/
structure Memory.Windowed (album : Album) (memory : Memory) : Prop where
  rom_eq : memory.rom = album.rom
  selects : album.rom.Selects memory.bank
  get_eq : ∀ address : UInt16, address.toNat < 0x8000 →
    memory.cells.get address = romByte album memory.bank address.toNat

namespace Memory

theorem region_of_lt {address : UInt16} (h : address.toNat < 0x8000) :
    Region.ofAddress address = .rom ∨ Region.ofAddress address = .bankSelect := by
  have hlow : address < 0x8000 := UInt16.lt_iff_toNat_lt.mpr h
  unfold Region.ofAddress
  rw [if_pos hlow]
  by_cases hrom : address < 0x2000
  · exact .inl (if_pos hrom)
  · by_cases hselect : address < 0x4000
    · exact .inr (by rw [if_neg hrom, if_pos hselect])
    · exact .inl (by rw [if_neg hrom, if_neg hselect])

/-- The lower half of memory is read from the cells. -/
theorem read_of_lt (memory : Memory) {address : UInt16} (h : address.toNat < 0x8000) :
    memory.read address = memory.cells.get address := by
  unfold read
  obtain hregion | hregion := region_of_lt h
  · rw [hregion]
  · rw [hregion]

/-- Plain memory lies in the upper half, so storing there keeps the copy. -/
theorem get_set_of_plain (cells : Cells) {address probe : UInt16} (value : UInt8)
    (hplain : Region.ofAddress address = .plain) (h : probe.toNat < 0x8000) :
    (cells.set address value).get probe = cells.get probe := by
  have hne : address ≠ probe := by
    rintro rfl
    obtain hregion | hregion := region_of_lt h
    · rw [hplain] at hregion
      contradiction
    · rw [hplain] at hregion
      contradiction
  rw [Cells.get_set, if_neg hne]

namespace Windowed

variable {album : Album} {memory : Memory}

theorem selectBank (h : memory.Windowed album) (number : Nat) :
    (memory.selectBank number).Windowed album := by
  unfold Memory.selectBank
  cases hselected : memory.selectable? number with
  | none => exact h
  | some bank =>
    unfold selectable? at hselected
    by_cases hnumber : 0 < number ∧ number < bankLimit
    · rw [if_pos hnumber, h.rom_eq] at hselected
      have hsome : (album.rom.bank? number).isSome := by rw [hselected, Option.isSome_some]
      refine ⟨h.rom_eq, .inr ⟨hnumber.1, hnumber.2, hsome⟩, ?_⟩
      intro address haddress
      show (memory.cells.mapWindow bank).get address = romByte album number address.toNat
      have hbank : bankSize = 0x4000 := rfl
      rw [Cells.get_mapWindow]
      by_cases hwindow : bankSize ≤ address.toNat
      · have hlt : address.toNat - bankSize < bankSize := by omega
        rw [dif_pos ⟨hwindow, by omega⟩, romByte_of_le album number hwindow,
          Rom.byte_of_bank hselected hlt]
      · have hlow : address.toNat < bankSize := Nat.not_le.mp hwindow
        rw [dif_neg fun hboth => hwindow hboth.1, h.get_eq address haddress]
        exact romByte_of_lt album memory.bank number hlow
    · rw [if_neg hnumber] at hselected
      contradiction

/-- A write keeps the agreement, whatever its address and its value are. -/
theorem write (h : memory.Windowed album) (address : UInt16) (value : UInt8) :
    (memory.write address value).Windowed album := by
  unfold Memory.write
  cases hregion : Region.ofAddress address with
  | rom => exact h
  | bankSelect => exact h.selectBank value.toNat
  | timer => exact ⟨h.rom_eq, h.selects, h.get_eq⟩
  | sound => exact ⟨h.rom_eq, h.selects, h.get_eq⟩
  | plain =>
    refine ⟨h.rom_eq, h.selects, ?_⟩
    intro probe hprobe
    rw [get_set_of_plain memory.cells value hregion hprobe]
    exact h.get_eq probe hprobe

theorem ran {next : Memory} (h : memory.Windowed album) (hran : memory.Ran next) :
    next.Windowed album := by
  induction hran with
  | start => exact h
  | write _ address value ih => exact ih.write address value
  | play _ frames ih => exact ⟨ih.rom_eq, ih.selects, ih.get_eq⟩

end Windowed
end Memory

namespace Deck

/-! ### Every deck that is reached -/

theorem windowed_clearedMemory (album : Album) {memory : Memory} (hrom : memory.rom = album.rom) :
    (clearedMemory album.header memory).Windowed album := by
  rw [clearedMemory_eq, hrom]
  refine ⟨rfl, .inl rfl, ?_⟩
  intro address haddress
  show (Cells.copyVectors _ album.header.loadAddress).get address = romByte album 1 address.toNat
  rw [Cells.get_copyVectors]
  unfold romByte
  by_cases hvector : address.toNat < Cells.vectorCount ∧
      album.header.loadAddress.toNat + address.toNat < addressCount
  · have hsum : (album.header.loadAddress + address).toNat =
        album.header.loadAddress.toNat + address.toNat := by
      rw [UInt16.toNat_add]
      exact Nat.mod_eq_of_lt hvector.2
    rw [if_pos hvector, if_pos hvector, Cells.get_ofBanks_eq_mapped, hsum]
  · rw [if_neg hvector, if_neg hvector, Cells.get_ofBanks_eq_mapped]
    unfold Rom.mapped
    by_cases hlow : address.toNat < bankSize
    · rw [if_pos hlow, if_pos hlow]
    · have hwindow : address.toNat < 2 * bankSize := haddress
      rw [if_neg hlow, if_pos hwindow, if_neg hlow]

theorem windowed_initMemory (album : Album) {memory : Memory} (hrom : memory.rom = album.rom) :
    (initMemory album.header memory).Windowed album := by
  have hcleared := windowed_clearedMemory album hrom
  have henabled := hcleared.write 0xFFFF 0x01
  have htimed : (timedMemory album.header memory).Windowed album :=
    ⟨henabled.rom_eq, henabled.selects, henabled.get_eq⟩
  exact htimed.ran (ran_initMemory album.header memory)

theorem Moved.windowed {album : Album} {config : Config} {deck next : Deck}
    (hplays : Plays album config deck) (hmoved : deck.Moved next) (h : deck.memory.Windowed album) :
    next.memory.Windowed album := by
  cases hmoved with
  | ran hran =>
    obtain ⟨cpu, memory, hmemory, rfl⟩ := hran
    exact h.ran hmemory
  | began hlt =>
    show (initMemory deck.album.header deck.memory).Windowed album
    rw [hplays.album_eq]
    exact windowed_initMemory album h.rom_eq
  | paused | muted | volume | speed => exact ⟨h.rom_eq, h.selects, h.get_eq⟩

theorem Reached.windowed {album : Album} {config : Config} {deck : Deck}
    (h : Reached album config deck) : deck.memory.Windowed album := by
  refine h.induction (P := fun deck => deck.memory.Windowed album) ?_ ?_
  · exact windowed_initMemory album rfl
  · intro deck next hplays hmoved h
    exact hmoved.windowed hplays h

theorem Reached.read_eq_romByte {album : Album} {config : Config} {deck : Deck}
    (h : Reached album config deck) {address : UInt16} (haddress : address.toNat < 0x8000) :
    deck.memory.read address = romByte album deck.memory.bank address.toNat := by
  rw [Memory.read_of_lt deck.memory haddress]
  exact h.windowed.get_eq address haddress

/-- The lower half of memory is an image that is read through the bank register, over every run of a
deck. No action changes what is read below the window, and what is read in all of the lower half
depends on the album and the selected bank only. -/
theorem Reached.reads_banked_rom {album : Album} {config : Config} {deck : Deck}
    (h : Reached album config deck) :
    deck.memory.rom = album.rom ∧
      album.rom.Selects deck.memory.bank ∧
      (∀ i < 0x4000,
        deck.memory.read (UInt16.ofNat (0x4000 + i)) = album.rom.byte deck.memory.bank i) ∧
      (∀ i, 0x62 ≤ i → i < 0x4000 →
        deck.memory.read (UInt16.ofNat i) = album.rom.byte 0 i) ∧
      (∀ i < 0x62, deck.memory.read (UInt16.ofNat i) =
        if album.header.loadAddress.toNat + i ≤ 0xFFFF then
          album.rom.mapped (album.header.loadAddress.toNat + i)
        else album.rom.byte 0 i) ∧
      (∀ action address, address.toNat < 0x4000 →
        (deck.after action).memory.read address = deck.memory.read address) ∧
      ∀ config' other, Reached album config' other → other.memory.bank = deck.memory.bank →
        ∀ address, address.toNat < 0x8000 →
          other.memory.read address = deck.memory.read address := by
  have hbank : bankSize = 0x4000 := rfl
  have hvectors : Cells.vectorCount = 0x62 := rfl
  have hcount : addressCount = 0x10000 := rfl
  have hread : ∀ i < 0x8000,
      deck.memory.read (UInt16.ofNat i) = romByte album deck.memory.bank i := by
    intro i hi
    have htoNat : (UInt16.ofNat i).toNat = i :=
      UInt16.toNat_ofNat_of_lt (Nat.lt_trans hi (by decide))
    have hlow : (UInt16.ofNat i).toNat < 0x8000 := by omega
    rw [h.read_eq_romByte hlow, htoNat]
  refine ⟨h.windowed.rom_eq, h.windowed.selects, ?window, ?low, ?vectors, ?kept, ?same⟩
  case window =>
    intro i hi
    have hoffset : 0x4000 + i - bankSize = i := by omega
    rw [hread _ (by omega), romByte_of_le _ _ (by omega), hoffset]
  case low =>
    intro i hvector hi
    rw [hread i (by omega), romByte, if_neg (by omega), if_pos (by omega)]
  case vectors =>
    intro i hi
    rw [hread i (by omega)]
    unfold romByte
    by_cases hload : album.header.loadAddress.toNat + i ≤ 0xFFFF
    · rw [if_pos (by omega), if_pos hload]
    · rw [if_neg (by omega), if_neg hload, if_pos (by omega)]
  case kept =>
    intro action address haddress
    have hafter := h.afterAll [action]
    have hbelow : address.toNat < 0x8000 := by omega
    have heq := hafter.read_eq_romByte hbelow
    rw [h.read_eq_romByte hbelow, ← romByte_of_lt album (deck.after action).memory.bank _ haddress]
    exact heq
  case same =>
    intro config' other hother hsame address haddress
    rw [hother.read_eq_romByte haddress, h.read_eq_romByte haddress, hsame]

/-- A bank with the same value in every byte. -/
def filledBank (value : UInt8) : Bank where
  bytes := ⟨Array.replicate bankSize value⟩
  size_eq := Array.size_replicate

theorem get_filledBank (value : UInt8) (i : Nat) (h : i < bankSize) :
    (filledBank value).get i h = value := by
  rw [Bank.get_eq_getD]
  simp only [filledBank, Array.getElem?_replicate, if_pos h, Option.getD_some]

/-- An image of two banks that loads into the window, so that bank 0 is absent. -/
def filledAlbum : Album where
  header :=
    { version := 1
      trackTotal := 1
      startTrack := 1
      loadAddress := 0x4000
      initAddress := 0x4000
      playAddress := 0x4003
      stackPointer := 0xFFFE
      timerModulo := 0
      timerControl := 0
      title := "Filled"
      author := ""
      copyright := "" }
  rom := (Rom.blank.put 1 (filledBank 0x11)).put 2 (filledBank 0x22)

/-- The vectors are those of the first bank while the second one is selected, and writing into the
window does nothing. -/
theorem reads_banked_rom_filledAlbum :
    let deck := (restart (unstarted filledAlbum {})).afterAll
      [.poke 0x2000 0x02, .poke 0x4000 0x77, .poke 0x3FFF 0x03]
    deck.memory.bank = 2 ∧ deck.memory.read 0x4000 = 0x22 ∧ deck.memory.read 0x0061 = 0x11 ∧
      deck.memory.read 0x0062 = 0x00 := by
  intro deck
  have hreached : Reached filledAlbum {} deck := ⟨_, _, rfl, rfl⟩
  have hbank : deck.memory.bank = 2 := by decide +kernel
  have hwindow : filledAlbum.rom.byte 2 0 = 0x22 :=
    (Rom.byte_of_bank rfl (by decide)).trans (get_filledBank 0x22 0 (by decide))
  have hfirst : filledAlbum.rom.byte 1 0x61 = 0x11 :=
    (Rom.byte_of_bank rfl (by decide)).trans (get_filledBank 0x11 0x61 (by decide))
  have hvector : filledAlbum.rom.mapped 0x4061 = 0x11 := by
    unfold Rom.mapped
    rw [if_neg (by decide), if_pos (by decide)]
    exact hfirst
  obtain ⟨-, -, hread, hlow, hvectors, -⟩ := Reached.reads_banked_rom hreached
  refine ⟨hbank, ?_, ?_, ?_⟩
  · have h := hread 0 (by decide)
    rw [hbank] at h
    exact h.trans hwindow
  · have h := hvectors 0x61 (by decide)
    have hload : filledAlbum.header.loadAddress.toNat = 0x4000 := rfl
    rw [hload, if_pos (by omega)] at h
    exact h.trans hvector
  · have habsent : filledAlbum.rom.byte 0 0x62 = 0 := rfl
    exact (hlow 0x62 (by omega) (by omega)).trans habsent

end Deck
end Chiptune
