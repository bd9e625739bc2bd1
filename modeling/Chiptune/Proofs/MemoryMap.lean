import Chiptune.Proofs.ChannelIsolation
import Chiptune.Proofs.CurrentRate
import Chiptune.Proofs.Feedback
import Chiptune.Proofs.RegisterFile
import Chiptune.Proofs.RomWindow

/-!
# Reading after writing

Three stores lie behind the addresses: the cells, the timer and the sound unit.
`Region.Covers` cuts the addresses up between them, and a write and a read of
one address are answered by the same one. So what is written is what is read,
with three exceptions. ROM takes nothing, and writing to a part of it maps a bank
into the window instead. Some bits of the sound registers always read as one.
And the power register shows which channels are on, which is the only thing that
writing to one address can change at another.
-/
namespace Chiptune

open Sound
open Sound.Register (powerAddress)

/-! ### Which addresses lie where -/

/-- The addresses of a region. -/
def Region.Covers (address : Nat) : Region → Prop
  | .rom => address < 0x2000 ∨ 0x4000 ≤ address ∧ address < 0x8000
  | .bankSelect => 0x2000 ≤ address ∧ address < 0x4000
  | .timer => address = 0xFF06 ∨ address = 0xFF07
  | .sound => 0xFF10 ≤ address ∧ address ≤ 0xFF3F
  | .plain =>
    0x8000 ≤ address ∧ address < 0xFF06 ∨ 0xFF08 ≤ address ∧ address < 0xFF10 ∨ 0xFF40 ≤ address

theorem Region.covers_ofAddress (address : UInt16) :
    (Region.ofAddress address).Covers address.toNat := by
  simp only [ofAddress, UInt16.lt_iff_toNat_lt, UInt16.le_iff_toNat_le, UInt16.reduceToNat]
  repeat' split
  all_goals
    simp only [Covers]
    omega

/-- Every address lies in one region only. -/
theorem Region.ofAddress_eq_iff {address : UInt16} {region : Region} :
    Region.ofAddress address = region ↔ region.Covers address.toNat := by
  have hcovers := covers_ofAddress address
  constructor
  · rintro rfl
    exact hcovers
  · intro h
    cases hregion : Region.ofAddress address <;> cases region <;> rw [hregion] at hcovers <;>
      simp only [Covers] at hcovers h <;> first | rfl | omega

/-- Nothing of ROM lies in the upper half. -/
theorem Region.ofAddress_of_le {address : UInt16} (h : 0x8000 ≤ address) :
    Region.ofAddress address ≠ .rom ∧ Region.ofAddress address ≠ .bankSelect := by
  have h : 0x8000 ≤ address.toNat := UInt16.le_iff_toNat_le.mp h
  simp only [ne_eq, ofAddress_eq_iff, Covers]
  omega

namespace Sound.Register

/-- Two addresses of one register are the same, unless there is no register at all. -/
theorem eq_of_ofAddress_eq {a b : UInt16} (h : ofAddress a = ofAddress b)
    (hused : ofAddress a ≠ .unused) : a = b := by
  have ha := liesAt_ofAddress a
  have hb := liesAt_ofAddress b
  rw [← h] at hb
  apply UInt16.toNat_inj.mp
  cases hregister : ofAddress a with
  | unused => exact absurd hregister hused
  | channel | volume | routing | power | wave =>
    rw [hregister] at ha hb
    cases ha
    cases hb
    omega

theorem ofAddress_eq_unused {address : UInt16} (hfirst : 0xFF27 ≤ address.toNat)
    (hlast : address.toNat ≤ 0xFF2F) : ofAddress address = .unused := by
  unfold ofAddress ofOffset base
  rw [if_pos (by omega), dif_neg (by omega), if_neg (by omega), if_neg (by omega),
    if_neg (by omega), if_pos (by omega)]

theorem exists_ofAddress_eq_wave {address : UInt16} (hfirst : 0xFF30 ≤ address.toNat)
    (hlast : address.toNat ≤ 0xFF3F) : ∃ index, ofAddress address = .wave index := by
  unfold ofAddress ofOffset base
  rw [if_pos (by omega), dif_neg (by omega), if_neg (by omega), if_neg (by omega),
    if_neg (by omega), if_neg (by omega), if_pos (by omega)]
  exact ⟨_, rfl⟩

theorem ofAddress_eq_channel {address : UInt16} (hfirst : 0xFF10 ≤ address.toNat)
    (hlast : address.toNat ≤ 0xFF23) :
    ofAddress address = .channel ⟨(address.toNat - 0xFF10) / 5, by omega⟩
      ⟨(address.toNat - 0xFF10) % 5, by omega⟩ := by
  unfold ofAddress ofOffset base
  rw [if_pos (by omega), dif_pos (by omega)]

/-- The registers of the file, by their addresses. -/
theorem exists_slot? {address : UInt16} (hfirst : 0xFF10 ≤ address.toNat)
    (hlast : address.toNat ≤ 0xFF25) : ∃ slot, (ofAddress address).slot? = some slot :=
  ⟨⟨address.toNat - 0xFF10, by omega⟩, slot?_ofAddress.mpr (Nat.add_sub_cancel' hfirst).symm⟩

end Sound.Register

/-! ### The sound unit -/

namespace SoundUnit

variable (unit : SoundUnit) (address : UInt16) (value : UInt8)

/-- Bit 7 of a value, alone. -/
theorem and_bit7 : ∀ value : UInt8,
    value &&& 0x80 = if value &&& 0x80 = 0 then 0 else 0x80 := by
  decide +kernel

theorem enabledBits_congr {a b : SoundUnit}
    (h : ∀ i : Fin 4, (a.channels.get i).enabled = (b.channels.get i).enabled) :
    a.enabledBits = b.enabledBits := by
  simp only [enabledBits, Fin.getElem_fin, ← Vector.get_eq_getElem, h]

/-- Switching the unit off stops every channel, switching it on starts none. -/
theorem enabledBits_write_power :
    (unit.write powerAddress value).enabledBits =
      if value &&& 0x80 = 0 then 0 else unit.enabledBits := by
  have hregister : Register.ofAddress powerAddress = .power := by decide
  have hchannel : ∀ i : Fin 4, ((unit.write powerAddress value).channels.get i).enabled =
      if value &&& 0x80 = 0 then false else (unit.channels.get i).enabled := by
    intro i
    rw [write, writeRegister_channels, hregister, Channel.receive]
    by_cases hoff : value &&& 0x80 = 0 <;> simp [hoff]
  by_cases hoff : value &&& 0x80 = 0
  · simp only [if_pos hoff] at hchannel ⊢
    simp only [enabledBits, Fin.getElem_fin, ← Vector.get_eq_getElem, hchannel]
    rfl
  · simp only [if_neg hoff] at hchannel ⊢
    exact enabledBits_congr hchannel

theorem read_write_power :
    (unit.write powerAddress value).read powerAddress =
      (value &&& 0x80) ||| 0x70 ||| (if value &&& 0x80 = 0 then 0 else unit.enabledBits) := by
  have hread : (unit.write powerAddress value).read powerAddress =
      ((if value &&& 0x80 != 0 then 0x80 else 0) |||
        (unit.write powerAddress value).enabledBits) ||| 0x70 := rfl
  rw [hread, enabledBits_write_power, UInt8.or_assoc, UInt8.or_assoc]
  conv_rhs => rw [and_bit7]
  by_cases hoff : value &&& 0x80 = 0
  · simp [hoff]
  · simp [hoff, UInt8.or_comm]

/-- Writing one register changes no other one but the power register. -/
theorem read_write_of_ne {address probe : UInt16} (hne : probe ≠ address)
    (hpower : probe ≠ powerAddress) : (unit.write address value).read probe = unit.read probe := by
  have hstored : (unit.write address value).stored (Register.ofAddress probe) =
      unit.stored (Register.ofAddress probe) := by
    cases hslot : (Register.ofAddress probe).slot? with
    | some slot =>
      have hother : (Register.ofAddress address).slot? ≠ some slot := by
        intro h
        have haddress := Register.slot?_ofAddress.mp h
        rw [← Register.slot?_ofAddress.mp hslot, UInt16.toNat_inj] at haddress
        exact hne haddress.symm
      rw [stored_of_slot? _ hslot, stored_of_slot? _ hslot, write, writeRegister_registers,
        if_neg hother]
    | none =>
      cases hregister : Register.ofAddress probe with
      | channel | volume | routing =>
        rw [hregister] at hslot
        contradiction
      | power => exact absurd (Register.eq_powerAddress hregister) hpower
      | unused => rfl
      | wave index =>
        have hother : Register.ofAddress address ≠ .wave index := by
          intro h
          have hused : Register.ofAddress probe ≠ .unused := by simp [hregister]
          exact hne (Register.eq_of_ofAddress_eq (hregister.trans h.symm) hused)
        show (unit.write address value).wave.get index = unit.wave.get index
        unfold write
        cases hwritten : Register.ofAddress address with
        | wave written =>
          have hindex : written.val ≠ index.val := by
            intro h
            exact hother (hwritten.trans (congrArg Register.wave (Fin.ext h)))
          simp only [writeRegister, Vector.get_eq_getElem, Vector.getElem_set_ne _ _ hindex]
        | channel | volume | routing | power | unused => rfl
  simp only [read, hstored]

/-- A register of the file reads back with the bits set that always read as one. -/
theorem read_write_slot {address : UInt16} {slot : Fin 22}
    (h : (Register.ofAddress address).slot? = some slot) :
    (unit.write address value).read address = value ||| (Register.ofAddress address).mask := by
  rw [read, stored_of_slot? _ h, write, writeRegister_registers, if_pos h]

theorem read_write_wave {address : UInt16} {index : Fin 16}
    (h : Register.ofAddress address = .wave index) :
    (unit.write address value).read address = value := by
  have hget : (unit.wave.set index value).get index = value := by
    rw [Vector.get_eq_getElem, Vector.getElem_set_self]
  rw [read, write, h]
  show (unit.wave.set index value).get index ||| 0x00 = value
  rw [hget, UInt8.or_zero]

theorem read_of_unused {address : UInt16} (h : Register.ofAddress address = .unused) :
    unit.read address = 0xFF := by
  rw [read, h]
  show (0 : UInt8) ||| 0xFF = 0xFF
  decide

/-- The power register shows which channels are on, and bit 7. -/
theorem read_power_congr {a b : SoundUnit} (hpowered : a.powered = b.powered)
    (h : ∀ i : Fin 4, (a.channels.get i).enabled = (b.channels.get i).enabled) :
    a.read powerAddress = b.read powerAddress := by
  have hon : a.channels.map Channel.enabled = b.channels.map Channel.enabled := by
    ext i hi
    simpa only [Vector.getElem_map, Vector.get_eq_getElem] using h ⟨i, hi⟩
  rw [read_powerAddress, read_powerAddress, hpowered, hon]

/-- What sets up no channel leaves the power register alone. -/
theorem read_power_write_of_ne {address : UInt16} (hne : address ≠ powerAddress)
    (hchannel : ¬ (0xFF10 ≤ address.toNat ∧ address.toNat ≤ 0xFF23)) :
    (unit.write address value).read powerAddress = unit.read powerAddress := by
  have hlies := Register.liesAt_ofAddress address
  unfold write
  cases hregister : Register.ofAddress address with
  | channel index number =>
    rw [hregister] at hlies
    cases hlies
    omega
  | power => exact absurd (Register.eq_powerAddress hregister) hne
  | volume | wave | unused => rfl
  | routing =>
    refine read_power_congr rfl fun i => ?_
    rw [writeRegister_channels, Channel.receive]

/-- One bit of the power register belongs to each channel. -/
theorem powerBits_set : ∀ (powered : Bool) (on : Vector Bool 4) (index : Fin 4) (started : Bool),
    powerBits powered (on.set index started index.isLt) &&& ~~~(1 <<< UInt8.ofNat index) =
      powerBits powered on &&& ~~~(1 <<< UInt8.ofNat index) := by
  decide +kernel

/-- Writing a register of a channel changes the power register in the bit of this channel only. -/
theorem read_power_write_channel {address : UInt16} {index : Fin 4} {number : Fin 5}
    (h : Register.ofAddress address = .channel index number) :
    (unit.write address value).read powerAddress &&& ~~~(1 <<< UInt8.ofNat index) =
      unit.read powerAddress &&& ~~~(1 <<< UInt8.ofNat index) := by
  have hpowered : (unit.write address value).powered = unit.powered := by
    rw [write, h, writeRegister]
  have hon : (unit.write address value).channels.map Channel.enabled =
      (unit.channels.map Channel.enabled).set index
        ((unit.write address value).channels.get index).enabled index.isLt := by
    ext i hi
    rw [Vector.getElem_map, Vector.getElem_set, ← Vector.get_eq_getElem _ ⟨i, hi⟩]
    by_cases hindex : index.val = i
    · subst hindex
      rw [if_pos rfl]
    · have hne : index ≠ ⟨i, hi⟩ := fun h => hindex (congrArg Fin.val h)
      rw [if_neg hindex, write, writeRegister_channels, h, Channel.receive, if_neg hne,
        Vector.getElem_map, Vector.get_eq_getElem]
  rw [read_powerAddress, read_powerAddress, hpowered, hon, powerBits_set]

end SoundUnit

/-! ### All of memory -/

/-- A number selects the bank that is mapped into the window. -/
def Album.Rom.Maps (rom : Album.Rom) (number : Nat) : Prop :=
  1 ≤ number ∧ number < 32 ∧ (rom.bank? number).isSome

namespace Memory

variable (memory : Memory) (address : UInt16) (value : UInt8)

/-- The addresses of plain memory. -/
def IsPlain (address : UInt16) : Prop :=
  0x8000 ≤ address ∧ address ≠ 0xFF06 ∧ address ≠ 0xFF07 ∧
    ¬ (0xFF10 ≤ address ∧ address ≤ 0xFF3F)

instance (address : UInt16) : Decidable (IsPlain address) := inferInstanceAs (Decidable (_ ∧ _))

/-- What an address of the upper half reads as after a value was written there. -/
def readBack (memory : Memory) (address : UInt16) (value : UInt8) : UInt8 :=
  if 0xFF10 ≤ address ∧ address ≤ 0xFF25 then value ||| (Register.ofAddress address).mask
  else if address = 0xFF26 then
    (value &&& 0x80) ||| 0x70 ||| (if value &&& 0x80 = 0 then 0 else memory.sound.enabledBits)
  else if 0xFF27 ≤ address ∧ address ≤ 0xFF2F then 0xFF
  else value

theorem isPlain_iff {address : UInt16} : IsPlain address ↔ Region.ofAddress address = .plain := by
  simp only [IsPlain, Region.ofAddress_eq_iff, Region.Covers, UInt16.le_iff_toNat_le, ne_eq,
    ← UInt16.toNat_inj, UInt16.reduceToNat]
  omega

/-- A read depends on what the store of its address answers. -/
theorem read_congr {a b : Memory} {address : UInt16}
    (hcells : a.cells.get address = b.cells.get address)
    (hrate : a.rate.read address = b.rate.read address)
    (hsound : a.sound.read address = b.sound.read address) : a.read address = b.read address := by
  simp only [read, hcells, hrate, hsound]

theorem read_write_plain {address : UInt16} (h : Region.ofAddress address = .plain)
    (probe : UInt16) :
    (memory.write address value).read probe =
      if probe = address then value else memory.read probe := by
  have hwrite : memory.write address value =
      { memory with cells := memory.cells.set address value } := by
    simp only [write, h]
  rw [hwrite]
  by_cases hprobe : probe = address
  · subst hprobe
    rw [if_pos rfl, read, h]
    exact (Cells.get_set _ _ _ _).trans (if_pos rfl)
  · rw [if_neg hprobe]
    refine read_congr ?_ rfl rfl
    exact (Cells.get_set _ _ _ _).trans (if_neg fun h => hprobe h.symm)

theorem read_write_timer {address : UInt16} (h : Region.ofAddress address = .timer)
    (probe : UInt16) :
    (memory.write address value).read probe =
      if probe = address then value else memory.read probe := by
  have hwrite : memory.write address value =
      { memory with rate := memory.rate.write address value } := by
    simp only [write, h]
  have hrate : (memory.rate.write address value).read probe =
      if probe = address then value else memory.rate.read probe := by
    simp only [TickRate.read, TickRate.modulo_write, TickRate.control_write]
    obtain rfl | rfl := region_eq_timer_iff.mp h
    · by_cases hprobe : probe = 0xFF06 <;> simp [hprobe]
    · by_cases hprobe : probe = 0xFF07
      · subst hprobe
        rfl
      · simp [hprobe]
  rw [hwrite]
  by_cases hprobe : probe = address
  · subst hprobe
    rw [if_pos rfl] at hrate ⊢
    rw [read, h]
    exact hrate
  · rw [if_neg hprobe] at hrate ⊢
    exact read_congr rfl hrate rfl

theorem read_write_sound {address : UInt16} (h : Region.ofAddress address = .sound)
    (probe : UInt16) :
    (memory.write address value).read probe =
      if Region.ofAddress probe = .sound then (memory.sound.write address value).read probe
      else memory.read probe := by
  simp only [write, h]
  by_cases hprobe : Region.ofAddress probe = .sound
  · rw [if_pos hprobe, read, hprobe]
  · rw [if_neg hprobe]
    unfold read
    cases hregion : Region.ofAddress probe with
    | sound => exact absurd hregion hprobe
    | rom | bankSelect | timer | plain => rfl

theorem selectBank_of_maps {number : Nat} (h : memory.rom.Maps number) :
    ∃ bank, memory.rom.bank? number = some bank ∧ memory.selectBank number =
      { memory with cells := memory.cells.mapWindow bank, bank := number } := by
  obtain ⟨hpos, hlt, hsome⟩ := h
  obtain ⟨bank, hbank⟩ := Option.isSome_iff_exists.mp hsome
  have hselected : memory.selectable? number = some bank := by
    rw [selectable?, if_pos ⟨hpos, hlt⟩, hbank]
  exact ⟨bank, hbank, by simp only [selectBank, hselected]⟩

theorem selectBank_of_not_maps {number : Nat} (h : ¬ memory.rom.Maps number) :
    memory.selectBank number = memory := by
  have hselected : memory.selectable? number = none := by
    unfold selectable?
    by_cases hnumber : 0 < number ∧ number < Album.bankLimit
    · rw [if_pos hnumber]
      by_contra hsome
      exact h ⟨hnumber.1, hnumber.2, Option.isSome_iff_ne_none.mpr hsome⟩
    · rw [if_neg hnumber]
  simp only [selectBank, hselected]

/-- Selecting a bank changes what is read in the window. -/
theorem read_selectBank {number : Nat} (h : memory.rom.Maps number) (probe : UInt16) :
    (memory.selectBank number).read probe =
      if 0x4000 ≤ probe ∧ probe < 0x8000 then
        memory.rom.byte number (probe.toNat - 0x4000)
      else memory.read probe := by
  have hsize : Album.bankSize = 0x4000 := rfl
  obtain ⟨bank, hbank, hselect⟩ := memory.selectBank_of_maps h
  rw [hselect]
  simp only [UInt16.le_iff_toNat_le, UInt16.lt_iff_toNat_lt, UInt16.reduceToNat]
  by_cases hwindow : 0x4000 ≤ probe.toNat ∧ probe.toNat < 0x8000
  · have hlt : probe.toNat - Album.bankSize < Album.bankSize := by omega
    rw [if_pos hwindow, read_of_lt _ hwindow.2, Cells.get_mapWindow, dif_pos (by omega)]
    exact (Album.Rom.byte_of_bank hbank hlt).symm
  · rw [if_neg hwindow]
    refine read_congr ?_ rfl rfl
    rw [Cells.get_mapWindow, dif_neg (by omega)]

/-- Outside the sound unit, the upper half reads as it was written. -/
theorem readBack_of_ne {address : UInt16} (h : Region.ofAddress address ≠ .sound) :
    memory.readBack address value = value := by
  rw [ne_eq, Region.ofAddress_eq_iff] at h
  simp only [readBack, Region.Covers, UInt16.le_iff_toNat_le, ← UInt16.toNat_inj,
    UInt16.reduceToNat] at h ⊢
  rw [if_neg (by omega), if_neg (by omega), if_neg (by omega)]

theorem read_write_self {address : UInt16} (h : 0x8000 ≤ address) :
    (memory.write address value).read address = memory.readBack address value := by
  cases hregion : Region.ofAddress address with
  | rom => exact absurd hregion (Region.ofAddress_of_le h).1
  | bankSelect => exact absurd hregion (Region.ofAddress_of_le h).2
  | plain =>
    rw [memory.read_write_plain value hregion, if_pos rfl, readBack_of_ne _ _ (by simp [hregion])]
  | timer =>
    rw [memory.read_write_timer value hregion, if_pos rfl, readBack_of_ne _ _ (by simp [hregion])]
  | sound =>
    have hcovers : 0xFF10 ≤ address.toNat ∧ address.toNat ≤ 0xFF3F :=
      Region.ofAddress_eq_iff.mp hregion
    rw [memory.read_write_sound value hregion, if_pos hregion]
    simp only [readBack, UInt16.le_iff_toNat_le, ← UInt16.toNat_inj, UInt16.reduceToNat]
    by_cases hfile : address.toNat ≤ 0xFF25
    · obtain ⟨slot, hslot⟩ := Register.exists_slot? hcovers.1 hfile
      rw [if_pos ⟨hcovers.1, hfile⟩, SoundUnit.read_write_slot _ _ hslot]
    rw [if_neg fun h => hfile h.2]
    by_cases hpower : address.toNat = 0xFF26
    · obtain rfl : address = powerAddress := UInt16.toNat_inj.mp hpower
      rw [if_pos hpower, SoundUnit.read_write_power]
    rw [if_neg hpower]
    by_cases hgap : address.toNat ≤ 0xFF2F
    · rw [if_pos (by omega)]
      exact SoundUnit.read_of_unused _ (Register.ofAddress_eq_unused (by omega) hgap)
    · obtain ⟨index, hwave⟩ := Register.exists_ofAddress_eq_wave (by omega) hcovers.2
      rw [if_neg (by omega), SoundUnit.read_write_wave _ _ hwave]

/-- In the upper half a write reaches its own address, and the power register if it sets up a
channel. -/
theorem read_write_of_ne {address probe : UInt16} (h : 0x8000 ≤ address) (hne : probe ≠ address)
    (hpower : probe = powerAddress → ¬ (0xFF10 ≤ address ∧ address ≤ 0xFF23)) :
    (memory.write address value).read probe = memory.read probe := by
  cases hregion : Region.ofAddress address with
  | rom => exact absurd hregion (Region.ofAddress_of_le h).1
  | bankSelect => exact absurd hregion (Region.ofAddress_of_le h).2
  | plain => rw [memory.read_write_plain value hregion, if_neg hne]
  | timer => rw [memory.read_write_timer value hregion, if_neg hne]
  | sound =>
    rw [memory.read_write_sound value hregion]
    by_cases hprobe : Region.ofAddress probe = .sound
    · rw [if_pos hprobe, read, hprobe]
      by_cases hpowered : probe = powerAddress
      · have hchannel := hpower hpowered
        simp only [UInt16.le_iff_toNat_le, UInt16.reduceToNat] at hchannel
        rw [hpowered] at hne ⊢
        exact SoundUnit.read_power_write_of_ne _ _ hne.symm hchannel
      · exact SoundUnit.read_write_of_ne _ _ hne hpowered
    · rw [if_neg hprobe]

theorem read_power_write_channel {address : UInt16} (hfirst : 0xFF10 ≤ address)
    (hlast : address ≤ 0xFF23) :
    let bit : UInt8 := 1 <<< UInt8.ofNat ((address.toNat - 0xFF10) / 5)
    (memory.write address value).read powerAddress &&& ~~~bit =
      memory.read powerAddress &&& ~~~bit := by
  simp only [UInt16.le_iff_toNat_le, UInt16.reduceToNat] at hfirst hlast
  have hregion : Region.ofAddress address = .sound :=
    Region.ofAddress_eq_iff.mpr ⟨hfirst, Nat.le_trans hlast (by decide)⟩
  have hpower : Region.ofAddress powerAddress = .sound := by decide
  have hread : memory.read powerAddress = memory.sound.read powerAddress := by rw [read, hpower]
  have hbit := memory.sound.read_power_write_channel value
    (Register.ofAddress_eq_channel hfirst hlast)
  rw [memory.read_write_sound value hregion, if_pos hpower, hread]
  exact hbit

/-- A word of plain memory reads as it was written. -/
theorem readWord_writeWord {address : UInt16} (hlow : IsPlain address)
    (hhigh : IsPlain (address + 1)) (word : UInt16) :
    (memory.writeWord address word).readWord address = word := by
  have hne : address ≠ address + 1 := by
    intro h
    have := congrArg UInt16.toNat h
    simp [UInt16.toNat_add] at this
    omega
  rw [isPlain_iff] at hlow hhigh
  have hreadHigh : (memory.writeWord address word).read (address + 1) = Word.high word := by
    rw [writeWord, read_write_plain _ _ hhigh, if_pos rfl]
  have hreadLow : (memory.writeWord address word).read address = Word.low word := by
    rw [writeWord, read_write_plain _ _ hhigh, if_neg hne, read_write_plain _ _ hlow, if_pos rfl]
  rw [readWord, Chiptune.readWord, hreadHigh, hreadLow, Word.ofBytes_high_low]

/-- The law of reading after writing. ROM takes nothing, but a part of it maps banks: the window
then reads as the bank that the value names, if the image has it, and nothing else changes. In the
upper half an address reads as it was written, up to the bits that a sound register does not keep,
and no other address reads differently, except that a register of a channel may change the bit of
that channel in the power register. Hence words of plain memory read as they were written. -/
theorem read_over_write (memory : Memory) (a : UInt16) (value : UInt8) :
    let next := memory.write a value
    (a < 0x2000 ∨ 0x4000 ≤ a ∧ a < 0x8000 → next = memory) ∧
      (0x2000 ≤ a ∧ a < 0x4000 →
        (¬ memory.rom.Maps value.toNat → next = memory) ∧
          (memory.rom.Maps value.toNat → ∀ b, next.read b =
            if 0x4000 ≤ b ∧ b < 0x8000 then memory.rom.byte value.toNat (b.toNat - 0x4000)
            else memory.read b)) ∧
      (0x8000 ≤ a →
        next.read a = memory.readBack a value ∧
          (∀ b, b ≠ a → (b = 0xFF26 → ¬ (0xFF10 ≤ a ∧ a ≤ 0xFF23)) →
            next.read b = memory.read b) ∧
          (0xFF10 ≤ a ∧ a ≤ 0xFF23 →
            let bit : UInt8 := 1 <<< UInt8.ofNat ((a.toNat - 0xFF10) / 5)
            next.read 0xFF26 &&& ~~~bit = memory.read 0xFF26 &&& ~~~bit)) ∧
      (IsPlain a → IsPlain (a + 1) → ∀ word, (memory.writeWord a word).readWord a = word) := by
  intro next
  refine ⟨fun hrom => ?rom, fun hselect => ?select, fun hupper => ?upper,
    fun hlow hhigh word => memory.readWord_writeWord hlow hhigh word⟩
  case rom =>
    have hregion : Region.ofAddress a = .rom := by
      rw [Region.ofAddress_eq_iff]
      simpa only [Region.Covers, UInt16.le_iff_toNat_le, UInt16.lt_iff_toNat_lt,
        UInt16.reduceToNat] using hrom
    simp only [next, write, hregion]
  case select =>
    have hregion : Region.ofAddress a = .bankSelect := by
      rw [Region.ofAddress_eq_iff]
      simpa only [Region.Covers, UInt16.le_iff_toNat_le, UInt16.lt_iff_toNat_lt,
        UInt16.reduceToNat] using hselect
    have hnext : next = memory.selectBank value.toNat := by
      simp only [next, write, hregion]
    rw [hnext]
    exact ⟨memory.selectBank_of_not_maps, memory.read_selectBank⟩
  case upper =>
    exact ⟨memory.read_write_self value hupper,
      fun b hne hpower => memory.read_write_of_ne value hupper hne hpower,
      fun hchannel => memory.read_power_write_channel value hchannel.1 hchannel.2⟩

/-- A unit whose first channel is switched off by what is written to its volume register, above an
image of two banks. -/
theorem read_over_write_twoBanks :
    let memory := ((new Deck.filledAlbum.rom 48000).write 0xFF12 0xF0).write 0xFF14 0x80
    memory.write 0x5000 0x77 = memory ∧ memory.write 0x2000 0x20 = memory ∧
      (memory.write 0x3FFF 0x02).read 0x4000 = 0x22 ∧
      (memory.write 0xFF11 0x80).read 0xFF11 = 0xBF ∧
      (memory.write 0xFF11 0x80).read 0xFF12 = memory.read 0xFF12 ∧
      memory.read 0xFF26 = 0x71 ∧ (memory.write 0xFF12 0x00).read 0xFF26 = 0x70 ∧
      (memory.write 0xFF12 0x00).read 0xFF26 &&& 0xFE = memory.read 0xFF26 &&& 0xFE ∧
      (memory.writeWord 0xDFFF 0xBEEF).readWord 0xDFFF = 0xBEEF := by
  intro memory
  have hrom : memory.rom = Deck.filledAlbum.rom := rfl
  have hmaps : memory.rom.Maps (0x02 : UInt8).toNat := by
    rw [hrom]
    exact ⟨by decide, by decide, rfl⟩
  have hbyte : memory.rom.byte (0x02 : UInt8).toNat ((0x4000 : UInt16).toNat - 0x4000) = 0x22 :=
    (Album.Rom.byte_of_bank rfl (by decide)).trans (Deck.get_filledBank 0x22 0 (by decide))
  have hunmapped : ¬ memory.rom.Maps (0x20 : UInt8).toNat := fun h => absurd h.2.1 (by decide)
  have hwindow := ((memory.read_over_write 0x3FFF 0x02).2.1 (by decide)).2 hmaps 0x4000
  rw [if_pos (by decide)] at hwindow
  obtain ⟨hself, hother, -⟩ := (memory.read_over_write 0xFF11 0x80).2.2.1 (by decide)
  exact ⟨(memory.read_over_write 0x5000 0x77).1 (by decide),
    ((memory.read_over_write 0x2000 0x20).2.1 (by decide)).1 hunmapped, hwindow.trans hbyte,
    hself.trans (by decide), hother 0xFF12 (by decide) (by decide), by decide +kernel,
    by decide +kernel, ((memory.read_over_write 0xFF12 0x00).2.2.1 (by decide)).2.2 (by decide),
    (memory.read_over_write 0xDFFF 0x00).2.2.2 (by decide) (by decide) 0xBEEF⟩

end Memory
end Chiptune
