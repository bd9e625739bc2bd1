import Chiptune.Proofs.Batching

/-!
# The tick rate is never stale

The number of ticks per second and the number of samples per tick are kept
beside the four values that they follow from: the two timer registers, the speed
and the sample rate. They are derived anew when the timer is set, when the speed
is, and when a music driver changes one of the registers, but not when it writes
the value that is there already. `TickRate.Current` says that there is nothing
left to derive. Since it holds on every way into a state, deriving them at every
write would come to the same.
-/
namespace Chiptune

namespace TickRate

/-! ### Writing a timer register -/

/-- The rate with a value in a timer register, and nothing derived from it. -/
def store (rate : TickRate) (address : UInt16) (value : UInt8) : TickRate :=
  if address = 0xFF06 then { rate with modulo := value }
  else if address = 0xFF07 then { rate with control := value }
  else rate

/-- Writes a timer register and derives the rest, whether the value is new or not. -/
def writeAlways (rate : TickRate) (address : UInt16) (value : UInt8) : TickRate :=
  (rate.store address value).recompute

variable {rate : TickRate} {address : UInt16} {value : UInt8}

/-- A value that is there already is stored in vain. -/
theorem store_eq_self (h : rate.changedBy address value = false) :
    rate.store address value = rate := by
  simp only [changedBy, Bool.or_eq_false_iff, Bool.and_eq_false_imp, beq_iff_eq,
    bne_eq_false_iff_eq] at h
  obtain ⟨hmodulo, hcontrol⟩ := h
  unfold store
  split
  · rw [← hmodulo ‹_›]
  split
  · rw [← hcontrol ‹_›]
  · rfl

theorem write_eq (rate : TickRate) (address : UInt16) (value : UInt8) :
    rate.write address value =
      if rate.changedBy address value then rate.writeAlways address value
      else rate.store address value := by
  unfold write
  split
  · rename_i hchanged
    unfold writeAlways store
    split
    · rfl
    · rename_i hmodulo
      have hcontrol : address = 0xFF07 := by
        have h : address = 0xFF07 ∧ rate.control ≠ value := by
          simpa [changedBy, hmodulo] using hchanged
        exact h.1
      rw [if_pos hcontrol]
  · rename_i hunchanged
    exact (store_eq_self (by simpa using hunchanged)).symm

theorem write_of_ne (hmodulo : address ≠ 0xFF06) (hcontrol : address ≠ 0xFF07) (value : UInt8) :
    rate.write address value = rate := by
  simp [write, changedBy, hmodulo, hcontrol]

/-- While there is nothing left to derive, a write may derive everything anew. -/
theorem Current.write_eq (h : rate.Current) (address : UInt16) (value : UInt8) :
    rate.write address value = rate.writeAlways address value := by
  rw [TickRate.write_eq]
  split
  · rfl
  · rename_i hunchanged
    have hstore : rate.store address value = rate := store_eq_self (by simpa using hunchanged)
    rw [writeAlways, hstore]
    exact h.symm

theorem modulo_write (rate : TickRate) (address : UInt16) (value : UInt8) :
    (rate.write address value).modulo = if address = 0xFF06 then value else rate.modulo := by
  have hstore : (rate.store address value).modulo =
      if address = 0xFF06 then value else rate.modulo := by
    unfold store
    split
    · rfl
    · split <;> rfl
  rw [write_eq]
  split
  · exact hstore
  · exact hstore

theorem control_write (rate : TickRate) (address : UInt16) (value : UInt8) :
    (rate.write address value).control = if address = 0xFF07 then value else rate.control := by
  have hstore : (rate.store address value).control =
      if address = 0xFF07 then value else rate.control := by
    unfold store
    split
    · subst address
      rfl
    · split <;> rfl
  rw [write_eq]
  split
  · exact hstore
  · exact hstore

theorem Current.samplesPerTick_eq (h : rate.Current) :
    rate.samplesPerTick = 2 * (rate.sampleRate.toFloat32 / rate.hz).toUInt64.toNat := by
  rw [Nat.mul_comm]
  exact (congrArg TickRate.samplesPerTick h).symm.trans (by rw [h.hz_eq]; rfl)

end TickRate

namespace Memory

theorem region_eq_timer_iff {address : UInt16} :
    Region.ofAddress address = .timer ↔ address = 0xFF06 ∨ address = 0xFF07 := by
  simp only [Region.ofAddress, ← UInt16.toNat_inj, UInt16.lt_iff_toNat_lt, UInt16.le_iff_toNat_le,
    UInt16.reduceToNat]
  repeat' split
  all_goals
    simp only [reduceCtorEq, false_iff, true_iff]
    omega

/-- The timer hears of every write and takes those to its own registers. -/
theorem rate_write (memory : Memory) (address : UInt16) (value : UInt8) :
    (memory.write address value).rate = memory.rate.write address value := by
  by_cases htimer : Region.ofAddress address = .timer
  · rw [write, htimer]
  · obtain ⟨hmodulo, hcontrol⟩ := not_or.mp (mt region_eq_timer_iff.mpr htimer)
    rw [TickRate.write_of_ne hmodulo hcontrol]
    unfold write
    cases hregion : Region.ofAddress address with
    | timer => exact absurd hregion htimer
    | bankSelect =>
      simp only [selectBank]
      split <;> rfl
    | rom | sound | plain => rfl

theorem read_modulo (memory : Memory) : memory.read 0xFF06 = memory.rate.modulo := rfl

theorem read_control (memory : Memory) : memory.read 0xFF07 = memory.rate.control := rfl

end Memory

namespace Deck

/-- The tick rate of a deck is what its timer, speed and sample rate give, also while a tick is
running, and there is always a whole number of frames to a tick. The timer registers read back what
was last written to them, and the writes that are left out would change nothing. -/
theorem Reached.rate_never_stale {album : Album} {config : Config} {deck : Deck}
    (h : Reached album config deck) {memory : Memory} (hran : deck.memory.Ran memory) :
    let rate := memory.rate
    rate.hz = TickRate.timerHz rate.modulo rate.control * rate.speed ∧
      rate.samplesPerTick = 2 * (rate.sampleRate.toFloat32 / rate.hz).toUInt64.toNat ∧
      Even rate.samplesPerTick ∧
      (∀ hz samplesPerTick, { rate with hz, samplesPerTick }.recompute = rate) ∧
      memory.read 0xFF06 = rate.modulo ∧ memory.read 0xFF07 = rate.control ∧
      ∀ address value,
        let next := memory.write address value
        rate.write address value = rate.writeAlways address value ∧
          next.rate = rate.writeAlways address value ∧
          next.read 0xFF06 = (if address = 0xFF06 then value else memory.read 0xFF06) ∧
          next.read 0xFF07 = (if address = 0xFF07 then value else memory.read 0xFF07) := by
  intro rate
  have hcurrent : rate.Current := current_ran hran h.current
  refine ⟨hcurrent.hz_eq, hcurrent.samplesPerTick_eq, ?_, fun hz samplesPerTick => hcurrent,
    memory.read_modulo, memory.read_control, fun address value => ?_⟩
  · rw [hcurrent.samplesPerTick_eq]
    exact even_two_mul _
  · intro next
    have hrate : next.rate = rate.write address value := memory.rate_write address value
    have hwrite := hcurrent.write_eq address value
    rw [next.read_modulo, next.read_control, hrate, rate.modulo_write, rate.control_write]
    exact ⟨hwrite, hwrite, rfl, rfl⟩

/-- A driver that writes the timer control that is there already, after its user has changed the
speed and the track. -/
theorem rate_never_stale_pairedDeck :
    let deck := pairedDeck.afterAll [.poke 0xFF06 0x40, .setSpeed 2.0, .next, .poke 0xFF07 0x84]
    let rate := deck.memory.rate
    Reached pairedAlbum {} deck ∧ deck.memory.Ran deck.memory ∧
      rate.changedBy 0xFF07 0x84 = false ∧ rate.hz = 128.0 ∧ rate.recompute = rate ∧
      rate.write 0xFF07 0x84 = rate.writeAlways 0xFF07 0x84 := by
  intro deck rate
  have hreached : Reached pairedAlbum {} deck := ⟨pairedDeck, _, rfl, rfl⟩
  obtain ⟨-, -, -, hrecompute, -, -, hwrite⟩ := hreached.rate_never_stale .start
  exact ⟨hreached, .start, by decide +kernel, by decide +kernel, hrecompute _ _,
    (hwrite 0xFF07 0x84).1⟩

end Deck
end Chiptune
