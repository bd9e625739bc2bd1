import Chiptune.Proofs.ExactNumbers
import Chiptune.Proofs.Restart

/-!
# Ticks shorter than a frame

When a tick is worth less than one frame, ticks are run one after another until
their shares add up to a frame or the driver asks for longer ones. Adding the
shares up is rounded every time, and a share that is too small would be rounded
away, so that such a loop need not end. It does end, since no driver and no
speed makes more than two million ticks in a second: what is lost of a share is
at most a quarter of it. The limit of `batch` is therefore never what ends it.
-/
namespace Chiptune

/-! ### The rate of ticks -/

namespace TickRate

/-- The derived fields are what the others give. -/
def Current (rate : TickRate) : Prop := rate.recompute = rate

theorem current_recompute (rate : TickRate) : rate.recompute.Current := rfl

theorem Current.hz_eq {rate : TickRate} (h : rate.Current) :
    rate.hz = timerHz rate.modulo rate.control * rate.speed :=
  (congrArg hz h).symm

theorem Current.write {rate : TickRate} (h : rate.Current) (address : UInt16) (value : UInt8) :
    (rate.write address value).Current := by
  simp only [TickRate.write]
  split
  · split
    · exact current_recompute _
    · exact current_recompute _
  · exact h

theorem within_clockHz (control : UInt8) : Within 4096 262144 (clockHz control) := by
  unfold clockHz
  split
  · exact (Within.of_unpack (2 ^ 23) (-11) rfl).widen (by norm_num [scaled]) (by norm_num [scaled])
  · exact (Within.of_unpack (2 ^ 23) (-5) rfl).widen (by norm_num [scaled]) (by norm_num [scaled])
  · exact (Within.of_unpack (2 ^ 23) (-7) rfl).widen (by norm_num [scaled]) (by norm_num [scaled])
  · exact (Within.of_unpack (2 ^ 23) (-9) rfl).widen (by norm_num [scaled]) (by norm_num [scaled])

theorem within_verticalBlankHz : Within 15 60 verticalBlankHz :=
  (Within.of_unpack 15649997 (-18) rfl).widen (by norm_num [scaled]) (by norm_num [scaled])

/-- The timer counts from its modulo to 256. -/
theorem within_reload (modulo : UInt8) :
    Within (9 / 10) 257 (256 - modulo.toUInt32).toFloat32 := by
  have hmodulo : modulo.toNat < 256 := modulo.toNat_lt
  have hcount : (256 - modulo.toUInt32).toNat = 256 - modulo.toNat := by
    rw [UInt32.toNat_sub_of_le _ _ (UInt32.le_iff_toNat_le.mpr (by simp; omega))]
    simp
  have hne : 256 - modulo.toUInt32 ≠ 0 := by
    intro h
    rw [h] at hcount
    have hcount : 0 = 256 - modulo.toNat := hcount
    omega
  have hlow : (1 : ℚ) ≤ (256 - modulo.toUInt32).toNat := by
    exact_mod_cast (by omega : 1 ≤ (256 - modulo.toUInt32).toNat)
  have hhigh : ((256 - modulo.toUInt32).toNat : ℚ) ≤ 256 := by
    exact_mod_cast (by omega : (256 - modulo.toUInt32).toNat ≤ 256)
  refine (Within.toFloat32 hne).widen ?_ ?_
  · linarith
  · linarith

/-- The timer makes fewer than 700000 ticks in a second. -/
theorem within_timerHz (modulo control : UInt8) : Within 15 700000 (timerHz modulo control) := by
  have hdivided : Within 15 300000 (clockHz control / (256 - modulo.toUInt32).toFloat32) :=
    ((within_clockHz control).div (within_reload modulo) (by norm_num) (by norm_num)
      (by norm_num)).widen (by norm_num) (by norm_num)
  have htwo : Within 2 2 (2.0 : Float32) :=
    (Within.of_unpack (2 ^ 23) (-22) rfl).widen (by norm_num [scaled]) (by norm_num [scaled])
  simp only [timerHz]
  split
  · exact within_verticalBlankHz.widen le_rfl (by norm_num)
  · split
    · exact hdivided.widen le_rfl (by norm_num)
    · exact (hdivided.mul htwo (by norm_num) (by norm_num) (by norm_num)).widen (by norm_num)
        (by norm_num)

/-- A speed that is kept within its limits is a number within them, or not a number. -/
theorem within_speed {speed : Float32} (h : clampSpeed speed = speed) :
    IsNan speed ∨ Within (9 / 100) 2 speed := by
  have hslowest : Within (9 / 100) (11 / 100) slowest :=
    (Within.of_unpack 13421773 (-27) rfl).widen (by norm_num [scaled]) (by norm_num [scaled])
  have hfastest : Within 2 2 fastest :=
    (Within.of_unpack (2 ^ 23) (-22) rfl).widen (by norm_num [scaled]) (by norm_num [scaled])
  by_cases hslow : speed < slowest
  · rw [clampSpeed, if_pos hslow] at h
    exact .inr (h ▸ hslowest.widen le_rfl (by norm_num))
  by_cases hfast : fastest < speed
  · rw [clampSpeed, if_neg hslow, if_pos hfast] at h
    exact .inr (h ▸ hfastest.widen (by norm_num) le_rfl)
  obtain ⟨p, hp, hp', -⟩ := hslowest
  obtain ⟨q, hq, -, hq'⟩ := hfastest
  have hpos : 0 < value slowest := by
    rw [hp.value_eq]
    exact WithTop.coe_lt_coe.mpr hp.pos
  obtain hnonneg | hnan := nonneg_or_nan_of_not_lt hp.nonneg hpos hslow
  · have hle : value slowest ≤ value speed := by
      rw [lt_iff_value_lt hnonneg hp.nonneg] at hslow
      exact not_lt.mp hslow
    have hge : value speed ≤ value fastest := by
      rw [lt_iff_value_lt hq.nonneg hnonneg] at hfast
      exact not_lt.mp hfast
    rw [hp.value_eq] at hle
    rw [hq.value_eq] at hge
    obtain ⟨r, hr⟩ := WithTop.ne_top_iff_exists.mp (ne_top_of_le_ne_top WithTop.coe_ne_top hge)
    rw [← hr, WithTop.coe_le_coe] at hle hge
    exact .inr ⟨r, ⟨hnonneg, hr.symm, hp.pos.trans_le hle⟩, hp'.trans hle, hge.trans hq'⟩
  · exact .inl hnan

/-- No driver and no speed makes more than two million ticks in a second. -/
theorem within_hz {rate : TickRate} (h : rate.Current)
    (hspeed : clampSpeed rate.speed = rate.speed) : IsNan rate.hz ∨ Within 1 (2 ^ 21) rate.hz := by
  rw [h.hz_eq]
  obtain hnan | hspeed := within_speed hspeed
  · exact .inl (hnan.mul _)
  · exact .inr (((within_timerHz _ _).mul hspeed (by norm_num) (by norm_num) (by norm_num)).widen
      (by norm_num) (by norm_num))

end TickRate

/-! ### The loop -/

namespace Deck

/-- Runs ticks until a whole frame has elapsed or ticks become longer, however many it takes. -/
inductive Batched (share : Float32) : Float32 → Deck → Deck → Prop where
  | done {elapsed : Float32} {deck : Deck} (h : ¬ (elapsed < 1.0 ∧ deck.framesPerTick = 0)) :
    Batched share elapsed deck deck
  | tick {elapsed : Float32} {deck last : Deck} (h : elapsed < 1.0 ∧ deck.framesPerTick = 0)
    (rest : Batched share (elapsed + share) deck.runFrame.2 last) :
    Batched share elapsed deck last

/-- The loop has one result at most. -/
theorem Batched.unique {share elapsed : Float32} {deck a b : Deck}
    (ha : Batched share elapsed deck a) (hb : Batched share elapsed deck b) : a = b := by
  induction ha with
  | done h =>
    cases hb with
    | done => rfl
    | tick h' => exact absurd h' h
  | tick h _ ih =>
    cases hb with
    | done h' => exact absurd h h'
    | tick _ rest => exact ih rest

theorem batched_of_not {share elapsed : Float32} {deck : Deck}
    (h : ¬ (elapsed < 1.0 ∧ deck.framesPerTick = 0)) (limit : Nat) :
    Batched share elapsed deck (batch share limit elapsed deck) := by
  have hbatch : batch share limit elapsed deck = deck := by
    cases limit with
    | zero => rfl
    | succ limit =>
      rw [batch, if_neg]
      simpa using h
  rw [hbatch]
  exact .done h

/-- A number below one has its last place at least twenty-four places behind the point. -/
theorem lastPlace_le_of_lt_one {q : ℚ} (hq : 0 < q) (h : q < 1) : lastPlace q ≤ -24 := by
  have hlog : Int.log 2 q < 0 := by
    rw [← Int.lt_zpow_iff_log_lt Nat.one_lt_two hq]
    simpa using h
  unfold lastPlace
  omega

/-- Below one, a quarter of a share at most is lost when it is added. -/
theorem add_share {elapsed share : Float32} {a s : ℚ} (ha : HasValue a elapsed)
    (hs : HasValue s share) (hlow : 2 ^ (-22 : ℤ) ≤ s) :
    ¬ elapsed + share < 1.0 ∨ ∃ b, HasValue b (elapsed + share) ∧ a + 3 / 4 * s ≤ b := by
  have hsum := isRounded_add ha hs
  have hpos : 0 < a + s := add_pos ha.pos hs.pos
  rcases le_or_gt 1 (a + s) with hfull | hshort
  · left
    rw [lt_one_iff hsum.nonneg, ← value_one, not_lt]
    exact isRounded_one.value_le hsum one_pos hfull
  · right
    have hunit : (2 : ℚ) ^ lastPlace (a + s) ≤ 1 / 4 * s := by
      calc (2 : ℚ) ^ lastPlace (a + s) ≤ 2 ^ (-24 : ℤ) :=
            zpow_le_zpow_right₀ one_le_two (lastPlace_le_of_lt_one hpos hshort)
        _ = 1 / 4 * 2 ^ (-22 : ℤ) := by norm_num
        _ ≤ 1 / 4 * s := mul_le_mul_of_nonneg_left hlow (by norm_num)
    have hapos := ha.pos
    have hspos := hs.pos
    obtain ⟨b, hb, hb', -⟩ := hsum.exists_value (by linarith)
    exact ⟨b, ⟨hsum.nonneg, hb, by linarith⟩, by linarith⟩

/-- Enough ticks are allowed for their shares to add up to one, even though a quarter of each may be
lost. -/
theorem batched_batch {share : Float32} {s : ℚ} (hs : HasValue s share)
    (hlow : 2 ^ (-22 : ℤ) ≤ s) (limit : Nat) {elapsed : Float32} {a : ℚ} (ha : HasValue a elapsed)
    (henough : 1 ≤ a + limit * (3 / 4 * s)) (deck : Deck) :
    Batched share elapsed deck (batch share limit elapsed deck) := by
  induction limit generalizing elapsed a deck with
  | zero =>
    refine batched_of_not ?_ 0
    rintro ⟨hlt, -⟩
    rw [lt_one_iff ha.nonneg, ha.value_eq, WithTop.coe_lt_coe] at hlt
    rw [Nat.cast_zero, zero_mul, add_zero] at henough
    exact absurd hlt henough.not_gt
  | succ limit ih =>
    by_cases hgo : elapsed < 1.0 ∧ deck.framesPerTick = 0
    · have hstep : batch share (limit + 1) elapsed deck =
          batch share limit (elapsed + share) deck.runFrame.2 := by
        rw [batch, if_pos]
        simpa using hgo
      rw [hstep]
      refine .tick hgo ?_
      obtain hfull | ⟨b, hb, hle⟩ := add_share ha hs hlow
      · exact batched_of_not (fun hgo => hfull hgo.1) limit
      · refine ih hb ?_ _
        push_cast at henough
        linarith
    · exact batched_of_not hgo _

/-! ### The limit is never reached -/

theorem current_ran {start memory : Memory} (h : start.Ran memory)
    (hstart : start.rate.Current) : memory.rate.Current := by
  induction h with
  | start => exact hstart
  | play _ frames ih => exact ih
  | write _ address value ih =>
    rename_i memory _
    unfold Memory.write
    cases Region.ofAddress address with
    | timer => exact ih.write address value
    | bankSelect =>
      simp only [Memory.selectBank]
      split
      · exact ih
      · exact ih
    | rom | sound | plain => exact ih

theorem current_initMemory (header : Album.Header) (memory : Memory) :
    (initMemory header memory).rate.Current :=
  current_ran (ran_initMemory header memory) (TickRate.current_recompute _)

theorem Reached.current {album : Album} {config : Config} {deck : Deck}
    (h : Reached album config deck) : deck.memory.rate.Current := by
  refine h.induction (P := fun deck => deck.memory.rate.Current) (current_initMemory _ _) ?_
  intro deck next _ hmoved hcurrent
  cases hmoved with
  | ran hran =>
    obtain ⟨cpu, memory, hmemory, rfl⟩ := hran
    exact current_ran hmemory hcurrent
  | began hlt => exact current_initMemory _ _
  | paused | muted | volume => exact hcurrent
  | speed speed => exact TickRate.current_recompute _

/-- The limit leaves room for twice as many ticks as are worth a frame. -/
theorem enough_ticks {x y : Float32} (hx : Within (9 / 10) (2 ^ 33) x)
    (hy : Within 1 (2 ^ 21) y) :
    ∃ s, HasValue s (x / y) ∧ 2 ^ (-22 : ℤ) ≤ s ∧
      1 ≤ s + (2 * (y / x).toUInt64.toNat + 2 : Nat) * (3 / 4 * s) := by
  obtain ⟨v, hv, hvlow, hvhigh⟩ := hx
  obtain ⟨w, hw, hwlow, hwhigh⟩ := hy
  have hvpos := hv.pos
  have hwpos := hw.pos
  have hlow : 9 / 10 / 2 ^ 21 ≤ v / w := div_le_div₀ hvpos.le hvlow hwpos hwhigh
  have hhigh : v / w ≤ 2 ^ 33 / 1 := div_le_div₀ (by positivity) hvhigh one_pos hwlow
  have hlow' : 1 / 2 ^ 33 ≤ w / v := div_le_div₀ hwpos.le hwlow hvpos hvhigh
  have hhigh' : w / v ≤ 2 ^ 21 / (9 / 10) := div_le_div₀ (by positivity) hwhigh (by norm_num) hvlow
  have hnormal : 2 ^ (-126 : ℤ) ≤ v / w := le_trans (by norm_num) hlow
  have hnormal' : 2 ^ (-126 : ℤ) ≤ w / v := le_trans (by norm_num) hlow'
  obtain ⟨s, hs, hsv, -⟩ := (isRounded_div hv hw hnormal).near hnormal
    (hhigh.trans (by norm_num))
  obtain ⟨q, hq, hqw, hqw'⟩ := (isRounded_div hw hv hnormal').near hnormal'
    (hhigh'.trans (by norm_num))
  -- Two numbers that are rounded from each other's inverse multiply to nearly one.
  have hproduct : 2 / 3 ≤ q * s := by
    have hwv : 0 ≤ w / v * (1 - 1 / 2 ^ 23) := mul_nonneg (by positivity) (by norm_num)
    have hvw : 0 ≤ v / w * (1 - 1 / 2 ^ 23) := mul_nonneg (by positivity) (by norm_num)
    calc (2 : ℚ) / 3 ≤ (1 - 1 / 2 ^ 23) * (1 - 1 / 2 ^ 23) := by norm_num
      _ = w / v * (1 - 1 / 2 ^ 23) * (v / w * (1 - 1 / 2 ^ 23)) := by field_simp
      _ ≤ q * s := mul_le_mul hqw hsv hvw (hwv.trans hqw)
  have hticks : q ≤ (y / x).toUInt64.toNat + 1 := by
    rw [toNat_toUInt64 hq.nonneg, hq.value_eq]
    exact (lt_wholePart64_add_one (by linarith)).le
  have hspos := hs.pos
  have hadded : q * s ≤ ((y / x).toUInt64.toNat + 1) * s :=
    mul_le_mul_of_nonneg_right hticks hspos.le
  refine ⟨s, hs, ?_, ?_⟩
  · norm_num
    linarith
  · push_cast
    linarith

/-- The limit of a batch is never what ends it. -/
theorem Reached.batched {album : Album} {config : Config} {deck : Deck}
    (h : Reached album config deck) (hrate : config.sampleRate ≠ 0) :
    let rate := deck.memory.rate
    Batched (tickShare rate) (tickShare rate) deck
      (batch (tickShare rate) (batchLimit rate) (tickShare rate) deck) := by
  intro rate
  have hsampleRate : rate.sampleRate = config.sampleRate := h.settled.tickRate_eq
  obtain hnan | hhz := TickRate.within_hz h.current h.settled.speed_eq
  · have hshare : IsNan (tickShare rate) := hnan.div _
    exact batched_of_not (fun hgo => hshare.not_lt hgo.1) _
  · rw [← hsampleRate] at hrate
    obtain ⟨s, hs, hlow, henough⟩ := enough_ticks (Within.toFloat32_of_ne hrate) hhz
    exact batched_batch hs hlow _ hs henough deck

/-- How the next block is made, with no limit on the ticks of a batch. -/
inductive Advances (deck : Deck) : Nat × Deck → Prop where
  | long (h : deck.runFrame.2.framesPerTick ≠ 0) :
    Advances deck (deck.runFrame.2.framesPerTick, deck.runFrame.2)
  | short {last : Deck} (h : deck.runFrame.2.framesPerTick = 0)
    (hbatch : Batched (tickShare deck.runFrame.2.memory.rate)
      (tickShare deck.runFrame.2.memory.rate) deck.runFrame.2 last) :
    Advances deck (1, last)

theorem Advances.unique {deck : Deck} {a b : Nat × Deck} (ha : deck.Advances a)
    (hb : deck.Advances b) : a = b := by
  cases ha with
  | long h =>
    cases hb with
    | long => rfl
    | short h' => exact absurd h' h
  | short h hbatch =>
    cases hb with
    | long h' => exact absurd h h'
    | short _ hbatch' => rw [hbatch.unique hbatch']

/-- Every deck that is reached gets to its next block, and the limit makes no difference to it. -/
theorem Reached.advances_iff {album : Album} {config : Config} {deck : Deck}
    (h : Reached album config deck) (hrate : config.sampleRate ≠ 0) {result : Nat × Deck} :
    deck.Advances result ↔ result = deck.advance := by
  have hframe : Reached album config deck.runFrame.2 := h.afterAll [.frame]
  have hadvance : deck.Advances deck.advance := by
    by_cases hzero : deck.runFrame.2.framesPerTick = 0
    · rw [advance, if_pos hzero]
      exact .short hzero (hframe.batched hrate)
    · rw [advance, if_neg hzero]
      exact .long hzero
  constructor
  · intro hresult
    exact hresult.unique hadvance
  · rintro rfl
    exact hadvance

end Deck
end Chiptune
