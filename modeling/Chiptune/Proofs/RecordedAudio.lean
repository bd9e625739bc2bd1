import Chiptune.Proofs.Batching
import Chiptune.Proofs.OutputSettings
import Chiptune.Recording.Basic

/-!
# What a recording holds

A recording is asked for in seconds and made of blocks, whose lengths the driver
may change with every tick. It holds as many frames as the seconds are worth, no
more and no fewer: blocks are played until they cover the recording and what is
left of the last one is cut off. The frames do not depend on how many are asked
for, so a shorter recording is the beginning of a longer one.
-/
namespace Chiptune

open Sound (Frame)

/-! ### Seconds and frames -/

namespace Deck

/-- Seconds as they are counted: a negative time is none. -/
def clipped (seconds : Float32) : Float32 := if 0.0 < seconds then seconds else 0.0

theorem nonneg_clipped (seconds : Float32) : Nonneg (clipped seconds) := by
  unfold clipped
  split
  · rename_i h
    exact (nonneg_of_pos h).1
  · exact nonneg_zero

theorem value_clipped_mono {s t : Float32} (h : s ≤ t) :
    value (clipped s) ≤ value (clipped t) := by
  by_cases hs : 0.0 < s
  · obtain ⟨hnonneg, hpos⟩ := nonneg_of_pos hs
    have ht : Nonneg t := nonneg_of_le hnonneg hpos h
    have hle : value s ≤ value t := (le_iff_value_le hnonneg ht).mp h
    have htpos : 0.0 < t := by
      rw [lt_iff_value_lt nonneg_zero ht, value_zero]
      exact hpos.trans_le hle
    rw [clipped, clipped, if_pos hs, if_pos htpos]
    exact hle
  · rw [clipped, if_neg hs, value_zero]
    exact value_nonneg _

/-- More seconds take more frames. -/
theorem framesIn_mono {sampleRate : UInt32} (hrate : sampleRate ≠ 0) {s t : Float32}
    (h : s ≤ t) : framesIn sampleRate s ≤ framesIn sampleRate t := by
  obtain ⟨q, hq, hlow, -⟩ := Within.toFloat32_of_ne hrate
  have hnormal : 2 ^ (-126 : ℤ) ≤ q := le_trans (by norm_num) hlow
  have hs := nonneg_clipped s
  have ht := nonneg_clipped t
  show (clipped s * sampleRate.toFloat32).toUInt64.toNat ≤
    (clipped t * sampleRate.toFloat32).toUInt64.toNat
  rw [toNat_toUInt64 (value_mul_cases hs hq hnormal).1,
    toNat_toUInt64 (value_mul_cases ht hq hnormal).1]
  exact wholePart64_mono (value_mul_mono hs ht hq hnormal (value_clipped_mono h))

/-! ### Ticks in a row -/

/-- The deck after so many ticks. -/
def ticked : Nat → Deck → Deck
  | 0, deck => deck
  | n + 1, deck => ticked n deck.playTick.2

/-- The blocks of so many ticks, one after the other. -/
def played : Nat → Deck → Array Frame
  | 0, _ => #[]
  | n + 1, deck => deck.playTick.1.getD #[] ++ played n deck.playTick.2

theorem advance_pos (deck : Deck) : 0 < deck.advance.1 := by
  by_cases hzero : deck.runFrame.2.framesPerTick = 0
  · rw [advance, if_pos hzero]
    exact Nat.one_pos
  · rw [advance, if_neg hzero]
    exact Nat.pos_of_ne_zero hzero

theorem playTick_paused (deck : Deck) : deck.playTick.2.paused = deck.paused := by
  obtain ⟨cpu, memory, -, h⟩ := deck.ranTo_playTick
  rw [h]

theorem ticked_paused (n : Nat) (deck : Deck) : (ticked n deck).paused = deck.paused := by
  induction n generalizing deck with
  | zero => rfl
  | succ n ih => rw [ticked, ih, playTick_paused]

theorem afterAll_ticks (n : Nat) (deck : Deck) :
    deck.afterAll (List.replicate n .tick) = ticked n deck := by
  induction n generalizing deck with
  | zero => rfl
  | succ n ih =>
    rw [ticked, ← ih, ← after_tick]
    rfl

theorem played_add (n m : Nat) (deck : Deck) :
    played (n + m) deck = played n deck ++ played m (ticked n deck) := by
  induction n generalizing deck with
  | zero => rw [Nat.zero_add, played, ticked, Array.empty_append]
  | succ n ih => rw [Nat.add_right_comm, played, played, ticked, ih, Array.append_assoc]

theorem take_append_of_le {xs ys : Array Frame} {n : Nat} (h : n ≤ xs.size) :
    (xs ++ ys).take n = xs.take n := by
  rw [Array.take_eq_extract, Array.take_eq_extract, Array.extract_append, Nat.sub_eq_zero_of_le h]
  simp

/-- Frames that have been played do not depend on how many more are. -/
theorem take_played {n k m : Nat} {deck : Deck} (hk : n ≤ (played k deck).size)
    (hm : n ≤ (played m deck).size) : (played k deck).take n = (played m deck).take n := by
  rcases Nat.le_total k m with hle | hle
  · obtain ⟨j, rfl⟩ := Nat.exists_eq_add_of_le hle
    rw [played_add, take_append_of_le hk]
  · obtain ⟨j, rfl⟩ := Nat.exists_eq_add_of_le hle
    rw [played_add, take_append_of_le hm]

/-- Blocks are played until they cover the recording. -/
theorem recordMore_of_playing (missing : Nat) (recorded : Array Frame) {deck : Deck}
    (h : deck.paused = false) :
    ∃ count, missing ≤ (played count deck).size ∧
      (∀ k < count, (played k deck).size < missing) ∧
      recordMore missing recorded deck =
        .ok (recorded ++ (played count deck).take missing, ticked count deck) := by
  induction missing using Nat.strong_induction_on generalizing recorded deck with
  | _ missing ih =>
    rw [recordMore]
    by_cases hzero : missing = 0
    · refine ⟨0, by omega, by omega, ?_⟩
      rw [if_pos hzero, hzero]
      simp [played, ticked]
    have hpaused : deck.playTick.2.paused = false := deck.playTick_paused.trans h
    have hplay := deck.playTick_of_playing h
    have hsize : (deck.advance.2.render deck.advance.1).1.size = deck.advance.1 := render_size _ _
    have hpos := deck.advance_pos
    generalize (deck.advance.2.render deck.advance.1).1 = block at hplay hsize
    generalize (deck.advance.2.render deck.advance.1).2 = next at hplay
    have hblock : block.size ≠ 0 := by omega
    rw [hplay] at hpaused
    have hpaused : next.paused = false := hpaused
    rw [if_neg hzero, hplay]
    simp only [if_neg hblock]
    obtain ⟨count, hcover, hleast, hrecord⟩ :=
      ih (missing - block.size) (by omega) (recorded ++ block.take missing) hpaused
    have hplayed (n : Nat) : played (n + 1) deck = block ++ played n next := by
      rw [played, hplay]
      rfl
    refine ⟨count + 1, ?_, ?_, ?_⟩
    · rw [hplayed, Array.size_append]
      omega
    · intro k hk
      cases k with
      | zero => exact Nat.pos_of_ne_zero hzero
      | succ k =>
        have hk := hleast k (by omega)
        rw [hplayed, Array.size_append]
        omega
    · rw [hrecord, hplayed, ticked, hplay, Array.append_assoc]
      simp only [Array.take_eq_extract, Array.extract_append, Nat.zero_sub]

theorem record_of_playing (frames : Nat) {deck : Deck} (h : deck.paused = false) :
    ∃ count, frames ≤ (played count deck).size ∧ (∀ k < count, (played k deck).size < frames) ∧
      deck.record frames = .ok ((played count deck).take frames, ticked count deck) := by
  obtain ⟨count, hcover, hleast, hrecord⟩ := recordMore_of_playing frames #[] h
  rw [Array.empty_append] at hrecord
  exact ⟨count, hcover, hleast, hrecord⟩

theorem record_of_paused (frames : Nat) {deck : Deck} (h : deck.paused = true) :
    deck.record frames = .ok (#[], deck) := by
  rw [record, recordMore, playTick_of_paused h]
  simp

end Deck

/-! ### Bytes -/

namespace Wave

/-- The number that some bytes stand for, the lowest byte first. -/
def littleEndian : List UInt8 → Nat
  | [] => 0
  | byte :: rest => byte.toNat + 0x100 * littleEndian rest

theorem littleEndian_bytes32 {n : Nat} (h : n < 2 ^ 32) : littleEndian (bytes32 n) = n := by
  simp only [bytes32, bytes16, List.cons_append, List.nil_append, littleEndian, UInt8.toNat_ofNat']
  omega

theorem sampleBytes_spec (sample : Float32) :
    (sampleBytes sample).length = 4 ∧ littleEndian (sampleBytes sample) = sample.toBits.toNat :=
  ⟨rfl, littleEndian_bytes32 sample.toBits.toNat_lt⟩

theorem toList_foldl_push (values : List UInt8) (bytes : ByteArray) :
    (values.foldl ByteArray.push bytes).data.toList = bytes.data.toList ++ values := by
  induction values generalizing bytes with
  | nil => rw [List.foldl_nil, List.append_nil]
  | cons value rest ih =>
    rw [List.foldl_cons, ih, ByteArray.push, Array.toList_push, List.append_assoc]
    rfl

/-- The samples are stored in their order. -/
theorem toList_data (frames : Array Frame) :
    (data frames).data.toList = (Frame.interleave frames.toList).flatMap sampleBytes := by
  have hall (block : List Frame) (bytes : ByteArray) :
      (block.foldl (fun bytes frame => (frameBytes frame).foldl ByteArray.push bytes)
        bytes).data.toList =
        bytes.data.toList ++ (Frame.interleave block).flatMap sampleBytes := by
    induction block generalizing bytes with
    | nil => simp [Frame.interleave]
    | cons frame rest ih =>
      rw [List.foldl_cons, ih, toList_foldl_push, List.append_assoc]
      simp [Frame.interleave, frameBytes]
  rw [data, ← Array.foldl_toList, hall]
  rfl

/-- Everything in the head before the size of the samples. -/
theorem head_eq (sampleRate : UInt32) (frames : Nat) :
    ∃ front, front.length = 64 ∧
      head sampleRate frames = front ++ bytes32 (frames * frameSize) := by
  refine ⟨_, ?_, rfl⟩
  simp [ascii, bytes32, bytes16, format, floatFormat]

/-- The size that the head gives for the samples. -/
theorem stated_size (sampleRate : UInt32) {frames : Nat} (h : frames * frameSize < 2 ^ 32) :
    littleEndian ((head sampleRate frames).drop 64) = frames * frameSize := by
  obtain ⟨front, hlength, hhead⟩ := head_eq sampleRate frames
  rw [hhead, List.drop_left' hlength, littleEndian_bytes32 h]

end Wave

namespace Deck

/-! ### Recordings -/

/-- The first frames of what a deck plays, taken from as few ticks as they need. -/
structure Covers (deck : Deck) (wanted count : Nat) (recorded : Array Frame) : Prop where
  covered : wanted ≤ (played count deck).size
  least : ∀ k < count, (played k deck).size < wanted
  size_eq : recorded.size = wanted
  samples_eq : Frame.interleave recorded.toList =
    (Frame.interleave (played count deck).toList).take (2 * wanted)

theorem interleave_take (block : List Frame) (n : Nat) :
    Frame.interleave (block.take n) = (Frame.interleave block).take (2 * n) := by
  induction block generalizing n with
  | nil => simp [Frame.interleave]
  | cons frame rest ih =>
    cases n with
    | zero => rfl
    | succ n =>
      have hcons (tail : List Frame) : Frame.interleave (frame :: tail) =
          frame.left :: frame.right :: Frame.interleave tail := rfl
      rw [List.take_succ_cons, hcons, hcons, ih, Nat.mul_succ, List.take_succ_cons,
        List.take_succ_cons]

theorem covers_take {deck : Deck} {wanted count : Nat} (hcover : wanted ≤ (played count deck).size)
    (hleast : ∀ k < count, (played k deck).size < wanted) :
    Covers deck wanted count ((played count deck).take wanted) where
  covered := hcover
  least := hleast
  size_eq := by
    rw [Array.take_eq_extract, Array.size_extract]
    omega
  samples_eq := by
    rw [Array.take_eq_extract, Array.toList_extract]
    exact interleave_take _ _

/-- The data of a recording: what follows the head of its file. -/
def recordedData (deck : Deck) (seconds : Float32) : List UInt8 :=
  match deck.record (framesIn deck.config.sampleRate seconds) with
  | .ok (recorded, _) => (Wave.data recorded).data.toList
  | .error _ => []

/-- A shorter recording is the beginning of a longer one. -/
theorem recordedData_prefix {deck : Deck} (hrate : deck.config.sampleRate ≠ 0)
    {shorter seconds : Float32} (h : shorter ≤ seconds) :
    deck.recordedData shorter <+: deck.recordedData seconds := by
  cases hpaused : deck.paused with
  | true =>
    rw [recordedData, recordedData, record_of_paused _ hpaused, record_of_paused _ hpaused]
  | false =>
    have hle := framesIn_mono hrate h
    obtain ⟨few, hfew, -, hshort⟩ :=
      record_of_playing (framesIn deck.config.sampleRate shorter) hpaused
    obtain ⟨many, hmany, -, hlong⟩ :=
      record_of_playing (framesIn deck.config.sampleRate seconds) hpaused
    rw [recordedData, recordedData, hshort, hlong, take_played hfew (hle.trans hmany)]
    simp only [Wave.toList_data, Array.take_eq_extract, Array.toList_extract]
    exact ((List.take_prefix_take_left hle).flatMap _).flatMap _

theorem length_flatMap_sampleBytes (samples : List Float32) :
    (samples.flatMap Wave.sampleBytes).length = 4 * samples.length := by
  rw [List.length_flatMap]
  simp [Wave.sampleBytes, Wave.bytes32, Wave.bytes16, Nat.mul_comm]

/-- What a recording leaves in its file. -/
theorem encode_of_record {deck next : Deck} {recorded : Array Frame} {seconds : Float32}
    (hrate : deck.config.sampleRate ≠ 0)
    (h : deck.record (framesIn deck.config.sampleRate seconds) = .ok (recorded, next)) :
    deck.recordedData seconds = (Frame.interleave recorded.toList).flatMap Wave.sampleBytes ∧
      ∃ file, Wave.encode? deck.config.sampleRate recorded = some file ∧
        file.data.toList =
          Wave.head deck.config.sampleRate recorded.size ++ deck.recordedData seconds := by
  have hdata : deck.recordedData seconds = (Wave.data recorded).data.toList := by
    rw [recordedData, h]
  refine ⟨hdata.trans (Wave.toList_data recorded), _, if_neg hrate, ?_⟩
  rw [hdata, ByteArray.data_append, Array.toList_append, List.toList_data_toByteArray]

/-- A recording holds exactly the audio that is asked for. Every tick of a playing deck gives a
block, however the driver sets the timer, and no batch of ticks is cut off. The blocks are played
until they cover the recording, which holds their first frames; a paused deck records nothing. Each
sample takes four bytes, the lowest one first. A shorter recording is the beginning of a longer
one. -/
theorem Reached.records_requested_audio {album : Album} {config : Config} {deck : Deck}
    (h : Reached album config deck) (hrate : 1 ≤ config.sampleRate) (seconds : Float32) :
    let wanted := (clipped seconds * config.sampleRate.toFloat32).toUInt64.toNat
    (deck.paused = false → ∀ n, ∃ frames next,
      (∀ result, (ticked n deck).Advances result ↔ result = (frames, next)) ∧
        (ticked n deck).playTick = (some (next.render frames).1, (next.render frames).2) ∧
        0 < frames ∧ (Frame.interleave (next.render frames).1.toList).length = 2 * frames) ∧
      (∃ recorded next file,
        deck.record wanted = .ok (recorded, next) ∧
          (deck.paused = true → recorded = #[] ∧ next = deck) ∧
          (deck.paused = false →
            ∃ count, Covers deck wanted count recorded ∧ next = ticked count deck) ∧
          Wave.encode? config.sampleRate recorded = some file ∧
          file.data.toList =
            Wave.head config.sampleRate recorded.size ++ deck.recordedData seconds ∧
          deck.recordedData seconds =
            (Frame.interleave recorded.toList).flatMap Wave.sampleBytes ∧
          (∀ sample, (Wave.sampleBytes sample).length = 4 ∧
            Wave.littleEndian (Wave.sampleBytes sample) = sample.toBits.toNat) ∧
          (recorded.size * 8 < 2 ^ 32 →
            Wave.littleEndian ((Wave.head config.sampleRate recorded.size).drop 64) =
              (deck.recordedData seconds).length)) ∧
      ∀ shorter, shorter ≤ seconds → deck.recordedData shorter <+: deck.recordedData seconds := by
  have hne : config.sampleRate ≠ 0 := by
    rintro hzero
    rw [hzero] at hrate
    exact absurd hrate (by decide)
  obtain rfl : deck.config = config := h.plays.config_eq
  intro wanted
  refine ⟨?_, ?_, fun shorter hle => recordedData_prefix hne hle⟩
  · intro hplaying n
    have hreached : Reached album deck.config (ticked n deck) := by
      rw [← afterAll_ticks]
      exact h.afterAll _
    have hpaused : (ticked n deck).paused = false := (ticked_paused n deck).trans hplaying
    refine ⟨_, _, fun _ => hreached.advances_iff hne, playTick_of_playing hpaused,
      advance_pos _, ?_⟩
    rw [Frame.length_interleave, Array.length_toList, render_size]
  · have hrecorded : ∃ recorded next, deck.record wanted = .ok (recorded, next) ∧
        (deck.paused = true → recorded = #[] ∧ next = deck) ∧
        (deck.paused = false →
          ∃ count, Covers deck wanted count recorded ∧ next = ticked count deck) := by
      cases hpaused : deck.paused with
      | true => exact ⟨_, _, record_of_paused wanted hpaused, fun _ => ⟨rfl, rfl⟩, by simp⟩
      | false =>
        obtain ⟨count, hcover, hleast, hrecord⟩ := record_of_playing wanted hpaused
        exact ⟨_, _, hrecord, by simp, fun _ => ⟨count, covers_take hcover hleast, rfl⟩⟩
    obtain ⟨recorded, next, hrecord, hsilent, hcovers⟩ := hrecorded
    obtain ⟨hdata, file, hfile, hbytes⟩ := encode_of_record hne hrecord
    refine ⟨recorded, next, file, hrecord, hsilent, hcovers, hfile, hbytes, hdata,
      Wave.sampleBytes_spec, ?_⟩
    intro hfits
    rw [Wave.stated_size _ hfits, hdata, length_flatMap_sampleBytes, Frame.length_interleave,
      Array.length_toList, Wave.frameSize]
    omega

/-- A deck whose driver has set a timer that ticks five times in a frame. -/
theorem records_requested_audio_pairedDeck :
    let deck := pairedDeck.afterAll [.poke 0xFF06 0xFF, .poke 0xFF07 0x05]
    Reached pairedAlbum {} deck ∧ deck.paused = false ∧ deck.framesPerTick = 0 ∧
      framesIn 48000 0.25 = 12000 ∧
      (∃ recorded count, deck.record 12000 = .ok (recorded, ticked count deck) ∧
        recorded.size = 12000) ∧
      deck.recordedData 0.125 <+: deck.recordedData 0.25 := by
  intro deck
  have hreached : Reached pairedAlbum {} deck := ⟨pairedDeck, _, rfl, rfl⟩
  have hplaying : deck.paused = false := by decide +kernel
  have hwanted : framesIn 48000 0.25 = 12000 := by decide +kernel
  obtain ⟨-, ⟨recorded, next, file, hrecord, -, hcovers, -⟩, hprefix⟩ :=
    Reached.records_requested_audio hreached (by decide) 0.25
  obtain ⟨count, hcover, rfl⟩ := hcovers hplaying
  rw [← hwanted]
  exact ⟨hreached, hplaying, by decide +kernel, rfl,
    ⟨recorded, count, hrecord, hcover.size_eq⟩, hprefix 0.125 (by decide +kernel)⟩

end Deck
end Chiptune
