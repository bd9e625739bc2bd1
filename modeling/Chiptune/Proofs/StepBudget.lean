import Chiptune.Proofs.Feedback

/-!
# Frames that the step budget cuts

A frame that takes more instructions than the budget allows is cut, and the next
frame goes on where it stopped. The measure of both is the routine run without
any budget: `ReturnsAfter` counts the instructions until the stack pointer is at
rest for the first time, whichever instruction brings it there. A frame then does
one of two things. It completes, when what is left of the routine fits into the
budget, or it runs as many instructions as the budget has and leaves the deck at
that, so that cut frames line up with the instructions of one long frame.
-/
namespace Chiptune.Deck

/-- The deck after so many instructions. -/
def stepped (count : Nat) (deck : Deck) : Deck := (fun deck => deck.step.2)^[count] deck

/-- The deck after so many frames, those that are cut among them. -/
def framed (count : Nat) (deck : Deck) : Deck := (fun deck => deck.runFrame.2)^[count] deck

/-- No routine runs: the stack pointer is where the album rests it. -/
def AtRest (deck : Deck) : Prop := deck.cpu.registers.sp = deck.restingSP

instance (deck : Deck) : Decidable deck.AtRest := inferInstanceAs (Decidable (_ = _))

/-- The routine returns after so many instructions: it is the least number after which the stack
pointer is at rest. -/
def ReturnsAfter (deck : Deck) (count : Nat) : Prop := IsLeast {n | (stepped n deck).AtRest} count

/-- The deck about to call its play routine. -/
def rearmed (deck : Deck) : Deck := { deck with cpu := armed deck.album.header deck.cpu }

def withBudget (deck : Deck) (budget : Nat) : Deck :=
  { deck with config := { deck.config with stepBudget := budget } }

/-! ### Instructions one after another -/

theorem stepped_add (first count : Nat) (deck : Deck) :
    stepped (first + count) deck = stepped count (stepped first deck) := by
  rw [Nat.add_comm]
  exact Function.iterate_add_apply _ count first deck

/-- Only the processor and the memory change from one instruction to the next. -/
theorem stepped_eq (count : Nat) (deck : Deck) :
    stepped count deck =
      { deck with cpu := (stepped count deck).cpu, memory := (stepped count deck).memory } := by
  induction count generalizing deck with
  | zero => rfl
  | succ count ih => exact ih deck.step.2

theorem stepped_album (count : Nat) (deck : Deck) : (stepped count deck).album = deck.album := by
  rw [stepped_eq]

theorem stepped_config (count : Nat) (deck : Deck) : (stepped count deck).config = deck.config := by
  rw [stepped_eq]

/-- The budget is nothing that an instruction can tell. -/
theorem stepped_withBudget (budget count : Nat) (deck : Deck) :
    stepped count (deck.withBudget budget) = (stepped count deck).withBudget budget := by
  induction count generalizing deck with
  | zero => rfl
  | succ count ih => exact ih deck.step.2

theorem framed_succ (count : Nat) (deck : Deck) :
    framed (count + 1) deck = (framed count deck).runFrame.2 :=
  Function.iterate_succ_apply' _ count deck

/-! ### When the routine returns -/

theorem returnsAfter_of {deck : Deck} {count : Nat} (hrest : (stepped count deck).AtRest)
    (hrunning : ∀ k < count, ¬ (stepped k deck).AtRest) : deck.ReturnsAfter count :=
  ⟨hrest, fun k hk => Nat.not_lt.mp fun hlt => hrunning k hlt hk⟩

theorem ReturnsAfter.running {deck : Deck} {count k : Nat} (h : deck.ReturnsAfter count)
    (hk : k < count) : ¬ (stepped k deck).AtRest :=
  fun hrest => hk.not_ge (h.2 hrest)

/-- After some of its instructions, the routine has that many fewer to go. -/
theorem ReturnsAfter.stepped {deck : Deck} {done count : Nat}
    (h : deck.ReturnsAfter (done + count)) : (stepped done deck).ReturnsAfter count := by
  constructor
  · have hrest : (Deck.stepped (done + count) deck).AtRest := h.1
    rwa [stepped_add] at hrest
  · intro k hk
    have hrest : (Deck.stepped (done + k) deck).AtRest := by
      rw [stepped_add]
      exact hk
    exact Nat.le_of_add_le_add_left (h.2 hrest)

theorem returnsAfter_withBudget {deck : Deck} {count : Nat} (h : deck.ReturnsAfter count)
    (budget : Nat) : (deck.withBudget budget).ReturnsAfter count := by
  have hrest : ∀ n, (stepped n (deck.withBudget budget)).AtRest ↔ (stepped n deck).AtRest := by
    intro n
    rw [stepped_withBudget]
    rfl
  simpa only [ReturnsAfter, hrest] using h

/-- A stack pointer that is at rest some time is at rest a first time. -/
theorem running_of_never_returns {deck : Deck} (h : ¬ ∃ count, deck.ReturnsAfter count) (k : Nat) :
    ¬ (stepped k deck).AtRest := by
  classical
  intro hrest
  have hsome : ∃ n, (stepped n deck).AtRest := ⟨k, hrest⟩
  exact h ⟨Nat.find hsome, Nat.find_spec hsome, fun _ => Nat.find_min' hsome⟩

/-! ### One frame -/

theorem runRoutine_of_returnsAfter {deck : Deck} {count budget : Nat}
    (h : deck.ReturnsAfter count) (hbudget : count ≤ budget) (steps : Nat) :
    runRoutine deck.restingSP budget steps deck.cpu deck.memory =
      ⟨(stepped count deck).cpu, (stepped count deck).memory, .completed (steps + count)⟩ := by
  induction count generalizing deck budget steps with
  | zero =>
    have hrest : deck.cpu.registers.sp = deck.restingSP := h.1
    cases budget with
    | zero => rw [runRoutine, if_pos hrest]; rfl
    | succ budget => rw [runRoutine, if_pos hrest]; rfl
  | succ count ih =>
    obtain ⟨budget, rfl⟩ :=
      Nat.exists_eq_add_of_le' (Nat.le_trans (Nat.le_add_left 1 count) hbudget)
    have hrunning : ¬ deck.cpu.registers.sp = deck.restingSP := h.running (Nat.succ_pos count)
    have hlater : deck.step.2.ReturnsAfter count := by
      rw [Nat.add_comm] at h
      exact h.stepped
    rw [runRoutine, if_neg hrunning]
    have hrun := ih hlater (Nat.le_of_succ_le_succ hbudget) (steps + 1)
    rw [Nat.add_right_comm] at hrun
    exact hrun

theorem runRoutine_of_running {deck : Deck} {budget : Nat}
    (h : ∀ k ≤ budget, ¬ (stepped k deck).AtRest) (steps : Nat) :
    runRoutine deck.restingSP budget steps deck.cpu deck.memory =
      ⟨(stepped budget deck).cpu, (stepped budget deck).memory, .incomplete⟩ := by
  induction budget generalizing deck steps with
  | zero =>
    have hrunning : ¬ deck.cpu.registers.sp = deck.restingSP := h 0 le_rfl
    rw [runRoutine, if_neg hrunning]
    rfl
  | succ budget ih =>
    have hrunning : ¬ deck.cpu.registers.sp = deck.restingSP := h 0 (Nat.zero_le _)
    rw [runRoutine, if_neg hrunning]
    exact ih (fun k hk => h (k + 1) (Nat.succ_le_succ hk)) (steps + 1)

/-- A routine that returns within the budget is run to its end. -/
theorem runFrame_of_returnsAfter {deck : Deck} {count : Nat} (h : deck.ReturnsAfter count)
    (hbudget : count ≤ deck.config.stepBudget) :
    deck.runFrame = (.completed count, (stepped count deck).rearmed) := by
  have hrun := runRoutine_of_returnsAfter h hbudget 0
  rw [Nat.zero_add] at hrun
  rw [stepped_eq]
  simp only [restingSP] at hrun
  simp only [runFrame, hrun, rearmed]

/-- A routine that does not return within the budget is left where the budget ends. -/
theorem runFrame_of_running {deck : Deck}
    (h : ∀ k ≤ deck.config.stepBudget, ¬ (stepped k deck).AtRest) :
    deck.runFrame = (.incomplete, stepped deck.config.stepBudget deck) := by
  have hrun := runRoutine_of_running h 0
  rw [stepped_eq]
  simp only [restingSP] at hrun
  simp only [runFrame, hrun]

/-! ### Frames one after another -/

/-- While no frame gets to the end of the routine, every frame runs as many instructions as the
budget has. -/
theorem framed_of_running {deck : Deck} (frames : Nat)
    (h : ∀ j < frames, ∀ k ≤ (j + 1) * deck.config.stepBudget, ¬ (stepped k deck).AtRest) :
    framed frames deck = stepped (frames * deck.config.stepBudget) deck ∧
      ∀ k < frames, (framed k deck).runFrame =
        (.incomplete, stepped deck.config.stepBudget (framed k deck)) := by
  induction frames with
  | zero => exact ⟨by rw [Nat.zero_mul]; rfl, by simp⟩
  | succ frames ih =>
    obtain ⟨hframed, hcut⟩ := ih fun j hj => h j (Nat.lt_succ_of_lt hj)
    have hconfig : (framed frames deck).config = deck.config := by rw [hframed, stepped_config]
    have hlast : (framed frames deck).runFrame =
        (.incomplete, stepped deck.config.stepBudget (framed frames deck)) := by
      rw [← hconfig]
      apply runFrame_of_running
      intro k hk
      rw [hconfig] at hk
      rw [hframed, ← stepped_add]
      apply h frames (Nat.lt_succ_self frames)
      rw [Nat.succ_mul]
      exact Nat.add_le_add_left hk _
    refine ⟨by rw [framed_succ, hlast, hframed, ← stepped_add, Nat.succ_mul], fun k hk => ?_⟩
    rcases Nat.lt_succ_iff_lt_or_eq.mp hk with hlt | rfl
    · exact hcut k hlt
    · exact hlast

section

variable {count budget : Nat}

/-- A frame that is cut ends short of the return. -/
theorem mul_lt_of_lt_cuts (hbudget : 0 < budget) {j : Nat} (hj : j < count ⌈/⌉ budget - 1) :
    (j + 1) * budget < count := by
  have hlt : ¬ count ⌈/⌉ budget ≤ j + 1 := by omega
  rwa [ceilDiv_le_iff_le_mul hbudget, not_le, Nat.mul_comm] at hlt

theorem cuts_mul_le (hbudget : 0 < budget) : (count ⌈/⌉ budget - 1) * budget ≤ count := by
  rcases Nat.eq_zero_or_pos (count ⌈/⌉ budget - 1) with hzero | hpos
  · rw [hzero, Nat.zero_mul]
    exact Nat.zero_le count
  · have hlt := mul_lt_of_lt_cuts hbudget (Nat.sub_one_lt hpos.ne')
    rw [Nat.sub_add_cancel hpos] at hlt
    exact hlt.le

/-- What the cut frames leave of the routine fits into one more. -/
theorem le_cuts_mul_add (hbudget : 0 < budget) :
    count ≤ (count ⌈/⌉ budget - 1) * budget + budget := by
  rw [← Nat.succ_mul, Nat.mul_comm]
  apply (ceilDiv_le_iff_le_mul hbudget).mp
  omega

end

/-- Cutting a routine by the budget changes nothing of it. Let it return after `count` instructions,
if it ever does. Then the frames that end short of that are cut, each after as many instructions as
the budget has, and the next one completes with those that are left. The deck is then as after one
frame with any budget that is large enough, about to call its play routine. A routine that never
returns is cut in every frame, and the play routine is never called. -/
theorem step_budget_transparent (deck : Deck) (hbudget : 0 < deck.config.stepBudget) :
    let budget := deck.config.stepBudget
    (∀ count, deck.ReturnsAfter count →
      let cuts := count ⌈/⌉ budget - 1
      let last := (stepped count deck).rearmed
      (∀ k < cuts, (framed k deck).runFrame = (.incomplete, stepped budget (framed k deck))) ∧
        (framed cuts deck).runFrame = (.completed (count - cuts * budget), last) ∧
        (∀ wide, count ≤ wide →
          (deck.withBudget wide).runFrame = (.completed count, last.withBudget wide)) ∧
        last.cpu.registers.pc = deck.album.header.playAddress ∧
        last.cpu.registers.sp = deck.restingSP - 2) ∧
    ((¬ ∃ count, deck.ReturnsAfter count) →
      ∀ k, (framed k deck).runFrame = (.incomplete, stepped budget (framed k deck)) ∧
        framed k deck = stepped (k * budget) deck) := by
  intro budget
  refine ⟨fun count h => ?_, fun h k => ?_⟩
  · intro cuts last
    have hle : cuts * budget ≤ count := cuts_mul_le hbudget
    obtain ⟨hframed, hcut⟩ := framed_of_running cuts fun j hj k hk =>
      h.running (hk.trans_lt (mul_lt_of_lt_cuts hbudget hj))
    have hleft : (framed cuts deck).ReturnsAfter (count - cuts * budget) := by
      rw [hframed]
      apply ReturnsAfter.stepped
      rwa [Nat.add_sub_cancel' hle]
    have halbum : (stepped count deck).album = deck.album := stepped_album count deck
    refine ⟨hcut, ?_, fun wide hwide => ?_, ?_, ?_⟩
    · have hfits : count - cuts * budget ≤ (framed cuts deck).config.stepBudget := by
        rw [hframed, stepped_config]
        exact Nat.sub_le_iff_le_add'.mpr (le_cuts_mul_add hbudget)
      rw [runFrame_of_returnsAfter hleft hfits, hframed, ← stepped_add, Nat.add_sub_cancel' hle]
    · rw [runFrame_of_returnsAfter (returnsAfter_withBudget h wide) hwide, stepped_withBudget]
      rfl
    · exact congrArg (fun album : Album => album.header.playAddress) halbum
    · exact congrArg (fun album : Album => album.header.stackPointer - 2) halbum
  · have hrunning := running_of_never_returns h
    obtain ⟨-, hcut⟩ := framed_of_running (k + 1) fun _ _ k _ => hrunning k
    exact ⟨hcut k (Nat.lt_succ_self k), (framed_of_running k fun _ _ k _ => hrunning k).1⟩

/-- A deck whose routine is four instructions in the wave table, with a budget of two. -/
def cutDeck : Deck :=
  (waveDeck { stepBudget := 2 }).afterAll [.poke 0xFF32 0x00, .poke 0xFF33 0xC9]

/-- The routine is cut once, and its return is the last instruction that the second frame may
run. -/
theorem step_budget_transparent_cutDeck :
    0 < cutDeck.config.stepBudget ∧ cutDeck.ReturnsAfter 4 ∧
      (framed 0 cutDeck).runFrame = (.incomplete, stepped 2 (framed 0 cutDeck)) ∧
      (framed 1 cutDeck).runFrame = (.completed 2, (stepped 4 cutDeck).rearmed) ∧
      (cutDeck.withBudget 9).runFrame =
        (.completed 4, (stepped 4 cutDeck).rearmed.withBudget 9) := by
  have hsize : cutDeck.config.stepBudget = 2 := by decide +kernel
  have hrest : (stepped 4 cutDeck).AtRest := by decide +kernel
  have hrunning : ∀ k < 4, ¬ (stepped k cutDeck).AtRest := by decide +kernel
  have hreturns : cutDeck.ReturnsAfter 4 := returnsAfter_of hrest hrunning
  have hbudget : 0 < cutDeck.config.stepBudget := hsize ▸ Nat.two_pos
  obtain ⟨hcut, hlast, hwide, -⟩ := (step_budget_transparent cutDeck hbudget).1 4 hreturns
  have hcuts : 4 ⌈/⌉ 2 - 1 = 1 := rfl
  simp only [hsize, hcuts] at hcut hlast
  exact ⟨hbudget, hreturns, hcut 0 Nat.one_pos, hlast, hwide 9 (by decide)⟩

end Chiptune.Deck
