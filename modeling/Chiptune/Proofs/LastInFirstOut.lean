import Chiptune.Proofs.FlagRegister

/-!
# The stack in memory

A stack is a pointer into memory that moves down by a word for each word on it.
Nothing marks its cells as taken, so that it holds what was pushed is a matter of
where they lie and of who else writes there: in plain memory a cell keeps what it
holds until it is written again. `Stack.Holds` reads the words off from the top
down, and a push adds one to them as long as the stack does not run around all
addresses into itself.

Pushes, calls and restarts are pushes of a stack, and pops and returns take its
top off. So a return goes back to where the routine was called from, whatever the
routine did, if the stack pointer is where it was and nothing was written to the
two cells in between.
-/
namespace Chiptune

open Memory (IsPlain)

/-! ### Stacks -/

structure Stack where
  pointer : UInt16
  memory : Memory

namespace Stack

def push (stack : Stack) (word : UInt16) : Stack :=
  ⟨stack.pointer - 2, stack.memory.writeWord (stack.pointer - 2) word⟩

def top (stack : Stack) : UInt16 := stack.memory.readWord stack.pointer

/-- The stack without its top. The memory stays as it is. -/
def drop (stack : Stack) : Stack := { stack with pointer := stack.pointer + 2 }

def pushAll (stack : Stack) (words : List UInt16) : Stack := words.foldl push stack

/-- Takes so many words off. -/
def pop : ℕ → Stack → List UInt16 × Stack
  | 0, stack => ([], stack)
  | count + 1, stack =>
    let rest := pop count stack.drop
    (stack.top :: rest.1, rest.2)

/-- The cells below the pointer, counted downwards. Addresses wrap. -/
def below (pointer : UInt16) (i : ℕ) : UInt16 := pointer - 1 - UInt16.ofNat i

/-- So many words can be pushed: the cells for them are plain memory. -/
def HasRoom (stack : Stack) (words : ℕ) : Prop := ∀ i < 2 * words, IsPlain (below stack.pointer i)

instance (stack : Stack) (words : ℕ) : Decidable (stack.HasRoom words) :=
  inferInstanceAs (Decidable (∀ i < 2 * words, _))

/-- These words are on the stack, from the top down. -/
def Holds (stack : Stack) : List UInt16 → Prop
  | [] => True
  | word :: rest => stack.top = word ∧ stack.drop.Holds rest

end Stack

/-! ### Memory around a stack -/

namespace Memory

variable (memory : Memory) {address probe : UInt16}

/-- Plain memory keeps what it holds until it is written again. -/
theorem read_write_elsewhere (h : IsPlain probe) (hne : address ≠ probe) (value : UInt8) :
    (memory.write address value).read probe = memory.read probe := by
  cases hregion : Region.ofAddress address with
  | rom => simp only [write, hregion]
  | bankSelect =>
    have hwindow : ¬ (0x4000 ≤ probe ∧ probe < 0x8000) :=
      fun hwindow => absurd h.1 (UInt16.not_le.mpr hwindow.2)
    simp only [write, hregion]
    by_cases hmaps : memory.rom.Maps value.toNat
    · rw [memory.read_selectBank hmaps, if_neg hwindow]
    · rw [memory.selectBank_of_not_maps hmaps]
  | timer => rw [memory.read_write_timer value hregion, if_neg hne.symm]
  | sound =>
    have hplain : Region.ofAddress probe ≠ .sound := by simp [isPlain_iff.mp h]
    rw [memory.read_write_sound value hregion, if_neg hplain]
  | plain => rw [memory.read_write_plain value hregion, if_neg hne.symm]

theorem read_writeEach_elsewhere (h : IsPlain probe) {writes : List (UInt16 × UInt8)}
    (hne : ∀ write ∈ writes, write.1 ≠ probe) :
    (memory.writeEach writes).read probe = memory.read probe := by
  induction writes generalizing memory with
  | nil => rfl
  | cons write rest ih =>
    obtain ⟨hwrite, hrest⟩ := List.forall_mem_cons.mp hne
    exact (ih _ hrest).trans (memory.read_write_elsewhere h hwrite write.2)

/-- A word of plain memory changes only its two cells. -/
theorem read_writeWord_of_ne (hlow : IsPlain address) (hhigh : IsPlain (address + 1))
    (hneLow : probe ≠ address) (hneHigh : probe ≠ address + 1) (word : UInt16) :
    (memory.writeWord address word).read probe = memory.read probe := by
  rw [isPlain_iff] at hlow hhigh
  rw [writeWord, read_write_plain _ _ hhigh, if_neg hneHigh, read_write_plain _ _ hlow,
    if_neg hneLow]

/-- A word at the end of memory changes no address before it. -/
theorem read_writeWord_end {address : UInt16} (h : address < 0xFFFE) (word : UInt16) :
    (memory.writeWord 0xFFFE word).read address = memory.read address := by
  refine memory.read_writeWord_of_ne (by decide) (by decide) ?_ ?_ word
  all_goals
    rintro rfl
    exact absurd h (by decide)

end Memory

namespace Stack

variable {stack : Stack} {words held : List UInt16}

/-! ### Cells -/

theorem below_sub_two (pointer : UInt16) (i : ℕ) :
    below (pointer - 2) i = below pointer (i + 2) := by
  simp only [below, UInt16.ofNat_add]
  grind

theorem below_zero (pointer : UInt16) : below pointer 0 = pointer - 2 + 1 := by
  simp only [below]
  grind

theorem below_one (pointer : UInt16) : below pointer 1 = pointer - 2 := by
  simp only [below]
  grind

theorem HasRoom.plain {count : ℕ} (h : stack.HasRoom (count + 1)) :
    IsPlain (stack.pointer - 2) ∧ IsPlain (stack.pointer - 2 + 1) := by
  rw [← below_zero, ← below_one]
  exact ⟨h 1 (by omega), h 0 (by omega)⟩

theorem HasRoom.push {count : ℕ} (h : stack.HasRoom (count + 1)) (word : UInt16) :
    (stack.push word).HasRoom count := by
  intro i hi
  show IsPlain (below (stack.pointer - 2) i)
  rw [below_sub_two]
  exact h (i + 2) (by omega)

/-- A stack does not run into itself: before it would, it meets address zero, which is ROM. -/
theorem HasRoom.lt {count : ℕ} (h : stack.HasRoom count) : 2 * count < 65536 := by
  by_contra hlt
  have hfirst := (stack.pointer - 1).toNat_lt
  have hzero : below stack.pointer (stack.pointer - 1).toNat = 0 := by
    rw [below, UInt16.ofNat_toNat, UInt16.sub_self]
  have hplain := h (stack.pointer - 1).toNat (by omega)
  rw [hzero] at hplain
  exact absurd hplain (by decide)

/-! ### What a stack holds -/

/-- What is on a stack is told by the cells from its pointer up. -/
theorem Holds.congr {pointer : UInt16} {memory other : Memory}
    (hread : ∀ i < 2 * words.length,
      other.read (pointer + UInt16.ofNat i) = memory.read (pointer + UInt16.ofNat i))
    (h : Holds ⟨pointer, memory⟩ words) : Holds ⟨pointer, other⟩ words := by
  induction words generalizing pointer with
  | nil => trivial
  | cons word rest ih =>
    rw [List.length_cons] at hread
    obtain ⟨htop, hrest⟩ := h
    have hlow : other.read pointer = memory.read pointer := by simpa using hread 0 (by omega)
    have hhigh : other.read (pointer + 1) = memory.read (pointer + 1) := hread 1 (by omega)
    refine ⟨?top, ih (fun i hi => ?read) hrest⟩
    case top =>
      rw [← htop]
      exact congrArg₂ Word.ofBytes hhigh hlow
    case read =>
      have hread := hread (i + 2) (by omega)
      have haddress : pointer + UInt16.ofNat (i + 2) = pointer + 2 + UInt16.ofNat i := by
        rw [UInt16.ofNat_add]
        grind
      rwa [haddress] at hread

/-- A push adds a word on top, and leaves the others where they are. -/
theorem Holds.push (h : stack.Holds held) (hroom : stack.HasRoom 1)
    (hfit : 2 * (held.length + 1) ≤ 65536) (word : UInt16) :
    (stack.push word).Holds (word :: held) := by
  obtain ⟨hlow, hhigh⟩ := hroom.plain
  have hback : stack.pointer - 2 + 2 = stack.pointer := UInt16.sub_add_cancel _ _
  refine ⟨stack.memory.readWord_writeWord hlow hhigh word, ?_⟩
  have hsame : (stack.push word).drop = ⟨stack.pointer, (stack.push word).memory⟩ := by
    rw [drop, Stack.push, hback]
  rw [hsame]
  refine Holds.congr (fun i hi => ?_) h
  -- The cells of the other words lie above the new ones, and end before addresses come round.
  refine stack.memory.read_writeWord_of_ne hlow hhigh ?low ?high word
  case low | high =>
    rw [ne_eq, ← UInt16.toNat_inj]
    simp only [UInt16.toNat_add, UInt16.toNat_sub, UInt16.toNat_ofNat', UInt16.reduceToNat]
    omega

theorem Holds.pushAll (h : stack.Holds held) (hroom : stack.HasRoom words.length)
    (hfit : 2 * (held.length + words.length) ≤ 65536) :
    (stack.pushAll words).Holds (words.reverse ++ held) := by
  induction words generalizing stack held with
  | nil => exact h
  | cons word rest ih =>
    rw [List.length_cons] at hroom hfit
    have hfirst : stack.HasRoom 1 := fun i hi => hroom i (by omega)
    have hpushed := h.push hfirst (by omega) word
    have hrest := ih hpushed (hroom.push word) (by rw [List.length_cons]; omega)
    rwa [List.reverse_cons, List.append_assoc]

theorem pointer_pushAll (stack : Stack) (words : List UInt16) :
    (stack.pushAll words).pointer = stack.pointer - UInt16.ofNat (2 * words.length) := by
  induction words generalizing stack with
  | nil => exact (UInt16.sub_zero _).symm
  | cons word rest ih =>
    have hrest : ((stack.push word).pushAll rest).pointer = _ := ih (stack.push word)
    rw [List.length_cons, Nat.mul_add_one, UInt16.ofNat_add]
    exact hrest.trans (by rw [Stack.push]; grind)

/-- Pushing leaves the memory alone but for the cells that it takes. -/
theorem read_pushAll (hroom : stack.HasRoom words.length) {address : UInt16}
    (hne : ∀ i < 2 * words.length, address ≠ below stack.pointer i) :
    (stack.pushAll words).memory.read address = stack.memory.read address := by
  induction words generalizing stack with
  | nil => rfl
  | cons word rest ih =>
    rw [List.length_cons] at hroom hne
    obtain ⟨hlow, hhigh⟩ := hroom.plain
    have hrest : ∀ i < 2 * rest.length, address ≠ below (stack.push word).pointer i := by
      intro i hi
      show address ≠ below (stack.pointer - 2) i
      rw [below_sub_two]
      exact hne (i + 2) (by omega)
    have hneLow := hne 1 (by omega)
    have hneHigh := hne 0 (by omega)
    rw [below_one] at hneLow
    rw [below_zero] at hneHigh
    exact (ih (hroom.push word) hrest).trans
      (stack.memory.read_writeWord_of_ne hlow hhigh hneLow hneHigh word)

/-- Taking words off moves the pointer only. -/
theorem pop_snd (count : ℕ) (stack : Stack) :
    (stack.pop count).2 = { stack with pointer := stack.pointer + UInt16.ofNat (2 * count) } := by
  induction count generalizing stack with
  | zero =>
    show stack = ⟨stack.pointer + 0, stack.memory⟩
    rw [UInt16.add_zero]
  | succ count ih =>
    have haddress : stack.pointer + 2 + UInt16.ofNat (2 * count) =
        stack.pointer + UInt16.ofNat (2 * (count + 1)) := by
      rw [Nat.mul_add_one, UInt16.ofNat_add]
      grind
    rw [← haddress]
    exact ih stack.drop

theorem Holds.pop (h : stack.Holds words) : (stack.pop words.length).1 = words := by
  induction words generalizing stack with
  | nil => rfl
  | cons word rest ih =>
    obtain ⟨htop, hrest⟩ := h
    exact congrArg₂ List.cons htop (ih hrest)

/-- What was pushed comes back in reverse order, and nothing else was touched. -/
theorem pop_pushAll (hroom : stack.HasRoom words.length) :
    let popped := (stack.pushAll words).pop words.length
    popped.1 = words.reverse ∧ popped.2.pointer = stack.pointer ∧
      ∀ address, (∀ i < 2 * words.length, address ≠ below stack.pointer i) →
        popped.2.memory.read address = stack.memory.read address := by
  have hfit := hroom.lt
  have hholds : (stack.pushAll words).Holds words.reverse := by
    have hempty : stack.Holds [] := trivial
    simpa using hempty.pushAll hroom (by simp; omega)
  have hwords := hholds.pop
  rw [List.length_reverse] at hwords
  intro popped
  have hpopped : popped.2 = ⟨stack.pointer, (stack.pushAll words).memory⟩ := by
    rw [pop_snd, pointer_pushAll, UInt16.sub_add_cancel]
  rw [hpopped]
  exact ⟨hwords, rfl, fun address hne => read_pushAll hroom hne⟩

end Stack

/-! ### Instructions that use the stack -/

namespace Instruction

/-- The word that an instruction pushes. -/
def pushed? (r : Registers) : Instruction → Option UInt16
  | .push pair => some (r.stackPair pair)
  | .call condition _ => if r.meets condition then some r.pc else none
  | .rst _ => some r.pc
  | _ => none

/-- A call that is taken, or a restart. -/
def calls (r : Registers) : Instruction → Bool
  | .call condition _ => r.meets condition
  | .rst _ => true
  | _ => false

variable {r : Registers} {instruction : Instruction}

/-- A call pushes the address after it. -/
theorem pushed?_of_calls (h : instruction.calls r) : instruction.pushed? r = some r.pc := by
  cases instruction with
  | call condition address => exact if_pos h
  | rst vector => rfl
  | _ => contradiction

theorem effect_of_pushed? {word : UInt16} (h : instruction.pushed? r = some word)
    (read : UInt16 → UInt8) (vectors : UInt16) :
    let effect := instruction.effect read vectors r
    effect.registers.sp = r.sp - 2 ∧ effect.store = .word (r.sp - 2) word := by
  cases instruction with
  | push pair =>
    cases h
    exact ⟨rfl, rfl⟩
  | rst vector =>
    cases h
    exact ⟨rfl, rfl⟩
  | call condition address =>
    by_cases hmeets : r.meets condition
    · simp only [pushed?, if_pos hmeets, Option.some.injEq] at h
      subst h
      simp only [effect, if_pos hmeets]
      exact ⟨rfl, rfl⟩
    · simp only [pushed?, if_neg hmeets, reduceCtorEq] at h
  | _ => contradiction

theorem effect_of_returns (h : instruction.returns r) (read : UInt16 → UInt8) (vectors : UInt16) :
    instruction.effect read vectors r = r.takeReturn read := by
  cases instruction with
  | ret condition => exact if_pos h
  | reti => rfl
  | _ => contradiction

end Instruction

namespace Word

/-- Words are masked byte by byte. -/
theorem ofBytes_and_ofBytes (h l h' l' : UInt8) :
    ofBytes h l &&& ofBytes h' l' = ofBytes (h &&& h') (l &&& l') := by
  have hl : l.toNat < 2 ^ 8 := l.toNat_lt
  have hl' : l'.toNat < 2 ^ 8 := l'.toNat_lt
  have hand : l.toNat &&& l'.toNat < 2 ^ 8 := Nat.and_lt_two_pow _ hl'
  apply UInt16.toNat_inj.mp
  simp only [UInt16.toNat_and, toNat_ofBytes, UInt8.toNat_and]
  apply Nat.eq_of_testBit_eq
  intro i
  change (2 ^ 8 * h.toNat + l.toNat &&& 2 ^ 8 * h'.toNat + l'.toNat).testBit i =
    (2 ^ 8 * (h.toNat &&& h'.toNat) + (l.toNat &&& l'.toNat)).testBit i
  rw [Nat.testBit_and, Nat.testBit_two_pow_mul_add _ hl, Nat.testBit_two_pow_mul_add _ hl',
    Nat.testBit_two_pow_mul_add _ hand]
  split <;> rw [Nat.testBit_and]

end Word

namespace Registers

variable (r : Registers)

/-- A pair takes a word as it is, but AF has no low half digit. -/
theorem stackPair_setStackPair (target : StackPair) (word : UInt16) :
    (r.setStackPair target word).stackPair target =
      if target = .af then word &&& 0xFFF0 else word := by
  cases target with
  | bc | de | hl => exact Word.ofBytes_high_low word
  | af =>
    have hmask : (0xFFF0 : UInt16) = Word.ofBytes 0xFF 0xF0 := by decide
    have hhigh : Word.high word &&& 0xFF = Word.high word := UInt8.and_neg_one
    rw [if_pos rfl, hmask]
    conv_rhs => rw [← Word.ofBytes_high_low word, Word.ofBytes_and_ofBytes, hhigh]
    rfl

end Registers

/-- The stack after a step. -/
def Stepped.stack (stepped : Stepped) : Stack := ⟨stepped.cpu.registers.sp, stepped.memory⟩

namespace Cpu

/-- The instruction that comes next. -/
def instruction (cpu : Cpu) (memory : Memory) : Instruction := fetch memory.read cpu.registers.pc

/-- The registers with the program counter past the next instruction. -/
def past (cpu : Cpu) (memory : Memory) : Registers :=
  { cpu.registers with pc := cpu.registers.pc + UInt16.ofNat (cpu.instruction memory).length }

def stack (cpu : Cpu) (memory : Memory) : Stack := ⟨cpu.registers.sp, memory⟩

/-- The bytes that the next step writes. -/
def writes (cpu : Cpu) (memory : Memory) : List (UInt16 × UInt8) :=
  (cpu.effectIn memory).store.writes

/-- The processor and the memory after so many steps. -/
def run : ℕ → Cpu → Memory → Cpu × Memory
  | 0, cpu, memory => (cpu, memory)
  | count + 1, cpu, memory =>
    let stepped := cpu.step memory
    run count stepped.cpu stepped.memory

/-- None of so many steps writes to an address. -/
def Spares (count : ℕ) (cpu : Cpu) (memory : Memory) (address : UInt16) : Prop :=
  ∀ k < count, let state := run k cpu memory
    ∀ write ∈ state.1.writes state.2, write.1 ≠ address

variable {cpu : Cpu} {memory : Memory}

theorem stack_of_pushed? {word : UInt16}
    (h : (cpu.instruction memory).pushed? (cpu.past memory) = some word) :
    (cpu.step memory).stack = (cpu.stack memory).push word := by
  obtain ⟨hsp, hstore⟩ := Instruction.effect_of_pushed? h memory.read cpu.vectors
  have hmemory : (cpu.step memory).memory = memory.apply (.word (cpu.registers.sp - 2) word) :=
    congrArg memory.apply hstore
  rw [Stepped.stack, hmemory]
  exact congrArg (Stack.mk · _) hsp

theorem step_of_pops {target : StackPair} (h : cpu.instruction memory = .pop target) :
    (cpu.step memory).stack = (cpu.stack memory).drop ∧
      (cpu.step memory).cpu.registers =
        { cpu.past memory with sp := cpu.registers.sp + 2 }.setStackPair target
          (cpu.stack memory).top := by
  have hpast : (cpu.past memory).pc = cpu.registers.pc + 1 := by
    rw [past, h]
    rfl
  rw [step_of_pop target h, ← hpast]
  refine ⟨?_, rfl⟩
  cases target <;> rfl

theorem step_of_returns (h : (cpu.instruction memory).returns (cpu.past memory)) :
    cpu.step memory =
      ⟨{ cpu with registers := { cpu.past memory with
          sp := cpu.registers.sp + 2, pc := (cpu.stack memory).top } }, memory, true⟩ := by
  have heffect : cpu.effectIn memory = (cpu.past memory).takeReturn memory.read :=
    Instruction.effect_of_returns h memory.read cpu.vectors
  simp only [step, heffect]
  rfl

/-! ### Cells that a run does not write -/

theorem read_step_elsewhere {address : UInt16} (h : IsPlain address)
    (hne : ∀ write ∈ cpu.writes memory, write.1 ≠ address) :
    (cpu.step memory).memory.read address = memory.read address := by
  rw [step, memory.apply_eq_writeEach]
  exact memory.read_writeEach_elsewhere h hne

theorem Spares.read_run {address : UInt16} {count : ℕ} (hspares : Spares count cpu memory address)
    (h : IsPlain address) : (run count cpu memory).2.read address = memory.read address := by
  induction count generalizing cpu memory with
  | zero => rfl
  | succ count ih =>
    have hfirst := read_step_elsewhere h (hspares 0 (Nat.succ_pos count))
    have hrest : Spares count (cpu.step memory).cpu (cpu.step memory).memory address :=
      fun k hk => hspares (k + 1) (Nat.succ_lt_succ hk)
    exact (ih hrest).trans hfirst

/-- An instruction that does nothing spares all of memory. -/
theorem run_of_isIdle (h : (cpu.instruction memory).IsIdle) :
    run 1 cpu memory = ({ cpu with registers := cpu.past memory }, memory) ∧
      ∀ address, Spares 1 cpu memory address := by
  have heffect : cpu.effectIn memory = .registersOnly (cpu.past memory) :=
    Instruction.effect_of_isIdle _ _ _ _ h
  have hwrites : cpu.writes memory = [] := by
    rw [writes, heffect]
    rfl
  constructor
  · simp only [run, step, heffect]
    rfl
  · intro address k hk state write hwrite
    obtain rfl : k = 0 := Nat.lt_one_iff.mp hk
    have hmem : write ∈ cpu.writes memory := hwrite
    rw [hwrites] at hmem
    contradiction

/-! ### Calls and returns -/

/-- A run that spares the two cells below a pointer keeps the word there. -/
theorem top_run_eq {pointer : UInt16} {count : ℕ} (hroom : Stack.HasRoom ⟨pointer, memory⟩ 1)
    (hspares : ∀ i < 2, Spares count cpu memory (Stack.below pointer i)) :
    Stack.top ⟨pointer - 2, (run count cpu memory).2⟩ = Stack.top ⟨pointer - 2, memory⟩ := by
  have hhigh := (hspares 0 (by decide)).read_run (hroom 0 (by decide))
  have hlow := (hspares 1 (by decide)).read_run (hroom 1 (by decide))
  rw [Stack.below_zero] at hhigh
  rw [Stack.below_one] at hlow
  exact congrArg₂ Word.ofBytes hhigh hlow

/-- A routine returns to where it was called from, if it leaves the two cells of its return address
alone and brings the stack pointer back. -/
theorem return_of_calls {called : Stepped} {later : Cpu × Memory} {count : ℕ}
    (hcalls : (cpu.instruction memory).calls (cpu.past memory))
    (hroom : Stack.HasRoom ⟨cpu.registers.sp, memory⟩ 1) (hcalled : cpu.step memory = called)
    (hlater : run count called.cpu called.memory = later)
    (hspares : ∀ i < 2, Spares count called.cpu called.memory (Stack.below cpu.registers.sp i))
    (hsp : later.1.registers.sp = called.cpu.registers.sp)
    (hreturns : (later.1.instruction later.2).returns (later.1.past later.2)) :
    let back := later.1.step later.2
    back.cpu.registers.pc = (cpu.past memory).pc ∧
      back.cpu.registers.sp = cpu.registers.sp ∧ back.returned := by
  have hpushed := stack_of_pushed? (Instruction.pushed?_of_calls hcalls)
  rw [hcalled] at hpushed
  have hpointer : called.cpu.registers.sp = cpu.registers.sp - 2 := congrArg Stack.pointer hpushed
  have hheld : called.stack.top = (cpu.past memory).pc := by
    have hempty : (cpu.stack memory).Holds [] := trivial
    rw [hpushed]
    exact (hempty.push hroom (by simp) _).1
  have hkept : (later.1.stack later.2).top = (cpu.past memory).pc := by
    have hroomed : Stack.HasRoom ⟨cpu.registers.sp, called.memory⟩ 1 := hroom
    have hrun := top_run_eq hroomed hspares
    rw [hlater] at hrun
    rw [stack, hsp, hpointer, hrun, ← hpointer]
    exact hheld
  rw [step_of_returns hreturns, hkept, hsp, hpointer]
  exact ⟨rfl, UInt16.sub_add_cancel _ _, rfl⟩

/-- A push and a pop move a word from a pair to another. -/
theorem move_of_push_pop {pushed : Stepped} {source target : StackPair}
    (hroom : Stack.HasRoom ⟨cpu.registers.sp, memory⟩ 1) (hpushed : cpu.step memory = pushed)
    (hpush : cpu.instruction memory = .push source)
    (hpop : pushed.cpu.instruction pushed.memory = .pop target) :
    let r := cpu.registers
    let moved := pushed.cpu.step pushed.memory
    moved.cpu.registers =
        { r with pc := r.pc + 2 }.setStackPair target (r.stackPair source) ∧
      ∀ address, (∀ i < 2, address ≠ Stack.below r.sp i) →
        moved.memory.read address = memory.read address := by
  intro r moved
  have hstep := step_of_push source hpush
  rw [hpushed] at hstep
  subst hstep
  have hword : (memory.writeWord (r.sp - 2) (r.stackPair source)).readWord (r.sp - 2) =
      r.stackPair source := memory.readWord_writeWord hroom.plain.1 hroom.plain.2 _
  have hsp : r.sp - 2 + 2 = r.sp := UInt16.sub_add_cancel _ _
  have hpc : r.pc + 1 + 1 = r.pc + 2 := by grind
  have hmoved : moved = _ := step_of_pop target hpop
  rw [hmoved]
  refine ⟨?registers, fun address hne => ?reads⟩
  case registers =>
    show Registers.setStackPair { r with sp := r.sp - 2 + 2, pc := r.pc + 1 + 1 } target _ = _
    rw [hword, hsp, hpc]
  case reads =>
    have hone : Stack.HasRoom ⟨r.sp, memory⟩ [r.stackPair source].length := hroom
    exact Stack.read_pushAll hone hne

/-- The stack gives words back in the reverse order, as long as the cells below the pointer that
they take are plain memory. The pointer is then where it was and no other cell has changed. Pushes,
calls and restarts push a word, pops and returns take the top. So a push and a pop move a word
between two pairs, where AF takes no low half digit, and a return that finds the stack pointer as
its call left it and the two cells of its address unwritten goes on after the call. -/
theorem last_in_first_out :
    (∀ (stack : Stack) (words : List UInt16), stack.HasRoom words.length →
      let popped := (stack.pushAll words).pop words.length
      popped.1 = words.reverse ∧ popped.2.pointer = stack.pointer ∧
        ∀ address, (∀ i < 2 * words.length, address ≠ Stack.below stack.pointer i) →
          popped.2.memory.read address = stack.memory.read address) ∧
    ∀ (cpu : Cpu) (memory : Memory),
      let instruction := cpu.instruction memory
      let past := cpu.past memory
      let stack := cpu.stack memory
      let stepped := cpu.step memory
      (∀ word, instruction.pushed? past = some word → stepped.stack = stack.push word) ∧
      (∀ target, instruction = .pop target →
        stepped.stack = stack.drop ∧ stepped.cpu.registers =
          { past with sp := stack.pointer + 2 }.setStackPair target stack.top) ∧
      (instruction.returns past →
        stepped.stack = stack.drop ∧ stepped.cpu.registers.pc = stack.top) ∧
      (stack.HasRoom 1 →
        (∀ source target, instruction = .push source →
          stepped.cpu.instruction stepped.memory = .pop target →
          let r := cpu.registers
          let word := r.stackPair source
          let moved := stepped.cpu.step stepped.memory
          moved.cpu.registers = { r with pc := r.pc + 2 }.setStackPair target word ∧
            moved.cpu.registers.stackPair target =
              (if target = .af then word &&& 0xFFF0 else word) ∧
            (source = .af → r.LowFlagsClear → word &&& 0x000F = 0) ∧
            ∀ address, (∀ i < 2, address ≠ Stack.below r.sp i) →
              moved.memory.read address = memory.read address) ∧
        (instruction.calls past → ∀ (count : ℕ) (later : Cpu × Memory),
          run count stepped.cpu stepped.memory = later →
          (∀ i < 2, Spares count stepped.cpu stepped.memory (Stack.below stack.pointer i)) →
          later.1.registers.sp = stepped.cpu.registers.sp →
          (later.1.instruction later.2).returns (later.1.past later.2) →
          let back := later.1.step later.2
          back.cpu.registers.pc = past.pc ∧ back.cpu.registers.sp = stack.pointer ∧
            back.returned)) := by
  refine ⟨fun stack words hroom => Stack.pop_pushAll hroom, fun cpu memory => ?_⟩
  refine ⟨fun word h => stack_of_pushed? h, fun target h => step_of_pops h, fun h => ?returns,
    fun hroom => ⟨fun source target hpush hpop => ?move,
      fun hcalls count later hlater hspares => return_of_calls hcalls hroom rfl hlater hspares⟩⟩
  case returns =>
    rw [step_of_returns h]
    exact ⟨rfl, rfl⟩
  case move =>
    intro r word moved
    obtain ⟨hregisters, hreads⟩ := move_of_push_pop hroom rfl hpush hpop
    refine ⟨hregisters, ?_, ?_, hreads⟩
    · exact (congrArg (Registers.stackPair · target) hregisters).trans
        (Registers.stackPair_setStackPair _ target word)
    · rintro rfl hclear
      exact Registers.af_and_low hclear

/-- Stacks at address zero grow down from the end of memory. A push is followed by a pop, and a
restart by an instruction that does nothing and by a return. -/
theorem last_in_first_out_wrapping :
    let moving := Memory.holding 0xC5 0xF1 0x00
    let restarting := Memory.holding 0xC7 0x00 0xC9
    let cpu : Cpu := { registers := { b := 0x12, c := 0x34, pc := 0xC000 }, vectors := 0xC001 }
    let popped := (Stack.pushAll ⟨0, moving⟩ [0x1234, 0xABCD]).pop 2
    let pushed := cpu.step moving
    let moved := pushed.cpu.step pushed.memory
    let called := cpu.step restarting
    let later := run 1 called.cpu called.memory
    let back := later.1.step later.2
    (popped.1 = [0xABCD, 0x1234] ∧ popped.2.pointer = 0) ∧
      moved.cpu.registers = { cpu.registers with a := 0x12, f := 0x30, pc := 0xC002 } ∧
      called.stack = Stack.push ⟨0, restarting⟩ 0xC001 ∧
      back.cpu.registers.pc = 0xC001 ∧ back.cpu.registers.sp = 0 ∧ back.returned := by
  intro moving restarting cpu popped
  obtain ⟨hpopped, hsteps⟩ := last_in_first_out
  obtain ⟨hwords, hpointer, -⟩ := hpopped ⟨0, moving⟩ [0x1234, 0xABCD]
    (by decide : Stack.HasRoom ⟨0, moving⟩ 2)
  have hroom (memory : Memory) : Stack.HasRoom ⟨0, memory⟩ 1 :=
    (by decide : ∀ i < 2, IsPlain (Stack.below 0 i))
  -- The memories are variables in these steps, so that their cells are not computed.
  have hmoved (memory : Memory) (hpush : memory.read 0xC000 = 0xC5)
      (hpop : memory.read 0xC001 = 0xF1) :
      let pushed := cpu.step memory
      let moved := pushed.cpu.step pushed.memory
      moved.cpu.registers = { cpu.registers with a := 0x12, f := 0x30, pc := 0xC002 } := by
    have hfetch : fetch memory.read cpu.registers.pc = .push .bc :=
      fetch_of_read hpush fun _ _ => rfl
    have hstep := step_of_push .bc hfetch
    have hnext : fetch (cpu.step memory).memory.read (cpu.step memory).cpu.registers.pc =
        .pop .af := by
      have hlow : (0xC001 : UInt16) < 0xFFFE := by decide
      rw [hstep]
      exact fetch_of_read ((memory.read_writeWord_end hlow _).trans hpop) fun _ _ => rfl
    obtain ⟨-, -, -, hroomed⟩ := hsteps cpu memory
    obtain ⟨hregisters, -⟩ := (hroomed (hroom memory)).1 .bc .af hfetch hnext
    exact hregisters.trans (by decide)
  have hback (memory : Memory) (hrst : memory.read 0xC000 = 0xC7) (hnop : memory.read 0xC001 = 0)
      (hret : memory.read 0xC002 = 0xC9) :
      let called := cpu.step memory
      let later := run 1 called.cpu called.memory
      let back := later.1.step later.2
      called.stack = Stack.push ⟨0, memory⟩ 0xC001 ∧
        back.cpu.registers.pc = 0xC001 ∧ back.cpu.registers.sp = 0 ∧ back.returned := by
    have hfetch : fetch memory.read cpu.registers.pc = .rst 0 :=
      fetch_of_read hrst fun _ _ => rfl
    let inside : Cpu := { cpu with registers := { cpu.registers with sp := 0xFFFE, pc := 0xC001 } }
    have hcalled : cpu.step memory = ⟨inside, memory.writeWord 0xFFFE 0xC001, false⟩ := by
      simp only [step, effectIn, effect, hfetch]
      rfl
    obtain ⟨hpushed, -, -, hroomed⟩ := hsteps cpu memory
    obtain ⟨-, hcalls⟩ := hroomed (hroom memory)
    rw [instruction, past, instruction, hfetch, hcalled] at hpushed hcalls
    rw [hcalled]
    have hnop := (memory.read_writeWord_end (by decide) 0xC001).trans hnop
    have hret := (memory.read_writeWord_end (by decide) 0xC001).trans hret
    generalize memory.writeWord 0xFFFE 0xC001 = kept at *
    have hnext : fetch kept.read inside.registers.pc = .nop := fetch_of_read hnop fun _ _ => rfl
    have hreturn : fetch kept.read 0xC002 = .ret none := fetch_of_read hret fun _ _ => rfl
    have hidle : (inside.instruction kept).IsIdle := by
      rw [instruction, hnext]
      exact .nop
    obtain ⟨hlater, hspares⟩ := run_of_isIdle hidle
    rw [past, instruction, hnext] at hlater
    have hreturned := hcalls rfl 1 _ hlater (fun i hi => hspares _) rfl
      (congrArg (Instruction.returns _) hreturn)
    refine ⟨hpushed 0xC001 rfl, ?_⟩
    rw [hlater]
    exact hreturned
  obtain ⟨hpush, hpop, -⟩ := Memory.read_holding 0xC5 0xF1 0x00
  obtain ⟨hrst, hnop, hret⟩ := Memory.read_holding 0xC7 0x00 0xC9
  exact ⟨⟨hwords, hpointer⟩, hmoved _ hpush hpop, hback _ hrst hnop hret⟩

end Cpu
end Chiptune
