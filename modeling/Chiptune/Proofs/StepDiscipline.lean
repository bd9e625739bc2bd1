import Chiptune.Proofs.InstructionSet

/-!
# Control, stack and stores of one step

Most instructions only compute. What the others do to the program counter, to
the stack pointer and to memory is listed here for each of them, beside the
definition that carries them out, and a step does what the lists say and nothing
else. Stores are lists of bytes, so that a word counts as two of them, the low
byte first.

The routines of a driver are told to have returned by the stack pointer, so one
store or one move of the pointer too many would be heard as a track that stops.
-/
namespace Chiptune

/-! ### Signed offsets -/

theorem word_toNat_ofInt (i : Int) : (UInt16.ofInt i).toNat = (i % 65536).toNat := by
  have hlt : (i % 65536).toNat < 65536 := by omega
  exact UInt16.toNat_ofNat_of_lt hlt

/-- An offset counts with its sign. -/
theorem add_ofOffset (word : UInt16) (offset : Int8) :
    word + Word.ofOffset offset = UInt16.ofInt (word.toNat + offset.toInt) := by
  have hword : UInt16.ofInt word.toNat = word := by
    have hlt := word.toNat_lt
    apply UInt16.toNat_inj.mp
    rw [word_toNat_ofInt]
    omega
  have hoffset : UInt16.ofInt offset.toInt = Word.ofOffset offset := by
    apply UInt16.toNat_inj.mp
    rw [word_toNat_ofInt]
    exact BitVec.toNat_ofInt (n := 16) offset.toInt |>.symm
  rw [UInt16.ofInt_add, hword, hoffset]

/-! ### Stores as bytes -/

/-- The bytes of a word at an address, in the order in which they are stored. -/
def wordWrites (address word : UInt16) : List (UInt16 × UInt8) :=
  [(address, Word.low word), (address + 1, Word.high word)]

def Store.writes : Store → List (UInt16 × UInt8)
  | .none => []
  | .byte address value => [(address, value)]
  | .word address value => wordWrites address value

namespace Memory

/-- Writes bytes to addresses one after the other. -/
def writeEach (memory : Memory) (writes : List (UInt16 × UInt8)) : Memory :=
  writes.foldl (fun memory write => memory.write write.1 write.2) memory

theorem apply_eq_writeEach (memory : Memory) (store : Store) :
    memory.apply store = memory.writeEach store.writes := by
  cases store <;> rfl

end Memory

/-- What putting a byte into an operand stores. Only (HL) is in memory. -/
def Operand.writes (r : Registers) (value : UInt8) : Operand → List (UInt16 × UInt8)
  | .atHL => [(r.hl, value)]
  | _ => []

/-- What an operation puts into its operand. A test puts nothing there. -/
def BitOp.result? (carry : Bool) (value : UInt8) : BitOp → Option UInt8
  | .shift op => some (op.apply carry value).value
  | .test _ => none
  | .reset bit => some (value &&& ~~~(1 <<< UInt8.ofNat bit))
  | .set bit => some (value ||| (1 <<< UInt8.ofNat bit))

/-! ### What the instructions do

In all of these the program counter of `r` is already past the instruction. -/

namespace Instruction

/-- The instructions that do nothing. -/
inductive IsIdle : Instruction → Prop where
  | nop : IsIdle .nop
  | stop : IsIdle .stop
  | halt : IsIdle .halt
  | di : IsIdle .di
  | ei : IsIdle .ei
  | undefined (opcode : UInt8) : IsIdle (.undefined opcode)

/-- A return that is taken. -/
def returns (r : Registers) : Instruction → Bool
  | .ret condition => r.meets condition
  | .reti => true
  | _ => false

/-- Where control passes, if not to the next instruction. -/
def target? (read : UInt16 → UInt8) (vectors : UInt16) (r : Registers) :
    Instruction → Option UInt16
  | .jump condition address | .call condition address =>
    if r.meets condition then some address else none
  | .jumpHL => some r.hl
  | .jumpBy condition offset =>
    if r.meets condition then some (UInt16.ofInt (r.pc.toNat + offset.toInt)) else none
  | .ret condition =>
    if r.meets condition then some (Word.ofBytes (read (r.sp + 1)) (read r.sp)) else none
  | .reti => some (Word.ofBytes (read (r.sp + 1)) (read r.sp))
  | .rst vector => some (vectors + 8 * UInt16.ofNat vector)
  | _ => none

/-- The stack pointer afterwards. -/
def stackPointer (r : Registers) : Instruction → UInt16
  | .push _ | .rst _ => r.sp - 2
  | .call condition _ => if r.meets condition then r.sp - 2 else r.sp
  | .pop _ | .reti => r.sp + 2
  | .ret condition => if r.meets condition then r.sp + 2 else r.sp
  | .loadWord target value => if target = .sp then value else r.sp
  | .loadSPHL => r.hl
  | .incWord target => if target = .sp then r.sp + 1 else r.sp
  | .decWord target => if target = .sp then r.sp - 1 else r.sp
  | .addSP offset => UInt16.ofInt (r.sp.toNat + offset.toInt)
  | _ => r.sp

/-- The bytes that are stored, in their order. -/
def writes (read : UInt16 → UInt8) (r : Registers) : Instruction → List (UInt16 × UInt8)
  | .load target source => target.writes r (source.value read r)
  | .loadByte target value => target.writes r value
  | .storeA pointer => [(r.pointer pointer, r.a)]
  | .storeAAt address => [(address, r.a)]
  | .storeAHigh offset => [(highPage offset, r.a)]
  | .storeAHighC => [(highPage r.c, r.a)]
  | .storeSP address => wordWrites address r.sp
  | .inc target => target.writes r (target.value read r + 1)
  | .dec target => target.writes r (target.value read r - 1)
  | .bits op target => (op.result? r.carry (target.value read r)).elim [] (target.writes r ·)
  | .push pair => wordWrites (r.sp - 2) (r.stackPair pair)
  | .rst _ => wordWrites (r.sp - 2) r.pc
  | .call condition _ => if r.meets condition then wordWrites (r.sp - 2) r.pc else []
  | _ => []

/-! ### What the effect of an instruction is

Putting a byte into an operand, and a word into a pair, is all that several of
the instructions have in common. -/

variable (read : UInt16 → UInt8) (vectors : UInt16) (r : Registers) (instruction : Instruction)

@[simp] theorem put_returned (value : UInt8) (target : Operand) :
    (target.put r value).returned = false := by
  cases target <;> rfl

@[simp] theorem put_pc (value : UInt8) (target : Operand) :
    (target.put r value).registers.pc = r.pc := by
  cases target <;> rfl

@[simp] theorem put_sp (value : UInt8) (target : Operand) :
    (target.put r value).registers.sp = r.sp := by
  cases target <;> rfl

@[simp] theorem put_f (value : UInt8) (target : Operand) :
    (target.put r value).registers.f = r.f := by
  cases target <;> rfl

@[simp] theorem setPair_pc (value : UInt16) (target : Pair) :
    (r.setPair target value).pc = r.pc := by
  cases target <;> rfl

@[simp] theorem setStackPair_pc (value : UInt16) (target : StackPair) :
    (r.setStackPair target value).pc = r.pc := by
  cases target <;> rfl

@[simp] theorem setStackPair_sp (value : UInt16) (target : StackPair) :
    (r.setStackPair target value).sp = r.sp := by
  cases target <;> rfl

@[simp] theorem movePointer_pc (pointer : Pointer) : (r.movePointer pointer).pc = r.pc := by
  cases pointer <;> rfl

@[simp] theorem movePointer_sp (pointer : Pointer) : (r.movePointer pointer).sp = r.sp := by
  cases pointer <;> rfl

theorem effect_returned :
    (instruction.effect read vectors r).returned = instruction.returns r := by
  cases instruction with
  | load target | loadByte target | inc target | dec target => exact put_returned _ _ target
  | bits op target =>
    cases op with
    | test => rfl
    | shift | reset | set => exact put_returned _ _ target
  | call condition | ret condition =>
    simp only [effect, returns]
    by_cases hmeets : r.meets condition <;> simp [hmeets] <;> rfl
  | _ => rfl

theorem effect_pc :
    (instruction.effect read vectors r).registers.pc =
      (instruction.target? read vectors r).getD r.pc := by
  cases instruction with
  | load target | loadByte target | inc target | dec target => exact put_pc _ _ target
  | bits op target =>
    cases op with
    | test => rfl
    | shift | reset | set => exact put_pc _ _ target
  | loadWord target | incWord target | decWord target => exact setPair_pc _ _ target
  | storeA pointer | loadA pointer => exact movePointer_pc r pointer
  | pop pair => exact setStackPair_pc _ _ pair
  | jump condition | call condition | ret condition =>
    simp only [effect, target?]
    by_cases hmeets : r.meets condition <;> simp [hmeets] <;> rfl
  | jumpBy condition offset =>
    simp only [effect, target?, ← add_ofOffset]
    by_cases hmeets : r.meets condition <;> simp [hmeets] <;> rfl
  | _ => rfl

theorem effect_sp :
    (instruction.effect read vectors r).registers.sp = instruction.stackPointer r := by
  cases instruction with
  | load target | loadByte target | inc target | dec target => exact put_sp _ _ target
  | bits op target =>
    cases op with
    | test => rfl
    | shift | reset | set => exact put_sp _ _ target
  | loadWord target | incWord target | decWord target => cases target <;> rfl
  | storeA pointer | loadA pointer => exact movePointer_sp r pointer
  | pop pair => exact setStackPair_sp _ _ pair
  | addSP offset => exact add_ofOffset r.sp offset
  | jump condition | jumpBy condition | call condition | ret condition =>
    simp only [effect, stackPointer]
    by_cases hmeets : r.meets condition <;> simp [hmeets] <;> rfl
  | _ => rfl

theorem effect_writes :
    (instruction.effect read vectors r).store.writes = instruction.writes read r := by
  cases instruction with
  | load target | loadByte target | inc target | dec target => cases target <;> rfl
  | bits op target => cases op <;> cases target <;> rfl
  | call condition address =>
    -- The equations of `writes` split over all instructions, so its branch is stated instead.
    show (if r.meets condition then r.callTo address else .registersOnly r).store.writes =
      if r.meets condition then wordWrites (r.sp - 2) r.pc else []
    by_cases hmeets : r.meets condition
    · rw [if_pos hmeets, if_pos hmeets]
      rfl
    · rw [if_neg hmeets, if_neg hmeets]
      rfl
  | ret condition =>
    show (if r.meets condition then r.takeReturn read else .registersOnly r).store.writes = []
    by_cases hmeets : r.meets condition
    · rw [if_pos hmeets]
      rfl
    · rw [if_neg hmeets]
      rfl
  | _ => rfl

theorem effect_of_isIdle (h : instruction.IsIdle) :
    instruction.effect read vectors r = .registersOnly r := by
  cases h <;> rfl

theorem returns_iff :
    instruction.returns r = true ↔
      instruction = .reti ∨ ∃ condition, instruction = .ret condition ∧ r.meets condition := by
  cases instruction <;> simp [returns]

end Instruction

namespace Cpu

/-- The discipline of a step. It reports a return exactly where one is taken. Control passes to the
next instruction unless a jump, a call, a return or a restart is taken. The stack pointer, and what
memory holds, change as the lists for the instruction say and not otherwise. An instruction that
does nothing only moves the program counter past itself. -/
theorem step_discipline (cpu : Cpu) (memory : Memory) :
    let instruction := fetch memory.read cpu.registers.pc
    let r := { cpu.registers with pc := cpu.registers.pc + UInt16.ofNat instruction.length }
    let stepped := cpu.step memory
    (stepped.returned ↔
        instruction = .reti ∨ ∃ condition, instruction = .ret condition ∧ r.meets condition) ∧
      stepped.cpu.registers.pc = (instruction.target? memory.read cpu.vectors r).getD r.pc ∧
      stepped.cpu.registers.sp = instruction.stackPointer r ∧
      stepped.cpu.vectors = cpu.vectors ∧
      stepped.memory = memory.writeEach (instruction.writes memory.read r) ∧
      (instruction.IsIdle → stepped = ⟨{ cpu with registers := r }, memory, false⟩) := by
  intro instruction r stepped
  have hreturned : stepped.returned = instruction.returns r := Instruction.effect_returned _ _ _ _
  have hmemory : stepped.memory =
      memory.apply (instruction.effect memory.read cpu.vectors r).store := rfl
  refine ⟨?returned, Instruction.effect_pc _ _ _ _, Instruction.effect_sp _ _ _ _, rfl, ?memory,
    fun hidle => ?idle⟩
  case returned =>
    rw [hreturned]
    exact instruction.returns_iff r
  case memory => rw [hmemory, memory.apply_eq_writeEach, Instruction.effect_writes]
  case idle =>
    have heffect : cpu.effectIn memory = .registersOnly r :=
      Instruction.effect_of_isIdle _ _ _ _ hidle
    simp only [stepped, step, heffect]
    rfl

/-- An opcode without a meaning in the last byte of memory; the program counter wraps. -/
theorem step_discipline_aroundEnd :
    let memory := { Memory.new .blank 48000 with cells := Cells.zero.set 0xFFFF 0xD3 }
    (fetch memory.read 0xFFFF).IsIdle ∧
      step { registers := { sp := 0xDFFE, pc := 0xFFFF } } memory =
        ⟨{ registers := { sp := 0xDFFE, pc := 0 } }, memory, false⟩ := by
  intro memory
  have hread : memory.read 0xFFFF = 0xD3 := by
    show Cells.get _ _ = _
    simp [memory, Cells.get_set]
  have hspelled : (Instruction.undefined 0xD3).SpelledBy (memory.bytesFrom 0xFFFF 1) := by
    rw [memory.bytesFrom_eq_take 0xFFFF (by decide), hread]
    exact .inl rfl
  have hmeaningless : (0xD3 : UInt8) ∈ Instruction.meaningless := by decide
  have hfetch : fetch memory.read 0xFFFF = .undefined 0xD3 :=
    fetch_eq_of_spelledBy hmeaningless hspelled
  have hidle : (fetch memory.read 0xFFFF).IsIdle := by
    rw [hfetch]
    exact .undefined 0xD3
  have hstep := (step_discipline { registers := { sp := 0xDFFE, pc := 0xFFFF } } memory).2.2.2.2.2
    hidle
  simp only [hfetch] at hstep
  exact ⟨hidle, hstep⟩

end Cpu
end Chiptune
