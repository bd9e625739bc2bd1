import Chiptune.Cpu.Basic
import Mathlib

/-!
# Instructions and their bytes

The decoder picks an opcode apart by its bit fields, with a row of exceptions in
almost every column. What it amounts to is a code: every well-formed instruction
is written in one to three bytes, reading them gives it back, and whatever the
bytes at an address are, they begin with the bytes of the instruction that is
read there. Only the byte after the opcode of a stop is never looked at.

The fields are the coordinates of the opcode table, so one direction goes
through its four blocks column by column. The other one goes through the
instructions.
-/
namespace Chiptune
namespace Instruction

/-! ### What can be written -/

/-- The opcodes without a meaning. -/
def meaningless : List UInt8 :=
  [0xD3, 0xDB, 0xDD, 0xE3, 0xE4, 0xEB, 0xEC, 0xED, 0xF4, 0xFC, 0xFD]

/-- The instruction has bytes of its own. The load of (HL) from (HL) would have those of halt. -/
def WellFormed : Instruction → Prop
  | .load .atHL .atHL => False
  | .undefined opcode => opcode ∈ meaningless
  | _ => True

/-- The bytes are those of the instruction, up to the padding of a stop. -/
def SpelledBy (bytes : List UInt8) (instruction : Instruction) : Prop :=
  bytes = instruction.encode ∨ instruction = .stop ∧ ∃ padding, bytes = [0x10, padding]

theorem length_encode (instruction : Instruction) :
    instruction.encode.length = instruction.length := by
  cases instruction with
  | jump condition | jumpBy condition | call condition | ret condition =>
    cases condition <;> rfl
  | _ => rfl

theorem length_mem (instruction : Instruction) :
    1 ≤ instruction.length ∧ instruction.length ≤ 3 := by
  unfold length
  split <;> decide

/-- Bytes that spell the same instruction are the same, but for the padding of a stop. -/
theorem SpelledBy.eq_of_ne_stop {instruction : Instruction} {bytes other : List UInt8}
    (h : instruction.SpelledBy bytes) (hother : instruction.SpelledBy other)
    (hstop : instruction ≠ .stop) : other = bytes := by
  obtain h | ⟨rfl, -⟩ := h
  · obtain hother | ⟨rfl, -⟩ := hother
    · rw [h, hother]
    · exact absurd rfl hstop
  · exact absurd rfl hstop

theorem SpelledBy.head?_eq {instruction : Instruction} {bytes : List UInt8}
    (h : instruction.SpelledBy bytes) : bytes.head? = instruction.encode.head? := by
  obtain rfl | ⟨rfl, padding, rfl⟩ := h
  · rfl
  · rfl

theorem exists_ofBytes (word : UInt16) : ∃ high low, word = Word.ofBytes high low :=
  ⟨Word.high word, Word.low word, (Word.ofBytes_high_low word).symm⟩

theorem wordTail_ofBytes (high low : UInt8) : wordTail (Word.ofBytes high low) = [low, high] := by
  rw [wordTail, Word.low_ofBytes, Word.high_ofBytes]

/-- Every instruction is the beginning of some three bytes. -/
theorem exists_encode_eq_take (instruction : Instruction) :
    ∃ opcode next after, instruction.encode = [opcode, next, after].take instruction.length := by
  have hlength := length_encode instruction
  have hmem := length_mem instruction
  rw [← hlength] at hmem ⊢
  match instruction.encode, hmem with
  | [opcode], _ => exact ⟨opcode, 0, 0, rfl⟩
  | [opcode, next], _ => exact ⟨opcode, next, 0, rfl⟩
  | [opcode, next, after], _ => exact ⟨opcode, next, after, rfl⟩

/-! ### Reading bytes -/

/-- The instruction is well-formed, and it is spelled by the first of three bytes. -/
structure Reads (opcode next after : UInt8) (instruction : Instruction) : Prop where
  wellFormed : instruction.WellFormed
  spelledBy : instruction.SpelledBy ([opcode, next, after].take instruction.length)

namespace Reads

variable {opcode next after : UInt8} {instruction : Instruction}

theorem of_encode (hw : instruction.WellFormed)
    (h : instruction.encode = [opcode, next, after].take instruction.encode.length) :
    Reads opcode next after instruction := by
  rw [length_encode] at h
  exact ⟨hw, .inl h.symm⟩

theorem alone (hw : instruction.WellFormed) (h : instruction.encode = [opcode]) :
    Reads opcode next after instruction :=
  .of_encode hw (by rw [h]; rfl)

theorem withByte (hw : instruction.WellFormed) (h : instruction.encode = [opcode, next]) :
    Reads opcode next after instruction :=
  .of_encode hw (by rw [h]; rfl)

theorem withWord (hw : instruction.WellFormed)
    (h : instruction.encode = opcode :: wordTail (Word.ofBytes after next)) :
    Reads opcode next after instruction :=
  .of_encode hw (by rw [h, wordTail_ofBytes]; rfl)

theorem undefined (h : opcode ∈ meaningless) (hi : instruction = .undefined opcode) :
    Reads opcode next after instruction := by
  subst hi
  exact .alone h rfl

end Reads

theorem exists_opcodeWith (opcode : UInt8) :
    ∃ block : Fin 4, ∃ mid low : Fin 8, opcode = opcodeWith (64 * UInt8.ofNat block) mid low := by
  have hlt := opcode.toNat_lt
  refine ⟨⟨opcode.toNat / 64, by omega⟩, midField opcode, lowField opcode, ?_⟩
  have hmid : (midField opcode).val = opcode.toNat / 8 % 8 := rfl
  have hlow : (lowField opcode).val = opcode.toNat % 8 := rfl
  apply UInt8.toNat_inj.mp
  simp only [opcodeWith, hmid, hlow, UInt8.toNat_add, UInt8.toNat_mul, UInt8.toNat_ofNat,
    UInt8.toNat_ofNat', Nat.reducePow, Nat.reduceMod]
  omega

theorem encode_decodeBits : ∀ opcode : UInt8, (decodeBits opcode).encode = [0xCB, opcode] := by
  decide +kernel

section

variable (mid low : Fin 8) (next after : UInt8)

theorem reads_decode_first :
    Reads (opcodeWith 0x00 mid low) next after (decode (opcodeWith 0x00 mid low) next after) := by
  match low, mid with
  | 0, 0 => exact .alone trivial rfl
  | 0, 1 => exact .withWord trivial rfl
  | 0, 2 => exact ⟨trivial, .inr ⟨rfl, next, rfl⟩⟩
  | 0, 3 | 0, 4 | 0, 5 | 0, 6 | 0, 7 => exact .withByte trivial rfl
  | 1, 0 | 1, 2 | 1, 4 | 1, 6 => exact .withWord trivial rfl
  | 1, 1 | 1, 3 | 1, 5 | 1, 7 => exact .alone trivial rfl
  | 2, mid | 3, mid | 4, mid | 5, mid | 7, mid => fin_cases mid <;> exact .alone trivial rfl
  | 6, mid => fin_cases mid <;> exact .withByte trivial rfl

theorem reads_decode_load :
    Reads (opcodeWith 0x40 mid low) next after (decode (opcodeWith 0x40 mid low) next after) := by
  fin_cases mid <;> fin_cases low <;> exact .alone trivial rfl

theorem reads_decode_alu :
    Reads (opcodeWith 0x80 mid low) next after (decode (opcodeWith 0x80 mid low) next after) := by
  fin_cases mid <;> fin_cases low <;> exact .alone trivial rfl

theorem reads_decode_last :
    Reads (opcodeWith 0xC0 mid low) next after (decode (opcodeWith 0xC0 mid low) next after) := by
  match low, mid with
  | 0, 0 | 0, 1 | 0, 2 | 0, 3 => exact .alone trivial rfl
  | 0, 4 | 0, 5 | 0, 6 | 0, 7 => exact .withByte trivial rfl
  | 1, mid => fin_cases mid <;> exact .alone trivial rfl
  | 2, 0 | 2, 1 | 2, 2 | 2, 3 | 2, 5 | 2, 7 => exact .withWord trivial rfl
  | 2, 4 | 2, 6 => exact .alone trivial rfl
  | 3, 0 => exact .withWord trivial rfl
  | 3, 1 => exact .withByte trivial (encode_decodeBits next)
  | 3, 2 | 3, 3 | 3, 4 | 3, 5 => exact .undefined (by decide) rfl
  | 3, 6 | 3, 7 => exact .alone trivial rfl
  | 4, 0 | 4, 1 | 4, 2 | 4, 3 => exact .withWord trivial rfl
  | 4, 4 | 4, 5 | 4, 6 | 4, 7 => exact .undefined (by decide) rfl
  | 5, 0 | 5, 2 | 5, 4 | 5, 6 => exact .alone trivial rfl
  | 5, 1 => exact .withWord trivial rfl
  | 5, 3 | 5, 5 | 5, 7 => exact .undefined (by decide) rfl
  | 6, mid => fin_cases mid <;> exact .withByte trivial rfl
  | 7, mid => fin_cases mid <;> exact .alone trivial rfl

end

/-- Whatever three bytes are read, they begin with those of the instruction. -/
theorem reads_decode (opcode next after : UInt8) :
    Reads opcode next after (decode opcode next after) := by
  obtain ⟨block, mid, low, rfl⟩ := exists_opcodeWith opcode
  match block with
  | 0 => exact reads_decode_first mid low next after
  | 1 => exact reads_decode_load mid low next after
  | 2 => exact reads_decode_alu mid low next after
  | 3 => exact reads_decode_last mid low next after

/-! ### Reading an instruction back -/

theorem decodeBits_encodeBits (op : BitOp) (target : Operand) :
    decodeBits (encodeBits op target) = .bits op target := by
  cases op with
  | shift op => cases op <;> cases target <;> rfl
  | test bit | reset bit | set bit =>
    revert bit
    cases target <;> decide

/-- Three bytes that begin with those of a well-formed instruction are read as it. -/
theorem decode_of_spelledBy {opcode next after : UInt8} {instruction : Instruction}
    (hw : instruction.WellFormed)
    (h : instruction.SpelledBy ([opcode, next, after].take instruction.length)) :
    decode opcode next after = instruction := by
  obtain h | ⟨rfl, padding, h⟩ := h
  · -- Once the operands that sit in the opcode are known, so is the opcode.
    cases instruction with
    | undefined opcode =>
      cases h
      have hw : opcode ∈ meaningless := hw
      fin_cases hw <;> rfl
    | load target source =>
      cases h
      cases target <;> cases source <;> first | rfl | exact hw.elim
    | loadByte target | inc target | dec target =>
      cases h
      cases target <;> rfl
    | loadWord target value =>
      obtain ⟨high, low, rfl⟩ := exists_ofBytes value
      rw [encode, wordTail_ofBytes] at h
      cases h
      cases target <;> rfl
    | storeA pointer | loadA pointer =>
      cases h
      cases pointer <;> rfl
    | storeSP address | storeAAt address | loadAAt address =>
      obtain ⟨high, low, rfl⟩ := exists_ofBytes address
      rw [encode, wordTail_ofBytes] at h
      cases h
      rfl
    | incWord target | decWord target | addHL target =>
      cases h
      cases target <;> rfl
    | alu op source =>
      cases h
      cases op <;> cases source <;> rfl
    | aluByte op value =>
      cases h
      cases op <;> rfl
    | bits op target =>
      cases h
      exact decodeBits_encodeBits op target
    | jump condition address | call condition address =>
      obtain ⟨high, low, rfl⟩ := exists_ofBytes address
      cases condition with
      | none =>
        rw [encode, wordTail_ofBytes] at h
        cases h
        rfl
      | some condition =>
        rw [encode, wordTail_ofBytes] at h
        cases h
        cases condition <;> rfl
    | jumpBy condition | ret condition =>
      cases condition with
      | none =>
        cases h
        rfl
      | some condition =>
        cases h
        cases condition <;> rfl
    | push pair | pop pair =>
      cases h
      cases pair <;> rfl
    | rst vector =>
      cases h
      fin_cases vector <;> rfl
    | _ =>
      cases h
      rfl
  · cases h
    rfl

end Instruction

/-! ### Instructions in memory -/

namespace Memory

/-- The bytes at consecutive addresses, around the end of memory if need be. -/
def bytesFrom (memory : Memory) (address : UInt16) (count : Nat) : List UInt8 :=
  (List.range count).map fun i => memory.read (address + UInt16.ofNat i)

theorem bytesFrom_eq_take (memory : Memory) (address : UInt16) {count : Nat} (h : count ≤ 3) :
    memory.bytesFrom address count =
      [memory.read address, memory.read (address + 1), memory.read (address + 2)].take count := by
  have hzero : address + UInt16.ofNat 0 = address := UInt16.add_zero address
  match count with
  | 0 => rfl
  | 1 | 2 | 3 =>
    simp only [bytesFrom, List.range_succ, List.range_zero, List.nil_append, List.map_append,
      List.map_cons, List.map_nil, hzero]
    rfl

theorem head?_bytesFrom (memory : Memory) (address : UInt16) {count : Nat} (h : 1 ≤ count) :
    (memory.bytesFrom address count).head? = some (memory.read address) := by
  obtain ⟨rest, rfl⟩ := Nat.exists_eq_add_of_le' h
  have hzero : address + UInt16.ofNat 0 = address := UInt16.add_zero address
  rw [bytesFrom, List.range_succ_eq_map, List.map_cons, List.head?_cons, hzero]

/-- A memory with three bytes at an address that is plain memory. -/
def holding (first second third : UInt8) : Memory :=
  { new .blank 48000 with
    cells := ((Cells.zero.set 0xC000 first).set 0xC001 second).set 0xC002 third }

theorem read_holding (first second third : UInt8) :
    (holding first second third).read 0xC000 = first ∧
      (holding first second third).read 0xC001 = second ∧
      (holding first second third).read 0xC002 = third := by
  refine ⟨?_, ?_, ?_⟩
  all_goals
    show Cells.get _ _ = _
    simp [holding, Cells.get_set]

theorem fetch_holding (first second third : UInt8) :
    Cpu.fetch (holding first second third).read 0xC000 = .decode first second third := by
  obtain ⟨hfirst, hsecond, hthird⟩ := read_holding first second third
  show Instruction.decode _ _ _ = _
  rw [hfirst]
  exact congrArg₂ (Instruction.decode first) hsecond hthird

end Memory

namespace Cpu

open Instruction

/-- An opcode that says it all is fetched whatever the bytes after it are. -/
theorem fetch_of_read {memory : Memory} {address : UInt16} {opcode : UInt8}
    {instruction : Instruction} (h : memory.read address = opcode)
    (hdecode : ∀ next after, decode opcode next after = instruction) :
    fetch memory.read address = instruction := by
  subst h
  exact hdecode _ _

theorem fetch_wellFormed (memory : Memory) (pc : UInt16) : (fetch memory.read pc).WellFormed :=
  (reads_decode _ _ _).wellFormed

theorem fetch_spelledBy (memory : Memory) (pc : UInt16) :
    (fetch memory.read pc).SpelledBy (memory.bytesFrom pc (fetch memory.read pc).length) := by
  rw [memory.bytesFrom_eq_take pc (length_mem _).2]
  exact (reads_decode _ _ _).spelledBy

theorem fetch_eq_of_spelledBy {memory : Memory} {pc : UInt16} {instruction : Instruction}
    (hw : instruction.WellFormed)
    (h : instruction.SpelledBy (memory.bytesFrom pc instruction.length)) :
    fetch memory.read pc = instruction := by
  rw [memory.bytesFrom_eq_take pc (length_mem _).2] at h
  exact decode_of_spelledBy hw h

theorem exists_fetch_eq {instruction : Instruction} (hw : instruction.WellFormed) :
    ∃ memory pc, fetch (Memory.read memory) pc = instruction := by
  obtain ⟨opcode, next, after, h⟩ := exists_encode_eq_take instruction
  exact ⟨.holding opcode next after, 0xC000,
    (Memory.fetch_holding _ _ _).trans (decode_of_spelledBy hw (.inl h.symm))⟩

/-- Fetching is a bijection between well-formed instructions and their bytes. Every instruction has
one to three of them. Whatever a memory holds, the instruction read at an address is well-formed and
spelled by the bytes from there on, and a well-formed instruction is read wherever its bytes are, so
that each is read somewhere. Hence nothing but its own bytes decides what is read, and two addresses
where the same is read hold the same bytes, up to the padding of a stop. -/
theorem fetch_bijective :
    (∀ instruction : Instruction, instruction.encode.length = instruction.length ∧
      1 ≤ instruction.length ∧ instruction.length ≤ 3) ∧
    (∀ (memory : Memory) (pc : UInt16),
      let instruction := fetch memory.read pc
      instruction.WellFormed ∧
        instruction.SpelledBy (memory.bytesFrom pc instruction.length)) ∧
    (∀ (memory : Memory) (pc : UInt16) (instruction : Instruction), instruction.WellFormed →
      instruction.SpelledBy (memory.bytesFrom pc instruction.length) →
        fetch memory.read pc = instruction) ∧
    (∀ instruction : Instruction, instruction.WellFormed →
      ∃ memory pc, fetch (Memory.read memory) pc = instruction) ∧
    ∀ (memory other : Memory) (pc place : UInt16),
      let instruction := fetch memory.read pc
      let bytes := memory.bytesFrom pc instruction.length
      (other.bytesFrom place instruction.length = bytes → fetch other.read place = instruction) ∧
        (fetch other.read place = instruction → other.read place = memory.read pc ∧
          (instruction ≠ .stop → other.bytesFrom place instruction.length = bytes)) := by
  refine ⟨fun instruction => ⟨length_encode instruction, length_mem instruction⟩,
    fun memory pc => ⟨fetch_wellFormed memory pc, fetch_spelledBy memory pc⟩,
    fun memory pc instruction => fetch_eq_of_spelledBy,
    fun instruction => exists_fetch_eq, fun memory other pc place => ?_⟩
  intro instruction bytes
  have hbytes : instruction.SpelledBy bytes := fetch_spelledBy memory pc
  constructor
  · intro hsame
    exact fetch_eq_of_spelledBy (fetch_wellFormed memory pc) (hsame ▸ hbytes)
  · intro hfetch
    have hother : instruction.SpelledBy (other.bytesFrom place instruction.length) :=
      hfetch ▸ fetch_spelledBy other place
    have hpositive : 1 ≤ instruction.length := (length_mem instruction).1
    have hhead := hother.head?_eq.trans hbytes.head?_eq.symm
    rw [other.head?_bytesFrom place hpositive, memory.head?_bytesFrom pc hpositive] at hhead
    exact ⟨Option.some.inj hhead, hbytes.eq_of_ne_stop hother⟩

/-- A bit test that begins with the last byte of memory ends with the first one. -/
theorem fetch_bijective_aroundEnd :
    let memory := { Memory.new .blank 48000 with
      cells := (Cells.zero.set 0xFFFF 0xCB).set 0x0000 0x7E }
    (Instruction.bits (.test 7) .atHL).SpelledBy (memory.bytesFrom 0xFFFF 2) ∧
      fetch memory.read 0xFFFF = .bits (.test 7) .atHL := by
  intro memory
  have hlast : memory.read 0xFFFF = 0xCB := by
    show Cells.get _ _ = _
    simp [memory, Cells.get_set]
  have hfirst : memory.read (0xFFFF + 1) = 0x7E := by
    show Cells.get _ _ = _
    simp [memory, Cells.get_set]
  have hspelled : (Instruction.bits (.test 7) .atHL).SpelledBy (memory.bytesFrom 0xFFFF 2) := by
    rw [memory.bytesFrom_eq_take 0xFFFF (by decide), hlast, hfirst]
    exact .inl rfl
  exact ⟨hspelled, fetch_bijective.2.2.1 memory 0xFFFF _ trivial hspelled⟩

end Cpu
end Chiptune
