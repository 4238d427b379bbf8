/-
  TwoAddress.Instruction
  ──────────────────────
  **INSTRUCTIONS AND RECORDS.**

  An instruction is an opcode with its operands, a flag that makes it inert,
  and (for branches) a target.  A record is an instruction attributed to the
  bytecode offset it was generated for.  Records live in a stream and are
  referred to by position.
-/
import TwoAddress.Fault

namespace TwoAddress

/-! ## §1. Operands. -/

/-- One operand of an instruction. -/
inductive Operand where
  | none
  | reg (r : Reg)
  | imm (v : Word)
  deriving DecidableEq, Repr

namespace Operand

/-- The register an operand carries; absent if it carries none. -/
def asReg : Operand → Reg
  | reg r => r
  | _ => .absent

/-- The immediate an operand carries; zero if it carries none. -/
def asImm : Operand → Word
  | imm v => v
  | _ => 0

end Operand

/-! ## §2. Instructions. -/

/-- No instruction has more operands than this. -/
def maxOperands : Nat := 5

/-- An instruction.  An inert one keeps its place in the stream and does
nothing. -/
structure Instruction where
  opcode : Opcode
  operands : List Operand
  inert : Bool := false
  target : Option RecordId := .none
  deriving DecidableEq, Repr

namespace Instruction

/-- An instruction whose operand count is checked against its opcode. -/
def build (op : Opcode) (operands : List Operand) : Except Fault Instruction :=
  if operands.length = op.arity then
    .ok { opcode := op, operands }
  else
    .error (.operandCount op operands.length)

/-- The operand in a slot; slots past the last operand are empty. -/
def slot (i : Instruction) (n : Nat) : Operand := i.operands.getD n .none

/-- All five slots. -/
def slots (i : Instruction) : List Operand := (List.range maxOperands).map i.slot

/-- The register in a slot. -/
def regAt (i : Instruction) (n : Nat) : Reg := (i.slot n).asReg

/-- The immediate in a slot. -/
def immAt (i : Instruction) (n : Nat) : Word := (i.slot n).asImm

end Instruction

/-! ## §3. Records. -/

/-- An instruction in a stream, with the bytecode offset it stands for. -/
structure Record extends Instruction where
  offset : UInt32
  deriving DecidableEq, Repr

/-- What a stack-relative access does to a frame slot. -/
structure SlotAccess where
  /-- The slot, counted in 32-bit units from the stack pointer. -/
  slot : Word
  isLoad : Bool
  isWide : Bool
  deriving DecidableEq, Repr

end TwoAddress
