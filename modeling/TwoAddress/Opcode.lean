/-
  TwoAddress.Opcode
  ─────────────────
  **THE OPCODE TABLE.**

  An opcode names an instruction together with the operand form it is encoded
  in.  The table gives each opcode its mnemonic, its form (from which the
  number of operands follows) and what it does to memory, condition flags and
  its destination.
-/
import TwoAddress.Opcode.Mnemonic

namespace TwoAddress

/-! ## §1. Operand forms. -/

/-- How the operands of an instruction are laid out. -/
inductive Form where
  /-- One register. -/
  | r
  /-- Destination, source. -/
  | rr
  /-- Destination, immediate. -/
  | ri
  /-- Destination, source, immediate. -/
  | rri
  /-- Destination, base, displacement. -/
  | rm
  /-- Destination, base, index, scale, displacement. -/
  | ra
  /-- Base, displacement, source. -/
  | mr
  /-- Base, index, scale, displacement, source. -/
  | ar
  /-- Base, displacement. -/
  | m
  /-- An offset into the thread block. -/
  | t
  /-- A jump displacement. -/
  | jump
  /-- A jump displacement and a condition number. -/
  | condJump
  deriving DecidableEq, Repr

namespace Form

/-- How many operands an instruction of this form has. -/
def arity : Form → Nat
  | r | t | jump => 1
  | rr | ri | m | condJump => 2
  | rri | rm | mr => 3
  | ra | ar => 5

/-- The form's short name. -/
def name : Form → String
  | r => "R" | rr => "RR" | ri => "RI" | rri => "RRI"
  | rm => "RM" | ra => "RA" | mr => "MR" | ar => "AR"
  | m => "M" | t => "T" | jump => "Jump" | condJump => "CondJump"

end Form

/-! ## §2. Effects. -/

/-- What an instruction does besides naming its operands. -/
structure Effects where
  /-- It reads data memory. -/
  isLoad : Bool := false
  /-- It writes data memory. -/
  isStore : Bool := false
  /-- It sets the condition flags. -/
  setsFlags : Bool := false
  /-- It reads the condition flags. -/
  usesFlags : Bool := false
  /-- It transfers control. -/
  isBranch : Bool := false
  /-- Its destination is also its first source. -/
  updatesDest : Bool := false
  /-- It reads the shift counter. -/
  usesCounter : Bool := false
  deriving DecidableEq, Repr

namespace Effects

/-- The effects as a bit mask, in the order of the fields. -/
def bits (e : Effects) : Nat :=
  e.isLoad.toNat + 2 * e.isStore.toNat + 4 * e.setsFlags.toNat + 8 * e.usesFlags.toNat +
    16 * e.isBranch.toNat + 32 * e.updatesDest.toNat + 64 * e.usesCounter.toNat

/-- No effect worth noting. -/
def none : Effects := {}

/-- Reads memory. -/
def load : Effects := { isLoad := true }

/-- Writes memory. -/
def store : Effects := { isStore := true }

/-- Sets the flags and nothing else. -/
def compare : Effects := { setsFlags := true }

/-- Sets the flags from a memory operand. -/
def compareLoad : Effects := { setsFlags := true, isLoad := true }

/-- Computes its destination from its old value, flags untouched. -/
def update : Effects := { updatesDest := true }

/-- Computes its destination from its old value and sets the flags. -/
def alu : Effects := { updatesDest := true, setsFlags := true }

/-- As `alu`, with the carry as a further input. -/
def aluCarry : Effects := { alu with usesFlags := true }

/-- As `alu`, with a memory operand. -/
def aluLoad : Effects := { alu with isLoad := true }

/-- As `alu`, with the counter as a further input. -/
def shiftByCount : Effects := { alu with usesCounter := true }

/-- Transfers control. -/
def branch : Effects := { isBranch := true }

/-- Transfers control to an address read from memory. -/
def callThrough : Effects := { isBranch := true, isLoad := true }

/-- Transfers control if the flags say so. -/
def conditional : Effects := { isBranch := true, usesFlags := true }

end Effects

/-! ## §3. Opcodes. -/

/-- The opcodes that instruction selection emits. -/
inductive Opcode where
  -- Unary forms and calls.
  | neg32R | not32R | callR | callM | callT
  -- Register and immediate.
  | mov32RI | add32RI | add32RI8 | or32RI | or32RI8 | adc32RI | adc32RI8
  | and32RI | and32RI8 | sub32RI | sub32RI8 | xor32RI | xor32RI8 | cmp32RI
  | cmp32RI8 | sal32RI | shr32RI | sar32RI | imul32RRI | imul32RRI8
  -- Register and register.
  | mov32RR | add32RR | adc32RR | sub32RR | sbb32RR | and32RR | or32RR
  | xor32RR | cmp32RR | imul32RR | sal32RC | shr32RC | sar32RC | ror32RC
  | movsx8RR | movzx8RR | movsx16RR | movzx16RR
  -- Register and memory operand.
  | add32RM | sub32RM | and32RM | or32RM | xor32RM | cmp32RM
  -- Address computation.
  | lea32RA
  -- Loads.
  | mov32RM | mov32RA | movsx8RM | movsx8RA | movzx8RM | movzx8RA | movsx16RM
  | movsx16RA | movzx16RM | movzx16RA | movssRM | movssRA | movsdRM | movsdRA
  -- Stores.
  | mov32MR | mov32AR | mov16MR | mov16AR | mov8MR | mov8AR | movssMR
  | movssAR | movsdMR | movsdAR
  -- Floating-point register forms.
  | movssRR | movsdRR | movdxrRR | movdrxRR | xorpsRR | orpsRR | psllqRI
  -- Branches.
  | jmp8 | jcc8
  deriving DecidableEq, Repr

namespace Opcode

/-- A row of the opcode table. -/
structure Info where
  name : String
  mnemonic : Mnemonic
  form : Form
  effects : Effects
  deriving DecidableEq, Repr

/-- The opcode table. -/
def info : Opcode → Info
  | neg32R => ⟨"Neg32R", .neg, .r, .alu⟩
  | not32R => ⟨"Not32R", .not, .r, .update⟩
  | callR => ⟨"CallR", .call, .r, .branch⟩
  | callM => ⟨"CallM", .call, .m, .callThrough⟩
  | callT => ⟨"CallT", .call, .t, .callThrough⟩
  | mov32RI => ⟨"Mov32RI", .mov, .ri, .none⟩
  | add32RI => ⟨"Add32RI", .add, .ri, .alu⟩
  | add32RI8 => ⟨"Add32RI8", .add, .ri, .alu⟩
  | or32RI => ⟨"Or32RI", .or, .ri, .alu⟩
  | or32RI8 => ⟨"Or32RI8", .or, .ri, .alu⟩
  | adc32RI => ⟨"Adc32RI", .adc, .ri, .aluCarry⟩
  | adc32RI8 => ⟨"Adc32RI8", .adc, .ri, .aluCarry⟩
  | and32RI => ⟨"And32RI", .and, .ri, .alu⟩
  | and32RI8 => ⟨"And32RI8", .and, .ri, .alu⟩
  | sub32RI => ⟨"Sub32RI", .sub, .ri, .alu⟩
  | sub32RI8 => ⟨"Sub32RI8", .sub, .ri, .alu⟩
  | xor32RI => ⟨"Xor32RI", .xor, .ri, .alu⟩
  | xor32RI8 => ⟨"Xor32RI8", .xor, .ri, .alu⟩
  | cmp32RI => ⟨"Cmp32RI", .cmp, .ri, .compare⟩
  | cmp32RI8 => ⟨"Cmp32RI8", .cmp, .ri, .compare⟩
  | sal32RI => ⟨"Sal32RI", .sal, .ri, .alu⟩
  | shr32RI => ⟨"Shr32RI", .shr, .ri, .alu⟩
  | sar32RI => ⟨"Sar32RI", .sar, .ri, .alu⟩
  | imul32RRI => ⟨"Imul32RRI", .imul, .rri, .compare⟩
  | imul32RRI8 => ⟨"Imul32RRI8", .imul, .rri, .compare⟩
  | mov32RR => ⟨"Mov32RR", .mov, .rr, .none⟩
  | add32RR => ⟨"Add32RR", .add, .rr, .alu⟩
  | adc32RR => ⟨"Adc32RR", .adc, .rr, .aluCarry⟩
  | sub32RR => ⟨"Sub32RR", .sub, .rr, .alu⟩
  | sbb32RR => ⟨"Sbb32RR", .sbb, .rr, .aluCarry⟩
  | and32RR => ⟨"And32RR", .and, .rr, .alu⟩
  | or32RR => ⟨"Or32RR", .or, .rr, .alu⟩
  | xor32RR => ⟨"Xor32RR", .xor, .rr, .alu⟩
  | cmp32RR => ⟨"Cmp32RR", .cmp, .rr, .compare⟩
  | imul32RR => ⟨"Imul32RR", .imul, .rr, .alu⟩
  | sal32RC => ⟨"Sal32RC", .sal, .rr, .shiftByCount⟩
  | shr32RC => ⟨"Shr32RC", .shr, .rr, .shiftByCount⟩
  | sar32RC => ⟨"Sar32RC", .sar, .rr, .shiftByCount⟩
  | ror32RC => ⟨"Ror32RC", .ror, .rr, .shiftByCount⟩
  | movsx8RR => ⟨"Movsx8RR", .movsx, .rr, .none⟩
  | movzx8RR => ⟨"Movzx8RR", .movzx, .rr, .none⟩
  | movsx16RR => ⟨"Movsx16RR", .movsx, .rr, .none⟩
  | movzx16RR => ⟨"Movzx16RR", .movzx, .rr, .none⟩
  | add32RM => ⟨"Add32RM", .add, .rm, .aluLoad⟩
  | sub32RM => ⟨"Sub32RM", .sub, .rm, .aluLoad⟩
  | and32RM => ⟨"And32RM", .and, .rm, .aluLoad⟩
  | or32RM => ⟨"Or32RM", .or, .rm, .aluLoad⟩
  | xor32RM => ⟨"Xor32RM", .xor, .rm, .aluLoad⟩
  | cmp32RM => ⟨"Cmp32RM", .cmp, .rm, .compareLoad⟩
  | lea32RA => ⟨"Lea32RA", .lea, .ra, .none⟩
  | mov32RM => ⟨"Mov32RM", .mov, .rm, .load⟩
  | mov32RA => ⟨"Mov32RA", .mov, .ra, .load⟩
  | movsx8RM => ⟨"Movsx8RM", .movsx, .rm, .load⟩
  | movsx8RA => ⟨"Movsx8RA", .movsx, .ra, .load⟩
  | movzx8RM => ⟨"Movzx8RM", .movzx, .rm, .load⟩
  | movzx8RA => ⟨"Movzx8RA", .movzx, .ra, .load⟩
  | movsx16RM => ⟨"Movsx16RM", .movsx, .rm, .load⟩
  | movsx16RA => ⟨"Movsx16RA", .movsx, .ra, .load⟩
  | movzx16RM => ⟨"Movzx16RM", .movzx, .rm, .load⟩
  | movzx16RA => ⟨"Movzx16RA", .movzx, .ra, .load⟩
  | movssRM => ⟨"MovssRM", .movss, .rm, .load⟩
  | movssRA => ⟨"MovssRA", .movss, .ra, .load⟩
  | movsdRM => ⟨"MovsdRM", .movsd, .rm, .load⟩
  | movsdRA => ⟨"MovsdRA", .movsd, .ra, .load⟩
  | mov32MR => ⟨"Mov32MR", .mov, .mr, .store⟩
  | mov32AR => ⟨"Mov32AR", .mov, .ar, .store⟩
  | mov16MR => ⟨"Mov16MR", .mov, .mr, .store⟩
  | mov16AR => ⟨"Mov16AR", .mov, .ar, .store⟩
  | mov8MR => ⟨"Mov8MR", .mov, .mr, .store⟩
  | mov8AR => ⟨"Mov8AR", .mov, .ar, .store⟩
  | movssMR => ⟨"MovssMR", .movss, .mr, .store⟩
  | movssAR => ⟨"MovssAR", .movss, .ar, .store⟩
  | movsdMR => ⟨"MovsdMR", .movsd, .mr, .store⟩
  | movsdAR => ⟨"MovsdAR", .movsd, .ar, .store⟩
  | movssRR => ⟨"MovssRR", .movss, .rr, .none⟩
  | movsdRR => ⟨"MovsdRR", .movsd, .rr, .none⟩
  | movdxrRR => ⟨"MovdxrRR", .movd, .rr, .none⟩
  | movdrxRR => ⟨"MovdrxRR", .movd, .rr, .none⟩
  | xorpsRR => ⟨"XorpsRR", .xorps, .rr, .update⟩
  | orpsRR => ⟨"OrpsRR", .orps, .rr, .update⟩
  | psllqRI => ⟨"PsllqRI", .psllq, .ri, .update⟩
  | jmp8 => ⟨"Jmp8", .jmp, .jump, .branch⟩
  | jcc8 => ⟨"Jcc8", .jne, .condJump, .conditional⟩

/-- The name under which the opcode is counted and reported. -/
def name (op : Opcode) : String := op.info.name

/-- The layout of its operands. -/
def form (op : Opcode) : Form := op.info.form

/-- Its effects. -/
def effects (op : Opcode) : Effects := op.info.effects

/-- How many operands it takes. -/
def arity (op : Opcode) : Nat := op.form.arity

/-- It takes exactly two operands. -/
def isBinary (op : Opcode) : Bool := op.arity == 2

/-- It transfers control, so a target can be attached to it. -/
def isBranch (op : Opcode) : Bool := op.effects.isBranch

/-- Every opcode, in table order. -/
def all : List Opcode :=
  [neg32R, not32R, callR, callM, callT, mov32RI, add32RI, add32RI8, or32RI, or32RI8,
   adc32RI, adc32RI8, and32RI, and32RI8, sub32RI, sub32RI8, xor32RI, xor32RI8, cmp32RI,
   cmp32RI8, sal32RI, shr32RI, sar32RI, imul32RRI, imul32RRI8, mov32RR, add32RR, adc32RR,
   sub32RR, sbb32RR, and32RR, or32RR, xor32RR, cmp32RR, imul32RR, sal32RC, shr32RC,
   sar32RC, ror32RC, movsx8RR, movzx8RR, movsx16RR, movzx16RR, add32RM, sub32RM, and32RM,
   or32RM, xor32RM, cmp32RM, lea32RA, mov32RM, mov32RA, movsx8RM, movsx8RA, movzx8RM,
   movzx8RA, movsx16RM, movsx16RA, movzx16RM, movzx16RA, movssRM, movssRA, movsdRM,
   movsdRA, mov32MR, mov32AR, mov16MR, mov16AR, mov8MR, mov8AR, movssMR, movssAR,
   movsdMR, movsdAR, movssRR, movsdRR, movdxrRR, movdrxRR, xorpsRR, orpsRR, psllqRI,
   jmp8, jcc8]

/-- The opcode with a given table name. -/
def ofName? (s : String) : Option Opcode := all.find? fun op => op.name == s

end Opcode

end TwoAddress
