/-
  TwoAddress.Synthesis.Move
  ─────────────────────────
  **COPIES AND CONSTANTS.**

  Getting a value into a register.  A copy picks the move that joins the two
  register classes; a self-copy keeps its place in the stream and is inert.
  A constant is one instruction in a general-purpose register.  An xmm
  register has no immediate move: zero is made in place, and any other value
  travels through a scratch register.
-/
import TwoAddress.Synthesis

namespace TwoAddress

namespace Synthesis

/-! ## §1. Copies. -/

/-- The move from `src` to `dest`, if both are registers. -/
def moveOpcode? : (dest src : Reg) → Option Opcode
  | .absent, _ => none
  | _, .absent => none
  | .xmm ⟨_, .double⟩, _ => some .movsdRR
  | .xmm _, .xmm _ => some .movssRR
  | .xmm _, .gp _ => some .movdxrRR
  | .gp _, .xmm _ => some .movdrxRR
  | .gp _, .gp _ => some .mov32RR

/-- The copy `dest ← src` as an instruction of its own.  Both registers are
doubles or neither is. -/
def copyInstruction (dest src : Reg) : Except Fault Instruction :=
  if dest.isDouble != src.isDouble then
    .error (.mixedCopy dest src)
  else
    match moveOpcode? dest src with
    | some op =>
        .ok { opcode := op, operands := [.reg dest, .reg src], inert := dest == src }
    | none =>
        .error (.violation (.registerClass (dest.text ++ " <- " ++ src.text) "a copy operand"))

/-- `dest ← src`. -/
def copy (dest src : Reg) : Synthesis RecordId := do
  let i ← ofExcept (copyInstruction dest src)
  append i done

/-! ## §2. Constants. -/

/-- Every 32-bit constant is a single instruction, so none is worth keeping
in memory. -/
def isCheapConstant (_dest : Reg) (_value : Word) : Bool := true

/-- A constant into a general-purpose register. -/
def gpConstant (dest : Reg) (value : Word) : Synthesis RecordId :=
  if value = 0 then emit .xor32RR [.reg dest, .reg dest]
  else emit .mov32RI [.reg dest, .imm value]

/-- Zero into an xmm register. -/
def clearXmm (dest : Reg) : Synthesis RecordId :=
  emit .xorpsRR [.reg dest, .reg dest]

/-- A 32-bit constant into any register.  Returns the record that produced the
value. -/
def constant (dest : Reg) (value : Word) : Synthesis RecordId :=
  if dest.isXmm then
    if value = 0 then clearXmm dest
    else do
      require dest.isSingle (.constantInDouble dest)
      let scratch ← borrowScratch [dest]
      let id ← gpConstant scratch value
      let _ ← emit .movdxrRR [.reg dest, .reg scratch]
      releaseScratch scratch
      return id
  else gpConstant dest value

/-- A 64-bit constant into two registers.  In xmm registers the whole value
is assembled in the first one.  Returns the first record. -/
def constantPair (lo hi : Reg) (valueLo valueHi : Word) : Synthesis RecordId :=
  if lo.isXmm then do
    require hi.isXmm (.wideHighHalf hi)
    let id ← if valueLo = 0 then clearXmm lo else constant lo valueLo
    if valueHi ≠ 0 then
      let _ ← constant hi valueHi
      let _ ← emit .psllqRI [.reg hi, .imm 32]
      let _ ← emit .orpsRR [.reg lo, .reg hi]
    return id
  else do
    let id ← constant lo valueLo
    let _ ← constant hi valueHi
    return id

end Synthesis

end TwoAddress
