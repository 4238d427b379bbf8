/-
  TwoAddress.Instruction.Text
  ───────────────────────────
  **LISTINGS.**

  The text of an instruction: mnemonic, operands in the order of the form,
  memory operands in brackets, and a mark on inert instructions.  A register
  slot that holds no register shows as absent, an immediate slot that holds
  no immediate as zero.  Rendering fails in one case only: the factor of an
  index is a signed 32-bit number, and a scale outside `0 … 31` has none.
-/
import TwoAddress.Condition
import TwoAddress.Instruction

namespace TwoAddress

namespace Instruction

/-! ## §1. Memory operands. -/

/-- The factor `2^scale` as a signed 32-bit number. -/
def factorText (scale : Word) : Except Fault String :=
  if scale.toNat < 32 then
    .ok (Word.decimalText (1#32 <<< scale.toNat))
  else
    .error .shiftRange

/-- A memory operand without an index. -/
def plainText (base : Reg) (disp : Word) : String :=
  "[" ++ base.text ++ disp.signedText ++ "]"

/-- A memory operand of array form; an absent base or index is left out. -/
def arrayText (base index : Reg) (scale disp : Word) : Except Fault String :=
  if index.isAbsent then
    .ok (plainText base disp)
  else do
    let factor ← factorText scale
    let head := if base.isAbsent then "" else base.text ++ "+"
    return "[" ++ head ++ index.text ++ "*" ++ factor ++ disp.signedText ++ "]"

/-! ## §2. Instructions. -/

/-- The mnemonic; a conditional jump shows its condition, and `jne` when its
condition number names none. -/
def mnemonic (i : Instruction) : Mnemonic :=
  match i.opcode with
  | .jcc8 => ((CcField.ofEncoding? (i.immAt 1)).map CcField.mnemonic).getD i.opcode.info.mnemonic
  | op => op.info.mnemonic

/-- Where a branch goes. -/
def targetText : Option RecordId → String
  | some id => id.label
  | .none => "<unresolved>"

/-- The operands, in the order of the form. -/
def operandText (i : Instruction) : Except Fault String :=
  match i.opcode.form with
  | .r => .ok (i.regAt 0).text
  | .rr => .ok ((i.regAt 0).text ++ ", " ++ (i.regAt 1).text)
  | .ri => .ok ((i.regAt 0).text ++ ", " ++ (i.immAt 1).hexText)
  | .rri =>
      .ok ((i.regAt 0).text ++ ", " ++ (i.regAt 1).text ++ ", " ++ (i.immAt 2).hexText)
  | .rm => .ok ((i.regAt 0).text ++ ", " ++ plainText (i.regAt 1) (i.immAt 2))
  | .ra => do
      let mem ← arrayText (i.regAt 1) (i.regAt 2) (i.immAt 3) (i.immAt 4)
      return (i.regAt 0).text ++ ", " ++ mem
  | .mr => .ok (plainText (i.regAt 0) (i.immAt 1) ++ ", " ++ (i.regAt 2).text)
  | .ar => do
      let mem ← arrayText (i.regAt 0) (i.regAt 1) (i.immAt 2) (i.immAt 3)
      return mem ++ ", " ++ (i.regAt 4).text
  | .m => .ok (plainText (i.regAt 0) (i.immAt 1))
  | .t => .ok ("fs:[" ++ (i.immAt 0).hexText ++ "]")
  | .jump | .condJump => .ok (targetText i.target)

/-- The line a listing shows for an instruction. -/
def render (i : Instruction) : Except Fault String := do
  let operands ← i.operandText
  return i.mnemonic.text ++ " " ++ operands ++ (if i.inert then "  ; nop" else "")

end Instruction

end TwoAddress
