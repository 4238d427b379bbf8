/-
  TwoAddress.Synthesis.Control
  ────────────────────────────
  **CALLS AND JUMPS.**

  Indirect calls through memory and through the thread block, and short
  jumps.  A jump's displacement is left zero; what it jumps to is the target
  of its record, which may be attached later.
-/
import TwoAddress.Condition
import TwoAddress.Synthesis

namespace TwoAddress

namespace Synthesis

/-! ## §1. Calls. -/

/-- Call through `[base + disp]`. -/
def callMem (op : Operation) (base : Reg) (disp : Word) : Synthesis RecordId :=
  match op with
  | .indirectCall => emit .callM [.reg base, .imm disp]
  | _ => unsupported op .mem

/-- Call through an entry of the thread block. -/
def callThread (op : Operation) (offset : Word) : Synthesis RecordId :=
  match op with
  | .indirectCall => emit .callT [.imm offset]
  | _ => unsupported op .threadMem

/-! ## §2. Jumps. -/

/-- The jump field of a condition. -/
def conditionField (cond : Condition) : Except Fault CcField :=
  match cond.field? with
  | some field => .ok field
  | none => .error (.violation (.unencodable cond.name))

/-- Jump to a target, if it is known yet. -/
def jump (target : Option RecordId) : Synthesis RecordId := do
  let id ← emit .jmp8 [.imm 0]
  attachTarget id target
  return id

/-- Jump under a condition. -/
def jumpIf (cond : Condition) (target : Option RecordId) : Synthesis RecordId := do
  let field ← ofExcept (conditionField cond)
  let id ← emit .jcc8 [.imm 0, .imm (BitVec.ofNat 32 field.encoding.val)]
  attachTarget id target
  return id

end Synthesis

end TwoAddress
