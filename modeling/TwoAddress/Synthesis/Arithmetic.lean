/-
  TwoAddress.Synthesis.Arithmetic
  ───────────────────────────────
  **ARITHMETIC IN TWO AND THREE OPERANDS.**

  The machine's instructions overwrite their first operand.  §1 gives each
  operation in the shapes the machine has: one register, register with
  immediate, register with register, register with memory.  §2 builds
  `dest = src1 op src2` and `dest = src op imm` from them; the cases turn on
  how `dest` coincides with the sources.
-/
import TwoAddress.Synthesis.Move

namespace TwoAddress

namespace Synthesis

/-! ## §1. Two operands. -/

/-- `op dest`. -/
def unary (op : Operation) (dest : Reg) : Synthesis RecordId :=
  match op with
  | .neg => emit .neg32R [.reg dest]
  | .not => emit .not32R [.reg dest]
  | .indirectCall => emit .callR [.reg dest]
  | _ => unsupported op .reg

/-- The immediate form of an operation, in its one-byte or its long encoding. -/
def immediateOpcode? (op : Operation) (short : Bool) : Option Opcode :=
  match op with
  | .lsl => some .sal32RI
  | .lsr => some .shr32RI
  | .asr => some .sar32RI
  | .add => some (if short then .add32RI8 else .add32RI)
  | .or => some (if short then .or32RI8 else .or32RI)
  | .adc => some (if short then .adc32RI8 else .adc32RI)
  | .and => some (if short then .and32RI8 else .and32RI)
  | .sub => some (if short then .sub32RI8 else .sub32RI)
  | .xor => some (if short then .xor32RI8 else .xor32RI)
  | .cmp => some (if short then .cmp32RI8 else .cmp32RI)
  | _ => none

/-- `dest = src * value`, the one multiplication with a separate destination. -/
def multiplyImm (dest src : Reg) (value : Word) : Synthesis RecordId :=
  emit (if value.fitsByte then .imul32RRI8 else .imul32RRI) [.reg dest, .reg src, .imm value]

/-- `dest op= value`. -/
def binaryImm (op : Operation) (dest : Reg) (value : Word) : Synthesis RecordId := do
  require (!dest.isXmm) (.immediateIntoXmm dest)
  match op with
  | .mov => constant dest value
  | .mul => multiplyImm dest dest value
  | _ =>
      match immediateOpcode? op value.fitsByte with
      | some opcode => emit opcode [.reg dest, .imm value]
      | none => unsupported op .regImm

/-- The register form of an operation that needs nothing but its operands. -/
def registerOpcode? : Operation → Option Opcode
  | .mov => some .mov32RR
  | .add => some .add32RR
  | .adc => some .adc32RR
  | .sub => some .sub32RR
  | .sbc => some .sbb32RR
  | .and => some .and32RR
  | .or => some .or32RR
  | .xor => some .xor32RR
  | .cmp => some .cmp32RR
  | .mul => some .imul32RR
  | .widenShort => some .movsx16RR
  | .widenChar => some .movzx16RR
  | _ => none

/-- The form of a shift whose distance is in the counter. -/
def shiftOpcode? : Operation → Option Opcode
  | .lsl => some .sal32RC
  | .lsr => some .shr32RC
  | .asr => some .sar32RC
  | .ror => some .ror32RC
  | _ => none

/-- `dest` becomes the sign-extended low byte of `src`.  A register whose low
byte cannot be named is copied, and the copy shifted up and down again. -/
def widenByte (dest src : Reg) : Synthesis RecordId :=
  if src.byteAddressable then emit .movsx8RR [.reg dest, .reg src]
  else do
    let _ ← emit .mov32RR [.reg dest, .reg src]
    let _ ← emit .sal32RI [.reg dest, .imm 24]
    emit .sar32RI [.reg dest, .imm 24]

/-- `dest op= src`.  Shift distances must be in the counter. -/
def binary (op : Operation) (dest src : Reg) : Synthesis RecordId :=
  match op with
  | .not | .neg => do
      let _ ← copy dest src
      unary op dest
  | .widenByte => widenByte dest src
  | _ =>
      match shiftOpcode? op with
      | some opcode =>
          if src = .counter then emit opcode [.reg dest, .reg src]
          else fail (.violation (.registerClass src.text "a shift count"))
      | none =>
          match registerOpcode? op with
          | some opcode => emit opcode [.reg dest, .reg src]
          | none => unsupported op .regReg

/-- The form of an operation whose second operand is in memory. -/
def memoryOpcode? : Operation → Option Opcode
  | .mov => some .mov32RM
  | .add => some .add32RM
  | .sub => some .sub32RM
  | .and => some .and32RM
  | .or => some .or32RM
  | .xor => some .xor32RM
  | .cmp => some .cmp32RM
  | .widenByte => some .movsx8RM
  | .widenShort => some .movsx16RM
  | .widenChar => some .movzx16RM
  | _ => none

/-- `dest op= [base + disp]`. -/
def binaryMem (op : Operation) (dest base : Reg) (disp : Word) : Synthesis RecordId :=
  match memoryOpcode? op with
  | some opcode => emit opcode [.reg dest, .reg base, .imm disp]
  | none => unsupported op .regMem

/-! ## §2. Three operands. -/

/-- `dest = base + index + disp` without touching the flags. -/
def lea (dest base index : Reg) (disp : Word) : Synthesis RecordId :=
  emit .lea32RA [.reg dest, .reg base, .reg index, .imm 0, .imm disp]

/-- `dest = src1 + src2` where `dest` is neither source.  `ebp` cannot be the
base of an address without a displacement, so it goes to the index. -/
def addApart (dest src1 src2 : Reg) : Synthesis RecordId :=
  if src1 = src2 then do
    remark (.addAsShift dest src1)
    let _ ← copy dest src1
    binaryImm .lsl dest 1
  else do
    remark (.addAsLea dest src1 src2)
    if src1 = .gp .ebp then lea dest src2 src1 0 else lea dest src1 src2 0

/-- `dest = src1 op dest` by way of a scratch register.  Returns the copy back
into `dest`. -/
def throughScratch (op : Operation) (dest src1 src2 : Reg) : Synthesis RecordId := do
  let operands := [dest, src1, src2]
  let scratch ← borrowScratch operands
  require (!operands.contains scratch) (.scratchAliases scratch)
  remark (.throughScratch dest src1 op scratch)
  let _ ← copy scratch src1
  let _ ← binary op scratch src2
  let id ← copy dest scratch
  releaseScratch scratch
  return id

/-- `dest = src1 op src2` where `dest` is the second source and not the first. -/
def intoSecond (op : Operation) (dest src1 src2 : Reg) : Synthesis RecordId :=
  if op.isCommutative then binary op dest src1
  else
    match op with
    | .sub => do
        remark (.subAsNegate dest src1)
        let _ ← unary .neg dest
        binary .add dest src1
    | .sbc | .lsl | .lsr | .asr | .ror => throughScratch op dest src1 src2
    | _ => unsupported op .regRegReg

/-- `dest = src1 op src2`. -/
def ternary (op : Operation) (dest src1 src2 : Reg) : Synthesis RecordId :=
  if dest = src1 then binary op dest src2
  else if dest = src2 then intoSecond op dest src1 src2
  else if op = .add then addApart dest src1 src2
  else do
    let _ ← copy dest src1
    binary op dest src2

/-- `dest = src op value` by copying first. -/
def copyThenImm (op : Operation) (dest src : Reg) (value : Word) : Synthesis RecordId :=
  if dest = src then binaryImm op dest value
  else do
    let _ ← copy dest src
    binaryImm op dest value

/-- `dest = src op value`.  Multiplication has its own form, the two common
masks are zero extensions, and addition into another register is an address
computation. -/
def ternaryImm (op : Operation) (dest src : Reg) (value : Word) : Synthesis RecordId :=
  match op with
  | .mul => multiplyImm dest src value
  | .and =>
      if value = 0xFF ∧ src.byteAddressable then do
        remark (.maskAsMovzx8 dest src)
        emit .movzx8RR [.reg dest, .reg src]
      else if value = 0xFFFF then do
        remark (.maskAsMovzx16 dest src)
        emit .movzx16RR [.reg dest, .reg src]
      else copyThenImm op dest src value
  | .add =>
      if dest = src then binaryImm op dest value
      else do
        remark (.addImmAsLea dest src value)
        lea dest src .absent value
  | _ => copyThenImm op dest src value

end Synthesis

end TwoAddress
