/-
  TwoAddress.Operation
  ────────────────────
  **SOURCE OPERATIONS AND REQUEST SHAPES.**

  The operations a request may ask for, and the shapes (which operands stand
  where) in which it may ask.  Not every operation exists in every shape; the
  synthesizers refuse the pairs that do not.
-/

namespace TwoAddress

/-! ## §1. Operations. -/

/-- A machine-independent operation. -/
inductive Operation where
  | add | sub | adc | sbc | and | or | xor | mul
  | lsl | lsr | asr | ror
  | mov | cmp | neg | not
  | widenByte | widenShort | widenChar
  | indirectCall
  deriving DecidableEq, Repr

namespace Operation

/-- Every operation. -/
def all : List Operation :=
  [add, sub, adc, sbc, and, or, xor, mul, lsl, lsr, asr, ror, mov, cmp, neg, not,
   widenByte, widenShort, widenChar, indirectCall]

/-- The name under which diagnostics report the operation. -/
def name : Operation → String
  | add => "Add" | sub => "Sub" | adc => "Adc" | sbc => "Sbc"
  | and => "And" | or => "Or" | xor => "Xor" | mul => "Mul"
  | lsl => "Lsl" | lsr => "Lsr" | asr => "Asr" | ror => "Ror"
  | mov => "Mov" | cmp => "Cmp" | neg => "Neg" | not => "Not"
  | widenByte => "WidenByte" | widenShort => "WidenShort" | widenChar => "WidenChar"
  | indirectCall => "IndirectCall"

/-- The operation with a given name. -/
def ofName? (s : String) : Option Operation := all.find? fun op => op.name == s

/-- Operand order may be exchanged in the two-operand form. -/
def isCommutative : Operation → Bool
  | add | or | adc | and | xor => true
  | _ => false

end Operation

/-! ## §2. Shapes. -/

/-- Which operands a request supplies. -/
inductive Shape where
  | reg | regImm | regReg | regMem | regRegReg | regRegImm | mem | threadMem
  deriving DecidableEq, Repr

namespace Shape

/-- Every shape. -/
def all : List Shape :=
  [reg, regImm, regReg, regMem, regRegReg, regRegImm, mem, threadMem]

/-- The shape's name. -/
def name : Shape → String
  | reg => "Reg" | regImm => "RegImm" | regReg => "RegReg" | regMem => "RegMem"
  | regRegReg => "RegRegReg" | regRegImm => "RegRegImm"
  | mem => "Mem" | threadMem => "ThreadMem"

end Shape

end TwoAddress
