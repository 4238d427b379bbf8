/-
  TwoAddress.Machine.Action
  ─────────────────────────
  **WHAT EACH OPCODE DOES.**

  The opcodes fall into a handful of actions, most of them parameterised by
  an arithmetic function, an extension or a lane width.  `Opcode.action` is
  the table; `Arith.apply` and `Extension.apply` are the functions on values.
-/
import TwoAddress.Opcode
import TwoAddress.Word

namespace TwoAddress

/-! ## §1. Arithmetic. -/

/-- A two-operand function on words. -/
inductive Arith where
  | mov | add | adc | sub | sbb | cmp
  | and | or | xor | imul
  | sal | shr | sar | ror
  deriving DecidableEq, Repr

namespace Arith

/-- The value written back (a comparison writes none) and the carry left
behind, from the carry found and the two operands.  Shift distances count
modulo 32. -/
def apply (op : Arith) (carry : Bool) (a b : Word) : Option Word × Bool :=
  match op with
  | mov => (some b, carry)
  | add => (some (a + b), decide (0x100000000 ≤ a.toNat + b.toNat))
  | adc =>
      (some (a + b + BitVec.ofNat 32 carry.toNat),
        decide (0x100000000 ≤ a.toNat + b.toNat + carry.toNat))
  | sub => (some (a - b), decide (a.toNat < b.toNat))
  | sbb =>
      (some (a - (b + BitVec.ofNat 32 carry.toNat)),
        decide (a.toNat < b.toNat + carry.toNat))
  | cmp => (none, decide (a.toNat < b.toNat))
  | and => (some (a &&& b), false)
  | or => (some (a ||| b), false)
  | xor => (some (a ^^^ b), false)
  | imul => (some (a * b), false)
  | sal => (some (a <<< (b.toNat % 32)), false)
  | shr => (some (a >>> (b.toNat % 32)), false)
  | sar => (some (a.sshiftRight (b.toNat % 32)), false)
  | ror => (some (a.rotateRight (b.toNat % 32)), false)

end Arith

/-- Where the second operand of an arithmetic action comes from. -/
inductive Source where
  | immediate | register | memory | counter
  deriving DecidableEq, Repr

/-! ## §2. Extensions and lanes. -/

/-- How a narrow value fills a word. -/
inductive Extension where
  | whole | signedByte | unsignedByte | signedHalf | unsignedHalf
  deriving DecidableEq, Repr

namespace Extension

/-- Number of bytes that count. -/
def bytes : Extension → Nat
  | whole => 4
  | signedHalf | unsignedHalf => 2
  | signedByte | unsignedByte => 1

/-- Keep the bytes that count and fill the rest. -/
def apply (e : Extension) (v : Word) : Word :=
  match e with
  | whole => v
  | signedByte => (v.setWidth 8).signExtend 32
  | unsignedByte => (v.setWidth 8).setWidth 32
  | signedHalf => (v.setWidth 16).signExtend 32
  | unsignedHalf => (v.setWidth 16).setWidth 32

end Extension

/-- The part of an xmm register that a scalar move touches. -/
inductive Lane where
  | low32 | low64
  deriving DecidableEq, Repr

namespace Lane

/-- Number of bytes in the lane. -/
def bytes : Lane → Nat
  | low32 => 4
  | low64 => 8

/-- The bits of the lane. -/
def mask : Lane → BitVec 128
  | low32 => 0xFFFFFFFF
  | low64 => 0xFFFFFFFFFFFFFFFF

/-- `dst` with its lane taken from `src`. -/
def merge (l : Lane) (dst src : BitVec 128) : BitVec 128 :=
  (dst &&& ~~~ l.mask) ||| (src &&& l.mask)

end Lane

/-- Shift both 64-bit halves left; a distance past 63 empties them. -/
def shiftHalves (v : BitVec 128) (distance : Nat) : BitVec 128 :=
  if distance < 64 then
    (v.setWidth 64 <<< distance).setWidth 128 |||
      ((v >>> 64).setWidth 64 <<< distance).setWidth 128 <<< 64
  else
    0

/-! ## §3. Actions. -/

/-- What executing an instruction amounts to. -/
inductive Action where
  /-- Control transfers are not followed. -/
  | transferControl
  | negate
  | complement
  /-- The product of a register and an immediate, flags untouched. -/
  | multiplyImmediate
  | arith (op : Arith) (source : Source)
  /-- Register to register, extending. -/
  | extend (e : Extension)
  | computeAddress
  /-- Memory to general-purpose register, extending. -/
  | load (e : Extension)
  /-- Memory to xmm register, clearing the rest. -/
  | loadXmm (l : Lane)
  /-- The low bytes of a general-purpose register to memory. -/
  | store (bytes : Nat)
  /-- The lane of an xmm register to memory. -/
  | storeXmm (l : Lane)
  /-- The lane of one xmm register to another, keeping the rest. -/
  | moveLane (l : Lane)
  | gpToXmm
  | xmmToGp
  | xorXmm
  | orXmm
  | shiftXmm
  deriving DecidableEq, Repr

/-- The action of each opcode. -/
def Opcode.action : Opcode → Action
  | .callR | .callM | .callT | .jmp8 | .jcc8 => .transferControl
  | .neg32R => .negate
  | .not32R => .complement
  | .imul32RRI | .imul32RRI8 => .multiplyImmediate
  | .mov32RI => .arith .mov .immediate
  | .add32RI | .add32RI8 => .arith .add .immediate
  | .or32RI | .or32RI8 => .arith .or .immediate
  | .adc32RI | .adc32RI8 => .arith .adc .immediate
  | .and32RI | .and32RI8 => .arith .and .immediate
  | .sub32RI | .sub32RI8 => .arith .sub .immediate
  | .xor32RI | .xor32RI8 => .arith .xor .immediate
  | .cmp32RI | .cmp32RI8 => .arith .cmp .immediate
  | .sal32RI => .arith .sal .immediate
  | .shr32RI => .arith .shr .immediate
  | .sar32RI => .arith .sar .immediate
  | .mov32RR => .arith .mov .register
  | .add32RR => .arith .add .register
  | .adc32RR => .arith .adc .register
  | .sub32RR => .arith .sub .register
  | .sbb32RR => .arith .sbb .register
  | .and32RR => .arith .and .register
  | .or32RR => .arith .or .register
  | .xor32RR => .arith .xor .register
  | .cmp32RR => .arith .cmp .register
  | .imul32RR => .arith .imul .register
  | .sal32RC => .arith .sal .counter
  | .shr32RC => .arith .shr .counter
  | .sar32RC => .arith .sar .counter
  | .ror32RC => .arith .ror .counter
  | .movsx8RR => .extend .signedByte
  | .movzx8RR => .extend .unsignedByte
  | .movsx16RR => .extend .signedHalf
  | .movzx16RR => .extend .unsignedHalf
  | .add32RM => .arith .add .memory
  | .sub32RM => .arith .sub .memory
  | .and32RM => .arith .and .memory
  | .or32RM => .arith .or .memory
  | .xor32RM => .arith .xor .memory
  | .cmp32RM => .arith .cmp .memory
  | .lea32RA => .computeAddress
  | .mov32RM | .mov32RA => .load .whole
  | .movsx8RM | .movsx8RA => .load .signedByte
  | .movzx8RM | .movzx8RA => .load .unsignedByte
  | .movsx16RM | .movsx16RA => .load .signedHalf
  | .movzx16RM | .movzx16RA => .load .unsignedHalf
  | .movssRM | .movssRA => .loadXmm .low32
  | .movsdRM | .movsdRA => .loadXmm .low64
  | .mov32MR | .mov32AR => .store 4
  | .mov16MR | .mov16AR => .store 2
  | .mov8MR | .mov8AR => .store 1
  | .movssMR | .movssAR => .storeXmm .low32
  | .movsdMR | .movsdAR => .storeXmm .low64
  | .movssRR => .moveLane .low32
  | .movsdRR => .moveLane .low64
  | .movdxrRR => .gpToXmm
  | .movdrxRR => .xmmToGp
  | .xorpsRR => .xorXmm
  | .orpsRR => .orXmm
  | .psllqRI => .shiftXmm

end TwoAddress
