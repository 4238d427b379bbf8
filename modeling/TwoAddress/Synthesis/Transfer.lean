/-
  TwoAddress.Synthesis.Transfer
  ─────────────────────────────
  **TYPED LOADS AND STORES.**

  A transfer moves a typed value between memory and a register or a pair of
  registers.  A 64-bit value is one move when it lives in an xmm register and
  two 32-bit moves when it lives in general-purpose registers, the low half
  at the displacement and the high half four above it.  When the base is also
  the low half, the high half goes first, so the base is intact for both.

  A move relative to the stack pointer without an index is a frame access,
  and the compilation unit is told its slot.
-/
import TwoAddress.Register.Pair
import TwoAddress.Synthesis

namespace TwoAddress

/-! ## §1. Transfers. -/

/-- Which way a value moves. -/
inductive Direction where
  /-- Memory to register. -/
  | load
  /-- Register to memory. -/
  | store
  deriving DecidableEq, Repr

/-- A typed transfer.  The high register counts for 64-bit values only. -/
structure Transfer where
  direction : Direction
  base : Reg
  index : Reg := .absent
  scale : UInt8 := 0
  disp : Word := 0
  lo : Reg
  hi : Reg := .absent
  size : AccessSize
  deriving DecidableEq, Repr

namespace Transfer

/-- A transfer at `[base + disp]` through one register. -/
def plain (direction : Direction) (base : Reg) (disp : Word) (reg : Reg)
    (size : AccessSize) : Transfer :=
  { direction, base, disp, lo := reg, size }

/-- A 64-bit transfer at `[base + disp]`. -/
def wide (direction : Direction) (base : Reg) (disp : Word) (lo hi : Reg) : Transfer :=
  { direction, base, disp, lo, hi, size := .long }

/-- A transfer at `[base + index · 2^scale]` through one register. -/
def indexed (direction : Direction) (base index reg : Reg) (scale : UInt8)
    (size : AccessSize) : Transfer :=
  { direction, base, index, scale, lo := reg, size }

end Transfer

namespace Synthesis

/-! ## §2. Single moves. -/

/-- The move for a size and a register, in its plain and its array form. -/
def transferOpcodes (direction : Direction) (size : AccessSize) (reg : Reg) : Opcode × Opcode :=
  match direction, size with
  | .load, .long | .load, .double =>
      if reg.isXmm then (.movsdRM, .movsdRA) else (.mov32RM, .mov32RA)
  | .load, .word | .load, .single =>
      if reg.isXmm then (.movssRM, .movssRA) else (.mov32RM, .mov32RA)
  | .load, .unsignedHalf => (.movzx16RM, .movzx16RA)
  | .load, .signedHalf => (.movsx16RM, .movsx16RA)
  | .load, .unsignedByte => (.movzx8RM, .movzx8RA)
  | .load, .signedByte => (.movsx8RM, .movsx8RA)
  | .store, .long | .store, .double =>
      if reg.isXmm then (.movsdMR, .movsdAR) else (.mov32MR, .mov32AR)
  | .store, .word | .store, .single =>
      if reg.isXmm then (.movssMR, .movssAR) else (.mov32MR, .mov32AR)
  | .store, .unsignedHalf | .store, .signedHalf => (.mov16MR, .mov16AR)
  | .store, .unsignedByte | .store, .signedByte => (.mov8MR, .mov8AR)

/-- The operands of a move, in the order of its form. -/
def transferOperands (direction : Direction) (a : Address) (reg : Reg) : List Operand :=
  let address :=
    if a.isArray then
      [.reg a.base, .reg a.index, .imm (BitVec.ofNat 32 a.scale.toNat), .imm a.disp]
    else
      [.reg a.base, .imm a.disp]
  match direction with
  | .load => .reg reg :: address
  | .store => address ++ [.reg reg]

/-- The frame slot that an access at a displacement touches. -/
def frameSlot (direction : Direction) (size : AccessSize) (disp : Word) : SlotAccess :=
  { slot := disp.sshiftRight 2, isLoad := direction == .load, isWide := size.isWide }

/-- One move, reported when it accesses the frame. -/
def emitTransfer (direction : Direction) (size : AccessSize) (a : Address) (reg : Reg) :
    Synthesis RecordId := do
  let opcodes := transferOpcodes direction size reg
  let id ← emit (if a.isArray then opcodes.2 else opcodes.1) (transferOperands direction a reg)
  if a.base = .stackPointer ∧ !a.isArray then
    annotateSlot id (frameSlot direction size a.disp)
  return id

/-! ## §3. Whole transfers. -/

/-- The two halves of a 64-bit value in general-purpose registers.  Returns the
move of the low half. -/
def splitTransfer (direction : Direction) (size : AccessSize) (a : Address) (lo hi : Reg) :
    Synthesis RecordId :=
  match a.disp.plusFour? with
  | none => fail (.violation (.displacementOverflow a.disp))
  | some high => do
      let above := { a with disp := high }
      if a.base = lo then
        remark (.highHalfFirst a)
        let _ ← emitTransfer direction size above hi
        emitTransfer direction size a lo
      else
        let id ← emitTransfer direction size a lo
        let _ ← emitTransfer direction size above hi
        return id

/-- Meet a transfer request. -/
def transfer (t : Transfer) : Synthesis RecordId := do
  let a ← ofExcept (Address.array t.base t.index t.scale t.disp)
  require (t.disp.toInt % t.size.alignment == 0) (.misaligned t.size t.disp)
  match t.size with
  | .long | .double =>
      if t.lo.isXmm then do
        let reg ← if t.lo.isSingle then ofExcept (Reg.pair t.lo t.hi) else done t.lo
        emitTransfer t.direction t.size a reg
      else do
        require t.hi.isGp .splitHighHalf
        splitTransfer t.direction t.size a t.lo t.hi
  | .word | .single => do
      require (!t.lo.isDouble) (.wordThroughDouble t.lo)
      emitTransfer t.direction t.size a t.lo
  | .signedByte | .unsignedByte => do
      require (t.direction == .load || t.lo.byteAddressable) (.byteStore t.lo)
      emitTransfer t.direction t.size a t.lo
  | .signedHalf | .unsignedHalf => emitTransfer t.direction t.size a t.lo

end Synthesis

end TwoAddress
