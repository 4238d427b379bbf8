/-
  TwoAddress.Machine
  ──────────────────
  **A MACHINE FOR STRAIGHT-LINE CODE.**

  Eight general-purpose and eight xmm registers, a carry flag and a byte
  memory.  `step` executes one instruction and `run` a list of them, skipping
  the inert ones; calls and jumps are not followed.  An instruction that uses
  a register of the wrong kind stops the run, and the machine then keeps
  whatever the instruction had already changed.
-/
import TwoAddress.Effect
import TwoAddress.Instruction
import TwoAddress.Machine.Memory
import TwoAddress.Machine.Action

namespace TwoAddress

/-! ## §1. The state. -/

/-- The state of the machine. -/
structure Machine where
  gp : GpReg → Word := fun _ => 0
  xmm : Fin 8 → BitVec 128 := fun _ => 0
  carry : Bool := false
  memory : Memory := .zero

namespace Machine

/-- Replace the content of a general-purpose register. -/
def setGp (m : Machine) (r : GpReg) (v : Word) : Machine :=
  { m with gp := fun q => if q = r then v else m.gp q }

/-- Replace the content of an xmm register. -/
def setXmm (m : Machine) (i : Fin 8) (v : BitVec 128) : Machine :=
  { m with xmm := fun j => if j = i then v else m.xmm j }

/-! ## §2. Operand access. -/

/-- The content of an operand register; an absent one reads as zero. -/
def readGp : Reg → Effect Machine Word
  | .gp r => return (← get).gp r
  | .absent => return 0
  | reg => throw (.notGp reg)

/-- Put a word into an operand register. -/
def writeGp (reg : Reg) (v : Word) : Effect Machine Unit :=
  match reg with
  | .gp r => modify fun m => m.setGp r v
  | _ => throw (.notGp reg)

/-- The xmm register an operand names, if the machine has it. -/
def xmmIndex (reg : Reg) : Except Fault (Fin 8) :=
  match reg with
  | .xmm r =>
      if h : r.index.toNat < 8 then .ok ⟨r.index.toNat, h⟩
      else .error (.outOfBounds 8 r.index.toNat)
  | _ => .error (.notXmm reg)

/-- The content of an xmm operand. -/
def readXmm (reg : Reg) : Effect Machine (BitVec 128) := do
  let i ← MonadExcept.ofExcept (xmmIndex reg)
  return (← get).xmm i

/-- Put 128 bits into an xmm operand. -/
def writeXmm (reg : Reg) (v : BitVec 128) : Effect Machine Unit := do
  let i ← MonadExcept.ofExcept (xmmIndex reg)
  modify fun m => m.setXmm i v

/-- Set the carry flag. -/
def setCarry (c : Bool) : Effect Machine Unit :=
  modify fun m => { m with carry := c }

/-- `base + index · 2^scale + disp`, wrapping.  A scale outside `0 … 31` stops
the machine even when there is no index. -/
def addressOf (base index : Reg) (scale disp : Word) : Effect Machine Word := do
  let b ← readGp base
  let i ← readGp index
  if scale.toNat < 32 then
    return b + (i <<< scale.toNat) + disp
  else
    throw .shiftRange

/-- The address of an instruction's memory operand. -/
def effectiveAddress (i : Instruction) : Effect Machine Word :=
  match i.opcode.form with
  | .ra => addressOf (i.regAt 1) (i.regAt 2) (i.immAt 3) (i.immAt 4)
  | .ar => addressOf (i.regAt 0) (i.regAt 1) (i.immAt 2) (i.immAt 3)
  | .mr | .m => addressOf (i.regAt 0) .absent 0 (i.immAt 1)
  | _ => addressOf (i.regAt 1) .absent 0 (i.immAt 2)

/-- The bytes of an instruction's memory operand. -/
def readMemory (i : Instruction) (bytes : Nat) : Effect Machine (BitVec 64) := do
  let a ← effectiveAddress i
  return (← get).memory.read a bytes

/-- The register a store takes its value from: the last operand. -/
def storedReg (i : Instruction) : Reg := i.regAt (i.opcode.arity - 1)

/-! ## §3. Execution. -/

/-- The second operand of an arithmetic instruction. -/
def readSource (i : Instruction) : Source → Effect Machine Word
  | .immediate => return i.immAt 1
  | .register => readGp (i.regAt 1)
  | .memory => return (← readMemory i 4).setWidth 32
  | .counter => readGp .counter

/-- Execute an arithmetic instruction.  The carry is set before the result is
written. -/
def stepArith (op : Arith) (source : Source) (i : Instruction) : Effect Machine Unit := do
  let a ← readGp (i.regAt 0)
  let b ← readSource i source
  let (result, carry) := op.apply (← get).carry a b
  setCarry carry
  match result with
  | some v => writeGp (i.regAt 0) v
  | none => pure ()

/-- Execute one instruction. -/
def step (i : Instruction) : Effect Machine Unit :=
  let dst := i.regAt 0
  let src := i.regAt 1
  match i.opcode.action with
  | .transferControl => pure ()
  | .negate => do
      let v ← readGp dst
      setCarry (v != 0)
      writeGp dst (-v)
  | .complement => do
      let v ← readGp dst
      writeGp dst (~~~ v)
  | .multiplyImmediate => do
      let v ← readGp src
      writeGp dst (v * i.immAt 2)
  | .arith op source => stepArith op source i
  | .extend e => do
      let v ← readGp src
      writeGp dst (e.apply v)
  | .computeAddress => do
      let a ← effectiveAddress i
      writeGp dst a
  | .load e => do
      let v ← readMemory i e.bytes
      writeGp dst (e.apply (v.setWidth 32))
  | .loadXmm l => do
      let v ← readMemory i l.bytes
      writeXmm dst (v.setWidth 128)
  | .store bytes => do
      let a ← effectiveAddress i
      let v ← readGp (storedReg i)
      modify fun m => { m with memory := m.memory.write a bytes (v.setWidth 64) }
  | .storeXmm l => do
      let a ← effectiveAddress i
      let v ← readXmm (storedReg i)
      modify fun m => { m with memory := m.memory.write a l.bytes (v.setWidth 64) }
  | .moveLane l => do
      let d ← readXmm dst
      let s ← readXmm src
      writeXmm dst (l.merge d s)
  | .gpToXmm => do
      let v ← readGp src
      writeXmm dst (v.setWidth 128)
  | .xmmToGp => do
      let v ← readXmm src
      writeGp dst (v.setWidth 32)
  | .xorXmm => do
      let d ← readXmm dst
      let s ← readXmm src
      writeXmm dst (d ^^^ s)
  | .orXmm => do
      let d ← readXmm dst
      let s ← readXmm src
      writeXmm dst (d ||| s)
  | .shiftXmm => do
      let d ← readXmm dst
      writeXmm dst (shiftHalves d (i.immAt 1).toNat)

/-- Execute a list of instructions in order, skipping the inert ones. -/
def run : List Instruction → Effect Machine Unit
  | [] => pure ()
  | i :: rest => do
      if i.inert then pure () else step i
      run rest

end Machine

end TwoAddress
