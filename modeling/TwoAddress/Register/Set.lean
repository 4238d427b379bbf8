/-
  TwoAddress.Register.Set
  ───────────────────────
  **SETS OF GENERAL-PURPOSE REGISTERS.**

  One bit per register, at the position of its encoding number.  The
  operations take operand registers and look at the general-purpose ones
  only: an absent or an xmm register is never a member, and inserting or
  erasing one changes nothing.
-/
import TwoAddress.Word
import TwoAddress.Register

namespace TwoAddress

/-- A set of general-purpose registers: bit `n` says whether the register of
encoding `n` is a member. -/
structure RegSet where
  mask : Byte
  deriving DecidableEq, Repr

namespace RegSet

/-! ## §1. Operations. -/

/-- No register. -/
def empty : RegSet := ⟨0⟩

/-- The mask of one register. -/
def bit (r : GpReg) : Byte := 1#8 <<< r.encoding.val

/-- Membership of an operand register. -/
def contains (s : RegSet) : Reg → Bool
  | .gp r => s.mask &&& bit r != 0
  | _ => false

/-- Add a register. -/
def insert (s : RegSet) : Reg → RegSet
  | .gp r => ⟨s.mask ||| bit r⟩
  | _ => s

/-- Remove a register. -/
def erase (s : RegSet) : Reg → RegSet
  | .gp r => ⟨s.mask &&& ~~~ bit r⟩
  | _ => s

/-- The general-purpose registers of a list. -/
def ofList (regs : List Reg) : RegSet := regs.foldl insert empty

/-- Members of either set. -/
def union (s t : RegSet) : RegSet := ⟨s.mask ||| t.mask⟩

/-- Number of set bits. -/
def size (s : RegSet) : Nat :=
  (List.range 8).countP fun n => s.mask.getLsbD n

/-- No bit is set. -/
def isEmpty (s : RegSet) : Bool := s.mask == 0

/-- The members, in encoding order. -/
def members (s : RegSet) : List GpReg :=
  GpReg.all.filter fun r => s.contains (.gp r)

end RegSet

end TwoAddress
