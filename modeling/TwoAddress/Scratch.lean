/-
  TwoAddress.Scratch
  ──────────────────
  **THE SCRATCH POOL.**

  Register assignment proper is done elsewhere; what remains here is a set of
  general-purpose registers that may be lent out for a short time.  The pool
  remembers which of them are lent and where the last search stopped, so that
  successive borrows rotate through the registers even when each is released
  at once.  A borrow names the registers it must not receive.
-/
import TwoAddress.Register.Set

namespace TwoAddress

/-! ## §1. The pool and its refusals. -/

/-- A pool of general-purpose registers for temporary use. -/
structure ScratchPool where
  /-- The registers that may be lent. -/
  lendable : RegSet
  /-- The registers that are lent now. -/
  lent : RegSet := .empty
  /-- The encoding number at which the next search starts. -/
  clock : Nat := 0
  /-- Number of borrows since the last reset. -/
  borrows : Nat := 0
  deriving DecidableEq, Repr

/-- Why the pool refused. -/
inductive ScratchError where
  /-- Nothing is left outside the excluded registers, of which there are this many. -/
  | exhausted (excluded : Nat)
  /-- The register is not lent. -/
  | notBorrowed (reg : Reg)
  /-- The register does not belong to the pool. -/
  | notInPool (reg : Reg)
  deriving DecidableEq, Repr

/-- The report of a refusal. -/
def ScratchError.message : ScratchError → String
  | exhausted excluded =>
      "no scratch register available outside " ++ toString excluded ++ " excluded operand(s)"
  | notBorrowed reg => "register " ++ reg.text ++ " is not borrowed"
  | notInPool reg => "register " ++ reg.text ++ " is not part of the scratch pool"

namespace ScratchPool

/-! ## §2. Operations. -/

/-- A pool that lends the general-purpose registers of a set. -/
def new (lendable : RegSet) : ScratchPool := { lendable }

/-- The eight registers in cyclic encoding order from a starting number. -/
def cycleFrom (start : Nat) : List GpReg :=
  (List.range 8).map fun step => .ofEncoding ⟨(start + step) % 8, Nat.mod_lt _ (by decide)⟩

/-- The register may be lent now to a borrower that excludes a set. -/
def eligible (p : ScratchPool) (exclude : RegSet) (r : GpReg) : Bool :=
  p.lendable.contains (.gp r) && !p.lent.contains (.gp r) && !exclude.contains (.gp r)

/-- Lend the first eligible register at or after the clock, and move the clock
just past it. -/
def borrow (p : ScratchPool) (exclude : RegSet) : Except ScratchError (GpReg × ScratchPool) :=
  match (cycleFrom p.clock).find? (p.eligible exclude) with
  | some r =>
      .ok (r, { p with
        lent := p.lent.insert (.gp r)
        clock := (r.encoding.val + 1) % 8
        borrows := p.borrows + 1 })
  | none => .error (.exhausted exclude.size)

/-- Take a lent register back. -/
def release (p : ScratchPool) (r : Reg) : Except ScratchError ScratchPool :=
  if !p.lendable.contains r then .error (.notInPool r)
  else if !p.lent.contains r then .error (.notBorrowed r)
  else .ok { p with lent := p.lent.erase r }

/-- Forget every borrow. -/
def reset (p : ScratchPool) : ScratchPool := { lendable := p.lendable }

/-- The register is lent now. -/
def isLent (p : ScratchPool) (r : Reg) : Bool := p.lent.contains r

/-- Number of registers lent now. -/
def outstanding (p : ScratchPool) : Nat := p.lent.size

/-- Number of registers the pool has. -/
def capacity (p : ScratchPool) : Nat := p.lendable.size

end ScratchPool

end TwoAddress
