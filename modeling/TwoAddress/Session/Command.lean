/-
  TwoAddress.Session.Command
  ──────────────────────────
  **WHAT CAN BE DONE TO A SESSION.**

  Requests to the synthesizers, and the operations a session offers besides.
  A command is executed in the same way on a plain and on a logged session;
  the two differ in the lines that are left behind.
-/
import TwoAddress.Synthesis.Request
import TwoAddress.Session.Log

namespace TwoAddress

/-! ## §1. Commands and their outcomes. -/

/-- Something to do to a session. -/
inductive Command where
  /-- Meet a request. -/
  | request (r : Request)
  /-- Append an instruction given by opcode and operands, at the current offset.
  There must be as many operands as the opcode takes. -/
  | append (op : Opcode) (operands : List Operand) (inert : Bool) (target : Option RecordId)
  /-- Append a record as it is given, whatever its offset and operands. -/
  | appendRecord (r : Record)
  /-- Attribute new records to an offset. -/
  | setOffset (offset : UInt32)
  /-- Make a record inert, or active again. -/
  | setInert (id : RecordId) (inert : Bool)
  /-- Look a record up. -/
  | lookup (id : RecordId)
  /-- Note the frame slot of a record. -/
  | annotate (id : RecordId) (access : SlotAccess)
  /-- Borrow a scratch register. -/
  | borrow (exclude : List Reg)
  /-- Give a scratch register back. -/
  | release (r : Reg)
  /-- Start a new method. -/
  | clear
  deriving DecidableEq, Repr

/-- What came of a command. -/
inductive Outcome where
  /-- The reply to a request. -/
  | reply (r : Reply)
  /-- A register was lent. -/
  | lent (r : Reg)
  /-- The record in question. -/
  | record (r : Record)
  /-- There is no such record. -/
  | missing (id : RecordId)
  deriving DecidableEq, Repr

/-! ## §2. Execution. -/

/-- A compilation unit that has a session underneath. -/
structure SessionUnit (σ : Type) extends CodeUnit σ where
  /-- Append a record as it is given. -/
  appendRecord : Record → Effect σ RecordId
  /-- Reach the session itself. -/
  direct : Effect Session Outcome → Effect σ Outcome

namespace Command

variable {σ : Type}

/-- The record with its inert flag set as asked. -/
def withInert (inert : Bool) (r : Record) : Except Fault Record := .ok { r with inert }

/-- Execute a command. -/
def runIn (u : SessionUnit σ) : Command → Effect σ Outcome
  | request r => .reply <$> r.synthesis.runIn u.toCodeUnit
  | append op operands inert target => do
      let i ← MonadExcept.ofExcept (Instruction.build op operands)
      let id ← u.append { i with inert, target }
      return .reply (.appended id)
  | appendRecord r => do
      let id ← u.appendRecord r
      return .reply (.appended id)
  | setOffset offset => u.direct do
      modify fun s => { s with offset }
      return .reply .done
  | setInert id inert => u.direct (.record <$> Session.amend id (withInert inert))
  | lookup id => u.direct do
      match (← get).lookup id with
      | .ok r => return .record r
      | .error _ => return .missing id
  | annotate id access => do
      u.annotate id access
      return .reply .done
  | borrow exclude => .lent <$> u.borrow exclude
  | release r => do
      u.release r
      return .reply .done
  | clear => u.direct do
      modify Session.clear
      return .reply .done

end Command

namespace Session

/-- A plain session. -/
def commandUnit : SessionUnit Session := { unit with appendRecord, direct := id }

/-- Execute a command on a plain session. -/
def execute (c : Command) : Effect Session Outcome := c.runIn commandUnit

end Session

namespace LoggedSession

/-- A logged session. -/
def commandUnit : SessionUnit LoggedSession := { unit with appendRecord, direct := quietly }

/-- Execute a command on a logged session.  A violation leaves a last line. -/
def execute (c : Command) : Effect LoggedSession Outcome :=
  .of fun l =>
    match (c.runIn commandUnit).on l with
    | (.error f, l') => (.error f, { l' with log := l'.log ++ f.logLine?.toList })
    | (.ok o, l') => (.ok o, l')

end LoggedSession

end TwoAddress
