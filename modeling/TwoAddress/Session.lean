/-
  TwoAddress.Session
  ──────────────────
  **A COMPILATION SESSION.**

  The compilation unit for one method at a time: the stream of records, the
  scratch pool, the frame slots noted for records, the bytecode offset that
  new records are attributed to, and statistics over everything since the
  session began.  `Session.unit` answers the synthesizers' requests from it.

  The pool's refusals are no answer a synthesizer can use, so they stop it.

  Records, notes and replies refer to positions, which have no bound here.
  Where handles have 32 bits, all of it holds up to 2³² records.
-/
import Std.Data.TreeMap
import TwoAddress.Scratch
import TwoAddress.Session.Statistics
import TwoAddress.Synthesis

namespace TwoAddress

/-! ## §1. The state. -/

/-- The state of a session. -/
structure Session where
  /-- The records, in stream order. -/
  records : List Record := []
  /-- The registers lent for temporary use. -/
  pool : ScratchPool
  /-- The frame slots noted, by record position. -/
  slots : Std.TreeMap Nat SlotAccess := ∅
  /-- The offset that new records are attributed to. -/
  offset : UInt32 := 0
  /-- What was done since the session began. -/
  stats : Statistics := {}

namespace Session

/-- The registers a caller may clobber, lent unless the session says otherwise. -/
def defaultScratch : List Reg := [.gp .eax, .gp .ecx, .gp .edx]

/-- A fresh session that lends the given registers. -/
def new (scratch : List Reg) : Session := { pool := .new (.ofList scratch) }

/-- The instructions of the stream. -/
def instructions (s : Session) : List Instruction := s.records.map (·.toInstruction)

/-- An instruction attributed to the current offset. -/
def stamp (s : Session) (i : Instruction) : Record := { i with offset := s.offset }

/-- The record at a position. -/
def lookup (s : Session) (id : RecordId) : Except Fault Record :=
  match s.records[id.index]? with
  | some r => .ok r
  | none => .error (.unknownRecord id)

/-- The frame slot noted for a record. -/
def slotOf? (s : Session) (id : RecordId) : Option SlotAccess := s.slots[id.index]?

/-- Every frame slot noted, in stream order. -/
def slotList (s : Session) : List (RecordId × SlotAccess) :=
  s.slots.toList.map fun e => (⟨e.1⟩, e.2)

/-! ## §2. Operations. -/

/-- Add a record at the end of the stream and count it. -/
def push (s : Session) (r : Record) : Session :=
  { s with
    records := s.records ++ [r]
    stats := { s.stats with
      emitted := s.stats.emitted + 1
      inert := s.stats.inert + r.inert.toNat
      opcodes := s.stats.opcodes.bump r.opcode.name } }

/-- Append a record as it is given, whatever its offset and operands. -/
def appendRecord (r : Record) : Effect Session RecordId := do
  let s ← get
  set (s.push r)
  return ⟨s.records.length⟩

/-- Append an instruction at the current offset. -/
def append (i : Instruction) : Effect Session RecordId := do
  let s ← get
  appendRecord (s.stamp i)

/-- Change the record at a position, if there is one and the change succeeds. -/
def amend (id : RecordId) (change : Record → Except Fault Record) : Effect Session Record := do
  let s ← get
  let r ← MonadExcept.ofExcept (s.lookup id)
  let r' ← MonadExcept.ofExcept (change r)
  set { s with records := s.records.set id.index r' }
  return r'

/-- Point a branch at a target. -/
def retarget (id : RecordId) (target : Option RecordId) : Effect Session Unit := do
  let _ ← amend id fun r =>
    if r.opcode.isBranch then .ok { r with target } else .error .notABranch

/-- Borrow a scratch register. -/
def borrow (exclude : List Reg) : Effect Session Reg := do
  let s ← get
  match s.pool.borrow (.ofList exclude) with
  | .ok (r, pool) =>
      set { s with pool, stats := { s.stats with borrowed := s.stats.borrowed + 1 } }
      return .gp r
  | .error e => throw (.violation (.scratchUnavailable e.message))

/-- Give a scratch register back. -/
def release (r : Reg) : Effect Session Unit := do
  let s ← get
  match s.pool.release r with
  | .ok pool => set { s with pool }
  | .error e => throw (.violation (.scratchUnavailable e.message))

/-- Note the frame slot of a record. -/
def annotate (id : RecordId) (access : SlotAccess) : Effect Session Unit :=
  modify fun s =>
    { s with
      slots := s.slots.insert id.index access
      stats := { s.stats with annotated := s.stats.annotated + 1 } }

/-- Forget the method: everything but the pool's registers and the statistics. -/
def clear (s : Session) : Session := { pool := s.pool.reset, stats := s.stats }

/-! ## §3. The session as a compilation unit. -/

/-- How a session meets the requests of a synthesizer.  Remarks are dropped. -/
def unit : CodeUnit Session where
  append := append
  retarget := retarget
  borrow := borrow
  release := release
  annotate := annotate
  note := fun _ => pure ()

end Session

end TwoAddress
