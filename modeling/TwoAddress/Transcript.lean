/-
  TwoAddress.Transcript
  ─────────────────────
  **A SCRIPTED COMPILATION UNIT.**

  A compilation unit of the plainest kind: a list of records, one fixed
  offset, and a script of registers that it lends in turn, whatever the
  borrower excludes.  It writes down every request it meets, in order.
-/
import TwoAddress.Synthesis

namespace TwoAddress

/-- A request, as a compilation unit sees it. -/
inductive Event where
  /-- An instruction was appended, looking like this at the time. -/
  | appended (i : Instruction)
  /-- A record was opened to change its target. -/
  | opened (id : RecordId)
  /-- A register was lent to a borrower that excluded others. -/
  | lent (r : Reg) (exclude : List Reg)
  /-- A register was taken back. -/
  | takenBack (r : Reg)
  /-- A frame slot was noted. -/
  | annotated (id : RecordId) (access : SlotAccess)
  deriving DecidableEq, Repr

/-- The state of a scripted compilation unit. -/
structure Transcript where
  /-- The registers to lend, over and over. -/
  script : List Reg
  /-- The offset every record is attributed to. -/
  offset : UInt32
  /-- Number of registers lent so far. -/
  lent : Nat := 0
  /-- The records, in stream order. -/
  records : List Record := []
  /-- The requests met, in order. -/
  events : List Event := []
  deriving DecidableEq, Repr

namespace Transcript

/-- An instruction attributed to the unit's offset. -/
def stamp (t : Transcript) (i : Instruction) : Record := { i with offset := t.offset }

/-- Write down a request. -/
def witness (e : Event) : Effect Transcript Unit :=
  modify fun t => { t with events := t.events ++ [e] }

/-- The register to lend next; none is left to lend if the script is empty. -/
def next (t : Transcript) : Reg := t.script.getD (t.lent % t.script.length) .absent

/-- Append an instruction. -/
def append (i : Instruction) : Effect Transcript RecordId := do
  witness (.appended i)
  let t ← get
  set { t with records := t.records ++ [t.stamp i] }
  return ⟨t.records.length⟩

/-- Point a branch at a target. -/
def retarget (id : RecordId) (target : Option RecordId) : Effect Transcript Unit := do
  witness (.opened id)
  let t ← get
  match t.records[id.index]? with
  | none => throw (.outOfBounds t.records.length id.index)
  | some r =>
      if r.opcode.isBranch then
        set { t with records := t.records.set id.index { r with target } }
      else
        throw .notABranch

/-- Lend the next register of the script. -/
def borrow (exclude : List Reg) : Effect Transcript Reg := do
  let t ← get
  set { t with lent := t.lent + 1 }
  witness (.lent t.next exclude)
  return t.next

/-- How a scripted unit meets the requests of a synthesizer. -/
def unit : CodeUnit Transcript where
  append := append
  retarget := retarget
  borrow := borrow
  release r := witness (.takenBack r)
  annotate id access := witness (.annotated id access)
  note := fun _ => pure ()

end Transcript

end TwoAddress
