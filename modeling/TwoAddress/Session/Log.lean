/-
  TwoAddress.Session.Log
  ──────────────────────
  **A SESSION THAT KEEPS A LOG.**

  The same session, with a line written for every record appended, register
  lent or taken back, slot noted and remark made.  A line is rendered before
  the thing it reports is done, so a record that cannot be rendered is not
  appended.
-/
import TwoAddress.Instruction.Text
import TwoAddress.Session

namespace TwoAddress

/-! ## §1. Log lines. -/

/-- How much a log line matters. -/
inductive Level where
  | trace | debug | error
  deriving DecidableEq, Repr

/-- The level as the log shows it. -/
def Level.text : Level → String
  | trace => "TRACE"
  | debug => "DEBUG"
  | error => "ERROR"

/-- One line of the log. -/
structure LogLine where
  level : Level
  message : String
  deriving DecidableEq, Repr

/-- The line as the log shows it. -/
def LogLine.text (l : LogLine) : String := l.level.text ++ " " ++ l.message

/-- The line that announces a fault; only violations are announced. -/
def Fault.logLine? : Fault → Option LogLine
  | .violation v => some ⟨.error, v.message⟩
  | _ => none

/-- How a log line describes a frame access. -/
def SlotAccess.logText (a : SlotAccess) : String :=
  "frame slot v" ++ a.slot.decimalText ++ " (" ++ (if a.isLoad then "load" else "store") ++
    (if a.isWide then ", wide" else "") ++ ")"

/-! ## §2. Logged sessions. -/

/-- A session and the lines written so far. -/
structure LoggedSession where
  session : Session
  log : List LogLine := []

namespace LoggedSession

variable {α : Type}

/-- Write a line. -/
def write (level : Level) (message : String) : Effect LoggedSession Unit :=
  modify fun l => { l with log := l.log ++ [⟨level, message⟩] }

/-- Write a line whose text may fail to render. -/
def writeRendered (level : Level) (message : Except Fault String) : Effect LoggedSession Unit := do
  let text ← MonadExcept.ofExcept message
  write level text

/-- Do something to the session, writing nothing. -/
def quietly (x : Effect Session α) : Effect LoggedSession α :=
  .of fun l =>
    let (result, session) := x.on l.session
    (result, { l with session })

/-- Append a record as it is given, once its line is written. -/
def appendRecord (r : Record) : Effect LoggedSession RecordId := do
  let id : RecordId := ⟨(← get).session.records.length⟩
  writeRendered .trace (r.render.map fun text => id.label ++ ": " ++ text)
  quietly (Session.appendRecord r)

/-- How a logged session meets the requests of a synthesizer. -/
def unit : CodeUnit LoggedSession where
  append i := do
    appendRecord ((← get).session.stamp i)
  retarget id target := quietly (Session.retarget id target)
  borrow exclude := do
    let r ← quietly (Session.borrow exclude)
    write .debug ("borrowed scratch " ++ r.text)
    return r
  release r := do
    quietly (Session.release r)
    write .debug ("released scratch " ++ r.text)
  annotate id access := do
    write .trace (id.label ++ ": " ++ access.logText)
    quietly (Session.annotate id access)
  note n := writeRendered .debug n.render

end LoggedSession

end TwoAddress
