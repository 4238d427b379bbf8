/-
  TwoAddress.CommandLine
  ──────────────────────
  **THE COMMAND LINE.**

  Meets a single request in a fresh session and lists what was emitted: the
  records, the frame slots they access, and the statistics.  The record that
  stands for the result is marked.

    • §1 the commands, their arguments and what they synthesize;
    • §2 the listing;
    • §3 a whole run, from arguments to exit code and output.
-/
import TwoAddress.CommandLine.Grammar
import TwoAddress.Instruction.Text
import TwoAddress.Session
import TwoAddress.Synthesis.Arithmetic
import TwoAddress.Synthesis.Control
import TwoAddress.Synthesis.Transfer

namespace TwoAddress.CommandLine

/-! ## §1. Commands. -/

/-- The program's name. -/
def program : String := "lirdump"

/-- The program's version. -/
def version : String := "0.1.0"

/-- What the program does. -/
def about : String := "Emit x86 LIR for a single synthesis request"

/-- A register argument. -/
def registerArg (name : String) : Positional := { name, kind := .register }

/-- A register argument that may be left out. -/
def optionalRegisterArg (name : String) : Positional :=
  { name, kind := .register, optional := true }

/-- An operation argument. -/
def operationArg : Positional := { name := "OP", kind := .operation }

/-- An argument that is a signed number. -/
def numberArg (name : String) : Positional := { name, kind := .signed32, hyphens := true }

/-- The options that describe a memory access. -/
def accessOptions : List Switch :=
  [{ long := "base", kind := .register },
   { long := "index", kind := .register },
   { long := "scale", kind := .unsigned8 },
   { long := "disp", kind := .signed32, hyphens := true },
   { long := "size", kind := .size }]

/-- Each command with what it accepts. -/
def commands : List (String × Grammar) :=
  [("copy", { positionals := [registerArg "DEST", registerArg "SRC"] }),
   ("const", { positionals := [registerArg "DEST", numberArg "VALUE"] }),
   ("const-wide",
     { positionals :=
         [registerArg "LO", registerArg "HI", numberArg "VAL_LO", numberArg "VAL_HI"] }),
   ("unary", { positionals := [operationArg, registerArg "REG"] }),
   ("imm", { positionals := [operationArg, registerArg "DEST", numberArg "VALUE"] }),
   ("reg", { positionals := [operationArg, registerArg "DEST", registerArg "SRC"] }),
   ("mem",
     { positionals :=
         [operationArg, registerArg "DEST", registerArg "BASE", numberArg "DISP"] }),
   ("ternary",
     { positionals :=
         [operationArg, registerArg "DEST", registerArg "SRC1", registerArg "SRC2"] }),
   ("ternary-imm",
     { positionals :=
         [operationArg, registerArg "DEST", registerArg "SRC", numberArg "VALUE"] }),
   ("load",
     { options := accessOptions
       positionals := [registerArg "DEST", optionalRegisterArg "DEST_HI"] }),
   ("store",
     { options := accessOptions
       positionals := [registerArg "SRC", optionalRegisterArg "SRC_HI"] }),
   ("branch", { positionals := [{ name := "CC", kind := .condition }] })]

/-- The command that explains the others. -/
def helpCommand : String := "help"

/-- What comes before the command. -/
def topLevel : Grammar where
  options :=
    [{ long := "offset", kind := .unsigned32 },
     { long := "gp-scratch", kind := .register, list := true }]
  flags := [.help, .version]
  commands := commands.map (·.1) ++ [helpCommand]

/-- The transfer that a load or store command describes. -/
def transferOf (m : Matches) (direction : Direction) (lo hi : String) : Option Transfer := do
  let base ← m.register? "BASE"
  let reg ← m.register? lo
  return {
    direction
    base
    index := (m.register? "INDEX").getD .absent
    scale := UInt8.ofNat ((m.integer? "SCALE").getD 0).toNat
    disp := (m.word? "DISP").getD 0
    lo := reg
    hi := (m.register? hi).getD .absent
    size := (m.size? "SIZE").getD .word }

/-- A comparison of `eax` with zero, and a conditional jump back to it. -/
def branchBack (cond : Condition) : Synthesis RecordId := do
  let top ← Synthesis.binaryImm .cmp (.gp .eax) 0
  Synthesis.jumpIf cond (some top)

/-- What a command synthesizes, if none of its arguments is missing. -/
def synthesisOf (command : String) (m : Matches) : Option (Synthesis RecordId) :=
  match command with
  | "copy" => return .copy (← m.register? "DEST") (← m.register? "SRC")
  | "const" => return .constant (← m.register? "DEST") (← m.word? "VALUE")
  | "const-wide" =>
      return .constantPair (← m.register? "LO") (← m.register? "HI")
        (← m.word? "VAL_LO") (← m.word? "VAL_HI")
  | "unary" => return .unary (← m.operation? "OP") (← m.register? "REG")
  | "imm" => return .binaryImm (← m.operation? "OP") (← m.register? "DEST") (← m.word? "VALUE")
  | "reg" => return .binary (← m.operation? "OP") (← m.register? "DEST") (← m.register? "SRC")
  | "mem" =>
      return .binaryMem (← m.operation? "OP") (← m.register? "DEST")
        (← m.register? "BASE") (← m.word? "DISP")
  | "ternary" =>
      return .ternary (← m.operation? "OP") (← m.register? "DEST")
        (← m.register? "SRC1") (← m.register? "SRC2")
  | "ternary-imm" =>
      return .ternaryImm (← m.operation? "OP") (← m.register? "DEST")
        (← m.register? "SRC") (← m.word? "VALUE")
  | "load" => .transfer <$> transferOf m .load "DEST" "DEST_HI"
  | "store" => .transfer <$> transferOf m .store "SRC" "SRC_HI"
  | "branch" => branchBack <$> m.condition? "CC"
  | _ => none

/-- What to do, and in which surroundings. -/
structure Invocation where
  offset : UInt32
  scratch : List Reg
  synthesis : Synthesis RecordId

/-- Read a command's arguments. -/
def readCommand (command : String) (args : List String) : Except Halt (Synthesis RecordId) := do
  let g := (commands.lookup command).getD {}
  let ended ← g.scan {} args
  let s ← Grammar.settled ended.scan
  match synthesisOf command s.values with
  | some synthesis => return synthesis
  | none => Grammar.reject .missingArguments

/-- Find the commands that are to be explained. -/
def readHelp : List String → Halt
  | [] => .flag .help
  | name :: rest =>
      if topLevel.commands.contains name then
        match rest with
        | [] => .flag .help
        | other :: _ => .usage (.unrecognizedCommand other)
      else .usage (.unrecognizedCommand name)

/-- Read the whole line.  An option right before the command is read after the
command's own arguments. -/
def readLine (args : List String) : Except Halt Invocation := do
  let ended ← topLevel.scan {} args
  match ended.command with
  | none =>
      let s ← Grammar.settled ended.scan
      if s.values.isEmpty then throw .idle
      else Grammar.reject (.missingCommand program)
  | some (command, rest) =>
      if command = helpCommand then throw (readHelp rest)
      let synthesis ← readCommand command rest
      let s ← Grammar.settled ended.scan
      return {
        offset := UInt32.ofNat ((s.values.integer? "OFFSET").getD 0).toNat
        scratch :=
          if s.values.any (·.1 == "GP_SCRATCH") then s.values.registers "GP_SCRATCH"
          else Session.defaultScratch
        synthesis }

/-! ## §2. The listing. -/

/-- One line per record, the result marked. -/
def recordLines (s : Session) (result : RecordId) : Except Fault (List String) :=
  s.records.zipIdx.mapM fun (r, n) => do
    let text ← r.render
    let marker := if n = result.index then "=>" else "  "
    return marker ++ " L" ++ toString n ++ ": " ++ text

/-- One line per frame slot noted, under a blank line if there are any. -/
def slotLines (s : Session) : List String :=
  match s.slotList with
  | [] => []
  | slots => "" :: slots.map fun (id, a) =>
      "   " ++ id.label ++ ": frame slot v" ++ a.slot.decimalText ++ " " ++
        (if a.isLoad then "load" else "store") ++ (if a.isWide then " (wide)" else "")

/-- The whole listing. -/
def listing (s : Session) (result : RecordId) : Except Fault String := do
  let records ← recordLines s result
  let lines := records ++ slotLines s ++ [""]
  return String.join (lines.map (· ++ "\n")) ++ s.stats.render

/-! ## §3. A run. -/

/-- How a run of the program ends. -/
structure Exit where
  code : UInt8
  output : String := ""
  /-- What is reported on the error stream: one line, unless the run broke off. -/
  message : Option String := none
  deriving DecidableEq, Repr

/-- The characters up to the first line end: a line feed, or a carriage return
and a line feed. -/
def takeLine : List Char → List Char
  | [] | '\n' :: _ | '\r' :: '\n' :: _ => []
  | c :: rest => c :: takeLine rest

/-- The first line of a text. -/
def firstLine (s : String) : String := String.ofList (takeLine s.toList)

/-- A summary of the program. -/
def helpText : String :=
  about ++ "\n\nUsage: " ++ program ++ " [OPTIONS] <COMMAND>\n\nCommands:\n" ++
    String.join (topLevel.commands.map fun c => "  " ++ c ++ "\n")

/-- Meet the request and list what came of it. -/
def perform (i : Invocation) : Exit :=
  let start := { Session.new i.scratch with offset := i.offset }
  match (i.synthesis.runIn Session.unit).on start with
  | (.ok id, s) =>
      match listing s id with
      | .ok output => { code := 0, output }
      | .error f => { code := 101, message := some f.message }
  | (.error f, _) => { code := 101, message := some f.message }

/-- Run the program. -/
def run (args : List String) : Exit :=
  match readLine args with
  | .ok i => perform i
  | .error (.usage e) => { code := 2, message := some (firstLine (Terminal.plain e.report)) }
  | .error (.flag .version) => { code := 0, output := program ++ " " ++ version ++ "\n" }
  | .error (.flag .help) => { code := 0, output := helpText }
  | .error .idle => { code := 2, message := some (firstLine helpText) }

end TwoAddress.CommandLine
