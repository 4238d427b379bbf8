/-
  TwoAddress.CommandLine.Grammar
  ──────────────────────────────
  **FROM ARGUMENTS TO VALUES.**

  A grammar lists the options and positional arguments of a command and the
  commands below it.  Arguments are taken from left to right.  A value is
  held back until the next argument begins or the line ends, and only then
  read: so the first bad value is reported, unless an argument that fits
  nowhere turns up while it is still held back.
-/
import TwoAddress.CommandLine.Value
import TwoAddress.Terminal

namespace TwoAddress.CommandLine

open TwoAddress.Terminal (emphasize)

/-! ## §1. Usage errors. -/

/-- What is wrong with a command line. -/
inductive UsageError where
  | invalidValue (value argument : String) (cause : ValueError)
  | unexpectedArgument (argument : String)
  | unexpectedValue (value flag : String)
  | unrecognizedCommand (name : String)
  | missingArguments
  | valueRequired (option : String)
  | repeated (option : String)
  | missingCommand (program : String)
  deriving DecidableEq, Repr

/-- The wording of a usage error.  What is quoted from the command line, and
what could be typed there, is emphasized. -/
def UsageError.message : UsageError → String
  | invalidValue value argument cause =>
      "invalid value '" ++ emphasize .wrong value ++ "' for '" ++
        emphasize .literal argument ++ "': " ++ cause.reason
  | unexpectedArgument argument =>
      "unexpected argument '" ++ emphasize .wrong argument ++ "' found"
  | unexpectedValue value flag =>
      "unexpected value '" ++ emphasize .wrong value ++ "' for '" ++
        emphasize .literal flag ++ "' found; no more were expected"
  | unrecognizedCommand name => "unrecognized subcommand '" ++ emphasize .wrong name ++ "'"
  | missingArguments => "the following required arguments were not provided:"
  | valueRequired option =>
      "a value is required for '" ++ emphasize .literal option ++ "' but none was supplied"
  | repeated option =>
      "the argument '" ++ emphasize .wrong option ++ "' cannot be used multiple times"
  | missingCommand program =>
      "'" ++ emphasize .wrong program ++ "' requires a subcommand but one was not provided"

/-- The full report of a usage error, with emphasis: the error, and where to
find help. -/
def UsageError.report (e : UsageError) : String :=
  emphasize .alarm "error:" ++ " " ++ e.message ++ "\n\nFor more information, try '" ++
    emphasize .literal "--help" ++ "'.\n"

/-! ## §2. Grammars. -/

/-- An argument known by its place. -/
structure Positional where
  name : String
  kind : Kind
  /-- Its value may begin with a hyphen. -/
  hyphens : Bool := false
  /-- It may be left out. -/
  optional : Bool := false
  deriving DecidableEq, Repr

/-- How messages refer to a positional argument. -/
def Positional.usage (p : Positional) : String :=
  if p.optional then "[" ++ p.name ++ "]" else "<" ++ p.name ++ ">"

/-- An argument known by name, with a value after it. -/
structure Switch where
  /-- The word after the two hyphens. -/
  long : String
  kind : Kind
  /-- Its value may begin with a hyphen. -/
  hyphens : Bool := false
  /-- It takes several values, separated by commas, and may be repeated. -/
  list : Bool := false
  deriving DecidableEq, Repr

/-- The name under which the values of an option are kept. -/
def Switch.name (o : Switch) : String :=
  String.ofList (o.long.toList.map fun c => if c = '-' then '_' else c.toUpper)

/-- How messages refer to an option. -/
def Switch.usage (o : Switch) : String := "--" ++ o.long ++ " <" ++ o.name ++ ">"

/-- A request for information instead of work. -/
inductive Flag where
  | help | version
  deriving DecidableEq, Repr

/-- The word that names a flag. -/
def Flag.long : Flag → String
  | help => "help"
  | version => "version"

/-- The letter that names a flag. -/
def Flag.short : Flag → Char
  | help => 'h'
  | version => 'V'

/-- What a command accepts. -/
structure Grammar where
  options : List Switch := []
  positionals : List Positional := []
  flags : List Flag := [.help]
  /-- The names of the commands below this one. -/
  commands : List String := []
  deriving DecidableEq, Repr

/-! ## §3. The scan. -/

/-- A value not yet read. -/
inductive Pending where
  | nothing
  /-- An option that still lacks its value, or has one. -/
  | option (o : Switch) (value : Option String)
  | positional (p : Positional) (value : String)
  deriving DecidableEq, Repr

/-- The values read so far, by argument name. -/
abbrev Matches := List (String × Value)

/-- How far a scan has come. -/
structure Scan where
  values : Matches := []
  pending : Pending := .nothing
  /-- Number of positional arguments taken. -/
  position : Nat := 0
  /-- A lone pair of hyphens was seen: all that follows is positional. -/
  trailing : Bool := false
  deriving DecidableEq, Repr

/-- Why a scan ended before the line did. -/
inductive Halt where
  | usage (e : UsageError)
  | flag (f : Flag)
  /-- The line asks for nothing. -/
  | idle
  deriving DecidableEq, Repr

namespace Scan

/-- The option whose value comes next. -/
def awaiting? (s : Scan) : Option Switch :=
  match s.pending with
  | .option o none => if s.trailing then none else some o
  | _ => none

/-- The option whose value comes next takes anything, hyphens included. -/
def awaitsHyphens (s : Scan) : Bool := s.awaiting?.any (·.hyphens)

/-- Read a value and keep it under a name. -/
def keep (s : Scan) (name usage : String) (kind : Kind) (value : String) : Except UsageError Scan :=
  match kind.read value with
  | .ok v => .ok { s with values := s.values ++ [(name, v)] }
  | .error cause => .error (.invalidValue value usage cause)

/-- Take the value of an option. -/
def takeOption (s : Scan) (o : Switch) (value : String) : Except UsageError Scan :=
  if o.list then
    (value.splitOn ",").foldlM (fun s part => s.keep o.name o.usage o.kind part) s
  else if s.values.any (·.1 == o.name) then
    .error (.repeated o.usage)
  else
    s.keep o.name o.usage o.kind value

/-- Read the value held back. -/
def settle (s : Scan) : Except UsageError Scan :=
  let rest := { s with pending := .nothing }
  match s.pending with
  | .nothing => .ok rest
  | .option o none => .error (.valueRequired o.usage)
  | .option o (some value) => rest.takeOption o value
  | .positional p value => rest.keep p.name p.usage p.kind value

end Scan

/-- What an argument looks like. -/
inductive Token where
  /-- Two hyphens and nothing else. -/
  | escape
  /-- Two hyphens and a word, perhaps with a value attached. -/
  | long (name : String) (value : Option String)
  /-- A hyphen and at least one letter. -/
  | short (first : Char) (rest : List Char)
  /-- Anything else. -/
  | word
  deriving DecidableEq, Repr

/-- Classify an argument by its hyphens. -/
def Token.ofString (s : String) : Token :=
  match s.toList with
  | ['-', '-'] => .escape
  | '-' :: '-' :: rest =>
      let name := String.ofList (rest.takeWhile (· != '='))
      match rest.dropWhile (· != '=') with
      | [] => .long name none
      | _ :: value => .long name (some (String.ofList value))
  | '-' :: c :: rest => .short c rest
  | _ => .word

namespace Grammar

/-- Refuse the line. -/
def reject {α : Type} (e : UsageError) : Except Halt α := .error (.usage e)

/-- Read the value held back, as a step of the scan. -/
def settled (s : Scan) : Except Halt Scan := s.settle.mapError .usage

/-- The positional argument that comes next. -/
def nextPositional? (g : Grammar) (s : Scan) : Option Positional := g.positionals[s.position]?

/-- The positional argument that comes next takes anything, hyphens included. -/
def positionalTakesHyphens (g : Grammar) (s : Scan) : Bool :=
  (g.nextPositional? s).any (·.hyphens)

/-- Take an argument by its place. -/
def takePositional (g : Grammar) (s : Scan) (arg : String) : Except Halt Scan :=
  match g.nextPositional? s with
  | some p => do
      let s ← settled s
      return { s with pending := .positional p arg, position := s.position + 1 }
  | none =>
      if g.commands.isEmpty || (s.trailing && g.commands.contains arg) then
        reject (.unexpectedArgument arg)
      else
        reject (.unrecognizedCommand arg)

/-- Take an argument that neither a name nor a hyphen marks. -/
def takeWord (g : Grammar) (s : Scan) (arg : String) : Except Halt Scan :=
  match s.awaiting? with
  | some o => .ok { s with pending := .option o (some arg) }
  | none => g.takePositional s arg

/-- Take an argument that begins with two hyphens and a word. -/
def takeLong (g : Grammar) (s : Scan) (arg name : String) (value : Option String) :
    Except Halt Scan :=
  if s.awaitsHyphens then g.takeWord s arg
  else
    match g.options.find? (·.long == name), g.flags.find? (·.long == name) with
    | some o, _ => do
        let s ← settled s
        match value with
        | some v => (s.takeOption o v).mapError .usage
        | none => return { s with pending := .option o none }
    | none, some f =>
        match value with
        | some v => reject (.unexpectedValue v ("--" ++ name))
        | none => do
            let _ ← settled s
            throw (.flag f)
    | none, none =>
        if g.positionalTakesHyphens s then g.takeWord s arg
        else reject (.unexpectedArgument ("--" ++ name))

/-- Take an argument that begins with one hyphen. -/
def takeShort (g : Grammar) (s : Scan) (arg : String) (first : Char) (rest : List Char) :
    Except Halt Scan :=
  let known := g.flags.map (·.short)
  if s.awaitsHyphens then g.takeWord s arg
  else if g.positionalTakesHyphens s && (first :: rest).any (!known.contains ·) then
    g.takeWord s arg
  else
    match g.flags.find? (·.short == first) with
    | some f => do
        let _ ← settled s
        throw (.flag f)
    | none => reject (.unexpectedArgument ("-" ++ String.singleton first))

/-- Take one argument. -/
def take (g : Grammar) (s : Scan) (arg : String) : Except Halt Scan :=
  if s.trailing then g.takePositional s arg
  else
    match Token.ofString arg with
    | .escape =>
        if s.awaitsHyphens then g.takeWord s arg else .ok { s with trailing := true }
    | .long name value => g.takeLong s arg name value
    | .short first rest => g.takeShort s arg first rest
    | .word => g.takeWord s arg

/-- The argument names a command below this one. -/
def startsCommand (g : Grammar) (s : Scan) (arg : String) : Bool :=
  !s.trailing && s.awaiting?.isNone && g.commands.contains arg

/-- Where a scan ended: at the end of the line, or at a command's name with
arguments left for that command. -/
structure Ended where
  scan : Scan
  command : Option (String × List String)
  deriving DecidableEq, Repr

/-- Take arguments until the line ends or a command begins. -/
def scan (g : Grammar) (s : Scan) : List String → Except Halt Ended
  | [] => .ok ⟨s, none⟩
  | arg :: rest =>
      if g.startsCommand s arg then .ok ⟨s, some (arg, rest)⟩
      else do
        let s ← g.take s arg
        g.scan s rest

end Grammar

/-! ## §4. Looking values up. -/

namespace Matches

/-- The register given for an argument. -/
def register? (m : Matches) (name : String) : Option Reg :=
  m.findSome? fun
    | (n, .register r) => if n == name then some r else none
    | _ => none

/-- Every register given for an argument. -/
def registers (m : Matches) (name : String) : List Reg :=
  m.filterMap fun
    | (n, .register r) => if n == name then some r else none
    | _ => none

/-- The operation given for an argument. -/
def operation? (m : Matches) (name : String) : Option Operation :=
  m.findSome? fun
    | (n, .operation op) => if n == name then some op else none
    | _ => none

/-- The size given for an argument. -/
def size? (m : Matches) (name : String) : Option AccessSize :=
  m.findSome? fun
    | (n, .size s) => if n == name then some s else none
    | _ => none

/-- The condition given for an argument. -/
def condition? (m : Matches) (name : String) : Option Condition :=
  m.findSome? fun
    | (n, .condition c) => if n == name then some c else none
    | _ => none

/-- The number given for an argument. -/
def integer? (m : Matches) (name : String) : Option Int :=
  m.findSome? fun
    | (n, .integer i) => if n == name then some i else none
    | _ => none

/-- The number given for an argument, as a word. -/
def word? (m : Matches) (name : String) : Option Word :=
  (BitVec.ofInt 32 ·) <$> integer? m name

end Matches

end TwoAddress.CommandLine
