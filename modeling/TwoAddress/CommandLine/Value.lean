/-
  TwoAddress.CommandLine.Value
  ────────────────────────────
  **ARGUMENT VALUES.**

  Readers for the values a command line mentions: registers, operations,
  sizes, conditions and integers.  Letter case never matters.  Every refusal
  carries its cause; `ValueError.reason` holds the wordings.
-/
import TwoAddress.Condition
import TwoAddress.Operation
import TwoAddress.Register
import TwoAddress.Size
import TwoAddress.Word

namespace TwoAddress.CommandLine

/-! ## §1. Refusals. -/

/-- Why an argument was not accepted. -/
inductive ValueError where
  | badXmm (s : String)
  | noSuchXmm (index : Nat)
  | unknownRegister (s : String)
  | unknownOperation (s : String)
  | unknownSize (s : String)
  | unknownCondition (s : String)
  | emptyNumber
  | invalidDigit
  | tooLarge
  | tooSmall
  | outOfRange (n lo hi : Int)
  deriving DecidableEq, Repr

/-- The wording of a refusal. -/
def ValueError.reason : ValueError → String
  | badXmm s => "bad xmm register '" ++ s ++ "'"
  | noSuchXmm index => "xmm" ++ toString index ++ " does not exist on x86-32"
  | unknownRegister s => "unknown register '" ++ s ++ "'"
  | unknownOperation s => "unknown operation '" ++ s ++ "'"
  | unknownSize s => "unknown operand size '" ++ s ++ "'"
  | unknownCondition s => "unknown condition '" ++ s ++ "'"
  | emptyNumber => "cannot parse integer from empty string"
  | invalidDigit => "invalid digit found in string"
  | tooLarge => "number too large to fit in target type"
  | tooSmall => "number too small to fit in target type"
  | outOfRange n lo hi =>
      toString n ++ " is not in " ++ toString lo ++ "..=" ++ toString hi

/-! ## §2. Names. -/

/-- The characters of a text with ASCII capitals made small. -/
def lowerCase (s : String) : List Char := s.toList.map Char.toLower

/-- The value of a decimal digit. -/
def digitValue (c : Char) : Nat := c.toNat - '0'.toNat

/-- The number that a row of decimal digits spells. -/
def digitsValue (cs : List Char) : Nat := cs.foldl (fun n c => 10 * n + digitValue c) 0

/-- An unsigned number of at most eight bits: digits, with a plus sign or
without. -/
def readByte? (cs : List Char) : Option Nat :=
  let digits := match cs with
    | '+' :: rest => rest
    | _ => cs
  if digits ≠ [] ∧ digits.all Char.isDigit ∧ digitsValue digits ≤ 255 then
    some (digitsValue digits)
  else
    none

/-- The index part of an xmm register's name, and the precision that a final
`d` gives it. -/
def splitPrecision (cs : List Char) : List Char × Precision :=
  if cs.getLast? = some 'd' then (cs.dropLast, .double) else (cs, .single)

/-- A register by name. -/
def readRegister (s : String) : Except ValueError Reg :=
  match lowerCase s with
  | 'x' :: 'm' :: 'm' :: rest =>
      let (index, precision) := splitPrecision rest
      match readByte? index with
      | none => .error (.badXmm s)
      | some n =>
          if n < 8 then .ok (.xmm ⟨UInt8.ofNat n, precision⟩) else .error (.noSuchXmm n)
  | cs =>
      match GpReg.all.find? fun r => r.name.toList == cs with
      | some r => .ok (.gp r)
      | none => .error (.unknownRegister s)

/-- An operation by name; hyphens and underscores do not count. -/
def readOperation (s : String) : Except ValueError Operation :=
  let wanted := (lowerCase s).filter fun c => c != '-' && c != '_'
  match Operation.all.find? fun op => lowerCase op.name == wanted with
  | some op => .ok op
  | none => .error (.unknownOperation s)

/-- The names of the access sizes. -/
def sizeNames : List (String × AccessSize) :=
  [("word", .word), ("long", .long), ("single", .single), ("double", .double),
   ("byte", .signedByte), ("signed-byte", .signedByte),
   ("ubyte", .unsignedByte), ("unsigned-byte", .unsignedByte),
   ("half", .signedHalf), ("signed-half", .signedHalf),
   ("uhalf", .unsignedHalf), ("unsigned-half", .unsignedHalf)]

/-- An access size by name. -/
def readSize (s : String) : Except ValueError AccessSize :=
  match sizeNames.find? fun e => e.1.toList == lowerCase s with
  | some e => .ok e.2
  | none => .error (.unknownSize s)

/-- A condition by name. -/
def readCondition (s : String) : Except ValueError Condition :=
  match Condition.all.find? fun c => lowerCase c.name == lowerCase s with
  | some c => .ok c
  | none => .error (.unknownCondition s)

/-! ## §3. Integers. -/

/-- Read digits from left to right, stopping at the first one that is no digit
or that takes the number past a limit. -/
def readDigits (limit : Nat) (past : ValueError) : Nat → List Char → Except ValueError Nat
  | n, [] => .ok n
  | n, c :: rest =>
      if !c.isDigit then .error .invalidDigit
      else if limit < 10 * n + digitValue c then .error past
      else readDigits limit past (10 * n + digitValue c) rest

/-- A signed number of 64 bits. -/
def readInt64 (s : String) : Except ValueError Int :=
  match s.toList with
  | [] => .error .emptyNumber
  | ['+'] | ['-'] => .error .invalidDigit
  | '-' :: rest => (fun n => -(n : Int)) <$> readDigits 0x8000000000000000 .tooSmall 0 rest
  | '+' :: rest => (fun n => (n : Int)) <$> readDigits 0x7FFFFFFFFFFFFFFF .tooLarge 0 rest
  | cs => (fun n => (n : Int)) <$> readDigits 0x7FFFFFFFFFFFFFFF .tooLarge 0 cs

/-- A number between two bounds. -/
def readInteger (lo hi : Int) (s : String) : Except ValueError Int := do
  let n ← readInt64 s
  if lo ≤ n ∧ n ≤ hi then return n else throw (.outOfRange n lo hi)

/-! ## §4. Kinds of values. -/

/-- What kind of value an argument takes. -/
inductive Kind where
  | register
  | operation
  | size
  | condition
  | integer (lo hi : Int)
  deriving DecidableEq, Repr

/-- Signed 32-bit numbers. -/
def Kind.signed32 : Kind := .integer (-0x80000000) 0x7FFFFFFF

/-- Unsigned 32-bit numbers. -/
def Kind.unsigned32 : Kind := .integer 0 0xFFFFFFFF

/-- Unsigned 8-bit numbers. -/
def Kind.unsigned8 : Kind := .integer 0 255

/-- The value of an argument. -/
inductive Value where
  | register (r : Reg)
  | operation (op : Operation)
  | size (s : AccessSize)
  | condition (c : Condition)
  | integer (n : Int)
  deriving DecidableEq, Repr

/-- Read a value of a given kind. -/
def Kind.read (k : Kind) (s : String) : Except ValueError Value :=
  match k with
  | register => .register <$> readRegister s
  | operation => .operation <$> readOperation s
  | size => .size <$> readSize s
  | condition => .condition <$> readCondition s
  | integer lo hi => .integer <$> readInteger lo hi s

end TwoAddress.CommandLine
