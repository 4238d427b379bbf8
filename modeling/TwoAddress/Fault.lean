/-
  TwoAddress.Fault
  ────────────────
  **WHAT CAN GO WRONG, AND HOW IT IS REPORTED.**

  Two tiers.  A `Violation` is a request no correct caller makes; it is
  logged before the computation stops.  The other faults are broken internal
  conditions (operand counts, alignment, register classes) and machine
  errors; they stop the computation without a log line.  Each carries its
  cause; `Fault.message` holds every wording.

  The builds described are those with debug assertions.  Only they check the
  internal conditions, and arithmetic for overflow; a build without them goes
  on where such a fault stops the computation here.  Violations, unknown
  records and errors of the machine's registers stop either.
-/
import TwoAddress.Word
import TwoAddress.Register
import TwoAddress.Opcode
import TwoAddress.Operation
import TwoAddress.Size

namespace TwoAddress

/-! ## §1. Record identifiers. -/

/-- The position of a record in the stream it was appended to.  A handle of 32
bits is such a position as long as there are at most 2³² records; past that
limit it would wrap, and positions here do not. -/
structure RecordId where
  index : Nat
  deriving DecidableEq, Repr

/-- A record as listings refer to it. -/
def RecordId.label (id : RecordId) : String := "L" ++ toString id.index

/-! ## §2. Contract violations. -/

/-- A request that breaks the contract between the synthesizers and their
caller.  Operands appear as the diagnostic names them. -/
inductive Violation where
  /-- The operation does not exist in this shape. -/
  | unsupported (op : String) (shape : Shape)
  /-- The condition has no jump field. -/
  | unencodable (cc : String)
  /-- A register stands where its class is not admitted. -/
  | registerClass (reg role : String)
  /-- The second half of a split access would lie past the last displacement. -/
  | displacementOverflow (disp : Word)
  /-- The scratch pool refused. -/
  | scratchUnavailable (reason : String)
  deriving DecidableEq, Repr

/-- The diagnostic of a violation. -/
def Violation.message : Violation → String
  | unsupported op shape => "Bad case in Op" ++ shape.name ++ ": " ++ op
  | unencodable cc => "Condition code " ++ cc ++ " has no x86 encoding"
  | registerClass reg role => "Register " ++ reg ++ " cannot be used as " ++ role
  | displacementOverflow disp =>
      "Displacement " ++ disp.hexText ++ " leaves no room for the high word"
  | scratchUnavailable reason => "Scratch register unavailable: " ++ reason

/-! ## §3. Faults. -/

/-- Why a computation stopped. -/
inductive Fault where
  /-- The caller broke the contract. -/
  | violation (v : Violation)
  /-- An instruction was built with the wrong number of operands. -/
  | operandCount (op : Opcode) (given : Nat)
  /-- The index shift of an address exceeds 3. -/
  | scaleRange (scale : UInt8)
  /-- Two xmm registers that should hold one double are not neighbours. -/
  | pairGap (expected found : UInt8)
  /-- No xmm register follows the last index. -/
  | indexOverflow
  /-- A shift distance lies outside the width of the shifted value. -/
  | shiftRange
  /-- A copy joins a double with a register that is none. -/
  | mixedCopy (dest src : Reg)
  /-- A 32-bit constant was asked for in a double. -/
  | constantInDouble (dest : Reg)
  /-- The high half of a wide floating-point constant is no xmm register. -/
  | wideHighHalf (hi : Reg)
  /-- An immediate operation was asked for in an xmm register. -/
  | immediateIntoXmm (reg : Reg)
  /-- The scratch register is one of the operands it must not disturb. -/
  | scratchAliases (reg : Reg)
  /-- A displacement does not have the alignment of its size. -/
  | misaligned (size : AccessSize) (disp : Word)
  /-- A 64-bit transfer through general-purpose registers lacks its second one. -/
  | splitHighHalf
  /-- A 32-bit transfer names a double. -/
  | wordThroughDouble (reg : Reg)
  /-- A byte store names a register without a low byte. -/
  | byteStore (reg : Reg)
  /-- A target was attached to a record that does not branch. -/
  | notABranch
  /-- There is no such record. -/
  | unknownRecord (id : RecordId)
  /-- The machine needed a general-purpose register. -/
  | notGp (reg : Reg)
  /-- The machine needed an xmm register. -/
  | notXmm (reg : Reg)
  /-- An index lies outside a table of the given length. -/
  | outOfBounds (length index : Nat)
  deriving DecidableEq, Repr

namespace Fault

/-- The report of a condition that should have held, with both values. -/
def mismatch (rule left right : String) : String :=
  "assertion `left == right` failed: " ++ rule ++
    "\n  left: " ++ left ++ "\n right: " ++ right

/-- The report of a fault. -/
def message : Fault → String
  | violation v => v.message
  | operandCount op given =>
      mismatch (op.name ++ " expects " ++ toString op.arity ++ " operands")
        (toString given) (toString op.arity)
  | scaleRange scale => "scale shift out of range: " ++ toString scale.toNat
  | pairGap expected found =>
      mismatch "fp pair must be contiguous"
        (toString expected.toNat) (toString found.toNat)
  | indexOverflow => "attempt to add with overflow"
  | shiftRange => "attempt to shift left with overflow"
  | mixedCopy dest src =>
      mismatch
        ("copy " ++ src.text ++ " -> " ++ dest.text ++
          " mixes double and non-double registers")
        (toString dest.isDouble) (toString src.isDouble)
  | constantInDouble dest => "only single-precision immediates: " ++ dest.text
  | wideHighHalf hi => "wide fp constant needs an fp high half: " ++ hi.text
  | immediateIntoXmm reg => "alu immediate into fp register " ++ reg.text
  | scratchAliases reg => "scratch " ++ reg.text ++ " aliases an operand"
  | misaligned size disp =>
      "misaligned " ++ size.name ++ " access at displacement " ++ disp.decimalText
  | splitHighHalf => "split 64-bit transfer needs a gp high half"
  | wordThroughDouble reg => "32-bit transfer through " ++ reg.text
  | byteStore reg => "byte store from " ++ reg.text
  | notABranch =>
      "assertion failed: lir.opcode.info().flags.contains(OpcodeFlags::IS_BRANCH)"
  | unknownRecord id => "unknown LIR record LirId(" ++ toString id.index ++ ")"
  | notGp reg => reg.text ++ " is not a general-purpose register"
  | notXmm reg => reg.text ++ " is not an xmm register"
  | outOfBounds length index =>
      "index out of bounds: the len is " ++ toString length ++
        " but the index is " ++ toString index

end Fault

end TwoAddress
