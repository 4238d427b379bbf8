/-
  TwoAddress.Size
  ───────────────
  **SIZES OF MEMORY ACCESSES.**

  A typed access fixes how many bytes move, how the displacement must be
  aligned, and whether the value spans two 32-bit units.
-/

namespace TwoAddress

/-- The type of a memory access. -/
inductive AccessSize where
  | word | long | single | double
  | signedByte | unsignedByte | signedHalf | unsignedHalf
  deriving DecidableEq, Repr

namespace AccessSize

/-- Every size. -/
def all : List AccessSize :=
  [word, long, single, double, signedByte, unsignedByte, signedHalf, unsignedHalf]

/-- The name under which diagnostics report the size. -/
def name : AccessSize → String
  | word => "Word" | long => "Long" | single => "Single" | double => "Double"
  | signedByte => "SignedByte" | unsignedByte => "UnsignedByte"
  | signedHalf => "SignedHalf" | unsignedHalf => "UnsignedHalf"

/-- Number of bytes moved. -/
def bytes : AccessSize → Nat
  | long | double => 8
  | word | single => 4
  | signedHalf | unsignedHalf => 2
  | signedByte | unsignedByte => 1

/-- The displacement must be a multiple of this. -/
def alignment : AccessSize → Nat
  | long | double | word | single => 4
  | signedHalf | unsignedHalf => 2
  | signedByte | unsignedByte => 1

/-- The value spans two 32-bit units. -/
def isWide : AccessSize → Bool
  | long | double => true
  | _ => false

/-- One byte moves, whatever its extension. -/
def isByte : AccessSize → Bool
  | signedByte | unsignedByte => true
  | _ => false

end AccessSize

end TwoAddress
