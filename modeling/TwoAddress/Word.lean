/-
  TwoAddress.Word
  ───────────────
  **WORDS AND THEIR TEXT.**

  To the machine a register content, an immediate and a displacement are the
  same thing: 32 bits.  `Word` is that type; whether a word is read as signed
  is decided by who reads it.  This file fixes the two readings that matter
  to instruction selection (does the value fit the one-byte immediate form?)
  and the three spellings a listing uses (decimal, decimal with an explicit
  sign, hexadecimal).
-/

namespace TwoAddress

/-- Eight bits of memory. -/
abbrev Byte := BitVec 8

/-- Thirty-two bits: a register content, an immediate or a displacement. -/
abbrev Word := BitVec 32

namespace Word

/-! ## §1. Readings. -/

/-- The signed reading lies in `-128 … 127`, so the value can be carried by
the sign-extended one-byte immediate form. -/
def fitsByte (v : Word) : Bool :=
  decide (-128 ≤ v.toInt) && decide (v.toInt ≤ 127)

/-- The word four above `v`, unless the signed reading would overflow. -/
def plusFour? (v : Word) : Option Word :=
  if v.toInt + 4 < 0x80000000 then some (v + 4) else none

/-! ## §2. Spellings. -/

/-- The signed reading in decimal. -/
def decimalText (v : Word) : String := toString v.toInt

/-- The signed reading in decimal, with a sign also when it is not negative. -/
def signedText (v : Word) : String :=
  if v.toInt < 0 then v.decimalText else "+" ++ v.decimalText

/-- The unsigned reading in lower-case hexadecimal, without leading zeros. -/
def hexText (v : Word) : String :=
  "0x" ++ String.ofList (Nat.toDigits 16 v.toNat)

end Word

end TwoAddress
