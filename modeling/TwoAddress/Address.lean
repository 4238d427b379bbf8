/-
  TwoAddress.Address
  ──────────────────
  **MEMORY ADDRESSES.**

  An address is `base + index · 2^scale + disp`.  Without an index it is
  plain, with one it is of array form.  `Address.array` admits the scales that
  the encoding admits; the bare constructor admits any.
-/
import TwoAddress.Fault

namespace TwoAddress

/-- The address `base + index · 2^scale + disp`. -/
structure Address where
  base : Reg
  index : Reg := .absent
  scale : UInt8 := 0
  disp : Word
  deriving DecidableEq, Repr

namespace Address

/-- An address without an index. -/
def plain (base : Reg) (disp : Word) : Address := { base, disp }

/-- An address with an index and one of the four encodable scales. -/
def array (base index : Reg) (scale : UInt8) (disp : Word) : Except Fault Address :=
  if scale ≤ 3 then .ok { base, index, scale, disp } else .error (.scaleRange scale)

/-- The address has an index. -/
def isArray (a : Address) : Bool := !a.index.isAbsent

/-- The address as a note about it shows it.  The factor is shown as an
eight-bit number, so a scale past 7 cannot be shown. -/
def render (a : Address) : Except Fault String :=
  if a.isArray then
    if a.scale < 8 then
      .ok ("[" ++ a.base.text ++ "+" ++ a.index.text ++ "*" ++
        toString (1 <<< a.scale.toNat) ++ a.disp.signedText ++ "]")
    else
      .error .shiftRange
  else
    .ok ("[" ++ a.base.text ++ a.disp.signedText ++ "]")

end Address

end TwoAddress
