/-
  TwoAddress.Register.Pair
  ────────────────────────
  **TWO SINGLES AS ONE DOUBLE.**

  A 64-bit floating-point value may be named by the two xmm registers that a
  register allocator gave its halves.  They stand for one double when they
  are neighbours, low half first.
-/
import TwoAddress.Fault

namespace TwoAddress

/-- The double that two xmm registers stand for: neighbours, low half first. -/
def Reg.pair : Reg → Reg → Except Fault Reg
  | .xmm lo, .xmm hi =>
      if lo.index = 255 then .error .indexOverflow
      else if lo.index + 1 = hi.index then .ok (.double lo.index)
      else .error (.pairGap (lo.index + 1) hi.index)
  | lo, hi =>
      .error (.violation (.registerClass (lo.text ++ "/" ++ hi.text) "a floating-point pair"))

end TwoAddress
