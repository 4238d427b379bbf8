/-
  TwoAddress.Condition
  ────────────────────
  **BRANCH CONDITIONS.**

  `Condition` is the machine-independent test of a conditional branch;
  `CcField` is the four-bit condition field of a conditional jump.  Two of
  the sixteen conditions, "always" and "never", have no field.
-/
import TwoAddress.Word
import TwoAddress.Opcode.Mnemonic

namespace TwoAddress

/-! ## §1. The condition field. -/

/-- The condition field of a conditional jump, in encoding order. -/
inductive CcField where
  | o | no | c | nc | z | nz | be | nbe | s | ns | p | np | l | nl | le | nle
  deriving DecidableEq, Repr

namespace CcField

/-- Every condition field, in encoding order. -/
def all : List CcField :=
  [o, no, c, nc, z, nz, be, nbe, s, ns, p, np, l, nl, le, nle]

/-- The four-bit number in the instruction. -/
def encoding : CcField → Fin 16
  | o => 0 | no => 1 | c => 2 | nc => 3 | z => 4 | nz => 5 | be => 6 | nbe => 7
  | s => 8 | ns => 9 | p => 10 | np => 11 | l => 12 | nl => 13 | le => 14 | nle => 15

/-- The field with a given number, reading the number as signed. -/
def ofEncoding? (v : Word) : Option CcField :=
  all.find? fun f => (f.encoding.val : Int) == v.toInt

/-- The jump that tests this condition. -/
def mnemonic : CcField → Mnemonic
  | o => .jo | no => .jno | c => .jb | nc => .jae
  | z => .je | nz => .jne | be => .jbe | nbe => .ja
  | s => .js | ns => .jns | p => .jp | np => .jnp
  | l => .jl | nl => .jge | le => .jle | nle => .jg

/-- The field's name. -/
def name : CcField → String
  | o => "O" | no => "No" | c => "C" | nc => "Nc"
  | z => "Z" | nz => "Nz" | be => "Be" | nbe => "Nbe"
  | s => "S" | ns => "Ns" | p => "P" | np => "Np"
  | l => "L" | nl => "Nl" | le => "Le" | nle => "Nle"

end CcField

/-! ## §2. Conditions. -/

/-- A machine-independent branch condition. -/
inductive Condition where
  | eq | ne | cs | cc | mi | pl | vs | vc | hi | ls | ge | lt | gt | le | al | nv
  deriving DecidableEq, Repr

namespace Condition

/-- Every condition. -/
def all : List Condition :=
  [eq, ne, cs, cc, mi, pl, vs, vc, hi, ls, ge, lt, gt, le, al, nv]

/-- The name under which diagnostics report the condition. -/
def name : Condition → String
  | eq => "Eq" | ne => "Ne" | cs => "Cs" | cc => "Cc"
  | mi => "Mi" | pl => "Pl" | vs => "Vs" | vc => "Vc"
  | hi => "Hi" | ls => "Ls" | ge => "Ge" | lt => "Lt"
  | gt => "Gt" | le => "Le" | al => "Al" | nv => "Nv"

/-- The condition with a given name. -/
def ofName? (s : String) : Option Condition := all.find? fun c => c.name == s

/-- The jump field that tests the condition; "always" and "never" have none. -/
def field? : Condition → Option CcField
  | eq => some .z | ne => some .nz | cs => some .c | cc => some .nc
  | mi => some .s | pl => some .ns | vs => some .o | vc => some .no
  | hi => some .nbe | ls => some .be | ge => some .nl | lt => some .l
  | gt => some .nle | le => some .le
  | al => none | nv => none

end Condition

end TwoAddress
