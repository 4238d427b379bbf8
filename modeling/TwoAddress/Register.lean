/-
  TwoAddress.Register
  ───────────────────
  **THE REGISTER FILES.**

  Eight general-purpose registers, numbered as the instruction encoding
  numbers them, and an xmm file whose members are named with the precision
  they are used at.  `Reg` is the operand type the synthesizers work with: it
  adds the absent register, which marks an unused operand slot.
-/

namespace TwoAddress

/-! ## §1. General-purpose registers. -/

/-- The eight 32-bit general-purpose registers, in encoding order. -/
inductive GpReg where
  | eax | ecx | edx | ebx | esp | ebp | esi | edi
  deriving DecidableEq, Repr

namespace GpReg

/-- Every general-purpose register, in encoding order. -/
def all : List GpReg := [eax, ecx, edx, ebx, esp, ebp, esi, edi]

/-- The three-bit number that names the register in an instruction. -/
def encoding : GpReg → Fin 8
  | eax => 0 | ecx => 1 | edx => 2 | ebx => 3
  | esp => 4 | ebp => 5 | esi => 6 | edi => 7

/-- The register with a given number. -/
def ofEncoding : Fin 8 → GpReg
  | 0 => eax | 1 => ecx | 2 => edx | 3 => ebx
  | 4 => esp | 5 => ebp | 6 => esi | 7 => edi

/-- The register with a given number, if the number names one. -/
def ofEncoding? (n : Nat) : Option GpReg :=
  if h : n < 8 then some (ofEncoding ⟨n, h⟩) else none

/-- The assembler name. -/
def name : GpReg → String
  | eax => "eax" | ecx => "ecx" | edx => "edx" | ebx => "ebx"
  | esp => "esp" | ebp => "ebp" | esi => "esi" | edi => "edi"

/-- The name in capitals, as hardware manuals print it. -/
def hardwareName : GpReg → String
  | eax => "EAX" | ecx => "ECX" | edx => "EDX" | ebx => "EBX"
  | esp => "ESP" | ebp => "EBP" | esi => "ESI" | edi => "EDI"

/-- The low byte of the register can be named as an operand. -/
def byteAddressable : GpReg → Bool
  | eax | ecx | edx | ebx => true
  | esp | ebp | esi | edi => false

@[simp] theorem ofEncoding_encoding (r : GpReg) : ofEncoding r.encoding = r := by
  cases r <;> rfl

theorem encoding_ofEncoding (n : Fin 8) : (ofEncoding n).encoding = n := by
  revert n; decide

theorem mem_all (r : GpReg) : r ∈ all := by
  cases r <;> decide

end GpReg

/-! ## §2. Floating-point registers. -/

/-- How much of an xmm register a value occupies. -/
inductive Precision where
  | single | double
  deriving DecidableEq, Repr

/-- An xmm register, used at one precision.  Indices past the eight that the
machine has can be written down; using one is caught where it matters. -/
structure XmmReg where
  index : UInt8
  precision : Precision
  deriving DecidableEq, Repr

/-! ## §3. Operand registers. -/

/-- A register as an operand: possibly none at all. -/
inductive Reg where
  | absent
  | gp (r : GpReg)
  | xmm (r : XmmReg)
  deriving DecidableEq, Repr

namespace Reg

/-- The xmm register of an index, holding a single-precision value. -/
def single (index : UInt8) : Reg := .xmm ⟨index, .single⟩

/-- The xmm register of an index, holding a double-precision value. -/
def double (index : UInt8) : Reg := .xmm ⟨index, .double⟩

/-- Variable shift counts live in `ecx`. -/
def counter : Reg := .gp .ecx

/-- The stack pointer. -/
def stackPointer : Reg := .gp .esp

/-- No register stands here. -/
def isAbsent : Reg → Bool
  | absent => true
  | _ => false

/-- A general-purpose register. -/
def isGp : Reg → Bool
  | gp _ => true
  | _ => false

/-- An xmm register of either precision. -/
def isXmm : Reg → Bool
  | xmm _ => true
  | _ => false

/-- An xmm register holding a single-precision value. -/
def isSingle : Reg → Bool
  | xmm ⟨_, .single⟩ => true
  | _ => false

/-- An xmm register holding a double-precision value. -/
def isDouble : Reg → Bool
  | xmm ⟨_, .double⟩ => true
  | _ => false

/-- A general-purpose register whose low byte can be named. -/
def byteAddressable : Reg → Bool
  | gp r => r.byteAddressable
  | _ => false

/-- The encoding number of a general-purpose register. -/
def gpEncoding? : Reg → Option (Fin 8)
  | gp r => some r.encoding
  | _ => none

/-- The register as a listing shows it.  A single is shown under the machine
register it stands for, a double under its own index. -/
def text : Reg → String
  | absent => "<none>"
  | gp r => r.name
  | xmm ⟨i, .single⟩ => "xmm" ++ toString (i.toNat % 8)
  | xmm ⟨i, .double⟩ => "xmm" ++ toString i.toNat ++ "d"

/-- The machine register an operand stands for, if any. -/
def hardwareName? : Reg → Option String
  | absent => none
  | gp r => some r.hardwareName
  | xmm r => some ("XMM" ++ toString (r.index.toNat % 8))

end Reg

end TwoAddress
