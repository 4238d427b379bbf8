/-
  TwoAddress.Opcode.Mnemonic
  ──────────────────────────
  **ASSEMBLER MNEMONICS.**

  The mnemonics under which the opcodes of this library are listed, with the
  sixteen conditional jumps at the end.
-/

namespace TwoAddress

/-- What an assembler listing calls an instruction. -/
inductive Mnemonic where
  | neg | not | call | mov | add | or | adc | and | sub | xor | cmp | sal
  | shr | sar | imul | sbb | ror | movsx | movzx | lea | movss | movsd | movd
  | xorps | orps | psllq | jmp | jo | jno | jb | jae | je | jne | jbe | ja
  | js | jns | jp | jnp | jl | jge | jle | jg
  deriving DecidableEq, Repr

namespace Mnemonic

/-- The mnemonic as it is written in a listing. -/
def text : Mnemonic → String
  | neg => "neg"
  | not => "not"
  | call => "call"
  | mov => "mov"
  | add => "add"
  | or => "or"
  | adc => "adc"
  | and => "and"
  | sub => "sub"
  | xor => "xor"
  | cmp => "cmp"
  | sal => "sal"
  | shr => "shr"
  | sar => "sar"
  | imul => "imul"
  | sbb => "sbb"
  | ror => "ror"
  | movsx => "movsx"
  | movzx => "movzx"
  | lea => "lea"
  | movss => "movss"
  | movsd => "movsd"
  | movd => "movd"
  | xorps => "xorps"
  | orps => "orps"
  | psllq => "psllq"
  | jmp => "jmp"
  | jo => "jo"
  | jno => "jno"
  | jb => "jb"
  | jae => "jae"
  | je => "je"
  | jne => "jne"
  | jbe => "jbe"
  | ja => "ja"
  | js => "js"
  | jns => "jns"
  | jp => "jp"
  | jnp => "jnp"
  | jl => "jl"
  | jge => "jge"
  | jle => "jle"
  | jg => "jg"

end Mnemonic

end TwoAddress
