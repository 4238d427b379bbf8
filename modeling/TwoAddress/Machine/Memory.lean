/-
  TwoAddress.Machine.Memory
  ─────────────────────────
  **BYTE MEMORY.**

  A byte for each of the 2^32 addresses.  Values of up to eight bytes are
  kept with the least significant byte first, and addresses wrap around.
-/
import TwoAddress.Word

namespace TwoAddress

/-- The content of every address. -/
@[ext] structure Memory where
  byteAt : Word → Byte

namespace Memory

/-- Every byte is zero. -/
def zero : Memory := ⟨fun _ => 0⟩

/-- Replace one byte. -/
def setByte (m : Memory) (a : Word) (b : Byte) : Memory :=
  ⟨fun x => if x = a then b else m.byteAt x⟩

/-- The first `n` bytes at an address, least significant first. -/
def read (m : Memory) (a : Word) : Nat → BitVec 64
  | 0 => 0
  | n + 1 => (m.byteAt a).setWidth 64 ||| (m.read (a + 1) n <<< 8)

/-- Put the low `n` bytes of a value at an address, least significant first. -/
def write (m : Memory) (a : Word) : Nat → BitVec 64 → Memory
  | 0, _ => m
  | n + 1, v => (m.setByte a (v.setWidth 8)).write (a + 1) n (v >>> 8)

/-- The 32-bit word at an address. -/
def word (m : Memory) (a : Word) : Word := (m.read a 4).setWidth 32

/-- Put a 32-bit word at an address. -/
def setWord (m : Memory) (a v : Word) : Memory := m.write a 4 (v.setWidth 64)

end Memory

end TwoAddress
