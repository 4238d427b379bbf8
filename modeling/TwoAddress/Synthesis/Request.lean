/-
  TwoAddress.Synthesis.Request
  ────────────────────────────
  **REQUESTS.**

  Everything a caller may ask of the synthesizers, as data.  A request's
  synthesis is the tree that meets it; its reply says what came of it.
-/
import TwoAddress.Synthesis.Arithmetic
import TwoAddress.Synthesis.Transfer
import TwoAddress.Synthesis.Control

namespace TwoAddress

/-- A request to the synthesizers. -/
inductive Request where
  /-- `dest ← src`. -/
  | copy (dest src : Reg)
  /-- The copy `dest ← src`, built and not appended. -/
  | detachedCopy (dest src : Reg)
  /-- `dest ← value`. -/
  | constant (dest : Reg) (value : Word)
  /-- Whether a constant is cheap enough to be made again when needed. -/
  | isCheapConstant (dest : Reg) (value : Word)
  /-- A 64-bit constant into two registers. -/
  | constantPair (lo hi : Reg) (valueLo valueHi : Word)
  /-- `op dest`. -/
  | unary (op : Operation) (dest : Reg)
  /-- `dest op= value`. -/
  | binaryImm (op : Operation) (dest : Reg) (value : Word)
  /-- `dest op= src`. -/
  | binary (op : Operation) (dest src : Reg)
  /-- `dest op= [base + disp]`. -/
  | binaryMem (op : Operation) (dest base : Reg) (disp : Word)
  /-- Call through `[base + disp]`. -/
  | callMem (op : Operation) (base : Reg) (disp : Word)
  /-- Call through an entry of the thread block. -/
  | callThread (op : Operation) (offset : Word)
  /-- `dest = src1 op src2`. -/
  | ternary (op : Operation) (dest src1 src2 : Reg)
  /-- `dest = src op value`. -/
  | ternaryImm (op : Operation) (dest src : Reg) (value : Word)
  /-- A typed load or store. -/
  | transfer (t : Transfer)
  /-- An unconditional jump. -/
  | jump (target : Option RecordId)
  /-- A conditional jump. -/
  | jumpIf (cond : Condition) (target : Option RecordId)
  /-- Point an appended branch at a target. -/
  | attachTarget (branch target : RecordId)
  deriving DecidableEq, Repr

/-- What came of a request. -/
inductive Reply where
  /-- The record that stands for the result. -/
  | appended (id : RecordId)
  /-- An instruction that was built and not appended. -/
  | detached (i : Instruction)
  /-- A yes or no. -/
  | answer (b : Bool)
  /-- Nothing to tell. -/
  | done
  deriving DecidableEq, Repr

namespace Request

/-- The synthesis that meets a request. -/
def synthesis : Request → Synthesis Reply
  | copy dest src => .appended <$> Synthesis.copy dest src
  | detachedCopy dest src =>
      .detached <$> Synthesis.ofExcept (Synthesis.copyInstruction dest src)
  | constant dest value => .appended <$> Synthesis.constant dest value
  | isCheapConstant dest value => return .answer (Synthesis.isCheapConstant dest value)
  | constantPair lo hi valueLo valueHi =>
      .appended <$> Synthesis.constantPair lo hi valueLo valueHi
  | unary op dest => .appended <$> Synthesis.unary op dest
  | binaryImm op dest value => .appended <$> Synthesis.binaryImm op dest value
  | binary op dest src => .appended <$> Synthesis.binary op dest src
  | binaryMem op dest base disp => .appended <$> Synthesis.binaryMem op dest base disp
  | callMem op base disp => .appended <$> Synthesis.callMem op base disp
  | callThread op offset => .appended <$> Synthesis.callThread op offset
  | ternary op dest src1 src2 => .appended <$> Synthesis.ternary op dest src1 src2
  | ternaryImm op dest src value => .appended <$> Synthesis.ternaryImm op dest src value
  | transfer t => .appended <$> Synthesis.transfer t
  | jump target => .appended <$> Synthesis.jump target
  | jumpIf cond target => .appended <$> Synthesis.jumpIf cond target
  | attachTarget branch target => do
      Synthesis.attachTarget branch (some target)
      return .done

end Request

end TwoAddress
