/-
  TwoAddress.Synthesis
  ────────────────────
  **SYNTHESIS AS A TREE OF REQUESTS.**

  A synthesizer does not own the code it produces.  It asks a compilation
  unit to append instructions, to lend and take back scratch registers, to
  point branches at targets and to note frame slots, and its next step may
  depend on the answers.  `Synthesis α` is that dialogue as a tree: a node per
  request, a branch per answer, results and faults at the leaves.

    • §1 the notes a synthesizer leaves about its choices;
    • §2 the tree and its monad;
    • §3 the single requests;
    • §4 compilation units, and what a tree does in one (`Synthesis.runIn`).
-/
import TwoAddress.Address
import TwoAddress.Effect
import TwoAddress.Instruction

namespace TwoAddress

/-! ## §1. Notes. -/

/-- A remark on how a request was met, for whoever reads the log. -/
inductive Note where
  | addAsShift (dest src : Reg)
  | addAsLea (dest src1 src2 : Reg)
  | subAsNegate (dest src : Reg)
  | throughScratch (dest src : Reg) (op : Operation) (scratch : Reg)
  | maskAsMovzx8 (dest src : Reg)
  | maskAsMovzx16 (dest src : Reg)
  | addImmAsLea (dest src : Reg) (value : Word)
  | highHalfFirst (address : Address)
  deriving DecidableEq, Repr

/-- The text of a remark. -/
def Note.render : Note → Except Fault String
  | addAsShift d s => .ok (d.text ++ " = " ++ s.text ++ " + " ++ s.text ++ " as copy and shift")
  | addAsLea d s t => .ok (d.text ++ " = " ++ s.text ++ " + " ++ t.text ++ " as lea")
  | subAsNegate d s => .ok (d.text ++ " = " ++ s.text ++ " - " ++ d.text ++ " as negate and add")
  | throughScratch d s op t =>
      .ok (d.text ++ " = " ++ s.text ++ " " ++ op.name ++ " " ++ d.text ++
        " through scratch " ++ t.text)
  | maskAsMovzx8 d s => .ok (d.text ++ " = " ++ s.text ++ " & 0xff as movzx8")
  | maskAsMovzx16 d s => .ok (d.text ++ " = " ++ s.text ++ " & 0xffff as movzx16")
  | addImmAsLea d s v => .ok (d.text ++ " = " ++ s.text ++ " + " ++ v.decimalText ++ " as lea")
  | highHalfFirst a => do
      let address ← a.render
      return address ++ ": base is the low half, high half first"

/-! ## §2. The tree. -/

/-- What a synthesizer asks of its compilation unit, and what it makes of the
answers. -/
inductive Synthesis (α : Type) where
  /-- Finished, with a result. -/
  | done (a : α)
  /-- Stopped. -/
  | fail (f : Fault)
  /-- Append an instruction; the answer is where it went. -/
  | append (i : Instruction) (next : RecordId → Synthesis α)
  /-- Point an appended branch at a target. -/
  | retarget (id : RecordId) (target : Option RecordId) (next : Synthesis α)
  /-- Borrow a register other than the excluded ones; the answer is which. -/
  | borrow (exclude : List Reg) (next : Reg → Synthesis α)
  /-- Give a borrowed register back. -/
  | release (r : Reg) (next : Synthesis α)
  /-- Say which frame slot a record accesses. -/
  | annotate (id : RecordId) (access : SlotAccess) (next : Synthesis α)
  /-- Leave a remark. -/
  | note (n : Note) (next : Synthesis α)

namespace Synthesis

variable {α β γ σ : Type}

/-- Continue every finished branch. -/
def bind : Synthesis α → (α → Synthesis β) → Synthesis β
  | done a, k => k a
  | fail f, _ => fail f
  | append i next, k => append i fun id => (next id).bind k
  | retarget id target next, k => retarget id target (next.bind k)
  | borrow exclude next, k => borrow exclude fun r => (next r).bind k
  | release r next, k => release r (next.bind k)
  | annotate id access next, k => annotate id access (next.bind k)
  | note n next, k => note n (next.bind k)

instance : Monad Synthesis where
  pure := done
  bind := bind

@[simp] theorem pure_eq_done (a : α) : (pure a : Synthesis α) = done a := rfl

@[simp] theorem done_bind (a : α) (k : α → Synthesis β) : done a >>= k = k a := rfl

@[simp] theorem fail_bind (f : Fault) (k : α → Synthesis β) : fail f >>= k = fail f := rfl

@[simp] theorem append_bind (i : Instruction) (next : RecordId → Synthesis α)
    (k : α → Synthesis β) : append i next >>= k = append i fun id => next id >>= k := rfl

@[simp] theorem retarget_bind (id : RecordId) (target : Option RecordId) (next : Synthesis α)
    (k : α → Synthesis β) : retarget id target next >>= k = retarget id target (next >>= k) := rfl

@[simp] theorem borrow_bind (exclude : List Reg) (next : Reg → Synthesis α)
    (k : α → Synthesis β) : borrow exclude next >>= k = borrow exclude fun r => next r >>= k := rfl

@[simp] theorem release_bind (r : Reg) (next : Synthesis α) (k : α → Synthesis β) :
    release r next >>= k = release r (next >>= k) := rfl

@[simp] theorem annotate_bind (id : RecordId) (access : SlotAccess) (next : Synthesis α)
    (k : α → Synthesis β) : annotate id access next >>= k = annotate id access (next >>= k) := rfl

@[simp] theorem note_bind (n : Note) (next : Synthesis α) (k : α → Synthesis β) :
    note n next >>= k = note n (next >>= k) := rfl

/-! ## §3. Single requests. -/

/-- Append an instruction. -/
def emit (op : Opcode) (operands : List Operand) : Synthesis RecordId :=
  append { opcode := op, operands } done

/-- Borrow a scratch register that is none of the excluded ones. -/
def borrowScratch (exclude : List Reg) : Synthesis Reg := borrow exclude done

/-- Give a scratch register back. -/
def releaseScratch (r : Reg) : Synthesis Unit := release r (done ())

/-- Point a branch at a target. -/
def attachTarget (id : RecordId) (target : Option RecordId) : Synthesis Unit :=
  retarget id target (done ())

/-- Say which frame slot a record accesses. -/
def annotateSlot (id : RecordId) (access : SlotAccess) : Synthesis Unit :=
  annotate id access (done ())

/-- Leave a remark. -/
def remark (n : Note) : Synthesis Unit := note n (done ())

/-- Stop unless a condition holds.  Each is a debug assertion, and checked: a
build without assertions would go on. -/
def require (condition : Bool) (f : Fault) : Synthesis Unit :=
  if condition then done () else fail f

/-- A plain result, seen as a tree without requests. -/
def ofExcept : Except Fault α → Synthesis α
  | .ok a => done a
  | .error f => fail f

/-- Refuse an operation in a shape. -/
def unsupported (op : Operation) (shape : Shape) : Synthesis α :=
  fail (.violation (.unsupported op.name shape))

end Synthesis

/-! ## §4. Compilation units. -/

/-- How a compilation unit with state `σ` meets the requests of a synthesizer. -/
structure CodeUnit (σ : Type) where
  append : Instruction → Effect σ RecordId
  retarget : RecordId → Option RecordId → Effect σ Unit
  borrow : List Reg → Effect σ Reg
  release : Reg → Effect σ Unit
  annotate : RecordId → SlotAccess → Effect σ Unit
  note : Note → Effect σ Unit

/-- Conduct the dialogue with a compilation unit. -/
def Synthesis.runIn {σ α : Type} (u : CodeUnit σ) : Synthesis α → Effect σ α
  | .done a => pure a
  | .fail f => throw f
  | .append i next => do
      let id ← u.append i
      (next id).runIn u
  | .retarget id target next => do
      u.retarget id target
      next.runIn u
  | .borrow exclude next => do
      let r ← u.borrow exclude
      (next r).runIn u
  | .release r next => do
      u.release r
      next.runIn u
  | .annotate id access next => do
      u.annotate id access
      next.runIn u
  | .note n next => do
      u.note n
      next.runIn u

end TwoAddress
