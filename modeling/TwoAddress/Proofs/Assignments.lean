/-
  TwoAddress.Proofs.Assignments
  ─────────────────────────────
  **ASSIGNMENTS AND THE CODE FOR THEM.**

  A small language of assignments between registers and memory, with its
  meaning given on valuations and no mention of instructions.  Each statement
  is one request; the code that a session appends for a program takes a machine
  to where the program takes its valuation, except in the scratch registers.

    • §1 the language and its meaning;
    • §2 a machine that agrees with a valuation outside the scratch registers;
    • §3 memory, read and written by cells;
    • §4 one statement, and whole programs (`assignments_executed`).
-/
import TwoAddress.Proofs.ByteStore
import TwoAddress.Proofs.ThreeOperands

namespace TwoAddress

/-! ## §1. A language of assignments. -/

/-- A function of two words. -/
inductive Operator where
  | add | sub | and | or | xor | mul
  | lsl | lsr | asr | ror
  deriving DecidableEq, Repr

namespace Operator

/-- Arithmetic is modulo `2^32`, and a shift distance counts modulo 32. -/
def eval : Operator → Word → Word → Word
  | add, a, b => a + b
  | sub, a, b => a - b
  | and, a, b => a &&& b
  | or, a, b => a ||| b
  | xor, a, b => a ^^^ b
  | mul, a, b => a * b
  | lsl, a, b => a <<< (b.toNat % 32)
  | lsr, a, b => a >>> (b.toNat % 32)
  | asr, a, b => a.sshiftRight (b.toNat % 32)
  | ror, a, b => a.rotateRight (b.toNat % 32)

/-- The operation that a request names. -/
def operation : Operator → Operation
  | add => .add | sub => .sub | and => .and | or => .or | xor => .xor | mul => .mul
  | lsl => .lsl | lsr => .lsr | asr => .asr | ror => .ror

/-- What an instruction does for it. -/
def arith : Operator → Arith
  | add => .add | sub => .sub | and => .and | or => .or | xor => .xor | mul => .imul
  | lsl => .sal | lsr => .shr | asr => .sar | ror => .ror

theorem arith?_operation (op : Operator) : op.operation.arith? = some op.arith := by
  cases op <;> rfl

theorem apply_arith (op : Operator) (c : Bool) (a b : Word) :
    (op.arith.apply c a b).1 = some (op.eval a b) := by
  cases op <;> rfl

end Operator

/-- The unit of memory that a load or a store moves, and how it fills a word. -/
inductive Cell where
  | word | signedHalf | unsignedHalf | signedByte | unsignedByte
  deriving DecidableEq, Repr

namespace Cell

def size : Cell → AccessSize
  | word => .word
  | signedHalf => .signedHalf
  | unsignedHalf => .unsignedHalf
  | signedByte => .signedByte
  | unsignedByte => .unsignedByte

/-- The word that a cell holds, its first byte the least significant. -/
def fetch (cell : Cell) (memory : Word → Byte) (a : Word) : Word :=
  match cell with
  | word => memory (a + 3) ++ memory (a + 2) ++ memory (a + 1) ++ memory a
  | signedHalf => (memory (a + 1) ++ memory a).signExtend 32
  | unsignedHalf => (memory (a + 1) ++ memory a).setWidth 32
  | signedByte => (memory a).signExtend 32
  | unsignedByte => (memory a).setWidth 32

/-- Memory with the low bytes of a word in a cell. -/
def put (cell : Cell) (memory : Word → Byte) (a v : Word) : Word → Byte := fun x =>
  let i := (x - a).toNat
  if i < cell.size.bytes then (v >>> (8 * i)).setWidth 8 else memory x

end Cell

/-- A place in memory: `base + index · 2^scale + disp`. -/
structure Place where
  base : GpReg
  index : Option GpReg := none
  scale : UInt8 := 0
  disp : Word := 0
  deriving DecidableEq, Repr

/-- The content of registers and memory. -/
structure Valuation where
  gp : GpReg → Word
  xmm : Fin 8 → BitVec 128
  memory : Word → Byte

namespace Valuation

/-- What a machine holds. -/
def of (m : Machine) : Valuation := { gp := m.gp, xmm := m.xmm, memory := m.memory.byteAt }

def assign (σ : Valuation) (dest : GpReg) (v : Word) : Valuation :=
  { σ with gp := fun g => if g = dest then v else σ.gp g }

def scaledIndex (σ : Valuation) (p : Place) : Word :=
  match p.index with
  | none => 0
  | some i => σ.gp i * BitVec.twoPow 32 p.scale.toNat

/-- Where a place is. -/
def locate (σ : Valuation) (p : Place) : Word := σ.gp p.base + σ.scaledIndex p + p.disp

end Valuation

namespace Place

def indexReg (p : Place) : Reg :=
  match p.index with
  | none => .absent
  | some i => .gp i

def registers (p : Place) : List GpReg := p.base :: p.index.toList

/-- The transfer of a cell between a place and a register.  The second register
takes no part in it. -/
def transfer (p : Place) (direction : Direction) (cell : Cell) (reg : GpReg) (hi : Reg) :
    Transfer where
  direction := direction
  base := .gp p.base
  index := p.indexReg
  scale := p.scale
  disp := p.disp
  lo := .gp reg
  hi := hi
  size := cell.size

end Place

/-- An assignment. -/
inductive Statement where
  | copy (dest src : GpReg)
  | constant (dest : GpReg) (value : Word)
  | negate (dest : GpReg)
  | complement (dest : GpReg)
  | combine (op : Operator) (dest src1 src2 : GpReg)
  | combineImm (op : Operator) (dest src : GpReg) (value : Word)
  | load (cell : Cell) (dest : GpReg) (place : Place) (hi : Reg)
  | store (cell : Cell) (place : Place) (src : GpReg) (hi : Reg)
  deriving DecidableEq, Repr

namespace Statement

/-- Every source is read before the destination is written. -/
def exec : Statement → Valuation → Valuation
  | copy dest src, σ => σ.assign dest (σ.gp src)
  | constant dest value, σ => σ.assign dest value
  | negate dest, σ => σ.assign dest (-σ.gp dest)
  | complement dest, σ => σ.assign dest (~~~ σ.gp dest)
  | combine op dest src1 src2, σ => σ.assign dest (op.eval (σ.gp src1) (σ.gp src2))
  | combineImm op dest src value, σ => σ.assign dest (op.eval (σ.gp src) value)
  | load cell dest place _, σ => σ.assign dest (cell.fetch σ.memory (σ.locate place))
  | store cell place src _, σ =>
      { σ with memory := cell.put σ.memory (σ.locate place) (σ.gp src) }

/-- One statement after the other. -/
def execAll (program : List Statement) (σ : Valuation) : Valuation :=
  program.foldl (fun σ st => st.exec σ) σ

/-- The request for a statement. -/
def request : Statement → Request
  | copy dest src => .copy (.gp dest) (.gp src)
  | constant dest value => .constant (.gp dest) value
  | negate dest => .unary .neg (.gp dest)
  | complement dest => .unary .not (.gp dest)
  | combine op dest src1 src2 => .ternary op.operation (.gp dest) (.gp src1) (.gp src2)
  | combineImm op dest src value => .ternaryImm op.operation (.gp dest) (.gp src) value
  | load cell dest place hi => .transfer (place.transfer .load cell dest hi)
  | store cell place src hi => .transfer (place.transfer .store cell src hi)

/-- The registers a statement is about. -/
def registers : Statement → List GpReg
  | copy dest src => [dest, src]
  | constant dest _ => [dest]
  | negate dest => [dest]
  | complement dest => [dest]
  | combine _ dest src1 src2 => [dest, src1, src2]
  | combineImm _ dest src _ => [dest, src]
  | load _ dest place _ => dest :: place.registers
  | store _ place src _ => src :: place.registers

end Statement

/-! ## §2. Agreement outside the scratch registers. -/

/-- Machine and valuation differ at most in registers that may be lent. -/
structure Agrees (lendable : RegSet) (σ : Valuation) (m : Machine) : Prop where
  gp : ∀ g, lendable.contains (.gp g) = false → m.gp g = σ.gp g
  xmm : m.xmm = σ.xmm
  memory : m.memory.byteAt = σ.memory

theorem Agrees.of (lendable : RegSet) (m : Machine) : Agrees lendable (.of m) m where
  gp _ _ := rfl
  xmm := rfl
  memory := rfl

/-- A value computed is a value assigned: the scratch register that changed
besides is one that may be lent. -/
theorem Agrees.assign {pool : ScratchPool} {operands : List Reg} {σ : Valuation} {m m' : Machine}
    {dest : GpReg} {v : Word} (h : Agrees pool.lendable σ m)
    (hv : Computes pool operands m dest v m') : Agrees pool.lendable (σ.assign dest v) m' where
  gp g hg := by
    obtain ⟨scratch, heligible, hothers⟩ := hv.others
    by_cases hdest : g = dest
    · subst hdest
      rw [hv.value]
      simp [Valuation.assign]
    · have hscratch : scratch ≠ some g := fun hsome => by
        rw [(ScratchPool.eligible_iff.mp (heligible g hsome)).1] at hg
        exact absurd hg (by simp)
      rw [hothers g hdest hscratch, h.gp g hg]
      simp [Valuation.assign, hdest]
  xmm := hv.xmm.trans h.xmm
  memory := by
    rw [hv.memory]
    exact h.memory

/-- A register written where it is assigned. -/
theorem Agrees.setGp {lendable : RegSet} {σ : Valuation} {m : Machine}
    (h : Agrees lendable σ m) (c : Bool) (dest : GpReg) (v : Word) :
    Agrees lendable (σ.assign dest v) ({ m with carry := c }.setGp dest v) where
  gp g hg := by
    by_cases hdest : g = dest <;> simp [Valuation.assign, hdest, h.gp g hg]
  xmm := h.xmm
  memory := h.memory

/-! ## §3. Places and cells. -/

/-- Machine and valuation find a place at the same address. -/
theorem Agrees.locate {lendable : RegSet} {σ : Valuation} {m : Machine}
    (h : Agrees lendable σ m) {p : Place}
    (hout : ∀ g ∈ p.registers, lendable.contains (.gp g) = false) :
    m.locate { base := .gp p.base, index := p.indexReg, scale := p.scale, disp := p.disp } =
      σ.locate p := by
  have hbase := h.gp p.base (hout _ (by simp [Place.registers]))
  have hindex : m.valueOf p.indexReg <<< p.scale.toNat = σ.scaledIndex p := by
    unfold Place.indexReg Valuation.scaledIndex
    cases hi : p.index with
    | none => simp [Machine.valueOf]
    | some i =>
        have hgp := h.gp i (hout _ (by simp [Place.registers, hi]))
        show m.gp i <<< p.scale.toNat = σ.gp i * BitVec.twoPow 32 p.scale.toNat
        rw [hgp, BitVec.shiftLeft_eq_mul_twoPow]
  show m.gp p.base + m.valueOf p.indexReg <<< p.scale.toNat + p.disp = _
  rw [hbase, hindex]
  rfl

theorem Cell.fetch_eq (cell : Cell) (memory : Memory) (a : Word) :
    cell.size.extension.apply ((memory.read a cell.size.extension.bytes).setWidth 32) =
      cell.fetch memory.byteAt a := by
  cases cell with
  | word => exact memory.read_word a
  | signedHalf | unsignedHalf =>
      simp [Cell.size, AccessSize.extension, Extension.bytes, Extension.apply, Cell.fetch,
        Memory.read_half]
  | signedByte | unsignedByte =>
      simp [Cell.size, AccessSize.extension, Extension.bytes, Extension.apply, Cell.fetch,
        Memory.read_byte]

theorem Cell.put_eq (cell : Cell) (memory : Memory) (a v : Word) :
    (memory.write a cell.size.extension.bytes (v.setWidth 64)).byteAt =
      cell.put memory.byteAt a v := by
  have hbytes : cell.size.extension.bytes = cell.size.bytes := by cases cell <;> rfl
  have hsmall : cell.size.bytes ≤ 0x100000000 := by cases cell <;> decide
  funext x
  rw [hbytes, Memory.byteAt_write _ _ _ hsmall]
  have hbyte : (v.setWidth 64 >>> (8 * (x - a).toNat)).setWidth 8 =
      (v >>> (8 * (x - a).toNat)).setWidth 8 := by
    ext j hj
    -- Above its 32 bits the widened value has none.
    by_cases hbit : 8 * (x - a).toNat + j < 64
    · simp only [BitVec.getElem_setWidth, BitVec.getLsbD_ushiftRight, BitVec.getLsbD_setWidth,
        hbit, decide_true, Bool.true_and]
    · have hhigh : v.getLsbD (8 * (x - a).toNat + j) = false :=
        BitVec.getLsbD_of_ge _ _ (by omega)
      simp only [BitVec.getElem_setWidth, BitVec.getLsbD_ushiftRight, BitVec.getLsbD_setWidth,
        hhigh, Bool.and_false]
  rw [hbyte]
  rfl

theorem Cell.isWide_size (cell : Cell) : cell.size.isWide = false := by
  cases cell <;> rfl

theorem Place.isXmm_indexReg (p : Place) : p.indexReg.isXmm = false := by
  unfold indexReg
  cases p.index <;> rfl

/-! ## §4. Programs. -/

open Synthesis (Follows)

/-- **One statement**: if its request is met, the machine still agrees. -/
theorem Statement.executing_request (st : Statement) {pool : ScratchPool} {σ : Valuation}
    {m : Machine} (h : Agrees pool.lendable σ m)
    (hout : ∀ g ∈ st.registers, pool.lendable.contains (.gp g) = false) :
    st.request.synthesis.Follows (executing pool) m
      fun _ m' => Agrees pool.lendable (st.exec σ) m' := by
  -- Its registers hold the same in machine and valuation.
  have hgp : ∀ g ∈ st.registers, m.gp g = σ.gp g := fun g hg => h.gp g (hout g hg)
  cases st with
  | copy dest src =>
      refine Follows.seq (Synthesis.copy_executing dest src fun _ => ?_)
      show Agrees _ (σ.assign dest (σ.gp src)) _
      rw [← hgp src (by simp [registers])]
      exact h.setGp m.carry dest _
  | constant dest value =>
      exact Follows.seq (Synthesis.constant_executing dest value fun _ => h.setGp _ dest value)
  | negate dest =>
      refine Follows.seq (Synthesis.negate_executing dest fun _ => ?_)
      show Agrees _ (σ.assign dest (-σ.gp dest)) _
      rw [← hgp dest (by simp [registers])]
      exact h.setGp _ dest _
  | complement dest =>
      refine Follows.seq (Synthesis.complement_executing dest fun _ => ?_)
      show Agrees _ (σ.assign dest (~~~ σ.gp dest)) _
      rw [← hgp dest (by simp [registers])]
      exact h.setGp m.carry dest _
  | combine op dest src1 src2 =>
      refine Follows.seq (Synthesis.ternary_executing op.arith?_operation (op.apply_arith _ _ _)
        fun _ m' hvalue => ?_)
      show Agrees _ (σ.assign dest (op.eval (σ.gp src1) (σ.gp src2))) _
      rw [← hgp src1 (by simp [registers]), ← hgp src2 (by simp [registers])]
      exact h.assign hvalue
  | combineImm op dest src value =>
      refine Follows.seq (Synthesis.ternaryImm_executing op.arith?_operation
        (op.apply_arith _ _ _) fun _ m' (hvalue : Computes pool [] m dest _ m') => ?_)
      show Agrees _ (σ.assign dest (op.eval (σ.gp src) value)) _
      rw [← hgp src (by simp [registers])]
      exact h.assign hvalue
  | load cell dest place hi =>
      have hplace := h.locate fun g hg => hout g (List.mem_cons_of_mem dest hg)
      refine Follows.seq (Synthesis.transfer_executing dest rfl cell.isWide_size rfl
        place.isXmm_indexReg fun _ => ?_)
      show Agrees _ (σ.assign dest (cell.fetch σ.memory (σ.locate place))) _
      rw [← h.memory, ← hplace, ← cell.fetch_eq]
      exact h.setGp m.carry dest _
  | store cell place src hi =>
      have hplace := h.locate fun g hg => hout g (List.mem_cons_of_mem src hg)
      refine Follows.seq (Synthesis.transfer_executing src rfl cell.isWide_size rfl
        place.isXmm_indexReg fun _ => ?_)
      refine ⟨h.gp, h.xmm, ?_⟩
      show _ = cell.put σ.memory (σ.locate place) (σ.gp src)
      rw [← h.memory, ← hplace, ← hgp src (by simp [registers]), ← cell.put_eq]
      rfl

/-- **Programs**, by induction on their statements.  The session that has met
the first statement is where the rest begins. -/
theorem Statement.executing_program {s : Session} {program : List Statement}
    (hout : ∀ st ∈ program, ∀ g ∈ st.registers, s.pool.lendable.contains (.gp g) = false)
    (hreturns : s.Returns (program.map Statement.request)) {σ : Valuation} {m : Machine}
    (h : Agrees s.pool.lendable σ m) :
    ∃ m', (Machine.run ((s.afterRequests (program.map Statement.request)).codeFrom
          s.records.length)).on m = (.ok (), m') ∧
      Agrees s.pool.lendable (execAll program σ) m' := by
  induction program generalizing s σ m with
  | nil => exact ⟨m, (Executed.begin s m).run, h⟩
  | cons st rest ih =>
      obtain ⟨⟨reply, hreply⟩, hrest⟩ := Session.returns_cons.mp hreturns
      have hmet := (st.executing_request h (hout st (by simp))).met (executing_keeps s m)
        (Executed.begin s m)
      change Met _ _ _ (s.meet st.request) at hmet
      rcases hrun : s.meet st.request with ⟨_ | reply, s'⟩ <;> rw [hrun] at hmet hreply
      · exact absurd hreply (by simp)
      · obtain ⟨m₁, hexecuted, hagrees⟩ := hmet
        rw [hrun] at hrest
        rw [← hexecuted.lendable] at hout hagrees ⊢
        obtain ⟨m', hcode, hend⟩ := ih (fun st hst => hout st (by simp [hst])) hrest hagrees
        refine ⟨m', ?_, hend⟩
        -- The code of the rest stands behind that of the first statement.
        have hgrows := s'.grows_afterRequests (rest.map request)
        rw [List.map_cons, Session.afterRequests_cons, hrun,
          Session.run_codeFrom_grows hgrows hexecuted.grown hexecuted.run]
        exact hcode

/-- **ASSIGNMENTS ARE EXECUTED.**  Let a session meet a program of assignments
between registers that its pool does not lend, with no request refused.  The
code it appends runs to its end from every machine, and leaves what executing
the assignments in turn leaves: in every register that is not lent, in every
xmm register, and in every byte of memory. -/
theorem assignments_executed (s : Session) (program : List Statement)
    (hout : ∀ st ∈ program, ∀ g ∈ st.registers, s.pool.lendable.contains (.gp g) = false)
    (hreturns : s.Returns (program.map Statement.request)) (m : Machine) :
    ∃ m', (Machine.run ((s.afterRequests (program.map Statement.request)).codeFrom
          s.records.length)).on m = (.ok (), m') ∧
      (∀ g, s.pool.lendable.contains (.gp g) = false →
        m'.gp g = (Statement.execAll program (.of m)).gp g) ∧
      (∀ i, m'.xmm i = (Statement.execAll program (.of m)).xmm i) ∧
      ∀ a, m'.memory.byteAt a = (Statement.execAll program (.of m)).memory a := by
  obtain ⟨m', hrun, hend⟩ := Statement.executing_program hout hreturns (.of s.pool.lendable m)
  exact ⟨m', hrun, hend.gp, congrFun hend.xmm, congrFun hend.memory⟩

/-- Destinations that are second sources, through a scratch register and by
negation, and a byte stored that is loaded as half a word. -/
def Statement.entangled : List Statement :=
  [.constant .eax (-8), .constant .ecx 2,
   .combine .asr .ecx .eax .ecx,
   .combine .sub .eax .ecx .eax,
   .store .unsignedByte { base := .ebp, index := some .eax, scale := 1, disp := 4 } .ecx .absent,
   .load .signedHalf .ebx { base := .ebp, index := some .eax, scale := 1, disp := 4 } .absent]

theorem assignments_executed_entangled :
    (∀ st ∈ Statement.entangled, ∀ g ∈ st.registers,
      (Session.new [.gp .esi, .gp .edi]).pool.lendable.contains (.gp g) = false) ∧
    (Session.new [.gp .esi, .gp .edi]).Returns (Statement.entangled.map Statement.request) ∧
    ∃ m', (Machine.run (((Session.new [.gp .esi, .gp .edi]).afterRequests
        (Statement.entangled.map Statement.request)).codeFrom 0)).on {} = (.ok (), m') ∧
      m'.gp .ecx = -2 ∧ m'.gp .eax = 6 ∧ m'.gp .ebx = 254 ∧ m'.memory.byteAt 16 = 254 := by
  refine ⟨by decide, by decide, ?_⟩
  obtain ⟨m', hrun, hgp, -, hmemory⟩ := assignments_executed (Session.new [.gp .esi, .gp .edi])
    Statement.entangled (by decide) (by decide) {}
  refine ⟨m', hrun, ?_, ?_, ?_, ?_⟩
  · rw [hgp .ecx (by decide)]
    decide
  · rw [hgp .eax (by decide)]
    decide
  · rw [hgp .ebx (by decide)]
    decide
  · rw [hmemory 16]
    decide

end TwoAddress
