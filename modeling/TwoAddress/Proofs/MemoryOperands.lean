/-
  TwoAddress.Proofs.MemoryOperands
  ────────────────────────────────
  **ARITHMETIC WITH AN OPERAND IN MEMORY.**

  `dest op= [base + disp]` saves a register: without it the operand would be
  loaded first, and the operation made with the register that it was loaded
  into.  The two have opcodes of their own, and the machine goes different
  ways for them.  To widen a byte it reads one byte in the one case, and in the
  other a word of which it then takes the low end.

    • §1 a part of a word, read as such or taken from the word;
    • §2 the code for an operand in memory, run on a machine;
    • §3 both ways arrive at the same machine, but for the register that is saved
      (`memory_operand_as_loaded`).
-/
import TwoAddress.Proofs.TwoOperands

namespace TwoAddress

/-! ## §1. Parts of a word. -/

/-- The low bytes of what is read do not depend on how many more are read. -/
theorem Memory.setWidth_read_of_le (m : Memory) (a : Word) {n k : Nat} (hnk : n ≤ k) (hk : k ≤ 8) :
    (m.read a n).setWidth (8 * n) = (m.read a k).setWidth (8 * n) := by
  refine BitVec.eq_of_getLsbD_eq fun i hi => ?_
  have hin : i < 8 * k := by omega
  rw [BitVec.getLsbD_setWidth, BitVec.getLsbD_setWidth, m.getLsbD_read a (by omega),
    m.getLsbD_read a hk, decide_eq_true hi, decide_eq_true hin]

namespace Extension

theorem bytes_le (e : Extension) : e.bytes ≤ 4 := by
  cases e <;> decide

/-- Only the bytes that count matter. -/
theorem apply_congr {e : Extension} {v w : Word}
    (h : v.setWidth (8 * e.bytes) = w.setWidth (8 * e.bytes)) : e.apply v = e.apply w := by
  cases e with
  | whole =>
      replace h : v.setWidth 32 = w.setWidth 32 := h
      rwa [BitVec.setWidth_eq, BitVec.setWidth_eq] at h
  | signedByte | signedHalf => exact congrArg (BitVec.signExtend 32) h
  | unsignedByte | unsignedHalf => exact congrArg (BitVec.setWidth 32) h

/-- **A part that is read** is that part of the word. -/
theorem apply_read (e : Extension) (m : Memory) (a : Word) :
    e.apply ((m.read a e.bytes).setWidth 32) = e.apply (m.word a) := by
  have hbytes := e.bytes_le
  apply apply_congr
  rw [Memory.word, BitVec.setWidth_setWidth_of_le _ (by omega),
    BitVec.setWidth_setWidth_of_le _ (by omega)]
  exact m.setWidth_read_of_le a hbytes (by decide)

end Extension

/-! ## §2. Code. -/

/-- The word at a base and a displacement.  The sum wraps around. -/
def Machine.wordAt (m : Machine) (base : GpReg) (disp : Word) : Word :=
  m.memory.word (m.gp base + disp)

namespace Synthesis

theorem action_memoryOpcode {op : Operation} {opcode : Opcode} {arith : Arith}
    (h : memoryOpcode? op = some opcode) (harith : op.arith? = some arith) (hmov : op ≠ .mov) :
    opcode.action = .arith arith .memory := by
  cases op with
  | mov => exact absurd rfl hmov
  | _ => cases harith <;> cases h <;> rfl

theorem form_memoryOpcode {op : Operation} {opcode : Opcode} (h : memoryOpcode? op = some opcode) :
    opcode.form = .rm := by
  cases op <;> cases h <;> rfl

section Executing

variable {pool : ScratchPool} {m : Machine} {Q : RecordId → Machine → Prop}
  (dest base : GpReg) (disp : Word)

/-- Arithmetic with a word in memory, if it is not refused. -/
theorem combineMem_executing {op : Operation} {arith : Arith} (harith : op.arith? = some arith)
    (hmov : op ≠ .mov)
    (hQ : ∀ id, Q id (m.combine arith dest (m.wordAt base disp))) :
    (binaryMem op (.gp dest) (.gp base) disp).Follows (executing pool) m Q := by
  unfold binaryMem
  split
  next opcode h =>
    have haddress := m.on_effectiveAddress_plain (form_memoryOpcode h) (.gp dest)
      (show (Reg.gp base).isXmm = false from rfl) disp
    exact emit_executing (m.step_memory dest (action_memoryOpcode h harith hmov) haddress rfl) hQ
  next => trivial

/-- A load that extends. -/
theorem extendMem_executing {opcode : Opcode} {e : Extension} (hform : opcode.form = .rm)
    (haction : opcode.action = .load e)
    (hQ : ∀ id, Q id (m.setGp dest (e.apply (m.wordAt base disp)))) :
    (emit opcode [.reg (.gp dest), .reg (.gp base), .imm disp]).Follows (executing pool) m Q := by
  have haddress := m.on_effectiveAddress_plain hform (.gp dest)
    (show (Reg.gp base).isXmm = false from rfl) disp
  refine emit_executing (m.step_load dest haction haddress rfl) fun id => ?_
  rw [e.apply_read]
  exact hQ id

/-- **Every operation with an operand in memory**, if it is not refused.  Where a byte
is widened, it is one that can be named. -/
theorem pairMem_leaves (op : PairOperator)
    (hQ : ∀ id, Q id (m.operate op true dest (m.wordAt base disp))) :
    (binaryMem op.operation (.gp dest) (.gp base) disp).Follows (executing pool) m Q := by
  cases op with
  | combine op =>
      have hmov : op.operation ≠ .mov := by
        rcases op with op | _ | _
        · cases op <;> decide
        · decide
        · decide
      refine combineMem_executing dest base disp op.arith?_operation hmov fun id => ?_
      have hresult := op.apply_arith m.carry (m.gp dest) (m.wordAt base disp)
      rw [Machine.combine_eq (Prod.ext hresult rfl)]
      exact hQ id
  | compare =>
      refine combineMem_executing dest base disp rfl (by decide) fun id => ?_
      rw [Machine.combine_eq rfl]
      exact hQ id
  -- A move from memory is a load, as the extensions are, and no arithmetic.
  | move | widenByte | widenShort | widenChar =>
      exact extendMem_executing dest base disp rfl rfl hQ
  | negate | complement => trivial

end Executing

end Synthesis

/-! ## §3. With a load and without. -/

/-- The machines differ in one register at most, and maybe in the carry. -/
structure Machine.AgreeBut (t : GpReg) (m₁ m₂ : Machine) : Prop where
  gp : ∀ g, g ≠ t → m₁.gp g = m₂.gp g
  xmm : m₁.xmm = m₂.xmm
  memory : m₁.memory = m₂.memory

/-- An operation does not see a register that it does not name. -/
theorem Machine.operate_setGp {t d : GpReg} (hne : t ≠ d) (m : Machine) (op : PairOperator)
    (named named' : Bool) (v b : Word) :
    AgreeBut t (m.operate op named d b) ((m.setGp t v).operate op named' d b) := by
  have hdest : (m.setGp t v).gp d = m.gp d := if_neg hne.symm
  refine ⟨fun g hg => ?_, rfl, rfl⟩
  unfold operate
  rw [hdest, gp_setGp, gp_setGp]
  split
  · rfl
  · exact (if_neg hg).symm

/-- What can be done with memory is no shift, so that any register will do for it. -/
theorem PairOperator.takesRegister_of_takesMemory {op : PairOperator}
    (hop : op.operation.takesMemory = true) (t : GpReg) : op.operation.TakesRegister t := by
  refine op.takesRegister fun hshift => ?_
  cases hop' : op.operation <;> rw [hop'] at hop hshift
  case lsl | lsr | asr | ror => exact absurd hop Bool.false_ne_true
  all_goals exact absurd hshift Bool.false_ne_true

namespace Session

/-- A request that no session refuses and whose code leaves a known machine, before
others of which the same is known. -/
theorem executes_of_granted {s : Session} {q : Request} {qs : List Request} {m m₁ m₂ : Machine}
    (hq : q.synthesis.Follows (executing s.pool) m fun _ m' => m' = m₁)
    (hgranted : q.synthesis.Follows granted () fun _ _ => True)
    (hrest : ∀ s₁ : Session, s₁.Executes qs m₁ m₂) : s.Executes (q :: qs) m m₂ := by
  have hfirst := (returns_cons.mp (s.returns_single_of_granted hgranted)).1
  have hreturns : s.Returns (q :: qs) := returns_cons.mpr ⟨hfirst, (hrest _).1⟩
  obtain ⟨m', hexecutes, rfl⟩ := executes_cons (T := fun m' => m' = m₂) hq hreturns (by
    rintro s₁ m' - - rfl
    exact ⟨m₂, hrest s₁, rfl⟩)
  exact hexecutes

section Executes

variable (s : Session) (op : PairOperator) (dest base t : GpReg) (disp : Word) (m : Machine)

theorem executes_binaryMem (hop : op.operation.takesMemory = true) {qs : List Request}
    {m₂ : Machine}
    (hrest : ∀ s₁ : Session, s₁.Executes qs (m.operate op true dest (m.wordAt base disp)) m₂) :
    s.Executes (.binaryMem op.operation (.gp dest) (.gp base) disp :: qs) m m₂ := by
  refine executes_of_granted ?_ ?_ hrest
  · exact .seq (Synthesis.pairMem_leaves dest base disp op fun _ => rfl)
  · exact .seq (Synthesis.binaryMem_granted hop _ _ disp fun _ => trivial)

theorem executes_binary (hop : op.operation.TakesRegister t) :
    s.Executes [.binary op.operation (.gp dest) (.gp t)] m
      (m.operate op t.byteAddressable dest (m.gp t)) := by
  refine executes_of_granted ?_ ?_ fun s₁ => s₁.executes_nil _
  · exact .seq (Synthesis.pair_leaves op dest t fun _ => rfl)
  · exact .seq (Synthesis.binary_granted hop dest fun _ => trivial)

/-- The operand is loaded, and then operated with. -/
theorem executes_loaded (hop : op.operation.takesMemory = true) :
    s.Executes [.binaryMem .mov (.gp t) (.gp base) disp, .binary op.operation (.gp dest) (.gp t)] m
      ((m.setGp t (m.wordAt base disp)).operate op t.byteAddressable dest (m.wordAt base disp)) := by
  have hloaded : (m.setGp t (m.wordAt base disp)).gp t = m.wordAt base disp := if_pos rfl
  -- The operation is met by the session that the load leaves, as by any other.
  refine s.executes_binaryMem .move t base disp m rfl fun s₁ => ?_
  show s₁.Executes _ (m.setGp t (m.wordAt base disp)) _
  have hoperates := s₁.executes_binary op dest t (m.setGp t (m.wordAt base disp))
    (PairOperator.takesRegister_of_takesMemory hop t)
  rw [hloaded] at hoperates
  exact hoperates

end Executes

end Session

/-- **AN OPERAND IN MEMORY IS AS GOOD AS A LOADED ONE.**  Every session meets
`dest op= [base + disp]`, for every operation that there is a form for and all
registers, equal or not, and any session also meets the load of the operand into
a register `t` other than `dest`, followed by `dest op= t`.  Run from the same
machine, the one leaves in `dest` the value of the operation on what it held and
on the word at the address, and the other leaves what the one does in every
register but `t` and in memory.  The carry is the same too, unless a byte is
widened that can be named in memory and not in `t`. -/
theorem memory_operand_as_loaded (s s' : Session) (op : PairOperator)
    (hop : op.operation.takesMemory = true) (dest base t : GpReg) (ht : t ≠ dest) (disp : Word)
    (m : Machine) :
    ∃ m₁ m₂, s.Executes [.binaryMem op.operation (.gp dest) (.gp base) disp] m m₁ ∧
      s'.Executes [.binaryMem .mov (.gp t) (.gp base) disp,
        .binary op.operation (.gp dest) (.gp t)] m m₂ ∧
      m₁.gp dest = op.eval m.carry (m.gp dest) (m.wordAt base disp) ∧
      m₁.AgreeBut t m₂ ∧
      (op ≠ .widenByte ∨ t.byteAddressable = true → m₁.carry = m₂.carry) := by
  refine ⟨_, _, s.executes_binaryMem op dest base disp m hop fun s₁ => s₁.executes_nil _,
    s'.executes_loaded op dest base t disp m hop, if_pos rfl,
    m.operate_setGp ht op true t.byteAddressable _ _, fun hnamed => ?_⟩
  have hdest : (m.setGp t (m.wordAt base disp)).gp dest = m.gp dest := if_neg ht.symm
  -- Both operations find the same carry and the same operands.
  unfold Machine.operate
  rw [hdest]
  exact (PairOperator.carryAfter_named hnamed _ _ _).symm

/-- A byte at an address that wraps around is widened into its own base. -/
theorem memory_operand_as_loaded_own_base :
    let m : Machine :=
      { gp := fun _ => 0xFFFFFFFC, memory := ⟨fun a => if a = 4 then 0x80 else 1⟩, carry := true }
    PairOperator.widenByte.operation.takesMemory = true ∧ GpReg.ecx ≠ .eax ∧
    ∃ m₁ m₂, (Session.new []).Executes [.binaryMem .widenByte (.gp .eax) (.gp .eax) 8] m m₁ ∧
      Session.lendingOne.Executes [.binaryMem .mov (.gp .ecx) (.gp .eax) 8,
        .binary .widenByte (.gp .eax) (.gp .ecx)] m m₂ ∧
      m₁.gp .eax = 0xFFFFFF80 ∧ m₁.AgreeBut .ecx m₂ ∧ m₁.carry = m₂.carry := by
  intro m
  obtain ⟨m₁, m₂, hexecutes₁, hexecutes₂, hvalue, hagree, hcarry⟩ :=
    memory_operand_as_loaded (Session.new []) Session.lendingOne .widenByte rfl .eax .eax .ecx
      (by decide) 8 m
  refine ⟨rfl, by decide, m₁, m₂, hexecutes₁, hexecutes₂, ?_, hagree, hcarry (.inr rfl)⟩
  rw [hvalue]
  decide

end TwoAddress
