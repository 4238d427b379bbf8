/-
  TwoAddress.Proofs.ImmediateOperands
  ───────────────────────────────────
  **ARITHMETIC WITH AN IMMEDIATE.**

  `dest = src op value` has a plain meaning: copy the source, then operate on the
  copy.  The code for it is often something else, by the operation, by the
  value and by the registers: an extension for a mask, an address for a sum, a
  product with a destination of its own, an operation that makes zero, a short
  or a long form.  None of it may show in the result.

    • §1 the operations that take an immediate, with their meaning on words;
    • §2 the code that a session appends for `dest = src op value`, for
      `dest op= value` and for the plain form;
    • §3 all three compute the same, on every session
      (`immediates_combined`).
-/
import TwoAddress.Proofs.Granted
import TwoAddress.Proofs.RegisterArithmetic

namespace TwoAddress

/-! ## §1. Operations. -/

/-- The operations that take an immediate.  There is no such form for rotations and
for subtraction with a carry. -/
inductive ImmediateOperator where
  | combine (op : RegisterOperator) (h : op ∉ [.plain .ror, .subtractCarry])
  | move
  | compare

namespace ImmediateOperator

/-- What is in the destination afterwards, from the carry and both operands. -/
def eval : ImmediateOperator → Bool → Word → Word → Word
  | combine op _, carry, a, b => op.eval carry a b
  | move, _, _, b => b
  | compare, _, a, _ => a

/-- The operation that a request names. -/
def operation : ImmediateOperator → Operation
  | combine op _ => op.operation
  | move => .mov
  | compare => .cmp

/-- What an instruction does for it. -/
def arith : ImmediateOperator → Arith
  | combine op _ => op.arith
  | move => .mov
  | compare => .cmp

theorem arith?_operation (op : ImmediateOperator) : op.operation.arith? = some op.arith := by
  cases op with
  | combine op h => exact op.arith?_operation
  | move => rfl
  | compare => rfl

/-- A comparison has no result, and leaves what it looked at. -/
theorem getD_apply_arith (op : ImmediateOperator) (carry : Bool) (a b : Word) :
    (op.arith.apply carry a b).1.getD a = op.eval carry a b := by
  cases op with
  | combine op h =>
      show (op.arith.apply carry a b).1.getD a = op.eval carry a b
      rw [op.apply_arith]
      rfl
  | move => rfl
  | compare => rfl

theorem takesImmediate (op : ImmediateOperator) : op.operation.TakesImmediate := by
  cases op with
  | move => exact .inl rfl
  | compare => exact .inr (.inr fun short => by cases short <;> rfl)
  | combine op h =>
      cases op with
      | subtractCarry => exact absurd h (by decide)
      | addCarry => exact .inr (.inr fun short => by cases short <;> rfl)
      | plain op =>
          cases op with
          | ror => exact absurd h (by decide)
          | mul => exact .inr (.inl rfl)
          | _ => exact .inr (.inr fun short => by cases short <;> rfl)

end ImmediateOperator

/-! ## §2. Code. -/

/-- `m'` is `m` with the value of the operation in `dest`.  What becomes of the carry
is said for a comparison only, which is made for it. -/
structure Combined (op : ImmediateOperator) (dest src : GpReg) (value : Word) (m m' : Machine) :
    Prop where
  result : m'.gp dest = op.eval m.carry (m.gp src) value
  others : ∀ g, g ≠ dest → m'.gp g = m.gp g
  xmm : m'.xmm = m.xmm
  memory : m'.memory = m.memory
  compared : op = .compare → m'.carry = decide ((m.gp src).toNat < value.toNat)

/-- The code may leave a carry that is not the operation's own, if it is not a
comparison. -/
theorem Combined.of_apply {op : ImmediateOperator} {dest src : GpReg} {value : Word} {m : Machine}
    {c : Bool} (hcarry : op = .compare → c = (op.arith.apply m.carry (m.gp src) value).2) :
    Combined op dest src value m ({ m with carry := c }.setGp dest
      ((op.arith.apply m.carry (m.gp src) value).1.getD (m.gp src))) where
  result := by
    rw [op.getD_apply_arith]
    exact if_pos rfl
  others g hg := if_neg hg
  xmm := rfl
  memory := rfl
  compared hop := by
    refine (hcarry hop).trans ?_
    rw [hop]
    rfl

/-- Nothing is left open but the carry. -/
theorem Combined.same {op : ImmediateOperator} {dest src : GpReg} {value : Word}
    {m m₁ m₂ : Machine} (h₁ : Combined op dest src value m m₁)
    (h₂ : Combined op dest src value m m₂) :
    m₁.gp = m₂.gp ∧ m₁.xmm = m₂.xmm ∧ m₁.memory = m₂.memory := by
  refine ⟨funext fun g => ?_, h₁.xmm.trans h₂.xmm.symm, h₁.memory.trans h₂.memory.symm⟩
  by_cases hg : g = dest
  · rw [hg, h₁.result, h₂.result]
  · rw [h₁.others g hg, h₂.others g hg]

/-- What is done on a copy of the source is done for the source. -/
theorem Combined.of_copy {op : ImmediateOperator} {dest src : GpReg} {value : Word}
    {m m' : Machine} (h : Combined op dest dest value (m.setGp dest (m.gp src)) m') :
    Combined op dest src value m m' := by
  have hcopied : (m.setGp dest (m.gp src)).gp dest = m.gp src := by simp
  refine ⟨?_, fun g hg => ?_, h.xmm, h.memory, fun hop => ?_⟩
  · rw [h.result, hcopied]
    rfl
  · rw [h.others g hg]
    simp [hg]
  · rw [h.compared hop, hcopied]

/-- The plain form, `dest = src` and then `dest op= value`. -/
def Request.copyThenOperate (op : ImmediateOperator) (dest src : GpReg) (value : Word) :
    List Request :=
  [.copy (.gp dest) (.gp src), .binaryImm op.operation (.gp dest) value]

section Requests

variable (op : ImmediateOperator) (dest src : GpReg) (value : Word)

theorem ImmediateOperator.granted_binaryImm :
    (Request.binaryImm op.operation (.gp dest) value).synthesis.Follows granted ()
      fun _ _ => True :=
  .seq (Synthesis.binaryImm_granted op.takesImmediate dest value fun _ => trivial)

theorem ImmediateOperator.granted_ternaryImm :
    (Request.ternaryImm op.operation (.gp dest) (.gp src) value).synthesis.Follows granted ()
      fun _ _ => True :=
  .seq (Synthesis.ternaryImm_granted op.takesImmediate dest src value fun _ => trivial)

theorem ImmediateOperator.granted_copyThenOperate :
    ∀ q ∈ Request.copyThenOperate op dest src value,
      q.synthesis.Follows granted () fun _ _ => True := by
  unfold Request.copyThenOperate
  simp only [List.mem_cons, List.not_mem_nil, or_false]
  rintro q (rfl | rfl)
  · exact .seq (Synthesis.copy_granted dest src fun _ => trivial)
  · exact op.granted_binaryImm dest value

end Requests

namespace Session

section Executes

variable (s : Session) (op : ImmediateOperator) (dest src : GpReg) (value : Word) (m : Machine)

theorem executes_binaryImm :
    ∃ m', s.Executes [.binaryImm op.operation (.gp dest) value] m m' ∧
      Combined op dest dest value m m' := by
  refine executes_single (.seq (Synthesis.intoImm_leaves op.arith?_operation (Prod.ext rfl rfl)
    fun _ => ?_)) (s.returns_single_of_granted (op.granted_binaryImm dest value))
  refine Combined.of_apply fun hop => ?_
  rw [hop]
  rfl

theorem executes_ternaryImm :
    ∃ m', s.Executes [.ternaryImm op.operation (.gp dest) (.gp src) value] m m' ∧
      Combined op dest src value m m' := by
  refine executes_single (.seq (Synthesis.ternaryImm_leaves op.arith?_operation (Prod.ext rfl rfl)
    fun _ => ?_)) (s.returns_single_of_granted (op.granted_ternaryImm dest src value))
  -- A comparison is none of the operations that are met by something else.
  refine Combined.of_apply fun hop => ?_
  rw [hop]
  rfl

theorem executes_copyThenOperate :
    ∃ m', s.Executes (Request.copyThenOperate op dest src value) m m' ∧
      Combined op dest src value m m' := by
  have hcopied : (Request.copy (.gp dest) (.gp src)).synthesis.Follows (executing s.pool) m
      fun _ m₁ => m₁ = m.setGp dest (m.gp src) :=
    .seq (Synthesis.copy_executing dest src fun _ => rfl)
  refine executes_cons hcopied
    (s.returns_of_granted (op.granted_copyThenOperate dest src value)) ?_
  -- The operation is met by the session that the copy leaves, and it is met there
  -- as on any other.
  rintro s₁ m₁ - - rfl
  obtain ⟨m₂, hexecutes, hcombined⟩ := s₁.executes_binaryImm op dest value _
  exact ⟨m₂, hexecutes, hcombined.of_copy⟩

end Executes

end Session

/-! ## §3. All immediates. -/

/-- **IMMEDIATES ARE COMBINED AS ASKED, BY WHATEVER CODE.**  Every session meets
`dest = src op value`, for all registers, equal or not, and all values.  What it
appends runs to its end from every machine.  It leaves the value of the
operation on what the source held and on the carry, and all other registers
and memory as they were; a comparison leaves the destination with the source,
and the carry set if the source is the smaller one.  The same holds of
`dest op= value`, and a copy followed by that arrives at the same registers
and the same memory. -/
theorem immediates_combined (s : Session) (op : ImmediateOperator) (dest src : GpReg)
    (value : Word) (m : Machine) :
    (∃ m', s.Executes [.binaryImm op.operation (.gp dest) value] m m' ∧
      Combined op dest dest value m m') ∧
    ∃ m₁, s.Executes [.ternaryImm op.operation (.gp dest) (.gp src) value] m m₁ ∧
      Combined op dest src value m m₁ ∧
      ∃ m₂, s.Executes (Request.copyThenOperate op dest src value) m m₂ ∧
        m₁.gp = m₂.gp ∧ m₁.xmm = m₂.xmm ∧ m₁.memory = m₂.memory := by
  obtain ⟨m₁, hexecutes₁, hcombined₁⟩ := s.executes_ternaryImm op dest src value m
  obtain ⟨m₂, hexecutes₂, hcombined₂⟩ := s.executes_copyThenOperate op dest src value m
  exact ⟨s.executes_binaryImm op dest value m, m₁, hexecutes₁, hcombined₁, m₂, hexecutes₂,
    hcombined₁.same hcombined₂⟩

end TwoAddress
