/-
  TwoAddress.Proofs.RegisterArithmetic
  ────────────────────────────────────
  **ARITHMETIC IN REGISTERS, FROM REQUEST TO VALUE.**

  `ThreeOperands` follows one dialogue with a machine.  Here the dialogue is
  held with a session, and the machine runs what the session has appended:

    • §1 one operation on three registers, with whatever coincidences among
      them and whatever the pool has lent (`registers_combined`);
    • §2 the carry that it leaves, in terms of the operands and of how the
      registers coincide (`registers_leave_carry`);
    • §3 a 64-bit difference from two such operations.  The second takes in the
      carry that the first leaves, and so sees how the first was met
      (`wide_difference_right_iff`).
-/
import TwoAddress.Proofs.Assignments
import TwoAddress.Proofs.WideValues

namespace TwoAddress

/-! ## §1. Three registers. -/

/-- The operations on three registers: a function of two words, or one of the two
that take in the carry. -/
inductive RegisterOperator where
  | plain (op : Operator)
  | addCarry
  | subtractCarry
  deriving DecidableEq, Repr

namespace RegisterOperator

/-- A carry counts one. -/
def eval : RegisterOperator → Bool → Word → Word → Word
  | plain op, _, a, b => op.eval a b
  | addCarry, carry, a, b => a + b + (if carry then 1 else 0)
  | subtractCarry, carry, a, b => a - b - (if carry then 1 else 0)

/-- The operation that a request names. -/
def operation : RegisterOperator → Operation
  | plain op => op.operation
  | addCarry => .adc
  | subtractCarry => .sbc

/-- What an instruction does for it. -/
def arith : RegisterOperator → Arith
  | plain op => op.arith
  | addCarry => .adc
  | subtractCarry => .sbb

theorem arith?_operation (op : RegisterOperator) : op.operation.arith? = some op.arith := by
  cases op with
  | plain op => exact op.arith?_operation
  | addCarry => rfl
  | subtractCarry => rfl

theorem apply_arith (op : RegisterOperator) (carry : Bool) (a b : Word) :
    (op.arith.apply carry a b).1 = some (op.eval carry a b) := by
  cases op with
  | plain op => exact op.apply_arith carry a b
  | addCarry => cases carry <;> rfl
  | subtractCarry =>
      have hcount : BitVec.ofNat 32 carry.toNat = if carry then 1 else 0 := by
        cases carry <;> rfl
      show some (a - (b + BitVec.ofNat 32 carry.toNat)) = some (a - b - if carry then 1 else 0)
      rw [hcount]
      congr 1
      bv_omega

end RegisterOperator

/-- **THREE REGISTERS ARE COMBINED AS ASKED.**  Let any session meet
`dest = src1 op src2`, whichever of the registers coincide, whether or not the
pool has them, and whatever it has lent.  What the session appends runs to its
end from every machine.  It leaves in `dest` the value of the operation on what
the sources held and on the carry, and xmm registers and memory as they were.
Of the other general-purpose registers at most one is changed, a register of
the pool that was not lent and is none of the three. -/
theorem registers_combined (s : Session) (op : RegisterOperator) (dest src1 src2 : GpReg)
    (hreturns : s.Returns [.ternary op.operation (.gp dest) (.gp src1) (.gp src2)])
    (m : Machine) :
    ∃ m', s.Executes [.ternary op.operation (.gp dest) (.gp src1) (.gp src2)] m m' ∧
      m'.gp dest = op.eval m.carry (m.gp src1) (m.gp src2) ∧
      m'.xmm = m.xmm ∧ m'.memory = m.memory ∧
      ∃ scratch : Option GpReg,
        (∀ g, scratch = some g → s.pool.lendable.contains (.gp g) = true ∧
          s.pool.lent.contains (.gp g) = false ∧ g ∉ [dest, src1, src2]) ∧
        ∀ g, g ≠ dest → scratch ≠ some g → m'.gp g = m.gp g := by
  have hfollows : (Request.ternary op.operation (.gp dest) (.gp src1) (.gp src2)).synthesis.Follows
      (executing s.pool) m fun _ m' => Computes s.pool [.gp dest, .gp src1, .gp src2] m dest
        (op.eval m.carry (m.gp src1) (m.gp src2)) m' :=
    .seq (Synthesis.ternary_executing op.arith?_operation
      (op.apply_arith m.carry (m.gp src1) (m.gp src2)) fun _ _ h => h)
  obtain ⟨m', hexecutes, hcomputes⟩ := Session.executes_single hfollows hreturns
  obtain ⟨scratch, heligible, hframe⟩ := hcomputes.others
  refine ⟨m', hexecutes, hcomputes.value, hcomputes.xmm, hcomputes.memory, scratch, ?_, hframe⟩
  intro g hg
  obtain ⟨hlendable, hlent, -⟩ := ScratchPool.eligible_iff.mp (heligible g hg)
  refine ⟨hlendable, hlent, fun hmem => ?_⟩
  exact ScratchPool.not_mem_of_eligible (heligible g hg) (List.mem_map_of_mem (f := Reg.gp) hmem)

/-- A session that has lent `eax` already. -/
def Session.lendingOne : Session :=
  (Session.new Session.defaultScratch).after (.borrow [])

/-- A rotation whose distance is also its destination.  With `eax` lent and `ecx`
in use, the value is made in `edx`. -/
theorem registers_combined_rotation :
    Session.lendingOne.Returns [.ternary .ror (.gp .ecx) (.gp .esi) (.gp .ecx)] ∧
    ∃ m', Session.lendingOne.Executes [.ternary .ror (.gp .ecx) (.gp .esi) (.gp .ecx)]
        { gp := fun g => if g = .ecx then 36 else 0x80000001 } m' ∧
      m'.gp .ecx = 0x18000000 ∧ m'.gp .eax = 0x80000001 ∧ m'.gp .esi = 0x80000001 := by
  have hreturns : Session.lendingOne.Returns
      [.ternary .ror (.gp .ecx) (.gp .esi) (.gp .ecx)] := by decide
  obtain ⟨m', hexecutes, hvalue, -, -, scratch, hscratch, hframe⟩ :=
    registers_combined Session.lendingOne (.plain .ror) .ecx .esi .ecx hreturns
      { gp := fun g => if g = .ecx then 36 else 0x80000001 }
  refine ⟨hreturns, m', hexecutes, ?_, ?_, ?_⟩
  · rw [hvalue]
    decide
  · refine hframe .eax (by decide) fun h => ?_
    exact absurd (hscratch .eax h).2.1 (by decide)
  · refine hframe .esi (by decide) fun h => ?_
    exact absurd (hscratch .esi h).2.2 (by decide)

/-! ## §2. The carry. -/

/-- The carry after `dest = src1 op src2`, from the carry before and both operands.
For sums and differences it tells how the request was met: a sum in a register
of its own is an address or a shift, and a difference in its second source is
a sum with what was subtracted negated. -/
def RegisterOperator.carryAfter (op : RegisterOperator) (dest src1 src2 : GpReg) (carry : Bool)
    (a b : Word) : Bool :=
  match op with
  | plain .add =>
      if dest ≠ src1 ∧ dest ≠ src2 then
        if src1 = src2 then false else carry
      else decide (0x100000000 ≤ a.toNat + b.toNat)
  | plain .sub =>
      if dest = src2 ∧ dest ≠ src1 then decide (b ≠ 0) && decide (b.toNat ≤ a.toNat)
      else decide (a.toNat < b.toNat)
  | addCarry => decide (0x100000000 ≤ a.toNat + b.toNat + carry.toNat)
  | subtractCarry => decide (a.toNat < b.toNat + carry.toNat)
  | plain _ => false

section Carry

variable (dest src1 src2 : GpReg) (m : Machine)

/-- Only sums and differences are met by another operation. -/
theorem carryLeft_own {op : Operation} (hadd : op ≠ .add) (hsub : op ≠ .sub) (c : Bool) :
    carryLeft op dest src1 src2 m c = c := by
  unfold carryLeft
  rw [if_neg hsub, if_neg hadd]
  split
  · rfl
  · exact ite_self c

theorem carryLeft_add (c : Bool) :
    carryLeft .add dest src1 src2 m c =
      if dest ≠ src1 ∧ dest ≠ src2 then
        if src1 = src2 then false else m.carry
      else c := by
  unfold carryLeft
  by_cases hfirst : dest = src1
  · rw [if_pos hfirst, if_neg fun h => h.1 hfirst]
  · rw [if_neg hfirst]
    by_cases hsecond : dest = src2
    · have hnot : ¬ (dest ≠ src1 ∧ dest ≠ src2) := fun h => h.2 hsecond
      rw [if_pos hsecond, if_neg (by decide), if_neg hnot]
    · have hapart : dest ≠ src1 ∧ dest ≠ src2 := ⟨hfirst, hsecond⟩
      rw [if_neg hsecond, if_pos rfl, if_pos hapart]

theorem carryLeft_sub (c : Bool) :
    carryLeft .sub dest src1 src2 m c =
      if dest = src2 ∧ dest ≠ src1 then
        decide (m.gp src2 ≠ 0) && decide ((m.gp src2).toNat ≤ (m.gp src1).toNat)
      else c := by
  unfold carryLeft
  by_cases hfirst : dest = src1
  · rw [if_pos hfirst, if_neg fun h => h.2 hfirst]
  · rw [if_neg hfirst]
    by_cases hsecond : dest = src2
    · rw [if_pos hsecond, if_pos rfl, if_pos ⟨hsecond, hfirst⟩]
      rfl
    · have hnot : ¬ (dest = src2 ∧ dest ≠ src1) := fun h => hsecond h.1
      rw [if_neg hsecond, if_neg (by decide), if_neg hnot]

theorem RegisterOperator.carryLeft_eq (op : RegisterOperator) :
    carryLeft op.operation dest src1 src2 m (op.arith.apply m.carry (m.gp src1) (m.gp src2)).2 =
      op.carryAfter dest src1 src2 m.carry (m.gp src1) (m.gp src2) := by
  cases op with
  | addCarry | subtractCarry =>
      apply carryLeft_own
      · decide
      · decide
  | plain op =>
      cases op with
      | add => exact carryLeft_add dest src1 src2 m _
      | sub => exact carryLeft_sub dest src1 src2 m _
      | _ =>
          apply carryLeft_own
          · decide
          · decide

end Carry

/-- **EVERY OPERATION LEAVES A CARRY THAT ITS OPERANDS DECIDE.**  Let any session meet
`dest = src1 op src2`.  What it appends runs to its end from every machine.  An
operation with carry leaves its own carry or borrow, whichever registers
coincide and whether or not the value was made in a scratch register.  Logic,
products and shifts leave none.  A sum in a register of its own leaves the
carry it finds, or none if its sources are the same, and a difference in its
second source alone leaves a carry unless nothing is subtracted or there is a
borrow. -/
theorem registers_leave_carry (s : Session) (op : RegisterOperator) (dest src1 src2 : GpReg)
    (hreturns : s.Returns [.ternary op.operation (.gp dest) (.gp src1) (.gp src2)])
    (m : Machine) :
    ∃ m', s.Executes [.ternary op.operation (.gp dest) (.gp src1) (.gp src2)] m m' ∧
      m'.carry = op.carryAfter dest src1 src2 m.carry (m.gp src1) (m.gp src2) := by
  have hfollows : (Request.ternary op.operation (.gp dest) (.gp src1) (.gp src2)).synthesis.Follows
      (executing s.pool) m fun _ m' => Leaves s.pool [.gp dest, .gp src1, .gp src2] m dest
        (op.eval m.carry (m.gp src1) (m.gp src2)) _ m' :=
    .seq (Synthesis.ternary_leaves op.arith?_operation
      (Prod.ext (op.apply_arith m.carry (m.gp src1) (m.gp src2)) rfl) fun _ _ h => h)
  obtain ⟨m', hexecutes, hleaves⟩ := Session.executes_single hfollows hreturns
  refine ⟨m', hexecutes, ?_⟩
  rw [hleaves.carry, op.carryLeft_eq]

/-- `5 - 3` in the register of the `3` leaves a carry, and `5 - 5` with a carry in the
register of the second `5`, made in `edx`, leaves a borrow. -/
theorem registers_leave_carry_second :
    Session.lendingOne.Returns [.ternary .sub (.gp .ecx) (.gp .esi) (.gp .ecx)] ∧
    (∃ m', Session.lendingOne.Executes [.ternary .sub (.gp .ecx) (.gp .esi) (.gp .ecx)]
      { gp := fun g => if g = .ecx then 3 else 5 } m' ∧ m'.carry = true) ∧
    Session.lendingOne.Returns [.ternary .sbc (.gp .ecx) (.gp .esi) (.gp .ecx)] ∧
    ∃ m', Session.lendingOne.Executes [.ternary .sbc (.gp .ecx) (.gp .esi) (.gp .ecx)]
      { gp := fun _ => 5, carry := true } m' ∧ m'.carry = true := by
  refine ⟨by decide, ?_, by decide, ?_⟩
  · exact registers_leave_carry Session.lendingOne (.plain .sub) .ecx .esi .ecx (by decide)
      { gp := fun g => if g = .ecx then 3 else 5 }
  · exact registers_leave_carry Session.lendingOne .subtractCarry .ecx .esi .ecx (by decide)
      { gp := fun _ => 5, carry := true }

/-! ## §3. A 64-bit difference. -/

/-- **Subtraction by words** is right exactly if the high words take in the
borrow of the low ones. -/
theorem append_sub_append_iff (a₁ a₀ b₁ b₀ : Word) (c : Bool) :
    ((a₁ - (b₁ + BitVec.ofNat 32 c.toNat)) ++ (a₀ - b₀) : BitVec 64) =
        (a₁ ++ a₀ : BitVec 64) - (b₁ ++ b₀ : BitVec 64) ↔
      c = decide (a₀.toNat < b₀.toNat) := by
  have ha₀ := a₀.isLt
  have ha₁ := a₁.isLt
  have hb₀ := b₀.isLt
  have hb₁ := b₁.isLt
  rw [← BitVec.toNat_inj, toNat_append_word, BitVec.toNat_sub, BitVec.toNat_sub, BitVec.toNat_sub,
    toNat_append_word, toNat_append_word, BitVec.toNat_add, BitVec.toNat_ofNat]
  cases c with
  | false =>
      rw [eq_comm (a := false), decide_eq_false_iff_not]
      simp only [Bool.toNat_false]
      omega
  | true =>
      rw [eq_comm (a := true), decide_eq_true_eq]
      simp only [Bool.toNat_true]
      omega

/-- The two requests for a 64-bit difference, low words first. -/
def Request.wideDifference (loDest lo₁ lo₂ hiDest hi₁ hi₂ : GpReg) : List Request :=
  [.ternary .sub (.gp loDest) (.gp lo₁) (.gp lo₂), .ternary .sbc (.gp hiDest) (.gp hi₁) (.gp hi₂)]

/-- What the two requests leave, in registers that the pool does not lend.  The
high words take in the carry of the low ones, whatever it is. -/
theorem Session.wideDifference_executes (s : Session) (loDest lo₁ lo₂ hiDest hi₁ hi₂ : GpReg)
    (hout : ∀ g ∈ [loDest, lo₁, lo₂, hiDest, hi₁, hi₂],
      s.pool.lendable.contains (.gp g) = false)
    (hapart : loDest ∉ [hiDest, hi₁, hi₂])
    (hreturns : s.Returns (Request.wideDifference loDest lo₁ lo₂ hiDest hi₁ hi₂)) (m : Machine) :
    ∃ m', s.Executes (Request.wideDifference loDest lo₁ lo₂ hiDest hi₁ hi₂) m m' ∧
      m'.gp loDest = m.gp lo₁ - m.gp lo₂ ∧
      m'.gp hiDest = m.gp hi₁ - (m.gp hi₂ + BitVec.ofNat 32
        (carryLeft .sub loDest lo₁ lo₂ m (decide ((m.gp lo₁).toNat < (m.gp lo₂).toNat))).toNat) := by
  simp only [List.mem_cons, List.not_mem_nil, or_false, not_or] at hapart
  obtain ⟨hdest, h₁, h₂⟩ := hapart
  have hlow : (Request.ternary .sub (.gp loDest) (.gp lo₁) (.gp lo₂)).synthesis.Follows
      (executing s.pool) m fun _ m₁ => Leaves s.pool _ m loDest (m.gp lo₁ - m.gp lo₂) _ m₁ :=
    .seq (Synthesis.ternary_leaves (show Operation.arith? .sub = some .sub from rfl) rfl
      fun _ _ h => h)
  refine Session.executes_cons hlow hreturns ?_
  intro s₁ m₁ hlendable hreturns₁ hm₁
  have hhigh : (Request.ternary .sbc (.gp hiDest) (.gp hi₁) (.gp hi₂)).synthesis.Follows
      (executing s₁.pool) m₁ fun _ m₂ => Computes s₁.pool _ m₁ hiDest
        (m₁.gp hi₁ - (m₁.gp hi₂ + BitVec.ofNat 32 m₁.carry.toNat)) m₂ :=
    .seq (Synthesis.ternary_executing (show Operation.arith? .sbc = some .sbb from rfl) rfl
      fun _ _ h => h)
  obtain ⟨m₂, hexecutes, hm₂⟩ := Session.executes_single hhigh hreturns₁
  refine ⟨m₂, hexecutes, ?_, ?_⟩
  · -- The high words leave the low result alone.
    have hkept : s₁.pool.lendable.contains (.gp loDest) = false := by
      rw [hlendable]
      exact hout loDest (by simp)
    rw [hm₂.kept hdest hkept, hm₁.value]
  · rw [hm₂.value, hm₁.carry, hm₁.kept (Ne.symm h₁) (hout hi₁ (by simp)),
      hm₁.kept (Ne.symm h₂) (hout hi₂ (by simp))]

/-- The carry of a subtraction met by a sum is a borrow only if nothing is
subtracted. -/
theorem carryLeft_sub_iff (dest src1 src2 : GpReg) (m : Machine) :
    carryLeft .sub dest src1 src2 m (decide ((m.gp src1).toNat < (m.gp src2).toNat)) =
        decide ((m.gp src1).toNat < (m.gp src2).toNat) ↔
      (dest = src2 → dest ≠ src1 → m.gp src2 = 0) := by
  rw [carryLeft_sub]
  by_cases hinto : dest = src2 ∧ dest ≠ src1
  · rw [if_pos hinto, Bool.eq_iff_iff, Bool.and_eq_true, decide_eq_true_eq, decide_eq_true_eq,
      decide_eq_true_eq, ne_eq, ← BitVec.toNat_inj]
    show (¬ (m.gp src2).toNat = 0 ∧ _ ↔ _) ↔ (_ → _ → (m.gp src2).toNat = 0)
    constructor
    · intro h _ _
      omega
    · intro h
      have hzero := h hinto.1 hinto.2
      omega
  · rw [if_neg hinto]
    exact ⟨fun _ hsecond hfirst => absurd ⟨hsecond, hfirst⟩ hinto, fun _ => rfl⟩

/-- **WHEN A 64-BIT DIFFERENCE IS RIGHT.**  Let a session meet a subtraction of
low words and one with carry of high words, in registers that its pool does not
lend, the low result in none of the registers of the high words.  What it
appends runs to its end from every machine.  The difference is the one modulo
`2^64`, except where the low result goes into its second source and not into
its first: there it is wrong whenever that source is not zero. -/
theorem wide_difference_right_iff (s : Session) (loDest lo₁ lo₂ hiDest hi₁ hi₂ : GpReg)
    (hout : ∀ g ∈ [loDest, lo₁, lo₂, hiDest, hi₁, hi₂],
      s.pool.lendable.contains (.gp g) = false)
    (hapart : loDest ∉ [hiDest, hi₁, hi₂])
    (hreturns : s.Returns (Request.wideDifference loDest lo₁ lo₂ hiDest hi₁ hi₂)) (m : Machine) :
    ∃ m', s.Executes (Request.wideDifference loDest lo₁ lo₂ hiDest hi₁ hi₂) m m' ∧
      ((m'.gp hiDest ++ m'.gp loDest : BitVec 64) =
          (m.gp hi₁ ++ m.gp lo₁ : BitVec 64) - (m.gp hi₂ ++ m.gp lo₂ : BitVec 64) ↔
        (loDest = lo₂ → loDest ≠ lo₁ → m.gp lo₂ = 0)) := by
  obtain ⟨m', hexecutes, hlo, hhi⟩ := s.wideDifference_executes loDest lo₁ lo₂ hiDest hi₁ hi₂ hout
    hapart hreturns m
  refine ⟨m', hexecutes, ?_⟩
  rw [hlo, hhi, append_sub_append_iff, carryLeft_sub_iff]

/-- A borrow that reaches the high words, which are subtracted by way of a
scratch register. -/
theorem wide_difference_right_borrow :
    (∀ g ∈ [GpReg.ebx, .esi, .edi, .ebp, .esi, .ebp],
      (Session.new Session.defaultScratch).pool.lendable.contains (.gp g) = false) ∧
    GpReg.ebx ∉ [GpReg.ebp, .esi, .ebp] ∧
    (Session.new Session.defaultScratch).Returns
      (Request.wideDifference .ebx .esi .edi .ebp .esi .ebp) ∧
    ∃ m', (Session.new Session.defaultScratch).Executes
        (Request.wideDifference .ebx .esi .edi .ebp .esi .ebp)
        { gp := fun g => if g = .edi then 1 else if g = .ebp then 2 else 0 } m' ∧
      (m'.gp .ebp ++ m'.gp .ebx : BitVec 64) = 0xFFFFFFFDFFFFFFFF := by
  refine ⟨by decide, by decide, by decide, ?_⟩
  obtain ⟨m', hexecutes, hright⟩ := wide_difference_right_iff
    (Session.new Session.defaultScratch) .ebx .esi .edi .ebp .esi .ebp (by decide) (by decide)
    (by decide) { gp := fun g => if g = .edi then 1 else if g = .ebp then 2 else 0 }
  exact ⟨m', hexecutes, (hright.mpr (by decide)).trans (by decide)⟩

/-- `0xA00000005 - 0x400000003`, where the low result goes into its second source:
the sum that stands for the subtraction leaves a carry, and the high word is one
too small. -/
theorem wide_difference_wrong :
    (∀ g ∈ [GpReg.ebx, .esi, .ebx, .edi, .edi, .ebp],
      (Session.new Session.defaultScratch).pool.lendable.contains (.gp g) = false) ∧
    GpReg.ebx ∉ [GpReg.edi, .edi, .ebp] ∧
    (Session.new Session.defaultScratch).Returns
      (Request.wideDifference .ebx .esi .ebx .edi .edi .ebp) ∧
    ∃ m', (Session.new Session.defaultScratch).Executes
        (Request.wideDifference .ebx .esi .ebx .edi .edi .ebp)
        { gp := fun g =>
            if g = .esi then 5 else if g = .ebx then 3 else if g = .edi then 10 else 4 } m' ∧
      (m'.gp .edi ++ m'.gp .ebx : BitVec 64) = 0x500000002 ∧
      (0xA00000005 - 0x400000003 : BitVec 64) = 0x600000002 := by
  refine ⟨by decide, by decide, by decide, ?_⟩
  obtain ⟨m', hexecutes, hlo, hhi⟩ := Session.wideDifference_executes
    (Session.new Session.defaultScratch) .ebx .esi .ebx .edi .edi .ebp (by decide) (by decide)
    (by decide)
    { gp := fun g => if g = .esi then 5 else if g = .ebx then 3 else if g = .edi then 10 else 4 }
  refine ⟨m', hexecutes, ?_, by decide⟩
  rw [hlo, hhi]
  decide

end TwoAddress
