/-
  TwoAddress.Proofs.ThreeOperands
  ───────────────────────────────
  **THREE OPERANDS ON A TWO-ADDRESS MACHINE.**

  `dest = src1 op src2` is met in a different way for each way in which `dest`
  coincides with a source.  All of them leave the same value in `dest`, and
  besides `dest` they change at most one register, a scratch register that is
  none of the operands.  The carry they do not leave alike: an addition may be
  made without touching it, and a subtraction may be made by an addition.

    • §1 `Computes`: a machine that has the value, and little else changed, and
      `Leaves`, which gives the carry as well;
    • §2 the ways of meeting a register operand, and their summary
      (`ternary_leaves`, and `ternary_executing` for the value alone);
    • §3 an immediate operand, where no scratch register is needed
      (`ternaryImm_leaves`, and `ternaryImm_executing` for the value alone).
-/
import TwoAddress.Proofs.EmittedCode

namespace TwoAddress

/-! ## §1. Computing a value. -/

/-- `m'` is `m` with `v` in `dest`.  At most one other general-purpose register
differs, which the pool may lend to a borrower that excludes the operands. -/
structure Computes (pool : ScratchPool) (operands : List Reg) (m : Machine) (dest : GpReg)
    (v : Word) (m' : Machine) : Prop where
  value : m'.gp dest = v
  others : ∃ scratch : Option GpReg,
    (∀ g, scratch = some g → pool.eligible (.ofList operands) g = true) ∧
      ∀ g, g ≠ dest → scratch ≠ some g → m'.gp g = m.gp g
  xmm : m'.xmm = m.xmm
  memory : m'.memory = m.memory

/-- Nothing but the destination is written. -/
theorem Computes.of_frame {pool : ScratchPool} {operands : List Reg} {m m' : Machine}
    {dest : GpReg} {v : Word} (hvalue : m'.gp dest = v)
    (hothers : ∀ g, g ≠ dest → m'.gp g = m.gp g) (hxmm : m'.xmm = m.xmm)
    (hmemory : m'.memory = m.memory) : Computes pool operands m dest v m' where
  value := hvalue
  others := ⟨none, fun _ h => absurd h (by simp), fun g hg _ => hothers g hg⟩
  xmm := hxmm
  memory := hmemory

theorem Computes.setGp {pool : ScratchPool} {operands : List Reg} (m : Machine) (dest : GpReg)
    (v : Word) : Computes pool operands m dest v (m.setGp dest v) :=
  .of_frame (by simp) (fun g hg => by simp [hg]) rfl rfl

/-- An arithmetic instruction that has a result writes it to its operand. -/
theorem Computes.combine {pool : ScratchPool} {operands : List Reg} {m : Machine} {arith : Arith}
    {d : GpReg} {b v : Word} (h : (arith.apply m.carry (m.gp d) b).1 = some v) :
    Computes pool operands m d v (m.combine arith d b) :=
  .of_frame (Machine.gp_combine_self h) (fun _ hg => Machine.gp_combine_of_ne m arith hg b)
    (Machine.xmm_combine m arith d b) (Machine.memory_combine m arith d b)

/-- What is computed after the destination was overwritten could have been
computed before. -/
theorem Computes.after {pool : ScratchPool} {operands : List Reg} {m m₁ m' : Machine}
    {dest : GpReg} {v : Word} (h : Computes pool operands m₁ dest v m')
    (hothers : ∀ g, g ≠ dest → m₁.gp g = m.gp g) (hxmm : m₁.xmm = m.xmm)
    (hmemory : m₁.memory = m.memory) : Computes pool operands m dest v m' where
  value := h.value
  others := by
    obtain ⟨scratch, heligible, hframe⟩ := h.others
    refine ⟨scratch, heligible, fun g hg hscratch => ?_⟩
    rw [hframe g hg hscratch, hothers g hg]
  xmm := h.xmm.trans hxmm
  memory := h.memory.trans hmemory

theorem Computes.after_setGp {pool : ScratchPool} {operands : List Reg} {m m' : Machine}
    {dest : GpReg} {w v : Word} (h : Computes pool operands (m.setGp dest w) dest v m') :
    Computes pool operands m dest v m' :=
  h.after (fun g hg => by simp [hg]) rfl rfl

/-- A register that may not be lent keeps its content. -/
theorem Computes.kept {pool : ScratchPool} {operands : List Reg} {m m' : Machine} {dest g : GpReg}
    {v : Word} (h : Computes pool operands m dest v m') (hne : g ≠ dest)
    (hout : pool.lendable.contains (.gp g) = false) : m'.gp g = m.gp g := by
  obtain ⟨scratch, heligible, hframe⟩ := h.others
  refine hframe g hne fun hscratch => ?_
  rw [(ScratchPool.eligible_iff.mp (heligible g hscratch)).1] at hout
  exact absurd hout (by simp)

/-- `m'` has computed `v` in `dest`, and its carry is `c`. -/
structure Leaves (pool : ScratchPool) (operands : List Reg) (m : Machine) (dest : GpReg)
    (v : Word) (c : Bool) (m' : Machine) : Prop extends Computes pool operands m dest v m' where
  carry : m'.carry = c

theorem Leaves.setGp {pool : ScratchPool} {operands : List Reg} (m : Machine) (dest : GpReg)
    (v : Word) : Leaves pool operands m dest v m.carry (m.setGp dest v) :=
  ⟨.setGp m dest v, rfl⟩

/-- An arithmetic instruction leaves its result and its carry. -/
theorem Leaves.combine {pool : ScratchPool} {operands : List Reg} {m : Machine} {arith : Arith}
    {d : GpReg} {b v : Word} {c : Bool} (h : arith.apply m.carry (m.gp d) b = (some v, c)) :
    Leaves pool operands m d v c (m.combine arith d b) where
  toComputes := .combine (by rw [h])
  carry := by rw [Machine.carry_combine, h]

theorem Leaves.after_setGp {pool : ScratchPool} {operands : List Reg} {m m' : Machine}
    {dest : GpReg} {w v : Word} {c : Bool}
    (h : Leaves pool operands (m.setGp dest w) dest v c m') : Leaves pool operands m dest v c m' :=
  ⟨h.toComputes.after_setGp, h.carry⟩

/-- Operands of a commutative operation may be exchanged. -/
theorem apply_comm {op : Operation} {arith : Arith} (harith : op.arith? = some arith)
    (hop : op.isCommutative = true) (c : Bool) (a b : Word) :
    arith.apply c a b = arith.apply c b a := by
  have hcases : op = .add ∨ op = .or ∨ op = .adc ∨ op = .and ∨ op = .xor := by
    cases op <;> simp_all [Operation.isCommutative]
  rcases hcases with rfl | rfl | rfl | rfl | rfl <;> cases harith <;>
    simp [Arith.apply, BitVec.add_comm, BitVec.and_comm, BitVec.or_comm, BitVec.xor_comm,
      Nat.add_comm]

/-- A difference made of a negation and a sum has the carry of the sum. -/
theorem carry_negate_add (a b : Word) :
    decide (0x100000000 ≤ (-b).toNat + a.toNat) = (decide (b ≠ 0) && decide (b ≤ a)) := by
  have ha := a.isLt
  have hb := b.isLt
  rw [Bool.eq_iff_iff, Bool.and_eq_true, decide_eq_true_eq, decide_eq_true_eq, decide_eq_true_eq,
    BitVec.le_def, BitVec.toNat_neg, ne_eq, ← BitVec.toNat_inj]
  show _ ↔ ¬ b.toNat = 0 ∧ _
  omega

/-- The carry that `dest = src1 op src2` leaves, where `c` is the operation's own.
A sum apart from its sources leaves the carry it finds, or that of a shift, and a
difference into its second source leaves that of a sum. -/
def carryLeft (op : Operation) (dest src1 src2 : GpReg) (m : Machine) (c : Bool) : Bool :=
  if dest = src1 then c
  else if dest = src2 then
    if op = .sub then decide (m.gp src2 ≠ 0) && decide (m.gp src2 ≤ m.gp src1) else c
  else if op = .add then
    if src1 = src2 then false else m.carry
  else c

/-- The carry that `dest op= value` leaves, where `c` is the operation's own.  Zero is
made by an operation that clears the carry, and a product is made by one that
leaves it alone. -/
def carryInto (op : Operation) (value : Word) (m : Machine) (c : Bool) : Bool :=
  if op = .mul then m.carry
  else if op = .mov then
    if value = 0 then false else m.carry
  else c

/-- The carry that `dest = src op value` leaves.  A mask that is met by an extension
leaves the carry it finds, and so does a sum apart from its source. -/
def carryLeftImm (op : Operation) (dest src : GpReg) (value : Word) (m : Machine) (c : Bool) :
    Bool :=
  if op = .and ∧ (value = 0xFF ∧ src.byteAddressable ∨ value = 0xFFFF) ∨ op = .add ∧ dest ≠ src
  then m.carry
  else carryInto op value m c

namespace Synthesis

variable {pool : ScratchPool} {m : Machine} {Q : RecordId → Machine → Prop}
  {op : Operation} {arith : Arith} {operands : List Reg} {dest src1 src2 : GpReg} {v : Word}
  {c : Bool}

/-! ## §2. Register operands. -/

/-- The destination is the first source. -/
theorem intoFirst_executing (harith : op.arith? = some arith)
    (hv : arith.apply m.carry (m.gp dest) (m.gp src2) = (some v, c))
    (hQ : ∀ id m', Leaves pool operands m dest v c m' → Q id m') :
    (binary op (.gp dest) (.gp src2)).Follows (executing pool) m Q :=
  binary_executing harith dest src2 fun id => hQ id _ (.combine hv)

/-- The destination is neither source: copy, then operate. -/
theorem copyThen_executing (harith : op.arith? = some arith) (hne : dest ≠ src2)
    (hv : arith.apply m.carry (m.gp src1) (m.gp src2) = (some v, c))
    (hQ : ∀ id m', Leaves pool operands m dest v c m' → Q id m') :
    Follows (executing pool) (copy (.gp dest) (.gp src1) >>= fun _ =>
      binary op (.gp dest) (.gp src2)) m Q := by
  refine Follows.seq (copy_executing dest src1 fun _ => ?_)
  have hsrc2 : (m.setGp dest (m.gp src1)).gp src2 = m.gp src2 := by simp [hne.symm]
  refine binary_executing harith dest src2 fun id => hQ id _ (Leaves.after_setGp (.combine ?_))
  rw [hsrc2]
  simpa using hv

/-- The destination is the second source, and the operation is in the way: the
value is made in a scratch register and copied. -/
theorem throughScratch_executing (harith : op.arith? = some arith)
    (hv : arith.apply m.carry (m.gp src1) (m.gp src2) = (some v, c))
    (hQ : ∀ id m', Leaves pool [.gp dest, .gp src1, .gp src2] m dest v c m' → Q id m') :
    (throughScratch op (.gp dest) (.gp src1) (.gp src2)).Follows (executing pool) m Q := by
  rw [throughScratch_eq_withScratch]
  refine Follows.seq fun g hg => ?_
  -- The copy into the scratch register leaves the second source alone.
  have hsrc2 : src2 ≠ g := by
    rintro rfl
    exact ScratchPool.not_mem_of_eligible hg (by simp)
  refine Follows.seq ((asks_require _ _).follows_then (fun _ => trivial) fun _ => ?_)
  refine Follows.seq (Follows.seq (copy_executing g src1 fun _ => ?_))
  refine Follows.seq (binary_executing harith g src2 fun _ => copy_executing dest g fun id => ?_)
  have hmade : arith.apply (m.setGp g (m.gp src1)).carry ((m.setGp g (m.gp src1)).gp g)
      ((m.setGp g (m.gp src1)).gp src2) = (some v, c) := by simpa [hsrc2] using hv
  refine ⟨(ScratchPool.eligible_iff.mp hg).2.1, hQ id _ ⟨⟨?_, ⟨some g, ?_, ?_⟩, ?_, ?_⟩, ?_⟩⟩
  · have hvalue := Machine.gp_combine_self (congrArg Prod.fst hmade)
    simpa using hvalue
  · intro g' h
    exact Option.some.inj h ▸ hg
  · intro q hdest hscratch
    have hq : q ≠ g := fun h => hscratch (congrArg some h.symm)
    simp [hdest, hq, Machine.gp_combine_of_ne]
  · simp
  · simp
  · rw [Machine.carry_setGp, Machine.carry_combine, hmade]

/-- The sum of two registers in a third. -/
theorem addApart_executing
    (hQ : ∀ id m', Leaves pool operands m dest (m.gp src1 + m.gp src2)
      (if src1 = src2 then false else m.carry) m' → Q id m') :
    (addApart (.gp dest) (.gp src1) (.gp src2)).Follows (executing pool) m Q := by
  unfold addApart
  by_cases hsame : src1 = src2
  · -- A register is doubled by a shift.
    subst hsame
    have hdouble : m.gp src1 <<< 1 = m.gp src1 + m.gp src1 := by
      apply BitVec.eq_of_toNat_eq
      simp [BitVec.toNat_add, Nat.shiftLeft_eq]
      omega
    rw [if_pos rfl] at hQ ⊢
    refine Follows.seq (Follows.seq (copy_executing dest src1 fun _ => ?_))
    refine binaryImm_executing (show Operation.arith? .lsl = some .sal from rfl) (by decide)
      (by decide) dest 1 fun id => hQ id _ (Leaves.after_setGp (.combine ?_))
    simp [Arith.apply, hdouble]
  · rw [if_neg hsame] at hQ
    rw [if_neg (by simpa using hsame)]
    refine Follows.seq ?_
    show Follows _ (if Reg.gp src1 = .gp .ebp then _ else _) m Q
    split
    · refine lea_executing dest rfl rfl 0 fun id => hQ id _ ?_
      have hsum : m.valueOf (.gp src2) + m.valueOf (.gp src1) + 0 = m.gp src1 + m.gp src2 := by
        simp [Machine.valueOf, BitVec.add_comm]
      rw [hsum]
      exact .setGp m dest _
    · refine lea_executing dest rfl rfl 0 fun id => hQ id _ ?_
      have hsum : m.valueOf (.gp src1) + m.valueOf (.gp src2) + 0 = m.gp src1 + m.gp src2 := by
        simp [Machine.valueOf]
      rw [hsum]
      exact .setGp m dest _

/-- `src1 - dest` is the sum of `src1` and the negated `dest`. -/
theorem negateThenAdd_executing (hne : dest ≠ src1)
    (hQ : ∀ id m', Leaves pool operands m dest (m.gp src1 - m.gp dest)
      (decide (m.gp dest ≠ 0) && decide (m.gp dest ≤ m.gp src1)) m' → Q id m') :
    Follows (executing pool) (unary .neg (.gp dest) >>= fun _ =>
      binary .add (.gp dest) (.gp src1)) m Q := by
  refine Follows.seq (negate_executing dest fun _ => ?_)
  refine binary_executing (show Operation.arith? .add = some .add from rfl) dest src1
    fun id => hQ id _ ⟨Computes.after (.combine ?_) (fun g hg => by simp [hg]) rfl rfl, ?_⟩
  · simp [Arith.apply, hne.symm, BitVec.sub_eq_add_neg, BitVec.add_comm]
  · rw [Machine.carry_combine]
    show decide (_ ≤ (if dest = dest then -m.gp dest else _).toNat +
      (if src1 = dest then _ else m.gp src1).toNat) = _
    rw [if_pos rfl, if_neg hne.symm]
    exact carry_negate_add (m.gp src1) (m.gp dest)

/-- The destination is the second source only. -/
theorem intoSecond_executing (harith : op.arith? = some arith) (hne : dest ≠ src1)
    (hv : arith.apply m.carry (m.gp src1) (m.gp dest) = (some v, c))
    (hQ : ∀ id m', Leaves pool [.gp dest, .gp src1, .gp dest] m dest v
      (carryLeft op dest src1 dest m c) m' → Q id m') :
    (intoSecond op (.gp dest) (.gp src1) (.gp dest)).Follows (executing pool) m Q := by
  have hown : op ≠ .sub → carryLeft op dest src1 dest m c = c := by
    intro hop
    rw [carryLeft, if_neg hne, if_pos rfl, if_neg hop]
  unfold intoSecond
  split
  next hcomm =>
    rw [hown (by rintro rfl; exact Bool.false_ne_true hcomm)] at hQ
    refine intoFirst_executing harith ?_ hQ
    rw [apply_comm harith hcomm]
    exact hv
  next =>
    split
    case h_1 =>
      cases harith
      obtain rfl : m.gp src1 - m.gp dest = v := Option.some.inj (congrArg Prod.fst hv)
      rw [carryLeft, if_neg hne, if_pos rfl, if_pos rfl] at hQ
      exact Follows.seq (negateThenAdd_executing hne hQ)
    case h_7 => trivial
    all_goals
      rw [hown (by decide)] at hQ
      exact throughScratch_executing harith hv hQ

/-- **THREE OPERANDS.**  However the destination coincides with the sources,
`dest = src1 op src2` leaves the value of the operation, changes at most a
scratch register besides, and leaves the carry that `carryLeft` says. -/
theorem ternary_leaves (harith : op.arith? = some arith)
    (hv : arith.apply m.carry (m.gp src1) (m.gp src2) = (some v, c))
    (hQ : ∀ id m', Leaves pool [.gp dest, .gp src1, .gp src2] m dest v
      (carryLeft op dest src1 src2 m c) m' → Q id m') :
    (ternary op (.gp dest) (.gp src1) (.gp src2)).Follows (executing pool) m Q := by
  unfold ternary
  by_cases hfirst : dest = src1
  · subst hfirst
    rw [carryLeft, if_pos rfl] at hQ
    rw [if_pos rfl]
    exact intoFirst_executing harith hv hQ
  · rw [if_neg (by simpa using hfirst)]
    by_cases hsecond : dest = src2
    · subst hsecond
      rw [if_pos rfl]
      exact intoSecond_executing harith hfirst hv hQ
    · rw [carryLeft, if_neg hfirst, if_neg hsecond] at hQ
      rw [if_neg (by simpa using hsecond)]
      split
      next hadd =>
        subst hadd
        cases harith
        obtain rfl : m.gp src1 + m.gp src2 = v := Option.some.inj (congrArg Prod.fst hv)
        rw [if_pos rfl] at hQ
        exact addApart_executing hQ
      next hadd =>
        rw [if_neg hadd] at hQ
        exact copyThen_executing harith hsecond hv hQ

/-- The value alone. -/
theorem ternary_executing (harith : op.arith? = some arith)
    (hv : (arith.apply m.carry (m.gp src1) (m.gp src2)).1 = some v)
    (hQ : ∀ id m', Computes pool [.gp dest, .gp src1, .gp src2] m dest v m' → Q id m') :
    (ternary op (.gp dest) (.gp src1) (.gp src2)).Follows (executing pool) m Q :=
  ternary_leaves harith (Prod.ext hv rfl) fun id m' h => hQ id m' h.toComputes

/-! ## §3. Immediate operands. -/

variable {v? : Option Word}

/-- `dest op= value`, in every way there is. -/
theorem intoImm_leaves (harith : op.arith? = some arith) {value : Word}
    (hv : arith.apply m.carry (m.gp dest) value = (v?, c))
    (hQ : ∀ id, Q id ({ m with carry := carryInto op value m c }.setGp dest
      (v?.getD (m.gp dest)))) :
    (binaryImm op (.gp dest) value).Follows (executing pool) m Q := by
  by_cases hmul : op = .mul
  · subst hmul
    cases harith
    cases hv
    exact multiplyImm_executing dest dest value hQ
  · by_cases hmov : op = .mov
    · subst hmov
      cases harith
      cases hv
      rw [carryInto, if_neg hmul, if_pos rfl] at hQ
      exact constant_executing dest value hQ
    · refine binaryImm_executing harith hmul hmov dest value fun id => ?_
      rw [carryInto, if_neg hmul, if_neg hmov] at hQ
      rw [Machine.combine_eq hv]
      exact hQ id

theorem copyThenImm_leaves (harith : op.arith? = some arith) {src : GpReg} {value : Word}
    (hv : arith.apply m.carry (m.gp src) value = (v?, c))
    (hQ : ∀ id, Q id ({ m with carry := carryInto op value m c }.setGp dest
      (v?.getD (m.gp src)))) :
    (copyThenImm op (.gp dest) (.gp src) value).Follows (executing pool) m Q := by
  unfold copyThenImm
  by_cases hsame : dest = src
  · subst hsame
    rw [if_pos rfl]
    exact intoImm_leaves harith hv hQ
  · rw [if_neg (by simpa using hsame)]
    refine Follows.seq (copy_executing dest src fun _ => ?_)
    have hcopied : (m.setGp dest (m.gp src)).gp dest = m.gp src := by simp
    rw [← hcopied] at hv
    refine intoImm_leaves harith hv fun id => ?_
    rw [hcopied]
    exact Machine.setGp_setGp { m with carry := carryInto op value m c } dest _ _ ▸ hQ id

/-- The two masks that are zero extensions. -/
theorem extend_unsignedByte (a : Word) : Extension.unsignedByte.apply a = a &&& 0xFF := by
  apply BitVec.eq_of_toNat_eq
  have hmask : a.toNat &&& 255 = a.toNat % 2 ^ 8 := Nat.and_two_pow_sub_one_eq_mod a.toNat 8
  have hlt : a.toNat % 256 < 4294967296 := by omega
  simp [Extension.apply, hmask, Nat.mod_eq_of_lt hlt]

theorem extend_unsignedHalf (a : Word) : Extension.unsignedHalf.apply a = a &&& 0xFFFF := by
  apply BitVec.eq_of_toNat_eq
  have hmask : a.toNat &&& 65535 = a.toNat % 2 ^ 16 := Nat.and_two_pow_sub_one_eq_mod a.toNat 16
  have hlt : a.toNat % 65536 < 4294967296 := by omega
  simp [Extension.apply, hmask, Nat.mod_eq_of_lt hlt]

/-- **THREE OPERANDS, ONE OF THEM AN IMMEDIATE.**  The destination gets the value
of the operation, the carry is as `carryLeftImm` says, and nothing else is
changed. -/
theorem ternaryImm_leaves (harith : op.arith? = some arith) {src : GpReg} {value : Word}
    (hv : arith.apply m.carry (m.gp src) value = (v?, c))
    (hQ : ∀ id, Q id ({ m with carry := carryLeftImm op dest src value m c }.setGp dest
      (v?.getD (m.gp src)))) :
    (ternaryImm op (.gp dest) (.gp src) value).Follows (executing pool) m Q := by
  unfold ternaryImm
  split
  · cases harith
    cases hv
    exact multiplyImm_executing dest src value hQ
  · split
    next hbyte =>
      cases harith
      cases hv
      rw [carryLeftImm, if_pos (.inl ⟨rfl, .inl hbyte⟩)] at hQ
      obtain ⟨rfl, -⟩ := hbyte
      refine Follows.seq (emit_executing (Machine.step_extend m dest src rfl) fun id => ?_)
      rw [extend_unsignedByte]
      exact hQ id
    next hbyte =>
      split
      next hhalf =>
        cases harith
        cases hv
        rw [carryLeftImm, if_pos (.inl ⟨rfl, .inr hhalf⟩)] at hQ
        subst hhalf
        refine Follows.seq (emit_executing (Machine.step_extend m dest src rfl) fun id => ?_)
        rw [extend_unsignedHalf]
        exact hQ id
      next hhalf =>
        rw [carryLeftImm, if_neg] at hQ
        · exact copyThenImm_leaves harith hv hQ
        · rintro (⟨-, hmask | hmask⟩ | ⟨hadd, -⟩)
          · exact hbyte hmask
          · exact hhalf hmask
          · exact absurd hadd (by decide)
  · split
    next hsame =>
      obtain rfl : dest = src := by simpa using hsame
      rw [carryLeftImm, if_neg (by simp)] at hQ
      exact intoImm_leaves harith hv hQ
    next hne =>
      -- The sum is the address of a place without an index.
      cases harith
      cases hv
      rw [carryLeftImm, if_pos (.inr ⟨rfl, by simpa using hne⟩)] at hQ
      refine Follows.seq (lea_executing dest rfl rfl value fun id => ?_)
      have hsum : m.valueOf (.gp src) + m.valueOf .absent + value = m.gp src + value := by
        simp [Machine.valueOf]
      rw [hsum]
      exact hQ id
  next hand hadd =>
    rw [carryLeftImm, if_neg (fun h => h.elim (fun h => hand h.1) fun h => hadd h.1)] at hQ
    exact copyThenImm_leaves harith hv hQ

/-- The value alone. -/
theorem ternaryImm_executing (harith : op.arith? = some arith) {src : GpReg} {value : Word}
    (hv : (arith.apply m.carry (m.gp src) value).1 = some v)
    (hQ : ∀ id m', Computes pool operands m dest v m' → Q id m') :
    (ternaryImm op (.gp dest) (.gp src) value).Follows (executing pool) m Q := by
  refine ternaryImm_leaves harith (Prod.ext hv rfl) fun id => hQ id _ ?_
  exact .of_frame (by simp) (fun g hg => by simp [hg]) rfl rfl

end Synthesis

end TwoAddress
