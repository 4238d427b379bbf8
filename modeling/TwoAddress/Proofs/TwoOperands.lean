/-
  TwoAddress.Proofs.TwoOperands
  ─────────────────────────────
  **TWO REGISTERS, ONE OF THEM OVERWRITTEN.**

  `dest op= src` is what the machine is made for, and most operations are one
  instruction.  Not all: a negation is made on a copy, and the low byte of half
  of the registers cannot be named, so that its sign is spread by two shifts.
  The registers may be one and the same, and one of them may count a shift.

    • §1 the operations, with their meaning on words and on the carry;
    • §2 the code for each of them, run on a machine;
    • §3 all of them, on every session (`two_registers_combined`).
-/
import TwoAddress.Proofs.Granted
import TwoAddress.Proofs.RegisterArithmetic

namespace TwoAddress

/-! ## §1. Operations. -/

/-- The operations on two registers: all but a call. -/
inductive PairOperator where
  | combine (op : RegisterOperator)
  | move
  | compare
  | negate
  | complement
  | widenByte
  | widenShort
  | widenChar
  deriving DecidableEq, Repr

namespace PairOperator

/-- What is in the first register afterwards, from the carry and both registers. -/
def eval : PairOperator → Bool → Word → Word → Word
  | combine op, carry, a, b => op.eval carry a b
  | move, _, _, b => b
  | compare, _, a, _ => a
  | negate, _, _, b => -b
  | complement, _, _, b => ~~~ b
  | widenByte, _, _, b => (b.setWidth 8).signExtend 32
  | widenShort, _, _, b => (b.setWidth 16).signExtend 32
  | widenChar, _, _, b => (b.setWidth 16).setWidth 32

/-- The carry afterwards, from whether the low byte of the second operand can be named,
the carry before and both operands.  The sign of a byte that cannot be named is
spread by shifts, and they clear it. -/
def carryAfter : PairOperator → Bool → Bool → Word → Word → Bool
  | combine op, _, carry, a, b => (op.arith.apply carry a b).2
  | compare, _, _, a, b => decide (a.toNat < b.toNat)
  | negate, _, _, _, b => b != 0
  | widenByte, named, carry, _, _ => named && carry
  | move, _, carry, _, _ | complement, _, carry, _, _ => carry
  | widenShort, _, carry, _, _ | widenChar, _, carry, _, _ => carry

/-- It matters to the widening of a byte only whether the byte can be named. -/
theorem carryAfter_named {op : PairOperator} {named : Bool} (h : op ≠ .widenByte ∨ named = true)
    (carry : Bool) (a b : Word) :
    op.carryAfter named carry a b = op.carryAfter true carry a b := by
  rcases h with h | rfl
  · cases op with
    | widenByte => exact absurd rfl h
    | _ => rfl
  · rfl

/-- The operation that a request names. -/
def operation : PairOperator → Operation
  | combine op => op.operation
  | move => .mov
  | compare => .cmp
  | negate => .neg
  | complement => .not
  | widenByte => .widenByte
  | widenShort => .widenShort
  | widenChar => .widenChar

theorem takesRegister (op : PairOperator) {src : GpReg}
    (hcount : op.operation.isShift = true → src = .ecx) : op.operation.TakesRegister src := by
  refine ⟨?_, hcount⟩
  cases op with
  | combine op =>
      -- What is combined has a result, and a call has none.
      intro hcall
      have harith := op.arith?_operation
      rw [show op.operation = .indirectCall from hcall] at harith
      exact absurd harith (by simp [Operation.arith?])
  | _ => decide

end PairOperator

/-! ## §2. Code. -/

/-- **Up and down again** spreads the sign of the low byte. -/
theorem sshiftRight_shiftLeft_byte (a : Word) :
    (a <<< 24).sshiftRight 24 = (a.setWidth 8).signExtend 32 := by
  apply BitVec.eq_of_getLsbD_eq
  intro i hi
  rw [BitVec.getLsbD_sshiftRight, BitVec.getLsbD_signExtend]
  have hinside : ¬ 32 ≤ i := by omega
  by_cases hlow : i < 8
  · -- The byte itself is where it was.
    have hshift : 24 + i < 32 := by omega
    simp [hlow, hi, hinside, hshift]
  · -- Above it there is nothing but its sign.
    have hshift : ¬ 24 + i < 32 := by omega
    simp [hlow, hi, hinside, hshift, BitVec.msb_eq_getLsbD_last]

/-- Arithmetic on what was just written. -/
theorem Machine.combine_setGp {m : Machine} {op : Arith} {d : GpReg} {a b v : Word} {c : Bool}
    (h : op.apply m.carry a b = (some v, c)) :
    (m.setGp d a).combine op d b = { m with carry := c }.setGp d v := by
  have hwritten : (m.setGp d a).gp d = a := by simp
  have hresult : op.apply (m.setGp d a).carry ((m.setGp d a).gp d) b = (some v, c) := by
    rw [hwritten]
    exact h
  rw [combine_eq hresult]
  exact setGp_setGp { m with carry := c } d a v

/-- The machine after an operation on a register and a value, whose low byte can or
cannot be named. -/
def Machine.operate (m : Machine) (op : PairOperator) (named : Bool) (d : GpReg) (b : Word) :
    Machine :=
  { m with carry := op.carryAfter named m.carry (m.gp d) b }.setGp d
    (op.eval m.carry (m.gp d) b)

namespace Synthesis

variable {pool : ScratchPool} {m : Machine} {Q : RecordId → Machine → Prop}

/-- An operation on a copy in the same register. -/
theorem copyThenUnary_executing {op : Operation} {f : Word → Word} {c : Bool → Word → Bool}
    (dest src : GpReg)
    (hunary : ∀ m', (∀ id, Q id ({ m' with carry := c m'.carry (m'.gp dest) }.setGp dest
      (f (m'.gp dest)))) → (unary op (.gp dest)).Follows (executing pool) m' Q)
    (hQ : ∀ id, Q id ({ m with carry := c m.carry (m.gp src) }.setGp dest (f (m.gp src)))) :
    Follows (executing pool) (copy (.gp dest) (.gp src) >>= fun _ => unary op (.gp dest)) m Q := by
  refine Follows.seq (copy_executing dest src fun _ => hunary _ ?_)
  intro id
  have hcopied : (m.setGp dest (m.gp src)).gp dest = m.gp src := by simp
  rw [hcopied]
  exact Machine.setGp_setGp { m with carry := c m.carry (m.gp src) } dest _ _ ▸ hQ id

/-- **A byte is widened alike**, whether or not it can be named. -/
theorem widenByte_executing (dest src : GpReg)
    (hQ : ∀ id, Q id (m.operate .widenByte src.byteAddressable dest (m.gp src))) :
    (widenByte (.gp dest) (.gp src)).Follows (executing pool) m Q := by
  unfold widenByte
  split
  next hnamed =>
    replace hnamed : src.byteAddressable = true := hnamed
    rw [hnamed] at hQ
    exact emit_executing (Machine.step_extend m dest src rfl) hQ
  next hnamed =>
    replace hnamed : src.byteAddressable = false := Bool.eq_false_iff.mpr hnamed
    rw [hnamed] at hQ
    -- A copy, its low byte shifted to the top, and that shifted down with its sign.
    refine Follows.seq (emit_executing (Machine.step_register m dest src rfl) fun _ => ?_)
    refine Follows.seq (emit_executing (Machine.step_immediate _ dest rfl 24) fun _ => ?_)
    refine emit_executing (Machine.step_immediate _ dest rfl 24) fun id => ?_
    rw [Machine.combine_mov, Machine.combine_setGp rfl, Machine.combine_setGp rfl]
    have hspread := sshiftRight_shiftLeft_byte (m.gp src)
    show Q id ({ m with carry := false }.setGp dest ((m.gp src <<< 24).sshiftRight 24))
    rw [hspread]
    exact hQ id

/-- **Every operation on two registers**, if it is not refused. -/
theorem pair_leaves (op : PairOperator) (dest src : GpReg)
    (hQ : ∀ id, Q id (m.operate op src.byteAddressable dest (m.gp src))) :
    (binary op.operation (.gp dest) (.gp src)).Follows (executing pool) m Q := by
  cases op with
  | combine op =>
      refine binary_executing op.arith?_operation dest src fun id => ?_
      have hresult := op.apply_arith m.carry (m.gp dest) (m.gp src)
      rw [Machine.combine_eq (Prod.ext hresult rfl)]
      exact hQ id
  | move | compare =>
      refine binary_executing rfl dest src fun id => ?_
      rw [Machine.combine_eq rfl]
      exact hQ id
  | negate =>
      exact copyThenUnary_executing (f := fun b => -b) (c := fun _ b => b != 0) dest src
        (fun _ => negate_executing dest) hQ
  | complement =>
      exact copyThenUnary_executing (f := fun b => ~~~ b) (c := fun carry _ => carry) dest src
        (fun _ => complement_executing dest) hQ
  | widenByte => exact widenByte_executing dest src hQ
  | widenShort | widenChar => exact emit_executing (Machine.step_extend m dest src rfl) hQ

/-- The same, with the carry left open. -/
theorem pair_executing (op : PairOperator) (dest src : GpReg)
    (hQ : ∀ id c, Q id ({ m with carry := c }.setGp dest
      (op.eval m.carry (m.gp dest) (m.gp src)))) :
    (binary op.operation (.gp dest) (.gp src)).Follows (executing pool) m Q :=
  pair_leaves op dest src fun id => hQ id _

end Synthesis

/-! ## §3. All of them. -/

/-- **TWO REGISTERS ARE COMBINED AS ASKED.**  Every session meets `dest op= src`, for
every operation but a call and all registers, equal or not; the distance of a
shift has to be in the counter.  What it appends runs to its end from every
machine, and leaves in `dest` the value of the operation on what both registers
held and on the carry.  A comparison leaves it as it was.  All other registers
and memory stay as they were. -/
theorem two_registers_combined (s : Session) (op : PairOperator) (dest src : GpReg)
    (hcount : op.operation.isShift = true → src = .ecx) (m : Machine) :
    ∃ c, s.Executes [.binary op.operation (.gp dest) (.gp src)] m
      ({ m with carry := c }.setGp dest (op.eval m.carry (m.gp dest) (m.gp src))) := by
  have hgranted : (Request.binary op.operation (.gp dest) (.gp src)).synthesis.Follows granted ()
      fun _ _ => True :=
    .seq (Synthesis.binary_granted (op.takesRegister hcount) dest fun _ => trivial)
  have hfollows : (Request.binary op.operation (.gp dest) (.gp src)).synthesis.Follows
      (executing s.pool) m fun _ m' => ∃ c, m' = { m with carry := c }.setGp dest
        (op.eval m.carry (m.gp dest) (m.gp src)) :=
    .seq (Synthesis.pair_executing op dest src fun _ c => ⟨c, rfl⟩)
  obtain ⟨m', hexecutes, c, rfl⟩ :=
    Session.executes_single hfollows (s.returns_single_of_granted hgranted)
  exact ⟨c, hexecutes⟩

/-- The counter is turned round by itself, and a byte of `esi`, which cannot be
named, is widened into `edi`. -/
theorem two_registers_combined_counter :
    ((PairOperator.combine (.plain .ror)).operation.isShift = true → GpReg.ecx = .ecx) ∧
    (∃ c, (Session.new []).Executes [.binary .ror (.gp .ecx) (.gp .ecx)]
      { gp := fun _ => 0x21 }
      ({ gp := fun _ => 0x21, carry := c : Machine }.setGp .ecx 0x80000010)) ∧
    (PairOperator.widenByte.operation.isShift = true → GpReg.esi = .ecx) ∧
    ∃ c, (Session.new []).Executes [.binary .widenByte (.gp .edi) (.gp .esi)]
      { gp := fun _ => 0x12345680 }
      ({ gp := fun _ => 0x12345680, carry := c : Machine }.setGp .edi 0xFFFFFF80) := by
  refine ⟨fun _ => rfl, ?_, by decide, ?_⟩
  · exact two_registers_combined (Session.new []) (.combine (.plain .ror)) .ecx .ecx (fun _ => rfl)
      { gp := fun _ => 0x21 }
  · exact two_registers_combined (Session.new []) .widenByte .edi .esi (by decide)
      { gp := fun _ => 0x12345680 }

end TwoAddress
