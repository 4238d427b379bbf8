/-
  TwoAddress.Proofs.Execution
  ───────────────────────────
  **WHAT THE MACHINE DOES.**

  The machine is a computation that may stop.  On the operands that the
  synthesizers give it it does not, and this file says what it does instead,
  as equations on states:

    • §1 registers, and the value of an operand register;
    • §2 one step, by the action of its opcode;
    • §3 whole lists of instructions.  Targets do not matter to a run.
-/
import TwoAddress.Machine

namespace TwoAddress

/-- The instruction without its target. -/
def Instruction.untargeted (i : Instruction) : Instruction := { i with target := none }

/-- The machine has the register. -/
def Reg.inFile : Reg → Bool
  | absent => false
  | gp _ => true
  | xmm r => decide (r.index.toNat < 8)

namespace Machine

/-! ## §1. Registers. -/

@[simp] theorem gp_setGp (m : Machine) (r q : GpReg) (v : Word) :
    (m.setGp r v).gp q = if q = r then v else m.gp q := rfl

@[simp] theorem xmm_setGp (m : Machine) (r : GpReg) (v : Word) : (m.setGp r v).xmm = m.xmm := rfl

@[simp] theorem carry_setGp (m : Machine) (r : GpReg) (v : Word) :
    (m.setGp r v).carry = m.carry := rfl

@[simp] theorem memory_setGp (m : Machine) (r : GpReg) (v : Word) :
    (m.setGp r v).memory = m.memory := rfl

/-- Writing back what is there changes nothing. -/
theorem setGp_self (m : Machine) (r : GpReg) : m.setGp r (m.gp r) = m := by
  have hgp : (fun q => if q = r then m.gp r else m.gp q) = m.gp := by
    funext q
    split
    next h => rw [h]
    next => rfl
  unfold setGp
  rw [hgp]

theorem setGp_setGp (m : Machine) (r : GpReg) (v w : Word) :
    (m.setGp r v).setGp r w = m.setGp r w := by
  have hgp : (fun q => if q = r then w else (m.setGp r v).gp q) =
      fun q => if q = r then w else m.gp q := by
    funext q
    split
    · rfl
    next h => simp [h]
  show { m with gp := _ } = _
  rw [hgp]
  rfl

/-- The same of xmm registers. -/
theorem setXmm_self (m : Machine) (x : Fin 8) : m.setXmm x (m.xmm x) = m := by
  have hxmm : (fun y => if y = x then m.xmm x else m.xmm y) = m.xmm := by
    funext y
    split
    next h => rw [h]
    next => rfl
  unfold setXmm
  rw [hxmm]

/-- An xmm operand that the machine has is one of its registers. -/
theorem exists_xmmIndex {reg : Reg} (hxmm : reg.isXmm = true) (h : reg.inFile = true) :
    ∃ x, xmmIndex reg = .ok x := by
  cases reg with
  | xmm r => exact ⟨_, dif_pos (of_decide_eq_true h)⟩
  | _ => exact absurd hxmm (by simp [Reg.isXmm])

/-- The value of an operand register; only general-purpose ones have one. -/
def valueOf (m : Machine) : Reg → Word
  | .gp r => m.gp r
  | _ => 0

@[simp] theorem on_readGp_gp (m : Machine) (r : GpReg) :
    (readGp (.gp r)).on m = (.ok (m.gp r), m) := rfl

theorem on_readGp (m : Machine) {r : Reg} (hr : r.isXmm = false) :
    (readGp r).on m = (.ok (m.valueOf r), m) := by
  cases r with
  | absent => rfl
  | gp r => rfl
  | xmm r => exact absurd hr (by simp [Reg.isXmm])

@[simp] theorem on_writeGp_gp (m : Machine) (r : GpReg) (v : Word) :
    (writeGp (.gp r) v).on m = (.ok (), m.setGp r v) := rfl

/-! ## §2. Steps. -/

/-- The machine after an arithmetic instruction on a register and a value. -/
def combine (m : Machine) (op : Arith) (d : GpReg) (b : Word) : Machine :=
  match op.apply m.carry (m.gp d) b with
  | (some v, c) => { m with carry := c }.setGp d v
  | (none, c) => { m with carry := c }

/-- Its result, if it has one. -/
theorem gp_combine_self {m : Machine} {op : Arith} {d : GpReg} {b v : Word}
    (h : (op.apply m.carry (m.gp d) b).1 = some v) : (m.combine op d b).gp d = v := by
  unfold combine
  rcases happly : op.apply m.carry (m.gp d) b with ⟨_ | w, c⟩ <;> rw [happly] at h
  · exact nomatch h
  · simpa using h

theorem gp_combine_of_ne (m : Machine) (op : Arith) {d q : GpReg} (hq : q ≠ d) (b : Word) :
    (m.combine op d b).gp q = m.gp q := by
  unfold combine
  split
  · simp [hq]
  · rfl

@[simp] theorem xmm_combine (m : Machine) (op : Arith) (d : GpReg) (b : Word) :
    (m.combine op d b).xmm = m.xmm := by
  unfold combine
  split <;> rfl

@[simp] theorem memory_combine (m : Machine) (op : Arith) (d : GpReg) (b : Word) :
    (m.combine op d b).memory = m.memory := by
  unfold combine
  split <;> rfl

@[simp] theorem carry_combine (m : Machine) (op : Arith) (d : GpReg) (b : Word) :
    (m.combine op d b).carry = (op.apply m.carry (m.gp d) b).2 := by
  unfold combine
  rcases op.apply m.carry (m.gp d) b with ⟨_ | v, c⟩ <;> rfl

theorem combine_mov (m : Machine) (d : GpReg) (b : Word) : m.combine .mov d b = m.setGp d b := rfl

/-- An instruction without a result leaves its operand as it was. -/
theorem combine_eq {m : Machine} {op : Arith} {d : GpReg} {b : Word} {v? : Option Word} {c : Bool}
    (h : op.apply m.carry (m.gp d) b = (v?, c)) :
    m.combine op d b = { m with carry := c }.setGp d (v?.getD (m.gp d)) := by
  rw [combine, h]
  cases v? with
  | some v => rfl
  | none => exact (setGp_self { m with carry := c } d).symm

theorem on_stepArith {op : Arith} {source : Source} {i : Instruction} {m : Machine} {d : GpReg}
    {b : Word} (hd : i.regAt 0 = .gp d) (hb : (readSource i source).on m = (.ok b, m)) :
    (stepArith op source i).on m = (.ok (), m.combine op d b) := by
  unfold stepArith combine
  simp only [hd, Effect.on_bind, on_readGp_gp, hb, Effect.on_get, setCarry, Effect.on_modify]
  rcases op.apply m.carry (m.gp d) b with ⟨_ | v, c⟩ <;> rfl

section Steps

variable {opcode : Opcode} (m : Machine) (d s : GpReg)

theorem step_immediate {op : Arith} (h : opcode.action = .arith op .immediate) (v : Word) :
    (step { opcode, operands := [.reg (.gp d), .imm v] }).on m = (.ok (), m.combine op d v) := by
  simp only [step, h]
  exact on_stepArith rfl rfl

theorem step_register {op : Arith} (h : opcode.action = .arith op .register) :
    (step { opcode, operands := [.reg (.gp d), .reg (.gp s)] }).on m =
      (.ok (), m.combine op d (m.gp s)) := by
  simp only [step, h]
  exact on_stepArith rfl rfl

theorem step_counter {op : Arith} (h : opcode.action = .arith op .counter) :
    (step { opcode, operands := [.reg (.gp d), .reg .counter] }).on m =
      (.ok (), m.combine op d (m.gp .ecx)) := by
  simp only [step, h]
  exact on_stepArith rfl rfl

theorem step_negate :
    (step { opcode := .neg32R, operands := [.reg (.gp d)] }).on m =
      (.ok (), { m with carry := m.gp d != 0 }.setGp d (-m.gp d)) := rfl

theorem step_complement :
    (step { opcode := .not32R, operands := [.reg (.gp d)] }).on m =
      (.ok (), m.setGp d (~~~ m.gp d)) := rfl

theorem step_multiply (h : opcode.action = .multiplyImmediate) (v : Word) :
    (step { opcode, operands := [.reg (.gp d), .reg (.gp s), .imm v] }).on m =
      (.ok (), m.setGp d (m.gp s * v)) := by
  simp only [step, h]
  rfl

theorem step_extend {e : Extension} (h : opcode.action = .extend e) :
    (step { opcode, operands := [.reg (.gp d), .reg (.gp s)] }).on m =
      (.ok (), m.setGp d (e.apply (m.gp s))) := by
  simp only [step, h]
  rfl

/-- The address of an operand, from the values of its registers. -/
theorem on_addressOf {base index : Reg} (hbase : base.isXmm = false)
    (hindex : index.isXmm = false) {scale : Word} (hscale : scale.toNat < 32) (disp : Word) :
    (addressOf base index scale disp).on m =
      (.ok (m.valueOf base + (m.valueOf index <<< scale.toNat) + disp), m) := by
  unfold addressOf
  simp only [Effect.on_bind, on_readGp m hbase, on_readGp m hindex, if_pos hscale,
    Effect.on_pure]

/-- A base and a displacement, behind a register. -/
theorem on_effectiveAddress_plain (hform : opcode.form = .rm) (reg : Reg) {base : Reg}
    (hbase : base.isXmm = false) (disp : Word) :
    (effectiveAddress { opcode, operands := [.reg reg, .reg base, .imm disp] }).on m =
      (.ok (m.valueOf base + disp), m) := by
  have haddress := on_addressOf m hbase (show Reg.absent.isXmm = false from rfl)
    (show (0 : Word).toNat < 32 by decide) disp
  have hplace : m.valueOf base + (m.valueOf .absent <<< (0 : Word).toNat) + disp =
      m.valueOf base + disp := by
    simp [valueOf]
  rw [hplace] at haddress
  rw [effectiveAddress, hform]
  exact haddress

theorem step_lea {base index : Reg} (hbase : base.isXmm = false) (hindex : index.isXmm = false)
    (disp : Word) :
    (step { opcode := .lea32RA
            operands := [.reg (.gp d), .reg base, .reg index, .imm 0, .imm disp] }).on m =
      (.ok (), m.setGp d (m.valueOf base + m.valueOf index + disp)) := by
  show (addressOf base index 0 disp >>= fun a => writeGp (.gp d) a).on m = _
  rw [Effect.on_bind, on_addressOf m hbase hindex (by decide)]
  simp

/-- Arithmetic with a word in memory. -/
theorem step_memory {op : Arith} (h : opcode.action = .arith op .memory) {operands : List Operand}
    {a : Word} (haddress : (effectiveAddress { opcode, operands }).on m = (.ok a, m))
    (hd : Instruction.regAt { opcode, operands } 0 = .gp d) :
    (step { opcode, operands }).on m = (.ok (), m.combine op d (m.memory.word a)) := by
  simp only [step, h]
  refine on_stepArith hd ?_
  simp only [readSource, readMemory, Effect.on_bind, haddress, Effect.on_get, Effect.on_pure]
  rfl

/-- A load into a general-purpose register. -/
theorem step_load {e : Extension} (h : opcode.action = .load e) {operands : List Operand}
    {a : Word} (haddress : (effectiveAddress { opcode, operands }).on m = (.ok a, m))
    (hd : Instruction.regAt { opcode, operands } 0 = .gp d) :
    (step { opcode, operands }).on m =
      (.ok (), m.setGp d (e.apply ((m.memory.read a e.bytes).setWidth 32))) := by
  simp only [step, h, readMemory, Effect.on_bind, haddress, hd, Effect.on_get, Effect.on_pure,
    on_writeGp_gp]

/-- A store from a general-purpose register. -/
theorem step_store {bytes : Nat} (h : opcode.action = .store bytes) {operands : List Operand}
    {a : Word} (haddress : (effectiveAddress { opcode, operands }).on m = (.ok a, m))
    (hs : storedReg { opcode, operands } = .gp s) :
    (step { opcode, operands }).on m =
      (.ok (), { m with memory := m.memory.write a bytes ((m.gp s).setWidth 64) }) := by
  simp only [step, h, Effect.on_bind, haddress, hs, on_readGp_gp, Effect.on_modify]

/-- A load into an xmm register clears what it does not fill. -/
theorem step_loadXmm {l : Lane} (h : opcode.action = .loadXmm l) {operands : List Operand}
    {a : Word} (haddress : (effectiveAddress { opcode, operands }).on m = (.ok a, m)) {x : Fin 8}
    (hx : xmmIndex (Instruction.regAt { opcode, operands } 0) = .ok x) :
    (step { opcode, operands }).on m =
      (.ok (), m.setXmm x ((m.memory.read a l.bytes).setWidth 128)) := by
  simp only [step, h, readMemory, writeXmm, Effect.on_bind, haddress, hx, Effect.on_get,
    Effect.on_pure, Effect.on_ofExcept, Effect.on_modify]

/-- A store from an xmm register. -/
theorem step_storeXmm {l : Lane} (h : opcode.action = .storeXmm l) {operands : List Operand}
    {a : Word} (haddress : (effectiveAddress { opcode, operands }).on m = (.ok a, m)) {x : Fin 8}
    (hx : xmmIndex (storedReg { opcode, operands }) = .ok x) :
    (step { opcode, operands }).on m =
      (.ok (), { m with memory := m.memory.write a l.bytes ((m.xmm x).setWidth 64) }) := by
  simp only [step, h, readXmm, Effect.on_bind, haddress, hx, Effect.on_get, Effect.on_pure,
    Effect.on_ofExcept, Effect.on_modify]

end Steps

/-! ## §3. Runs. -/

theorem run_cons_inert {i : Instruction} (hi : i.inert = true) (rest : List Instruction) :
    run (i :: rest) = run rest := by
  rw [run, if_pos hi]

theorem run_cons {i : Instruction} (hi : i.inert = false) (rest : List Instruction) :
    run (i :: rest) = (do step i; run rest) := by
  rw [run, if_neg (by simp [hi])]

theorem run_append (xs ys : List Instruction) (m : Machine) :
    (run (xs ++ ys)).on m =
      match (run xs).on m with
      | (.ok _, m') => (run ys).on m'
      | (.error f, m') => (.error f, m') := by
  induction xs generalizing m with
  | nil => rfl
  | cons i xs ih =>
      rw [List.cons_append]
      -- An inert instruction is skipped on both sides.
      cases hi : i.inert with
      | true =>
          rw [run_cons_inert hi, run_cons_inert hi]
          exact ih m
      | false =>
          rw [run_cons hi, run_cons hi, Effect.on_bind, Effect.on_bind]
          rcases (step i).on m with ⟨_ | _, m'⟩
          · rfl
          · exact ih m'

/-- A single instruction that runs. -/
theorem run_single {i : Instruction} (hi : i.inert = false) {m m' : Machine}
    (hstep : (step i).on m = (.ok (), m')) : (run [i]).on m = (.ok (), m') := by
  rw [run_cons hi, Effect.on_bind, hstep]
  rfl

/-- A run does not look at targets. -/
theorem run_untargeted (is : List Instruction) : run (is.map Instruction.untargeted) = run is := by
  induction is with
  | nil => rfl
  | cons i is ih =>
      rw [List.map_cons, run, run, ih]
      rfl

end Machine

end TwoAddress
