/-
  TwoAddress.Proofs.InertRecords
  ──────────────────────────────
  **INERT RECORDS DO NOTHING.**

  A copy of a register to itself is appended and marked inert, and whoever
  runs or encodes the stream skips it.  That is right only if executing it
  would have changed nothing: no register, not the upper part of an xmm
  register, no flag.

    • §1 instructions that are idle, and lists of them: a run that skips the
      inert ones is a run that skips none;
    • §2 copies are idle, on registers that the machine has;
    • §3 no other instruction is inert, so the code of a run is idle
      (`inert_code_runs_alike`).
-/
import TwoAddress.Proofs.Aliasing
import TwoAddress.Proofs.Supply
import TwoAddress.Proofs.WideConstants

namespace TwoAddress

/-! ## §1. Idle instructions. -/

namespace Instruction

/-- The instruction without its inert mark. -/
def activated (i : Instruction) : Instruction := { i with inert := false }

/-- If the instruction is inert, executing it changes nothing. -/
def Idle (i : Instruction) : Prop :=
  i.inert = true → ∀ m, (Machine.step i).on m = (.ok (), m)

theorem retargetable_idle : Retargetable Idle := fun _ _ _ h => h

theorem idle_of_active {i : Instruction} (h : i.inert = false) : i.Idle := by
  intro hinert
  exact absurd hinert (by simp [h])

end Instruction

namespace Machine

/-- **Idle instructions** may be executed or skipped. -/
theorem run_activated {is : List Instruction} (his : ∀ i ∈ is, i.Idle) (m : Machine) :
    (run (is.map Instruction.activated)).on m = (run is).on m := by
  induction is generalizing m with
  | nil => rfl
  | cons i is ih =>
      obtain ⟨hidle, hrest⟩ := List.forall_mem_cons.mp his
      have hstep : step i.activated = step i := rfl
      rw [List.map_cons, run_cons rfl, Effect.on_bind, hstep]
      cases hinert : i.inert with
      | true =>
          rw [run_cons_inert hinert, hidle hinert m]
          exact ih hrest m
      | false =>
          rw [run_cons hinert, Effect.on_bind]
          rcases (step i).on m with ⟨_ | _, m'⟩
          · rfl
          · exact ih hrest m'

/-! ## §2. Copies. -/

/-- A lane that is moved to its own place stays as it is. -/
theorem merge_self (l : Lane) (v : BitVec 128) : l.merge v v = v := by
  rw [Lane.merge, ← BitVec.and_or_distrib_left, BitVec.or_comm, BitVec.or_not_self,
    BitVec.and_allOnes]

theorem step_moveLane {l : Lane} {opcode : Opcode} (h : opcode.action = .moveLane l)
    (m : Machine) {x y : Fin 8} {dst src : Reg} (hx : xmmIndex dst = .ok x)
    (hy : xmmIndex src = .ok y) :
    (step { opcode, operands := [.reg dst, .reg src] }).on m =
      (.ok (), m.setXmm x (l.merge (m.xmm x) (m.xmm y))) := by
  simp only [step, h]
  show (readXmm dst >>= fun d => readXmm src >>= fun s => writeXmm dst (l.merge d s)).on m = _
  rw [Effect.on_bind, on_readXmm m hx]
  show (readXmm src >>= fun s => writeXmm dst (l.merge (m.xmm x) s)).on m = _
  rw [Effect.on_bind, on_readXmm m hy]
  exact on_writeXmm m hx _

/-- A move of a register to itself, whatever its class. -/
theorem step_move_self {r : Reg} {opcode : Opcode} (h : Synthesis.moveOpcode? r r = some opcode)
    (hr : r.isXmm = true → r.inFile = true) (m : Machine) :
    (step { opcode, operands := [.reg r, .reg r] }).on m = (.ok (), m) := by
  cases r with
  | absent => exact absurd h (by simp [Synthesis.moveOpcode?])
  | gp g =>
      cases h
      have hmov : Opcode.mov32RR.action = .arith .mov .register := rfl
      rw [step_register m g g hmov, combine_mov, setGp_self]
  | xmm r =>
      obtain ⟨x, hx⟩ := exists_xmmIndex rfl (hr rfl)
      -- Either precision moves one lane only, so the upper part never changes.
      obtain ⟨l, hl⟩ : ∃ l, opcode.action = .moveLane l := by
        rcases r with ⟨_, _ | _⟩ <;> cases h <;> exact ⟨_, rfl⟩
      rw [step_moveLane hl m hx hx, merge_self, setXmm_self]

end Machine

/-- A copy that can be made is a move, marked if it is one to itself. -/
theorem Synthesis.move_of_copyInstruction {dest src : Reg} {i : Instruction}
    (h : copyInstruction dest src = .ok i) :
    ∃ opcode, moveOpcode? dest src = some opcode ∧ dest.isDouble = src.isDouble ∧
      i = { opcode, operands := [.reg dest, .reg src], inert := dest == src } := by
  unfold copyInstruction at h
  split at h
  · exact absurd h (by simp)
  next hdouble =>
    split at h
    next opcode hop => exact ⟨opcode, hop, by simpa using hdouble, (Except.ok.inj h).symm⟩
    next => exact absurd h (by simp)

theorem idle_copy {dest src : Reg} {i : Instruction}
    (hdest : dest.isXmm = true → dest.inFile = true)
    (h : Synthesis.copyInstruction dest src = .ok i) : i.Idle := by
  obtain ⟨opcode, hop, -, rfl⟩ := Synthesis.move_of_copyInstruction h
  intro hinert m
  obtain rfl : dest = src := by simpa using hinert
  exact Machine.step_move_self hop hdest m

/-! ## §3. Requests and runs. -/

/-- Registers that are no xmm registers, or that the machine has. -/
def Supply.present : Supply where
  held r := r.isXmm = true → r.inFile = true
  worked r := r.isXmm = true → r.inFile = true
  held_of_worked h := h

theorem Supply.idle_of_covers {i : Instruction} (h : Supply.present.Covers i) : i.Idle := by
  cases h with
  | copy hdest hsrc h => exact idle_copy hdest h
  | _ => exact Instruction.idle_of_active rfl

theorem Request.drawsOn_present {q : Request}
    (h : ∀ r ∈ q.operands, r.isXmm = true → r.inFile = true) : q.DrawsOn Supply.present := by
  cases q <;> simp_all [operands, DrawsOn, Supply.present, Supply.Takes]

/-- **INERT RECORDS DO NOTHING.**  The code that a run of requests adds to a
session, met or not, runs as it would without the marks: from every machine it
comes to the same result and the same machine.  Xmm operands of the requests
are registers that the machine has. -/
theorem inert_code_runs_alike (s : Session) (qs : List Request)
    (hqs : ∀ q ∈ qs, ∀ r ∈ q.operands, r.isXmm = true → r.inFile = true) (m : Machine) :
    let code := (s.afterRequests qs).codeFrom s.records.length
    (Machine.run code).on m = (Machine.run (code.map Instruction.activated)).on m := by
  intro code
  have hidle : ∀ i ∈ code, i.Idle := by
    refine Session.forall_added_code Instruction.retargetable_idle (fun q hq => ?_) s
    refine Request.follows_appends (fun g hxmm => absurd hxmm (by simp [Reg.isXmm]))
      (Request.drawsOn_present (hqs q hq)) (fun i hi => Supply.idle_of_covers hi) ?_ ?_
    · exact fun op opcode dest base disp _ _ => Instruction.idle_of_active rfl
    · exact fun t _ _ part _ => Instruction.idle_of_active rfl
  exact (Machine.run_activated hidle m).symm

/-- Copies of all three classes, one of them made on the way to a negation. -/
def Request.sampleCopies : List Request :=
  [.copy (.single 7) (.single 7), .binary .neg (.gp .eax) (.gp .eax),
    .copy (.double 2) (.double 2), .copy (.single 3) (.gp .eax)]

theorem inert_code_runs_alike_sample :
    let code := ((Session.new []).afterRequests Request.sampleCopies).codeFrom 0
    let m : Machine := { gp := fun _ => 5, xmm := fun _ => 9, carry := true }
    code.map (·.inert) = [true, true, false, true, false] ∧
      (Machine.run code).on m = (Machine.run (code.map Instruction.activated)).on m := by
  intro code m
  refine ⟨by decide +kernel, ?_⟩
  exact inert_code_runs_alike (Session.new []) Request.sampleCopies (by decide) m

/-- The machine cannot execute a copy of a register that it does not have, and
skips it if it is inert. -/
example :
    let code := ((Session.new []).afterRequests [.copy (.single 8) (.single 8)]).codeFrom 0
    ((Machine.run code).on {}).1 = .ok () ∧
      ((Machine.run (code.map Instruction.activated)).on {}).1 = .error (.outOfBounds 8 8) :=
  ⟨rfl, rfl⟩

end TwoAddress
