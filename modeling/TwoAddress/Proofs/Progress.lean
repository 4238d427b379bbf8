/-
  TwoAddress.Proofs.Progress
  ──────────────────────────
  **EMITTED CODE NEVER GETS STUCK.**

  The machine stops where an operand is a register of the wrong class, one
  that it does not have, or an address whose scale is out of range.  Requests
  whose operands are of the right classes never give it such an instruction:

    • §1 operands of the right classes, request by request (`wellClassed`);
    • §2 instructions that proceed, by what they name;
    • §3 instructions that work in registers, one case each;
    • §4 arithmetic on memory, and the moves of transfers;
    • §5 hence the code of a whole run, requests that stop half way included
      (`emitted_code_completes`).
-/
import TwoAddress.Proofs.InertRecords

namespace TwoAddress

/-! ## §1. Classes of operands. -/

/-- The address is in general-purpose registers, as far as it is in registers at
all, and the value in a register that the machine has; less than a word is in a
general-purpose one.  What the second register has to be is for the transfer
to check. -/
def Transfer.wellClassed (t : Transfer) : Bool :=
  !t.base.isXmm && !t.index.isXmm && t.lo.inFile && (t.lo.isGp || decide (4 ≤ t.size.bytes))

theorem Transfer.wellClassed_iff {t : Transfer} :
    t.wellClassed = true ↔ t.base.isXmm = false ∧ t.index.isXmm = false ∧ t.lo.inFile = true ∧
      (t.lo.isGp = true ∨ 4 ≤ t.size.bytes) := by
  simp only [wellClassed, Bool.and_eq_true, Bool.or_eq_true, Bool.not_eq_true',
    decide_eq_true_eq, and_assoc]

/-- Copies and constants are for all registers that the machine has, arithmetic
for general-purpose ones. -/
def Request.wellClassed : Request → Bool
  | copy dest src => dest.inFile && src.inFile
  | constant dest _ => dest.inFile
  | constantPair lo hi _ _ => lo.inFile && hi.inFile
  | unary _ dest | binaryImm _ dest _ => dest.isGp
  | binary _ dest src | ternaryImm _ dest src _ => dest.isGp && src.isGp
  | ternary _ dest src1 src2 => dest.isGp && src1.isGp && src2.isGp
  | binaryMem _ dest base _ => dest.isGp && !base.isXmm
  | transfer t => t.wellClassed
  | _ => true

theorem Reg.eq_gp_of_isGp {r : Reg} (h : r.isGp = true) : ∃ g, r = .gp g := by
  cases r with
  | gp g => exact ⟨g, rfl⟩
  | _ => exact absurd h (by simp [isGp])

theorem Reg.isGp_of_inFile {r : Reg} (h : r.inFile = true) (hxmm : r.isXmm = false) :
    r.isGp = true := by
  cases r with
  | absent => exact absurd h (by simp [inFile])
  | gp g => rfl
  | xmm r => exact absurd hxmm (by simp [isXmm])

/-- The registers of the machine: all for copies, the general-purpose ones for
arithmetic. -/
def Supply.machine : Supply where
  held r := r.inFile = true
  worked r := r.isGp = true
  held_of_worked h := by
    obtain ⟨g, rfl⟩ := Reg.eq_gp_of_isGp h
    rfl

theorem Supply.takes_machine {r : Reg} (h : r.inFile = true) : Supply.machine.Takes r :=
  ⟨h, Reg.isGp_of_inFile h⟩

theorem Request.drawsOn_machine {q : Request} (h : q.wellClassed = true) :
    q.DrawsOn Supply.machine := by
  cases q with
  | constant dest value => exact Supply.takes_machine h
  | constantPair lo hi valueLo valueHi =>
      obtain ⟨hlo, hhi⟩ := Bool.and_eq_true_iff.mp h
      exact ⟨Supply.takes_machine hlo, Supply.takes_machine hhi⟩
  | ternary op dest src1 src2 =>
      obtain ⟨hleft, hsrc2⟩ := Bool.and_eq_true_iff.mp h
      obtain ⟨hdest, hsrc1⟩ := Bool.and_eq_true_iff.mp hleft
      exact ⟨hdest, hsrc1, hsrc2⟩
  | unary | binaryImm => exact h
  | copy | binary | ternaryImm => exact Bool.and_eq_true_iff.mp h
  | _ => trivial

/-! ## §2. Instructions that proceed. -/

/-- Executing the instruction never stops the machine. -/
def Instruction.Proceeds (i : Instruction) : Prop :=
  ∀ m, ∃ m', (Machine.step i).on m = (.ok (), m')

theorem Instruction.retargetable_proceeds : Retargetable Proceeds := fun _ _ _ h => h

/-- **Instructions that proceed** run to the end, by induction on the list. -/
theorem Machine.run_completes {is : List Instruction} (his : ∀ i ∈ is, i.Proceeds) (m : Machine) :
    ∃ m', (run is).on m = (.ok (), m') := by
  induction is generalizing m with
  | nil => exact ⟨m, rfl⟩
  | cons i is ih =>
      obtain ⟨hi, hrest⟩ := List.forall_mem_cons.mp his
      cases hinert : i.inert with
      | true =>
          rw [run_cons_inert hinert]
          exact ih hrest m
      | false =>
          obtain ⟨m₁, hstep⟩ := hi m
          rw [run_cons hinert, Effect.on_bind, hstep]
          exact ih hrest m₁

/-! ## §3. In registers. -/

namespace Machine

theorem step_xmmToGp (m : Machine) (g : GpReg) {src : Reg} {x : Fin 8}
    (hx : xmmIndex src = .ok x) :
    (step { opcode := .movdrxRR, operands := [.reg (.gp g), .reg src] }).on m =
      (.ok (), m.setGp g ((m.xmm x).setWidth 32)) := by
  show (readXmm src >>= fun v => writeGp (.gp g) (v.setWidth 32)).on m = _
  rw [Effect.on_bind, on_readXmm m hx]
  rfl

/-- Calls and jumps are not followed. -/
theorem step_control {opcode : Opcode} (h : opcode.action = .transferControl)
    (operands : List Operand) (m : Machine) : (step { opcode, operands }).on m = (.ok (), m) := by
  simp only [step, h]
  rfl

end Machine

namespace Supply

open Machine

/-- A move between registers that the machine has, of whatever classes. -/
theorem proceeds_move {dest src : Reg} {opcode : Opcode} (hdest : dest.inFile = true)
    (hsrc : src.inFile = true) (h : Synthesis.moveOpcode? dest src = some opcode)
    (hdouble : dest.isDouble = src.isDouble) :
    Instruction.Proceeds { opcode, operands := [.reg dest, .reg src] } := by
  intro m
  cases hd : dest.isXmm with
  | false =>
      obtain ⟨d, rfl⟩ := Reg.eq_gp_of_isGp (Reg.isGp_of_inFile hdest hd)
      cases hs : src.isXmm with
      | false =>
          obtain ⟨g, rfl⟩ := Reg.eq_gp_of_isGp (Reg.isGp_of_inFile hsrc hs)
          cases h
          exact ⟨_, step_register m d g rfl⟩
      | true =>
          obtain ⟨y, hy⟩ := exists_xmmIndex hs hsrc
          obtain rfl : .movdrxRR = opcode := by
            cases src <;> simp_all [Reg.isXmm, Synthesis.moveOpcode?]
          exact ⟨_, step_xmmToGp m d hy⟩
  | true =>
      obtain ⟨x, hx⟩ := exists_xmmIndex hd hdest
      cases hs : src.isXmm with
      | false =>
          obtain ⟨g, rfl⟩ := Reg.eq_gp_of_isGp (Reg.isGp_of_inFile hsrc hs)
          -- No double is filled from a general-purpose register.
          obtain rfl : .movdxrRR = opcode := by
            rcases dest with _ | _ | ⟨_, _ | _⟩ <;>
              simp_all [Reg.isXmm, Reg.isDouble, Synthesis.moveOpcode?]
          exact ⟨_, step_gpToXmm m hx g⟩
      | true =>
          obtain ⟨y, hy⟩ := exists_xmmIndex hs hsrc
          obtain ⟨l, hl⟩ : ∃ l, opcode.action = .moveLane l := by
            rcases dest with _ | _ | ⟨_, _ | _⟩ <;> rcases src with _ | _ | _ <;>
              cases hd <;> cases hs <;> cases h <;> exact ⟨_, rfl⟩
          exact ⟨_, step_moveLane hl m hx hy⟩

theorem proceeds_copy {dest src : Reg} {i : Instruction} (hdest : dest.inFile = true)
    (hsrc : src.inFile = true) (h : Synthesis.copyInstruction dest src = .ok i) : i.Proceeds := by
  obtain ⟨opcode, hop, hdouble, rfl⟩ := Synthesis.move_of_copyInstruction h
  exact proceeds_move hdest hsrc hop hdouble

/-- Two registers are combined, or one is extended into the other. -/
theorem proceeds_register {op : Operation} {opcode : Opcode}
    (h : Synthesis.registerOpcode? op = some opcode) (d g : GpReg) :
    Instruction.Proceeds { opcode, operands := [.reg (.gp d), .reg (.gp g)] } := by
  intro m
  cases op with
  | widenShort | widenChar =>
      cases h
      exact ⟨_, step_extend m d g rfl⟩
  | _ => cases h <;> exact ⟨_, step_register m d g rfl⟩

theorem proceeds_shift {op : Operation} {opcode : Opcode}
    (h : Synthesis.shiftOpcode? op = some opcode) (d : GpReg) :
    Instruction.Proceeds { opcode, operands := [.reg (.gp d), .reg .counter] } := by
  intro m
  cases op <;> cases h <;> exact ⟨_, step_counter m d rfl⟩

theorem proceeds_immediate {op : Operation} {short : Bool} {opcode : Opcode}
    (h : Synthesis.immediateOpcode? op short = some opcode) (d : GpReg) (value : Word) :
    Instruction.Proceeds { opcode, operands := [.reg (.gp d), .imm value] } := by
  intro m
  cases op <;> cases short <;> cases h <;> exact ⟨_, step_immediate m d rfl value⟩

theorem proceeds_unary {opcode : Opcode} (h : opcode ∈ [.neg32R, .not32R, .callR]) (d : GpReg) :
    Instruction.Proceeds { opcode, operands := [.reg (.gp d)] } := by
  intro m
  simp only [List.mem_cons, List.not_mem_nil, or_false] at h
  rcases h with rfl | rfl | rfl
  · exact ⟨_, step_negate m d⟩
  · exact ⟨_, step_complement m d⟩
  · exact ⟨_, step_control rfl _ m⟩

/-- **Work in registers of the machine proceeds.** -/
theorem proceeds_of_covers {i : Instruction} (h : Supply.machine.Covers i) : i.Proceeds := by
  cases h with
  | copy hdest hsrc h => exact proceeds_copy hdest hsrc h
  | constant hdest value =>
      obtain ⟨d, rfl⟩ := Reg.eq_gp_of_isGp hdest
      exact fun m => ⟨_, step_immediate m d rfl value⟩
  | unary h hdest =>
      obtain ⟨d, rfl⟩ := Reg.eq_gp_of_isGp hdest
      exact proceeds_unary h d
  | immediate op h hdest =>
      obtain ⟨d, rfl⟩ := Reg.eq_gp_of_isGp hdest
      exact proceeds_immediate h d _
  | multiply h hdest hsrc value =>
      obtain ⟨d, rfl⟩ := Reg.eq_gp_of_isGp hdest
      obtain ⟨g, rfl⟩ := Reg.eq_gp_of_isGp hsrc
      simp only [List.mem_cons, List.not_mem_nil, or_false] at h
      rcases h with rfl | rfl <;> exact fun m => ⟨_, step_multiply m d g rfl value⟩
  | register op h hdest hsrc =>
      obtain ⟨d, rfl⟩ := Reg.eq_gp_of_isGp hdest
      obtain ⟨g, rfl⟩ := Reg.eq_gp_of_isGp hsrc
      exact proceeds_register h d g
  | shift op h hdest =>
      obtain ⟨d, rfl⟩ := Reg.eq_gp_of_isGp hdest
      exact proceeds_shift h d
  | extendByte h hdest hsrc =>
      obtain ⟨d, rfl⟩ := Reg.eq_gp_of_isGp hdest
      obtain ⟨g, rfl⟩ := Reg.eq_gp_of_isGp hsrc
      simp only [List.mem_cons, List.not_mem_nil, or_false] at h
      rcases h with rfl | rfl <;> exact fun m => ⟨_, step_extend m d g rfl⟩
  | lea hdest hbase hindex disp =>
      obtain ⟨d, rfl⟩ := Reg.eq_gp_of_isGp hdest
      obtain ⟨b, rfl⟩ := Reg.eq_gp_of_isGp hbase
      rcases hindex with hindex | rfl
      · obtain ⟨x, rfl⟩ := Reg.eq_gp_of_isGp hindex
        exact fun m => ⟨_, step_lea m d rfl rfl disp⟩
      · exact fun m => ⟨_, step_lea m d rfl rfl disp⟩
  | clear hdest hxmm =>
      obtain ⟨x, hx⟩ := exists_xmmIndex hxmm hdest
      exact fun m => ⟨_, step_clearXmm m hx⟩
  | fill hdest hxmm hsrc =>
      obtain ⟨x, hx⟩ := exists_xmmIndex hxmm hdest
      obtain ⟨g, rfl⟩ := Reg.eq_gp_of_isGp hsrc
      exact fun m => ⟨_, step_gpToXmm m hx g⟩
  | raise hdest hxmm =>
      obtain ⟨x, hx⟩ := exists_xmmIndex hxmm hdest
      exact fun m => ⟨_, step_shiftXmm m hx 32⟩
  | join hdest hxmm hsrc hxmm' =>
      obtain ⟨x, hx⟩ := exists_xmmIndex hxmm hdest
      obtain ⟨y, hy⟩ := exists_xmmIndex hxmm' hsrc
      exact fun m => ⟨_, step_orXmm m hx hy⟩
  | control h operands => exact fun m => ⟨m, step_control h operands m⟩

end Supply

/-! ## §4. On memory. -/

/-- Arithmetic with a word in memory, or a load that extends. -/
theorem proceeds_memory {op : Operation} {opcode : Opcode}
    (h : Synthesis.memoryOpcode? op = some opcode) (d : GpReg) {base : Reg}
    (hbase : base.isXmm = false) (disp : Word) :
    Instruction.Proceeds { opcode, operands := [.reg (.gp d), .reg base, .imm disp] } := by
  intro m
  have haddress := fun hform : opcode.form = .rm =>
    Machine.on_effectiveAddress_plain m hform (.gp d) hbase disp
  cases op with
  | mov | widenByte | widenShort | widenChar =>
      cases h
      exact ⟨_, Machine.step_load m d rfl (haddress rfl) rfl⟩
  | _ => cases h <;> exact ⟨_, Machine.step_memory m d rfl (haddress rfl) rfl⟩

section Moves

variable {direction : Direction} {size : AccessSize} {a : Address} {reg : Reg}

theorem proceeds_transferMove_xmm (hbase : a.base.isXmm = false) (hindex : a.index.isXmm = false)
    (hscale : a.scale ≤ 3) (hsize : 4 ≤ size.bytes) (hxmm : reg.isXmm = true)
    (hreg : reg.inFile = true) :
    (Synthesis.transferMove direction size a reg).Proceeds := by
  intro m
  obtain ⟨x, hx⟩ := Machine.exists_xmmIndex hxmm hreg
  exact ⟨_, Synthesis.step_transferMove_xmm m direction hsize hxmm hx hbase hindex hscale⟩

end Moves

/-- A value that is not split is in the register that the machine takes it from. -/
theorem Transfer.whole_inFile {t : Transfer} (h : t.lo.inFile = true) :
    t.whole.inFile = true ∧ t.whole.isXmm = t.lo.isXmm := by
  unfold whole
  split
  next r hr =>
    rw [hr] at h ⊢
    split
    · exact ⟨h, rfl⟩
    · exact ⟨h, rfl⟩
  next => exact ⟨h, rfl⟩

/-- **The moves of an admitted transfer proceed.** -/
theorem Transfer.Admitted.proceeds {t : Transfer} (h : t.Admitted) (hclass : t.wellClassed = true)
    {part : Address × Reg} (hpart : part ∈ t.parts) :
    (Synthesis.transferMove t.direction t.size part.1 part.2).Proceeds := by
  obtain ⟨hbase, hindex, hscale⟩ := Transfer.address_of_mem_parts hpart
  obtain ⟨hbase', hindex', hlo, hsize⟩ := wellClassed_iff.mp hclass
  rw [← hbase] at hbase'
  rw [← hindex] at hindex'
  have hscale' : part.1.scale ≤ 3 := hscale ▸ h.scale
  -- Three of the four ways to place a value come down to this one.
  have hgp : part.2.isGp = true →
      (Synthesis.transferMove t.direction t.size part.1 part.2).Proceeds := by
    intro hreg m
    obtain ⟨g, hg⟩ := Reg.eq_gp_of_isGp hreg
    rw [hg]
    exact ⟨_, Synthesis.step_transferMove m t.direction t.size g hbase' hindex' hscale'⟩
  cases hsplit : t.isSplit with
  | true =>
      -- The low half is no xmm register, and the high half has been checked.
      have hlo' : t.lo.isGp = true := by
        refine Reg.isGp_of_inFile hlo ?_
        simp only [isSplit, Bool.and_eq_true, Bool.not_eq_true'] at hsplit
        exact hsplit.2
      refine hgp ?_
      rw [parts_of_split hsplit] at hpart
      split at hpart <;> simp only [List.mem_cons, List.not_mem_nil, or_false] at hpart <;>
        rcases hpart with rfl | rfl
      · exact (h.split hsplit).1
      · exact hlo'
      · exact hlo'
      · exact (h.split hsplit).1
  | false =>
      obtain ⟨hwhole, hsame⟩ := whole_inFile hlo
      rw [parts_of_whole hsplit, List.mem_singleton] at hpart
      have hreg : part.2 = t.whole := by rw [hpart]
      cases hxmm : t.lo.isXmm with
      | false =>
          refine hgp ?_
          rw [hreg]
          exact Reg.isGp_of_inFile hwhole (hsame.trans hxmm)
      | true =>
          -- Less than a word would have to be in a general-purpose register.
          have hword : 4 ≤ t.size.bytes := by
            refine hsize.resolve_left fun hno => ?_
            obtain ⟨g, hg⟩ := Reg.eq_gp_of_isGp hno
            exact absurd hxmm (by simp [hg, Reg.isXmm])
          refine proceeds_transferMove_xmm hbase' hindex' hscale' hword ?_ ?_ <;> rw [hreg]
          · exact hsame.trans hxmm
          · exact hwhole

/-! ## §5. Requests and runs. -/

theorem Request.follows_proceeds {q : Request} (h : q.wellClassed = true) :
    q.synthesis.Follows (lending (·.isGp = true) (Demand.appends Instruction.Proceeds)) ()
      fun _ _ => True := by
  refine follows_appends (fun _ => rfl) (drawsOn_machine h)
    (fun i hi => Supply.proceeds_of_covers hi) ?_ ?_
  · rintro op opcode dest base disp rfl hop
    obtain ⟨hdest, hbase⟩ := Bool.and_eq_true_iff.mp h
    obtain ⟨d, rfl⟩ := Reg.eq_gp_of_isGp hdest
    exact proceeds_memory hop d (by simpa using hbase) disp
  · rintro t rfl hadmitted part hpart
    exact hadmitted.proceeds h hpart

/-- **EMITTED CODE NEVER GETS STUCK.**  Whatever requests are made of a session,
as long as their operands are of the right classes, the code that they add runs
to its end from every machine.  Requests may be refused, or stop half way for
want of a scratch register. -/
theorem emitted_code_completes (s : Session) (qs : List Request)
    (hqs : ∀ q ∈ qs, q.wellClassed = true) (m : Machine) :
    ∃ m', (Machine.run ((s.afterRequests qs).codeFrom s.records.length)).on m = (.ok (), m') := by
  have hproceeds := Session.forall_added_code Instruction.retargetable_proceeds
    (fun q hq => Request.follows_proceeds (hqs q hq)) s
  exact Machine.run_completes hproceeds m

/-- A wide constant that finds no scratch register for its high half, a copy, a
wide element in a pair of singles, an aliased subtraction and a comparison with
memory. -/
def Request.sampleMixed : List Request :=
  [.constantPair (.gp .eax) (.single 1) 1 2, .copy (.double 7) (.double 0),
    .transfer { direction := .store, base := .gp .esi, index := .gp .edi, scale := 3, disp := 4,
                lo := .single 6, hi := .single 7, size := .double },
    .ternary .sub (.gp .ecx) (.gp .eax) (.gp .ecx), .binaryMem .cmp (.gp .eax) .absent 16]

theorem emitted_code_completes_sample :
    ((Session.new []).outcomes (Request.sampleMixed.map .request)).map Except.isOk =
        [false, true, true, true, true] ∧
      (((Session.new []).afterRequests Request.sampleMixed).codeFrom 0).length = 6 ∧
      ∃ m', (Machine.run (((Session.new []).afterRequests Request.sampleMixed).codeFrom 0)).on {} =
        (.ok (), m') := by
  refine ⟨by decide +kernel, by decide +kernel, ?_⟩
  exact emitted_code_completes (Session.new []) Request.sampleMixed (by decide) {}

end TwoAddress
