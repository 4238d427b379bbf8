/-
  TwoAddress.Proofs.EmittedCode
  ─────────────────────────────
  **SYNTHESIZERS, AS THE MACHINE SEES THEM.**

  What a synthesizer is for is the code it leaves behind.  The `executing`
  protocol follows a dialogue with a machine: each instruction appended is
  executed at once, and a register borrowed is one the pool may lend.

    • §1 the code that a session adds, and what running it means;
    • §2 the protocol.  On a session, the machine it arrives at is the one
      that running the added code arrives at, also where the dialogue stops
      half way;
    • §3 requests that are met in turn, and the machine that their code
      arrives at (`Session.Executes`);
    • §4 moves and arithmetic on general-purpose registers;
    • §5 typed transfers through them and through xmm registers.
-/
import TwoAddress.Proofs.Demands
import TwoAddress.Proofs.Execution
import TwoAddress.Proofs.RegisterSets
import TwoAddress.Proofs.Stream

namespace TwoAddress

/-! ## §1. Added code. -/

namespace Session

/-- The instructions of the stream from a position on. -/
def codeFrom (s : Session) (n : Nat) : List Instruction := s.instructions.drop n

theorem codeFrom_push (s : Session) (r : Record) {n : Nat} (hn : n ≤ s.records.length) :
    (s.push r).codeFrom n = s.codeFrom n ++ [r.toInstruction] := by
  show ((s.records ++ [r]).map (·.toInstruction)).drop n = _
  rw [List.map_append, List.drop_append_of_le_length (by simpa using hn)]
  rfl

/-- Code that is the same up to targets runs the same. -/
theorem run_codeFrom_congr {s t : Session} (n : Nat)
    (h : s.records.map Record.untargeted = t.records.map Record.untargeted) :
    Machine.run (s.codeFrom n) = Machine.run (t.codeFrom n) := by
  have key : ∀ u : Session, (u.codeFrom n).map Instruction.untargeted =
      ((u.records.map Record.untargeted).map (·.toInstruction)).drop n := by
    intro u
    rw [codeFrom, instructions, List.map_drop, List.map_map, List.map_map]
    rfl
  rw [← Machine.run_untargeted, ← Machine.run_untargeted (t.codeFrom n), key, key, h]

/-- Code that grew runs as before, and then goes on with what was added. -/
theorem run_codeFrom_grows {s t : Session} (h : s.Grows t) {n : Nat}
    (hn : n ≤ s.records.length) {m m' : Machine}
    (hrun : (Machine.run (s.codeFrom n)).on m = (.ok (), m')) :
    (Machine.run (t.codeFrom n)).on m = (Machine.run (t.codeFrom s.records.length)).on m' := by
  -- Cut the longer stream where the shorter one ends.
  have hlength := h.length_le
  have hcut : t.codeFrom n =
      (t.codeFrom n).take (s.records.length - n) ++ t.codeFrom s.records.length := by
    have hdrop : t.codeFrom s.records.length = (t.codeFrom n).drop (s.records.length - n) := by
      rw [codeFrom, codeFrom, List.drop_drop]
      congr 1
      omega
    rw [hdrop, List.take_append_drop]
  have hsame : Machine.run ((t.codeFrom n).take (s.records.length - n)) =
      Machine.run (s.codeFrom n) := by
    have htake : (t.codeFrom n).take (s.records.length - n) =
        codeFrom { t with records := t.records.take s.records.length } n := by
      simp only [codeFrom, instructions, List.map_take, List.take_drop]
      congr 2
      omega
    rw [htake]
    refine run_codeFrom_congr n ?_
    obtain ⟨rest, hrest⟩ := h
    rw [List.map_take, ← hrest, List.take_left' (by simp)]
  rw [hcut, Machine.run_append, hsame, hrun]

end Session

/-! ## §2. Executing at once. -/

/-- Each instruction is executed when it is appended.  A register borrowed is
one that the pool found at the start may lend, and none that was lent then is
given back.  The state is the machine. -/
def executing (found : ScratchPool) : Protocol Machine where
  append i m K := ∃ m', (Machine.run [i]).on m = (.ok (), m') ∧ ∀ id, K id m'
  borrow exclude m K := ∀ g, found.eligible (.ofList exclude) g = true → K (.gp g) m
  release r m K := found.lent.contains r = false ∧ K m

/-- A session that began as `start` with the machine `m₀`: the code it has added
takes the machine to `m`, and its pool lends what it lent, and maybe more. -/
structure Executed (start : Session) (m₀ m : Machine) (s : Session) : Prop where
  lendable : s.pool.lendable = start.pool.lendable
  lent : ∀ g, start.pool.lent.contains (.gp g) = true → s.pool.lent.contains (.gp g) = true
  grown : start.records.length ≤ s.records.length
  run : (Machine.run (s.codeFrom start.records.length)).on m₀ = (.ok (), m)

section Executed

variable {start s : Session} {m₀ m m' : Machine}

theorem Executed.begin (s : Session) (m : Machine) : Executed s m m s where
  lendable := rfl
  lent _ h := h
  grown := Nat.le_refl _
  run := by
    rw [Session.codeFrom, List.drop_eq_nil_of_le (by simp [Session.instructions])]
    rfl

theorem Executed.push (h : Executed start m₀ m s) {i : Instruction}
    (hrun : (Machine.run [i]).on m = (.ok (), m')) : Executed start m₀ m' (s.push (s.stamp i)) where
  lendable := h.lendable
  lent := h.lent
  grown := by
    have := h.grown
    simp only [Session.push, List.length_append]
    omega
  run := by
    rw [Session.codeFrom_push s _ h.grown, Machine.run_append, h.run]
    exact hrun

theorem Executed.retarget (h : Executed start m₀ m s) {n : Nat} {r r' : Record}
    (hr : s.records[n]? = some r) (hsame : r'.untargeted = r.untargeted) :
    Executed start m₀ m { s with records := s.records.set n r' } where
  lendable := h.lendable
  lent := h.lent
  grown := by
    rw [List.length_set]
    exact h.grown
  run := by
    rw [Session.run_codeFrom_congr (t := s) _ (map_untargeted_set hr hsame)]
    exact h.run

/-- What may be lent later could be lent at the start. -/
theorem Executed.eligible (h : Executed start m₀ m s) {exclude : RegSet} {g : GpReg}
    {p : ScratchPool} (hrun : s.pool.borrow exclude = .ok (g, p)) :
    start.pool.eligible exclude g = true := by
  obtain ⟨hin, hfree, hother⟩ := ScratchPool.eligible_iff.mp (ScratchPool.eligible_of_borrow hrun)
  have hlent : start.pool.lent.contains (.gp g) = false := by
    cases hg : start.pool.lent.contains (.gp g) with
    | false => rfl
    | true => exact absurd (h.lent g hg) (by simp [hfree])
  rw [h.lendable] at hin
  exact ScratchPool.eligible_iff.mpr ⟨hin, hlent, hother⟩

/-- **A session's code runs as the protocol runs it.** -/
theorem executing_keeps (start : Session) (m₀ : Machine) :
    (executing start.pool).Keeps Session.unit (Executed start m₀)
      fun s => ∃ m, Executed start m₀ m s where
  append {i m s K} h hK := by
    obtain ⟨m', hrun, hK⟩ := hK
    exact ⟨m', h.push hrun, hK ⟨s.records.length⟩⟩
  retarget {id target m s K} h hK := by
    simp only [Session.unit, Session.on_retarget]
    split
    · exact ⟨m, h⟩
    next r hr =>
      split
      · exact ⟨m, h.retarget hr rfl, hK⟩
      · exact ⟨m, h⟩
  borrow {exclude m s K} h hK := by
    simp only [Session.unit, Session.on_borrow]
    split
    next g p hrun =>
      have hK := hK g (h.eligible hrun)
      obtain ⟨-, rfl⟩ := ScratchPool.borrow_eq_ok.mp hrun
      refine ⟨m, ⟨h.lendable, fun q hq => ?_, h.grown, h.run⟩, hK⟩
      simp [h.lent q hq]
    next => exact ⟨m, h⟩
  release {r m s K} h hK := by
    obtain ⟨hr, hK⟩ := hK
    simp only [Session.unit, Session.on_release]
    split
    next p hrun =>
      obtain rfl := ScratchPool.eq_of_release hrun
      refine ⟨m, ⟨h.lendable, fun q hq => ?_, h.grown, h.run⟩, hK⟩
      cases r with
      | gp r =>
          -- What was lent at the start is not what is given back.
          have hne : q ≠ r := by
            rintro rfl
            exact absurd hq (by simp [hr])
          simp [h.lent q hq, hne]
      | absent => exact h.lent q hq
      | xmm => exact h.lent q hq
    next => exact ⟨m, h⟩
  annotate {id access m s K} h hK := ⟨m, ⟨h.lendable, h.lent, h.grown, h.run⟩, hK⟩
  note {n m s K} h hK := ⟨m, h, hK⟩
  stop {f m s} h _ := ⟨m, h⟩

end Executed

/-! ## §3. Requests in turn. -/

namespace Session

/-- All requests are met, and the code they add takes the machine from `m` to `m'`. -/
def Executes (s : Session) (qs : List Request) (m m' : Machine) : Prop :=
  s.Returns qs ∧
    (Machine.run ((s.afterRequests qs).codeFrom s.records.length)).on m = (.ok (), m')

/-- Code that runs arrives at one machine. -/
theorem Executes.unique {s : Session} {qs : List Request} {m m₁ m₂ : Machine}
    (h₁ : s.Executes qs m m₁) (h₂ : s.Executes qs m m₂) : m₁ = m₂ :=
  congrArg Prod.snd (h₁.2.symm.trans h₂.2)

theorem executes_nil (s : Session) (m : Machine) : s.Executes [] m m := by
  constructor
  · intro o ho
    exact absurd ho List.not_mem_nil
  · exact (Executed.begin s m).run

/-- **A request and those after it.**  The code of the rest runs from where the
code of the first arrives, in a session whose pool has the same registers. -/
theorem executes_cons {s : Session} {q : Request} {qs : List Request} {m : Machine}
    {R T : Machine → Prop} (hq : q.synthesis.Follows (executing s.pool) m fun _ m₁ => R m₁)
    (hreturns : s.Returns (q :: qs))
    (hrest : ∀ (s₁ : Session) (m₁ : Machine), s₁.pool.lendable = s.pool.lendable →
      s₁.Returns qs → R m₁ → ∃ m₂, s₁.Executes qs m₁ m₂ ∧ T m₂) :
    ∃ m₂, s.Executes (q :: qs) m m₂ ∧ T m₂ := by
  obtain ⟨⟨reply, hreply⟩, hreturns'⟩ := returns_cons.mp hreturns
  have hmet := hq.met (executing_keeps s m) (Executed.begin s m)
  change Met _ _ _ (s.meet q) at hmet
  rcases hrun : s.meet q with ⟨_ | _, s₁⟩ <;> rw [hrun] at hmet hreply hreturns'
  · exact absurd hreply (by simp)
  · obtain ⟨m₁, hexecuted, hR⟩ := hmet
    obtain ⟨m₂, ⟨-, hcode⟩, hT⟩ := hrest s₁ m₁ hexecuted.lendable hreturns' hR
    refine ⟨m₂, ⟨hreturns, ?_⟩, hT⟩
    -- What the rest appends stands behind the code of the first request.
    rw [afterRequests_cons, hrun,
      run_codeFrom_grows (s₁.grows_afterRequests qs) hexecuted.grown hexecuted.run]
    exact hcode

/-- A single request. -/
theorem executes_single {s : Session} {q : Request} {m : Machine} {R : Machine → Prop}
    (hq : q.synthesis.Follows (executing s.pool) m fun _ m₁ => R m₁) (hreturns : s.Returns [q]) :
    ∃ m', s.Executes [q] m m' ∧ R m' := by
  refine executes_cons hq hreturns ?_
  intro s₁ m₁ _ _ hR
  exact ⟨m₁, s₁.executes_nil m₁, hR⟩

end Session

/-! ## §4. Moves and arithmetic. -/

/-- The arithmetic that an operation stands for, where it stands for one. -/
def Operation.arith? : Operation → Option Arith
  | .mov => some .mov
  | .add => some .add
  | .adc => some .adc
  | .sub => some .sub
  | .sbc => some .sbb
  | .and => some .and
  | .or => some .or
  | .xor => some .xor
  | .cmp => some .cmp
  | .mul => some .imul
  | .lsl => some .sal
  | .lsr => some .shr
  | .asr => some .sar
  | .ror => some .ror
  | _ => none

namespace Synthesis

section Tables

variable {op : Operation} {opcode : Opcode} {arith : Arith}

theorem action_registerOpcode (h : registerOpcode? op = some opcode)
    (harith : op.arith? = some arith) : opcode.action = .arith arith .register := by
  cases op <;> cases harith <;> cases h <;> rfl

theorem action_shiftOpcode (h : shiftOpcode? op = some opcode)
    (harith : op.arith? = some arith) : opcode.action = .arith arith .counter := by
  cases op <;> cases harith <;> cases h <;> rfl

theorem action_immediateOpcode {short : Bool} (h : immediateOpcode? op short = some opcode)
    (harith : op.arith? = some arith) : opcode.action = .arith arith .immediate := by
  cases op <;> cases harith <;> cases short <;> cases h <;> rfl

end Tables

section Executing

variable {pool : ScratchPool} {m m' : Machine} {Q : RecordId → Machine → Prop}

theorem emit_executing {op : Opcode} {operands : List Operand}
    (hstep : (Machine.step { opcode := op, operands }).on m = (.ok (), m'))
    (hQ : ∀ id, Q id m') : (emit op operands).Follows (executing pool) m Q :=
  ⟨m', Machine.run_single rfl hstep, hQ⟩

/-- A self-copy is inert, and a copy of a register to itself changes nothing. -/
theorem copy_executing (dest src : GpReg) (hQ : ∀ id, Q id (m.setGp dest (m.gp src))) :
    (copy (.gp dest) (.gp src)).Follows (executing pool) m Q := by
  refine ⟨m.setGp dest (m.gp src), ?_, hQ⟩
  by_cases h : dest = src
  · subst h
    rw [Machine.setGp_self, Machine.run_cons_inert (by simp)]
    rfl
  · have hactive : (Reg.gp dest == Reg.gp src) = false := by simpa using h
    rw [hactive, ← Machine.combine_mov]
    exact Machine.run_single rfl (Machine.step_register m dest src rfl)

/-- A constant; zero is made by an operation that clears the carry. -/
theorem constant_executing (dest : GpReg) (value : Word)
    (hQ : ∀ id, Q id ({ m with carry := if value = 0 then false else m.carry }.setGp dest value)) :
    (constant (.gp dest) value).Follows (executing pool) m Q := by
  show (gpConstant (.gp dest) value).Follows (executing pool) m Q
  unfold gpConstant
  split
  next h =>
    subst h
    refine emit_executing (Machine.step_register m dest dest rfl) fun id => ?_
    have hzero : m.combine .xor dest (m.gp dest) = { m with carry := false }.setGp dest 0 := by
      simp [Machine.combine, Arith.apply]
    rw [hzero]
    exact hQ id
  next h =>
    rw [if_neg h] at hQ
    refine emit_executing (Machine.step_immediate m dest rfl value) fun id => ?_
    rw [Machine.combine_mov]
    exact hQ id

theorem negate_executing (dest : GpReg)
    (hQ : ∀ id, Q id ({ m with carry := m.gp dest != 0 }.setGp dest (-m.gp dest))) :
    (unary .neg (.gp dest)).Follows (executing pool) m Q :=
  emit_executing (Machine.step_negate m dest) hQ

theorem complement_executing (dest : GpReg) (hQ : ∀ id, Q id (m.setGp dest (~~~ m.gp dest))) :
    (unary .not (.gp dest)).Follows (executing pool) m Q :=
  emit_executing (Machine.step_complement m dest) hQ

/-- `dest op= src`, if it is not refused. -/
theorem binary_executing {op : Operation} {arith : Arith} (harith : op.arith? = some arith)
    (dest src : GpReg) (hQ : ∀ id, Q id (m.combine arith dest (m.gp src))) :
    (binary op (.gp dest) (.gp src)).Follows (executing pool) m Q := by
  unfold binary
  split
  -- Negation, complement and byte extension are not arithmetic on two operands.
  · exact absurd harith (by simp [Operation.arith?])
  · exact absurd harith (by simp [Operation.arith?])
  · exact absurd harith (by simp [Operation.arith?])
  · split
    next h =>
      split
      next hsrc =>
        injection hsrc with hsrc
        subst hsrc
        exact emit_executing (Machine.step_counter m dest (action_shiftOpcode h harith)) hQ
      next => trivial
    next =>
      split
      next h =>
        exact emit_executing (Machine.step_register m dest src (action_registerOpcode h harith)) hQ
      next => trivial

theorem multiplyImm_executing (dest src : GpReg) (value : Word)
    (hQ : ∀ id, Q id (m.setGp dest (m.gp src * value))) :
    (multiplyImm (.gp dest) (.gp src) value).Follows (executing pool) m Q := by
  refine emit_executing (Machine.step_multiply m dest src ?_ value) hQ
  split <;> rfl

/-- `dest op= value`, if it is not refused.  Multiplication and plain moves have
ways of their own. -/
theorem binaryImm_executing {op : Operation} {arith : Arith} (harith : op.arith? = some arith)
    (hmul : op ≠ .mul) (hmov : op ≠ .mov) (dest : GpReg) (value : Word)
    (hQ : ∀ id, Q id (m.combine arith dest value)) :
    (binaryImm op (.gp dest) value).Follows (executing pool) m Q := by
  unfold binaryImm
  refine (asks_require _ _).follows_then (fun _ => trivial) fun _ => ?_
  split
  · exact absurd rfl hmov
  · exact absurd rfl hmul
  · split
    next h =>
      exact emit_executing
        (Machine.step_immediate m dest (action_immediateOpcode h harith) value) hQ
    next => trivial

theorem lea_executing (dest : GpReg) {base index : Reg} (hbase : base.isXmm = false)
    (hindex : index.isXmm = false) (disp : Word)
    (hQ : ∀ id, Q id (m.setGp dest (m.valueOf base + m.valueOf index + disp))) :
    (lea (.gp dest) base index disp).Follows (executing pool) m Q :=
  emit_executing (Machine.step_lea m dest hbase hindex disp) hQ

end Executing

end Synthesis

/-! ## §5. Transfers. -/

/-- How a general-purpose register takes in a value of a size. -/
def AccessSize.extension : AccessSize → Extension
  | .signedByte => .signedByte
  | .unsignedByte => .unsignedByte
  | .signedHalf => .signedHalf
  | .unsignedHalf => .unsignedHalf
  | _ => .whole

/-- The part of an xmm register that takes in a value of a size. -/
def AccessSize.lane : AccessSize → Lane
  | .long | .double => .low64
  | _ => .low32

theorem AccessSize.bytes_lane {size : AccessSize} (hsize : 4 ≤ size.bytes) :
    size.lane.bytes = size.bytes := by
  cases size with
  | word | single | long | double => rfl
  | _ => exact absurd hsize (by decide)

namespace Machine

/-- The place an address names. -/
def locate (m : Machine) (a : Address) : Word :=
  m.valueOf a.base + (m.valueOf a.index <<< a.scale.toNat) + a.disp

/-- The machine after a move between memory and a general-purpose register. -/
def transferred (m : Machine) (direction : Direction) (size : AccessSize) (a : Address)
    (r : GpReg) : Machine :=
  match direction with
  | .load =>
      m.setGp r (size.extension.apply
        ((m.memory.read (m.locate a) size.extension.bytes).setWidth 32))
  | .store =>
      { m with
        memory := m.memory.write (m.locate a) size.extension.bytes ((m.gp r).setWidth 64) }

/-- The machine after a move between memory and an xmm register. -/
def transferredXmm (m : Machine) (direction : Direction) (size : AccessSize) (a : Address)
    (x : Fin 8) : Machine :=
  match direction with
  | .load => m.setXmm x ((m.memory.read (m.locate a) size.lane.bytes).setWidth 128)
  | .store =>
      { m with memory := m.memory.write (m.locate a) size.lane.bytes ((m.xmm x).setWidth 64) }

end Machine

namespace Synthesis

theorem action_transferOpcodes (direction : Direction) (size : AccessSize) (r : GpReg) :
    (transferOpcodes direction size (.gp r)).1.action =
        (match direction with
          | .load => .load size.extension
          | .store => .store size.extension.bytes) ∧
      (transferOpcodes direction size (.gp r)).2.action =
        (match direction with
          | .load => .load size.extension
          | .store => .store size.extension.bytes) := by
  cases direction <;> cases size <;> exact ⟨rfl, rfl⟩

/-- Xmm registers take words and more. -/
theorem action_transferOpcodes_xmm (direction : Direction) {size : AccessSize}
    (hsize : 4 ≤ size.bytes) {reg : Reg} (hxmm : reg.isXmm = true) :
    (transferOpcodes direction size reg).1.action =
        (match direction with
          | .load => .loadXmm size.lane
          | .store => .storeXmm size.lane) ∧
      (transferOpcodes direction size reg).2.action =
        (match direction with
          | .load => .loadXmm size.lane
          | .store => .storeXmm size.lane) := by
  cases size with
  | word | single | long | double =>
      cases direction <;> simp only [transferOpcodes, if_pos hxmm] <;> exact ⟨rfl, rfl⟩
  | _ => exact absurd hsize (by decide)

section Transfers

variable (m : Machine) (direction : Direction) (size : AccessSize) {a : Address}

/-- A move's operands name the place that its address does. -/
theorem on_effectiveAddress (reg : Reg) (hbase : a.base.isXmm = false)
    (hindex : a.index.isXmm = false) (hscale : a.scale ≤ 3) :
    (Machine.effectiveAddress (transferMove direction size a reg)).on m =
      (.ok (m.locate a), m) := by
  obtain ⟨hplain, harray⟩ := form_transferOpcodes direction size reg
  cases ha : a.isArray with
  | false =>
      -- Without an index the scale does not count.
      have hindex : a.index = .absent := by
        unfold Address.isArray Reg.isAbsent at ha
        split at ha
        next h => exact h
        next => exact absurd ha (by simp)
      have hplace : m.locate a = m.valueOf a.base + (m.valueOf .absent <<< 0) + a.disp := by
        rw [Machine.locate, hindex]
        simp [Machine.valueOf]
      have haddress := Machine.on_addressOf m hbase (show Reg.absent.isXmm = false from rfl)
        (show (0 : Word).toNat < 32 by decide) a.disp
      rw [transferMove_plain ha, hplace, Machine.effectiveAddress, hplain]
      cases direction <;> exact haddress
  | true =>
      -- The scale that an address may have is one that the machine accepts.
      have hlt : a.scale.toNat ≤ 3 := UInt8.le_iff_toNat_le.mp hscale
      have hnat : (BitVec.ofNat 32 a.scale.toNat).toNat = a.scale.toNat :=
        Nat.mod_eq_of_lt (by omega)
      have haddress := Machine.on_addressOf m hbase hindex
        (show (BitVec.ofNat 32 a.scale.toNat).toNat < 32 by omega) a.disp
      rw [hnat] at haddress
      rw [transferMove_array ha, Machine.effectiveAddress, harray]
      cases direction <;> exact haddress

/-- A move does what it should. -/
theorem step_transferMove (r : GpReg) (hbase : a.base.isXmm = false)
    (hindex : a.index.isXmm = false) (hscale : a.scale ≤ 3) :
    (Machine.step (transferMove direction size a (.gp r))).on m =
      (.ok (), m.transferred direction size a r) := by
  have haddress := on_effectiveAddress m direction size (.gp r) hbase hindex hscale
  obtain ⟨hplain, harray⟩ := form_transferOpcodes direction size (.gp r)
  obtain ⟨hplain', harray'⟩ := action_transferOpcodes direction size r
  cases ha : a.isArray with
  | false =>
      rw [transferMove_plain ha] at haddress ⊢
      cases direction with
      | load => exact Machine.step_load m r hplain' haddress rfl
      | store =>
          refine Machine.step_store m r hplain' haddress ?_
          rw [Machine.storedReg, Opcode.arity, hplain]
          rfl
  | true =>
      rw [transferMove_array ha] at haddress ⊢
      cases direction with
      | load => exact Machine.step_load m r harray' haddress rfl
      | store =>
          refine Machine.step_store m r harray' haddress ?_
          rw [Machine.storedReg, Opcode.arity, harray]
          rfl

/-- The same between memory and an xmm register. -/
theorem step_transferMove_xmm {size : AccessSize} (hsize : 4 ≤ size.bytes) {reg : Reg}
    (hxmm : reg.isXmm = true) {x : Fin 8} (hx : Machine.xmmIndex reg = .ok x)
    (hbase : a.base.isXmm = false) (hindex : a.index.isXmm = false) (hscale : a.scale ≤ 3) :
    (Machine.step (transferMove direction size a reg)).on m =
      (.ok (), m.transferredXmm direction size a x) := by
  have haddress := on_effectiveAddress m direction size reg hbase hindex hscale
  obtain ⟨hplain, harray⟩ := form_transferOpcodes direction size reg
  obtain ⟨hplain', harray'⟩ := action_transferOpcodes_xmm direction hsize hxmm
  cases ha : a.isArray with
  | false =>
      rw [transferMove_plain ha] at haddress ⊢
      cases direction with
      | load => exact Machine.step_loadXmm m hplain' haddress hx
      | store =>
          refine Machine.step_storeXmm m hplain' haddress ?_
          rw [Machine.storedReg, Opcode.arity, hplain]
          exact hx
  | true =>
      rw [transferMove_array ha] at haddress ⊢
      cases direction with
      | load => exact Machine.step_loadXmm m harray' haddress hx
      | store =>
          refine Machine.step_storeXmm m harray' haddress ?_
          rw [Machine.storedReg, Opcode.arity, harray]
          exact hx

end Transfers

section Executing

variable {pool : ScratchPool} {m : Machine} {Q : RecordId → Machine → Prop}

theorem emitTransfer_executing (direction : Direction) (size : AccessSize) {a : Address} (r : GpReg)
    (hbase : a.base.isXmm = false) (hindex : a.index.isXmm = false) (hscale : a.scale ≤ 3)
    (hQ : ∀ id, Q id (m.transferred direction size a r)) :
    (emitTransfer direction size a (.gp r)).Follows (executing pool) m Q := by
  rw [emitTransfer_eq]
  have hstep := step_transferMove m direction size r hbase hindex hscale
  refine ⟨_, Machine.run_single rfl hstep, fun id => ?_⟩
  show Follows _ (if _ then _ else _) _ _
  split <;> exact hQ id

/-- A transfer of at most one word through a general-purpose register, if it is
not refused. -/
theorem transfer_executing {t : Transfer} (r : GpReg) (hlo : t.lo = .gp r)
    (hsize : t.size.isWide = false) (hbase : t.base.isXmm = false) (hindex : t.index.isXmm = false)
    (hQ : ∀ id, Q id (m.transferred t.direction t.size
      { base := t.base, index := t.index, scale := t.scale, disp := t.disp } r)) :
    (transfer t).Follows (executing pool) m Q := by
  unfold transfer Address.array
  by_cases hscale : t.scale ≤ 3
  · rw [if_pos hscale]
    refine Follows.seq ((asks_require _ _).follows_then (fun _ => trivial) fun _ => ?_)
    have hmove : (emitTransfer t.direction t.size
        { base := t.base, index := t.index, scale := t.scale, disp := t.disp } t.lo).Follows
          (executing pool) m Q := by
      rw [hlo]
      exact emitTransfer_executing t.direction t.size r hbase hindex hscale hQ
    -- Past their checks, all the narrow sizes end in the same move.
    split
    case h_1 | h_2 => simp_all [AccessSize.isWide]
    case h_7 | h_8 => exact hmove
    all_goals exact (asks_require _ _).follows_then (fun _ => trivial) fun _ => hmove
  · rw [if_neg hscale]
    trivial

end Executing

end Synthesis

end TwoAddress
