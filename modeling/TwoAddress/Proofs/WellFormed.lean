/-
  TwoAddress.Proofs.WellFormed
  ────────────────────────────
  **THE STREAM IS WELL-FORMED.**

  Whoever encodes the stream reads operands by position and trusts the opcode
  on what is there: a register, an immediate that fits one byte, a scale that
  two bits can hold.  No type says so.  This file does, and shows that no
  request puts anything else into the stream, whatever its operands and
  whether or not it is met to its end.

    • §1 `WellFormed`: kinds of operands, what single opcodes ask of them,
      addresses, targets, the inert flag;
    • §2 instructions that work in registers, one case each;
    • §3 moves of transfers, and arithmetic on memory;
    • §4 hence every record of a run (`stream_wellFormed`).
-/
import TwoAddress.Proofs.Appended

namespace TwoAddress

/-! ## §1. Well-formed instructions. -/

/-- What an operand slot may hold. -/
inductive OperandKind where
  | register | immediate
  deriving DecidableEq, Repr

/-- What a slot holds, if anything. -/
def Operand.kind? : Operand → Option OperandKind
  | none => .none
  | reg _ => some .register
  | imm _ => some .immediate

/-- The kinds of the operands of a form, in order.  Displacements, scales,
condition numbers and thread offsets are immediates. -/
def Form.kinds : Form → List OperandKind
  | r => [.register]
  | rr => [.register, .register]
  | ri => [.register, .immediate]
  | rri => [.register, .register, .immediate]
  | rm => [.register, .register, .immediate]
  | ra => [.register, .register, .register, .immediate, .immediate]
  | mr => [.register, .immediate, .register]
  | ar => [.register, .register, .immediate, .immediate, .register]
  | m => [.register, .immediate]
  | t => [.immediate]
  | jump => [.immediate]
  | condJump => [.immediate, .immediate]

theorem Form.length_kinds (f : Form) : f.kinds.length = f.arity := by
  cases f <;> rfl

/-- The signed reading lies between two bounds. -/
def Word.Within (low high : Int) (v : Word) : Prop := low ≤ v.toInt ∧ v.toInt ≤ high

instance (low high : Int) (v : Word) : Decidable (v.Within low high) :=
  inferInstanceAs (Decidable (_ ∧ _))

theorem Word.fitsByte_iff (v : Word) : v.fitsByte = true ↔ v.Within (-128) 127 := by
  simp [fitsByte, Within]

namespace Instruction

/-- What an opcode asks of its operands, beyond their kinds. -/
def OperandsFit (i : Instruction) : Prop :=
  match i.opcode with
  -- One-byte immediates, and the long forms that are for all others.
  | .add32RI8 | .or32RI8 | .adc32RI8 | .and32RI8 | .sub32RI8 | .xor32RI8 | .cmp32RI8 =>
      (i.immAt 1).Within (-128) 127
  | .add32RI | .or32RI | .adc32RI | .and32RI | .sub32RI | .xor32RI | .cmp32RI =>
      ¬ (i.immAt 1).Within (-128) 127
  | .imul32RRI8 => (i.immAt 2).Within (-128) 127
  | .imul32RRI => ¬ (i.immAt 2).Within (-128) 127
  -- Zero has a shorter instruction.
  | .mov32RI => i.immAt 1 ≠ 0
  | .sal32RC | .shr32RC | .sar32RC | .ror32RC => i.regAt 1 = .counter
  -- Low bytes that can be named, as a source and as the register stored.
  | .movsx8RR | .movzx8RR => (i.regAt 1).byteAddressable = true
  | .mov8MR => (i.regAt 2).byteAddressable = true
  | .mov8AR => (i.regAt 4).byteAddressable = true
  | .jcc8 => (i.immAt 1).Within 0 15
  | _ => True

/-- Scales have two bits, and an address of array form has an index unless it
is only computed. -/
def AddressFits (i : Instruction) : Prop :=
  match i.opcode.form with
  | .ra => (i.immAt 3).Within 0 3 ∧ (i.opcode ≠ .lea32RA → i.regAt 2 ≠ .absent)
  | .ar => (i.immAt 2).Within 0 3 ∧ i.regAt 1 ≠ .absent
  | _ => True

/-- An instruction that can be encoded as its opcode says. -/
structure WellFormed (i : Instruction) : Prop where
  kinds : ∀ n, n < i.opcode.arity → (i.slot n).kind? = i.opcode.form.kinds[n]?
  rest : ∀ n, i.opcode.arity ≤ n → i.slot n = .none
  operands : i.OperandsFit
  address : i.AddressFits
  target : i.target ≠ none → i.opcode.isBranch = true
  /-- Only a move of a register to itself is skipped. -/
  inert : i.inert = true → i.opcode ∈ [.mov32RR, .movssRR, .movsdRR] ∧ i.regAt 0 = i.regAt 1

/-- The operands have the kinds of the form, one by one. -/
def LaidOut (i : Instruction) : Prop :=
  i.operands.map Operand.kind? = i.opcode.form.kinds.map some

variable {i : Instruction}

theorem LaidOut.getElem? (h : i.LaidOut) (n : Nat) :
    i.operands[n]?.map Operand.kind? = i.opcode.form.kinds[n]?.map some := by
  rw [← List.getElem?_map, ← List.getElem?_map, h]

theorem LaidOut.length (h : i.LaidOut) : i.operands.length = i.opcode.arity := by
  have := congrArg List.length h
  rw [List.length_map, List.length_map, Form.length_kinds] at this
  exact this

theorem LaidOut.kind? (h : i.LaidOut) (n : Nat) :
    (i.slot n).kind? = i.opcode.form.kinds[n]? := by
  have hn := h.getElem? n
  rw [slot, List.getD_eq_getElem?_getD]
  cases ho : i.operands[n]? <;> cases hk : i.opcode.form.kinds[n]? <;> rw [ho, hk] at hn
  · rfl
  · exact nomatch hn
  · exact nomatch hn
  · exact Option.some.inj hn

/-- An instruction as it is emitted: not inert, and without a target. -/
theorem WellFormed.of_emitted {opcode : Opcode} {operands : List Operand}
    (hlaid : LaidOut { opcode, operands }) (hfit : OperandsFit { opcode, operands })
    (haddress : AddressFits { opcode, operands }) : WellFormed { opcode, operands } where
  kinds n _ := hlaid.kind? n
  rest n hn := by
    rw [slot, List.getD_eq_getElem?_getD, List.getElem?_eq_none]
    · rfl
    · rw [hlaid.length]
      exact hn
  operands := hfit
  address := haddress
  target h := absurd rfl h
  inert h := nomatch h

/-- Branches may be pointed anywhere. -/
theorem retargetable_wellFormed : Retargetable WellFormed := by
  intro i target hbranch h
  exact { h with target := fun _ => hbranch }

end Instruction

/-! ## §2. In registers. -/

section Registers

open Instruction

/-- Two registers and no further condition. -/
theorem wellFormed_registers {opcode : Opcode} {dest src : Reg} (hform : opcode.form = .rr)
    (hfit : OperandsFit { opcode, operands := [.reg dest, .reg src] }) :
    WellFormed { opcode, operands := [.reg dest, .reg src] } := by
  refine .of_emitted ?_ hfit ?_
  · rw [LaidOut, hform]
    rfl
  · rw [AddressFits, hform]
    trivial

theorem wellFormed_move {opcode : Opcode} (dest src : Reg)
    (h : opcode ∈ [.mov32RR, .movssRR, .movsdRR, .movdxrRR, .movdrxRR]) :
    WellFormed { opcode, operands := [.reg dest, .reg src] } := by
  revert h
  simp only [List.mem_cons, List.not_mem_nil, or_false]
  rintro (rfl | rfl | rfl | rfl | rfl) <;> exact wellFormed_registers rfl trivial

theorem mem_of_moveOpcode? {dest src : Reg} {opcode : Opcode}
    (h : Synthesis.moveOpcode? dest src = some opcode) :
    opcode ∈ [.mov32RR, .movssRR, .movsdRR, .movdxrRR, .movdrxRR] := by
  rcases dest with _ | _ | ⟨_, _ | _⟩ <;> rcases src with _ | _ | _ <;> cases h <;> decide

/-- A register is of one class, so a move to itself joins no two. -/
theorem mem_of_moveOpcode?_self {r : Reg} {opcode : Opcode}
    (h : Synthesis.moveOpcode? r r = some opcode) :
    opcode ∈ [.mov32RR, .movssRR, .movsdRR] := by
  rcases r with _ | _ | ⟨_, _ | _⟩
  · exact nomatch h
  all_goals
    cases h
    decide

theorem wellFormed_copy {dest src : Reg} {i : Instruction}
    (h : Synthesis.copyInstruction dest src = .ok i) : i.WellFormed := by
  unfold Synthesis.copyInstruction at h
  split at h
  · exact nomatch h
  · split at h
    next opcode hop =>
      injection h with h
      subst h
      have hmove := wellFormed_move dest src (mem_of_moveOpcode? hop)
      refine { hmove with inert := fun hinert => ?_ }
      obtain rfl : dest = src := by simpa using hinert
      exact ⟨mem_of_moveOpcode?_self hop, rfl⟩
    next => exact nomatch h

/-- The encoding of an immediate is chosen by its value. -/
theorem wellFormed_immediate {op : Operation} {opcode : Opcode} (dest : Reg) {value : Word}
    (h : Synthesis.immediateOpcode? op value.fitsByte = some opcode) :
    WellFormed { opcode, operands := [.reg dest, .imm value] } := by
  have hshort : value.fitsByte = true → value.Within (-128) 127 := value.fitsByte_iff.mp
  have hlong : value.fitsByte = false → ¬ value.Within (-128) 127 := by
    intro hfits hno
    rw [value.fitsByte_iff.mpr hno] at hfits
    exact nomatch hfits
  cases op with
  | lsl | lsr | asr =>
      cases h
      exact .of_emitted rfl trivial trivial
  | add | or | adc | and | sub | xor | cmp =>
      cases hfits : value.fitsByte <;> rw [hfits] at h <;> cases h
      · exact .of_emitted rfl (hlong hfits) trivial
      · exact .of_emitted rfl (hshort hfits) trivial
  | _ => exact nomatch h

theorem wellFormed_multiply (dest src : Reg) (value : Word) :
    WellFormed
      { opcode := if value.fitsByte then .imul32RRI8 else .imul32RRI
        operands := [.reg dest, .reg src, .imm value] } := by
  by_cases hfits : value.fitsByte = true
  · rw [if_pos hfits]
    exact .of_emitted rfl (value.fitsByte_iff.mp hfits) trivial
  · rw [if_neg hfits]
    exact .of_emitted rfl (fun hno => hfits (value.fitsByte_iff.mpr hno)) trivial

theorem wellFormed_register {op : Operation} {opcode : Opcode} (dest src : Reg)
    (h : Synthesis.registerOpcode? op = some opcode) :
    WellFormed { opcode, operands := [.reg dest, .reg src] } := by
  revert h
  cases op <;> rintro ⟨⟩ <;> exact wellFormed_registers rfl trivial

theorem wellFormed_shift {op : Operation} {opcode : Opcode} (dest : Reg)
    (h : Synthesis.shiftOpcode? op = some opcode) :
    WellFormed { opcode, operands := [.reg dest, .reg .counter] } := by
  revert h
  cases op <;> rintro ⟨⟩ <;> exact wellFormed_registers rfl rfl

theorem within_encoding (field : CcField) :
    Word.Within 0 15 (BitVec.ofNat 32 field.encoding.val) := by
  cases field <;> decide

/-- **Instructions that work in registers are well-formed.** -/
theorem WorksInRegisters.wellFormed {addresses : Address → Prop} {i : Instruction}
    (h : WorksInRegisters addresses i) : i.WellFormed := by
  cases h with
  | copy h => exact wellFormed_copy h
  | constant dest h => exact .of_emitted rfl h trivial
  | unary dest h =>
      revert h
      simp only [List.mem_cons, List.not_mem_nil, or_false]
      rintro (rfl | rfl | rfl) <;> exact .of_emitted rfl trivial trivial
  | immediate op dest h => exact wellFormed_immediate dest h
  | multiply dest src value => exact wellFormed_multiply dest src value
  | register op dest src h => exact wellFormed_register dest src h
  | shift op dest h => exact wellFormed_shift dest h
  | extendByte dest h hsrc =>
      revert h
      simp only [List.mem_cons, List.not_mem_nil, or_false]
      rintro (rfl | rfl) <;> exact wellFormed_registers rfl hsrc
  | lea dest h =>
      have hscale : Word.Within 0 3 0 := by decide
      exact .of_emitted rfl trivial ⟨hscale, fun hlea => absurd rfl hlea⟩
  | packed dest src h =>
      revert h
      simp only [List.mem_cons, List.not_mem_nil, or_false]
      rintro (rfl | rfl | rfl) <;> exact wellFormed_registers rfl trivial
  | packHigh dest => exact .of_emitted rfl trivial trivial
  | callMem base disp => exact .of_emitted rfl trivial trivial
  | callThread offset => exact .of_emitted rfl trivial trivial
  | jump => exact .of_emitted rfl trivial trivial
  | jumpIf field => exact .of_emitted rfl (within_encoding field) trivial

end Registers

/-! ## §3. On memory. -/

section Memory

open Instruction

theorem wellFormed_memory {op : Operation} {opcode : Opcode} (dest base : Reg) (disp : Word)
    (h : Synthesis.memoryOpcode? op = some opcode) :
    WellFormed { opcode, operands := [.reg dest, .reg base, .imm disp] } := by
  revert h
  cases op <;> rintro ⟨⟩ <;> exact .of_emitted rfl trivial trivial

/-- Two bits hold the scale of an admitted address. -/
theorem within_scale {scale : UInt8} (h : scale ≤ 3) :
    Word.Within 0 3 (BitVec.ofNat 32 scale.toNat) := by
  have hscale : scale.toNat ≤ 3 := h
  have htoNat : (BitVec.ofNat 32 scale.toNat).toNat = scale.toNat := by
    rw [BitVec.toNat_ofNat]
    omega
  have htoInt : (BitVec.ofNat 32 scale.toNat).toInt = scale.toNat := by
    rw [BitVec.toInt_eq_toNat_of_lt, htoNat]
    omega
  rw [Word.Within, htoInt]
  omega

variable {direction : Direction} {size : AccessSize} {a : Address} {reg : Reg}

theorem laidOut_transferMove : (Synthesis.transferMove direction size a reg).LaidOut := by
  obtain ⟨hplain, harray⟩ := Synthesis.form_transferOpcodes direction size reg
  cases ha : a.isArray with
  | false =>
      rw [Synthesis.transferMove_plain ha, LaidOut, hplain]
      cases direction <;> rfl
  | true =>
      rw [Synthesis.transferMove_array ha, LaidOut, harray]
      cases direction <;> rfl

theorem addressFits_transferMove (hscale : a.scale ≤ 3) :
    (Synthesis.transferMove direction size a reg).AddressFits := by
  obtain ⟨hplain, harray⟩ := Synthesis.form_transferOpcodes direction size reg
  cases ha : a.isArray with
  | false =>
      rw [Synthesis.transferMove_plain ha, AddressFits, hplain]
      cases direction <;> trivial
  | true =>
      have hindex : a.index ≠ .absent := by
        intro hno
        simp [Address.isArray, hno, Reg.isAbsent] at ha
      rw [Synthesis.transferMove_array ha, AddressFits, harray]
      cases direction with
      | load => exact ⟨within_scale hscale, fun _ => hindex⟩
      | store => exact ⟨within_scale hscale, hindex⟩

/-- Only the stores of single bytes ask for anything. -/
theorem operandsFit_transferOpcodes (h : direction = .store → size.isByte = false)
    (operands : List Operand) :
    OperandsFit { opcode := (Synthesis.transferOpcodes direction size reg).1, operands } ∧
      OperandsFit { opcode := (Synthesis.transferOpcodes direction size reg).2, operands } := by
  cases direction with
  | load =>
      cases size <;> simp only [Synthesis.transferOpcodes] <;> (try split) <;>
        exact ⟨trivial, trivial⟩
  | store =>
      cases size with
      | signedByte | unsignedByte => exact absurd (h rfl) (by decide)
      | signedHalf | unsignedHalf => exact ⟨trivial, trivial⟩
      | word | single | long | double =>
          simp only [Synthesis.transferOpcodes]
          split <;> exact ⟨trivial, trivial⟩

theorem operandsFit_transferMove
    (hbyte : direction = .store → size.isByte = true → reg.byteAddressable = true) :
    (Synthesis.transferMove direction size a reg).OperandsFit := by
  by_cases h : direction = .store ∧ size.isByte = true
  · obtain ⟨rfl, hsize⟩ := h
    have hreg := hbyte rfl hsize
    cases ha : a.isArray with
    | false =>
        rw [Synthesis.transferMove_plain ha]
        cases size with
        | signedByte | unsignedByte => exact hreg
        | _ => exact nomatch hsize
    | true =>
        rw [Synthesis.transferMove_array ha]
        cases size with
        | signedByte | unsignedByte => exact hreg
        | _ => exact nomatch hsize
  · have hother : direction = .store → size.isByte = false := by
      intro hstore
      simpa [hstore] using h
    unfold Synthesis.transferMove
    split
    · exact (operandsFit_transferOpcodes hother _).2
    · exact (operandsFit_transferOpcodes hother _).1

/-- A byte is stored from a register that passed the check. -/
theorem Transfer.Admitted.byteAddressable {t : Transfer} (h : t.Admitted)
    {part : Address × Reg} (hpart : part ∈ t.parts) (hstore : t.direction = .store)
    (hbyte : t.size.isByte = true) : part.2.byteAddressable = true := by
  have hnarrow : t.size.isWide = false := by
    cases hsize : t.size <;> simp [hsize, AccessSize.isByte, AccessSize.isWide] at hbyte ⊢
  rw [Transfer.parts_of_whole (Transfer.isSplit_of_narrow hnarrow), List.mem_singleton] at hpart
  rw [hpart, Transfer.whole_of_narrow hnarrow]
  exact h.byte hstore hbyte

/-- **The moves of an admitted transfer are well-formed.** -/
theorem Transfer.Admitted.wellFormed {t : Transfer} (h : t.Admitted) {part : Address × Reg}
    (hpart : part ∈ t.parts) :
    (Synthesis.transferMove t.direction t.size part.1 part.2).WellFormed := by
  obtain ⟨-, -, hscale⟩ := Transfer.address_of_mem_parts hpart
  refine .of_emitted laidOut_transferMove (operandsFit_transferMove ?_)
    (addressFits_transferMove ?_)
  · exact h.byteAddressable hpart
  · rw [hscale]
    exact h.scale

end Memory

/-! ## §4. Requests and runs. -/

/-- Whatever is asked, nothing ill-formed is appended. -/
theorem Request.asks_wellFormed (q : Request) :
    q.synthesis.Asks (Demand.appends Instruction.WellFormed) := by
  refine q.asks_appends ?_ ?_ ?_
  · exact fun i h => h.wellFormed
  · exact fun op opcode dest base disp h => wellFormed_memory dest base disp h
  · exact fun t h part hpart => h.wellFormed hpart

/-- **THE STREAM IS WELL-FORMED.**  After any run of requests, met or not, on
any session, a record is well-formed unless it stood ill-formed at its place
before the run.  On a fresh session nothing did. -/
theorem stream_wellFormed (s : Session) (qs : List Request) (n : Nat) (r : Record)
    (hr : (s.afterRequests qs).records[n]? = some r)
    (hs : ∀ r₀, s.records[n]? = some r₀ → r₀.WellFormed) : r.WellFormed := by
  have hbefore : s.HoldsAt Instruction.WellFormed n := hs
  exact hbefore.afterRequests Instruction.retargetable_wellFormed Request.asks_wellFormed qs r hr

/-- An array element's byte is stored after a request that stopped half way. -/
theorem stream_wellFormed_element :
    ((Session.new []).afterRequests
        [.constantPair (.gp .eax) (.double 0) 1 2, .binary .widenByte (.gp .eax) (.gp .esi),
          .transfer { direction := .store, base := .gp .esi, index := .gp .edi, scale := 2,
                      disp := -1, lo := .gp .ebx, size := .signedByte }]).records[4]? =
      some { opcode := .mov8AR, offset := 0,
             operands := [.reg (.gp .esi), .reg (.gp .edi), .imm 2, .imm (-1), .reg (.gp .ebx)] } ∧
    Instruction.WellFormed
      { opcode := .mov8AR
        operands := [.reg (.gp .esi), .reg (.gp .edi), .imm 2, .imm (-1), .reg (.gp .ebx)] } := by
  refine ⟨?there, stream_wellFormed (Session.new []) _ 4 _ ?there fun _ h => nomatch h⟩
  decide

end TwoAddress
