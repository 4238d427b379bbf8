/-
  TwoAddress.Proofs.AddressComputation
  ────────────────────────────────────
  **WHICH COMPUTED ADDRESSES CAN BE ENCODED.**

  An addition into a third register is an address computation, and its
  operands have to fit the encoding of addresses: the stack pointer cannot be
  an index, and `ebp` cannot be a base without a displacement.  Two
  synthesizers compute addresses.  The sum of two registers keeps `ebp` out of
  the base and does not look at the stack pointer; the sum of a register and a
  constant looks at neither.

    • §1 what an address computation was asked to compute;
    • §2 the requests whose address cannot be encoded;
    • §3 hence, over whole runs, exactly when a computed address can be.
-/
import TwoAddress.Proofs.WellFormed

namespace TwoAddress

/-! ## §1. Computed addresses. -/

/-- If the instruction computes an address, it is the given one. -/
def Instruction.ComputesOnly (address? : Option Address) (i : Instruction) : Prop :=
  i.opcode = .lea32RA →
    ∃ a, address? = some a ∧ i.regAt 1 = a.base ∧ i.regAt 2 = a.index ∧ i.immAt 4 = a.disp

theorem operands_copy {dest src : Reg} {i : Instruction}
    (h : Synthesis.copyInstruction dest src = .ok i) : i.operands = [.reg dest, .reg src] := by
  unfold Synthesis.copyInstruction at h
  split at h
  · exact nomatch h
  · split at h
    · injection h with h
      rw [← h]
    · exact nomatch h

/-- Of the instructions that work in registers, only address computations have
five operands. -/
theorem WorksInRegisters.computes_of_slot {addresses : Address → Prop} {i : Instruction}
    (h : WorksInRegisters addresses i) (hslot : i.slot 4 ≠ .none) :
    ∃ a, addresses a ∧ i.regAt 1 = a.base ∧ i.regAt 2 = a.index ∧ i.immAt 4 = a.disp := by
  cases h with
  | lea dest ha => exact ⟨_, ha, rfl, rfl, rfl⟩
  | copy h =>
      refine absurd ?_ hslot
      rw [Instruction.slot, operands_copy h]
      rfl
  | _ => exact absurd rfl hslot

theorem WorksInRegisters.computesOnly {address? : Option Address} {i : Instruction}
    (h : WorksInRegisters (fun a => address? = some a) i) : i.ComputesOnly address? := by
  intro hlea
  -- The opcode has five operands, so all five slots are taken.
  have hkind := h.wellFormed.kinds 4
  rw [hlea] at hkind
  refine h.computes_of_slot fun hnone => ?_
  rw [hnone] at hkind
  exact nomatch hkind (by decide)

theorem memoryOpcode?_ne_lea {op : Operation} {opcode : Opcode}
    (h : Synthesis.memoryOpcode? op = some opcode) : opcode ≠ .lea32RA := by
  revert h
  cases op <;> rintro ⟨⟩ <;> decide

theorem transferMove_ne_lea (direction : Direction) (size : AccessSize) (a : Address) (reg : Reg) :
    (Synthesis.transferMove direction size a reg).opcode ≠ .lea32RA := by
  unfold Synthesis.transferMove
  cases direction <;> cases size <;> cases a.isArray <;> cases hxmm : reg.isXmm <;>
    simp [Synthesis.transferOpcodes, hxmm]

/-- **No request computes an address but its own.** -/
theorem Request.asks_computesOnly (q : Request) :
    q.synthesis.Asks (Demand.appends (Instruction.ComputesOnly q.address?)) := by
  refine q.asks_appends ?_ ?_ ?_
  · exact fun i h => h.computesOnly
  · exact fun op opcode dest base disp h hlea => absurd hlea (memoryOpcode?_ne_lea h)
  · intro t _ part _ hlea
    exact absurd hlea (transferMove_ne_lea t.direction t.size part.1 part.2)

/-! ## §2. Encodable addresses. -/

/-- The address can be encoded: the stack pointer is no index, and `ebp` no base
without a displacement. -/
def Address.Encodable (a : Address) : Prop :=
  a.index ≠ .stackPointer ∧ ¬ (a.base = .gp .ebp ∧ a.disp = 0)

namespace Synthesis

/-- Of two registers, the second becomes the index unless the first is `ebp`. -/
theorem encodable_sumAddress_iff {src1 src2 : Reg} {a : Address}
    (h : sumAddress? src1 src2 = some a) :
    a.Encodable ↔ ¬ (src1 ≠ .gp .ebp ∧ src2 = .stackPointer) := by
  unfold sumAddress? at h
  split at h
  · exact nomatch h
  next hne =>
    split at h
    next hbase =>
      -- `ebp` is the index here, and the other register is the base.
      obtain rfl := Option.some.inj h
      subst hbase
      have hindex : Reg.gp .ebp ≠ .stackPointer := by decide
      exact iff_of_true ⟨hindex, fun hno => hne hno.1.symm⟩ fun hno => hno.1 rfl
    next hbase =>
      obtain rfl := Option.some.inj h
      constructor
      · exact fun hencodable hno => hencodable.1 hno.2
      · exact fun hindex => ⟨fun hno => hindex ⟨hbase, hno⟩, fun hno => hbase hno.1⟩

theorem encodable_ternaryImmAddress_iff {op : Operation} {dest src : Reg} {value : Word}
    {a : Address} (h : ternaryImmAddress? op dest src value = some a) :
    a.Encodable ↔ ¬ (src = .gp .ebp ∧ value = 0) := by
  unfold ternaryImmAddress? at h
  split at h
  · obtain rfl := Option.some.inj h
    have hindex : Reg.absent ≠ .stackPointer := by decide
    exact ⟨fun hencodable => hencodable.2, fun hbase => ⟨hindex, hbase⟩⟩
  · exact nomatch h

end Synthesis

namespace Request

/-- The request adds the stack pointer as a second register, or nothing to `ebp`. -/
def Misencoded (q : Request) : Prop :=
  (∃ dest src1, src1 ≠ .gp .ebp ∧ q = .ternary .add dest src1 .stackPointer) ∨
    ∃ dest, q = .ternaryImm .add dest (.gp .ebp) 0

theorem encodable_address_iff {q : Request} {a : Address} (h : q.address? = some a) :
    a.Encodable ↔ ¬ q.Misencoded := by
  cases q with
  | ternary op dest src1 src2 =>
      replace h : Synthesis.ternaryAddress? op dest src1 src2 = some a := h
      unfold Synthesis.ternaryAddress? at h
      split at h
      next hadd =>
        obtain ⟨rfl, -, -⟩ := hadd
        rw [Synthesis.encodable_sumAddress_iff h]
        refine not_congr ⟨fun hno => .inl ⟨dest, src1, hno.1, by rw [hno.2]⟩, ?_⟩
        rintro (⟨_, _, hne, hq⟩ | ⟨_, hq⟩)
        · injection hq with _ _ hsrc1 hsrc2
          exact ⟨hsrc1 ▸ hne, hsrc2⟩
        · exact nomatch hq
      next => exact nomatch h
  | ternaryImm op dest src value =>
      have hadd : op = .add := by
        replace h : Synthesis.ternaryImmAddress? op dest src value = some a := h
        unfold Synthesis.ternaryImmAddress? at h
        split at h
        next hadd => exact hadd.1
        next => exact nomatch h
      subst hadd
      rw [Synthesis.encodable_ternaryImmAddress_iff h]
      refine not_congr ⟨fun hno => .inr ⟨dest, by rw [hno.1, hno.2]⟩, ?_⟩
      rintro (⟨_, _, _, hq⟩ | ⟨_, hq⟩)
      · exact nomatch hq
      · injection hq with _ _ hsrc hvalue
        exact ⟨hsrc, hvalue⟩
  | _ => exact nomatch h

end Request

/-! ## §3. Runs. -/

/-- **WHICH COMPUTED ADDRESSES CAN BE ENCODED.**  In any run of requests, met or
not, on any session, the address that a record computes can be encoded exactly
when the request that appended it adds neither the stack pointer, as the
second of two registers of which the first is not `ebp`, nor zero to `ebp`. -/
theorem computed_address_encodable_iff (s : Session) (qs : List Request) (n : Nat) (r : Record)
    (hfrom : s.records.length ≤ n) (hr : (s.afterRequests qs).records[n]? = some r)
    (hlea : r.opcode = .lea32RA) :
    (r.regAt 2 ≠ .stackPointer ∧ ¬ (r.regAt 1 = .gp .ebp ∧ r.immAt 4 = 0)) ↔
      ¬ ((∃ dest src1, src1 ≠ .gp .ebp ∧
            s.AppendedBy qs n (.ternary .add dest src1 .stackPointer)) ∨
          ∃ dest, s.AppendedBy qs n (.ternaryImm .add dest (.gp .ebp) 0)) := by
  obtain ⟨q, hq⟩ := Session.exists_appendedBy hfrom (List.getElem?_eq_some_iff.mp hr).1
  obtain ⟨a, ha, hbase, hindex, hdisp⟩ :=
    hq.holdsAt (fun _ _ h => h) q.asks_computesOnly r hr hlea
  rw [hbase, hindex, hdisp]
  refine (Request.encodable_address_iff ha).trans (not_congr ?_)
  -- One request appended the record, so the right-hand side is about that one.
  constructor
  · rintro (⟨dest, src1, hne, rfl⟩ | ⟨dest, rfl⟩)
    · exact .inl ⟨dest, src1, hne, hq⟩
    · exact .inr ⟨dest, hq⟩
  · rintro (⟨dest, src1, hne, hq'⟩ | ⟨dest, hq'⟩)
    · exact .inl ⟨dest, src1, hne, hq.unique hq'⟩
    · exact .inr ⟨dest, hq.unique hq'⟩

/-- With `ebp` first, the stack pointer becomes the base, and all is well. -/
theorem computed_address_encodable_frame :
    ((Reg.gp .ebp ≠ .stackPointer) ∧ ¬ (Reg.stackPointer = .gp .ebp ∧ (0 : Word) = 0)) ↔
      ¬ ((∃ dest src1, src1 ≠ .gp .ebp ∧ (Session.new []).AppendedBy
            [.ternary .add (.gp .eax) (.gp .ebp) .stackPointer] 0
            (.ternary .add dest src1 .stackPointer)) ∨
          ∃ dest, (Session.new []).AppendedBy
            [.ternary .add (.gp .eax) (.gp .ebp) .stackPointer] 0
            (.ternaryImm .add dest (.gp .ebp) 0)) :=
  computed_address_encodable_iff (Session.new [])
    [.ternary .add (.gp .eax) (.gp .ebp) .stackPointer] 0
    { opcode := .lea32RA, offset := 0
      operands := [.reg (.gp .eax), .reg .stackPointer, .reg (.gp .ebp), .imm 0, .imm 0] }
    (by decide) (by decide) rfl

/-- Neither rule holds throughout: the stack pointer gets to be an index, and
`ebp` a base without a displacement. -/
theorem computed_address_not_encodable :
    (¬ ∀ (scratch : List Reg) (qs : List Request) (n : Nat) (r : Record),
      ((Session.new scratch).afterRequests qs).records[n]? = some r → r.opcode = .lea32RA →
      r.regAt 2 ≠ .stackPointer) ∧
    ¬ ∀ (scratch : List Reg) (qs : List Request) (n : Nat) (r : Record),
      ((Session.new scratch).afterRequests qs).records[n]? = some r → r.opcode = .lea32RA →
      ¬ (r.regAt 1 = .gp .ebp ∧ r.immAt 4 = 0) := by
  constructor
  · intro h
    refine h Session.defaultScratch [.ternary .add (.gp .eax) (.gp .ecx) .stackPointer] 0
      { opcode := .lea32RA, offset := 0
        operands := [.reg (.gp .eax), .reg (.gp .ecx), .reg .stackPointer, .imm 0, .imm 0] }
      (by decide) rfl rfl
  · intro h
    refine h Session.defaultScratch [.ternaryImm .add (.gp .eax) (.gp .ebp) 0] 0
      { opcode := .lea32RA, offset := 0
        operands := [.reg (.gp .eax), .reg (.gp .ebp), .reg .absent, .imm 0, .imm 0] }
      (by decide) rfl ⟨rfl, rfl⟩

end TwoAddress
