/-
  TwoAddress.Proofs.Demands
  ─────────────────────────
  **WHAT THE SYNTHESIZERS ASK FOR.**

  The rules of a protocol often turn on nothing but the kind of request: it
  is not about scratch registers, it appends no access to memory.  This file
  goes through the synthesizers once and says of each which requests it can
  make, whatever it is answered.

    • §1 `Asks P`: every request of a dialogue satisfies `P`.  If a protocol
      admits all of `P` in some state, the dialogue keeps to it (`Asks.follows`);
    • §2 the instructions of the synthesizers that work in registers;
    • §3 the two ways in which a scratch register is used, as `withScratch`;
    • §4 the synthesizers that work in registers, one lemma each;
    • §5 transfers and memory operands;
    • §6 whole requests.
-/
import TwoAddress.Proofs.Protocol

namespace TwoAddress

/-! ## §1. Demands. -/

/-- A single request of a dialogue, apart from what is made of the answer. -/
inductive Demand where
  | append (i : Instruction)
  | retarget (id : RecordId) (target : Option RecordId)
  | borrow (exclude : List Reg)
  | release (r : Reg)
  | annotate (id : RecordId) (access : SlotAccess)
  | note (n : Note)

/-- The rules admit the request in state `t`, and it leaves the state alone. -/
def Protocol.Admits {τ : Type} (Φ : Protocol τ) (t : τ) : Demand → Prop
  | .append i => ∀ K, (∀ id, K id t) → Φ.append i t K
  | .retarget id target => ∀ K, K t → Φ.retarget id target t K
  | .borrow exclude => ∀ K, (∀ r, K r t) → Φ.borrow exclude t K
  | .release r => ∀ K, K t → Φ.release r t K
  | .annotate id access => ∀ K, K t → Φ.annotate id access t K
  | .note n => ∀ K, K t → Φ.note n t K

namespace Synthesis

variable {α β τ : Type} {P P' : Demand → Prop}

/-- Whatever the answers, every request of the dialogue satisfies `P`. -/
def Asks (P : Demand → Prop) : Synthesis α → Prop
  | done _ | fail _ => True
  | append i next => P (.append i) ∧ ∀ id, (next id).Asks P
  | retarget id target next => P (.retarget id target) ∧ next.Asks P
  | borrow exclude next => P (.borrow exclude) ∧ ∀ r, (next r).Asks P
  | release r next => P (.release r) ∧ next.Asks P
  | annotate id access next => P (.annotate id access) ∧ next.Asks P
  | note n next => P (.note n) ∧ next.Asks P

theorem Asks.bind {x : Synthesis α} {k : α → Synthesis β} (hx : x.Asks P)
    (hk : ∀ a, (k a).Asks P) : (x >>= k).Asks P := by
  induction x with
  | done a => exact hk a
  | fail f => trivial
  | append i next ih => exact ⟨hx.1, fun id => ih id (hx.2 id)⟩
  | retarget id target next ih => exact ⟨hx.1, ih hx.2⟩
  | borrow exclude next ih => exact ⟨hx.1, fun r => ih r (hx.2 r)⟩
  | release r next ih => exact ⟨hx.1, ih hx.2⟩
  | annotate id access next ih => exact ⟨hx.1, ih hx.2⟩
  | note n next ih => exact ⟨hx.1, ih hx.2⟩

theorem asks_of_forall (h : ∀ d, P d) (x : Synthesis α) : x.Asks P := by
  induction x with
  | done a => trivial
  | fail f => trivial
  | append i next ih => exact ⟨h _, ih⟩
  | retarget id target next ih => exact ⟨h _, ih⟩
  | borrow exclude next ih => exact ⟨h _, ih⟩
  | release r next ih => exact ⟨h _, ih⟩
  | annotate id access next ih => exact ⟨h _, ih⟩
  | note n next ih => exact ⟨h _, ih⟩

/-- **Requests that are admitted one by one are admitted in sequence.** -/
theorem Asks.follows {Φ : Protocol τ} {t : τ} {x : Synthesis α} {Q : α → τ → Prop}
    (hx : x.Asks P) (hadmits : ∀ d, P d → Φ.Admits t d) (hstop : ∀ f, Φ.stop f t)
    (hQ : ∀ a, Q a t) : x.Follows Φ t Q := by
  induction x with
  | done a => exact hQ a
  | fail f => exact hstop f
  | append i next ih => exact hadmits _ hx.1 _ fun id => ih id (hx.2 id)
  | retarget id target next ih => exact hadmits _ hx.1 _ (ih hx.2)
  | borrow exclude next ih => exact hadmits _ hx.1 _ fun r => ih r (hx.2 r)
  | release r next ih => exact hadmits _ hx.1 _ (ih hx.2)
  | annotate id access next ih => exact hadmits _ hx.1 _ (ih hx.2)
  | note n next ih => exact hadmits _ hx.1 _ (ih hx.2)

/-- A check asks for nothing, but may stop the dialogue. -/
theorem Asks.follows_then {Φ : Protocol τ} {t : τ} {x : Synthesis α} {k : α → Synthesis β}
    {Q : β → τ → Prop} (hx : x.Asks fun _ => False) (hstop : ∀ f, Φ.stop f t)
    (hk : ∀ a, (k a).Follows Φ t Q) : (x >>= k).Follows Φ t Q :=
  Follows.seq (hx.follows (fun _ h => h.elim) hstop hk)

theorem asks_emit {op : Opcode} {operands : List Operand}
    (h : P (.append { opcode := op, operands })) : (emit op operands).Asks P :=
  ⟨h, fun _ => trivial⟩

theorem asks_remark {n : Note} (h : P (.note n)) : (remark n).Asks P := ⟨h, trivial⟩

theorem asks_ofExcept (e : Except Fault α) : (ofExcept e).Asks P := by
  cases e <;> trivial

theorem asks_require (condition : Bool) (f : Fault) : (require condition f).Asks P := by
  cases condition <;> trivial

end Synthesis

/-! ## §2. Instructions that work in registers. -/

/-- The instructions of all synthesizers but transfers and memory operands.  Of
addresses, only the given ones are computed. -/
inductive WorksInRegisters (addresses : Address → Prop) : Instruction → Prop where
  | copy {dest src : Reg} {i : Instruction} (h : Synthesis.copyInstruction dest src = .ok i) :
      WorksInRegisters addresses i
  | constant (dest : Reg) {value : Word} (h : value ≠ 0) :
      WorksInRegisters addresses { opcode := .mov32RI, operands := [.reg dest, .imm value] }
  | unary {opcode : Opcode} (dest : Reg) (h : opcode ∈ [.neg32R, .not32R, .callR]) :
      WorksInRegisters addresses { opcode, operands := [.reg dest] }
  | immediate (op : Operation) {opcode : Opcode} (dest : Reg) {value : Word}
      (h : Synthesis.immediateOpcode? op value.fitsByte = some opcode) :
      WorksInRegisters addresses { opcode, operands := [.reg dest, .imm value] }
  | multiply (dest src : Reg) (value : Word) :
      WorksInRegisters addresses
        { opcode := if value.fitsByte then .imul32RRI8 else .imul32RRI
          operands := [.reg dest, .reg src, .imm value] }
  | register (op : Operation) {opcode : Opcode} (dest src : Reg)
      (h : Synthesis.registerOpcode? op = some opcode) :
      WorksInRegisters addresses { opcode, operands := [.reg dest, .reg src] }
  | shift (op : Operation) {opcode : Opcode} (dest : Reg)
      (h : Synthesis.shiftOpcode? op = some opcode) :
      WorksInRegisters addresses { opcode, operands := [.reg dest, .reg .counter] }
  | extendByte {opcode : Opcode} (dest : Reg) {src : Reg} (h : opcode ∈ [.movsx8RR, .movzx8RR])
      (hsrc : src.byteAddressable = true) :
      WorksInRegisters addresses { opcode, operands := [.reg dest, .reg src] }
  | lea (dest : Reg) {a : Address} (h : addresses a) :
      WorksInRegisters addresses
        { opcode := .lea32RA
          operands := [.reg dest, .reg a.base, .reg a.index, .imm 0, .imm a.disp] }
  | packed {opcode : Opcode} (dest src : Reg) (h : opcode ∈ [.xorpsRR, .orpsRR, .movdxrRR]) :
      WorksInRegisters addresses { opcode, operands := [.reg dest, .reg src] }
  | packHigh (dest : Reg) :
      WorksInRegisters addresses { opcode := .psllqRI, operands := [.reg dest, .imm 32] }
  | callMem (base : Reg) (disp : Word) :
      WorksInRegisters addresses { opcode := .callM, operands := [.reg base, .imm disp] }
  | callThread (offset : Word) :
      WorksInRegisters addresses { opcode := .callT, operands := [.imm offset] }
  | jump : WorksInRegisters addresses { opcode := .jmp8, operands := [.imm 0] }
  | jumpIf (field : CcField) :
      WorksInRegisters addresses
        { opcode := .jcc8
          operands := [.imm 0, .imm (BitVec.ofNat 32 field.encoding.val)] }

/-- The requests of those synthesizers: instructions that work in registers,
no frame slots, and scratch registers only if allowed. -/
def Demand.registerWork (scratch : Prop) (addresses : Address → Prop) : Demand → Prop
  | append i => WorksInRegisters addresses i
  | retarget _ _ | note _ => True
  | borrow _ | release _ => scratch
  | annotate _ _ => False

/-- Work in registers that computes any addresses. -/
abbrev InRegisters : Instruction → Prop := WorksInRegisters fun _ => True

/-- The same as requests. -/
abbrev Demand.ordinary (scratch : Prop) : Demand → Prop := registerWork scratch fun _ => True

/-- No scratch register is asked for or given back. -/
def Demand.scratchless : Demand → Prop
  | borrow _ | release _ => False
  | _ => True

theorem Demand.scratchless_of_ordinary {d : Demand} {scratch : Prop}
    {addresses : Address → Prop} (hno : ¬ scratch) (h : d.registerWork scratch addresses) :
    d.scratchless := by
  cases d with
  | borrow exclude => exact hno h
  | release r => exact hno h
  | _ => trivial

namespace Synthesis

variable {α β : Type} {P : Demand → Prop} {scratch : Prop} {addresses : Address → Prop}

theorem Asks.mono {P' : Demand → Prop} {x : Synthesis α} (hP : ∀ d, P d → P' d)
    (hx : x.Asks P) : x.Asks P' := by
  induction x with
  | done a => trivial
  | fail f => trivial
  | append i next ih => exact ⟨hP _ hx.1, fun id => ih id (hx.2 id)⟩
  | retarget id target next ih => exact ⟨hP _ hx.1, ih hx.2⟩
  | borrow exclude next ih => exact ⟨hP _ hx.1, fun r => ih r (hx.2 r)⟩
  | release r next ih => exact ⟨hP _ hx.1, ih hx.2⟩
  | annotate id access next ih => exact ⟨hP _ hx.1, ih hx.2⟩
  | note n next ih => exact ⟨hP _ hx.1, ih hx.2⟩

theorem Asks.and {P' : Demand → Prop} {x : Synthesis α} (hx : x.Asks P) (hx' : x.Asks P') :
    x.Asks fun d => P d ∧ P' d := by
  induction x with
  | done a => trivial
  | fail f => trivial
  | append i next ih => exact ⟨⟨hx.1, hx'.1⟩, fun id => ih id (hx.2 id) (hx'.2 id)⟩
  | retarget id target next ih => exact ⟨⟨hx.1, hx'.1⟩, ih hx.2 hx'.2⟩
  | borrow exclude next ih => exact ⟨⟨hx.1, hx'.1⟩, fun r => ih r (hx.2 r) (hx'.2 r)⟩
  | release r next ih => exact ⟨⟨hx.1, hx'.1⟩, ih hx.2 hx'.2⟩
  | annotate id access next ih => exact ⟨⟨hx.1, hx'.1⟩, ih hx.2 hx'.2⟩
  | note n next ih => exact ⟨⟨hx.1, hx'.1⟩, ih hx.2 hx'.2⟩

/-! ## §3. Scratch registers in use. -/

/-- Borrow a register for the time of a dialogue. -/
def withScratch (exclude : List Reg) (body : Reg → Synthesis α) : Synthesis α := do
  let scratch ← borrowScratch exclude
  let a ← body scratch
  releaseScratch scratch
  return a

/-- A constant for an xmm register, made in a general-purpose one. -/
def viaScratch (dest : Reg) (value : Word) (scratch : Reg) : Synthesis RecordId := do
  let id ← gpConstant scratch value
  let _ ← emit .movdxrRR [.reg dest, .reg scratch]
  return id

/-- `dest = src1 op src2`, computed in another register. -/
def inScratch (op : Operation) (dest src1 src2 scratch : Reg) : Synthesis RecordId := do
  let operands := [dest, src1, src2]
  require (!operands.contains scratch) (.scratchAliases scratch)
  remark (.throughScratch dest src1 op scratch)
  let _ ← copy scratch src1
  let _ ← binary op scratch src2
  copy dest scratch

/-- A nonzero constant for an xmm register borrows, and excludes that register. -/
theorem constant_eq_withScratch {dest : Reg} {value : Word} (hxmm : dest.isXmm = true)
    (hvalue : value ≠ 0) :
    constant dest value = (do
      require dest.isSingle (.constantInDouble dest)
      withScratch [dest] (viaScratch dest value)) := by
  rw [constant, if_pos hxmm, if_neg hvalue]
  simp only [withScratch, viaScratch, seq_assoc]
  rfl

theorem throughScratch_eq_withScratch (op : Operation) (dest src1 src2 : Reg) :
    throughScratch op dest src1 src2 =
      withScratch [dest, src1, src2] (inScratch op dest src1 src2) := by
  simp only [withScratch, inScratch, seq_assoc]
  rfl

theorem asks_withScratch (hscratch : scratch) {exclude : List Reg} {body : Reg → Synthesis α}
    (hbody : ∀ r, (body r).Asks (Demand.registerWork scratch addresses)) :
    (withScratch exclude body).Asks (Demand.registerWork scratch addresses) :=
  Asks.bind ⟨hscratch, fun _ => trivial⟩ fun r => (hbody r).bind fun _ => ⟨hscratch, trivial⟩

/-! ## §4. Synthesizers that work in registers. -/

theorem asks_copy (dest src : Reg) : (copy dest src).Asks (Demand.registerWork scratch addresses) := by
  unfold copy
  cases h : copyInstruction dest src with
  | error f => trivial
  | ok i => exact ⟨.copy h, fun _ => trivial⟩

theorem asks_gpConstant (dest : Reg) (value : Word) :
    (gpConstant dest value).Asks (Demand.registerWork scratch addresses) := by
  unfold gpConstant
  split
  next => exact asks_emit (.register .xor dest dest rfl)
  next h => exact asks_emit (.constant dest h)

theorem asks_viaScratch (dest : Reg) (value : Word) (r : Reg) :
    (viaScratch dest value r).Asks (Demand.registerWork scratch addresses) :=
  (asks_gpConstant r value).bind fun _ =>
    (asks_emit (.packed dest r (by decide))).bind fun _ => trivial

theorem asks_clearXmm (dest : Reg) : (clearXmm dest).Asks (Demand.registerWork scratch addresses) :=
  asks_emit (.packed dest dest (by decide))

theorem asks_unary (op : Operation) (dest : Reg) :
    (unary op dest).Asks (Demand.registerWork scratch addresses) := by
  unfold unary
  split
  · exact asks_emit (.unary dest (by decide))
  · exact asks_emit (.unary dest (by decide))
  · exact asks_emit (.unary dest (by decide))
  · trivial

theorem asks_multiplyImm (dest src : Reg) (value : Word) :
    (multiplyImm dest src value).Asks (Demand.registerWork scratch addresses) :=
  asks_emit (.multiply dest src value)

/-- Only a nonzero constant in an xmm register needs a scratch register. -/
theorem asks_constant {dest : Reg} {value : Word} (h : scratch ∨ dest.isXmm = false ∨ value = 0) :
    (constant dest value).Asks (Demand.registerWork scratch addresses) := by
  cases hx : dest.isXmm with
  | false =>
      rw [constant, if_neg (by simp [hx])]
      exact asks_gpConstant dest value
  | true =>
      by_cases hvalue : value = 0
      · rw [constant, if_pos hx, if_pos hvalue]
        exact asks_clearXmm dest
      · -- Neither exception applies, so scratch registers are allowed.
        have hscratch : scratch := h.resolve_right fun hno =>
          hno.elim (fun hfalse => absurd hx (by simp [hfalse])) hvalue
        rw [constant_eq_withScratch hx hvalue]
        exact (asks_require _ _).bind fun _ =>
          asks_withScratch hscratch fun r => asks_viaScratch dest value r

/-- What follows the low half of a 64-bit constant in xmm registers. -/
def withHighHalf (lo hi : Reg) (valueHi : Word) (id : RecordId) : Synthesis RecordId := do
  if valueHi ≠ 0 then
    let _ ← constant hi valueHi
    let _ ← emit .psllqRI [.reg hi, .imm 32]
    let _ ← emit .orpsRR [.reg lo, .reg hi]
  return id

theorem constantPair_of_xmm {lo : Reg} (hlo : lo.isXmm = true) (hi : Reg)
    (valueLo valueHi : Word) :
    constantPair lo hi valueLo valueHi = (do
      require hi.isXmm (.wideHighHalf hi)
      let id ← constant lo valueLo
      withHighHalf lo hi valueHi id) := by
  have hzero : (if valueLo = 0 then clearXmm lo else constant lo valueLo) =
      constant lo valueLo := by
    split
    next h => rw [h, constant, if_pos hlo, if_pos rfl]
    next => rfl
  rw [constantPair, if_pos hlo]
  by_cases h : valueLo = 0
  · rw [if_pos h] at hzero ⊢
    rw [hzero]
    rfl
  · rw [if_neg h]
    rfl

theorem constantPair_of_gp {lo : Reg} (hlo : lo.isXmm = false) (hi : Reg)
    (valueLo valueHi : Word) :
    constantPair lo hi valueLo valueHi = (do
      let id ← constant lo valueLo
      let _ ← constant hi valueHi
      return id) := by
  rw [constantPair, if_neg (by simp [hlo])]

theorem asks_withHighHalf (hscratch : scratch) (lo hi : Reg) (valueHi : Word) (id : RecordId) :
    (withHighHalf lo hi valueHi id).Asks (Demand.registerWork scratch addresses) := by
  unfold withHighHalf
  split
  · refine (asks_constant (.inl hscratch)).bind fun _ => ?_
    exact ⟨.packHigh hi, fun _ => ⟨.packed lo hi (by decide), fun _ => trivial⟩⟩
  · trivial

theorem asks_constantPair (hscratch : scratch) (lo hi : Reg) (valueLo valueHi : Word) :
    (constantPair lo hi valueLo valueHi).Asks (Demand.registerWork scratch addresses) := by
  cases hlo : lo.isXmm with
  | true =>
      rw [constantPair_of_xmm hlo]
      exact (asks_require _ _).bind fun _ =>
        (asks_constant (.inl hscratch)).bind fun id => asks_withHighHalf hscratch lo hi valueHi id
  | false =>
      rw [constantPair_of_gp hlo]
      exact (asks_constant (.inl hscratch)).bind fun _ =>
        (asks_constant (.inl hscratch)).bind fun _ => trivial

theorem asks_binaryImm (op : Operation) (dest : Reg) (value : Word) :
    (binaryImm op dest value).Asks (Demand.registerWork scratch addresses) := by
  unfold binaryImm
  cases hx : dest.isXmm with
  | true => trivial
  | false =>
      refine (asks_require _ _).bind fun _ => ?_
      split
      · exact asks_constant (.inr (.inl hx))
      · exact asks_multiplyImm dest dest value
      · split
        next h => exact asks_emit (.immediate op dest h)
        next => trivial

theorem asks_widenByte (dest src : Reg) :
    (widenByte dest src).Asks (Demand.registerWork scratch addresses) := by
  unfold widenByte
  split
  next h => exact asks_emit (.extendByte dest (by decide) h)
  next =>
    refine (asks_emit (.register .mov dest src rfl)).bind fun _ => ?_
    refine (asks_emit (.immediate .lsl dest rfl)).bind fun _ => ?_
    exact asks_emit (.immediate .asr dest rfl)

theorem asks_binary (op : Operation) (dest src : Reg) :
    (binary op dest src).Asks (Demand.registerWork scratch addresses) := by
  unfold binary
  split
  · exact (asks_copy dest src).bind fun _ => asks_unary _ dest
  · exact (asks_copy dest src).bind fun _ => asks_unary _ dest
  · exact asks_widenByte dest src
  · split
    next h =>
      split
      next hsrc =>
        subst hsrc
        exact asks_emit (.shift op dest h)
      next => trivial
    next =>
      split
      next h => exact asks_emit (.register op dest src h)
      next => trivial

theorem asks_lea (dest : Reg) {base index : Reg} {disp : Word}
    (h : addresses { base, index, disp }) :
    (lea dest base index disp).Asks (Demand.registerWork scratch addresses) :=
  asks_emit (.lea dest h)

/-- The address that is the sum of two registers, unless they are one. -/
def sumAddress? (src1 src2 : Reg) : Option Address :=
  if src1 = src2 then none
  else if src1 = .gp .ebp then some { base := src2, index := src1, disp := 0 }
  else some { base := src1, index := src2, disp := 0 }

theorem asks_addApart (dest : Reg) {src1 src2 : Reg}
    (h : ∀ a, sumAddress? src1 src2 = some a → addresses a) :
    (addApart dest src1 src2).Asks (Demand.registerWork scratch addresses) := by
  unfold addApart
  unfold sumAddress? at h
  split
  · refine (asks_remark trivial).bind fun _ => (asks_copy dest src1).bind fun _ => ?_
    exact asks_binaryImm .lsl dest 1
  next hne =>
    rw [if_neg hne] at h
    refine (asks_remark trivial).bind fun _ => ?_
    split
    next hbase => exact asks_lea dest (h _ (if_pos hbase))
    next hbase => exact asks_lea dest (h _ (if_neg hbase))

theorem asks_copyThenImm (op : Operation) (dest src : Reg) (value : Word) :
    (copyThenImm op dest src value).Asks (Demand.registerWork scratch addresses) := by
  unfold copyThenImm
  split
  · exact asks_binaryImm op dest value
  · exact (asks_copy dest src).bind fun _ => asks_binaryImm op dest value

/-- The address that the addition of a constant computes, if it computes one. -/
def ternaryImmAddress? (op : Operation) (dest src : Reg) (value : Word) : Option Address :=
  if op = .add ∧ dest ≠ src then some { base := src, disp := value } else none

theorem asks_ternaryImm {op : Operation} {dest src : Reg} {value : Word}
    (h : ∀ a, ternaryImmAddress? op dest src value = some a → addresses a) :
    (ternaryImm op dest src value).Asks (Demand.registerWork scratch addresses) := by
  unfold ternaryImm
  split
  · exact asks_multiplyImm dest src value
  · split
    next h =>
      exact (asks_remark trivial).bind fun _ => asks_emit (.extendByte dest (by decide) h.2)
    next =>
      split
      · exact (asks_remark trivial).bind fun _ =>
          asks_emit (.register .widenChar dest src rfl)
      · exact asks_copyThenImm .and dest src value
  · split
    · exact asks_binaryImm .add dest value
    next hne =>
      exact (asks_remark trivial).bind fun _ => asks_lea dest (h _ (if_pos ⟨rfl, hne⟩))
  · exact asks_copyThenImm op dest src value

theorem asks_inScratch (op : Operation) (dest src1 src2 r : Reg) :
    (inScratch op dest src1 src2 r).Asks (Demand.registerWork scratch addresses) :=
  (asks_require _ _).bind fun _ => (asks_remark trivial).bind fun _ =>
    (asks_copy r src1).bind fun _ => (asks_binary op r src2).bind fun _ => asks_copy dest r

/-- Arithmetic goes through a scratch register or needs none. -/
theorem intoSecond_cases (op : Operation) (dest src1 src2 : Reg) :
    (intoSecond op dest src1 src2).Asks (Demand.registerWork scratch addresses) ∨
      intoSecond op dest src1 src2 = throughScratch op dest src1 src2 := by
  unfold intoSecond
  split
  · exact .inl (asks_binary op dest src1)
  · split
    case h_1 =>
      exact .inl ((asks_remark trivial).bind fun _ =>
        (asks_unary _ _).bind fun _ => asks_binary _ _ _)
    case h_7 => exact .inl trivial
    all_goals exact .inr rfl

/-- The address that an operation on two registers computes, if it computes one. -/
def ternaryAddress? (op : Operation) (dest src1 src2 : Reg) : Option Address :=
  if op = .add ∧ dest ≠ src1 ∧ dest ≠ src2 then sumAddress? src1 src2 else none

theorem ternary_work_or_scratch (op : Operation) (dest src1 src2 : Reg)
    (haddress : ∀ a, ternaryAddress? op dest src1 src2 = some a → addresses a) :
    (ternary op dest src1 src2).Asks (Demand.registerWork scratch addresses) ∨
      ternary op dest src1 src2 = throughScratch op dest src1 src2 := by
  unfold ternary
  split
  · exact .inl (asks_binary op dest src2)
  next hfirst =>
    split
    · exact intoSecond_cases op dest src1 src2
    next hsecond =>
      split
      next hadd =>
        refine .inl (asks_addApart dest fun a ha => haddress a ?_)
        rw [ternaryAddress?, if_pos ⟨hadd, hfirst, hsecond⟩]
        exact ha
      next => exact .inl ((asks_copy dest src1).bind fun _ => asks_binary op dest src2)

theorem ternary_cases (op : Operation) (dest src1 src2 : Reg) :
    (ternary op dest src1 src2).Asks (Demand.ordinary scratch) ∨
      ternary op dest src1 src2 = throughScratch op dest src1 src2 :=
  ternary_work_or_scratch op dest src1 src2 fun _ _ => trivial

theorem asks_ternary (hscratch : scratch) {op : Operation} {dest src1 src2 : Reg}
    (haddress : ∀ a, ternaryAddress? op dest src1 src2 = some a → addresses a) :
    (ternary op dest src1 src2).Asks (Demand.registerWork scratch addresses) := by
  rcases ternary_work_or_scratch op dest src1 src2 haddress with h | h
  · exact h
  · rw [h, throughScratch_eq_withScratch]
    exact asks_withScratch hscratch (asks_inScratch op dest src1 src2)

theorem asks_callMem (op : Operation) (base : Reg) (disp : Word) :
    (callMem op base disp).Asks (Demand.registerWork scratch addresses) := by
  unfold callMem
  split
  · exact asks_emit (.callMem base disp)
  · trivial

theorem asks_callThread (op : Operation) (offset : Word) :
    (callThread op offset).Asks (Demand.registerWork scratch addresses) := by
  unfold callThread
  split
  · exact asks_emit (.callThread offset)
  · trivial

theorem asks_jump (target : Option RecordId) : (jump target).Asks (Demand.registerWork scratch addresses) :=
  ⟨.jump, fun _ => ⟨trivial, trivial⟩⟩

theorem asks_jumpIf (cond : Condition) (target : Option RecordId) :
    (jumpIf cond target).Asks (Demand.registerWork scratch addresses) :=
  (asks_ofExcept _).bind fun field => ⟨.jumpIf field, fun _ => ⟨trivial, trivial⟩⟩

/-! ## §5. Transfers and memory operands. -/

/-- The form of a transfer's move, plain and with an index. -/
theorem form_transferOpcodes (direction : Direction) (size : AccessSize) (reg : Reg) :
    (transferOpcodes direction size reg).1.form =
        (match direction with | .load => .rm | .store => .mr) ∧
      (transferOpcodes direction size reg).2.form =
        (match direction with | .load => .ra | .store => .ar) := by
  cases direction <;> cases size <;> simp only [transferOpcodes] <;> (try split) <;>
    exact ⟨rfl, rfl⟩

theorem effects_transferOpcodes (direction : Direction) (size : AccessSize) (reg : Reg) :
    (transferOpcodes direction size reg).1.effects =
      match direction with | .load => .load | .store => .store := by
  cases direction <;> cases size <;> simp only [transferOpcodes] <;> (try split) <;> rfl

/-- The move of a transfer, as an instruction. -/
def transferMove (direction : Direction) (size : AccessSize) (a : Address) (reg : Reg) :
    Instruction :=
  { opcode := if a.isArray then (transferOpcodes direction size reg).2
      else (transferOpcodes direction size reg).1
    operands := transferOperands direction a reg }

theorem transferMove_plain {direction : Direction} {size : AccessSize} {a : Address} {reg : Reg}
    (ha : a.isArray = false) :
    transferMove direction size a reg =
      { opcode := (transferOpcodes direction size reg).1
        operands :=
          match direction with
          | .load => [.reg reg, .reg a.base, .imm a.disp]
          | .store => [.reg a.base, .imm a.disp, .reg reg] } := by
  cases direction <;> simp [transferMove, transferOperands, ha]

theorem transferMove_array {direction : Direction} {size : AccessSize} {a : Address} {reg : Reg}
    (ha : a.isArray = true) :
    transferMove direction size a reg =
      { opcode := (transferOpcodes direction size reg).2
        operands :=
          match direction with
          | .load =>
              [.reg reg, .reg a.base, .reg a.index, .imm (BitVec.ofNat 32 a.scale.toNat),
                .imm a.disp]
          | .store =>
              [.reg a.base, .reg a.index, .imm (BitVec.ofNat 32 a.scale.toNat), .imm a.disp,
                .reg reg] } := by
  cases direction <;> simp [transferMove, transferOperands, ha]

theorem emitTransfer_eq (direction : Direction) (size : AccessSize) (a : Address) (reg : Reg) :
    emitTransfer direction size a reg =
      append (transferMove direction size a reg) fun id =>
        if a.base = .stackPointer ∧ !a.isArray then
          annotate id (frameSlot direction size a.disp) (done id)
        else done id := rfl

theorem asks_emitTransfer (direction : Direction) (size : AccessSize) (a : Address) (reg : Reg) :
    (emitTransfer direction size a reg).Asks Demand.scratchless := by
  rw [emitTransfer_eq]
  refine ⟨trivial, fun id => ?_⟩
  split
  · exact ⟨trivial, trivial⟩
  · trivial

theorem asks_splitTransfer (direction : Direction) (size : AccessSize) (a : Address)
    (lo hi : Reg) : (splitTransfer direction size a lo hi).Asks Demand.scratchless := by
  unfold splitTransfer
  split
  · trivial
  · split
    · exact (asks_remark trivial).bind fun _ =>
        (asks_emitTransfer _ _ _ _).bind fun _ => asks_emitTransfer _ _ _ _
    · exact (asks_emitTransfer _ _ _ _).bind fun _ =>
        (asks_emitTransfer _ _ _ _).bind fun _ => trivial

theorem asks_transfer (t : Transfer) : (transfer t).Asks Demand.scratchless := by
  unfold transfer
  refine (asks_ofExcept _).bind fun a => (asks_require _ _).bind fun _ => ?_
  split
  case h_1 | h_2 =>
    split
    · dsimp only
      split
      · exact (asks_ofExcept _).bind fun _ => asks_emitTransfer _ _ _ _
      · exact asks_emitTransfer _ _ _ _
    · exact (asks_require _ _).bind fun _ => asks_splitTransfer _ _ _ _ _
  case h_7 | h_8 => exact asks_emitTransfer _ _ _ _
  all_goals exact (asks_require _ _).bind fun _ => asks_emitTransfer _ _ _ _

theorem asks_binaryMem (op : Operation) (dest base : Reg) (disp : Word) :
    (binaryMem op dest base disp).Asks Demand.scratchless := by
  unfold binaryMem
  split
  · exact asks_emit trivial
  · trivial

end Synthesis

/-! ## §6. Whole requests. -/

namespace Request

/-- The request reads or writes data memory. -/
def movesData : Request → Bool
  | binaryMem _ _ _ _ | transfer _ => true
  | _ => false

/-- The request may need a scratch register. -/
def mayBorrow : Request → Bool
  | constant _ _ | constantPair _ _ _ _ | ternary _ _ _ _ => true
  | _ => false

/-- The address that the request computes into a register, if it does so. -/
def address? : Request → Option Address
  | ternary op dest src1 src2 => Synthesis.ternaryAddress? op dest src1 src2
  | ternaryImm op dest src value => Synthesis.ternaryImmAddress? op dest src value
  | _ => none

/-- **Requests that move no data** append instructions that work in registers,
note no frame slot, borrow only if they may, and compute no address but
their own. -/
theorem asks_registerWork {q : Request} {addresses : Address → Prop} (hdata : q.movesData = false)
    (haddress : ∀ a, q.address? = some a → addresses a) :
    q.synthesis.Asks (Demand.registerWork (q.mayBorrow = true) addresses) := by
  cases q with
  | copy dest src => exact (Synthesis.asks_copy dest src).bind fun _ => trivial
  | detachedCopy dest src => exact (Synthesis.asks_ofExcept _).bind fun _ => trivial
  | constant dest value => exact (Synthesis.asks_constant (.inl rfl)).bind fun _ => trivial
  | isCheapConstant dest value => trivial
  | constantPair lo hi valueLo valueHi =>
      exact (Synthesis.asks_constantPair rfl lo hi valueLo valueHi).bind fun _ => trivial
  | unary op dest => exact (Synthesis.asks_unary op dest).bind fun _ => trivial
  | binaryImm op dest value => exact (Synthesis.asks_binaryImm op dest value).bind fun _ => trivial
  | binary op dest src => exact (Synthesis.asks_binary op dest src).bind fun _ => trivial
  | binaryMem op dest base disp => exact absurd hdata (by simp [movesData])
  | callMem op base disp => exact (Synthesis.asks_callMem op base disp).bind fun _ => trivial
  | callThread op offset => exact (Synthesis.asks_callThread op offset).bind fun _ => trivial
  | ternary op dest src1 src2 =>
      exact (Synthesis.asks_ternary rfl haddress).bind fun _ => trivial
  | ternaryImm op dest src value =>
      exact (Synthesis.asks_ternaryImm haddress).bind fun _ => trivial
  | transfer t => exact absurd hdata (by simp [movesData])
  | jump target => exact (Synthesis.asks_jump target).bind fun _ => trivial
  | jumpIf cond target => exact (Synthesis.asks_jumpIf cond target).bind fun _ => trivial
  | attachTarget branch target => exact ⟨trivial, trivial⟩

theorem asks_ordinary {q : Request} (hdata : q.movesData = false) :
    q.synthesis.Asks (Demand.ordinary (q.mayBorrow = true)) :=
  asks_registerWork hdata fun _ _ => trivial

/-- Requests that may not borrow do without scratch registers. -/
theorem asks_scratchless {q : Request} (hborrow : q.mayBorrow = false) :
    q.synthesis.Asks Demand.scratchless := by
  cases hdata : q.movesData with
  | false =>
      exact (asks_ordinary hdata).mono fun d => Demand.scratchless_of_ordinary (by simp [hborrow])
  | true =>
      cases q with
      | binaryMem op dest base disp =>
          exact (Synthesis.asks_binaryMem op dest base disp).bind fun _ => trivial
      | transfer t => exact (Synthesis.asks_transfer t).bind fun _ => trivial
      | _ => exact absurd hdata (by simp [movesData])

end Request

end TwoAddress
