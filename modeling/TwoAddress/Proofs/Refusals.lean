/-
  TwoAddress.Proofs.Refusals
  ──────────────────────────
  **THREE REGISTERS, REFUSED.**

  `dest = src1 op src2` is not always met.  It depends on the operation, on how
  the destination coincides with the sources, on the register that a distance
  is in, and on what the pool has left.  The check that fails may come late:
  after the first source was copied, and after a register was borrowed for it.
  Neither is undone.

    • §1 what there is to object (`ThreeRegisters.Objection`), and what a
      refusal leaves behind (`ThreeRegisters.Residue`);
    • §2 a dialogue with a borrowed register, on a session;
    • §3 the outcome, for each way in which the destination coincides;
    • §4 all registers (`three_registers_refused_iff`).
-/
import TwoAddress.Proofs.Granted
import TwoAddress.Proofs.Lending
import TwoAddress.Proofs.Transfers

namespace TwoAddress

/-! ## §1. Objections and residues. -/

/-- The registers that may be lent to a borrower who works on `dest` and `src1`. -/
def ScratchPool.spare (p : ScratchPool) (dest src1 : GpReg) : Finset GpReg :=
  (p.lendable.toFinset \ p.lent.toFinset) \ {dest, src1}

/-- The copy of a register into another one. -/
def Instruction.copyOf (dest src : GpReg) : Instruction :=
  { opcode := .mov32RR, operands := [.reg (.gp dest), .reg (.gp src)] }

/-- The operations that have no way to find their second operand in the
destination. -/
def Operation.firstOnly : List Operation :=
  [.mul, .mov, .cmp, .neg, .not, .widenByte, .widenShort, .widenChar]

/-- The operations that find it there take every register. -/
theorem Operation.takesRegister_of_inPlace {op : Operation}
    (h : op.isCommutative = true ∨ op = .sub) (src : GpReg) : op.TakesRegister src := by
  have hplain : op ≠ .indirectCall ∧ op.isShift = false := by
    revert h
    cases op <;> decide
  exact ⟨hplain.1, fun hshift => absurd hshift (by simp [hplain.2])⟩

/-- `dest = src1 op src2`. -/
structure ThreeRegisters where
  op : Operation
  dest : GpReg
  src1 : GpReg
  src2 : GpReg

namespace ThreeRegisters

/-- As a request. -/
def request (q : ThreeRegisters) : Request := .ternary q.op (.gp q.dest) (.gp q.src1) (.gp q.src2)

/-- The destination is the second source and not the first. -/
def IntoSecond (q : ThreeRegisters) : Prop := q.dest = q.src2 ∧ q.dest ≠ q.src1

instance (q : ThreeRegisters) : Decidable q.IntoSecond := inferInstanceAs (Decidable (_ ∧ _))

/-- The shape in which an operation is missed that is none on registers. -/
def missedShape (q : ThreeRegisters) : Shape := if q.IntoSecond then .regRegReg else .regReg

/-- What there is to object to `dest = src1 op src2`, and the fault that says so. -/
inductive Objection (q : ThreeRegisters) (p : ScratchPool) : Fault → Prop where
  /-- A call combines no registers. -/
  | call (h : q.op = .indirectCall) :
      Objection q p (.violation (.unsupported q.op.name q.missedShape))
  /-- The distance of a shift is not in the counter. -/
  | count (hop : q.op.isShift = true) (h : q.src2 ≠ .ecx) :
      Objection q p (.violation (.registerClass (Reg.gp q.src2).text "a shift count"))
  /-- The operation does not find its second operand in the destination. -/
  | form (hsecond : q.IntoSecond) (h : q.op ∈ Operation.firstOnly) :
      Objection q p (.violation (.unsupported q.op.name .regRegReg))
  /-- It needs a register for the first, and there is none. -/
  | exhausted (hsecond : q.IntoSecond) (hop : q.op = .sbc ∨ q.op.isShift = true)
      (h : p.spare q.dest q.src1 = ∅) :
      Objection q p (.violation (.scratchUnavailable (ScratchError.exhausted 2).message))

/-- A register is borrowed before it turns out that the distance is not in the
counter. -/
structure Strands (q : ThreeRegisters) (p : ScratchPool) : Prop where
  shift : q.op.isShift = true
  second : q.IntoSecond
  count : q.dest ≠ .ecx
  spare : (p.spare q.dest q.src1).Nonempty

/-- What a refusal leaves of the session `s`. -/
structure Residue (q : ThreeRegisters) (s t : Session) : Prop where
  /-- The stream is as it was, or has one copy of the first source more. -/
  records : t.records = s.records ∨
    ∃ d, d ≠ q.src1 ∧ t.records = s.records ++ [s.stamp (.copyOf d q.src1)]
  /-- The pool is as it was, but for one case. -/
  pool : ¬ q.Strands s.pool → t.pool = s.pool
  /-- In that case, one of its registers stays lent. -/
  stranded : q.Strands s.pool → t.pool.lendable = s.pool.lendable ∧
    ∃ g ∈ s.pool.spare q.dest q.src1, t.pool.lent.toFinset = insert g s.pool.lent.toFinset
  slots : t.slots = s.slots
  offset : t.offset = s.offset

/-- A request that returns is one that there is nothing to object to.  One that
is refused is refused for what there is to object to it. -/
def Justified (q : ThreeRegisters) (s : Session) : Except Fault RecordId × Session → Prop
  | (.ok _, _) => ∀ f, ¬ q.Objection s.pool f
  | (.error f, t) => q.Objection s.pool f ∧ q.Residue s t

variable {q : ThreeRegisters} {p : ScratchPool} {s : Session}

theorem not_objection (htakes : q.op.TakesRegister q.src2)
    (hform : q.IntoSecond → q.op ∉ Operation.firstOnly)
    (hspare : q.IntoSecond → q.op = .sbc ∨ q.op.isShift = true →
      (p.spare q.dest q.src1).Nonempty)
    (f : Fault) : ¬ q.Objection p f := by
  intro hobjection
  cases hobjection with
  | call h => exact htakes.1 h
  | count hop h => exact h (htakes.2 hop)
  | form hsecond h => exact hform hsecond h
  | exhausted hsecond hop h => exact (hspare hsecond hop).ne_empty h

/-- Where the destination is not the second source alone, only the register counts. -/
theorem not_objection_outside (htakes : q.op.TakesRegister q.src2) (hout : ¬ q.IntoSecond)
    (f : Fault) : ¬ q.Objection p f :=
  not_objection htakes (fun h => absurd h hout) (fun h => absurd h hout) f

theorem not_objection_of_inPlace (h : q.op.isCommutative = true ∨ q.op = .sub) (f : Fault) :
    ¬ q.Objection p f := by
  have hplain : q.op ∉ Operation.firstOnly ∧ ¬ (q.op = .sbc ∨ q.op.isShift = true) := by
    revert h
    cases q.op <;> decide
  exact not_objection (Operation.takesRegister_of_inPlace h q.src2) (fun _ => hplain.1)
    (fun _ hop => absurd hop hplain.2) f

/-- A dialogue that comes to its end is justified if there is nothing to object. -/
theorem justified_of_granted {x : Synthesis RecordId}
    (h : x.Follows granted () fun _ _ => True) (hno : ∀ f, ¬ q.Objection s.pool f) :
    q.Justified s ((x.runIn Session.unit).on s) := by
  obtain ⟨id, t, hrun, -⟩ := s.exists_of_granted h
  rw [hrun]
  exact hno

/-- Nothing was done. -/
theorem Residue.unchanged (h : ¬ q.Strands s.pool) : q.Residue s s where
  records := .inl rfl
  pool _ := rfl
  stranded hstrands := absurd hstrands h
  slots := rfl
  offset := rfl

/-- The first source was copied. -/
theorem Residue.copied {d : GpReg} (hd : d ≠ q.src1) (h : ¬ q.Strands s.pool) :
    q.Residue s (s.push (s.stamp (.copyOf d q.src1))) where
  records := .inr ⟨d, hd, rfl⟩
  pool _ := rfl
  stranded hstrands := absurd hstrands h
  slots := rfl
  offset := rfl

end ThreeRegisters

/-! ## §2. Borrowed registers. -/

namespace Synthesis

/-- A copy between two registers that are not the same. -/
theorem copy_of_ne {dest src : GpReg} (h : dest ≠ src) :
    copy (.gp dest) (.gp src) = append (.copyOf dest src) done := by
  have hactive : (Reg.gp dest == Reg.gp src) = false := by simp [h]
  show append { Instruction.copyOf dest src with inert := Reg.gp dest == Reg.gp src } done = _
  rw [hactive]
  rfl

/-- An operation that does not take the register is refused before anything is
asked for. -/
theorem binary_refused {op : Operation} {src : GpReg} (h : ¬ op.TakesRegister src) (dest : Reg) :
    (op = .indirectCall ∧ binary op dest (.gp src) = unsupported op .regReg) ∨
      (op.isShift = true ∧ src ≠ .ecx ∧ binary op dest (.gp src) =
        fail (.violation (.registerClass (Reg.gp src).text "a shift count"))) := by
  cases op with
  | indirectCall => exact .inl ⟨rfl, rfl⟩
  | lsl | lsr | asr | ror =>
      have hsrc : src ≠ .ecx := fun hecx => h ⟨nofun, fun _ => hecx⟩
      exact .inr ⟨rfl, hsrc, if_neg fun hcounter => hsrc (Reg.gp.inj hcounter)⟩
  | _ => exact absurd ⟨nofun, nofun⟩ h

/-- A register that is none of the operands is worked in. -/
theorem inScratch_of_apart {dest src1 src2 scratch : Reg} (h : scratch ∉ [dest, src1, src2])
    (op : Operation) :
    inScratch op dest src1 src2 scratch = (do
      remark (.throughScratch dest src1 op scratch)
      let _ ← copy scratch src1
      let _ ← binary op scratch src2
      copy dest scratch) := by
  have hapart : (!([dest, src1, src2].contains scratch)) = true := by simpa using h
  show (require (!([dest, src1, src2].contains scratch)) _ >>= fun _ => _) = _
  rw [require_of hapart]
  rfl

theorem inScratch_granted {op : Operation} {dest src1 src2 g : GpReg}
    (hop : op.TakesRegister src2) (h : Reg.gp g ∉ [.gp dest, .gp src1, .gp src2]) :
    (inScratch op (.gp dest) (.gp src1) (.gp src2) (.gp g)).Follows granted ()
      fun _ _ => True := by
  rw [inScratch_of_apart h]
  refine Follows.seq (Follows.seq (copy_granted g src1 fun _ => ?_))
  exact Follows.seq (binary_granted hop g fun _ => copy_granted dest g fun _ => trivial)

end Synthesis

namespace ScratchPool

variable {p : ScratchPool} {dest src1 : GpReg}

/-- The operands, as the set that a borrow excludes. -/
theorem toFinset_operands (dest src1 : GpReg) :
    (RegSet.ofList [.gp dest, .gp src1, .gp dest]).toFinset = {dest, src1} := by
  ext r
  rw [RegSet.mem_toFinset, RegSet.contains_ofList, decide_eq_true_eq]
  simp only [List.mem_cons, List.not_mem_nil, or_false, Reg.gp.injEq, Finset.mem_insert,
    Finset.mem_singleton]
  tauto

theorem free_operands (p : ScratchPool) (dest src1 : GpReg) :
    p.free (.ofList [.gp dest, .gp src1, .gp dest]) = p.spare dest src1 := by
  ext r
  rw [mem_free, eligible_iff, spare, ← toFinset_operands, Finset.mem_sdiff, Finset.mem_sdiff]
  simp [and_assoc]

theorem size_operands (h : dest ≠ src1) :
    (RegSet.ofList [.gp dest, .gp src1, .gp dest]).size = 2 := by
  rw [RegSet.size_eq_card, toFinset_operands, Finset.card_pair h]

/-- If nothing is free, the refusal gives the number of excluded registers. -/
theorem borrow_of_free_eq_empty {exclude : RegSet} (h : p.free exclude = ∅) :
    p.borrow exclude = .error (.exhausted exclude.size) := by
  have hnone : (cycleFrom p.clock).find? (p.eligible exclude) = none := by
    rw [List.find?_eq_none]
    intro r _ heligible
    exact Finset.notMem_empty r (h ▸ mem_free.mpr heligible)
  unfold borrow
  rw [hnone]

end ScratchPool

namespace Session

/-- The session that has lent a register and is left with the pool `p`. -/
def afterBorrow (s : Session) (p : ScratchPool) : Session :=
  { s with pool := p, stats := { s.stats with borrowed := s.stats.borrowed + 1 } }

section Scratch

variable {s t : Session} {exclude : List Reg} {body : Reg → Synthesis RecordId} {g : GpReg}
  {p : ScratchPool}

/-- The copy is appended before the operation is looked at. -/
theorem on_inScratch_refused {op : Operation} {dest src1 src2 : GpReg} {f : Fault}
    (hapart : Reg.gp g ∉ [.gp dest, .gp src1, .gp src2])
    (hbinary : Synthesis.binary op (.gp g) (.gp src2) = .fail f) (s : Session) :
    ((Synthesis.inScratch op (.gp dest) (.gp src1) (.gp src2) (.gp g)).runIn unit).on s =
      (.error f, s.push (s.stamp (.copyOf g src1))) := by
  have hne : g ≠ src1 := fun h => hapart (by simp [h])
  rw [Synthesis.inScratch_of_apart hapart, Synthesis.copy_of_ne hne, hbinary]
  rfl

/-- Without a register, nothing is done. -/
theorem on_withScratch_exhausted {e : ScratchError}
    (h : s.pool.borrow (.ofList exclude) = .error e) :
    ((Synthesis.withScratch exclude body).runIn unit).on s =
      (.error (.violation (.scratchUnavailable e.message)), s) := by
  have hborrow := on_borrow exclude s
  rw [h] at hborrow
  show ((borrow exclude >>= fun r => _).on s) = _
  rw [Effect.on_bind, hborrow]

theorem on_withScratch (h : s.pool.borrow (.ofList exclude) = .ok (g, p)) :
    ((Synthesis.withScratch exclude body).runIn unit).on s =
      ((body (.gp g) >>= fun a => Synthesis.releaseScratch (.gp g) >>= fun _ =>
        pure a).runIn unit).on (s.afterBorrow p) := by
  have hborrow := on_borrow exclude s
  rw [h] at hborrow
  show ((borrow exclude >>= fun r => _).on s) = _
  rw [Effect.on_bind, hborrow]
  rfl

/-- A dialogue that stops keeps the register. -/
theorem on_withScratch_stopped {f : Fault} (h : s.pool.borrow (.ofList exclude) = .ok (g, p))
    (hbody : ((body (.gp g)).runIn unit).on (s.afterBorrow p) = (.error f, t)) :
    ((Synthesis.withScratch exclude body).runIn unit).on s = (.error f, t) := by
  rw [on_withScratch h, Synthesis.runIn_bind, Effect.on_bind, hbody]

/-- One that comes to its end gives it back, and that is never refused. -/
theorem on_withScratch_returned (h : s.pool.borrow (.ofList exclude) = .ok (g, p))
    (hbody : (body (.gp g)).Follows granted () fun _ _ => True) :
    ∃ id t, ((Synthesis.withScratch exclude body).runIn unit).on s = (.ok id, t) := by
  obtain ⟨id, t, hrun, hpool⟩ := (s.afterBorrow p).exists_of_granted hbody
  have hlendable : p.lendable.contains (.gp g) = true := by
    obtain ⟨-, rfl⟩ := ScratchPool.borrow_eq_ok.mp h
    exact (ScratchPool.eligible_iff.mp (ScratchPool.eligible_of_borrow h)).1
  have hlent : p.lent.contains (.gp g) = true := by
    obtain ⟨-, rfl⟩ := ScratchPool.borrow_eq_ok.mp h
    simp
  obtain ⟨t', hrelease⟩ : ∃ t', (release (.gp g)).on t = (.ok (), t') := by
    rw [on_release, hpool, show (s.afterBorrow p).pool = p from rfl,
      ScratchPool.release_eq_ok hlendable hlent]
    exact ⟨_, rfl⟩
  refine ⟨id, t', ?_⟩
  rw [on_withScratch h, Synthesis.runIn_bind, Effect.on_bind, hrun]
  show ((release (.gp g) >>= fun _ => pure id).on t) = _
  rw [Effect.on_bind, hrelease]
  rfl

end Scratch

end Session

/-! ## §3. Outcomes. -/

namespace ThreeRegisters

open Synthesis

section Lemmas

variable {q : ThreeRegisters} {s : Session} {p : ScratchPool}

/-- Where the destination is not the second source alone, an operation that does not
take the second source is refused for that. -/
theorem objection_of_binary (p : ScratchPool) (hout : ¬ q.IntoSecond)
    (htakes : ¬ q.op.TakesRegister q.src2) (dest : Reg) :
    ∃ f, binary q.op dest (.gp q.src2) = fail f ∧ q.Objection p f := by
  rcases binary_refused htakes dest with ⟨hcall, hbinary⟩ | ⟨hshift, hsrc, hbinary⟩
  · have hshape : q.missedShape = .regReg := if_neg hout
    exact ⟨_, hbinary, hshape ▸ .call hcall⟩
  · exact ⟨_, hbinary, .count hshift hsrc⟩

/-- A register was borrowed, the first source was copied there, and no more. -/
theorem Residue.borrowed {g : GpReg}
    (hborrow : s.pool.borrow (.ofList [.gp q.dest, .gp q.src1, .gp q.dest]) = .ok (g, p))
    (h : q.Strands s.pool) :
    q.Residue s ((s.afterBorrow p).push ((s.afterBorrow p).stamp (.copyOf g q.src1))) := by
  have heligible := ScratchPool.eligible_of_borrow hborrow
  have hne : g ≠ q.src1 := fun h => ScratchPool.not_mem_of_eligible heligible (by simp [h])
  have hspare : g ∈ s.pool.spare q.dest q.src1 := by
    rw [← ScratchPool.free_operands]
    exact ScratchPool.mem_free.mpr heligible
  obtain ⟨-, rfl⟩ := ScratchPool.borrow_eq_ok.mp hborrow
  exact {
    records := .inr ⟨g, hne, rfl⟩
    pool := fun hnot => absurd h hnot
    stranded := fun _ => ⟨rfl, g, hspare, RegSet.toFinset_insert s.pool.lent g⟩
    slots := rfl
    offset := rfl }

end Lemmas

variable (s : Session) (op : Operation) {dest src1 src2 : GpReg}

/-- Into the first source, the operation is done in place. -/
theorem justified_first :
    Justified ⟨op, dest, dest, src2⟩ s
      (((binary op (.gp dest) (.gp src2)).runIn Session.unit).on s) := by
  have hout : ¬ IntoSecond ⟨op, dest, dest, src2⟩ := fun h => h.2 rfl
  by_cases htakes : op.TakesRegister src2
  · exact justified_of_granted (binary_granted htakes dest fun _ => trivial)
      (not_objection_outside htakes hout)
  · obtain ⟨f, hbinary, hobjection⟩ := objection_of_binary s.pool hout htakes (.gp dest)
    rw [hbinary]
    exact ⟨hobjection, .unchanged fun h => hout h.second⟩

/-- Into a register of its own, the operation is done on a copy of the first source,
if it is not a sum. -/
theorem justified_apart (hfirst : dest ≠ src1) (hsecond : dest ≠ src2) :
    Justified ⟨op, dest, src1, src2⟩ s
      (((if op = .add then addApart (.gp dest) (.gp src1) (.gp src2) else do
        let _ ← copy (.gp dest) (.gp src1)
        binary op (.gp dest) (.gp src2)).runIn Session.unit).on s) := by
  have hout : ¬ IntoSecond ⟨op, dest, src1, src2⟩ := fun h => hsecond h.1
  by_cases hadd : op = .add
  · subst hadd
    rw [if_pos rfl]
    exact justified_of_granted (addApart_granted dest src1 src2 fun _ => trivial)
      (not_objection_of_inPlace (.inl rfl))
  · rw [if_neg hadd]
    by_cases htakes : op.TakesRegister src2
    · exact justified_of_granted
        (.seq (copy_granted dest src1 fun _ => binary_granted htakes dest fun _ => trivial))
        (not_objection_outside htakes hout)
    · -- The copy is appended before the operation is looked at.
      obtain ⟨f, hbinary, hobjection⟩ := objection_of_binary s.pool hout htakes (.gp dest)
      rw [copy_of_ne hfirst, hbinary]
      exact ⟨hobjection, .copied hfirst fun h => hout h.second⟩

variable {op}

/-- Into the second source, by way of a borrowed register. -/
theorem justified_throughScratch (hop : op = .sbc ∨ op.isShift = true) (hne : dest ≠ src1) :
    Justified ⟨op, dest, src1, dest⟩ s
      (((throughScratch op (.gp dest) (.gp src1) (.gp dest)).runIn Session.unit).on s) := by
  have hsecond : IntoSecond ⟨op, dest, src1, dest⟩ := ⟨rfl, hne⟩
  rw [throughScratch_eq_withScratch]
  by_cases hspare : (s.pool.spare dest src1).Nonempty
  · obtain ⟨g, p, hborrow⟩ := ScratchPool.exists_borrow_iff.mpr
      (s.pool.free_operands dest src1 ▸ hspare)
    have hapart := ScratchPool.not_mem_of_eligible (ScratchPool.eligible_of_borrow hborrow)
    by_cases htakes : op.TakesRegister dest
    · obtain ⟨id, t, hrun⟩ :=
        Session.on_withScratch_returned hborrow (inScratch_granted htakes hapart)
      have hform : op ∉ Operation.firstOnly := by
        revert hop
        cases op <;> decide
      rw [hrun]
      exact not_objection htakes (fun _ => hform) fun _ _ => hspare
    · -- Of these operations only a shift does not take every register, and whether it
      -- does is asked when the register is borrowed already.
      rcases binary_refused htakes (.gp g) with ⟨rfl, -⟩ | ⟨hshift, hecx, hbinary⟩
      · exact absurd hop (by decide)
      · rw [Session.on_withScratch_stopped hborrow
          (Session.on_inScratch_refused hapart hbinary (s.afterBorrow p))]
        exact ⟨.count hshift hecx, .borrowed hborrow ⟨hshift, hsecond, hecx, hspare⟩⟩
  · have hempty : s.pool.spare dest src1 = ∅ := Finset.not_nonempty_iff_eq_empty.mp hspare
    have hborrow := ScratchPool.borrow_of_free_eq_empty
      ((s.pool.free_operands dest src1).trans hempty)
    rw [ScratchPool.size_operands hne] at hborrow
    rw [Session.on_withScratch_exhausted hborrow]
    exact ⟨.exhausted hsecond hop hempty, .unchanged fun h => hspare h.spare⟩

variable (op)

/-- Into the second source, each operation has a way of its own or none. -/
theorem justified_second (hne : dest ≠ src1) :
    Justified ⟨op, dest, src1, dest⟩ s
      (((intoSecond op (.gp dest) (.gp src1) (.gp dest)).runIn Session.unit).on s) := by
  have hsecond : IntoSecond ⟨op, dest, src1, dest⟩ := ⟨rfl, hne⟩
  unfold intoSecond
  by_cases hcomm : op.isCommutative = true
  · rw [if_pos hcomm]
    exact justified_of_granted
      (binary_granted (Operation.takesRegister_of_inPlace (.inl hcomm) src1) dest fun _ => trivial)
      (not_objection_of_inPlace (.inl hcomm))
  · rw [if_neg hcomm]
    cases op with
    | add | or | adc | and | xor => exact absurd rfl hcomm
    | sub =>
        refine justified_of_granted ?_ (not_objection_of_inPlace (.inr rfl))
        intro _ _
        trivial
    | sbc | lsl | lsr | asr | ror =>
        refine justified_throughScratch s ?_ hne
        decide
    | indirectCall =>
        have hshape : missedShape ⟨.indirectCall, dest, src1, dest⟩ = .regRegReg := if_pos hsecond
        exact ⟨hshape ▸ .call rfl, .unchanged fun h => nomatch h.shift⟩
    | mul | mov | cmp | neg | not | widenByte | widenShort | widenChar =>
        exact ⟨.form hsecond (by simp [Operation.firstOnly]), .unchanged fun h => nomatch h.shift⟩

end ThreeRegisters

/-! ## §4. All registers. -/

namespace ThreeRegisters

theorem justified_ternary (s : Session) (q : ThreeRegisters) :
    q.Justified s (((Synthesis.ternary q.op (.gp q.dest) (.gp q.src1) (.gp q.src2)).runIn
      Session.unit).on s) := by
  obtain ⟨op, dest, src1, src2⟩ := q
  unfold Synthesis.ternary
  by_cases hfirst : dest = src1
  · subst hfirst
    rw [if_pos rfl]
    exact justified_first s op
  · rw [if_neg fun h => hfirst (Reg.gp.inj h)]
    by_cases hsecond : dest = src2
    · subst hsecond
      rw [if_pos rfl]
      exact justified_second s op hfirst
    · rw [if_neg fun h => hsecond (Reg.gp.inj h)]
      exact justified_apart s op hfirst hsecond

/-- The request is met as its dialogue is. -/
theorem meet_request (s : Session) (q : ThreeRegisters) :
    s.meet q.request =
      let o := ((Synthesis.ternary q.op (.gp q.dest) (.gp q.src1) (.gp q.src2)).runIn
        Session.unit).on s
      (o.1.map .appended, o.2) := by
  show ((Synthesis.ternary q.op (.gp q.dest) (.gp q.src1) (.gp q.src2) >>= fun id =>
    pure (Reply.appended id)).runIn Session.unit).on s = _
  rw [Synthesis.runIn_bind, Effect.on_bind]
  rcases ((Synthesis.ternary q.op (.gp q.dest) (.gp q.src1) (.gp q.src2)).runIn
    Session.unit).on s with ⟨_ | _, _⟩ <;> rfl

end ThreeRegisters

/-- **THREE REGISTERS ARE REFUSED FOR WHAT THERE IS TO OBJECT TO THEM.**  For every
session and every `dest = src1 op src2`: a fault comes of it exactly if the
operation is a call, or a shift by what is not in the counter, or, where the
destination is the second source alone, one that has no form for this or needs
a register that the pool does not have.  The fault names a reason that holds.
Behind the old stream there is one copy of the first source at most.  What is
lent stays as it was, but for a shift of that last kind by another register
than the counter: one register more is lent if there was one to spare. -/
theorem three_registers_refused_iff (s : Session) (q : ThreeRegisters) :
    ((∃ f, (s.meet q.request).1 = .error f) ↔ ∃ f, q.Objection s.pool f) ∧
      ∀ f, (s.meet q.request).1 = .error f →
        q.Objection s.pool f ∧ q.Residue s (s.meet q.request).2 := by
  have hjustified := q.justified_ternary s
  rw [q.meet_request s]
  generalize ((Synthesis.ternary q.op (.gp q.dest) (.gp q.src1) (.gp q.src2)).runIn
    Session.unit).on s = o at hjustified ⊢
  obtain ⟨g | id, t⟩ := o
  · refine ⟨⟨fun _ => ⟨g, hjustified.1⟩, fun _ => ⟨g, rfl⟩⟩, ?_⟩
    intro f hf
    obtain rfl : g = f := Except.error.inj hf
    exact hjustified
  · refine ⟨⟨?_, ?_⟩, ?_⟩
    · intro ⟨f, hf⟩
      exact nomatch hf
    · intro ⟨f, hobjection⟩
      exact absurd hobjection (hjustified f)
    · intro f hf
      exact nomatch hf

/-- `ebx = esi << ebx`: the register that was borrowed for it is not given back. -/
example :
    (Session.meet (.new [.gp .eax, .gp .edx])
      (ThreeRegisters.request ⟨.lsl, .ebx, .esi, .ebx⟩)).2.pool.lent = .ofList [.gp .eax] := by
  rfl

end TwoAddress
