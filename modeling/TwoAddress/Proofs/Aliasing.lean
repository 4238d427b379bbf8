/-
  TwoAddress.Proofs.Aliasing
  ──────────────────────────
  **WHEN A SCRATCH REGISTER IS ALSO AN OPERAND.**

  A borrow names the registers it must not receive.  A synthesizer that names
  all the operands of its request never has one of them overwritten by its
  own temporary.  All synthesizers but one do:

    • §1 the operands of a request, and the registers lent while it is met;
    • §2 the `sparing` protocol: every borrow excludes every operand.  It
      holds of all requests but one shape of `constantPair`;
    • §3 that shape, a general-purpose low half with a single-precision high
      half, borrows for the high half and excludes the high half alone;
    • §4 so an operand is lent exactly there, and exactly when the pool would
      lend the low half's register to anyone.
-/
import TwoAddress.Proofs.Borrowing

namespace TwoAddress

/-! ## §1. Operands and loans. -/

/-- The registers a caller passes with a request. -/
def Request.operands : Request → List Reg
  | copy dest src | detachedCopy dest src => [dest, src]
  | constant dest _ | isCheapConstant dest _ => [dest]
  | constantPair lo hi _ _ => [lo, hi]
  | unary _ dest => [dest]
  | binaryImm _ dest _ => [dest]
  | binary _ dest src => [dest, src]
  | binaryMem _ dest base _ => [dest, base]
  | callMem _ base _ => [base]
  | callThread _ _ => []
  | ternary _ dest src1 src2 => [dest, src1, src2]
  | ternaryImm _ dest src _ => [dest, src]
  | transfer t => [t.base, t.index, t.lo, t.hi]
  | jump _ | jumpIf _ _ | attachTarget _ _ => []

/-- The register that an event lends. -/
def ScratchEvent.lentReg? : ScratchEvent → Option Reg
  | lent _ r => some r
  | returned _ | refused _ => none

/-- The registers lent while a session meets a request, in order. -/
def Session.lentFor (s : Session) (q : Request) : List Reg :=
  (unit.scratchTrace q s).filterMap ScratchEvent.lentReg?

/-! ## §2. Borrows that spare the operands. -/

/-- Every borrow excludes every general-purpose register among the operands. -/
def sparing (operands : List Reg) : Protocol Unit :=
  .scratch (fun exclude _ K => (∀ g, .gp g ∈ operands → .gp g ∈ exclude) ∧ ∀ r, K r ())
    fun _ _ K => K ()

namespace Synthesis

variable {operands : List Reg} {Q : RecordId → Unit → Prop}

theorem withScratch_sparing {exclude : List Reg} {body : Reg → Synthesis RecordId}
    (hexclude : ∀ g, .gp g ∈ operands → .gp g ∈ exclude)
    (hbody : ∀ r, (body r).Asks Demand.scratchless) (hQ : ∀ id, Q id ()) :
    (withScratch exclude body).Follows (sparing operands) () Q := by
  refine Follows.seq ⟨hexclude, fun scratch => ?_⟩
  exact Follows.seq ((hbody scratch).follows_scratch hQ)

/-- A constant borrows for a single-precision register only, and excludes that
alone. -/
theorem constant_sparing {dest : Reg} {value : Word}
    (hspare : (dest.isSingle = false ∨ value = 0) ∨ ∀ g, .gp g ∉ operands)
    (hQ : ∀ id, Q id ()) : (constant dest value).Follows (sparing operands) () Q := by
  by_cases h : dest.isXmm = false ∨ value = 0
  · exact (asks_constant (.inr h)).scratchless.follows_scratch hQ
  · simp only [not_or, Bool.not_eq_false] at h
    rw [constant_eq_withScratch h.1 h.2]
    refine Follows.seq ?_
    cases hsingle : dest.isSingle with
    | false => trivial
    | true =>
        -- The borrow excludes `dest` alone, so there must be nothing else to spare.
        have hnone := hspare.resolve_left fun hno =>
          hno.elim (fun hfalse => absurd hsingle (by simp [hfalse])) h.2
        exact withScratch_sparing (fun g hg => absurd hg (hnone g))
          (fun r => (asks_viaScratch dest value r).scratchless) hQ

/-- Two xmm registers leave no general-purpose operand to spare. -/
theorem gp_not_mem_of_xmm {lo hi : Reg} (hlo : lo.isXmm = true) (hhi : hi.isXmm = true) (g : GpReg) :
    .gp g ∉ [lo, hi] := by
  intro hg
  rcases List.mem_cons.mp hg with h | h
  · rw [← h] at hlo
    exact absurd hlo (by simp [Reg.isXmm])
  · rw [← List.mem_singleton.mp h] at hhi
    exact absurd hhi (by simp [Reg.isXmm])

/-- A pair of constants spares its operands unless a general-purpose low half
meets a single-precision high half that is not zero. -/
theorem constantPair_sparing {lo hi : Reg} {valueLo valueHi : Word}
    (hmixed : ∀ g, lo = .gp g → hi.isSingle = false ∨ valueHi = 0) (hQ : ∀ id, Q id ()) :
    (constantPair lo hi valueLo valueHi).Follows (sparing [lo, hi]) () Q := by
  cases hlo : lo.isXmm with
  | true =>
      rw [constantPair_of_xmm hlo]
      refine Follows.seq ?_
      cases hhi : hi.isXmm with
      | false => trivial
      | true =>
          have hnone := gp_not_mem_of_xmm hlo hhi
          refine Follows.seq (constant_sparing (.inr hnone) fun id => ?_)
          unfold withHighHalf
          split
          · exact Follows.seq (constant_sparing (.inr hnone) fun _ _ _ => hQ id)
          · exact hQ id
  | false =>
      rw [constantPair_of_gp hlo]
      refine Follows.seq ((asks_constant (.inr (.inl hlo))).scratchless.follows_scratch
        fun id => ?_)
      refine Follows.seq (constant_sparing ?_ fun _ => hQ id)
      cases lo with
      | gp g => exact .inl (hmixed g rfl)
      | absent =>
          -- Without a low half the high half is the only operand.
          by_cases h : hi.isSingle = false ∨ valueHi = 0
          · exact .inl h
          · refine .inr fun g hg => h (.inl ?_)
            rw [← List.mem_singleton.mp ((List.mem_cons.mp hg).resolve_left (by simp))]
            rfl
      | xmm r => exact absurd hlo (by simp [Reg.isXmm])

theorem ternary_sparing (op : Operation) (dest src1 src2 : Reg) (hQ : ∀ id, Q id ()) :
    (ternary op dest src1 src2).Follows (sparing [dest, src1, src2]) () Q := by
  rcases ternary_cases op dest src1 src2 with h | h
  · exact h.scratchless.follows_scratch hQ
  · rw [h, throughScratch_eq_withScratch]
    exact withScratch_sparing (fun _ hg => hg)
      (fun r => (asks_inScratch op dest src1 src2 r).scratchless) hQ

end Synthesis

/-- Every request but the mixed pair spares its operands. -/
theorem Request.follows_sparing {q : Request}
    (hmixed : ∀ g i valueLo valueHi, q = .constantPair (.gp g) (.single i) valueLo valueHi →
      valueHi = 0) :
    q.synthesis.Follows (sparing q.operands) () fun _ _ => True := by
  cases q with
  | constant dest value =>
      refine Synthesis.Follows.seq (Synthesis.constant_sparing ?_ fun _ => trivial)
      cases dest with
      | xmm r => exact .inr fun g hg => absurd (List.mem_singleton.mp hg) (by simp)
      | absent | gp => exact .inl (.inl rfl)
  | constantPair lo hi valueLo valueHi =>
      refine Synthesis.Follows.seq (Synthesis.constantPair_sparing ?_ fun _ => trivial)
      rintro g rfl
      rcases hi with _ | h | ⟨i, _ | _⟩
      · exact .inl rfl
      · exact .inl rfl
      · exact .inr (hmixed g i valueLo valueHi rfl)
      · exact .inl rfl
  | ternary op dest src1 src2 =>
      exact Synthesis.Follows.seq
        (Synthesis.ternary_sparing op dest src1 src2 fun _ => trivial)
  | _ => exact (asks_scratchless rfl).follows_scratch fun _ => trivial

/-- No register that a trace lends is among the operands. -/
def Spared (operands : List Reg) (log : List ScratchEvent) : Prop :=
  ∀ g, .gp g ∈ log.filterMap ScratchEvent.lentReg? → .gp g ∉ operands

/-- **A session lends no excluded register**, so borrows that exclude the
operands receive none of them. -/
theorem sparing_keeps (operands : List Reg) :
    (sparing operands).Keeps Session.unit.traced (fun _ s => Spared operands s.2)
      fun s => Spared operands s.2 where
  append hlog hK := met_beside (fun _ => Spared operands) (Spared operands) hlog hlog hK
  retarget hlog hK := met_beside (fun _ => Spared operands) (Spared operands) hlog hlog fun _ => hK
  borrow {exclude t s K} hlog hK := by
    obtain ⟨hexclude, hK⟩ := hK
    simp only [CodeUnit.traced, Effect.on_of, Session.unit, Session.on_borrow]
    rcases hrun : s.1.pool.borrow (.ofList exclude) with e | ⟨g, p⟩
    · exact hlog
    · refine ⟨(), ?_, hK (.gp g)⟩
      intro g' hg' hop
      rw [List.filterMap_append, List.mem_append] at hg'
      rcases hg' with hold | hnew
      · exact hlog g' hold hop
      · obtain rfl : g' = g := by simpa [ScratchEvent.lentReg?] using hnew
        -- A loan is none of the excluded registers, hence none of the operands.
        exact ScratchPool.not_mem_of_eligible (ScratchPool.eligible_of_borrow hrun)
          (hexclude g' hop)
  release {r t s K} hlog hK := by
    simp only [CodeUnit.traced, Effect.on_of]
    rcases (Session.unit.release r).on s.1 with ⟨_ | _, s'⟩
    · show Spared operands (s.2 ++ [.refused r])
      simpa [Spared, ScratchEvent.lentReg?] using hlog
    · refine ⟨(), ?_, hK⟩
      show Spared operands (s.2 ++ [.returned r])
      simpa [Spared, ScratchEvent.lentReg?] using hlog
  annotate hlog hK := met_beside (fun _ => Spared operands) (Spared operands) hlog hlog fun _ => hK
  note hlog hK := met_beside (fun _ => Spared operands) (Spared operands) hlog hlog fun _ => hK
  stop hlog _ := hlog

/-- Every request but the mixed pair has no operand lent. -/
theorem lentFor_spares {q : Request}
    (hmixed : ∀ g i valueLo valueHi, q = .constantPair (.gp g) (.single i) valueLo valueHi →
      valueHi = 0) (s : Session) : ∀ g, .gp g ∈ s.lentFor q → .gp g ∉ q.operands := by
  have hmet := (Request.follows_sparing hmixed).met (sparing_keeps q.operands) (t := ())
    (s := (s, [])) fun _ hg => nomatch hg
  unfold Session.lentFor CodeUnit.scratchTrace
  rcases hrun : (q.synthesis.runIn Session.unit.traced).on (s, []) with ⟨_ | _, s', log⟩ <;>
    rw [hrun] at hmet
  · exact hmet
  · obtain ⟨-, hlog, -⟩ := hmet
    exact hlog

/-! ## §3. The mixed pair. -/

section MixedPair

open Synthesis

/-- A general-purpose low half is made first.  Then a register is borrowed for
the high half, and the low half is not excluded. -/
theorem mixedPair_tree (g : GpReg) (i : UInt8) (valueLo valueHi : Word) (hhi : valueHi ≠ 0) :
    (Request.constantPair (.gp g) (.single i) valueLo valueHi).synthesis =
      append (if valueLo = 0 then { opcode := .xor32RR, operands := [.reg (.gp g), .reg (.gp g)] }
        else { opcode := .mov32RI, operands := [.reg (.gp g), .imm valueLo] }) fun id =>
      borrow [.single i] fun r =>
      append { opcode := .mov32RI, operands := [.reg r, .imm valueHi] } fun _ =>
      append { opcode := .movdxrRR, operands := [.reg (.single i), .reg r] } fun _ =>
      release r (done (.appended id)) := by
  by_cases hlo : valueLo = 0
  · subst hlo
    simp only [Request.synthesis, constantPair, constant, gpConstant, hhi, if_false, if_true]
    rfl
  · simp only [Request.synthesis, constantPair, constant, gpConstant, hhi, hlo, if_false]
    rfl

@[simp] theorem Session.push_pool (s : Session) (r : Record) : (s.push r).pool = s.pool := rfl

/-- The mixed pair is lent what the pool lends to a borrower that excludes
nothing. -/
theorem lentFor_mixedPair (s : Session) (g : GpReg) (i : UInt8) {valueLo valueHi : Word}
    (hhi : valueHi ≠ 0) :
    s.lentFor (.constantPair (.gp g) (.single i) valueLo valueHi) =
      match s.pool.borrow .empty with
      | .ok (r, _) => [.gp r]
      | .error _ => [] := by
  unfold Session.lentFor CodeUnit.scratchTrace
  rw [mixedPair_tree g i valueLo valueHi hhi]
  have hset : RegSet.ofList [Reg.single i] = .empty := rfl
  rcases hrun : s.pool.borrow .empty with e | ⟨r, p⟩
  · simp [runIn, CodeUnit.traced, Effect.beside, Session.unit, Session.on_borrow, hset, hrun]
  · have hback : ∃ p', p.release (.gp r) = .ok p' := by
      have hin := (ScratchPool.eligible_iff.mp (ScratchPool.eligible_of_borrow hrun)).1
      obtain ⟨-, rfl⟩ := ScratchPool.borrow_eq_ok.mp hrun
      exact ⟨_, ScratchPool.release_eq_ok hin (by simp)⟩
    obtain ⟨p', hback⟩ := hback
    simp [runIn, CodeUnit.traced, Effect.beside, Session.unit, Session.on_borrow,
      Session.on_release, hset, hrun, hback, ScratchEvent.lentReg?]

end MixedPair

/-! ## §4. Aliasing. -/

/-- **WHEN AN OPERAND IS LENT.**  A scratch register coincides with an operand
of its request exactly when the request is for a pair of constants whose low
half goes to a general-purpose register and whose high half, not zero, goes
to a single-precision one, and that low register is the next one the pool
lends. -/
theorem scratch_aliases_operand_iff (s : Session) (q : Request) :
    (∃ g, .gp g ∈ q.operands ∧ .gp g ∈ s.lentFor q) ↔
      ∃ g i valueLo valueHi p, q = .constantPair (.gp g) (.single i) valueLo valueHi ∧
        valueHi ≠ 0 ∧ s.pool.borrow .empty = .ok (g, p) := by
  constructor
  · rintro ⟨g, hop, hlent⟩
    by_cases hmixed : ∀ g i valueLo valueHi,
        q = .constantPair (.gp g) (.single i) valueLo valueHi → valueHi = 0
    · exact absurd hop (lentFor_spares hmixed s g hlent)
    · simp only [Classical.not_forall] at hmixed
      obtain ⟨lo, i, valueLo, valueHi, rfl, hhi⟩ := hmixed
      rw [lentFor_mixedPair s lo i hhi] at hlent
      rcases hrun : s.pool.borrow .empty with e | ⟨r, p⟩ <;> rw [hrun] at hlent
      · exact absurd hlent List.not_mem_nil
      · -- The only general-purpose operand is the low half.
        obtain rfl : g = lo := by simpa [Request.operands, Reg.single] using hop
        obtain rfl : g = r := by simpa using hlent
        exact ⟨g, i, valueLo, valueHi, p, rfl, hhi, rfl⟩
  · rintro ⟨g, i, valueLo, valueHi, p, rfl, hhi, hrun⟩
    refine ⟨g, List.mem_cons_self, ?_⟩
    rw [lentFor_mixedPair s g i hhi, hrun]
    exact List.mem_singleton_self _

/-- A fresh session lends `eax` while it makes the pair `eax`, `xmm0`, so the
low half is lost. -/
theorem scratch_aliases_low_half :
    ¬ ∀ (s : Session) (q : Request) (g : GpReg), .gp g ∈ q.operands → .gp g ∉ s.lentFor q := by
  intro h
  exact h (.new Session.defaultScratch) (.constantPair (.gp .eax) (.single 0) 1 2) .eax
    (by decide) (by decide)

end TwoAddress
