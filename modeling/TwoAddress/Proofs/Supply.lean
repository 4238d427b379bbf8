/-
  TwoAddress.Proofs.Supply
  ────────────────────────
  **THE REGISTERS THAT A REQUEST DRAWS ON.**

  An instruction names registers, and the machine is particular about which
  stand where: arithmetic wants general-purpose registers, packing wants xmm
  registers that the machine has.  Where they come from is simple.  Every
  register of an instruction is an operand of the request or was lent for it:

    • §1 a `Supply` says which registers may be used for what, and
      `Supply.Covers` which instructions keep to it;
    • §2 the `lending` protocol, where what is lent belongs to the supply;
    • §3 the synthesizers that work in registers, one lemma each;
    • §4 whole requests (`Request.follows_supply`);
    • §5 the records that a run of such requests leaves on a session.
-/
import TwoAddress.Proofs.Appended
import TwoAddress.Proofs.EmittedCode

namespace TwoAddress

/-! ## §1. Supplies. -/

/-- The registers that may be used, by what is done with them. -/
structure Supply where
  /-- Their content may be copied, or packed if they are xmm registers. -/
  held : Reg → Prop
  /-- Arithmetic may be done on them. -/
  worked : Reg → Prop
  held_of_worked : ∀ {r}, worked r → held r

namespace Supply

/-- A constant may be put there: directly, or by way of another register if it
is an xmm register. -/
def Takes (p : Supply) (r : Reg) : Prop := p.held r ∧ (r.isXmm = false → p.worked r)

/-- The instruction works in registers of the supply.  What transfers control is
not followed, so its registers do not matter. -/
inductive Covers (p : Supply) : Instruction → Prop where
  | copy {dest src : Reg} {i : Instruction} (hdest : p.held dest) (hsrc : p.held src)
      (h : Synthesis.copyInstruction dest src = .ok i) : Covers p i
  | constant {dest : Reg} (hdest : p.worked dest) (value : Word) :
      Covers p { opcode := .mov32RI, operands := [.reg dest, .imm value] }
  | unary {opcode : Opcode} {dest : Reg} (h : opcode ∈ [.neg32R, .not32R, .callR])
      (hdest : p.worked dest) : Covers p { opcode, operands := [.reg dest] }
  | immediate (op : Operation) {opcode : Opcode} {dest : Reg} {value : Word}
      (h : Synthesis.immediateOpcode? op value.fitsByte = some opcode) (hdest : p.worked dest) :
      Covers p { opcode, operands := [.reg dest, .imm value] }
  | multiply {opcode : Opcode} {dest src : Reg} (h : opcode ∈ [.imul32RRI8, .imul32RRI])
      (hdest : p.worked dest) (hsrc : p.worked src) (value : Word) :
      Covers p { opcode, operands := [.reg dest, .reg src, .imm value] }
  | register (op : Operation) {opcode : Opcode} {dest src : Reg}
      (h : Synthesis.registerOpcode? op = some opcode) (hdest : p.worked dest)
      (hsrc : p.worked src) : Covers p { opcode, operands := [.reg dest, .reg src] }
  | shift (op : Operation) {opcode : Opcode} {dest : Reg}
      (h : Synthesis.shiftOpcode? op = some opcode) (hdest : p.worked dest) :
      Covers p { opcode, operands := [.reg dest, .reg .counter] }
  | extendByte {opcode : Opcode} {dest src : Reg} (h : opcode ∈ [.movsx8RR, .movzx8RR])
      (hdest : p.worked dest) (hsrc : p.worked src) :
      Covers p { opcode, operands := [.reg dest, .reg src] }
  | lea {dest base index : Reg} (hdest : p.worked dest) (hbase : p.worked base)
      (hindex : p.worked index ∨ index = .absent) (disp : Word) :
      Covers p
        { opcode := .lea32RA, operands := [.reg dest, .reg base, .reg index, .imm 0, .imm disp] }
  | clear {dest : Reg} (hdest : p.held dest) (hxmm : dest.isXmm = true) :
      Covers p { opcode := .xorpsRR, operands := [.reg dest, .reg dest] }
  | fill {dest src : Reg} (hdest : p.held dest) (hxmm : dest.isXmm = true) (hsrc : p.worked src) :
      Covers p { opcode := .movdxrRR, operands := [.reg dest, .reg src] }
  | raise {dest : Reg} (hdest : p.held dest) (hxmm : dest.isXmm = true) :
      Covers p { opcode := .psllqRI, operands := [.reg dest, .imm 32] }
  | join {dest src : Reg} (hdest : p.held dest) (hxmm : dest.isXmm = true) (hsrc : p.held src)
      (hxmm' : src.isXmm = true) : Covers p { opcode := .orpsRR, operands := [.reg dest, .reg src] }
  | control {opcode : Opcode} (h : opcode.action = .transferControl) (operands : List Operand) :
      Covers p { opcode, operands }

end Supply

/-- The remark shows no address. -/
def Note.Plain : Note → Prop
  | highHalfFirst _ => False
  | _ => True

/-- What is asked for keeps to a supply.  Nothing is noted about the frame. -/
def Demand.within (p : Supply) : Demand → Prop
  | append i => p.Covers i
  | note n => n.Plain
  | annotate _ _ => False
  | retarget _ _ | borrow _ | release _ => True

/-! ## §2. Lending. -/

/-- Every request satisfies `P`, and every register lent satisfies `lent`. -/
def lending (lent : Reg → Prop) (P : Demand → Prop) : Protocol Unit where
  append i _ K := P (.append i) ∧ ∀ id, K id ()
  retarget id target _ K := P (.retarget id target) ∧ K ()
  borrow exclude _ K := P (.borrow exclude) ∧ ∀ r, lent r → K r ()
  release r _ K := P (.release r) ∧ K ()
  annotate id access _ K := P (.annotate id access) ∧ K ()
  note n _ K := P (.note n) ∧ K ()

namespace Synthesis

variable {α : Type} {lent lent' : Reg → Prop} {P P' : Demand → Prop} {Q Q' : α → Unit → Prop}

/-- What is asked for whatever is lent, is asked for here. -/
theorem Asks.follows_lending {x : Synthesis α} (h : x.Asks P) (hQ : ∀ a, Q a ()) :
    x.Follows (lending lent P) () Q := by
  refine h.follows (fun d hd => ?_) (fun _ => trivial) hQ
  cases d with
  | borrow exclude => exact fun K hK => ⟨hd, fun r _ => hK r⟩
  | _ => exact fun K hK => ⟨hd, hK⟩

/-- More may be asked, and less lent. -/
theorem Follows.lending_mono (hlent : ∀ r, lent' r → lent r) (hP : ∀ d, P d → P' d)
    (hQ : ∀ a, Q a () → Q' a ()) {x : Synthesis α} (h : x.Follows (lending lent P) () Q) :
    x.Follows (lending lent' P') () Q' := by
  induction x with
  | done a => exact hQ a h
  | fail f => trivial
  | append i next ih => exact ⟨hP _ h.1, fun id => ih id (h.2 id)⟩
  | retarget id target next ih => exact ⟨hP _ h.1, ih h.2⟩
  | borrow exclude next ih => exact ⟨hP _ h.1, fun r hr => ih r (h.2 r (hlent r hr))⟩
  | release r next ih => exact ⟨hP _ h.1, ih h.2⟩
  | annotate id access next ih => exact ⟨hP _ h.1, ih h.2⟩
  | note n next ih => exact ⟨hP _ h.1, ih h.2⟩

/-- Where any register may be lent, the protocol is about the requests alone. -/
theorem Follows.asks {x : Synthesis α} (h : x.Follows (lending (fun _ => True) P) () Q) :
    x.Asks P := by
  induction x with
  | done a => trivial
  | fail f => trivial
  | append i next ih => exact ⟨h.1, fun id => ih id (h.2 id)⟩
  | retarget id target next ih => exact ⟨h.1, ih h.2⟩
  | borrow exclude next ih => exact ⟨h.1, fun r => ih r (h.2 r trivial)⟩
  | release r next ih => exact ⟨h.1, ih h.2⟩
  | annotate id access next ih => exact ⟨h.1, ih h.2⟩
  | note n next ih => exact ⟨h.1, ih h.2⟩

/-! ## §3. Synthesizers that work in registers. -/

variable {p : Supply} {dest src src1 src2 r : Reg}

theorem copy_within (hdest : p.held dest) (hsrc : p.held src) :
    (copy dest src).Asks (Demand.within p) := by
  unfold copy
  cases h : copyInstruction dest src with
  | error f => trivial
  | ok i => exact ⟨.copy hdest hsrc h, fun _ => trivial⟩

theorem gpConstant_within (hdest : p.worked dest) (value : Word) :
    (gpConstant dest value).Asks (Demand.within p) := by
  unfold gpConstant
  split
  · exact asks_emit (.register .xor rfl hdest hdest)
  · exact asks_emit (.constant hdest value)

theorem unary_within (op : Operation) (hdest : p.worked dest) :
    (unary op dest).Asks (Demand.within p) := by
  unfold unary
  split
  · exact asks_emit (.unary (by decide) hdest)
  · exact asks_emit (.unary (by decide) hdest)
  · exact asks_emit (.unary (by decide) hdest)
  · trivial

theorem multiplyImm_within (hdest : p.worked dest) (hsrc : p.worked src) (value : Word) :
    (multiplyImm dest src value).Asks (Demand.within p) := by
  refine asks_emit (.multiply ?_ hdest hsrc value)
  split <;> decide

theorem binaryImm_within (op : Operation) (hdest : p.worked dest) (value : Word) :
    (binaryImm op dest value).Asks (Demand.within p) := by
  unfold binaryImm
  cases hxmm : dest.isXmm with
  | true => trivial
  | false =>
      refine (asks_require _ _).bind fun _ => ?_
      split
      · -- A constant for a register that is no xmm register is made in place.
        rw [constant, if_neg (by simp [hxmm])]
        exact gpConstant_within hdest value
      · exact multiplyImm_within hdest hdest value
      · split
        next h => exact asks_emit (.immediate op h hdest)
        next => trivial

theorem widenByte_within (hdest : p.worked dest) (hsrc : p.worked src) :
    (widenByte dest src).Asks (Demand.within p) := by
  unfold widenByte
  split
  · exact asks_emit (.extendByte (by decide) hdest hsrc)
  · refine (asks_emit (.register .mov rfl hdest hsrc)).bind fun _ => ?_
    refine (asks_emit (.immediate .lsl rfl hdest)).bind fun _ => ?_
    exact asks_emit (.immediate .asr rfl hdest)

theorem binary_within (op : Operation) (hdest : p.worked dest) (hsrc : p.worked src) :
    (binary op dest src).Asks (Demand.within p) := by
  have hcopied : ∀ op, (copy dest src >>= fun _ => unary op dest).Asks (Demand.within p) :=
    fun op => (copy_within (p.held_of_worked hdest) (p.held_of_worked hsrc)).bind fun _ =>
      unary_within op hdest
  unfold binary
  split
  · exact hcopied _
  · exact hcopied _
  · exact widenByte_within hdest hsrc
  · split
    next h =>
      split
      next hcounter =>
        subst hcounter
        exact asks_emit (.shift op h hdest)
      next => trivial
    next =>
      split
      next h => exact asks_emit (.register op h hdest hsrc)
      next => trivial

theorem addApart_within (hdest : p.worked dest) (hsrc1 : p.worked src1) (hsrc2 : p.worked src2) :
    (addApart dest src1 src2).Asks (Demand.within p) := by
  unfold addApart
  split
  · refine (asks_remark trivial).bind fun _ => ?_
    refine (copy_within (p.held_of_worked hdest) (p.held_of_worked hsrc1)).bind fun _ => ?_
    exact binaryImm_within .lsl hdest 1
  · refine (asks_remark trivial).bind fun _ => ?_
    split
    · exact asks_emit (.lea hdest hsrc2 (.inl hsrc1) 0)
    · exact asks_emit (.lea hdest hsrc1 (.inl hsrc2) 0)

theorem copyThenImm_within (op : Operation) (hdest : p.worked dest) (hsrc : p.worked src)
    (value : Word) : (copyThenImm op dest src value).Asks (Demand.within p) := by
  unfold copyThenImm
  split
  · exact binaryImm_within op hdest value
  · refine (copy_within (p.held_of_worked hdest) (p.held_of_worked hsrc)).bind fun _ => ?_
    exact binaryImm_within op hdest value

theorem ternaryImm_within (op : Operation) (hdest : p.worked dest) (hsrc : p.worked src)
    (value : Word) : (ternaryImm op dest src value).Asks (Demand.within p) := by
  unfold ternaryImm
  split
  · exact multiplyImm_within hdest hsrc value
  · split
    · exact (asks_remark trivial).bind fun _ => asks_emit (.extendByte (by decide) hdest hsrc)
    · split
      · exact (asks_remark trivial).bind fun _ =>
          asks_emit (.register .widenChar rfl hdest hsrc)
      · exact copyThenImm_within .and hdest hsrc value
  · split
    · exact binaryImm_within .add hdest value
    · exact (asks_remark trivial).bind fun _ => asks_emit (.lea hdest hsrc (.inr rfl) value)
  · exact copyThenImm_within op hdest hsrc value

/-! Scratch registers. -/

theorem viaScratch_within (hdest : p.held dest) (hxmm : dest.isXmm = true) (value : Word)
    (hr : p.worked r) : (viaScratch dest value r).Asks (Demand.within p) := by
  refine (gpConstant_within hr value).bind fun _ => ?_
  exact (asks_emit (.fill hdest hxmm hr)).bind fun _ => trivial

theorem inScratch_within (op : Operation) (hdest : p.worked dest) (hsrc1 : p.worked src1)
    (hsrc2 : p.worked src2) (hr : p.worked r) :
    (inScratch op dest src1 src2 r).Asks (Demand.within p) := by
  have hheld := p.held_of_worked hr
  refine (asks_require _ _).bind fun _ => (asks_remark trivial).bind fun _ => ?_
  refine (copy_within hheld (p.held_of_worked hsrc1)).bind fun _ => ?_
  refine (binary_within op hr hsrc2).bind fun _ => ?_
  exact copy_within (p.held_of_worked hdest) hheld

variable {Q : RecordId → Unit → Prop}

theorem withScratch_within {exclude : List Reg} {body : Reg → Synthesis RecordId}
    (hbody : ∀ r, p.worked r → (body r).Asks (Demand.within p)) (hQ : ∀ id, Q id ()) :
    (withScratch exclude body).Follows (lending p.worked (Demand.within p)) () Q := by
  refine Follows.seq ⟨trivial, fun r hr => ?_⟩
  exact Follows.seq ((hbody r hr).follows_lending fun id => ⟨trivial, hQ id⟩)

theorem constant_within (hdest : p.Takes dest) (value : Word) (hQ : ∀ id, Q id ()) :
    (constant dest value).Follows (lending p.worked (Demand.within p)) () Q := by
  cases hxmm : dest.isXmm with
  | false =>
      rw [constant, if_neg (by simp [hxmm])]
      exact (gpConstant_within (hdest.2 hxmm) value).follows_lending hQ
  | true =>
      by_cases hvalue : value = 0
      · rw [constant, if_pos hxmm, if_pos hvalue]
        exact ⟨.clear hdest.1 hxmm, hQ⟩
      · rw [constant_eq_withScratch hxmm hvalue]
        refine (asks_require _ _).follows_then (fun _ => trivial) fun _ => ?_
        exact withScratch_within (fun r hr => viaScratch_within hdest.1 hxmm value hr) hQ

theorem constantPair_within {lo hi : Reg} (hlo : p.Takes lo) (hhi : p.Takes hi)
    (valueLo valueHi : Word) (hQ : ∀ id, Q id ()) :
    (constantPair lo hi valueLo valueHi).Follows (lending p.worked (Demand.within p)) () Q := by
  cases hxmm : lo.isXmm with
  | true =>
      rw [constantPair_of_xmm hxmm]
      refine Follows.seq ?_
      -- The high half has to pass a check, and what fails it asks for nothing.
      cases hxmm' : hi.isXmm with
      | false => trivial
      | true =>
          refine Follows.seq (constant_within hlo valueLo fun id => ?_)
          unfold withHighHalf
          split
          · refine Follows.seq (constant_within hhi valueHi fun _ => ?_)
            -- What is left is to shift the high half up and to put it on top.
            exact ⟨.raise hhi.1 hxmm', fun _ => ⟨.join hlo.1 hxmm hhi.1 hxmm', fun _ => hQ id⟩⟩
          · exact hQ id
  | false =>
      rw [constantPair_of_gp hxmm]
      refine Follows.seq (constant_within hlo valueLo fun id => ?_)
      exact Follows.seq (constant_within hhi valueHi fun _ => hQ id)

theorem intoSecond_within (op : Operation) (hdest : p.worked dest) (hsrc1 : p.worked src1)
    (hsrc2 : p.worked src2) (hQ : ∀ id, Q id ()) :
    (intoSecond op dest src1 src2).Follows (lending p.worked (Demand.within p)) () Q := by
  unfold intoSecond
  split
  · exact (binary_within op hdest hsrc1).follows_lending hQ
  · split
    case h_1 =>
      refine Asks.follows_lending ?_ hQ
      refine (asks_remark trivial).bind fun _ => (unary_within .neg hdest).bind fun _ => ?_
      exact binary_within .add hdest hsrc1
    case h_7 => trivial
    all_goals
      rw [throughScratch_eq_withScratch]
      exact withScratch_within (fun r hr => inScratch_within _ hdest hsrc1 hsrc2 hr) hQ

theorem ternary_within (op : Operation) (hdest : p.worked dest) (hsrc1 : p.worked src1)
    (hsrc2 : p.worked src2) (hQ : ∀ id, Q id ()) :
    (ternary op dest src1 src2).Follows (lending p.worked (Demand.within p)) () Q := by
  unfold ternary
  split
  · exact (binary_within op hdest hsrc2).follows_lending hQ
  · split
    · exact intoSecond_within op hdest hsrc1 hsrc2 hQ
    · refine Asks.follows_lending ?_ hQ
      split
      · exact addApart_within hdest hsrc1 hsrc2
      · refine (copy_within (p.held_of_worked hdest) (p.held_of_worked hsrc1)).bind fun _ => ?_
        exact binary_within op hdest hsrc2

end Synthesis

/-! ## §4. Requests. -/

/-- The operands of a request that moves no data are in a supply, each where it
is needed. -/
def Request.DrawsOn (p : Supply) : Request → Prop
  | copy dest src => p.held dest ∧ p.held src
  | constant dest _ => p.Takes dest
  | constantPair lo hi _ _ => p.Takes lo ∧ p.Takes hi
  | unary _ dest | binaryImm _ dest _ => p.worked dest
  | binary _ dest src | ternaryImm _ dest src _ => p.worked dest ∧ p.worked src
  | ternary _ dest src1 src2 => p.worked dest ∧ p.worked src1 ∧ p.worked src2
  | _ => True

/-- **Nothing but the supply is used**, if nothing else is lent. -/
theorem Request.follows_supply {p : Supply} {q : Request} (hdata : q.movesData = false)
    (h : q.DrawsOn p) :
    q.synthesis.Follows (lending p.worked (Demand.within p)) () fun _ _ => True := by
  have hdone : ∀ id : RecordId, (Synthesis.done (Reply.appended id)).Follows
      (lending p.worked (Demand.within p)) () fun _ _ => True := fun _ => trivial
  cases q with
  | copy dest src =>
      exact Synthesis.Follows.seq ((Synthesis.copy_within h.1 h.2).follows_lending hdone)
  | detachedCopy dest src =>
      exact (Synthesis.asks_ofExcept _).follows_then (fun _ => trivial) fun _ => trivial
  | constant dest value => exact Synthesis.Follows.seq (Synthesis.constant_within h value hdone)
  | isCheapConstant dest value => trivial
  | constantPair lo hi valueLo valueHi =>
      exact Synthesis.Follows.seq (Synthesis.constantPair_within h.1 h.2 valueLo valueHi hdone)
  | unary op dest =>
      exact Synthesis.Follows.seq ((Synthesis.unary_within op h).follows_lending hdone)
  | binaryImm op dest value =>
      exact Synthesis.Follows.seq ((Synthesis.binaryImm_within op h value).follows_lending hdone)
  | binary op dest src =>
      exact Synthesis.Follows.seq ((Synthesis.binary_within op h.1 h.2).follows_lending hdone)
  | ternary op dest src1 src2 =>
      exact Synthesis.Follows.seq (Synthesis.ternary_within op h.1 h.2.1 h.2.2 hdone)
  | ternaryImm op dest src value =>
      exact Synthesis.Follows.seq
        ((Synthesis.ternaryImm_within op h.1 h.2 value).follows_lending hdone)
  | callMem op base disp =>
      refine Synthesis.Follows.seq ?_
      unfold Synthesis.callMem
      split
      · exact ⟨.control rfl _, hdone⟩
      · trivial
  | callThread op offset =>
      refine Synthesis.Follows.seq ?_
      unfold Synthesis.callThread
      split
      · exact ⟨.control rfl _, hdone⟩
      · trivial
  | jump target => exact ⟨.control rfl _, fun _ => ⟨trivial, trivial⟩⟩
  | jumpIf cond target =>
      refine Synthesis.Follows.seq ?_
      refine (Synthesis.asks_ofExcept _).follows_then (fun _ => trivial) fun field => ?_
      exact ⟨.control rfl _, fun _ => ⟨trivial, trivial⟩⟩
  | attachTarget branch target => exact ⟨trivial, trivial⟩
  | binaryMem op dest base disp => exact absurd hdata (by simp [movesData])
  | transfer t => exact absurd hdata (by simp [movesData])

/-! ## §5. Sessions. -/

variable {P : Instruction → Prop}

/-- **Every instruction has a property** that those of the supply have, and those
that move data.  A session lends general-purpose registers, so these are in the
supply. -/
theorem Request.follows_appends {p : Supply} {q : Request} (hlent : ∀ g, p.worked (.gp g))
    (hdraws : q.DrawsOn p) (hcovers : ∀ i, p.Covers i → P i)
    (hmemory : ∀ op opcode dest base disp, q = .binaryMem op dest base disp →
      Synthesis.memoryOpcode? op = some opcode →
      P { opcode, operands := [.reg dest, .reg base, .imm disp] })
    (hmove : ∀ t, q = .transfer t → t.Admitted → ∀ part ∈ t.parts,
      P (Synthesis.transferMove t.direction t.size part.1 part.2)) :
    q.synthesis.Follows (lending (·.isGp = true) (Demand.appends P)) () fun _ _ => True := by
  cases hdata : q.movesData with
  | true => exact (asks_data hdata hmemory hmove).follows_lending fun _ => trivial
  | false =>
      refine (follows_supply hdata hdraws).lending_mono (fun r hr => ?_) (fun d hd => ?_)
        fun _ h => h
      · cases r with
        | gp g => exact hlent g
        | _ => exact absurd hr (by simp [Reg.isGp])
      · cases d with
        | append i => exact hcovers i hd
        | _ => trivial

namespace Session

variable {s : Session} {n : Nat}

/-- What a session lends is a general-purpose register. -/
theorem lending_keeps (hP : Retargetable P) (n : Nat) :
    (lending (·.isGp = true) (Demand.appends P)).Keeps unit (fun _ => HoldsAt P n)
      (HoldsAt P n) where
  append {i t s K} h hK := ⟨(), h.push hK.1, hK.2 ⟨s.records.length⟩⟩
  retarget h hK := (appending_keeps hP n).retarget h hK.2
  borrow {exclude t s K} h hK := by
    simp only [unit, on_borrow]
    split
    · exact ⟨(), h, hK.2 _ rfl⟩
    · exact h
  release h hK := (appending_keeps hP n).release h hK.2
  annotate h hK := (appending_keeps hP n).annotate h hK.2
  note h hK := (appending_keeps hP n).note h hK.2
  stop h _ := h

theorem HoldsAt.afterLending (hP : Retargetable P) {qs : List Request}
    (hqs : ∀ q ∈ qs,
      q.synthesis.Follows (lending (·.isGp = true) (Demand.appends P)) () fun _ _ => True)
    (h : s.HoldsAt P n) : (s.afterRequests qs).HoldsAt P n := by
  induction qs generalizing s with
  | nil => exact h
  | cons q qs ih =>
      rw [afterRequests_cons]
      obtain ⟨hq, hrest⟩ := List.forall_mem_cons.mp hqs
      exact ih hrest (meet_keeps (lending_keeps hP n) h hq)

/-- **The code that a run adds** has the property, instruction by instruction. -/
theorem forall_added_code (hP : Retargetable P) {qs : List Request}
    (hqs : ∀ q ∈ qs,
      q.synthesis.Follows (lending (·.isGp = true) (Demand.appends P)) () fun _ _ => True)
    (s : Session) : ∀ i ∈ (s.afterRequests qs).codeFrom s.records.length, P i := by
  intro i hi
  obtain ⟨k, hk⟩ := List.mem_iff_getElem?.mp hi
  rw [codeFrom, instructions, List.getElem?_drop, List.getElem?_map, Option.map_eq_some_iff] at hk
  obtain ⟨r, hr, rfl⟩ := hk
  -- Nothing stood at this place before the run.
  have hbefore : s.HoldsAt P (s.records.length + k) := holdsAt_of_length_le (by omega)
  exact hbefore.afterLending hP hqs r hr

end Session

end TwoAddress
