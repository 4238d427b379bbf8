/-
  TwoAddress.Proofs.Replies
  ─────────────────────────
  **WHAT A REPLY NAMES.**

  Callers keep the positions they are told: they patch branches through them
  and hang notes on them.  So a position has to stay valid, and it has to be
  that of the record the caller has in mind, however many records a request
  appends and in whichever order.  Positions have no bound; a caller that keeps
  them in 32 bits can tell 2³² records apart and no more, so for such a caller
  what follows holds of streams up to that length.

    • §1 what a request may change about a stream, and which record its reply
      names (`Session.Answers`);
    • §2 requests whose records are numbered as they come;
    • §3 transfers, which reply with the move of the low half;
    • §4 targets, and with them every request (`replies_name_records`).
-/
import TwoAddress.Proofs.FrameNotes
import TwoAddress.Proofs.Numbering

namespace TwoAddress

/-! ## §1. Streams and replies. -/

/-- What a request makes of a record that is there: attaching a target changes
the target of one branch, and nothing else changes anything. -/
def Request.amended (q : Request) (n : Nat) (r : Record) : Record :=
  match q with
  | attachTarget branch target =>
      if branch.index = n ∧ r.opcode.isBranch then { r with target := some target } else r
  | _ => r

/-- The register and the address of an instruction that moves a value between
the two. -/
def Instruction.access? (i : Instruction) : Option (Reg × Address) :=
  match i.opcode.form with
  | .rm => some (i.regAt 0, { base := i.regAt 1, disp := i.immAt 2 })
  | .ra =>
      some (i.regAt 0,
        { base := i.regAt 1, index := i.regAt 2, scale := .ofNat (i.immAt 3).toNat,
          disp := i.immAt 4 })
  | .mr => some (i.regAt 2, { base := i.regAt 0, disp := i.immAt 1 })
  | .ar =>
      some (i.regAt 4,
        { base := i.regAt 0, index := i.regAt 1, scale := .ofNat (i.immAt 2).toNat,
          disp := i.immAt 3 })
  | _ => none

/-- The instruction moves the low half of a transfer, or all of it, at exactly
the address of the transfer.  Without an index the scale does not count. -/
structure Transfer.MovesLow (t : Transfer) (i : Instruction) : Prop where
  effects : i.opcode.effects = match t.direction with | .load => .load | .store => .store
  access : i.access? =
    some (t.whole, if t.index = .absent then .plain t.base t.disp else t.address)

/-- The record that a reply names, among the records after a request.  Before
it there were `old` of them. -/
def Request.Names (q : Request) (old : Nat) (records : List Record) (reply : Reply) : Prop :=
  match q with
  -- These append nothing, and so they name nothing.
  | detachedCopy _ _ => ∃ i, reply = .detached i
  | isCheapConstant _ _ => ∃ b, reply = .answer b
  | attachTarget _ _ => reply = .done
  -- Arithmetic is told by its last record.
  | unary _ _ | binaryImm _ _ _ | binary _ _ _ | binaryMem _ _ _ _ | ternary _ _ _ _
  | ternaryImm _ _ _ _ =>
      ∃ id, reply = .appended id ∧ old ≤ id.index ∧ id.index + 1 = records.length
  -- A pair of constants is told by its first.
  | constantPair _ _ _ _ =>
      ∃ id, reply = .appended id ∧ id.index = old ∧ id.index < records.length
  | transfer t =>
      ∃ id r, reply = .appended id ∧ old ≤ id.index ∧ records[id.index]? = some r ∧
        t.MovesLow r.toInstruction
  | copy _ _ | constant _ _ | callMem _ _ _ | callThread _ _ | jump _ | jumpIf _ _ =>
      ∃ id, reply = .appended id ∧ old ≤ id.index ∧ id.index < records.length

/-- What meeting a request does to the stream of a session, and what the reply
says about it. -/
structure Session.Answers (s : Session) (q : Request) : Prop where
  kept : ∀ n r, s.records[n]? = some r → (s.meet q).2.records[n]? = some (q.amended n r)
  stamped : ∀ n r, s.records.length ≤ n → (s.meet q).2.records[n]? = some r → r.offset = s.offset
  named : ∀ reply, (s.meet q).1 = .ok reply →
    q.Names s.records.length (s.meet q).2.records reply

namespace Session

variable {s t : Session} {q : Request} {added : List Record} {result : Except Fault Reply}

/-- All is well if the old stream is still there, new records follow it at the
offset of the session, and the reply names what it should. -/
theorem answers_of_added (hmeet : s.meet q = (result, t)) (hrecords : t.records = s.records ++ added)
    (hstamped : ∀ r ∈ added, r.offset = s.offset)
    (hsame : ∀ k r, s.records[k]? = some r → q.amended k r = r)
    (hnamed : ∀ reply, result = .ok reply → q.Names s.records.length t.records reply) :
    s.Answers q := by
  refine ⟨?_, ?_, ?_⟩ <;> rw [hmeet]
  · intro k r hr
    show t.records[k]? = _
    rw [hsame k r hr, hrecords, List.getElem?_append_left (List.getElem?_eq_some_iff.mp hr).1]
    exact hr
  · intro k r hk hr
    replace hr : t.records[k]? = some r := hr
    rw [hrecords, List.getElem?_append_right hk] at hr
    exact hstamped r (List.mem_of_getElem? hr)
  · exact hnamed

/-- A request that is refused at once changes nothing and names nothing. -/
theorem answers_of_refused {f : Fault} (hmeet : s.meet q = (.error f, s))
    (hsame : ∀ k r, s.records[k]? = some r → q.amended k r = r) : s.Answers q := by
  refine answers_of_added hmeet (List.append_nil _).symm ?_ hsame ?_
  · exact fun r hr => absurd hr List.not_mem_nil
  · exact fun reply hreply => nomatch hreply

end Session

/-! ## §2. Numbered requests. -/

/-- The request is answered by the records it appends, one after the other.
Transfers and targets have equations of their own. -/
def Request.isNumbered : Request → Bool
  | transfer _ | attachTarget _ _ => false
  | _ => true

/-- **Every numbered request** names the record that it should. -/
theorem Request.follows_numbering {q : Request} (hq : q.isNumbered = true) (start : Nat) :
    q.synthesis.Follows (numbering start) start fun reply n =>
      ∀ records : List Record, records.length = n → q.Names start records reply := by
  cases q with
  | copy dest src =>
      refine Synthesis.Follows.seq (Synthesis.copy_numbering dest src fun records hn => ?_)
      exact ⟨⟨start⟩, rfl, Nat.le_refl start, hn ▸ Nat.lt_succ_self start⟩
  | detachedCopy dest src =>
      exact (Synthesis.asks_ofExcept _).follows_then (fun _ => trivial) fun i _ _ => ⟨i, rfl⟩
  | constant dest value =>
      refine Synthesis.Follows.seq (Synthesis.constant_numbering dest value fun m hm records hn => ?_)
      exact ⟨⟨start⟩, rfl, Nat.le_refl start, hn ▸ hm⟩
  | isCheapConstant dest value => exact fun _ _ => ⟨true, rfl⟩
  | constantPair lo hi valueLo valueHi =>
      refine Synthesis.Follows.seq
        (Synthesis.constantPair_numbering lo hi valueLo valueHi fun m hm records hn => ?_)
      exact ⟨⟨start⟩, rfl, rfl, hn ▸ hm⟩
  | unary op dest =>
      refine Synthesis.Follows.seq (Synthesis.unary_numbering op dest fun records hn => ?_)
      exact ⟨⟨start⟩, rfl, Nat.le_refl start, hn.symm⟩
  | binaryImm op dest value =>
      refine Synthesis.Follows.seq (Synthesis.binaryImm_numbering op dest value fun records hn => ?_)
      exact ⟨⟨start⟩, rfl, Nat.le_refl start, hn.symm⟩
  | binary op dest src =>
      refine Synthesis.Follows.seq (Synthesis.binary_numbering op dest src fun k hk records hn => ?_)
      exact ⟨⟨k⟩, rfl, hk, hn.symm⟩
  | binaryMem op dest base disp =>
      refine Synthesis.Follows.seq
        (Synthesis.binaryMem_numbering op dest base disp fun records hn => ?_)
      exact ⟨⟨start⟩, rfl, Nat.le_refl start, hn.symm⟩
  | callMem op base disp =>
      refine Synthesis.Follows.seq (Synthesis.callMem_numbering op base disp fun records hn => ?_)
      exact ⟨⟨start⟩, rfl, Nat.le_refl start, hn ▸ Nat.lt_succ_self start⟩
  | callThread op offset =>
      refine Synthesis.Follows.seq (Synthesis.callThread_numbering op offset fun records hn => ?_)
      exact ⟨⟨start⟩, rfl, Nat.le_refl start, hn ▸ Nat.lt_succ_self start⟩
  | ternary op dest src1 src2 =>
      refine Synthesis.Follows.seq
        (Synthesis.ternary_numbering op dest src1 src2 fun k hk records hn => ?_)
      exact ⟨⟨k⟩, rfl, hk, hn.symm⟩
  | ternaryImm op dest src value =>
      refine Synthesis.Follows.seq
        (Synthesis.ternaryImm_numbering op dest src value fun k hk records hn => ?_)
      exact ⟨⟨k⟩, rfl, hk, hn.symm⟩
  | jump target =>
      refine Synthesis.Follows.seq
        (Synthesis.jump_numbering target (Nat.le_refl start) fun records hn => ?_)
      exact ⟨⟨start⟩, rfl, Nat.le_refl start, hn ▸ Nat.lt_succ_self start⟩
  | jumpIf cond target =>
      refine Synthesis.Follows.seq
        (Synthesis.jumpIf_numbering cond target (Nat.le_refl start) fun records hn => ?_)
      exact ⟨⟨start⟩, rfl, Nat.le_refl start, hn ▸ Nat.lt_succ_self start⟩
  | transfer t => exact absurd hq (by simp [isNumbered])
  | attachTarget branch target => exact absurd hq (by simp [isNumbered])

theorem Request.amended_of_numbered {q : Request} (hq : q.isNumbered = true) (n : Nat)
    (r : Record) : q.amended n r = r := by
  cases q with
  | attachTarget branch target => exact absurd hq (by simp [isNumbered])
  | _ => rfl

theorem Session.answers_numbered (s : Session) {q : Request} (hq : q.isNumbered = true) :
    s.Answers q := by
  have hmet : Met s.Extends _ _ (s.meet q) :=
    (q.follows_numbering hq s.records.length).met (numbering_keeps s) (Extends.begin s)
  have hsame := fun k r (_ : s.records[k]? = some r) => q.amended_of_numbered hq k r
  rcases hmeet : s.meet q with ⟨f | reply, t⟩ <;> rw [hmeet] at hmet
  · -- Stopped half way: the records of the first half are there.
    obtain ⟨n, h⟩ := hmet
    obtain ⟨added, hadded, -, hstamped⟩ := h.records
    exact answers_of_added hmeet hadded hstamped hsame fun _ hreply => nomatch hreply
  · obtain ⟨n, h, hnames⟩ := hmet
    obtain ⟨added, hadded, -, hstamped⟩ := h.records
    refine answers_of_added hmeet hadded hstamped hsame fun _ hreply => ?_
    obtain rfl := Except.ok.inj hreply
    exact hnames t.records h.length

/-! ## §3. The low half. -/

theorem Address.index_eq_absent_iff (a : Address) : a.index = .absent ↔ a.isArray = false := by
  unfold isArray Reg.isAbsent
  cases a.index <;> simp

namespace Synthesis

variable (direction : Direction) (size : AccessSize) (a : Address) (reg : Reg)

theorem effects_transferMove :
    (transferMove direction size a reg).opcode.effects =
      match direction with | .load => .load | .store => .store := by
  cases ha : a.isArray with
  | false =>
      rw [transferMove_plain ha]
      exact effects_transferOpcodes direction size reg
  | true =>
      rw [transferMove_array ha]
      show (transferOpcodes direction size reg).2.effects = _
      cases direction <;> cases size <;> simp only [transferOpcodes] <;> (try split) <;> rfl

/-- A move accesses the address it is made for. -/
theorem access?_transferMove :
    (transferMove direction size a reg).access? =
      some (reg, if a.index = .absent then .plain a.base a.disp else a) := by
  obtain ⟨hplain, harray⟩ := form_transferOpcodes direction size reg
  cases ha : a.isArray with
  | false =>
      rw [transferMove_plain ha, if_pos (a.index_eq_absent_iff.mpr ha), Instruction.access?, hplain]
      cases direction <;> rfl
  | true =>
      have hindex : a.index ≠ .absent := by
        rw [Ne, a.index_eq_absent_iff, ha]
        decide
      -- The scale survives being written as a word.
      have hscale : UInt8.ofNat (BitVec.ofNat 32 a.scale.toNat).toNat = a.scale := by
        have hlt : a.scale.toNat < 256 := a.scale.toNat_lt
        rw [BitVec.toNat_ofNat, Nat.mod_eq_of_lt (by omega)]
        exact UInt8.ofNat_toNat
      have hread : { a with scale := .ofNat (BitVec.ofNat 32 a.scale.toNat).toNat } = a := by
        rw [hscale]
      rw [transferMove_array ha, if_neg hindex, Instruction.access?, harray]
      cases direction <;> exact congrArg (fun b => some (reg, b)) hread

end Synthesis

namespace Transfer

variable {t : Transfer}

/-- What moves in two halves is not in an xmm register. -/
theorem whole_of_split (h : t.isSplit = true) : t.whole = t.lo := by
  have hxmm : t.lo.isXmm = false := by
    unfold isSplit at h
    simpa using (Bool.and_eq_true_iff.mp h).2
  refine whole_of_not_single ?_
  cases hlo : t.lo <;> rw [hlo] at hxmm
  · rfl
  · rfl
  · exact absurd hxmm (by simp [Reg.isXmm])

/-- The part that counts is at the address of the transfer, wherever it comes. -/
theorem parts_lead_whole (t : Transfer) : t.parts[t.lead]? = some (t.address, t.whole) := by
  cases hsplit : t.isSplit with
  | true =>
      rw [parts_lead hsplit, whole_of_split hsplit]
      rfl
  | false =>
      have hlead : t.lead = 0 := by simp [lead, hsplit]
      rw [parts_of_whole hsplit, hlead]
      rfl

theorem movesLow_transferMove (t : Transfer) :
    t.MovesLow (Synthesis.transferMove t.direction t.size t.address t.whole) where
  effects := Synthesis.effects_transferMove t.direction t.size t.address t.whole
  access := Synthesis.access?_transferMove t.direction t.size t.address t.whole

end Transfer

namespace Session

/-- **A transfer** appends its moves, and replies with that of the low half. -/
theorem answers_transfer (s : Session) (t : Transfer) : s.Answers (.transfer t) := by
  by_cases h : t.Admitted
  · have hrecords := records_foldl_moved t.direction t.size t.parts s
    refine answers_of_added (meet_transfer_of_admitted s h) hrecords ?_ (fun _ _ _ => rfl) ?_
    · intro r hr
      obtain ⟨part, -, rfl⟩ := List.mem_map.mp hr
      rfl
    · rintro reply ⟨⟩
      let low := Synthesis.transferMove t.direction t.size t.address t.whole
      refine ⟨_, s.stamp low, rfl, Nat.le_add_right _ _, ?_, t.movesLow_transferMove⟩
      rw [hrecords, List.getElem?_append_right (Nat.le_add_right _ _), Nat.add_sub_cancel_left,
        List.getElem?_map, t.parts_lead_whole]
      rfl
  · obtain ⟨f, hmeet⟩ := meet_transfer_of_not_admitted s h
    exact answers_of_refused hmeet fun _ _ _ => rfl

/-! ## §4. Targets, and all requests. -/

theorem meet_attachTarget (s : Session) (branch target : RecordId) :
    s.meet (.attachTarget branch target) =
      match s.records[branch.index]? with
      | none => (.error (.unknownRecord branch), s)
      | some r =>
          if r.opcode.isBranch then
            (.ok .done,
              { s with records := s.records.set branch.index { r with target := some target } })
          else
            (.error .notABranch, s) := by
  show (retarget branch (some target) >>= fun _ => pure Reply.done).on s = _
  rw [Effect.on_bind, on_retarget]
  cases s.records[branch.index]? with
  | none => rfl
  | some r => cases hbranch : r.opcode.isBranch <;> simp [hbranch]

/-- **A target** is attached to the one branch that is named. -/
theorem answers_attachTarget (s : Session) (branch target : RecordId) :
    s.Answers (.attachTarget branch target) := by
  have hmeet := meet_attachTarget s branch target
  cases hfound : s.records[branch.index]? with
  | none =>
      rw [hfound] at hmeet
      refine answers_of_refused hmeet fun n r hr => if_neg fun h => ?_
      rw [← h.1, hfound] at hr
      exact absurd hr (by simp)
  | some found =>
      rw [hfound] at hmeet
      cases hbranch : found.opcode.isBranch with
      | false =>
          refine answers_of_refused (hmeet.trans (if_neg (by simp [hbranch]))) fun n r hr =>
            if_neg fun h => ?_
          rw [← h.1, hfound] at hr
          obtain rfl := Option.some.inj hr
          exact absurd h.2 (by simp [hbranch])
      | true =>
          replace hmeet := hmeet.trans (if_pos hbranch)
          refine ⟨?_, ?_, ?_⟩ <;> rw [hmeet]
          · intro n r hr
            show (s.records.set branch.index _)[n]? = some (if _ then _ else _)
            rw [List.getElem?_set]
            by_cases hn : branch.index = n
            · -- The branch itself: it is there, and it is what was looked up.
              rw [hn, hr] at hfound
              obtain rfl := Option.some.inj hfound
              rw [if_pos hn, if_pos (hn ▸ (List.getElem?_eq_some_iff.mp hr).1), if_pos ⟨hn, hbranch⟩]
            · rw [if_neg hn, if_neg fun h => hn h.1]
              exact hr
          · intro n r hn hr
            have hlt := (List.getElem?_eq_some_iff.mp hr).1
            rw [List.length_set] at hlt
            omega
          · rintro reply ⟨⟩
            rfl

/-- **REPLIES NAME RECORDS.**  Whatever a session is asked, and whether or not it
is met to its end: the records that are there stay as they are, but for the
target of the branch that one is attached to; every new record stands at the
offset of the session; and the reply names a new record, for arithmetic the
last, for a pair of constants the first, and for a transfer the one that moves
the low half at exactly the displacement asked for. -/
theorem replies_name_records (s : Session) (q : Request) : s.Answers q := by
  cases hq : q.isNumbered with
  | true => exact answers_numbered s hq
  | false =>
      cases q with
      | transfer t => exact answers_transfer s t
      | attachTarget branch target => exact answers_attachTarget s branch target
      | _ => exact absurd hq (by simp [Request.isNumbered])

/-- A pair loaded over its own base: the low half comes second, and is named. -/
example : ((new []).meet (.transfer (.wide .load (.gp .eax) 8 (.gp .eax) (.gp .ecx)))).1 =
    .ok (.appended ⟨1⟩) := by
  rfl

end Session

end TwoAddress
