/-
  TwoAddress.Proofs.FrameSlots
  ────────────────────────────
  **WHICH STACK ACCESSES ARE NOTED.**

  A pass that lays out frames reads the slots noted beside the stream, and
  an access at `[esp + disp]` that is not noted is one it does not know of.
  Transfers note theirs.  Arithmetic with a memory operand does not, and it
  is the only synthesizer that leaves a gap:

    • §1 accesses relative to the stack pointer, and what noting one means;
    • §2 the `noting` protocol: such an access is noted before anything else
      happens.  Every request keeps to it, but for arithmetic on memory;
    • §3 a session that a dialogue keeping to the protocol leaves;
    • §4 hence, over whole runs, an access is noted exactly when it was not
      appended by arithmetic on memory.
-/
import TwoAddress.Proofs.Demands
import TwoAddress.Proofs.Stream

namespace TwoAddress

/-! ## §1. Accesses to the stack. -/

/-- The displacement of an access to data memory at `[esp + disp]`. -/
def Instruction.stackDisp? (i : Instruction) : Option Word :=
  if i.opcode.effects.isLoad || i.opcode.effects.isStore then
    match i.opcode.form with
    | .rm => if i.regAt 1 = .stackPointer then some (i.immAt 2) else none
    | .mr => if i.regAt 0 = .stackPointer then some (i.immAt 1) else none
    | _ => none
  else none

/-- The slot and the direction are those of an access to the stack. -/
def SlotAccess.Describes (access : SlotAccess) (i : Instruction) : Prop :=
  ∃ disp, i.stackDisp? = some disp ∧ access.slot = disp.sshiftRight 2 ∧
    access.isLoad = i.opcode.effects.isLoad

/-- What an access to the stack is does not depend on a target. -/
theorem stackDisp?_of_untargeted {r r' : Record} (h : r'.untargeted = r.untargeted) :
    r'.stackDisp? = r.stackDisp? := by
  obtain ⟨⟨op, operands, inert, target⟩, offset⟩ := r
  obtain ⟨⟨op', operands', inert', target'⟩, offset'⟩ := r'
  simp only [Record.untargeted, Record.mk.injEq, Instruction.mk.injEq] at h
  obtain ⟨⟨rfl, rfl, -, -⟩, -⟩ := h
  rfl

theorem describes_of_untargeted {r r' : Record} {access : SlotAccess}
    (h : r'.untargeted = r.untargeted) (hr : access.Describes r.toInstruction) :
    access.Describes r'.toInstruction := by
  obtain ⟨disp, hdisp, hslot, hload⟩ := hr
  refine ⟨disp, (stackDisp?_of_untargeted h).trans hdisp, hslot, hload.trans ?_⟩
  exact congrArg (·.opcode.effects.isLoad) (congrArg Record.toInstruction h).symm

/-- Instructions that work in registers have no plain memory operand. -/
theorem InRegisters.form_ne {i : Instruction} (h : InRegisters i) :
    i.opcode.form ≠ .rm ∧ i.opcode.form ≠ .mr := by
  -- Every opcode comes from a table, and none of the tables has a plain memory form.
  cases h with
  | @copy dest src _ h =>
      unfold Synthesis.copyInstruction at h
      split at h
      · exact absurd h (by simp)
      · split at h
        next op hop =>
          injection h with h
          subst h
          revert hop
          fun_cases Synthesis.moveOpcode? dest src <;> rintro ⟨⟩ <;> exact ⟨nofun, nofun⟩
        next => exact absurd h (by simp)
  | constant | lea | packHigh | callMem | callThread | jump | jumpIf => exact ⟨nofun, nofun⟩
  | unary dest h =>
      revert h
      simp only [List.mem_cons, List.not_mem_nil, or_false]
      rintro (rfl | rfl | rfl) <;> exact ⟨nofun, nofun⟩
  | @immediate op _ dest value h =>
      revert h
      cases op <;> cases value.fitsByte <;> rintro ⟨⟩ <;> exact ⟨nofun, nofun⟩
  | multiply dest src value => cases value.fitsByte <;> exact ⟨nofun, nofun⟩
  | register op dest src h =>
      revert h
      cases op <;> rintro ⟨⟩ <;> exact ⟨nofun, nofun⟩
  | shift op dest h =>
      revert h
      cases op <;> rintro ⟨⟩ <;> exact ⟨nofun, nofun⟩
  | extendByte dest h =>
      revert h
      simp only [List.mem_cons, List.not_mem_nil, or_false]
      rintro (rfl | rfl) <;> exact ⟨nofun, nofun⟩
  | packed dest src h =>
      revert h
      simp only [List.mem_cons, List.not_mem_nil, or_false]
      rintro (rfl | rfl | rfl) <;> exact ⟨nofun, nofun⟩

theorem InRegisters.stackDisp?_eq_none {i : Instruction} (h : InRegisters i) :
    i.stackDisp? = none := by
  obtain ⟨hrm, hmr⟩ := h.form_ne
  unfold Instruction.stackDisp?
  split
  · split
    next h => exact absurd h hrm
    next h => exact absurd h hmr
    next => rfl
  · rfl

/-! ## §2. Noting at once. -/

/-- An access to the stack is noted before anything else happens.  The state is
the access that has yet to be noted. -/
def noting : Protocol (Option (RecordId × Instruction)) where
  append i pending K :=
    pending = none ∧ ∀ id, K id (if i.stackDisp?.isSome then some (id, i) else none)
  retarget _ _ pending K := pending = none ∧ K none
  borrow _ pending K := pending = none ∧ ∀ r, K r none
  release _ pending K := pending = none ∧ K none
  annotate id access pending K := (∃ i, pending = some (id, i) ∧ access.Describes i) ∧ K none
  stop _ pending := pending = none

theorem noting_admits {d : Demand} {scratch : Prop} (h : d.ordinary scratch) :
    noting.Admits none d := by
  cases d with
  | append i =>
      intro K hK
      refine ⟨rfl, fun id => ?_⟩
      rw [InRegisters.stackDisp?_eq_none h]
      exact hK id
  | retarget id target => exact fun K hK => ⟨rfl, hK⟩
  | borrow exclude => exact fun K hK => ⟨rfl, hK⟩
  | release r => exact fun K hK => ⟨rfl, hK⟩
  | annotate id access => exact h.elim
  | note n => exact fun K hK => hK

namespace Synthesis

/-- A transfer's move accesses the stack exactly when it is reported. -/
theorem stackDisp?_transferMove (direction : Direction) (size : AccessSize) (a : Address)
    (reg : Reg) :
    (transferMove direction size a reg).stackDisp? =
      if a.base = .stackPointer ∧ !a.isArray then some a.disp else none := by
  obtain ⟨hplain, harray⟩ := form_transferOpcodes direction size reg
  cases ha : a.isArray with
  | true =>
      rw [transferMove_array ha]
      unfold Instruction.stackDisp?
      rw [harray]
      cases direction <;> simp
  | false =>
      rw [transferMove_plain ha]
      unfold Instruction.stackDisp?
      rw [hplain, effects_transferOpcodes]
      cases direction <;> simp [Effects.load, Effects.store, Instruction.regAt, Instruction.immAt,
        Instruction.slot, Operand.asReg, Operand.asImm]

variable {Q : RecordId → Option (RecordId × Instruction) → Prop}

theorem emitTransfer_noting (direction : Direction) (size : AccessSize) (a : Address) (reg : Reg)
    (hQ : ∀ id, Q id none) : (emitTransfer direction size a reg).Follows noting none Q := by
  have hdisp := stackDisp?_transferMove direction size a reg
  rw [emitTransfer_eq]
  refine ⟨rfl, fun id => ?_⟩
  show Follows noting (if a.base = .stackPointer ∧ !a.isArray then _ else _) _ Q
  -- The move is pending exactly where a note follows it.
  by_cases h : a.base = .stackPointer ∧ !a.isArray
  · rw [if_pos h] at hdisp ⊢
    rw [if_pos (by rw [hdisp]; rfl)]
    refine ⟨⟨_, rfl, a.disp, hdisp, rfl, ?_⟩, hQ id⟩
    rw [transferMove_plain (by simpa using h.2)]
    show (direction == .load) = (transferOpcodes direction size reg).1.effects.isLoad
    rw [effects_transferOpcodes]
    cases direction <;> rfl
  · rw [if_neg h] at hdisp ⊢
    rw [if_neg (by rw [hdisp]; simp)]
    exact hQ id

theorem splitTransfer_noting (direction : Direction) (size : AccessSize) (a : Address)
    (lo hi : Reg) (hQ : ∀ id, Q id none) :
    (splitTransfer direction size a lo hi).Follows noting none Q := by
  unfold splitTransfer
  split
  · rfl
  · split
    · refine Follows.seq (Follows.seq (emitTransfer_noting _ _ _ _ fun _ => ?_))
      exact emitTransfer_noting _ _ _ _ hQ
    · refine Follows.seq (emitTransfer_noting _ _ _ _ fun id => ?_)
      exact Follows.seq (emitTransfer_noting _ _ _ _ fun _ => hQ id)

theorem transfer_noting (t : Transfer) (hQ : ∀ id, Q id none) :
    (transfer t).Follows noting none Q := by
  unfold transfer
  refine (asks_ofExcept _).follows_then (fun _ => rfl) fun a =>
    (asks_require _ _).follows_then (fun _ => rfl) fun _ => ?_
  split
  case h_1 | h_2 =>
    split
    · dsimp only
      split
      · exact (asks_ofExcept _).follows_then (fun _ => rfl) fun _ => emitTransfer_noting _ _ _ _ hQ
      · exact emitTransfer_noting _ _ _ _ hQ
    · exact (asks_require _ _).follows_then (fun _ => rfl) fun _ =>
        splitTransfer_noting _ _ _ _ _ hQ
  case h_7 | h_8 => exact emitTransfer_noting _ _ _ _ hQ
  all_goals
    exact (asks_require _ _).follows_then (fun _ => rfl) fun _ => emitTransfer_noting _ _ _ _ hQ

end Synthesis

/-- The request is arithmetic on a memory operand. -/
def Request.onMemory : Request → Bool
  | binaryMem _ _ _ _ => true
  | _ => false

/-- **Every request notes its accesses at once**, but for arithmetic on memory. -/
theorem Request.follows_noting {q : Request} (hq : q.onMemory = false) :
    q.synthesis.Follows noting none fun _ pending => pending = none := by
  cases hdata : q.movesData with
  | false =>
      exact (asks_ordinary hdata).follows (fun _ => noting_admits) (fun _ => rfl) fun _ => rfl
  | true =>
      cases q with
      | transfer t => exact Synthesis.Follows.seq (Synthesis.transfer_noting t fun _ => rfl)
      | binaryMem op dest base disp => exact absurd hq (by simp [onMemory])
      | _ => exact absurd hdata (by simp [movesData])

/-! ## §3. Sessions. -/

namespace Session

/-- No slot is noted past the end of the stream. -/
def Trim (s : Session) : Prop := ∀ n, s.records.length ≤ n → s.slots[n]? = none

/-- What a dialogue that began at `start` has done to a session so far.  The
slots noted before are as they were, and every access to the stack that was
added is noted or is the one that has yet to be. -/
structure Noting (start : Session) (pending : Option (RecordId × Instruction)) (s : Session) :
    Prop where
  trim : s.Trim
  grown : start.records.length ≤ s.records.length
  below : ∀ n, n < start.records.length → s.slots[n]? = start.slots[n]?
  noted : ∀ n r, start.records.length ≤ n → s.records[n]? = some r →
    r.stackDisp?.isSome = true →
      (∃ access, s.slots[n]? = some access ∧ access.Describes r.toInstruction) ∨
        ∃ i, pending = some (⟨n⟩, i)
  last : ∀ id i, pending = some (id, i) → start.records.length ≤ id.index ∧
    ∃ r, s.records[id.index]? = some r ∧ r.toInstruction = i

variable {start s s' : Session}

theorem Noting.begin (hs : s.Trim) : Noting s none s where
  trim := hs
  grown := Nat.le_refl _
  below _ _ := rfl
  noted n r hfrom hr _ := by
    have := (List.getElem?_eq_some_iff.mp hr).1
    omega
  last _ _ h := nomatch h

/-- Nothing changes if slots and records stay, up to targets. -/
theorem Noting.of_untargeted (h : Noting start none s)
    (hrecords : s'.records.map Record.untargeted = s.records.map Record.untargeted)
    (hslots : s'.slots = s.slots) : Noting start none s' := by
  have hlength : s'.records.length = s.records.length := by
    simpa using congrArg List.length hrecords
  constructor
  · intro n hn
    rw [hslots]
    exact h.trim n (by omega)
  · rw [hlength]
    exact h.grown
  · rw [hslots]
    exact h.below
  · intro n r' hfrom hr' hstack
    have hgrows : s'.Grows s := .of_untargeted hrecords
    obtain ⟨r, hr, hsame⟩ := hgrows.getElem? hr'
    rw [← stackDisp?_of_untargeted hsame] at hstack
    rcases h.noted n r hfrom hr hstack with ⟨access, hslot, hdescribes⟩ | ⟨_, hnone⟩
    · rw [hslots]
      exact .inl ⟨access, hslot, describes_of_untargeted hsame.symm hdescribes⟩
    · exact nomatch hnone
  · exact fun _ _ hnone => nomatch hnone

theorem Noting.push (h : Noting start none s) (i : Instruction) :
    Noting start (if i.stackDisp?.isSome then some (⟨s.records.length⟩, i) else none)
      (s.push (s.stamp i)) := by
  have hlength : (s.push (s.stamp i)).records.length = s.records.length + 1 := by
    simp [Session.push]
  have hgrown := h.grown
  constructor
  · exact fun n hn => h.trim n (by omega)
  · omega
  · exact h.below
  · intro n r hfrom hr hstack
    rcases Nat.lt_or_ge n s.records.length with hn | hn
    · have hold : s.records[n]? = some r := by
        rw [← hr]
        exact (List.getElem?_append_left hn).symm
      rcases h.noted n r hfrom hold hstack with hnoted | ⟨_, hnone⟩
      · exact .inl hnoted
      · exact nomatch hnone
    · -- The record is the new one.
      obtain rfl : n = s.records.length := by
        have := (List.getElem?_eq_some_iff.mp hr).1
        omega
      obtain rfl : s.stamp i = r := by simpa [Session.push] using hr
      exact .inr ⟨i, if_pos hstack⟩
  · intro id j hpending
    split at hpending
    · obtain ⟨rfl, rfl⟩ : _ ∧ _ := by simpa using hpending
      exact ⟨hgrown, s.stamp i, by simp [Session.push], rfl⟩
    · exact nomatch hpending

theorem Noting.annotate {id : RecordId} {i : Instruction} {access : SlotAccess}
    (h : Noting start (some (id, i)) s) (hdescribes : access.Describes i)
    (hslots : s'.slots = s.slots.insert id.index access) (hrecords : s'.records = s.records) :
    Noting start none s' := by
  obtain ⟨hfrom, r, hr, hsame⟩ := h.last id i rfl
  have hlt : id.index < s.records.length := (List.getElem?_eq_some_iff.mp hr).1
  have hother : ∀ n, n ≠ id.index → s'.slots[n]? = s.slots[n]? := by
    intro n hn
    rw [hslots, Std.TreeMap.getElem?_insert, if_neg (by simpa using Ne.symm hn)]
  constructor
  · intro n hn
    rw [hrecords] at hn
    rw [hother n (by omega)]
    exact h.trim n hn
  · rw [hrecords]
    exact h.grown
  · intro n hn
    rw [hother n (by omega)]
    exact h.below n hn
  · intro n r' hfrom' hr' hstack
    rw [hrecords] at hr'
    by_cases hn : n = id.index
    · subst hn
      obtain rfl : r = r' := Option.some.inj (hr.symm.trans hr')
      refine .inl ⟨access, ?_, hsame ▸ hdescribes⟩
      rw [hslots, Std.TreeMap.getElem?_insert_self]
    · -- Another access was noted before, for only one was pending.
      rcases h.noted n r' hfrom' hr' hstack with ⟨access', hslot, hd⟩ | ⟨_, hlast⟩
      · exact .inl ⟨access', (hother n hn).trans hslot, hd⟩
      · injection hlast with hlast
        injection hlast with hid
        exact absurd (congrArg RecordId.index hid).symm hn
  · exact fun _ _ hnone => nomatch hnone

/-- **A session keeps the slots that the protocol notes.** -/
theorem noting_keeps (start : Session) :
    noting.Keeps unit (Noting start) (Noting start none) where
  append {i pending s K} h hK := by
    obtain ⟨rfl, hK⟩ := hK
    exact ⟨_, h.push i, hK ⟨s.records.length⟩⟩
  retarget {id target pending s K} h hK := by
    obtain ⟨rfl, hK⟩ := hK
    simp only [unit, on_retarget]
    split
    · exact h
    next r hr =>
      split
      · have hsame : Record.untargeted { r with target } = r.untargeted := rfl
        exact ⟨none, h.of_untargeted (map_untargeted_set hr hsame) rfl, hK⟩
      · exact h
  borrow {exclude pending s K} h hK := by
    obtain ⟨rfl, hK⟩ := hK
    simp only [unit, on_borrow]
    split
    · exact ⟨none, h.of_untargeted rfl rfl, hK _⟩
    · exact h
  release {r pending s K} h hK := by
    obtain ⟨rfl, hK⟩ := hK
    simp only [unit, on_release]
    split
    · exact ⟨none, h.of_untargeted rfl rfl, hK⟩
    · exact h
  annotate {id access pending s K} h hK := by
    obtain ⟨⟨i, rfl, hdescribes⟩, hK⟩ := hK
    exact ⟨none, h.annotate hdescribes rfl rfl, hK⟩
  note {n pending s K} h hK := ⟨pending, h, hK⟩
  stop h hnone := hnone ▸ h

/-- After a request other than arithmetic on memory, all is noted. -/
theorem noting_meet {q : Request} (hq : q.onMemory = false) (hs : s.Trim) :
    Noting s none (s.meet q).2 := by
  have hmet := (Request.follows_noting hq).met (noting_keeps s) (Noting.begin hs)
  rw [meet]
  rcases hrun : (q.synthesis.runIn unit).on s with ⟨_ | _, t⟩ <;> rw [hrun] at hmet
  · exact hmet
  · obtain ⟨pending, h, rfl⟩ := hmet
    exact h

/-- Arithmetic on memory notes nothing. -/
theorem slots_meet_onMemory {q : Request} (hq : q.onMemory = true) :
    (s.meet q).2.slots = s.slots := by
  cases q with
  | binaryMem op dest base disp =>
      simp only [meet, Request.synthesis, Synthesis.binaryMem]
      cases Synthesis.memoryOpcode? op <;> rfl
  | _ => exact absurd hq (by simp [Request.onMemory])

/-! ## §4. Runs. -/

theorem trim_meet (hs : s.Trim) (q : Request) : (s.meet q).2.Trim := by
  cases hq : q.onMemory with
  | false => exact (noting_meet hq hs).trim
  | true =>
      intro n hn
      rw [slots_meet_onMemory hq]
      exact hs n (Nat.le_trans (grows_meet s q).length_le hn)

theorem slots_meet_below (hs : s.Trim) (q : Request) {n : Nat} (hn : n < s.records.length) :
    (s.meet q).2.slots[n]? = s.slots[n]? := by
  cases hq : q.onMemory with
  | false => exact (noting_meet hq hs).below n hn
  | true => rw [slots_meet_onMemory hq]

theorem trim_afterRequests (hs : s.Trim) (qs : List Request) : (s.afterRequests qs).Trim := by
  induction qs generalizing s with
  | nil => exact hs
  | cons q qs ih =>
      rw [afterRequests_cons]
      exact ih (trim_meet hs q)

/-- What is noted for a record, or not noted, stays so. -/
theorem slots_afterRequests (hs : s.Trim) (qs : List Request) {n : Nat}
    (hn : n < s.records.length) : (s.afterRequests qs).slots[n]? = s.slots[n]? := by
  induction qs generalizing s with
  | nil => rfl
  | cons q qs ih =>
      rw [afterRequests_cons, ih (trim_meet hs q), slots_meet_below hs q hn]
      exact Nat.lt_of_lt_of_le hn (grows_meet s q).length_le

/-- What is noted for a record was settled by the request that appended it. -/
theorem AppendedBy.settled {qs : List Request} {n : Nat} {q : Request} (hs : s.Trim)
    (h : s.AppendedBy qs n q) :
    ∃ t : Session, t.Trim ∧ t.records.length ≤ n ∧ n < (t.meet q).2.records.length ∧
      (t.meet q).2.Grows (s.afterRequests qs) ∧
      (s.afterRequests qs).slots[n]? = (t.meet q).2.slots[n]? := by
  obtain ⟨before, rest, rfl, hle, hlt⟩ := h
  rw [afterRequests_snoc] at hlt
  have htrim := trim_afterRequests hs before
  -- The requests that follow leave the record and its slot alone.
  refine ⟨s.afterRequests before, htrim, hle, hlt, ?_, ?_⟩ <;>
    rw [afterRequests_append, afterRequests_cons]
  · exact grows_afterRequests _ rest
  · exact slots_afterRequests (trim_meet htrim q) rest hlt

/-- An access to the stack that arithmetic on memory appended is not noted. -/
theorem AppendedBy.not_noted {qs : List Request} {n : Nat} {q : Request} (hs : s.Trim)
    (h : s.AppendedBy qs n q) (hq : q.onMemory = true) : (s.afterRequests qs).slots[n]? = none := by
  obtain ⟨t, htrim, hle, -, -, hslots⟩ := h.settled hs
  rw [hslots, slots_meet_onMemory hq]
  exact htrim n hle

/-- An access to the stack that any other request appended is noted. -/
theorem AppendedBy.noted {qs : List Request} {n : Nat} {q : Request} (hs : s.Trim)
    (h : s.AppendedBy qs n q) (hq : q.onMemory = false) {r : Record}
    (hr : (s.afterRequests qs).records[n]? = some r) (hstack : r.stackDisp?.isSome = true) :
    ∃ access, (s.afterRequests qs).slots[n]? = some access ∧ access.Describes r.toInstruction := by
  obtain ⟨t, htrim, hle, hlt, hgrows, hslots⟩ := h.settled hs
  obtain ⟨r', hr', hsame⟩ := hgrows.getElem? (List.getElem?_eq_getElem hlt)
  obtain rfl : r' = r := Option.some.inj (hr'.symm.trans hr)
  rw [stackDisp?_of_untargeted hsame] at hstack
  rcases (noting_meet hq htrim).noted n _ hle (List.getElem?_eq_getElem hlt) hstack with
    ⟨access, hslot, hdescribes⟩ | ⟨_, hnone⟩
  · exact ⟨access, hslots.trans hslot, describes_of_untargeted hsame hdescribes⟩
  · exact nomatch hnone

end Session

/-- **WHICH STACK ACCESSES ARE NOTED.**  After any run of requests on a fresh
session, an access at `[esp + disp]` has the slot `disp >> 2` noted for it, as
the load or the store that it is, exactly when it was not arithmetic on a
memory operand that appended it. -/
theorem stack_access_noted_iff (scratch : List Reg) (qs : List Request) (n : Nat) (r : Record)
    (disp : Word) (hr : ((Session.new scratch).afterRequests qs).records[n]? = some r)
    (hdisp : r.stackDisp? = some disp) :
    (∃ access, ((Session.new scratch).afterRequests qs).slotOf? ⟨n⟩ = some access ∧
        access.slot = disp.sshiftRight 2 ∧ access.isLoad = r.opcode.effects.isLoad) ↔
      ¬ ∃ op dest base disp,
        (Session.new scratch).AppendedBy qs n (.binaryMem op dest base disp) := by
  have hs : (Session.new scratch).Trim := fun n _ => Std.TreeMap.getElem?_emptyc
  have hlt := (List.getElem?_eq_some_iff.mp hr).1
  -- One request appended the record, and both sides turn on its kind.
  obtain ⟨q, hq⟩ := Session.exists_appendedBy (Nat.zero_le n) hlt
  cases hmem : q.onMemory with
  | true =>
      refine iff_of_false ?_ ?_
      · rintro ⟨access, hslot, -⟩
        exact absurd ((hq.not_noted hs hmem).symm.trans hslot) (by simp)
      · cases q with
        | binaryMem op dest base disp => exact not_not_intro ⟨op, dest, base, disp, hq⟩
        | _ => exact absurd hmem (by simp [Request.onMemory])
  | false =>
      refine iff_of_true ?_ ?_
      · obtain ⟨access, hslot, disp', hdisp', hdescribes⟩ := hq.noted hs hmem hr (by simp [hdisp])
        obtain rfl : disp = disp' := Option.some.inj (hdisp.symm.trans hdisp')
        exact ⟨access, hslot, hdescribes⟩
      · rintro ⟨op, dest, base, disp, hq'⟩
        rw [hq.unique hq'] at hmem
        exact absurd hmem (by simp [Request.onMemory])

/-- A store to the frame and the load that reads it back are both noted. -/
theorem stack_access_noted_spill :
    (∃ access, ((Session.new []).afterRequests
        [.transfer (.plain .store .stackPointer (-4) (.gp .ebx) .word),
         .transfer (.plain .load .stackPointer (-4) (.gp .edi) .word)]).slotOf? ⟨1⟩ = some access ∧
        access.slot = -1 ∧ access.isLoad = true) ↔
      ¬ ∃ op dest base disp, (Session.new []).AppendedBy
        [.transfer (.plain .store .stackPointer (-4) (.gp .ebx) .word),
         .transfer (.plain .load .stackPointer (-4) (.gp .edi) .word)] 1
        (.binaryMem op dest base disp) :=
  stack_access_noted_iff [] _ 1
    { opcode := .mov32RM, operands := [.reg (.gp .edi), .reg .stackPointer, .imm (-4)], offset := 0 }
    (-4) (by decide) (by decide)

/-- A load from the frame that is arithmetic on memory is not noted at all. -/
theorem stack_access_not_noted :
    ¬ ∀ (scratch : List Reg) (qs : List Request) (n : Nat) (r : Record) (disp : Word),
      ((Session.new scratch).afterRequests qs).records[n]? = some r →
      r.stackDisp? = some disp →
      ∃ access, ((Session.new scratch).afterRequests qs).slotOf? ⟨n⟩ = some access ∧
        access.slot = disp.sshiftRight 2 ∧ access.isLoad = r.opcode.effects.isLoad := by
  intro h
  obtain ⟨access, hslot, -⟩ := h Session.defaultScratch
    [.binaryMem .mov (.gp .eax) .stackPointer 8] 0
    { opcode := .mov32RM, operands := [.reg (.gp .eax), .reg .stackPointer, .imm 8], offset := 0 }
    8 (by decide) (by decide)
  exact nomatch hslot

end TwoAddress
