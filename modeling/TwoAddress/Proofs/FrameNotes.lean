/-
  TwoAddress.Proofs.FrameNotes
  ────────────────────────────
  **THE SLOTS THAT TRANSFERS NOTE.**

  Transfers are the only requests that note frame slots.  A transfer relative
  to the stack pointer notes one for each of its moves, at the moment it
  appends the move, so every note belongs to a record of its own and none is
  ever replaced.  That takes positions that differ from each other: with
  handles of 32 bits, a stream of at most 2³² records.

    • §1 slots and displacements as numbers;
    • §2 requests other than transfers leave the notes alone;
    • §3 the moves of a transfer, one note each;
    • §4 the same seen from the end of a run;
    • §5 all of it over whole runs (`frame_slots_noted`).
-/
import TwoAddress.Proofs.FrameSlots
import TwoAddress.Proofs.Transfers

namespace TwoAddress

/-! ## §1. Slots as numbers. -/

theorem toInt_frameSlot (direction : Direction) (size : AccessSize) (disp : Word) :
    (Synthesis.frameSlot direction size disp).slot.toInt = disp.toInt / 4 := by
  show (disp.sshiftRight 2).toInt = _
  rw [BitVec.toInt_sshiftRight, Int.shiftRight_eq_div_pow]
  rfl

/-- Four above a displacement is where it should be unless the reading overflows. -/
theorem toInt_add_four {v : Word} (h : v.toInt + 4 < 0x80000000) :
    (v + 4).toInt = v.toInt + 4 := by
  have hlow : -0x80000000 ≤ v.toInt := v.le_toInt
  have hfour : (4 : Word).toInt = 4 := by decide
  rw [BitVec.toInt_add, hfour]
  exact Int.bmod_eq_of_le (by show -0x80000000 ≤ _; omega) (by show _ < 0x80000000; omega)

/-! ## §2. Requests that note nothing. -/

/-- Nothing is noted. -/
def silent : Protocol Unit where
  annotate _ _ _ _ := False

theorem Request.follows_silent {q : Request} (hq : ∀ t, q ≠ .transfer t) :
    q.synthesis.Follows silent () fun _ _ => True := by
  cases hdata : q.movesData with
  | false =>
      refine (asks_ordinary hdata).follows (fun d hd => ?_) (fun _ => trivial) fun _ => trivial
      cases d with
      | annotate id access => exact hd.elim
      | _ => exact fun K hK => hK
  | true =>
      cases q with
      | binaryMem op dest base disp =>
          refine Synthesis.Follows.seq ?_
          unfold Synthesis.binaryMem
          split
          · exact fun _ => trivial
          · trivial
      | transfer t => exact absurd rfl (hq t)
      | _ => exact absurd hdata (by simp [movesData])

namespace Session

variable {s : Session}

/-- The notes, and how many there were, are as they were at the start. -/
def SameNotes (start s : Session) : Prop :=
  s.slots = start.slots ∧ s.stats.annotated = start.stats.annotated

theorem silent_keeps (start : Session) :
    silent.Keeps unit (fun _ => SameNotes start) (SameNotes start) where
  append {i t s K} h hK := ⟨(), h, hK ⟨s.records.length⟩⟩
  retarget {id target t s K} h hK := by
    simp only [unit, on_retarget]
    split
    · exact h
    · split
      · exact ⟨(), h, hK⟩
      · exact h
  borrow {exclude t s K} h hK := by
    simp only [unit, on_borrow]
    split
    · exact ⟨(), h, hK _⟩
    · exact h
  release {r t s K} h hK := by
    simp only [unit, on_release]
    split
    · exact ⟨(), h, hK⟩
    · exact h
  annotate {id access t s K} _ hK := hK.elim
  note {n t s K} h hK := ⟨(), h, hK⟩
  stop h _ := h

theorem sameNotes_meet {q : Request} (hq : ∀ t, q ≠ .transfer t) : s.SameNotes (s.meet q).2 :=
  meet_keeps (silent_keeps s) ⟨rfl, rfl⟩ (Request.follows_silent hq)

/-! ## §3. Moves and their notes. -/

variable {direction : Direction} {size : AccessSize}

theorem length_moved (part : Address × Reg) :
    (s.moved direction size part).records.length = s.records.length + 1 := by
  rw [records_moved, List.length_append]
  rfl

/-- A move notes its own record or nothing. -/
theorem slots_moved (part : Address × Reg) (n : Nat) :
    (s.moved direction size part).slots[n]? =
      if part.1.inFrame = true ∧ n = s.records.length then
        some (Synthesis.frameSlot direction size part.1.disp)
      else s.slots[n]? := by
  unfold moved
  cases hframe : part.1.inFrame with
  | false =>
      rw [if_neg (by simp), if_neg (by simp)]
      rfl
  | true =>
      rw [if_pos rfl]
      show (s.slots.insert s.records.length _)[n]? = _
      rw [Std.TreeMap.getElem?_insert]
      by_cases hn : n = s.records.length
      · rw [if_pos (by rw [hn]; exact Std.ReflCmp.compare_self), if_pos ⟨rfl, hn⟩]
      · rw [if_neg (by simpa using Ne.symm hn), if_neg (fun hno => hn hno.2)]

/-- Notes stay within the stream, and each was made once. -/
structure Tallied (s : Session) : Prop where
  trim : s.Trim
  once : s.stats.annotated = s.slots.size

theorem Trim.moved (hs : s.Trim) (part : Address × Reg) :
    (s.moved direction size part).Trim := by
  intro n hn
  rw [length_moved] at hn
  rw [slots_moved, if_neg (by omega)]
  exact hs n (by omega)

theorem Tallied.moved (hs : s.Tallied) (part : Address × Reg) :
    (s.moved direction size part).Tallied where
  trim := hs.trim.moved part
  once := by
    unfold Session.moved
    split
    · -- The record is new, so nothing was noted for it.
      have hnew : s.slots.contains s.records.length = false := by
        rw [Std.TreeMap.contains_eq_isSome_getElem?, hs.trim _ (Nat.le_refl _)]
        rfl
      show s.stats.annotated + 1 = (s.slots.insert s.records.length _).size
      rw [Std.TreeMap.size_insert, hnew, hs.once]
      rfl
    · exact hs.once

theorem Tallied.foldl_moved (hs : s.Tallied) (parts : List (Address × Reg)) :
    (parts.foldl (Session.moved direction size) s).Tallied := by
  induction parts generalizing s with
  | nil => exact hs
  | cons part parts ih => exact ih (hs.moved part)

theorem slots_foldl_moved_below (parts : List (Address × Reg)) {n : Nat}
    (hn : n < s.records.length) :
    (parts.foldl (moved direction size) s).slots[n]? = s.slots[n]? := by
  induction parts generalizing s with
  | nil => rfl
  | cons part parts ih =>
      rw [List.foldl_cons, ih (by rw [length_moved]; omega), slots_moved, if_neg (by omega)]

/-- What is noted for each of several moves, by its place among them. -/
theorem slots_foldl_moved (hs : s.Trim) {parts : List (Address × Reg)} {k : Nat}
    {part : Address × Reg} (hk : parts[k]? = some part) :
    (parts.foldl (moved direction size) s).slots[s.records.length + k]? =
      if part.1.inFrame then some (Synthesis.frameSlot direction size part.1.disp) else none := by
  induction parts generalizing s k with
  | nil => exact nomatch hk
  | cons first parts ih =>
      rw [List.foldl_cons]
      cases k with
      | zero =>
          obtain rfl : first = part := Option.some.inj hk
          rw [slots_foldl_moved_below parts (by rw [length_moved]; omega), slots_moved,
            Nat.add_zero]
          cases hframe : first.1.inFrame with
          | true => rw [if_pos ⟨rfl, rfl⟩, if_pos rfl]
          | false =>
              rw [if_neg (by simp), if_neg (by simp)]
              exact hs _ (Nat.le_refl _)
      | succ k =>
          have hmoved : (s.moved direction size first).Trim := hs.moved first
          have hnext := ih hmoved hk
          rw [length_moved] at hnext
          rw [← hnext]
          congr 1
          omega

/-- Every request keeps the tally. -/
theorem Tallied.meet (hs : s.Tallied) (q : Request) : (s.meet q).2.Tallied := by
  by_cases hq : ∃ t, q = .transfer t
  · obtain ⟨t, rfl⟩ := hq
    by_cases h : t.Admitted
    · rw [meet_transfer_of_admitted s h]
      exact hs.foldl_moved t.parts
    · obtain ⟨f, hf⟩ := meet_transfer_of_not_admitted s h
      rw [hf]
      exact hs
  · obtain ⟨hslots, hcount⟩ := sameNotes_meet (s := s) fun t ht => hq ⟨t, ht⟩
    refine ⟨trim_meet hs.trim q, ?_⟩
    rw [hslots, hcount]
    exact hs.once

theorem Tallied.afterRequests (hs : s.Tallied) (qs : List Request) :
    (s.afterRequests qs).Tallied := by
  induction qs generalizing s with
  | nil => exact hs
  | cons q qs ih =>
      rw [afterRequests_cons]
      exact ih (hs.meet q)

theorem tallied_new (scratch : List Reg) : (new scratch).Tallied where
  trim _ _ := Std.TreeMap.getElem?_emptyc
  once := rfl

end Session

/-! ## §4. Transfers in a run. -/

namespace Transfer

variable {t : Transfer}

/-- All parts of a transfer are in the frame, or none is. -/
theorem inFrame_of_mem_parts {part : Address × Reg} (h : part ∈ t.parts) :
    part.1.inFrame = true ↔ t.base = .stackPointer ∧ t.index = .absent := by
  obtain ⟨hbase, hindex, -⟩ := address_of_mem_parts h
  have habsent : t.index.isAbsent = true ↔ t.index = .absent := by
    cases t.index <;> simp [Reg.isAbsent]
  rw [Address.inFrame, Address.isArray, hbase, hindex, Bool.not_not, Bool.and_eq_true,
    beq_iff_eq, habsent]

/-- What is noted for one part. -/
def note? (t : Transfer) (part : Address × Reg) : Option SlotAccess :=
  if part.1.inFrame then some (Synthesis.frameSlot t.direction t.size part.1.disp) else none

theorem note?_of_mem_parts {part : Address × Reg} (h : part ∈ t.parts)
    (hbase : t.base = .stackPointer) (hindex : t.index = .absent) :
    t.note? part = some (Synthesis.frameSlot t.direction t.size part.1.disp) := by
  rw [note?, if_pos ((inFrame_of_mem_parts h).mpr ⟨hbase, hindex⟩)]

theorem isSome_note? {part : Address × Reg} (h : part ∈ t.parts) :
    (t.note? part).isSome = true ↔ t.base = .stackPointer ∧ t.index = .absent := by
  rw [← inFrame_of_mem_parts h, note?]
  cases part.1.inFrame <;> simp

/-- The place of the high half among the parts. -/
def trail (t : Transfer) : Nat := 1 - t.lead

theorem lead_trail (h : t.isSplit = true) :
    if t.base = t.lo then t.lead = 1 ∧ t.trail = 0 else t.lead = 0 ∧ t.trail = 1 := by
  unfold trail lead
  by_cases hbase : t.base = t.lo <;> simp [h, hbase]

theorem parts_lead (h : t.isSplit = true) : t.parts[t.lead]? = some t.lowPart := by
  have hplace := lead_trail h
  rw [parts_of_split h]
  split at hplace
  next hbase =>
    rw [if_pos hbase, hplace.1]
    rfl
  next hbase =>
    rw [if_neg hbase, hplace.1]
    rfl

theorem parts_trail (h : t.isSplit = true) : t.parts[t.trail]? = some t.highPart := by
  have hplace := lead_trail h
  rw [parts_of_split h]
  split at hplace
  next hbase =>
    rw [if_pos hbase, hplace.2]
    rfl
  next hbase =>
    rw [if_neg hbase, hplace.2]
    rfl

theorem length_parts_of_split (h : t.isSplit = true) : t.parts.length = 2 := by
  rw [parts_of_split h]
  split <;> rfl

end Transfer

namespace Session

variable {s : Session} {t : Transfer}

/-- **The moves of a transfer at the end of a run** are at the places they were
given, with the notes they were given. -/
theorem part_afterRequests (hs : s.Trim) (before rest : List Request) (h : t.Admitted) {k : Nat}
    {part : Address × Reg} (hk : t.parts[k]? = some part) :
    (∃ r, (s.afterRequests (before ++ .transfer t :: rest)).records[
          (s.afterRequests before).records.length + k]? = some r ∧
        r.untargeted.toInstruction =
          Synthesis.transferMove t.direction t.size part.1 part.2) ∧
      (s.afterRequests (before ++ .transfer t :: rest)).slots[
          (s.afterRequests before).records.length + k]? = t.note? part := by
  have htrim := trim_afterRequests hs before
  rw [afterRequests_append, afterRequests_cons]
  generalize s.afterRequests before = u at htrim ⊢
  have hlt := (List.getElem?_eq_some_iff.mp hk).1
  have hmeet := meet_transfer_of_admitted u h
  have hthen : (u.meet (.transfer t)).2.records[u.records.length + k]? =
      some (u.stamp (Synthesis.transferMove t.direction t.size part.1 part.2)) := by
    rw [hmeet, records_foldl_moved, List.getElem?_append_right (by omega), Nat.add_sub_cancel_left,
      List.getElem?_map, hk]
    rfl
  constructor
  · obtain ⟨r, hr, hsame⟩ := (grows_afterRequests _ rest).getElem? hthen
    refine ⟨r, hr, ?_⟩
    rw [hsame]
    rfl
  · rw [slots_afterRequests (trim_meet htrim _) rest (List.getElem?_eq_some_iff.mp hthen).1, hmeet]
    exact slots_foldl_moved htrim hk

/-- A record that a transfer appended is one of its moves. -/
theorem AppendedBy.part (hs : s.Trim) {qs : List Request} {n : Nat}
    (h : s.AppendedBy qs n (.transfer t)) :
    ∃ part ∈ t.parts,
      (∃ r, (s.afterRequests qs).records[n]? = some r ∧
        r.untargeted.toInstruction =
          Synthesis.transferMove t.direction t.size part.1 part.2) ∧
      (s.afterRequests qs).slots[n]? = t.note? part := by
  obtain ⟨before, rest, rfl, hle, hlt⟩ := h
  rw [afterRequests_snoc] at hlt
  by_cases h : t.Admitted
  · rw [meet_transfer_of_admitted _ h, records_foldl_moved, List.length_append,
      List.length_map] at hlt
    obtain ⟨k, rfl⟩ : ∃ k, n = (s.afterRequests before).records.length + k :=
      ⟨n - (s.afterRequests before).records.length, by omega⟩
    have hk : k < t.parts.length := by omega
    have hpart := List.getElem?_eq_getElem hk
    exact ⟨_, List.mem_of_getElem? hpart, part_afterRequests hs before rest h hpart⟩
  · -- A transfer that is refused appends nothing.
    obtain ⟨f, hf⟩ := meet_transfer_of_not_admitted (s.afterRequests before) h
    rw [hf] at hlt
    exact absurd hle (by simpa using hlt)

/-- Records of other requests have no note. -/
theorem AppendedBy.not_noted_of_ne (hs : s.Trim) {qs : List Request} {n : Nat} {q : Request}
    (h : s.AppendedBy qs n q) (hq : ∀ t, q ≠ .transfer t) :
    (s.afterRequests qs).slots[n]? = none := by
  obtain ⟨u, htrim, hle, -, -, hslots⟩ := h.settled hs
  rw [hslots, (sameNotes_meet hq).1]
  exact htrim n hle

end Session

/-! ## §5. Runs. -/

/-- The slot is the one that the record's own displacement lies in, and the
rest says what kind of access it is. -/
structure SlotAccess.Fits (access : SlotAccess) (r : Record) (size : AccessSize) : Prop where
  slot : ∃ disp, r.stackDisp? = some disp ∧
    4 * access.slot.toInt ≤ disp.toInt ∧ disp.toInt < 4 * access.slot.toInt + 4
  isLoad : access.isLoad = r.opcode.effects.isLoad
  isWide : access.isWide = true ↔ size = .long ∨ size = .double

/-- The halves of a 64-bit value in a stream: one right after the other, each
with its own register and displacement, noted for neighbouring slots. -/
structure Session.Halves (s : Session) (t : Transfer) (low high : Nat) : Prop where
  order : if t.base = t.lo then low = high + 1 else high = low + 1
  lowMove : ∃ r, s.records[low]? = some r ∧
    r.operands = Synthesis.transferOperands t.direction t.address t.lo
  highMove : ∃ r, s.records[high]? = some r ∧
    r.operands = Synthesis.transferOperands t.direction { t.address with disp := t.disp + 4 } t.hi
  slots : ∃ a b, s.slotOf? ⟨low⟩ = some a ∧ s.slotOf? ⟨high⟩ = some b ∧
    b.slot.toInt = a.slot.toInt + 1

/-- The frame slots noted in a run are exactly those of its transfers. -/
structure FrameNotes (start : Session) (qs : List Request) : Prop where
  noted_iff : ∀ n, (∃ access, (start.afterRequests qs).slotOf? ⟨n⟩ = some access) ↔
    ∃ t : Transfer, t.base = .stackPointer ∧ t.index = .absent ∧
      start.AppendedBy qs n (.transfer t)
  fits : ∀ n t access r, start.AppendedBy qs n (.transfer t) →
    (start.afterRequests qs).slotOf? ⟨n⟩ = some access →
    (start.afterRequests qs).records[n]? = some r → access.Fits r t.size
  /-- A 64-bit value in two registers is refused as a whole, or appended in two
  moves and no more. -/
  halves : ∀ before t rest, qs = before ++ .transfer t :: rest →
    t.base = .stackPointer → t.index = .absent → t.isSplit = true →
    (∃ f, (start.afterRequests before).meet (.transfer t) =
      (.error f, start.afterRequests before)) ∨
    ∃ low high, ((start.afterRequests before).meet (.transfer t)).1 = .ok (.appended ⟨low⟩) ∧
      (∀ n, (start.afterRequests before).records.length ≤ n ∧
          n < (start.afterRequests (before ++ [.transfer t])).records.length ↔
        n = low ∨ n = high) ∧
      (start.afterRequests qs).Halves t low high
  /-- As many records have a note as notes were made. -/
  once : (start.afterRequests qs).stats.annotated = (start.afterRequests qs).slots.size
  kept : ∀ before, before <+: qs → ∀ id access,
    (start.afterRequests before).slotOf? id = some access →
    (start.afterRequests qs).slotOf? id = some access

namespace Session

variable {s : Session} {t : Transfer} {qs : List Request}

/-- A note is made in the frame only, and it fits the move. -/
theorem fits_of_note? {part : Address × Reg} {access : SlotAccess} {r : Record}
    (hnote : t.note? part = some access)
    (hmove : r.untargeted.toInstruction =
      Synthesis.transferMove t.direction t.size part.1 part.2) : access.Fits r t.size := by
  unfold Transfer.note? at hnote
  split at hnote
  next hframe =>
    obtain rfl := Option.some.inj hnote
    have hstack : part.1.base = .stackPointer ∧ !part.1.isArray := by
      simpa [Address.inFrame] using hframe
    have hplain : part.1.isArray = false := by simpa using hstack.2
    constructor
    · refine ⟨part.1.disp, ?_, ?_⟩
      · have huntargeted : r.untargeted.untargeted = r.untargeted := rfl
        rw [← stackDisp?_of_untargeted huntargeted]
        show r.untargeted.toInstruction.stackDisp? = _
        rw [hmove, Synthesis.stackDisp?_transferMove, if_pos hstack]
      · rw [toInt_frameSlot]
        omega
    · show (t.direction == .load) = r.untargeted.toInstruction.opcode.effects.isLoad
      rw [hmove, Synthesis.transferMove_plain hplain]
      show _ = (Synthesis.transferOpcodes t.direction t.size part.2).1.effects.isLoad
      rw [Synthesis.effects_transferOpcodes]
      cases t.direction <;> rfl
    · show t.size.isWide = true ↔ _
      cases t.size <;> simp [AccessSize.isWide]
  next => exact absurd hnote (by simp)

theorem AppendedBy.fits (hs : s.Trim) {n : Nat} {access : SlotAccess} {r : Record}
    (h : s.AppendedBy qs n (.transfer t)) (hslot : (s.afterRequests qs).slots[n]? = some access)
    (hr : (s.afterRequests qs).records[n]? = some r) : access.Fits r t.size := by
  obtain ⟨part, -, ⟨r', hr', hmove⟩, hnote⟩ := h.part hs
  obtain rfl : r = r' := Option.some.inj (hr.symm.trans hr')
  exact fits_of_note? (hnote.symm.trans hslot) hmove

/-- A note that was made is still there at the end of the run. -/
theorem slots_between (hs : s.Trim) {before : List Request} (h : before <+: qs) {n : Nat}
    {access : SlotAccess} (hslot : (s.afterRequests before).slots[n]? = some access) :
    (s.afterRequests qs).slots[n]? = some access := by
  obtain ⟨rest, rfl⟩ := h
  have htrim := trim_afterRequests hs before
  have hlt : n < (s.afterRequests before).records.length := by
    refine Nat.lt_of_not_le fun hle => ?_
    rw [htrim n hle] at hslot
    exact nomatch hslot
  rw [afterRequests_append, slots_afterRequests htrim rest hlt, hslot]

theorem noted_iff_new (scratch : List Reg) (qs : List Request) (n : Nat) :
    (∃ access, ((new scratch).afterRequests qs).slots[n]? = some access) ↔
      ∃ t : Transfer, t.base = .stackPointer ∧ t.index = .absent ∧
        (new scratch).AppendedBy qs n (.transfer t) := by
  have hs : (new scratch).Trim := (tallied_new scratch).trim
  constructor
  · rintro ⟨access, hslot⟩
    have hlt : n < ((new scratch).afterRequests qs).records.length := by
      refine Nat.lt_of_not_le fun hle => ?_
      rw [trim_afterRequests hs qs n hle] at hslot
      exact nomatch hslot
    obtain ⟨q, hq⟩ := exists_appendedBy (Nat.zero_le n) hlt
    by_cases htransfer : ∃ t, q = .transfer t
    · obtain ⟨t, rfl⟩ := htransfer
      obtain ⟨part, hpart, -, hnote⟩ := hq.part hs
      have hsome : (t.note? part).isSome = true := by
        rw [← hnote, hslot]
        rfl
      obtain ⟨hbase, hindex⟩ := (Transfer.isSome_note? hpart).mp hsome
      exact ⟨t, hbase, hindex, hq⟩
    · rw [hq.not_noted_of_ne hs fun t ht => htransfer ⟨t, ht⟩] at hslot
      exact nomatch hslot
  · rintro ⟨t, hbase, hindex, hq⟩
    obtain ⟨part, hpart, -, hnote⟩ := hq.part hs
    rw [hnote]
    exact Option.isSome_iff_exists.mp ((Transfer.isSome_note? hpart).mpr ⟨hbase, hindex⟩)

/-- An admitted 64-bit transfer through two registers is two moves in a row. -/
theorem halves_appended (u : Session) (h : t.Admitted) (hsplit : t.isSplit = true) (n : Nat) :
    u.records.length ≤ n ∧ n < (u.meet (.transfer t)).2.records.length ↔
      n = u.records.length + t.lead ∨ n = u.records.length + t.trail := by
  have hplace := Transfer.lead_trail hsplit
  rw [meet_transfer_of_admitted u h, records_foldl_moved, List.length_append, List.length_map,
    Transfer.length_parts_of_split hsplit]
  split at hplace <;> omega

theorem halves_afterRequests (hs : s.Trim) (before rest : List Request) (h : t.Admitted)
    (hbase : t.base = .stackPointer) (hindex : t.index = .absent) (hsplit : t.isSplit = true) :
    (s.afterRequests (before ++ .transfer t :: rest)).Halves t
      ((s.afterRequests before).records.length + t.lead)
      ((s.afterRequests before).records.length + t.trail) := by
  have hlow := Transfer.parts_lead hsplit
  have hhigh := Transfer.parts_trail hsplit
  obtain ⟨⟨r, hr, hmove⟩, hnote⟩ := part_afterRequests hs before rest h hlow
  obtain ⟨⟨r', hr', hmove'⟩, hnote'⟩ := part_afterRequests hs before rest h hhigh
  rw [Transfer.note?_of_mem_parts (List.mem_of_getElem? hlow) hbase hindex] at hnote
  rw [Transfer.note?_of_mem_parts (List.mem_of_getElem? hhigh) hbase hindex] at hnote'
  constructor
  · have hplace := Transfer.lead_trail hsplit
    split at hplace
    next hlo =>
      rw [if_pos hlo]
      omega
    next hlo =>
      rw [if_neg hlo]
      omega
  · exact ⟨r, hr, congrArg Instruction.operands hmove⟩
  · exact ⟨r', hr', congrArg Instruction.operands hmove'⟩
  · refine ⟨_, _, hnote, hnote', ?_⟩
    have hfour : (t.disp + 4).toInt = t.disp.toInt + 4 := toInt_add_four (h.split hsplit).2
    rw [toInt_frameSlot, toInt_frameSlot]
    show (t.disp + 4).toInt / 4 = t.disp.toInt / 4 + 1
    omega

end Session

/-- **THE SLOTS THAT TRANSFERS NOTE.**  After any run of requests on a fresh
session, met or not, a record has a frame slot noted exactly when a transfer
relative to the stack pointer, without an index, appended it.  The slot is the
one its displacement lies in, the two halves of a 64-bit value have
neighbouring slots, and no note is ever replaced. -/
theorem frame_slots_noted (scratch : List Reg) (qs : List Request) :
    FrameNotes (Session.new scratch) qs where
  noted_iff := Session.noted_iff_new scratch qs
  fits n t access r h hslot hr := h.fits (Session.tallied_new scratch).trim hslot hr
  halves before t rest hqs hbase hindex hsplit := by
    subst hqs
    by_cases h : t.Admitted
    · refine .inr ⟨_, _, ?_, fun n => ?_, Session.halves_afterRequests
        (Session.tallied_new scratch).trim before rest h hbase hindex hsplit⟩
      · rw [Session.meet_transfer_of_admitted _ h]
      · rw [Session.afterRequests_snoc]
        exact Session.halves_appended _ h hsplit n
    · exact .inl (Session.meet_transfer_of_not_admitted _ h)
  once := ((Session.tallied_new scratch).afterRequests qs).once
  kept before h _ _ hslot := Session.slots_between (Session.tallied_new scratch).trim h hslot

-- The low half of this load overwrites the base, so the high half and its slot come first.
example :
    ((Session.new []).afterRequests
        [.transfer (.wide .load .stackPointer (-8) .stackPointer (.gp .ebx))]).slotList =
      [(⟨0⟩, ⟨-1, true, true⟩), (⟨1⟩, ⟨-2, true, true⟩)] := by
  decide

end TwoAddress
