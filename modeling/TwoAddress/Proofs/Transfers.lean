/-
  TwoAddress.Proofs.Transfers
  ───────────────────────────
  **WHAT A TRANSFER COMES TO.**

  A transfer is checked before anything is asked of the compilation unit.
  One that passes is a single move, or the two halves of a 64-bit value in an
  order that the base decides.

    • §1 two registers that stand for a double, or the report on them;
    • §2 the checks, as `Transfer.Admitted`: a transfer is admitted and nothing
      refuses it any more, or it is refused at once, with the fault of a check
      that fails (`Transfer.Objection`);
    • §3 the moves of an admitted transfer, in order, as `Transfer.parts`;
    • §4 a session that meets a transfer takes in the parts one after the other
      (`meet_transfer_of_admitted`), or it refuses the transfer for what there
      is to object to it, and stays as it is (`transfer_refused_iff`).
-/
import TwoAddress.Proofs.Demands
import TwoAddress.Proofs.Runs

namespace TwoAddress

/-! ## §1. Pairs of registers. -/

namespace Reg

/-- Both are xmm registers, and the second is the one after the first. -/
def Precedes : Reg → Reg → Prop
  | .xmm lo, .xmm hi => hi.index.toNat = lo.index.toNat + 1
  | _, _ => False

/-- The report on two registers that stand for no double.  After the last index
there is none to expect. -/
def pairFault : Reg → Reg → Fault
  | .xmm lo, .xmm hi =>
      if lo.index = 255 then .indexOverflow else .pairGap (lo.index + 1) hi.index
  | lo, hi => .violation (.registerClass (lo.text ++ "/" ++ hi.text) "a floating-point pair")

/-- Before the last index, the next one does not wrap around. -/
theorem index_succ_eq_iff {i j : UInt8} (hi : i ≠ 255) : i + 1 = j ↔ j.toNat = i.toNat + 1 := by
  have hbound : i.toNat < 256 := i.toNat_lt
  have hne : i.toNat ≠ 255 := by
    intro h
    exact hi (UInt8.toNat_inj.mp h)
  rw [← UInt8.toNat_inj, UInt8.toNat_add]
  show (i.toNat + 1) % 256 = j.toNat ↔ _
  omega

/-- **Two registers are paired, or reported on.** -/
theorem pair_cases (lo hi : Reg) :
    (lo.Precedes hi ∧ ∃ reg, pair lo hi = .ok reg) ∨
      (¬ lo.Precedes hi ∧ pair lo hi = .error (pairFault lo hi)) := by
  cases lo with
  | absent | gp => exact Or.inr ⟨id, rfl⟩
  | xmm lo =>
      cases hi with
      | absent | gp => exact Or.inr ⟨id, rfl⟩
      | xmm hi =>
          unfold Precedes pair pairFault
          by_cases hlast : lo.index = 255
          · -- The index after the last one is no byte.
            have hbound : hi.index.toNat < 256 := hi.index.toNat_lt
            refine Or.inr ⟨?_, ?_⟩
            · show ¬ hi.index.toNat = lo.index.toNat + 1
              rw [hlast]
              show ¬ hi.index.toNat = 256
              omega
            · simp only [if_pos hlast]
          · simp only [if_neg hlast, ← index_succ_eq_iff hlast]
            by_cases hnext : lo.index + 1 = hi.index
            · exact Or.inl ⟨hnext, .double lo.index, if_pos hnext⟩
            · exact Or.inr ⟨hnext, if_neg hnext⟩

end Reg

/-! ## §2. Checks. -/

namespace Transfer

/-- Where the value is, or its low half. -/
def address (t : Transfer) : Address :=
  { base := t.base, index := t.index, scale := t.scale, disp := t.disp }

/-- A 64-bit value that is not in an xmm register moves in two halves. -/
def isSplit (t : Transfer) : Bool := t.size.isWide && !t.lo.isXmm

/-- The register of a transfer that is a single move.  A 64-bit value in xmm
registers is in the double that the low one names. -/
def whole (t : Transfer) : Reg :=
  match t.lo with
  | .xmm r => if t.size.isWide then .double r.index else t.lo
  | _ => t.lo

/-- The checks that a transfer has to pass. -/
structure Admitted (t : Transfer) : Prop where
  scale : t.scale ≤ 3
  aligned : t.disp.toInt % t.size.alignment = 0
  /-- Two singles are neighbours. -/
  pair : t.size.isWide = true → t.lo.isSingle = true → Reg.pair t.lo t.hi = .ok t.whole
  /-- Two halves have a second register and a second displacement. -/
  split : t.isSplit = true → t.hi.isGp = true ∧ t.disp.toInt + 4 < 0x80000000
  word : t.size = .word ∨ t.size = .single → t.lo.isDouble = false
  byte : t.direction = .store → t.size.isByte = true → t.lo.byteAddressable = true

/-- What there is to object to a transfer, and the fault that says so: one case
for each check. -/
inductive Objection (t : Transfer) : Fault → Prop where
  /-- The index is shifted too far. -/
  | scale (h : 3 < t.scale.toNat) : Objection t (.scaleRange t.scale)
  /-- The displacement is no multiple of the alignment. -/
  | alignment (h : ¬ (t.size.alignment : Int) ∣ t.disp.toInt) :
      Objection t (.misaligned t.size t.disp)
  /-- 64 bits are in a single, and the other register is not the one after it. -/
  | pair (hsize : t.size.isWide = true) (hlo : t.lo.isSingle = true)
      (h : ¬ t.lo.Precedes t.hi) : Objection t (Reg.pairFault t.lo t.hi)
  /-- 64 bits are in no xmm register, and the high half has no register. -/
  | highHalf (hsize : t.size.isWide = true) (hlo : t.lo.isXmm = false)
      (h : t.hi.isGp = false) : Objection t .splitHighHalf
  /-- 64 bits are in no xmm register, and the high half has no displacement. -/
  | room (hsize : t.size.isWide = true) (hlo : t.lo.isXmm = false)
      (h : 0x7FFFFFFF < t.disp.toInt + 4) :
      Objection t (.violation (.displacementOverflow t.disp))
  /-- 32 bits are in a double. -/
  | double (hsize : t.size = .word ∨ t.size = .single) (h : t.lo.isDouble = true) :
      Objection t (.wordThroughDouble t.lo)
  /-- A byte is stored from a register whose low byte cannot be named. -/
  | byte (hdirection : t.direction = .store) (hsize : t.size.isByte = true)
      (h : t.lo.byteAddressable = false) : Objection t (.byteStore t.lo)

variable {t : Transfer}

theorem isSplit_of_narrow (h : t.size.isWide = false) : t.isSplit = false := by
  rw [isSplit, h, Bool.false_and]

theorem whole_of_narrow (h : t.size.isWide = false) : t.whole = t.lo := by
  unfold whole
  split
  · rw [if_neg (by simp [h])]
  · rfl

theorem whole_of_not_single (h : t.lo.isSingle = false) : t.whole = t.lo := by
  unfold whole
  split
  next r hr =>
    split
    · rw [hr] at h ⊢
      obtain ⟨index, _ | _⟩ := r
      · exact absurd h (by simp [Reg.isSingle])
      · rfl
    · rfl
  next => rfl

/-- Neighbours stand for the double that the low one names. -/
theorem whole_of_pair {reg : Reg} (hwide : t.size.isWide = true)
    (h : Reg.pair t.lo t.hi = .ok reg) : reg = t.whole := by
  unfold Reg.pair at h
  split at h
  next lo hi hlo hhi =>
    split at h
    · exact nomatch h
    · split at h
      · injection h with h
        rw [whole, hlo, ← h]
        exact (if_pos hwide).symm
      · exact nomatch h
  next => exact nomatch h

/-- The checks of a 64-bit transfer. -/
theorem Admitted.of_wide (hscale : t.scale ≤ 3)
    (haligned : t.disp.toInt % t.size.alignment = 0) (hwide : t.size.isWide = true)
    (hpair : t.lo.isSingle = true → Reg.pair t.lo t.hi = .ok t.whole)
    (hsplit : t.lo.isXmm = false → t.hi.isGp = true ∧ t.disp.toInt + 4 < 0x80000000) :
    t.Admitted where
  scale := hscale
  aligned := haligned
  pair _ := hpair
  split h := hsplit (by simpa [isSplit, hwide] using h)
  word h := by
    rcases h with h | h <;> exact absurd hwide (by simp [h, AccessSize.isWide])
  byte _ h := by
    cases hsize : t.size <;> simp [hsize, AccessSize.isWide, AccessSize.isByte] at hwide h

/-- The checks of a transfer of at most 32 bits. -/
theorem Admitted.of_narrow (hscale : t.scale ≤ 3)
    (haligned : t.disp.toInt % t.size.alignment = 0) (hnarrow : t.size.isWide = false)
    (hword : t.size = .word ∨ t.size = .single → t.lo.isDouble = false)
    (hbyte : t.direction = .store → t.size.isByte = true → t.lo.byteAddressable = true) :
    t.Admitted where
  scale := hscale
  aligned := haligned
  pair h := absurd h (by simp [hnarrow])
  split h := absurd h (by simp [isSplit_of_narrow hnarrow])
  word := hword
  byte := hbyte

/-- A transfer to which there is something to object is not admitted. -/
theorem Objection.not_admitted {f : Fault} (h : t.Objection f) : ¬ t.Admitted := by
  intro hadmitted
  have hsplit : t.size.isWide = true → t.lo.isXmm = false → t.isSplit = true := by
    intro hsize hlo
    rw [isSplit, hsize, hlo]
    rfl
  cases h with
  | scale h =>
      have hscale : t.scale.toNat ≤ 3 := UInt8.le_iff_toNat_le.mp hadmitted.scale
      omega
  | alignment h => exact h (Int.dvd_of_emod_eq_zero hadmitted.aligned)
  | pair hsize hlo h =>
      rcases Reg.pair_cases t.lo t.hi with ⟨hnext, -⟩ | ⟨-, hfault⟩
      · exact h hnext
      · rw [hadmitted.pair hsize hlo] at hfault
        exact absurd hfault (by simp)
  | highHalf hsize hlo h =>
      rw [(hadmitted.split (hsplit hsize hlo)).1] at h
      exact absurd h (by simp)
  | room hsize hlo h =>
      have hroom := (hadmitted.split (hsplit hsize hlo)).2
      omega
  | double hsize h =>
      rw [hadmitted.word hsize] at h
      exact absurd h (by simp)
  | byte hdirection hsize h =>
      rw [hadmitted.byte hdirection hsize] at h
      exact absurd h (by simp)

end Transfer

namespace Synthesis

theorem require_of {condition : Bool} (h : condition = true) (f : Fault) :
    require condition f = done () := by
  rw [require, if_pos h]

theorem require_of_not {condition : Bool} (h : condition = false) (f : Fault) :
    require condition f = fail f := by
  rw [require, if_neg (by simp [h])]

/-- A transfer whose address has passed its checks. -/
def transferAt (t : Transfer) : Synthesis RecordId :=
  if t.size.isWide then
    if t.lo.isXmm then
      if t.lo.isSingle then
        ofExcept (Reg.pair t.lo t.hi) >>= emitTransfer t.direction t.size t.address
      else emitTransfer t.direction t.size t.address t.lo
    else do
      require t.hi.isGp .splitHighHalf
      splitTransfer t.direction t.size t.address t.lo t.hi
  else if t.size = .word ∨ t.size = .single then do
    require (!t.lo.isDouble) (.wordThroughDouble t.lo)
    emitTransfer t.direction t.size t.address t.lo
  else if t.size.isByte then do
    require (t.direction == .load || t.lo.byteAddressable) (.byteStore t.lo)
    emitTransfer t.direction t.size t.address t.lo
  else emitTransfer t.direction t.size t.address t.lo

theorem transfer_eq (t : Transfer) :
    transfer t =
      if t.scale ≤ 3 then do
        require (t.disp.toInt % t.size.alignment == 0) (.misaligned t.size t.disp)
        transferAt t
      else fail (.scaleRange t.scale) := by
  unfold transfer Address.array transferAt
  by_cases hscale : t.scale ≤ 3
  · rw [if_pos hscale, if_pos hscale]
    cases t.size <;> cases t.lo.isSingle <;> rfl
  · rw [if_neg hscale, if_neg hscale]
    rfl

/-- **An admitted transfer** goes through without another check. -/
theorem transfer_of_admitted {t : Transfer} (h : t.Admitted) :
    transfer t =
      if t.isSplit then splitTransfer t.direction t.size t.address t.lo t.hi
      else emitTransfer t.direction t.size t.address t.whole := by
  rw [transfer_eq, if_pos h.scale, require_of (by simp [h.aligned]), done_bind]
  unfold transferAt
  cases hwide : t.size.isWide with
  | true =>
      cases hxmm : t.lo.isXmm with
      | true =>
          have hsplit : t.isSplit = false := by simp [Transfer.isSplit, hxmm]
          cases hsingle : t.lo.isSingle with
          | true =>
              rw [hsplit, h.pair hwide hsingle]
              rfl
          | false =>
              rw [hsplit, Transfer.whole_of_not_single hsingle]
              rfl
      | false =>
          have hsplit : t.isSplit = true := by simp [Transfer.isSplit, hwide, hxmm]
          rw [hsplit, require_of (h.split hsplit).1]
          rfl
  | false =>
      have hword : t.size = .word ∨ t.size = .single → (!t.lo.isDouble) = true := by
        intro hsize
        rw [h.word hsize]
        rfl
      have hbyte : t.size.isByte = true →
          (t.direction == .load || t.lo.byteAddressable) = true := by
        intro hsize
        cases hdir : t.direction with
        | load => rfl
        | store => rw [h.byte hdir hsize, Bool.or_true]
      rw [Transfer.isSplit_of_narrow hwide, Transfer.whole_of_narrow hwide]
      show (if t.size = .word ∨ t.size = .single then _ else _) = _
      split
      next hsize =>
        rw [require_of (hword hsize)]
        rfl
      next =>
        split
        next hsize =>
          rw [require_of (hbyte hsize)]
          rfl
        next => rfl

section Split

variable {direction : Direction} {size : AccessSize} {a : Address}

theorem splitTransfer_of_room (h : a.disp.toInt + 4 < 0x80000000) (lo hi : Reg) :
    splitTransfer direction size a lo hi =
      if a.base = lo then do
        remark (.highHalfFirst a)
        let _ ← emitTransfer direction size { a with disp := a.disp + 4 } hi
        emitTransfer direction size a lo
      else do
        let id ← emitTransfer direction size a lo
        let _ ← emitTransfer direction size { a with disp := a.disp + 4 } hi
        return id := by
  unfold splitTransfer Word.plusFour?
  rw [if_pos h]

theorem splitTransfer_of_no_room (h : ¬ a.disp.toInt + 4 < 0x80000000) (lo hi : Reg) :
    splitTransfer direction size a lo hi = fail (.violation (.displacementOverflow a.disp)) := by
  unfold splitTransfer Word.plusFour?
  rw [if_neg h]

end Split

/-- A 64-bit transfer that fails a check of its registers is refused for it. -/
theorem wide_refused {t : Transfer} (hwide : t.size.isWide = true) (hscale : t.scale ≤ 3)
    (haligned : t.disp.toInt % t.size.alignment = 0) (h : ¬ t.Admitted) :
    ∃ f, transferAt t = fail f ∧ t.Objection f := by
  have hcheck := fun hpair hsplit =>
    h (Transfer.Admitted.of_wide hscale haligned hwide hpair hsplit)
  unfold transferAt
  rw [if_pos hwide]
  cases hxmm : t.lo.isXmm with
  | true =>
      have hsplit : t.lo.isXmm = false → t.hi.isGp = true ∧ t.disp.toInt + 4 < 0x80000000 := by
        intro hno
        exact absurd hxmm (by simp [hno])
      cases hsingle : t.lo.isSingle with
      | true =>
          rcases Reg.pair_cases t.lo t.hi with ⟨-, reg, hpair⟩ | ⟨hno, hpair⟩
          · obtain rfl := Transfer.whole_of_pair hwide hpair
            exact absurd hsplit (hcheck fun _ => hpair)
          · rw [hpair]
            exact ⟨_, rfl, .pair hwide hsingle hno⟩
      | false =>
          refine absurd hsplit (hcheck fun hyes => ?_)
          exact absurd hsingle (by simp [hyes])
  | false =>
      have hpair : t.lo.isSingle = true → Reg.pair t.lo t.hi = .ok t.whole := by
        intro hsingle
        cases hlo : t.lo <;> simp [hlo, Reg.isSingle, Reg.isXmm] at hsingle hxmm
      cases hhi : t.hi.isGp with
      | false => exact ⟨.splitHighHalf, rfl, .highHalf hwide hxmm hhi⟩
      | true =>
          have hroom : ¬ t.address.disp.toInt + 4 < 0x80000000 := by
            intro hroom
            exact hcheck hpair fun _ => ⟨hhi, hroom⟩
          refine ⟨_, splitTransfer_of_no_room hroom t.lo t.hi, .room hwide hxmm ?_⟩
          show 0x7FFFFFFF < t.address.disp.toInt + 4
          omega

/-- A narrower transfer that fails a check of its register is refused for it. -/
theorem narrow_refused {t : Transfer} (hnarrow : t.size.isWide = false) (hscale : t.scale ≤ 3)
    (haligned : t.disp.toInt % t.size.alignment = 0) (h : ¬ t.Admitted) :
    ∃ f, transferAt t = fail f ∧ t.Objection f := by
  have hcheck := fun hword hbyte =>
    h (Transfer.Admitted.of_narrow hscale haligned hnarrow hword hbyte)
  unfold transferAt
  rw [if_neg (by simp [hnarrow])]
  split
  next hsize =>
    cases hdouble : t.lo.isDouble with
    | true => exact ⟨.wordThroughDouble t.lo, rfl, .double hsize hdouble⟩
    | false =>
        refine absurd (fun _ hbyte => ?_) (hcheck fun _ => hdouble)
        rcases hsize with hsize | hsize <;>
          exact absurd hbyte (by simp [hsize, AccessSize.isByte])
  next hsize =>
    have hword : t.size = .word ∨ t.size = .single → t.lo.isDouble = false := by
      intro hno
      exact absurd hno hsize
    split
    next hbyte =>
      cases haddressable : (t.direction == .load || t.lo.byteAddressable) with
      | false =>
          obtain ⟨hload, hlow⟩ := Bool.or_eq_false_iff.mp haddressable
          have hstore : t.direction = .store := by
            cases hdirection : t.direction with
            | load => exact absurd hload (by simp [hdirection])
            | store => rfl
          exact ⟨.byteStore t.lo, rfl, .byte hstore hbyte hlow⟩
      | true =>
          refine absurd (fun hstore _ => ?_) (hcheck hword)
          simpa [hstore] using haddressable
    next hbyte => exact absurd (fun _ hyes => absurd hyes hbyte) (hcheck hword)

/-- **A transfer that is not admitted is refused**, whatever the unit, with the
fault of a check that it fails. -/
theorem refused_of_not_admitted {t : Transfer} (h : ¬ t.Admitted) :
    ∃ f, transfer t = fail f ∧ t.Objection f := by
  rw [transfer_eq]
  by_cases hscale : t.scale ≤ 3
  · rw [if_pos hscale]
    by_cases haligned : t.disp.toInt % t.size.alignment = 0
    · rw [require_of (by simp [haligned]), done_bind]
      cases hwide : t.size.isWide with
      | true => exact wide_refused hwide hscale haligned h
      | false => exact narrow_refused hwide hscale haligned h
    · rw [require_of_not (by simp [haligned])]
      refine ⟨_, rfl, .alignment fun hdvd => ?_⟩
      exact haligned (Int.emod_eq_zero_of_dvd hdvd)
  · refine ⟨_, if_neg hscale, .scale ?_⟩
    rw [UInt8.le_iff_toNat_le] at hscale
    exact Nat.lt_of_not_le hscale

end Synthesis

/-! ## §3. Parts. -/

namespace Transfer

/-- The low half, or the value as far as it is in the low register. -/
def lowPart (t : Transfer) : Address × Reg := (t.address, t.lo)

/-- The high half, one word further on. -/
def highPart (t : Transfer) : Address × Reg := ({ t.address with disp := t.disp + 4 }, t.hi)

/-- The moves of an admitted transfer, in order: each an address and the
register that goes with it.  The high half goes first where the low half
would overwrite the base. -/
def parts (t : Transfer) : List (Address × Reg) :=
  if t.isSplit then
    if t.base = t.lo then [t.highPart, t.lowPart] else [t.lowPart, t.highPart]
  else [(t.address, t.whole)]

/-- The place of the low half among the parts. -/
def lead (t : Transfer) : Nat := if t.isSplit && t.base == t.lo then 1 else 0

variable {t : Transfer}

theorem parts_of_whole (h : t.isSplit = false) : t.parts = [(t.address, t.whole)] := by
  rw [parts, if_neg (by simp [h])]

theorem parts_of_split (h : t.isSplit = true) :
    t.parts = if t.base = t.lo then [t.highPart, t.lowPart] else [t.lowPart, t.highPart] := by
  rw [parts, if_pos h]

/-- Every part is at the address of the transfer, up to the displacement. -/
theorem address_of_mem_parts {part : Address × Reg} (h : part ∈ t.parts) :
    part.1.base = t.base ∧ part.1.index = t.index ∧ part.1.scale = t.scale := by
  unfold parts at h
  split at h
  · split at h <;> simp only [List.mem_cons, List.not_mem_nil, or_false] at h <;>
      rcases h with rfl | rfl <;> exact ⟨rfl, rfl, rfl⟩
  · simp only [List.mem_singleton] at h
    rw [h]
    exact ⟨rfl, rfl, rfl⟩

end Transfer

namespace Synthesis

/-- The move of one part. -/
def emitPart (t : Transfer) (part : Address × Reg) : Synthesis RecordId :=
  emitTransfer t.direction t.size part.1 part.2

theorem transfer_of_whole {t : Transfer} (h : t.Admitted) (hsplit : t.isSplit = false) :
    transfer t = emitPart t (t.address, t.whole) := by
  rw [transfer_of_admitted h, if_neg (by simp [hsplit])]
  rfl

theorem transfer_of_split {t : Transfer} (h : t.Admitted) (hsplit : t.isSplit = true) :
    transfer t =
      if t.base = t.lo then do
        remark (.highHalfFirst t.address)
        let _ ← emitPart t t.highPart
        emitPart t t.lowPart
      else do
        let id ← emitPart t t.lowPart
        let _ ← emitPart t t.highPart
        return id := by
  have hroom : t.address.disp.toInt + 4 < 0x80000000 := (h.split hsplit).2
  rw [transfer_of_admitted h, if_pos hsplit, splitTransfer_of_room hroom]
  rfl

/-- **What a transfer asks for**: the moves of its parts, a note of every frame
access, and one remark. -/
theorem asks_transfer_of {P : Demand → Prop} {t : Transfer}
    (hmove : t.Admitted → ∀ part ∈ t.parts,
      P (.append (transferMove t.direction t.size part.1 part.2)))
    (hannotate : ∀ id access, P (.annotate id access))
    (hnote : t.Admitted → P (.note (.highHalfFirst t.address))) : (transfer t).Asks P := by
  by_cases h : t.Admitted
  · have hemit : ∀ part ∈ t.parts, (emitPart t part).Asks P := by
      intro part hpart
      rw [emitPart, emitTransfer_eq]
      refine ⟨hmove h part hpart, fun id => ?_⟩
      split
      · exact ⟨hannotate id _, trivial⟩
      · trivial
    cases hsplit : t.isSplit with
    | false =>
        rw [Transfer.parts_of_whole hsplit] at hemit
        rw [transfer_of_whole h hsplit]
        exact hemit _ (List.mem_singleton_self _)
    | true =>
        rw [Transfer.parts_of_split hsplit] at hemit
        rw [transfer_of_split h hsplit]
        split
        next hbase =>
          rw [if_pos hbase] at hemit
          refine (asks_remark (hnote h)).bind fun _ => ?_
          exact (hemit t.highPart (by simp)).bind fun _ => hemit t.lowPart (by simp)
        next hbase =>
          rw [if_neg hbase] at hemit
          refine (hemit t.lowPart (by simp)).bind fun _ => ?_
          exact (hemit t.highPart (by simp)).bind fun _ => trivial
  · obtain ⟨f, hf, -⟩ := refused_of_not_admitted h
    rw [hf]
    trivial

/-- **The instructions of a transfer** are the moves of its parts. -/
theorem asks_transfer_parts {P : Demand → Prop} {t : Transfer}
    (hmove : t.Admitted → ∀ part ∈ t.parts,
      P (.append (transferMove t.direction t.size part.1 part.2)))
    (hother : ∀ d, (∀ i, d ≠ .append i) → P d) : (transfer t).Asks P :=
  asks_transfer_of hmove (fun _ _ => hother _ nofun) fun _ => hother _ nofun

/-- A sequence is met as its parts are. -/
theorem runIn_bind {σ α β : Type} (u : CodeUnit σ) (x : Synthesis α) (k : α → Synthesis β) :
    (x >>= k).runIn u = (x.runIn u >>= fun a => (k a).runIn u) := by
  induction x with
  | done a => rfl
  | fail f => rfl
  | append i next ih =>
      show (u.append i >>= fun id => (next id >>= k).runIn u) = _
      simp only [ih]
      exact (bind_assoc (u.append i) _ _).symm
  | retarget id target next ih =>
      show (u.retarget id target >>= fun _ => (next >>= k).runIn u) = _
      simp only [ih]
      exact (bind_assoc (u.retarget id target) _ _).symm
  | borrow exclude next ih =>
      show (u.borrow exclude >>= fun r => (next r >>= k).runIn u) = _
      simp only [ih]
      exact (bind_assoc (u.borrow exclude) _ _).symm
  | release r next ih =>
      show (u.release r >>= fun _ => (next >>= k).runIn u) = _
      simp only [ih]
      exact (bind_assoc (u.release r) _ _).symm
  | annotate id access next ih =>
      show (u.annotate id access >>= fun _ => (next >>= k).runIn u) = _
      simp only [ih]
      exact (bind_assoc (u.annotate id access) _ _).symm
  | note n next ih =>
      show (u.note n >>= fun _ => (next >>= k).runIn u) = _
      simp only [ih]
      exact (bind_assoc (u.note n) _ _).symm

end Synthesis

/-! ## §4. Sessions. -/

/-- An access at this address is one to a frame slot. -/
def Address.inFrame (a : Address) : Bool := a.base == .stackPointer && !a.isArray

namespace Session

/-- The session after one move: appended, and noted if it accesses the frame. -/
def moved (direction : Direction) (size : AccessSize) (s : Session) (part : Address × Reg) :
    Session :=
  let t := s.push (s.stamp (Synthesis.transferMove direction size part.1 part.2))
  if part.1.inFrame then
    { t with
      slots := s.slots.insert s.records.length (Synthesis.frameSlot direction size part.1.disp)
      stats := { t.stats with annotated := s.stats.annotated + 1 } }
  else t

theorem on_emitPart (s : Session) (t : Transfer) (part : Address × Reg) :
    ((Synthesis.emitPart t part).runIn unit).on s =
      (.ok ⟨s.records.length⟩, s.moved t.direction t.size part) := by
  have hframe : (part.1.base = .stackPointer ∧ !part.1.isArray) ↔ part.1.inFrame = true := by
    simp [Address.inFrame]
  rw [Synthesis.emitPart, Synthesis.emitTransfer_eq]
  unfold moved
  by_cases h : part.1.inFrame = true
  · simp only [if_pos (hframe.mpr h), if_pos h]
    rfl
  · simp only [if_neg (fun hno => h (hframe.mp hno)), if_neg h]
    rfl

theorem records_moved (direction : Direction) (size : AccessSize) (s : Session)
    (part : Address × Reg) :
    (s.moved direction size part).records =
      s.records ++ [s.stamp (Synthesis.transferMove direction size part.1 part.2)] := by
  unfold moved
  split <;> rfl

/-- The records of several moves, in order. -/
theorem records_foldl_moved (direction : Direction) (size : AccessSize)
    (parts : List (Address × Reg)) (s : Session) :
    (parts.foldl (moved direction size) s).records =
      s.records ++
        parts.map fun part => s.stamp (Synthesis.transferMove direction size part.1 part.2) := by
  induction parts generalizing s with
  | nil => simp
  | cons part parts ih =>
      have hstamp : (s.moved direction size part).stamp = s.stamp := by
        unfold moved
        split <;> rfl
      rw [List.foldl_cons, ih, records_moved, hstamp, List.append_assoc]
      rfl

/-- A transfer that is not admitted leaves the session as it is. -/
theorem meet_transfer_refused (s : Session) {t : Transfer} (h : ¬ t.Admitted) :
    ∃ f, s.meet (.transfer t) = (.error f, s) ∧ t.Objection f := by
  obtain ⟨f, hf, hobjection⟩ := Synthesis.refused_of_not_admitted h
  refine ⟨f, ?_, hobjection⟩
  show ((Reply.appended <$> Synthesis.transfer t).runIn unit).on s = _
  rw [hf]
  rfl

theorem meet_transfer_of_not_admitted (s : Session) {t : Transfer} (h : ¬ t.Admitted) :
    ∃ f, s.meet (.transfer t) = (.error f, s) := by
  obtain ⟨f, hmeet, -⟩ := s.meet_transfer_refused h
  exact ⟨f, hmeet⟩

/-- **An admitted transfer**: the session takes in its parts, and the reply is
the low half. -/
theorem meet_transfer_of_admitted (s : Session) {t : Transfer} (h : t.Admitted) :
    s.meet (.transfer t) =
      (.ok (.appended ⟨s.records.length + t.lead⟩),
        t.parts.foldl (moved t.direction t.size) s) := by
  have hremark : ((Synthesis.remark (.highHalfFirst t.address)).runIn unit).on s = (.ok (), s) := rfl
  show ((Synthesis.transfer t >>= fun id => pure (Reply.appended id)).runIn unit).on s = _
  rw [Synthesis.runIn_bind, Effect.on_bind]
  cases hsplit : t.isSplit with
  | false =>
      have hlead : t.lead = 0 := by simp [Transfer.lead, hsplit]
      rw [Synthesis.transfer_of_whole h hsplit, on_emitPart, Transfer.parts_of_whole hsplit, hlead]
      rfl
  | true =>
      rw [Synthesis.transfer_of_split h hsplit, Transfer.parts_of_split hsplit]
      by_cases hbase : t.base = t.lo
      · have hlead : t.lead = 1 := by simp [Transfer.lead, hsplit, hbase]
        have hlength : (s.moved t.direction t.size t.highPart).records.length =
            s.records.length + 1 := by
          rw [records_moved]
          simp
        rw [if_pos hbase, if_pos hbase, hlead, ← hlength]
        simp only [Synthesis.runIn_bind, Effect.on_bind, hremark, on_emitPart]
        rfl
      · have hlead : t.lead = 0 := by simp [Transfer.lead, hbase]
        rw [if_neg hbase, if_neg hbase, hlead]
        simp only [Synthesis.runIn_bind, Effect.on_bind, on_emitPart]
        rfl

end Session

/-- **A TRANSFER IS REFUSED FOR WHAT THERE IS TO OBJECT TO IT.**  For every session
and every transfer, whatever its registers, scale, displacement and size: a
fault comes of it exactly if one of its checks fails.  The fault is that of a
check that fails, and the session is as it was. -/
theorem transfer_refused_iff (s : Session) (t : Transfer) :
    ((∃ f, (s.meet (.transfer t)).1 = .error f) ↔ ∃ f, t.Objection f) ∧
      ∀ f, (s.meet (.transfer t)).1 = .error f →
        t.Objection f ∧ (s.meet (.transfer t)).2 = s := by
  by_cases h : t.Admitted
  · -- Nothing refuses an admitted transfer, and there is nothing to object to it.
    have hok : ∀ f, (s.meet (.transfer t)).1 ≠ .error f := by
      intro f
      rw [s.meet_transfer_of_admitted h]
      simp
    refine ⟨⟨?_, ?_⟩, ?_⟩
    · intro ⟨f, hf⟩
      exact absurd hf (hok f)
    · intro ⟨f, hobjection⟩
      exact absurd h hobjection.not_admitted
    · intro f hf
      exact absurd hf (hok f)
  · obtain ⟨g, hmeet, hobjection⟩ := s.meet_transfer_refused h
    rw [hmeet]
    refine ⟨⟨fun _ => ⟨g, hobjection⟩, fun _ => ⟨g, rfl⟩⟩, ?_⟩
    intro f hf
    obtain rfl : g = f := Except.error.inj hf
    exact ⟨hobjection, rfl⟩

end TwoAddress
