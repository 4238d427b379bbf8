/-
  TwoAddress.Proofs.Numbering
  ───────────────────────────
  **RECORDS ARE NUMBERED AS THEY COME.**

  A synthesizer is told the position of every record it appends and hands one
  of them on.  The `numbering` protocol follows a dialogue with nothing but
  the number of the next record:

    • §1 the protocol.  On a session, what is numbered is the stream: the old
      one stays in front, and the new records follow at its offset;
    • §2 the synthesizers.  A single record is the first and the last at once;
      constants hand on their first record, and arithmetic its last.
-/
import TwoAddress.Proofs.Demands
import TwoAddress.Proofs.Runs

namespace TwoAddress

/-! ## §1. The protocol. -/

/-- Records are numbered as they come; the state is the next number.  Only a
record from `start` on is pointed at a target. -/
def numbering (start : Nat) : Protocol Nat where
  append _ n K := K ⟨n⟩ (n + 1)
  retarget id _ n K := start ≤ id.index ∧ K n

namespace Session

/-- The session `t` has the stream of `s` and records at the offset of `s` after
it, `n` records in all. -/
structure Extends (s : Session) (n : Nat) (t : Session) : Prop where
  offset : t.offset = s.offset
  records : ∃ added, t.records = s.records ++ added ∧ s.records.length + added.length = n ∧
    ∀ r ∈ added, r.offset = s.offset

variable {s t u : Session} {n : Nat}

theorem Extends.begin (s : Session) : s.Extends s.records.length s :=
  ⟨rfl, [], (List.append_nil _).symm, rfl, fun _ hr => absurd hr List.not_mem_nil⟩

theorem Extends.length (h : s.Extends n t) : t.records.length = n := by
  obtain ⟨added, hadded, hn, -⟩ := h.records
  rw [hadded, List.length_append, hn]

/-- Nothing changes where the stream does not. -/
theorem Extends.of_records (h : s.Extends n t) (hoffset : u.offset = t.offset)
    (hrecords : u.records = t.records) : s.Extends n u :=
  ⟨hoffset.trans h.offset, hrecords ▸ h.records⟩

theorem Extends.push (h : s.Extends n t) (i : Instruction) :
    s.Extends (n + 1) (t.push (t.stamp i)) := by
  obtain ⟨added, hadded, hn, hstamped⟩ := h.records
  refine ⟨h.offset, added ++ [t.stamp i], ?_, ?_, ?_⟩
  · show t.records ++ [t.stamp i] = _
    rw [hadded, List.append_assoc]
  · rw [List.length_append, List.length_singleton]
    omega
  · intro r hr
    rcases List.mem_append.mp hr with hr | hr
    · exact hstamped r hr
    · rw [List.mem_singleton.mp hr]
      exact h.offset

/-- A target is attached behind the old stream. -/
theorem Extends.retarget (h : s.Extends n t) {m : Nat} (hm : s.records.length ≤ m) {r : Record}
    (hr : t.records[m]? = some r) (target : Option RecordId) :
    s.Extends n { t with records := t.records.set m { r with target } } := by
  obtain ⟨added, hadded, hn, hstamped⟩ := h.records
  refine ⟨h.offset, added.set (m - s.records.length) { r with target }, ?_, ?_, ?_⟩
  · show t.records.set m _ = _
    rw [hadded, List.set_append_right _ _ hm]
  · rw [List.length_set]
    exact hn
  · intro r' hr'
    rcases List.mem_or_eq_of_mem_set hr' with hmem | rfl
    · exact hstamped r' hmem
    · -- The record changed in its target, and it was one of those added.
      rw [hadded, List.getElem?_append_right hm] at hr
      exact hstamped r (List.mem_of_getElem? hr)

/-- **A session numbers its records** as the protocol does. -/
theorem numbering_keeps (s : Session) :
    (numbering s.records.length).Keeps unit s.Extends fun t => ∃ n, s.Extends n t where
  append {i n t K} h hK := by
    refine ⟨n + 1, h.push i, ?_⟩
    rw [h.length]
    exact hK
  retarget {id target n t K} h hK := by
    obtain ⟨hid, hK⟩ := hK
    simp only [unit, on_retarget]
    split
    · exact ⟨n, h⟩
    next r hr =>
      split
      · exact ⟨n, h.retarget hid hr target, hK⟩
      · exact ⟨n, h⟩
  borrow {exclude n t K} h hK := by
    simp only [unit, on_borrow]
    split
    · exact ⟨n, h.of_records rfl rfl, hK _⟩
    · exact ⟨n, h⟩
  release {r n t K} h hK := by
    simp only [unit, on_release]
    split
    · exact ⟨n, h.of_records rfl rfl, hK⟩
    · exact ⟨n, h⟩
  annotate {id access n t K} h hK := ⟨n, h.of_records rfl rfl, hK⟩
  note {m n t K} h hK := ⟨n, h, hK⟩
  stop {f n t} h _ := ⟨n, h⟩

end Session

/-! ## §2. First and last records. -/

namespace Synthesis

variable {start n : Nat} {Q : RecordId → Nat → Prop}

/-! A single record is both the first and the last. -/

theorem emit_numbering (op : Opcode) (operands : List Operand) (hQ : Q ⟨n⟩ (n + 1)) :
    (emit op operands).Follows (numbering start) n Q := hQ

theorem copy_numbering (dest src : Reg) (hQ : Q ⟨n⟩ (n + 1)) :
    (copy dest src).Follows (numbering start) n Q := by
  unfold copy
  cases copyInstruction dest src with
  | error f => trivial
  | ok i => exact hQ

theorem gpConstant_numbering (dest : Reg) (value : Word) (hQ : Q ⟨n⟩ (n + 1)) :
    (gpConstant dest value).Follows (numbering start) n Q := by
  unfold gpConstant
  split
  · exact emit_numbering _ _ hQ
  · exact emit_numbering _ _ hQ

theorem unary_numbering (op : Operation) (dest : Reg) (hQ : Q ⟨n⟩ (n + 1)) :
    (unary op dest).Follows (numbering start) n Q := by
  unfold unary
  split
  · exact emit_numbering _ _ hQ
  · exact emit_numbering _ _ hQ
  · exact emit_numbering _ _ hQ
  · trivial

/-- A constant that may be an immediate operand is not for an xmm register, so
it needs no scratch register. -/
theorem binaryImm_numbering (op : Operation) (dest : Reg) (value : Word) (hQ : Q ⟨n⟩ (n + 1)) :
    (binaryImm op dest value).Follows (numbering start) n Q := by
  unfold binaryImm
  cases hxmm : dest.isXmm with
  | true => trivial
  | false =>
      refine (asks_require _ _).follows_then (fun _ => trivial) fun _ => ?_
      split
      · rw [constant, if_neg (by simp [hxmm])]
        exact gpConstant_numbering dest value hQ
      · exact emit_numbering _ _ hQ
      · split
        · exact emit_numbering _ _ hQ
        · trivial

theorem binaryMem_numbering (op : Operation) (dest base : Reg) (disp : Word)
    (hQ : Q ⟨n⟩ (n + 1)) : (binaryMem op dest base disp).Follows (numbering start) n Q := by
  unfold binaryMem
  split
  · exact emit_numbering _ _ hQ
  · trivial

theorem callMem_numbering (op : Operation) (base : Reg) (disp : Word) (hQ : Q ⟨n⟩ (n + 1)) :
    (callMem op base disp).Follows (numbering start) n Q := by
  unfold callMem
  split
  · exact emit_numbering _ _ hQ
  · trivial

theorem callThread_numbering (op : Operation) (offset : Word) (hQ : Q ⟨n⟩ (n + 1)) :
    (callThread op offset).Follows (numbering start) n Q := by
  unfold callThread
  split
  · exact emit_numbering _ _ hQ
  · trivial

/-- A jump is pointed at its target right after it was appended. -/
theorem jump_numbering (target : Option RecordId) (hstart : start ≤ n) (hQ : Q ⟨n⟩ (n + 1)) :
    (jump target).Follows (numbering start) n Q :=
  ⟨hstart, hQ⟩

theorem jumpIf_numbering (cond : Condition) (target : Option RecordId) (hstart : start ≤ n)
    (hQ : Q ⟨n⟩ (n + 1)) : (jumpIf cond target).Follows (numbering start) n Q :=
  (asks_ofExcept _).follows_then (fun _ => trivial) fun _ => ⟨hstart, hQ⟩

/-! Constants reply with their first record. -/

theorem constant_numbering (dest : Reg) (value : Word) (hQ : ∀ m, n < m → Q ⟨n⟩ m) :
    (constant dest value).Follows (numbering start) n Q := by
  cases hxmm : dest.isXmm with
  | false =>
      rw [constant, if_neg (by simp [hxmm])]
      exact gpConstant_numbering dest value (hQ _ (by omega))
  | true =>
      by_cases hvalue : value = 0
      · rw [constant, if_pos hxmm, if_pos hvalue]
        exact emit_numbering _ _ (hQ _ (by omega))
      · rw [constant_eq_withScratch hxmm hvalue]
        refine (asks_require _ _).follows_then (fun _ => trivial) fun _ => ?_
        -- The value is made in the scratch register first, and that record counts.
        refine Follows.seq fun scratch => Follows.seq (Follows.seq ?_)
        refine gpConstant_numbering scratch value ?_
        exact Follows.seq (emit_numbering _ _ (hQ (n + 1 + 1) (by omega)))

theorem withHighHalf_numbering (lo hi : Reg) (value : Word) (id : RecordId)
    (hQ : ∀ m, n ≤ m → Q id m) :
    (withHighHalf lo hi value id).Follows (numbering start) n Q := by
  unfold withHighHalf
  split
  · refine Follows.seq (constant_numbering hi value fun m hm => ?_)
    refine Follows.seq (emit_numbering _ _ ?_)
    exact Follows.seq (emit_numbering _ _ (hQ (m + 1 + 1) (by omega)))
  · exact hQ n (by omega)

theorem constantPair_numbering (lo hi : Reg) (valueLo valueHi : Word)
    (hQ : ∀ m, n < m → Q ⟨n⟩ m) :
    (constantPair lo hi valueLo valueHi).Follows (numbering start) n Q := by
  cases hlo : lo.isXmm with
  | true =>
      rw [constantPair_of_xmm hlo]
      refine (asks_require _ _).follows_then (fun _ => trivial) fun _ => ?_
      refine Follows.seq (constant_numbering lo valueLo fun m hm => ?_)
      exact withHighHalf_numbering lo hi valueHi ⟨n⟩ fun k hk => hQ k (by omega)
  | false =>
      rw [constantPair_of_gp hlo]
      refine Follows.seq (constant_numbering lo valueLo fun m hm => ?_)
      exact Follows.seq (constant_numbering hi valueHi fun k hk => hQ k (by omega))

/-! Arithmetic replies with its last record. -/

theorem widenByte_numbering (dest src : Reg) (hQ : ∀ k, n ≤ k → Q ⟨k⟩ (k + 1)) :
    (widenByte dest src).Follows (numbering start) n Q := by
  unfold widenByte
  split
  · exact emit_numbering _ _ (hQ n (by omega))
  · refine Follows.seq (emit_numbering _ _ (Follows.seq (emit_numbering _ _ ?_)))
    exact emit_numbering _ _ (hQ (n + 1 + 1) (by omega))

theorem binary_numbering (op : Operation) (dest src : Reg) (hQ : ∀ k, n ≤ k → Q ⟨k⟩ (k + 1)) :
    (binary op dest src).Follows (numbering start) n Q := by
  have hcopied : ∀ op, (copy dest src >>= fun _ => unary op dest).Follows (numbering start) n Q := by
    intro op
    refine Follows.seq (copy_numbering dest src ?_)
    exact unary_numbering op dest (hQ (n + 1) (by omega))
  unfold binary
  split
  · exact hcopied _
  · exact hcopied _
  · exact widenByte_numbering dest src hQ
  · split
    · split
      · exact emit_numbering _ _ (hQ n (by omega))
      · trivial
    · split
      · exact emit_numbering _ _ (hQ n (by omega))
      · trivial

theorem copyThenImm_numbering (op : Operation) (dest src : Reg) (value : Word)
    (hQ : ∀ k, n ≤ k → Q ⟨k⟩ (k + 1)) :
    (copyThenImm op dest src value).Follows (numbering start) n Q := by
  unfold copyThenImm
  split
  · exact binaryImm_numbering op dest value (hQ n (by omega))
  · refine Follows.seq (copy_numbering dest src ?_)
    exact binaryImm_numbering op dest value (hQ (n + 1) (by omega))

theorem ternaryImm_numbering (op : Operation) (dest src : Reg) (value : Word)
    (hQ : ∀ k, n ≤ k → Q ⟨k⟩ (k + 1)) :
    (ternaryImm op dest src value).Follows (numbering start) n Q := by
  have hsingle := hQ n (by omega)
  unfold ternaryImm
  split
  · exact emit_numbering _ _ hsingle
  · split
    · exact Follows.seq hsingle
    · split
      · exact Follows.seq hsingle
      · exact copyThenImm_numbering .and dest src value hQ
  · split
    · exact binaryImm_numbering .add dest value hsingle
    · exact Follows.seq hsingle
  · exact copyThenImm_numbering op dest src value hQ

theorem addApart_numbering (dest src1 src2 : Reg) (hQ : ∀ k, n ≤ k → Q ⟨k⟩ (k + 1)) :
    (addApart dest src1 src2).Follows (numbering start) n Q := by
  unfold addApart
  split
  · refine Follows.seq (Follows.seq (copy_numbering dest src1 ?_))
    exact binaryImm_numbering .lsl dest 1 (hQ (n + 1) (by omega))
  · refine Follows.seq ?_
    show Follows _ (if src1 = .gp .ebp then _ else _) n Q
    split
    · exact emit_numbering _ _ (hQ n (by omega))
    · exact emit_numbering _ _ (hQ n (by omega))

/-- The copy back into `dest` comes last. -/
theorem throughScratch_numbering (op : Operation) (dest src1 src2 : Reg)
    (hQ : ∀ k, n ≤ k → Q ⟨k⟩ (k + 1)) :
    (throughScratch op dest src1 src2).Follows (numbering start) n Q := by
  rw [throughScratch_eq_withScratch]
  refine Follows.seq fun scratch => Follows.seq ?_
  refine (asks_require _ _).follows_then (fun _ => trivial) fun _ => ?_
  refine Follows.seq (Follows.seq (copy_numbering scratch src1 ?_))
  refine Follows.seq (binary_numbering op scratch src2 fun k hk => ?_)
  exact copy_numbering dest scratch (hQ (k + 1) (by omega))

theorem intoSecond_numbering (op : Operation) (dest src1 src2 : Reg)
    (hQ : ∀ k, n ≤ k → Q ⟨k⟩ (k + 1)) :
    (intoSecond op dest src1 src2).Follows (numbering start) n Q := by
  unfold intoSecond
  split
  · exact binary_numbering op dest src1 hQ
  · split
    case h_1 =>
      refine Follows.seq (Follows.seq (unary_numbering .neg dest ?_))
      exact binary_numbering .add dest src1 fun k hk => hQ k (by omega)
    case h_7 => trivial
    all_goals exact throughScratch_numbering _ dest src1 src2 hQ

theorem ternary_numbering (op : Operation) (dest src1 src2 : Reg)
    (hQ : ∀ k, n ≤ k → Q ⟨k⟩ (k + 1)) :
    (ternary op dest src1 src2).Follows (numbering start) n Q := by
  unfold ternary
  split
  · exact binary_numbering op dest src2 hQ
  · split
    · exact intoSecond_numbering op dest src1 src2 hQ
    · split
      · exact addApart_numbering dest src1 src2 hQ
      · refine Follows.seq (copy_numbering dest src1 ?_)
        exact binary_numbering op dest src2 fun k hk => hQ k (by omega)

end Synthesis

end TwoAddress
