/-
  TwoAddress.Proofs.Granted
  ─────────────────────────
  **REQUESTS THAT ARE ALWAYS MET.**

  A session refuses little: a target for what is no branch, a scratch register
  when none is left, one given back that was not lent.  A dialogue that asks
  for nothing of the kind and does not stop of its own accord comes to its end
  on every session, whatever was lent or appended before.

    • §1 the `granted` protocol, and requests that keep to it
      (`Session.returns_of_granted`);
    • §2 copies, constants and operations with a register, an immediate or a word
      in memory, in general-purpose registers.
-/
import TwoAddress.Proofs.Runs

namespace TwoAddress

/-! ## §1. Nothing to refuse. -/

/-- Only what a session never refuses is asked for, and the dialogue does not
stop. -/
def granted : Protocol Unit where
  retarget _ _ _ _ := False
  borrow _ _ _ := False
  release _ _ _ := False
  stop _ _ := False

namespace Session

/-- No session is left with a fault, and the pool is not touched. -/
theorem granted_keeps (pool : ScratchPool) :
    granted.Keeps unit (fun _ s => s.pool = pool) fun _ => False where
  append {_ t s _} hpool hK := ⟨t, hpool, hK ⟨s.records.length⟩⟩
  retarget _ hK := hK.elim
  borrow _ hK := hK.elim
  release _ hK := hK.elim
  annotate {_ _ t _ _} hpool hK := ⟨t, hpool, hK⟩
  note {_ t _ _} hpool hK := ⟨t, hpool, hK⟩
  stop _ h := h

/-- **A dialogue that asks for nothing that is refused comes to its end.** -/
theorem exists_of_granted {α : Type} {x : Synthesis α} (h : x.Follows granted () fun _ _ => True)
    (s : Session) : ∃ a t, (x.runIn unit).on s = (.ok a, t) ∧ t.pool = s.pool := by
  have hmet := h.met (granted_keeps s.pool) (s := s) rfl
  rcases hrun : (x.runIn unit).on s with ⟨_ | a, t⟩ <;> rw [hrun] at hmet
  · exact hmet.elim
  · obtain ⟨-, hpool, -⟩ := hmet
    exact ⟨a, t, rfl, hpool⟩

/-- **Requests that ask for nothing that is refused all return.** -/
theorem returns_of_granted {qs : List Request}
    (h : ∀ q ∈ qs, q.synthesis.Follows granted () fun _ _ => True) (s : Session) :
    s.Returns qs := by
  induction qs generalizing s with
  | nil =>
      intro o ho
      exact absurd ho List.not_mem_nil
  | cons q qs ih =>
      obtain ⟨reply, t, hrun, -⟩ := exists_of_granted (h q List.mem_cons_self) s
      refine returns_cons.mpr ⟨⟨reply, ?_⟩, ih (fun q' hq' => h q' (List.mem_cons_of_mem q hq')) _⟩
      show ((q.synthesis.runIn unit).on s).1 = .ok reply
      rw [hrun]

/-- A single one. -/
theorem returns_single_of_granted {q : Request}
    (h : q.synthesis.Follows granted () fun _ _ => True) (s : Session) : s.Returns [q] := by
  refine returns_of_granted ?_ s
  intro q' hq'
  rw [List.mem_singleton.mp hq']
  exact h

end Session

/-! ## §2. General-purpose registers. -/

/-- A shift or a rotation. -/
def Operation.isShift : Operation → Bool
  | .lsl | .lsr | .asr | .ror => true
  | _ => false

/-- There is a form for a register.  The distance of a shift has to be in the
counter. -/
def Operation.TakesRegister (op : Operation) (src : GpReg) : Prop :=
  op ≠ .indirectCall ∧ (op.isShift = true → src = .ecx)

/-- There is a form for an immediate, of either width. -/
def Operation.TakesImmediate (op : Operation) : Prop :=
  op = .mov ∨ op = .mul ∨ ∀ short, (Synthesis.immediateOpcode? op short).isSome = true

/-- There is a form for an operand in memory. -/
def Operation.takesMemory : Operation → Bool
  | .sub | .mov | .cmp | .add | .and | .or | .xor => true
  | .widenByte | .widenShort | .widenChar => true
  | _ => false

namespace Synthesis

variable {Q : RecordId → Unit → Prop}

theorem copy_granted (dest src : GpReg) (hQ : ∀ id, Q id ()) :
    (copy (.gp dest) (.gp src)).Follows granted () Q := hQ

theorem constant_granted (dest : GpReg) (value : Word) (hQ : ∀ id, Q id ()) :
    (constant (.gp dest) value).Follows granted () Q := by
  show (gpConstant (.gp dest) value).Follows granted () Q
  unfold gpConstant
  split
  · exact hQ
  · exact hQ

theorem constantPair_granted (lo hi : GpReg) (low high : Word) (hQ : ∀ id, Q id ()) :
    (constantPair (.gp lo) (.gp hi) low high).Follows granted () Q := by
  show Follows granted (constant (.gp lo) low >>= fun id => constant (.gp hi) high >>= fun _ =>
    done id) () Q
  refine Follows.seq (constant_granted lo low fun id => ?_)
  exact Follows.seq (constant_granted hi high fun _ => hQ id)

theorem widenByte_granted (dest src : GpReg) (hQ : ∀ id, Q id ()) :
    (widenByte (.gp dest) (.gp src)).Follows granted () Q := by
  unfold widenByte
  split
  · exact hQ
  · intro _ _ id
    exact hQ id

theorem binary_granted {op : Operation} {src : GpReg} (hop : op.TakesRegister src) (dest : GpReg)
    (hQ : ∀ id, Q id ()) : (binary op (.gp dest) (.gp src)).Follows granted () Q := by
  cases op with
  | indirectCall => exact absurd rfl hop.1
  | lsl | lsr | asr | ror =>
      obtain rfl : src = .ecx := hop.2 rfl
      exact hQ
  | neg | not => exact Follows.seq (copy_granted dest src fun _ => hQ)
  | widenByte => exact widenByte_granted dest src hQ
  | _ => exact hQ

theorem binaryImm_granted {op : Operation} (hop : op.TakesImmediate) (dest : GpReg) (value : Word)
    (hQ : ∀ id, Q id ()) : (binaryImm op (.gp dest) value).Follows granted () Q := by
  unfold binaryImm
  refine Follows.seq ?_
  rcases hop with rfl | rfl | hform
  · exact constant_granted dest value hQ
  · exact hQ
  · split
    · exact constant_granted dest value hQ
    · exact hQ
    · split
      -- Whichever width the value has, there is a form for it.
      next => exact hQ
      next hnone => exact absurd (hform value.fitsByte) (by simp [hnone])

theorem binaryMem_granted {op : Operation} (hop : op.takesMemory = true) (dest base : Reg)
    (disp : Word) (hQ : ∀ id, Q id ()) : (binaryMem op dest base disp).Follows granted () Q := by
  have hform : (memoryOpcode? op).isSome = true := by
    cases op with
    | sub | mov | cmp | add | and | or | xor | widenByte | widenShort | widenChar => rfl
    | _ => exact absurd hop Bool.false_ne_true
  unfold binaryMem
  split
  next => exact hQ
  next hnone => exact absurd hform (by simp [hnone])

theorem addApart_granted (dest src1 src2 : GpReg) (hQ : ∀ id, Q id ()) :
    (addApart (.gp dest) (.gp src1) (.gp src2)).Follows granted () Q := by
  unfold addApart
  split
  · refine Follows.seq (Follows.seq (copy_granted dest src1 fun _ => ?_))
    exact binaryImm_granted (.inr (.inr fun _ => rfl)) dest 1 hQ
  · refine Follows.seq ?_
    split
    · exact hQ
    · exact hQ

theorem copyThenImm_granted {op : Operation} (hop : op.TakesImmediate) (dest src : GpReg)
    (value : Word) (hQ : ∀ id, Q id ()) :
    (copyThenImm op (.gp dest) (.gp src) value).Follows granted () Q := by
  unfold copyThenImm
  split
  · exact binaryImm_granted hop dest value hQ
  · exact Follows.seq (copy_granted dest src fun _ => binaryImm_granted hop dest value hQ)

theorem ternaryImm_granted {op : Operation} (hop : op.TakesImmediate) (dest src : GpReg)
    (value : Word) (hQ : ∀ id, Q id ()) :
    (ternaryImm op (.gp dest) (.gp src) value).Follows granted () Q := by
  unfold ternaryImm
  split
  · exact hQ
  · split
    · exact hQ
    · split
      · exact hQ
      · exact copyThenImm_granted hop dest src value hQ
  · split
    · exact binaryImm_granted hop dest value hQ
    · exact hQ
  · exact copyThenImm_granted hop dest src value hQ

end Synthesis

end TwoAddress
