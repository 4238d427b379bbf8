/-
  TwoAddress.Proofs.RegisterSets
  ──────────────────────────────
  **REGISTER SETS AND THE POOL, THROUGH MEMBERSHIP.**

  A `RegSet` is a byte.  This file reads every operation on it through the
  one question that matters, which registers are members, and then says what
  a successful borrow and a release do to the pool:

    • §1 `contains_gp` turns membership into one bit of the mask, and the
      operations follow bit by bit;
    • §2 a borrow lends a register that is lendable, not lent and not
      excluded; a release after it always succeeds and undoes it.
-/
import TwoAddress.Scratch

namespace TwoAddress

/-! ## §1. Sets. -/

namespace RegSet

/-- Membership is one bit of the mask. -/
theorem contains_gp (s : RegSet) (r : GpReg) :
    s.contains (.gp r) = s.mask.getLsbD r.encoding := by
  have h : s.mask &&& bit r =
      if s.mask.getLsbD r.encoding then BitVec.twoPow 8 r.encoding else 0#8 := by
    rw [bit, ← BitVec.twoPow_eq, BitVec.and_twoPow]
  simp only [contains, h]
  cases s.mask.getLsbD r.encoding
  · rfl
  · cases r <;> rfl

/-- The mask of one register has that register's bit and no other. -/
theorem getLsbD_bit (q r : GpReg) : (bit r).getLsbD q.encoding = decide (q = r) := by
  cases q <;> cases r <;> rfl

@[simp] theorem contains_empty (r : Reg) : empty.contains r = false := by
  cases r with
  | gp r => rw [contains_gp]; exact BitVec.getLsbD_zero
  | absent | xmm => rfl

@[simp] theorem contains_insert (s : RegSet) (q r : GpReg) :
    (s.insert (.gp r)).contains (.gp q) = (s.contains (.gp q) || decide (q = r)) := by
  rw [contains_gp, contains_gp, insert, BitVec.getLsbD_or, getLsbD_bit]

@[simp] theorem contains_erase (s : RegSet) (q r : GpReg) :
    (s.erase (.gp r)).contains (.gp q) = (s.contains (.gp q) && !decide (q = r)) := by
  rw [contains_gp, contains_gp, erase, BitVec.getLsbD_and, BitVec.getLsbD_not, getLsbD_bit]
  simp

@[simp] theorem contains_union (s t : RegSet) (q : GpReg) :
    (s.union t).contains (.gp q) = (s.contains (.gp q) || t.contains (.gp q)) := by
  rw [contains_gp, contains_gp, contains_gp, union, BitVec.getLsbD_or]

/-- Two sets with the same members are the same set. -/
theorem ext_contains {s t : RegSet} (h : ∀ r, s.contains (.gp r) = t.contains (.gp r)) :
    s = t := by
  obtain ⟨a⟩ := s
  obtain ⟨b⟩ := t
  congr 1
  refine BitVec.eq_of_getLsbD_eq fun n hn => ?_
  have hr := h (.ofEncoding ⟨n, hn⟩)
  rwa [contains_gp, contains_gp, GpReg.encoding_ofEncoding] at hr

/-- Erasing what was just inserted, if it was not there before, changes nothing. -/
theorem erase_insert {s : RegSet} {r : GpReg} (h : s.contains (.gp r) = false) :
    (s.insert (.gp r)).erase (.gp r) = s := by
  apply ext_contains
  intro q
  rw [contains_erase, contains_insert]
  by_cases hq : q = r
  · subst hq
    simp [h]
  · simp [hq]

/-- The set of a list has the list's general-purpose registers as members. -/
theorem contains_ofList (regs : List Reg) (q : GpReg) :
    (ofList regs).contains (.gp q) = decide (Reg.gp q ∈ regs) := by
  have key : ∀ (regs : List Reg) (s : RegSet),
      (regs.foldl insert s).contains (.gp q)
        = (s.contains (.gp q) || decide (Reg.gp q ∈ regs)) := by
    intro regs
    induction regs with
    | nil => intro s; simp
    | cons r regs ih =>
        intro s
        rw [List.foldl_cons, ih]
        cases r with
        | gp r => simp [Bool.or_assoc]
        | absent | xmm => simp [insert]
  rw [ofList, key, contains_empty, Bool.false_or]

end RegSet

/-! ## §2. The pool. -/

namespace ScratchPool

/-- **What a borrow does.**  It lends the first eligible register in cyclic
order from the clock. -/
theorem borrow_eq_ok {p p' : ScratchPool} {exclude : RegSet} {r : GpReg} :
    p.borrow exclude = .ok (r, p') ↔
      (cycleFrom p.clock).find? (p.eligible exclude) = some r ∧
        p' = { p with
          lent := p.lent.insert (.gp r)
          clock := (r.encoding.val + 1) % 8
          borrows := p.borrows + 1 } := by
  unfold borrow
  cases (cycleFrom p.clock).find? (p.eligible exclude) with
  | none => simp
  | some q =>
      simp only [Except.ok.injEq, Prod.mk.injEq, Option.some.injEq]
      constructor
      · rintro ⟨rfl, rfl⟩; exact ⟨rfl, rfl⟩
      · rintro ⟨rfl, rfl⟩; exact ⟨rfl, rfl⟩

theorem eligible_iff {p : ScratchPool} {exclude : RegSet} {r : GpReg} :
    p.eligible exclude r = true ↔
      p.lendable.contains (.gp r) = true ∧ p.lent.contains (.gp r) = false ∧
        exclude.contains (.gp r) = false := by
  simp [eligible, and_assoc]

/-- A register that may be lent to a borrower is none of those it excludes. -/
theorem not_mem_of_eligible {p : ScratchPool} {exclude : List Reg} {r : GpReg}
    (h : p.eligible (.ofList exclude) r = true) : .gp r ∉ exclude := by
  have hout := (eligible_iff.mp h).2.2
  rw [RegSet.contains_ofList] at hout
  simpa using hout

/-- A register that was lent was lendable, not lent, and not excluded. -/
theorem eligible_of_borrow {p p' : ScratchPool} {exclude : RegSet} {r : GpReg}
    (h : p.borrow exclude = .ok (r, p')) : p.eligible exclude r = true :=
  List.find?_some (borrow_eq_ok.mp h).1

/-- A lent register of the pool is always taken back. -/
theorem release_eq_ok {p : ScratchPool} {r : Reg} (hin : p.lendable.contains r = true)
    (hlent : p.lent.contains r = true) :
    p.release r = .ok { p with lent := p.lent.erase r } := by
  simp [release, hin, hlent]

/-- What a release does, if it succeeds. -/
theorem eq_of_release {p p' : ScratchPool} {r : Reg} (h : p.release r = .ok p') :
    p' = { p with lent := p.lent.erase r } := by
  unfold release at h
  split at h
  · exact absurd h (by simp)
  · split at h
    · exact absurd h (by simp)
    · injection h with h
      exact h.symm

end ScratchPool

end TwoAddress
