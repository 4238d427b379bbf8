/-
  TwoAddress.Proofs.SetHistories
  ──────────────────────────────
  **SETS OF REGISTERS, HOWEVER THEY CAME ABOUT.**

  A set of registers is a byte, and is asked for its members, for their number,
  whether it has any, and whether it is the same as another one.  All four are
  answered from the byte.  What the answers should be follows from how the set
  came about: what was listed, inserted, erased, united and cleared.  Operands
  that are no general-purpose registers do not count anywhere on the way.

    • §1 operations on the byte, as operations on finite sets;
    • §2 how a set comes about (`SetHistory`), with the byte and with the finite
      set that come of it, which agree;
    • §3 all answers, after any history (`register_sets_faithful`).
-/
import TwoAddress.Proofs.Lending

namespace TwoAddress

/-! ## §1. Operations. -/

namespace RegSet

theorem toFinset_union (s t : RegSet) : (s.union t).toFinset = s.toFinset ∪ t.toFinset := by
  ext q
  simp

/-- Of a list, neither the order nor the repetitions are kept. -/
theorem toFinset_ofList (regs : List Reg) :
    (ofList regs).toFinset = Finset.univ.filter fun g => Reg.gp g ∈ regs := by
  ext q
  simp [contains_ofList]

/-- **The members are all there is to a set.** -/
theorem toFinset_inj {s t : RegSet} : s.toFinset = t.toFinset ↔ s = t := by
  constructor
  · intro h
    apply ext_contains
    intro g
    rw [Bool.eq_iff_iff, ← mem_toFinset, ← mem_toFinset, h]
  · intro h
    rw [h]

theorem isEmpty_iff {s : RegSet} : s.isEmpty = true ↔ s.toFinset = ∅ := by
  have hmask : s.isEmpty = true ↔ s = empty := by
    obtain ⟨mask⟩ := s
    simp [isEmpty, empty]
  rw [hmask, ← toFinset_empty, toFinset_inj]

/-- Only general-purpose registers are members. -/
theorem contains_iff {s : RegSet} {r : Reg} :
    s.contains r = true ↔ ∃ g ∈ s.toFinset, r = .gp g := by
  cases r with
  | gp g =>
      constructor
      · intro h
        exact ⟨g, mem_toFinset.mpr h, rfl⟩
      · rintro ⟨_, hg, ⟨⟩⟩
        exact mem_toFinset.mp hg
  | absent | xmm => simp [contains]

end RegSet

/-! ## §2. Histories. -/

/-- How a set of registers comes about. -/
inductive SetHistory where
  /-- From a list. -/
  | listed (regs : List Reg)
  | inserted (h : SetHistory) (r : Reg)
  | erased (h : SetHistory) (r : Reg)
  /-- United with a set that has a history of its own. -/
  | united (h other : SetHistory)
  | cleared (h : SetHistory)
  deriving Repr

namespace SetHistory

/-- The set that comes of a history. -/
def build : SetHistory → RegSet
  | listed regs => .ofList regs
  | inserted h r => h.build.insert r
  | erased h r => h.build.erase r
  | united h other => h.build.union other.build
  | cleared _ => .empty

/-- The registers that are members after a history. -/
def members : SetHistory → Finset GpReg
  | listed regs => Finset.univ.filter fun g => Reg.gp g ∈ regs
  | inserted h (.gp g) => insert g h.members
  | erased h (.gp g) => h.members.erase g
  -- What is no general-purpose register is neither inserted nor erased.
  | inserted h _ | erased h _ => h.members
  | united h other => h.members ∪ other.members
  | cleared _ => ∅

/-- **The byte holds the members**, at every step of a history. -/
theorem toFinset_build (h : SetHistory) : h.build.toFinset = h.members := by
  induction h with
  | listed regs => exact RegSet.toFinset_ofList regs
  | inserted h r ih =>
      cases r with
      | gp g =>
          show (h.build.insert (.gp g)).toFinset = insert g h.members
          rw [RegSet.toFinset_insert, ih]
      | absent | xmm => exact ih
  | erased h r ih =>
      cases r with
      | gp g =>
          show (h.build.erase (.gp g)).toFinset = h.members.erase g
          rw [RegSet.toFinset_erase, ih]
      | absent | xmm => exact ih
  | united h other ih ih' =>
      show (h.build.union other.build).toFinset = h.members ∪ other.members
      rw [RegSet.toFinset_union, ih, ih']
  | cleared h ih => exact RegSet.toFinset_empty

end SetHistory

/-! ## §3. Answers. -/

/-- **A BYTE IS AS GOOD AS A SET.**  Let a set of registers come about in any way: from
a list, by insertions, erasures and unions with other sets, and by being cleared,
whatever operands occur.  It contains exactly the general-purpose registers that
are members of the finite set that comes about in the same way; its size is the
number of them, it is empty if there are none, and it equals another one exactly
if both have the same members.  So neither the order of a list nor what is
repeated in it matters, nor any operand of it that is no general-purpose
register. -/
theorem register_sets_faithful (h : SetHistory) :
    (∀ r, h.build.contains r = true ↔ ∃ g ∈ h.members, r = .gp g) ∧
    h.build.size = h.members.card ∧
    (h.build.isEmpty = true ↔ h.members = ∅) ∧
    (∀ h' : SetHistory, h.build = h'.build ↔ h.members = h'.members) ∧
    ∀ regs regs' : List Reg, (∀ g, Reg.gp g ∈ regs ↔ .gp g ∈ regs') →
      RegSet.ofList regs = .ofList regs' := by
  refine ⟨fun r => ?_, ?_, ?_, fun h' => ?_, fun regs regs' hsame => ?_⟩
  · rw [RegSet.contains_iff, h.toFinset_build]
  · rw [RegSet.size_eq_card, h.toFinset_build]
  · rw [RegSet.isEmpty_iff, h.toFinset_build]
  · rw [← RegSet.toFinset_inj, h.toFinset_build, h'.toFinset_build]
  · rw [← RegSet.toFinset_inj, RegSet.toFinset_ofList, RegSet.toFinset_ofList]
    simp only [hsame]

/-- What is listed twice is erased at once, and a list may be turned round. -/
theorem register_sets_faithful_repeated :
    (SetHistory.erased (.united (.listed [.gp .eax, .single 0, .gp .eax]) (.listed [.gp .edi]))
      (.gp .eax)).build.size = 1 ∧
    (∀ g, Reg.gp g ∈ [Reg.gp .eax, .absent, .gp .edi, .gp .eax] ↔
      .gp g ∈ [Reg.gp .edi, .gp .eax]) ∧
    RegSet.ofList [.gp .eax, .absent, .gp .edi, .gp .eax] = .ofList [.gp .edi, .gp .eax] := by
  have hsame : ∀ g, Reg.gp g ∈ [Reg.gp .eax, .absent, .gp .edi, .gp .eax] ↔
      .gp g ∈ [Reg.gp .edi, .gp .eax] := by decide
  refine ⟨?_, hsame, (register_sets_faithful (.listed [])).2.2.2.2 _ _ hsame⟩
  rw [(register_sets_faithful _).2.1]
  decide

end TwoAddress
