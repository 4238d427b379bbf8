/-
  TwoAddress.Proofs.Appended
  ──────────────────────────
  **FROM WHAT IS ASKED TO WHAT IS THERE.**

  A session appends what it is asked to append and changes nothing about it
  but the target of a branch.  So a property that every instruction of a
  request has, and that a target does not affect, is a property of the
  records that the request leaves, also when it stops half way.

    • §1 requests whose instructions have a property, as a protocol;
    • §2 sessions: the record at a position keeps or acquires the property;
    • §3 whole runs, and the records that one request of a run appended.
-/
import TwoAddress.Proofs.Stream
import TwoAddress.Proofs.Transfers

namespace TwoAddress

/-! ## §1. Instructions with a property. -/

variable {P : Instruction → Prop}

/-- The instruction asked for, if the request is for one, has the property. -/
def Demand.appends (P : Instruction → Prop) : Demand → Prop
  | append i => P i
  | _ => True

/-- Only instructions with the property are appended. -/
def appending (P : Instruction → Prop) : Protocol Unit where
  append i _ K := P i ∧ ∀ id, K id ()

/-- Pointing a branch at a target leaves the property alone. -/
def Retargetable (P : Instruction → Prop) : Prop :=
  ∀ (i : Instruction) (target : Option RecordId),
    i.opcode.isBranch = true → P i → P { i with target }

theorem Synthesis.Asks.follows_appending {α : Type} {x : Synthesis α}
    (h : x.Asks (Demand.appends P)) : x.Follows (appending P) () fun _ _ => True := by
  refine h.follows (fun d hd => ?_) (fun _ => trivial) fun _ => trivial
  cases d with
  | append i => exact fun K hK => ⟨hd, hK⟩
  | _ => exact fun K hK => hK

/-- Requests that move data append arithmetic on memory, or the moves of an
admitted transfer. -/
theorem Request.asks_data {q : Request} (hdata : q.movesData = true)
    (hmemory : ∀ op opcode dest base disp, q = .binaryMem op dest base disp →
      Synthesis.memoryOpcode? op = some opcode →
      P { opcode, operands := [.reg dest, .reg base, .imm disp] })
    (hmove : ∀ t, q = .transfer t → t.Admitted → ∀ part ∈ t.parts,
      P (Synthesis.transferMove t.direction t.size part.1 part.2)) :
    q.synthesis.Asks (Demand.appends P) := by
  cases q with
  | binaryMem op dest base disp =>
      refine Synthesis.Asks.bind ?_ fun _ => trivial
      unfold Synthesis.binaryMem
      split
      next opcode hop => exact Synthesis.asks_emit (hmemory op opcode dest base disp rfl hop)
      next => trivial
  | transfer t =>
      refine Synthesis.Asks.bind ?_ fun _ => trivial
      refine Synthesis.asks_transfer_parts (hmove t rfl) fun d hd => ?_
      cases d with
      | append i => exact absurd rfl (hd i)
      | _ => trivial
  | _ => exact absurd hdata (by simp [movesData])

/-- **Every instruction is of one of three kinds**: it works in registers, it is
arithmetic on memory, or it is a move of an admitted transfer. -/
theorem Request.asks_appends (q : Request)
    (hregisters : ∀ i, WorksInRegisters (fun a => q.address? = some a) i → P i)
    (hmemory : ∀ op opcode dest base disp, Synthesis.memoryOpcode? op = some opcode →
      P { opcode, operands := [.reg dest, .reg base, .imm disp] })
    (hmove : ∀ t : Transfer, t.Admitted → ∀ part ∈ t.parts,
      P (Synthesis.transferMove t.direction t.size part.1 part.2)) :
    q.synthesis.Asks (Demand.appends P) := by
  cases hdata : q.movesData with
  | false =>
      refine (asks_registerWork hdata fun _ h => h).mono fun d hd => ?_
      cases d with
      | append i => exact hregisters i hd
      | _ => trivial
  | true =>
      exact asks_data hdata (fun op opcode dest base disp _ => hmemory op opcode dest base disp)
        fun t _ => hmove t

/-! ## §2. Sessions. -/

namespace Session

variable {s : Session} {n : Nat}

/-- The record at position `n`, if there is one, has the property. -/
def HoldsAt (P : Instruction → Prop) (n : Nat) (s : Session) : Prop :=
  ∀ r, s.records[n]? = some r → P r.toInstruction

/-- Nothing stands behind the end of the stream. -/
theorem holdsAt_of_length_le (h : s.records.length ≤ n) : s.HoldsAt P n := by
  intro r hr
  have hlt := (List.getElem?_eq_some_iff.mp hr).1
  omega

theorem HoldsAt.push (h : s.HoldsAt P n) {i : Instruction} (hi : P i) :
    (s.push (s.stamp i)).HoldsAt P n := by
  intro r hr
  replace hr : (s.records ++ [s.stamp i])[n]? = some r := hr
  rcases Nat.lt_or_ge n s.records.length with hlt | hge
  · rw [List.getElem?_append_left hlt] at hr
    exact h r hr
  · rw [List.getElem?_append_right hge] at hr
    obtain rfl : r = s.stamp i := by simpa using List.mem_of_getElem? hr
    exact hi

theorem HoldsAt.retarget (hP : Retargetable P) (h : s.HoldsAt P n) {m : Nat} {r : Record}
    (hr : s.records[m]? = some r) (hbranch : r.opcode.isBranch = true)
    (target : Option RecordId) :
    HoldsAt P n { s with records := s.records.set m { r with target } } := by
  intro r' hr'
  replace hr' : (s.records.set m { r with target })[n]? = some r' := hr'
  rw [List.getElem?_set] at hr'
  by_cases hm : m = n
  · subst hm
    rw [if_pos rfl] at hr'
    split at hr'
    · obtain rfl := Option.some.inj hr'
      exact hP r.toInstruction target hbranch (h r hr)
    · exact nomatch hr'
  · rw [if_neg hm] at hr'
    exact h r' hr'

/-- **A session holds what it was asked to append.** -/
theorem appending_keeps (hP : Retargetable P) (n : Nat) :
    (appending P).Keeps unit (fun _ => HoldsAt P n) (HoldsAt P n) where
  append {i t s K} h hK := ⟨(), h.push hK.1, hK.2 ⟨s.records.length⟩⟩
  retarget {id target t s K} h hK := by
    simp only [unit, on_retarget]
    split
    · exact h
    next r hr =>
      split
      next hbranch => exact ⟨(), h.retarget hP hr hbranch target, hK⟩
      next => exact h
  borrow {exclude t s K} h hK := by
    simp only [unit, on_borrow]
    split
    · exact ⟨(), h, hK _⟩
    · exact h
  release {r t s K} h hK := by
    simp only [unit, on_release]
    split
    · exact ⟨(), h, hK⟩
    · exact h
  annotate {id access t s K} h hK := ⟨(), h, hK⟩
  note {m t s K} h hK := ⟨(), h, hK⟩
  stop h _ := h

theorem HoldsAt.meet (hP : Retargetable P) {q : Request}
    (hq : q.synthesis.Asks (Demand.appends P)) (h : s.HoldsAt P n) :
    (s.meet q).2.HoldsAt P n :=
  meet_keeps (appending_keeps hP n) h hq.follows_appending

/-! ## §3. Runs. -/

/-- What every request respects, a run respects. -/
theorem HoldsAt.afterRequests (hP : Retargetable P)
    (hq : ∀ q : Request, q.synthesis.Asks (Demand.appends P)) (h : s.HoldsAt P n)
    (qs : List Request) : (s.afterRequests qs).HoldsAt P n := by
  induction qs generalizing s with
  | nil => exact h
  | cons q qs ih =>
      rw [afterRequests_cons]
      exact ih (h.meet hP (hq q))

/-- A record of a run is as the request that appended it made it, so a property
that no target affects is settled there. -/
theorem AppendedBy.holdsAt {qs : List Request} {q : Request} (h : s.AppendedBy qs n q)
    (hP : ∀ (i : Instruction) (target : Option RecordId), P i → P { i with target })
    (hq : q.synthesis.Asks (Demand.appends P)) : (s.afterRequests qs).HoldsAt P n := by
  obtain ⟨before, rest, rfl, hle, hlt⟩ := h
  rw [afterRequests_snoc] at hlt
  have hthen : ((s.afterRequests before).meet q).2.HoldsAt P n :=
    (holdsAt_of_length_le hle).meet (fun i target _ => hP i target) hq
  intro r hr
  rw [afterRequests_append, afterRequests_cons] at hr
  obtain ⟨r', hr', hsame⟩ :=
    (grows_afterRequests _ rest).getElem? (List.getElem?_eq_getElem hlt)
  obtain rfl : r' = r := Option.some.inj (hr'.symm.trans hr)
  -- Both records are one and the same without their targets.
  have hthen : P (Record.untargeted _).toInstruction :=
    hP _ none (hthen _ (List.getElem?_eq_getElem hlt))
  rw [← hsame] at hthen
  exact hP r'.untargeted.toInstruction r'.target hthen

end Session

end TwoAddress
