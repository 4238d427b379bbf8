/-
  TwoAddress.Proofs.Rotation
  ──────────────────────────
  **EVERY REGISTER HAS ITS TURN.**

  A register that is given back at once could be lent again at once.  The clock
  is there to prevent that.  It counts modulo eight and passes over registers
  that the pool does not have, so that what goes round is the pool itself,
  with a period of its own:

    • §1 `turns`, the registers of a pool in the order in which they come up.
      Lending the first of them puts it at the end of the order;
    • §2 borrowing and giving back, any number of times.  The order rotates by
      one place each time, and nothing else changes;
    • §3 the clock from one borrow to the next, whatever is given back or
      refused in between;
    • §4 pools after any history (`borrows_rotate`).
-/
import Mathlib.Data.List.Rotate
import TwoAddress.Proofs.Lending

namespace TwoAddress

/-! ## §1. Turns. -/

theorem RegSet.length_members (s : RegSet) : s.members.length = s.size := by
  rw [size_eq_card]
  show _ = (GpReg.all.filter fun r => decide (s.contains (.gp r) = true)).length
  simp [members]

namespace ScratchPool

/-- The registers of the pool in cyclic order from the clock: as long as nothing
is lent, the order in which they come up. -/
def turns (p : ScratchPool) : List GpReg :=
  (cycleFrom p.clock).filter fun r => p.lendable.contains (.gp r)

/-- A cycle is the list of all registers, turned round. -/
theorem cycleFrom_eq_rotate (start : Nat) : cycleFrom start = GpReg.all.rotate start := by
  have hall : ∀ n : Fin 8, GpReg.all[n.val]? = some (.ofEncoding n) := by decide
  apply List.ext_getElem?
  intro i
  by_cases hi : i < 8
  · rw [List.getElem?_rotate (show i < GpReg.all.length from hi)]
    show _ = GpReg.all[(i + start) % 8]?
    rw [hall ⟨(i + start) % 8, Nat.mod_lt _ (by decide)⟩, cycleFrom, List.getElem?_map,
      List.getElem?_range hi, Nat.add_comm i start]
    rfl
  · have hcycle : (cycleFrom start).length ≤ i := by
      simp only [cycleFrom, List.length_map, List.length_range]
      omega
    have hrotate : (GpReg.all.rotate start).length ≤ i := by
      rw [List.length_rotate]
      show 8 ≤ i
      omega
    rw [List.getElem?_eq_none hcycle, List.getElem?_eq_none hrotate]

/-- The cycle that starts just after one of its registers. -/
theorem cycleFrom_past {start : Nat} {before after : List GpReg} {r : GpReg}
    (h : cycleFrom start = before ++ r :: after) :
    cycleFrom ((r.encoding.val + 1) % 8) = after ++ (before ++ [r]) := by
  have hplace : r.encoding.val = (start + before.length) % 8 := by
    have hlength : before.length < 8 := by
      have htotal := congrArg List.length h
      simp [cycleFrom] at htotal
      omega
    have hr : (cycleFrom start)[before.length]? = some r := by
      rw [h, List.getElem?_append_right (Nat.le_refl _), Nat.sub_self]
      rfl
    rw [cycleFrom, List.getElem?_map, List.getElem?_range hlength, Option.map_some] at hr
    rw [← Option.some.inj hr, GpReg.encoding_ofEncoding]
  -- Turning round by one place more than come before the register.
  have hsteps : (r.encoding.val + 1) % 8 = (start + (before ++ [r]).length) % GpReg.all.length := by
    show _ = (start + (before ++ [r]).length) % 8
    rw [hplace, List.length_append, List.length_singleton]
    omega
  rw [hsteps, cycleFrom_eq_rotate, List.rotate_mod, ← List.rotate_rotate, ← cycleFrom_eq_rotate, h,
    List.append_cons, List.rotate_append_length_eq]

/-- The pool after a register was lent and given back. -/
def ticked (p : ScratchPool) (r : GpReg) : ScratchPool :=
  { p with clock := (r.encoding.val + 1) % 8, borrows := p.borrows + 1 }

/-- **Lending the register whose turn it is** puts it at the end of the order. -/
theorem turns_ticked {p : ScratchPool} {r : GpReg} {rest : List GpReg} (h : p.turns = r :: rest) :
    (p.ticked r).turns = rest ++ [r] := by
  obtain ⟨before, after, hcycle, hbefore, hr, rfl⟩ := List.filter_eq_cons_iff.mp h
  -- No register of the pool comes before its first one.
  have hnone : before.filter (fun q => p.lendable.contains (.gp q)) = [] :=
    List.filter_eq_nil_iff.mpr hbefore
  have hlast : [r].filter (fun q => p.lendable.contains (.gp q)) = [r] :=
    List.filter_cons_of_pos hr
  show (cycleFrom ((r.encoding.val + 1) % 8)).filter (fun q => p.lendable.contains (.gp q)) = _
  rw [cycleFrom_past hcycle, List.filter_append, List.filter_append, hnone, hlast]
  rfl

theorem perm_turns (p : ScratchPool) : p.turns.Perm p.lendable.members := by
  rw [turns, cycleFrom_eq_rotate]
  exact (List.rotate_perm GpReg.all p.clock).filter _

theorem length_turns (p : ScratchPool) : p.turns.length = p.lendable.size := by
  rw [p.perm_turns.length_eq, RegSet.length_members]

theorem nodup_turns (p : ScratchPool) : p.turns.Nodup := by
  rw [p.perm_turns.nodup_iff]
  exact List.Nodup.filter _ (by decide)

/-! ## §2. Cycles. -/

/-- Borrow a register, and give it back. -/
def cycle (p : ScratchPool) : Except ScratchError (GpReg × ScratchPool) := do
  let (r, p₁) ← p.borrow .empty
  let p₂ ← p₁.release (.gp r)
  return (r, p₂)

/-- The registers lent by a number of cycles, and the pool they leave. -/
def cycles (p : ScratchPool) : Nat → Except ScratchError (List GpReg × ScratchPool)
  | 0 => .ok ([], p)
  | k + 1 => do
      let (r, p₁) ← p.cycle
      let (rs, p₂) ← p₁.cycles k
      return (r :: rs, p₂)

/-- **One cycle** lends the register whose turn it is, and moves the clock. -/
theorem cycle_of_turns {p : ScratchPool} (hlent : p.lent = .empty) {r : GpReg} {rest : List GpReg}
    (h : p.turns = r :: rest) : p.cycle = .ok (r, p.ticked r) := by
  have heligible : p.eligible .empty = fun q => p.lendable.contains (.gp q) := by
    funext q
    simp [eligible, hlent]
  have hfirst : (cycleFrom p.clock).find? (p.eligible .empty) = some r := by
    rw [heligible, ← List.head?_filter]
    show p.turns.head? = some r
    rw [h]
    rfl
  have hborrow := borrow_eq_ok.mpr ⟨hfirst, rfl⟩
  have hin : p.lendable.contains (.gp r) = true := by
    rw [← congrFun heligible r]
    exact eligible_of_borrow hborrow
  -- What was just lent is taken back, and then nothing is lent again.
  have hback : (p.lent.insert (.gp r)).erase (.gp r) = p.lent :=
    RegSet.erase_insert (by simp [hlent])
  have hrelease := release_eq_ok (p := { p.ticked r with lent := p.lent.insert (.gp r) }) hin
    (by simp)
  rw [hback] at hrelease
  unfold cycle
  rw [hborrow]
  show (release { p.ticked r with lent := p.lent.insert (.gp r) } (.gp r) >>= fun p₂ => _) = _
  rw [hrelease]
  rfl

/-- **Any number of cycles**, by induction: each lends the register that is first
in an order turned round once more. -/
theorem cycles_rotate {p : ScratchPool} (hlent : p.lent = .empty) (hturns : p.turns ≠ [])
    (k : Nat) : ∃ rs p', p.cycles k = .ok (rs, p') ∧ rs.length = k ∧
      ∀ i < k, rs[i]? = (p.turns.rotate i).head? := by
  induction k generalizing p with
  | zero => exact ⟨[], p, rfl, rfl, fun i hi => absurd hi (Nat.not_lt_zero i)⟩
  | succ k ih =>
      obtain ⟨r, rest, h⟩ := List.exists_cons_of_ne_nil hturns
      have hnext := turns_ticked h
      obtain ⟨rs, p', hrun, hlength, hrs⟩ := ih (p := p.ticked r) hlent (by simp [hnext])
      refine ⟨r :: rs, p', ?_, congrArg (· + 1) hlength, ?_⟩
      · rw [cycles, cycle_of_turns hlent h]
        show ((p.ticked r).cycles k >>= fun found => _) = _
        rw [hrun]
        rfl
      · intro i hi
        cases i with
        | zero => simp [h]
        | succ i =>
            rw [List.getElem?_cons_succ, hrs i (by omega), hnext, h, List.rotate_cons_succ]

/-- Registers that go round a pool: the same one comes back after as many places
as the pool has registers, and in so many places each of them comes once. -/
structure GoesRound (pool : RegSet) (rs : List GpReg) : Prop where
  same_iff : ∀ i j, i < rs.length → j < rs.length →
    (rs[i]? = rs[j]? ↔ i % pool.size = j % pool.size)
  once : ∀ i, i + pool.size ≤ rs.length → ((rs.drop i).take pool.size).Perm pool.members

/-- What the cycles lend is read off the order at the start. -/
theorem goesRound_of_rotate {p : ScratchPool} (hturns : p.turns ≠ []) {rs : List GpReg}
    (hrs : ∀ i < rs.length, rs[i]? = (p.turns.rotate i).head?) : GoesRound p.lendable rs where
  same_iff i j hi hj := by
    have hpos : 0 < p.turns.length := List.length_pos_of_ne_nil hturns
    have hplace : ∀ n < rs.length, rs[n]? = p.turns[n % p.turns.length]? := by
      intro n hn
      rw [hrs n hn, ← List.rotate_mod, List.head?_rotate (Nat.mod_lt n hpos)]
    rw [hplace i hi, hplace j hj, ← p.length_turns]
    exact List.getElem?_inj (Nat.mod_lt i hpos) p.nodup_turns
  once i hi := by
    rw [← p.length_turns] at hi ⊢
    have hwindow : (rs.drop i).take p.turns.length = p.turns.rotate i := by
      apply List.ext_getElem?
      intro j
      by_cases hj : j < p.turns.length
      · rw [List.getElem?_take_of_lt hj, List.getElem?_drop, hrs (i + j) (by omega),
          ← List.rotate_rotate, List.head?_rotate (by rw [List.length_rotate]; exact hj)]
      · rw [List.getElem?_eq_none (by simp; omega), List.getElem?_eq_none (by simp; omega)]
    rw [hwindow]
    exact (List.rotate_perm p.turns i).trans p.perm_turns

/-! ## §3. From one borrow to the next. -/

/-- Only a borrow that succeeds and a reset move the clock. -/
theorem clock_answer {p : ScratchPool} {c : Call} (hreset : c ≠ .reset)
    (hno : (p.answer c).1.isLent = false) : (p.answer c).2.clock = p.clock := by
  rcases answer_cases p c with
    ⟨exclude, r, -, -, hrun⟩ | ⟨r, -, -, hrun⟩ | ⟨e, hrun⟩ | ⟨hc, -⟩
  · rw [hrun] at hno
    exact absurd hno (by simp [Event.isLent])
  · rw [hrun]
  · rw [hrun]
  · exact absurd hc hreset

theorem clock_afterCalls {p : ScratchPool} {calls : List Call} (hreset : .reset ∉ calls)
    (hno : ∀ e ∈ p.events calls, e.isLent = false) : (p.afterCalls calls).clock = p.clock := by
  induction calls generalizing p with
  | nil => rfl
  | cons c calls ih =>
      rw [List.mem_cons, not_or] at hreset
      rw [events, List.forall_mem_cons] at hno
      show ((p.answer c).2.afterCalls calls).clock = p.clock
      rw [ih hreset.2 hno.2, clock_answer (Ne.symm hreset.1) hno.1]

/-- Registers as many steps away are the same. -/
theorem eq_of_stepsFrom {start : Nat} (hstart : start < 8) {q r : GpReg}
    (h : q.stepsFrom start = r.stepsFrom start) : q = r := by
  have hq := ofEncoding_stepsFrom hstart q
  simp only [h] at hq
  exact hq.symm.trans (ofEncoding_stepsFrom hstart r)

/-- **From just past a register**, it is the last to come up: it is lent only if
no other one is free. -/
theorem free_of_borrow_past {p p' : ScratchPool} {exclude : RegSet} {r : GpReg}
    (hclock : p.clock = (r.encoding.val + 1) % 8) (h : p.borrow exclude = .ok (r, p')) :
    p.free exclude = {r} := by
  have hstart : p.clock < 8 := by
    rw [hclock]
    exact Nat.mod_lt _ (by decide)
  obtain ⟨⟨hfree, hfirst⟩, -⟩ := (borrow_eq_ok_iff hstart).mp h
  have hlast : r.stepsFrom p.clock = 7 := by
    have := r.encoding.isLt
    unfold GpReg.stepsFrom
    omega
  apply Finset.eq_singleton_iff_unique_mem.mpr
  refine ⟨hfree, ?_⟩
  intro q hq
  have hle := hfirst q hq
  have hlt : q.stepsFrom p.clock < 8 := Nat.mod_lt _ (by decide)
  exact eq_of_stepsFrom hstart (by omega)

/-! ## §4. Rotation. -/

/-- **BORROWS ROTATE.**  Take a pool after any history of borrows, releases and
resets.  If it has registers and none of them is lent, any number of cycles of
borrowing and giving back succeed, and the registers lent go round the pool.
And whatever is lent now, the next register to be lent, after any releases and
refusals but no reset, and whatever is excluded from it, is another one
unless no other one is free. -/
theorem borrows_rotate (pool : RegSet) (calls : List Call) :
    (((new pool).afterCalls calls).lent = .empty → 1 ≤ pool.size →
      ∀ k, ∃ rs p', ((new pool).afterCalls calls).cycles k = .ok (rs, p') ∧ rs.length = k ∧
        GoesRound pool rs) ∧
    ∀ exclude r p', ((new pool).afterCalls calls).borrow exclude = .ok (r, p') →
      ∀ between, .reset ∉ between → (∀ e ∈ p'.events between, e.isLent = false) →
        ∀ exclude' p'', (p'.afterCalls between).borrow exclude' = .ok (r, p'') →
          (p'.afterCalls between).free exclude' = {r} := by
  constructor
  · intro hlent hsize k
    have hlendable : ((new pool).afterCalls calls).lendable = pool :=
      ((poolHistory_new pool).run calls).lendable
    have hturns : ((new pool).afterCalls calls).turns ≠ [] := by
      apply List.ne_nil_of_length_pos
      rw [length_turns, hlendable]
      exact hsize
    obtain ⟨rs, p', hrun, hlength, hrs⟩ := cycles_rotate hlent hturns k
    have hround : GoesRound ((new pool).afterCalls calls).lendable rs := by
      apply goesRound_of_rotate hturns
      rw [hlength]
      exact hrs
    rw [hlendable] at hround
    exact ⟨rs, p', hrun, hlength, hround⟩
  · intro exclude r p' hborrow between hreset hno exclude' p'' hagain
    refine free_of_borrow_past ?_ hagain
    rw [clock_afterCalls hreset hno, (borrow_eq_ok.mp hborrow).2]

/-- Three registers that are not neighbours. -/
def gapped : RegSet := .ofList [.gp .eax, .gp .edx, .gp .esi]

/-- They go round from a clock that stands between them.  The same one is lent twice
in a row where the others are excluded. -/
theorem borrows_rotate_gapped :
    ((new gapped).afterCalls [.borrow .empty, .release (.gp .eax)]).lent = .empty ∧
    1 ≤ gapped.size ∧
    (∃ p', ((new gapped).afterCalls [.borrow .empty, .release (.gp .eax)]).cycles 5 =
        .ok ([.edx, .esi, .eax, .edx, .esi], p') ∧
      GoesRound gapped [.edx, .esi, .eax, .edx, .esi]) ∧
    ∃ p' p'', (new gapped).borrow .empty = .ok (.eax, p') ∧
      (p'.afterCalls [.release (.gp .eax)]).borrow (.ofList [.gp .edx, .gp .esi]) =
        .ok (.eax, p'') ∧
      (p'.afterCalls [.release (.gp .eax)]).free (.ofList [.gp .edx, .gp .esi]) = {.eax} := by
  refine ⟨by decide, by decide, ?_, _, _, rfl, rfl, ?_⟩
  · obtain ⟨rs, p', hrun, -, hround⟩ :=
      (borrows_rotate gapped [.borrow .empty, .release (.gp .eax)]).1 (by decide) (by decide) 5
    cases hrun
    exact ⟨_, rfl, hround⟩
  · exact (borrows_rotate gapped []).2 .empty .eax _ rfl [.release (.gp .eax)] (by decide)
      (by decide) _ _ rfl

end ScratchPool

end TwoAddress
