/-
  TwoAddress.Proofs.Lending
  ─────────────────────────
  **A POOL THAT LENDS IN TURN.**

  The scratch pool is a pair of masks, a number and a counter.  What it is
  meant to be is a set of registers with a cursor that goes round: the register
  lent is the first free one from the cursor on, and the cursor moves just past
  it.  This file says so of the pool after every history, however borrows,
  releases, refusals and resets follow each other.

    • §1 register sets as finite sets, with their size as the cardinality;
    • §2 the cyclic order, as the number of steps from the cursor;
    • §3 single calls, and all that one can do to a pool;
    • §4 what a history says about the pool it leaves, one call at a time;
    • §5 whole histories (`pool_lends_in_turn`).
-/
import Mathlib.Data.Finset.Card
import Mathlib.Data.Fintype.Defs
import TwoAddress.Proofs.RegisterSets
import TwoAddress.Proofs.Runs

namespace TwoAddress

/-! ## §1. Finite sets. -/

instance : Fintype GpReg := ⟨⟨GpReg.all, by decide⟩, GpReg.mem_all⟩

namespace RegSet

/-- The members, as a finite set. -/
def toFinset (s : RegSet) : Finset GpReg := Finset.univ.filter fun r => s.contains (.gp r) = true

@[simp] theorem mem_toFinset {s : RegSet} {r : GpReg} :
    r ∈ s.toFinset ↔ s.contains (.gp r) = true := by
  simp [toFinset]

@[simp] theorem toFinset_empty : empty.toFinset = ∅ := by
  ext r
  simp

theorem toFinset_insert (s : RegSet) (r : GpReg) :
    (s.insert (.gp r)).toFinset = Insert.insert r s.toFinset := by
  ext q
  simp [or_comm]

theorem toFinset_erase (s : RegSet) (r : GpReg) :
    (s.erase (.gp r)).toFinset = s.toFinset.erase r := by
  ext q
  simp [and_comm]

/-- **The number of set bits** is the number of members. -/
theorem size_eq_card (s : RegSet) : s.size = s.toFinset.card := by
  -- The places of the mask are the registers, each at its encoding number.
  have hplaces : List.range 8 = GpReg.all.map fun r => r.encoding.val := by decide
  have hbits : ∀ r : GpReg, s.mask.getLsbD r.encoding = s.contains (.gp r) :=
    fun r => (s.contains_gp r).symm
  rw [size, hplaces, List.countP_map, List.countP_eq_length_filter]
  simp only [Function.comp_def, hbits]
  show _ = (GpReg.all.filter fun r => decide (s.contains (.gp r) = true)).length
  simp

theorem size_insert {s : RegSet} {r : GpReg} (h : s.contains (.gp r) = false) :
    (s.insert (.gp r)).size = s.size + 1 := by
  have hnew : r ∉ s.toFinset := by simp [h]
  rw [size_eq_card, size_eq_card, toFinset_insert, Finset.card_insert_of_notMem hnew]

theorem size_erase {s : RegSet} {r : GpReg} (h : s.contains (.gp r) = true) :
    (s.erase (.gp r)).size + 1 = s.size := by
  rw [size_eq_card, size_eq_card, toFinset_erase]
  exact Finset.card_erase_add_one (mem_toFinset.mpr h)

end RegSet

/-! ## §2. The cyclic order. -/

/-- How many registers come before this one in cyclic encoding order from a
starting number. -/
def GpReg.stepsFrom (start : Nat) (r : GpReg) : Nat := (r.encoding.val + 8 - start) % 8

namespace ScratchPool

section Cycle

variable {start : Nat}

/-- The register that many steps further on. -/
theorem ofEncoding_stepsFrom (hstart : start < 8) (r : GpReg) :
    GpReg.ofEncoding ⟨(start + r.stepsFrom start) % 8, Nat.mod_lt _ (by decide)⟩ = r := by
  have hplace : (start + r.stepsFrom start) % 8 = r.encoding.val := by
    have := r.encoding.isLt
    unfold GpReg.stepsFrom
    omega
  rw [← GpReg.ofEncoding_encoding r]
  exact congrArg GpReg.ofEncoding (Fin.ext (by simpa using hplace))

theorem stepsFrom_ofEncoding (hstart : start < 8) {n : Nat} (hn : n < 8) :
    (GpReg.ofEncoding ⟨(start + n) % 8, Nat.mod_lt _ (by decide)⟩).stepsFrom start = n := by
  rw [GpReg.stepsFrom, GpReg.encoding_ofEncoding]
  show ((start + n) % 8 + 8 - start) % 8 = n
  omega

/-- **The first register of a kind** in cyclic order is the one the fewest
steps away. -/
theorem find?_cycleFrom (hstart : start < 8) {P : GpReg → Bool} {r : GpReg} :
    (cycleFrom start).find? P = some r ↔
      P r = true ∧ ∀ q, P q = true → r.stepsFrom start ≤ q.stepsFrom start := by
  rw [cycleFrom, List.find?_map, Option.map_eq_some_iff]
  constructor
  · rintro ⟨n, hfind, rfl⟩
    obtain ⟨hP, hn, hbefore⟩ := List.find?_range_eq_some.mp hfind
    rw [List.mem_range] at hn
    refine ⟨hP, fun q hq => ?_⟩
    rw [stepsFrom_ofEncoding hstart hn]
    refine Nat.le_of_not_lt fun hlt => ?_
    -- A register fewer steps away would have been found before.
    have hno := hbefore _ hlt
    rw [Function.comp_apply, ofEncoding_stepsFrom hstart q, hq] at hno
    exact absurd hno (by decide)
  · rintro ⟨hP, hfirst⟩
    refine ⟨r.stepsFrom start, List.find?_range_eq_some.mpr ⟨?_, ?_, fun n hn => ?_⟩,
      ofEncoding_stepsFrom hstart r⟩
    · rw [Function.comp_apply, ofEncoding_stepsFrom hstart r]
      exact hP
    · exact List.mem_range.mpr (Nat.mod_lt _ (by decide))
    · have hlt : r.stepsFrom start < 8 := Nat.mod_lt _ (by decide)
      rw [Function.comp_apply, Bool.not_eq_true']
      refine Bool.eq_false_iff.mpr fun hyes => ?_
      have hle := hfirst _ hyes
      rw [stepsFrom_ofEncoding hstart (by omega)] at hle
      omega

/-- Every register is in the cycle. -/
theorem mem_cycleFrom (start : Nat) (r : GpReg) : r ∈ cycleFrom start := by
  have hstart : start % 8 < 8 := Nat.mod_lt _ (by decide)
  refine List.mem_map.mpr
    ⟨r.stepsFrom (start % 8), List.mem_range.mpr (Nat.mod_lt _ (by decide)), ?_⟩
  refine Eq.trans (congrArg GpReg.ofEncoding (Fin.ext ?_)) (ofEncoding_stepsFrom hstart r)
  exact (Nat.mod_add_mod start 8 _).symm

end Cycle

/-! ## §3. Calls. -/

/-- Something asked of a pool. -/
inductive Call where
  | borrow (exclude : RegSet)
  | release (r : Reg)
  | reset
  deriving DecidableEq, Repr

/-- What came of a call. -/
inductive Event where
  | lent (r : GpReg)
  | returned (r : Reg)
  | refused (e : ScratchError)
  | forgotten
  deriving DecidableEq, Repr

/-- Meet a call.  A pool that refuses stays as it is. -/
def answer (p : ScratchPool) : Call → Event × ScratchPool
  | .borrow exclude =>
      match p.borrow exclude with
      | .ok (r, p') => (.lent r, p')
      | .error e => (.refused e, p)
  | .release r =>
      match p.release r with
      | .ok p' => (.returned r, p')
      | .error e => (.refused e, p)
  | .reset => (.forgotten, p.reset)

/-- The pool after a history of calls. -/
def afterCalls (p : ScratchPool) (calls : List Call) : ScratchPool :=
  calls.foldl (fun p c => (p.answer c).2) p

/-- What came of each call of a history. -/
def events : ScratchPool → List Call → List Event
  | _, [] => []
  | p, c :: cs => (p.answer c).1 :: (p.answer c).2.events cs

/-- The registers that may be lent to a borrower that excludes a set. -/
def free (p : ScratchPool) (exclude : RegSet) : Finset GpReg :=
  (p.lendable.toFinset \ p.lent.toFinset) \ exclude.toFinset

theorem mem_free {p : ScratchPool} {exclude : RegSet} {r : GpReg} :
    r ∈ p.free exclude ↔ p.eligible exclude r = true := by
  rw [eligible_iff]
  simp [free, and_assoc]

section Calls

variable {p p' : ScratchPool} {exclude : RegSet} {r : GpReg}

/-- **A borrow** lends the first free register from the clock on. -/
theorem borrow_eq_ok_iff (hclock : p.clock < 8) :
    p.borrow exclude = .ok (r, p') ↔
      (r ∈ p.free exclude ∧ ∀ q ∈ p.free exclude, r.stepsFrom p.clock ≤ q.stepsFrom p.clock) ∧
        p' = { p with
          lent := p.lent.insert (.gp r)
          clock := (r.encoding.val + 1) % 8
          borrows := p.borrows + 1 } := by
  simp only [borrow_eq_ok, find?_cycleFrom hclock, mem_free]

/-- A borrow is refused only if nothing is free. -/
theorem exists_borrow_iff :
    (∃ r p', p.borrow exclude = .ok (r, p')) ↔ (p.free exclude).Nonempty := by
  constructor
  · rintro ⟨r, p', h⟩
    exact ⟨r, mem_free.mpr (eligible_of_borrow h)⟩
  · rintro ⟨q, hq⟩
    have hfind : ((cycleFrom p.clock).find? (p.eligible exclude)).isSome = true :=
      List.find?_isSome.mpr ⟨q, mem_cycleFrom p.clock q, mem_free.mp hq⟩
    obtain ⟨r, hr⟩ := Option.isSome_iff_exists.mp hfind
    exact ⟨r, _, borrow_eq_ok.mpr ⟨hr, rfl⟩⟩

/-- **A release** takes back what is lent, and nothing else. -/
theorem exists_of_release {q : Reg} (h : p.release q = .ok p') :
    ∃ r, q = .gp r ∧ r ∈ p.lent.toFinset ∧ p' = { p with lent := p.lent.erase (.gp r) } := by
  cases q with
  | gp r =>
      refine ⟨r, rfl, ?_, eq_of_release h⟩
      by_contra hno
      -- A register that is not lent is refused, whether or not it is of the pool.
      rw [RegSet.mem_toFinset, Bool.not_eq_true] at hno
      simp only [release, hno] at h
      split at h <;> exact absurd h (by simp)
  | absent | xmm => exact absurd h (by simp [release, RegSet.contains])

theorem release_eq_ok_iff (hwithin : p.lent.toFinset ⊆ p.lendable.toFinset) {q : Reg} :
    p.release q = .ok p' ↔
      ∃ r, q = .gp r ∧ r ∈ p.lent.toFinset ∧ p' = { p with lent := p.lent.erase (.gp r) } := by
  constructor
  · exact exists_of_release
  · rintro ⟨r, rfl, hlent, rfl⟩
    exact release_eq_ok (RegSet.mem_toFinset.mp (hwithin hlent)) (RegSet.mem_toFinset.mp hlent)

end Calls

/-- **All that a call can do**: lend a free register, take back a lent one,
forget everything, or nothing. -/
theorem answer_cases (p : ScratchPool) (c : Call) :
    (∃ exclude r, c = .borrow exclude ∧ r ∈ p.free exclude ∧
      p.answer c = (.lent r, { p with
        lent := p.lent.insert (.gp r)
        clock := (r.encoding.val + 1) % 8
        borrows := p.borrows + 1 })) ∨
    (∃ r, c = .release (.gp r) ∧ r ∈ p.lent.toFinset ∧
      p.answer c = (.returned (.gp r), { p with lent := p.lent.erase (.gp r) })) ∨
    (∃ e, p.answer c = (.refused e, p)) ∨
    (c = .reset ∧ p.answer c = (.forgotten, p.reset)) := by
  cases c with
  | borrow exclude =>
      cases hrun : p.borrow exclude with
      | error e => exact .inr (.inr (.inl ⟨e, by simp [answer, hrun]⟩))
      | ok found =>
          obtain ⟨r, p'⟩ := found
          have hfree := mem_free.mpr (eligible_of_borrow hrun)
          obtain ⟨-, rfl⟩ := borrow_eq_ok.mp hrun
          exact .inl ⟨exclude, r, rfl, hfree, by simp [answer, hrun]⟩
  | release q =>
      cases hrun : p.release q with
      | error e => exact .inr (.inr (.inl ⟨e, by simp [answer, hrun]⟩))
      | ok p' =>
          obtain ⟨r, rfl, hlent, rfl⟩ := exists_of_release hrun
          exact .inr (.inl ⟨r, rfl, hlent, by simp [answer, hrun]⟩)
  | reset => exact .inr (.inr (.inr ⟨rfl, rfl⟩))

/-! ## §4. Histories. -/

/-- The events after the last reset. -/
def sinceReset (es : List Event) : List Event := es.foldl next []
where
  /-- One more event. -/
  next (recent : List Event) : Event → List Event
    | .forgotten => []
    | e => recent ++ [e]

/-- The registers that a history leaves lent. -/
def lentAfter (es : List Event) : Finset GpReg := es.foldl settle ∅
where
  /-- What one event does to the registers that are lent. -/
  settle (out : Finset GpReg) : Event → Finset GpReg
    | .lent r => insert r out
    | .returned r => out.filter fun q => .gp q ≠ r
    | .refused _ => out
    | .forgotten => ∅

/-- A register was lent. -/
def Event.isLent : Event → Bool
  | lent _ => true
  | _ => false

/-- A register was taken back. -/
def Event.isReturned : Event → Bool
  | returned _ => true
  | _ => false

/-- What the history of a pool that lends a set says about the pool. -/
structure PoolHistory (pool : RegSet) (es : List Event) (p : ScratchPool) : Prop where
  lendable : p.lendable = pool
  within : p.lent.toFinset ⊆ pool.toFinset
  clock : p.clock < 8
  lent : p.lent.toFinset = lentAfter es
  /-- A register is lent only when it is not. -/
  fresh : ∀ before r rest, es = before ++ .lent r :: rest → r ∉ lentAfter before
  borrows : p.borrows = (sinceReset es).countP Event.isLent
  outstanding : p.outstanding + (sinceReset es).countP Event.isReturned =
    (sinceReset es).countP Event.isLent

section History

variable {pool : RegSet} {es : List Event} {p : ScratchPool}

theorem sinceReset_snoc (es : List Event) (e : Event) :
    sinceReset (es ++ [e]) = sinceReset.next (sinceReset es) e := List.foldl_concat _ _ _ _

theorem lentAfter_snoc (es : List Event) (e : Event) :
    lentAfter (es ++ [e]) = lentAfter.settle (lentAfter es) e := List.foldl_concat _ _ _ _

theorem poolHistory_new (pool : RegSet) : PoolHistory pool [] (new pool) where
  lendable := rfl
  within := by simp [new]
  clock := Nat.zero_lt_succ 7
  lent := RegSet.toFinset_empty
  fresh before r rest h := absurd h (by simp)
  borrows := rfl
  outstanding := by
    show RegSet.empty.size + 0 = 0
    decide

/-- One more event is fresh if what it lends was not lent. -/
theorem fresh_snoc {e : Event}
    (hfresh : ∀ before r rest, es = before ++ .lent r :: rest → r ∉ lentAfter before)
    (he : ∀ r, e = .lent r → r ∉ lentAfter es) :
    ∀ before r rest, es ++ [e] = before ++ .lent r :: rest → r ∉ lentAfter before := by
  intro before r rest h
  -- The loan is the new event itself, or stands among those before it.
  rcases List.eq_nil_or_concat rest with rfl | ⟨rest, last, rfl⟩
  · obtain ⟨rfl, hlast⟩ := List.append_inj' h rfl
    exact he r (List.cons.inj hlast).1
  · have hcut : es ++ [e] = (before ++ .lent r :: rest) ++ [last] := by simpa using h
    exact hfresh before r rest (List.append_inj' hcut rfl).1

/-- A free register is lent: it is of the pool, and was not lent. -/
theorem PoolHistory.lend (h : PoolHistory pool es p) {exclude : RegSet} {r : GpReg}
    (hfree : r ∈ p.free exclude) :
    PoolHistory pool (es ++ [.lent r]) { p with
      lent := p.lent.insert (.gp r)
      clock := (r.encoding.val + 1) % 8
      borrows := p.borrows + 1 } := by
  obtain ⟨hin, hout, -⟩ := eligible_iff.mp (mem_free.mp hfree)
  constructor
  · exact h.lendable
  · rw [RegSet.toFinset_insert]
    refine Finset.insert_subset ?_ h.within
    rw [← h.lendable]
    exact RegSet.mem_toFinset.mpr hin
  · exact Nat.mod_lt _ (by decide)
  · rw [lentAfter_snoc, RegSet.toFinset_insert, h.lent]
    rfl
  · refine fresh_snoc h.fresh fun q hq => ?_
    obtain rfl := Event.lent.inj hq
    rw [← h.lent, RegSet.mem_toFinset, hout]
    exact Bool.false_ne_true
  · rw [sinceReset_snoc, h.borrows]
    simp [sinceReset.next, Event.isLent]
  · have hcount := h.outstanding
    rw [ScratchPool.outstanding] at hcount ⊢
    rw [sinceReset_snoc, RegSet.size_insert hout]
    simp only [sinceReset.next, List.countP_append, List.countP_singleton, Event.isLent,
      Event.isReturned, Bool.false_eq_true, if_true, if_false]
    omega

/-- A lent register is taken back, and no other. -/
theorem PoolHistory.takeBack (h : PoolHistory pool es p) {r : GpReg}
    (hlent : r ∈ p.lent.toFinset) :
    PoolHistory pool (es ++ [.returned (.gp r)]) { p with lent := p.lent.erase (.gp r) } := by
  constructor
  · exact h.lendable
  · rw [RegSet.toFinset_erase]
    exact (Finset.erase_subset _ _).trans h.within
  · exact h.clock
  · rw [lentAfter_snoc, ← h.lent]
    ext q
    simp [lentAfter.settle]
  · exact fresh_snoc h.fresh fun q hq => nomatch hq
  · rw [sinceReset_snoc, h.borrows]
    simp [sinceReset.next, Event.isLent]
  · have hcount := h.outstanding
    have hsize := RegSet.size_erase (RegSet.mem_toFinset.mp hlent)
    rw [ScratchPool.outstanding] at hcount ⊢
    rw [sinceReset_snoc]
    simp only [sinceReset.next, List.countP_append, List.countP_singleton, Event.isLent,
      Event.isReturned, Bool.false_eq_true, if_true, if_false]
    omega

/-- A refusal counts as nothing. -/
theorem PoolHistory.refuse (h : PoolHistory pool es p) (e : ScratchError) :
    PoolHistory pool (es ++ [.refused e]) p := by
  refine ⟨h.lendable, h.within, h.clock, ?_, fresh_snoc h.fresh fun q hq => ?_, ?_, ?_⟩
  · rw [lentAfter_snoc, h.lent]
    rfl
  · exact nomatch hq
  · rw [sinceReset_snoc, h.borrows]
    simp [sinceReset.next, Event.isLent]
  · rw [sinceReset_snoc]
    simpa [sinceReset.next, Event.isLent, Event.isReturned] using h.outstanding

/-- A reset starts the counts again, for the same registers. -/
theorem PoolHistory.forget (h : PoolHistory pool es p) :
    PoolHistory pool (es ++ [.forgotten]) p.reset := by
  have hnew := poolHistory_new p.lendable
  refine ⟨h.lendable, h.lendable ▸ hnew.within, hnew.clock, ?_,
    fresh_snoc h.fresh fun q hq => ?_, ?_, ?_⟩
  · rw [lentAfter_snoc]
    exact hnew.lent
  · exact nomatch hq
  · rw [sinceReset_snoc]
    exact hnew.borrows
  · rw [sinceReset_snoc]
    exact hnew.outstanding

/-- **One call** keeps the history. -/
theorem PoolHistory.answer (h : PoolHistory pool es p) (c : Call) :
    PoolHistory pool (es ++ [(p.answer c).1]) (p.answer c).2 := by
  rcases answer_cases p c with
    ⟨exclude, r, -, hfree, hrun⟩ | ⟨r, -, hlent, hrun⟩ | ⟨e, hrun⟩ | ⟨-, hrun⟩ <;> rw [hrun]
  · exact h.lend hfree
  · exact h.takeBack hlent
  · exact h.refuse e
  · exact h.forget

/-- **Histories**, by induction on their calls. -/
theorem PoolHistory.run (h : PoolHistory pool es p) (calls : List Call) :
    PoolHistory pool (es ++ p.events calls) (p.afterCalls calls) := by
  induction calls generalizing es p with
  | nil =>
      rw [events, List.append_nil]
      exact h
  | cons c calls ih =>
      have hrest := ih (h.answer c)
      rw [List.append_assoc] at hrest
      exact hrest

/-- What is lent stays lent while it is not given back. -/
theorem mem_foldl_settle {r : GpReg} {out : Finset GpReg} (hr : r ∈ out)
    (hback : .returned (.gp r) ∉ es) (hforgot : .forgotten ∉ es) :
    r ∈ es.foldl lentAfter.settle out := by
  induction es generalizing out with
  | nil => exact hr
  | cons e es ih =>
      rw [List.mem_cons, not_or] at hback hforgot
      refine ih ?_ hback.2 hforgot.2
      cases e with
      | lent q => exact Finset.mem_insert_of_mem hr
      | returned q =>
          have hne : Reg.gp r ≠ q := fun hq => hback.1 (congrArg Event.returned hq)
          exact Finset.mem_filter.mpr ⟨hr, hne⟩
      | refused e => exact hr
      | forgotten => exact absurd rfl hforgot.1

/-- Between two loans of a register it is given back, or all is forgotten. -/
theorem PoolHistory.between (h : PoolHistory pool es p) {before middle rest : List Event}
    {r : GpReg} (hes : es = before ++ .lent r :: (middle ++ .lent r :: rest)) :
    .returned (.gp r) ∈ middle ∨ .forgotten ∈ middle := by
  by_contra hno
  rw [not_or] at hno
  have hcut : es = (before ++ .lent r :: middle) ++ .lent r :: rest := by simpa using hes
  -- Otherwise the register is still lent when it is lent again.
  refine h.fresh _ r rest hcut ?_
  rw [lentAfter, List.foldl_append, List.foldl_cons]
  exact mem_foldl_settle (Finset.mem_insert_self r _) hno.1 hno.2

end History

/-! ## §5. Lending in turn. -/

/-- A borrow that fails leaves the session alone. -/
theorem unmoved_borrow {s : Session} {exclude : List Reg} {f : Fault}
    (h : ((Session.borrow exclude).on s).1 = .error f) : ((Session.borrow exclude).on s).2 = s := by
  rw [Session.on_borrow] at h ⊢
  cases hrun : s.pool.borrow (.ofList exclude) with
  | error e => rfl
  | ok found =>
      rw [hrun] at h
      exact nomatch h

/-- A release that fails leaves the session alone. -/
theorem unmoved_release {s : Session} {r : Reg} {f : Fault}
    (h : ((Session.release r).on s).1 = .error f) : ((Session.release r).on s).2 = s := by
  rw [Session.on_release] at h ⊢
  cases hrun : s.pool.release r with
  | error e => rfl
  | ok p =>
      rw [hrun] at h
      exact nomatch h

/-- A pool, after a history, is a set of registers with a cursor that goes
round. -/
structure LendsInTurn (pool : RegSet) (es : List Event) (p : ScratchPool) : Prop
    extends PoolHistory pool es p where
  /-- A borrow succeeds exactly if a register is free. -/
  lends : ∀ exclude, (∃ r p', p.borrow exclude = .ok (r, p')) ↔ (p.free exclude).Nonempty
  /-- It lends the first free one in cyclic order from the clock, and moves the
  clock just past it. -/
  inTurn : ∀ exclude r p', p.borrow exclude = .ok (r, p') →
    r ∈ p.free exclude ∧ (∀ q ∈ p.free exclude, r.stepsFrom p.clock ≤ q.stepsFrom p.clock) ∧
      p'.lendable = pool ∧ p'.lent.toFinset = insert r p.lent.toFinset ∧
      p'.clock = (r.encoding.val + 1) % 8 ∧ p'.borrows = p.borrows + 1
  /-- A register lent twice was given back, or all was forgotten, in between. -/
  notTwice : ∀ before middle rest r, es = before ++ .lent r :: (middle ++ .lent r :: rest) →
    .returned (.gp r) ∈ middle ∨ .forgotten ∈ middle
  /-- A release succeeds exactly for what is lent. -/
  takesBack : ∀ q, (∃ p', p.release q = .ok p') ↔ ∃ r ∈ p.lent.toFinset, q = .gp r
  /-- It removes that register and changes nothing else. -/
  givenBack : ∀ r p', p.release (.gp r) = .ok p' →
    p'.lendable = pool ∧ p'.lent.toFinset = p.lent.toFinset.erase r ∧ p'.clock = p.clock ∧
      p'.borrows = p.borrows
  /-- A session keeps the pool as it is when a borrow or a release fails. -/
  unmoved : ∀ (s : Session) (f : Fault), s.pool = p →
    (∀ exclude, ((Session.borrow exclude).on s).1 = .error f →
      ((Session.borrow exclude).on s).2.pool = p) ∧
    (∀ r, ((Session.release r).on s).1 = .error f → ((Session.release r).on s).2.pool = p)

/-- What a history says about a pool decides what the next call does. -/
theorem PoolHistory.lendsInTurn {pool : RegSet} {es : List Event} {p : ScratchPool}
    (h : PoolHistory pool es p) : LendsInTurn pool es p := by
  have hwithin : p.lent.toFinset ⊆ p.lendable.toFinset := by
    rw [h.lendable]
    exact h.within
  refine ⟨h, fun exclude => exists_borrow_iff, ?_,
    fun before middle rest r hes => h.between hes, fun q => ⟨?_, ?_⟩, ?_, ?_⟩
  · intro exclude r p' hrun
    obtain ⟨⟨hfree, hfirst⟩, rfl⟩ := (borrow_eq_ok_iff h.clock).mp hrun
    exact ⟨hfree, hfirst, h.lendable, RegSet.toFinset_insert _ _, rfl, rfl⟩
  · rintro ⟨p', hrun⟩
    obtain ⟨r, rfl, hlent, -⟩ := (release_eq_ok_iff hwithin).mp hrun
    exact ⟨r, hlent, rfl⟩
  · rintro ⟨r, hlent, rfl⟩
    exact ⟨_, (release_eq_ok_iff hwithin).mpr ⟨r, rfl, hlent, rfl⟩⟩
  · intro r p' hrun
    obtain rfl := eq_of_release hrun
    exact ⟨h.lendable, RegSet.toFinset_erase _ _, rfl, rfl⟩
  · rintro s f rfl
    exact ⟨fun exclude hf => by rw [unmoved_borrow hf], fun r hf => by rw [unmoved_release hf]⟩

/-- **A POOL LENDS ITS REGISTERS IN TURN.**  After any history of borrows,
releases and resets, refused ones included, the registers lent are those the
history leaves lent, all of the pool; the clock is the number of a register;
the counts are those of the history since the last reset; and the next borrow
or release does what it would do to a set with a cyclic cursor. -/
theorem pool_lends_in_turn (pool : RegSet) (calls : List Call) :
    LendsInTurn pool ((new pool).events calls) ((new pool).afterCalls calls) :=
  ((poolHistory_new pool).run calls).lendsInTurn

/-- Borrowing and giving back at once goes round the pool. -/
example : (new (.ofList [.gp .ecx, .gp .esi])).events
    [.borrow .empty, .release (.gp .ecx), .borrow .empty, .release (.gp .eax), .borrow .empty,
      .borrow .empty] =
    [.lent .ecx, .returned (.gp .ecx), .lent .esi, .refused (.notInPool (.gp .eax)), .lent .ecx,
      .refused (.exhausted 0)] := by
  decide

end ScratchPool

end TwoAddress
