/-
  TwoAddress.Proofs.MethodState
  ─────────────────────────────
  **A CLEARED SESSION IS A FRESH ONE.**

  A session compiles one method after another.  Clearing it must leave
  nothing of the last method that the next could see, and must not lose what
  was counted.

    • §1 two sessions that differ in their statistics only, and there by a
      constant: `Session.Ahead`;
    • §2 every request and every command keeps them so, and answers alike;
    • §3 the registers that a session lends never change;
    • §4 so after a clear the session is ahead of a fresh one, by what it had
      counted (`clear_starts_afresh`).
-/
import TwoAddress.Proofs.Lockstep
import TwoAddress.Proofs.RegisterSets
import TwoAddress.Proofs.Tallies

namespace TwoAddress

/-! ## §1. Ahead by what was counted before. -/

/-- Every counter of the first is the sum of those of the other two. -/
structure Statistics.IsSum (sum earlier own : Statistics) : Prop where
  emitted : sum.emitted = earlier.emitted + own.emitted
  inert : sum.inert = earlier.inert + own.inert
  borrowed : sum.borrowed = earlier.borrowed + own.borrowed
  annotated : sum.annotated = earlier.annotated + own.annotated
  opcodes : ∀ name, sum.opcodes.times name = earlier.opcodes.times name + own.opcodes.times name

namespace Session

/-- The second session is the first, but for what it had counted earlier. -/
structure Ahead (earlier : Statistics) (s t : Session) : Prop where
  same : t = { s with stats := t.stats }
  stats : t.stats.IsSum earlier s.stats

variable {earlier : Statistics} {s t : Session}

theorem Ahead.elim (h : Ahead earlier s t) :
    ∃ stats, t = { s with stats } ∧ stats.IsSum earlier s.stats :=
  ⟨t.stats, h.same, h.stats⟩

/-- Nothing is counted in a fresh session. -/
theorem ahead_of_pool {pool : ScratchPool} {stats : Statistics} :
    Ahead stats { pool } { pool, stats } where
  same := rfl
  stats := ⟨rfl, rfl, rfl, rfl, fun _ => rfl⟩

/-- A record more counts in both alike. -/
theorem Ahead.push (h : Ahead earlier s t) (r : Record) : Ahead earlier (s.push r) (t.push r) := by
  obtain ⟨stats, rfl, hsum⟩ := h.elim
  -- What was counted earlier is the left summand, and only the right one grows.
  refine ⟨rfl, ?_, ?_, hsum.borrowed, hsum.annotated, fun name => ?_⟩
  · show stats.emitted + 1 = _
    rw [hsum.emitted]
    rfl
  · show stats.inert + r.inert.toNat = _
    rw [hsum.inert, Nat.add_assoc]
    rfl
  · show (stats.opcodes.bump r.opcode.name).times name = _
    rw [Tally.times_bump, hsum.opcodes, Nat.add_assoc, ← Tally.times_bump]
    rfl

/-! ## §2. In step. -/

/-- Amending a record looks at the stream and at nothing else. -/
theorem Ahead.amend (h : Ahead earlier s t) (id : RecordId)
    (change : Record → Except Fault Record) :
    InStep (Ahead earlier) ((amend id change).on s) ((amend id change).on t) := by
  obtain ⟨stats, rfl, hsum⟩ := h.elim
  simp only [on_amend]
  cases s.records[id.index]? with
  | none => exact ⟨rfl, h⟩
  | some r =>
      dsimp only
      cases change r with
      | error f => exact ⟨rfl, h⟩
      | ok r' => exact ⟨rfl, rfl, hsum⟩

/-- **Every request** is answered alike. -/
theorem ahead_matches (earlier : Statistics) : unit.Matches (Ahead earlier) unit where
  append {s t} h i := by
    obtain ⟨stats, rfl, -⟩ := h.elim
    exact ⟨rfl, h.push (s.stamp i)⟩
  retarget h id _ := (h.amend id _).bind fun _ _ _ h => ⟨rfl, h⟩
  borrow {s t} h exclude := by
    obtain ⟨stats, rfl, hsum⟩ := h.elim
    show InStep _ ((borrow exclude).on _) ((borrow exclude).on _)
    simp only [on_borrow]
    cases s.pool.borrow (.ofList exclude) with
    | error e => exact ⟨rfl, h⟩
    | ok found =>
        refine ⟨rfl, rfl, hsum.emitted, hsum.inert, ?_, hsum.annotated, hsum.opcodes⟩
        show stats.borrowed + 1 = _
        rw [hsum.borrowed]
        rfl
  release {s t} h r := by
    obtain ⟨stats, rfl, hsum⟩ := h.elim
    show InStep _ ((release r).on _) ((release r).on _)
    simp only [on_release]
    cases s.pool.release r with
    | error e => exact ⟨rfl, h⟩
    | ok pool => exact ⟨rfl, rfl, hsum⟩
  annotate {s t} h id access := by
    obtain ⟨stats, rfl, hsum⟩ := h.elim
    refine ⟨rfl, rfl, hsum.emitted, hsum.inert, hsum.borrowed, ?_, hsum.opcodes⟩
    show stats.annotated + 1 = _
    rw [hsum.annotated]
    rfl
  note h _ := ⟨rfl, h⟩

/-- **Every command** is answered alike. -/
theorem Ahead.execute (h : Ahead earlier s t) (c : Command) :
    InStep (Ahead earlier) ((execute c).on s) ((execute c).on t) := by
  refine c.inStep (ahead_matches earlier) h fun hdirect => ?_
  obtain ⟨stats, rfl, hsum⟩ := h.elim
  cases c with
  | appendRecord r => exact ⟨rfl, h.push r⟩
  | setOffset offset => exact ⟨rfl, rfl, hsum⟩
  | setInert id inert => exact (h.amend id (Command.withInert inert)).map Outcome.record
  | lookup id =>
      show InStep _ ((Session.execute (.lookup id)).on _) ((Session.execute (.lookup id)).on _)
      rw [on_execute_lookup, on_execute_lookup]
      exact ⟨rfl, h⟩
  | clear => exact ⟨rfl, rfl, hsum⟩
  | request | append | annotate | borrow | release => exact absurd hdirect Bool.false_ne_true

/-! ## §3. The registers of a session. -/

/-- Lending and taking back move a register within the pool, and a clear
makes a new pool of the same ones. -/
theorem lasting_lendable (lendable : RegSet) : Lasting fun s => s.pool.lendable = lendable where
  push h _ := h
  amend h _ := h
  lend h hrun := by
    obtain ⟨-, rfl⟩ := ScratchPool.borrow_eq_ok.mp hrun
    exact h
  takeBack h hrun := by
    obtain rfl := ScratchPool.eq_of_release hrun
    exact h
  annotate h _ := h
  setOffset h _ := h
  clear h := h

/-- **No run** changes the registers that a session lends. -/
theorem lendable_afterAll (s : Session) (cs : List Command) :
    (s.afterAll cs).pool.lendable = s.pool.lendable :=
  (lasting_lendable s.pool.lendable).afterAll rfl cs

/-! ## §4. After a clear. -/

/-- **A CLEARED SESSION IS A FRESH ONE.**  Whatever was done before, with or
without faults, each command after a clear comes to what it comes to on a new
session, the two sessions end alike, and every counter is the sum of what it
was before the clear and what the new session counts. -/
theorem clear_starts_afresh (scratch : List Reg) (before later : List Command) :
    ((new scratch).afterAll (before ++ [.clear])).outcomes later = (new scratch).outcomes later ∧
      Ahead ((new scratch).afterAll before).stats ((new scratch).afterAll later)
        ((new scratch).afterAll (before ++ .clear :: later)) := by
  have hstart : Ahead ((new scratch).afterAll before).stats (new scratch)
      ((new scratch).afterAll (before ++ [.clear])) := by
    -- What is left of the pool is the registers it lends.
    have hpool : ((new scratch).afterAll before).pool.reset = (new scratch).pool :=
      congrArg ScratchPool.new (lendable_afterAll (new scratch) before)
    have hclear : (new scratch).afterAll (before ++ [.clear]) =
        { pool := (new scratch).pool, stats := ((new scratch).afterAll before).stats } := by
      rw [← hpool, afterAll_append]
      rfl
    rw [hclear]
    exact ahead_of_pool
  obtain ⟨houtcomes, hend⟩ := outcomes_inStep Ahead.execute later hstart
  refine ⟨houtcomes.symm, ?_⟩
  rw [List.append_cons, afterAll_append]
  exact hend

end Session

end TwoAddress
