/-
  TwoAddress.Proofs.Lockstep
  ──────────────────────────
  **TWO UNITS IN STEP.**

  The same dialogue can be conducted with two compilation units.  If they
  answer every single request alike, and related states stay related, then
  the dialogue takes the same way through both:

    • §1 two runs in step: the same answer, and related states behind it,
      after a fault as after a result;
    • §2 units that match, request by request, and every tree in both;
    • §3 commands in both, and runs of commands on two sessions;
    • §4 properties of one session that outlast every run.

  With the diagonal as the relation, this is also how a property of the state
  of one unit is carried through a dialogue.
-/
import TwoAddress.Proofs.Demands
import TwoAddress.Proofs.Runs

namespace TwoAddress

variable {σ τ α β : Type}

/-! ## §1. Runs in step. -/

/-- The same answer, and related states. -/
def InStep (R : σ → τ → Prop) (o : Except Fault α × σ) (o' : Except Fault α × τ) : Prop :=
  o.1 = o'.1 ∧ R o.2 o'.2

namespace InStep

variable {R : σ → τ → Prop} {s : σ} {t : τ}

theorem bind {x : Effect σ α} {y : Effect τ α} {k : α → Effect σ β} {l : α → Effect τ β}
    (hx : InStep R (x.on s) (y.on t))
    (hk : ∀ a {s t}, R s t → InStep R ((k a).on s) ((l a).on t)) :
    InStep R ((x >>= k).on s) ((y >>= l).on t) := by
  rw [Effect.on_bind, Effect.on_bind]
  obtain ⟨hanswer, hstates⟩ := hx
  -- The answers agree: both runs stop here, or both go on with the same one.
  rcases hrun : x.on s with ⟨f | a, s'⟩ <;> rcases hrun' : y.on t with ⟨f' | a', t'⟩ <;>
    rw [hrun, hrun'] at hanswer hstates
  · obtain rfl := Except.error.inj hanswer
    exact ⟨rfl, hstates⟩
  · exact absurd hanswer (by simp)
  · exact absurd hanswer (by simp)
  · obtain rfl := Except.ok.inj hanswer
    exact hk a hstates

theorem map {x : Effect σ α} {y : Effect τ α} (f : α → β) (h : InStep R (x.on s) (y.on t)) :
    InStep R ((f <$> x).on s) ((f <$> y).on t) := by
  rw [Effect.on_map, Effect.on_map]
  exact ⟨congrArg (Except.map f) h.1, h.2⟩

end InStep

/-! ## §2. Units that match. -/

/-- The units answer each request alike in related states. -/
structure CodeUnit.Matches (R : σ → τ → Prop) (u : CodeUnit σ) (v : CodeUnit τ) : Prop where
  append : ∀ {s t}, R s t → ∀ i, InStep R ((u.append i).on s) ((v.append i).on t)
  retarget : ∀ {s t}, R s t → ∀ id target,
    InStep R ((u.retarget id target).on s) ((v.retarget id target).on t)
  borrow : ∀ {s t}, R s t → ∀ exclude, InStep R ((u.borrow exclude).on s) ((v.borrow exclude).on t)
  release : ∀ {s t}, R s t → ∀ r, InStep R ((u.release r).on s) ((v.release r).on t)
  annotate : ∀ {s t}, R s t → ∀ id access,
    InStep R ((u.annotate id access).on s) ((v.annotate id access).on t)
  note : ∀ {s t}, R s t → ∀ n, InStep R ((u.note n).on s) ((v.note n).on t)

/-- The same of units that need only answer alike where a request satisfies `P`. -/
structure CodeUnit.MatchesOn (P : Demand → Prop) (R : σ → τ → Prop) (u : CodeUnit σ)
    (v : CodeUnit τ) : Prop where
  append : ∀ {s t}, R s t → ∀ i, P (.append i) → InStep R ((u.append i).on s) ((v.append i).on t)
  retarget : ∀ {s t}, R s t → ∀ id target, P (.retarget id target) →
    InStep R ((u.retarget id target).on s) ((v.retarget id target).on t)
  borrow : ∀ {s t}, R s t → ∀ exclude, P (.borrow exclude) →
    InStep R ((u.borrow exclude).on s) ((v.borrow exclude).on t)
  release : ∀ {s t}, R s t → ∀ r, P (.release r) →
    InStep R ((u.release r).on s) ((v.release r).on t)
  annotate : ∀ {s t}, R s t → ∀ id access, P (.annotate id access) →
    InStep R ((u.annotate id access).on s) ((v.annotate id access).on t)
  note : ∀ {s t}, R s t → ∀ n, P (.note n) → InStep R ((u.note n).on s) ((v.note n).on t)

section Matching

variable {R : σ → τ → Prop} {P : Demand → Prop}

theorem CodeUnit.Matches.on {u : CodeUnit σ} {v : CodeUnit τ} (h : u.Matches R v) :
    u.MatchesOn P R v where
  append hst i _ := h.append hst i
  retarget hst id target _ := h.retarget hst id target
  borrow hst exclude _ := h.borrow hst exclude
  release hst r _ := h.release hst r
  annotate hst id access _ := h.annotate hst id access
  note hst n _ := h.note hst n

/-- **Dialogues that ask for no more** stay in step, by induction on the tree. -/
theorem CodeUnit.MatchesOn.runIn {u : CodeUnit σ} {v : CodeUnit τ} (h : u.MatchesOn P R v)
    {x : Synthesis α} (hx : x.Asks P) :
    ∀ {s t}, R s t → InStep R ((x.runIn u).on s) ((x.runIn v).on t) := by
  induction x with
  | done a => exact fun hst => ⟨rfl, hst⟩
  | fail f => exact fun hst => ⟨rfl, hst⟩
  | append i next ih => exact fun hst => (h.append hst i hx.1).bind fun id => ih id (hx.2 id)
  | retarget id target next ih =>
      exact fun hst => (h.retarget hst id target hx.1).bind fun _ => ih hx.2
  | borrow exclude next ih =>
      exact fun hst => (h.borrow hst exclude hx.1).bind fun r => ih r (hx.2 r)
  | release r next ih => exact fun hst => (h.release hst r hx.1).bind fun _ => ih hx.2
  | annotate id access next ih =>
      exact fun hst => (h.annotate hst id access hx.1).bind fun _ => ih hx.2
  | note n next ih => exact fun hst => (h.note hst n hx.1).bind fun _ => ih hx.2

/-- **Whole dialogues** stay in step with units that match throughout. -/
theorem CodeUnit.Matches.runIn {u : CodeUnit σ} {v : CodeUnit τ} (h : u.Matches R v)
    (x : Synthesis α) {s : σ} {t : τ} (hst : R s t) :
    InStep R ((x.runIn u).on s) ((x.runIn v).on t) :=
  (h.on (P := fun _ => True)).runIn (x.asks_of_forall fun _ => trivial) hst

/-! ## §3. Commands. -/

/-- The command asks for what no synthesizer can ask of a unit. -/
def Command.isDirect : Command → Bool
  | appendRecord _ | setOffset _ | setInert _ _ | lookup _ | clear => true
  | _ => false

/-- Everything that the command asks of a unit satisfies `P`. -/
def Command.Asks (P : Demand → Prop) : Command → Prop
  | request q => q.synthesis.Asks P
  | append op operands inert target =>
      ∀ i, Instruction.build op operands = .ok i → P (.append { i with inert, target })
  | annotate id access => P (.annotate id access)
  | borrow exclude => P (.borrow exclude)
  | release r => P (.release r)
  | appendRecord _ | setOffset _ | setInert _ _ | lookup _ | clear => True

/-- **Commands that ask for no more** stay in step if those do that no unit
alone can meet. -/
theorem Command.Asks.inStep {u : SessionUnit σ} {v : SessionUnit τ} {c : Command} (hc : c.Asks P)
    (h : u.toCodeUnit.MatchesOn P R v.toCodeUnit) {s : σ} {t : τ} (hst : R s t)
    (hdirect : c.isDirect = true → InStep R ((c.runIn u).on s) ((c.runIn v).on t)) :
    InStep R ((c.runIn u).on s) ((c.runIn v).on t) := by
  cases c with
  | request q => exact (h.runIn hc hst).map _
  | append op operands inert target =>
      -- Building the instruction touches neither state.
      rw [runIn, runIn, Effect.on_bind, Effect.on_bind, Effect.on_ofExcept, Effect.on_ofExcept]
      cases hbuild : Instruction.build op operands with
      | error f => exact ⟨rfl, hst⟩
      | ok i => exact (h.append hst _ (hc i hbuild)).bind fun _ _ _ hst => ⟨rfl, hst⟩
  | annotate id access => exact (h.annotate hst id access hc).bind fun _ _ _ hst => ⟨rfl, hst⟩
  | borrow exclude => exact (h.borrow hst exclude hc).map _
  | release r => exact (h.release hst r hc).bind fun _ _ _ hst => ⟨rfl, hst⟩
  | appendRecord r => exact hdirect rfl
  | setOffset offset => exact hdirect rfl
  | setInert id inert => exact hdirect rfl
  | lookup id => exact hdirect rfl
  | clear => exact hdirect rfl

theorem Command.asks_of_forall (h : ∀ d, P d) (c : Command) : c.Asks P := by
  cases c with
  | request q => exact q.synthesis.asks_of_forall h
  | append op operands inert target => exact fun _ _ => h _
  | annotate id access => exact h _
  | borrow exclude => exact h _
  | release r => exact h _
  | appendRecord _ | setOffset _ | setInert _ _ | lookup _ | clear => trivial

/-- **Commands** stay in step with units that match throughout. -/
theorem Command.inStep {u : SessionUnit σ} {v : SessionUnit τ}
    (h : u.toCodeUnit.Matches R v.toCodeUnit) (c : Command) {s : σ} {t : τ} (hst : R s t)
    (hdirect : c.isDirect = true → InStep R ((c.runIn u).on s) ((c.runIn v).on t)) :
    InStep R ((c.runIn u).on s) ((c.runIn v).on t) :=
  (c.asks_of_forall fun _ => trivial).inStep (h.on (P := fun _ => True)) hst hdirect

/-- **Runs** stay in step if every command does, by induction on the run. -/
theorem Session.outcomes_inStep {R : Session → Session → Prop}
    (h : ∀ {s t}, R s t → ∀ c, InStep R ((execute c).on s) ((execute c).on t))
    (cs : List Command) : ∀ {s t}, R s t →
      s.outcomes cs = t.outcomes cs ∧ R (s.afterAll cs) (t.afterAll cs) := by
  induction cs with
  | nil => exact fun hst => ⟨rfl, hst⟩
  | cons c cs ih =>
      intro s t hst
      obtain ⟨hanswer, hstates⟩ := h hst c
      obtain ⟨hrest, hend⟩ := ih hstates
      refine ⟨?_, hend⟩
      rw [outcomes, outcomes, hanswer]
      exact congrArg (_ :: ·) hrest

end Matching

/-! ## §4. Properties that last. -/

namespace Session

/-- The property outlasts each single change that is ever made to a session. -/
structure Lasting (P : Session → Prop) : Prop where
  push : ∀ {s}, P s → ∀ r, P (s.push r)
  amend : ∀ {s}, P s → ∀ records, P { s with records }
  lend : ∀ {s exclude r pool}, P s → s.pool.borrow exclude = .ok (r, pool) →
    P { s with pool, stats := { s.stats with borrowed := s.stats.borrowed + 1 } }
  takeBack : ∀ {s r pool}, P s → s.pool.release r = .ok pool → P { s with pool }
  annotate : ∀ {s}, P s → ∀ slots,
    P { s with slots, stats := { s.stats with annotated := s.stats.annotated + 1 } }
  setOffset : ∀ {s}, P s → ∀ offset, P { s with offset }
  clear : ∀ {s}, P s → P s.clear

namespace Lasting

variable {P : Session → Prop} {s t : Session}

theorem on_amend (h : Lasting P) (hs : P s) (id : RecordId)
    (change : Record → Except Fault Record) : P ((Session.amend id change).on s).2 := by
  rw [Session.on_amend]
  split
  · exact hs
  · split
    · exact hs
    · exact h.amend hs _

/-- **Every request** leaves a session that still has the property. -/
theorem matches_unit (h : Lasting P) : unit.Matches (fun s t => t = s ∧ P s) unit where
  append := by
    rintro s t ⟨rfl, hs⟩ i
    exact ⟨rfl, rfl, h.push hs (t.stamp i)⟩
  retarget := by
    rintro s t ⟨rfl, hs⟩ id target
    refine ⟨rfl, rfl, ?_⟩
    show P ((retarget id target).on t).2
    rw [on_retarget]
    split
    · exact hs
    · split
      · exact h.amend hs _
      · exact hs
  borrow := by
    rintro s t ⟨rfl, hs⟩ exclude
    refine ⟨rfl, rfl, ?_⟩
    show P ((borrow exclude).on t).2
    rw [on_borrow]
    split
    next hrun => exact h.lend hs hrun
    next => exact hs
  release := by
    rintro s t ⟨rfl, hs⟩ r
    refine ⟨rfl, rfl, ?_⟩
    show P ((release r).on t).2
    rw [on_release]
    split
    next hrun => exact h.takeBack hs hrun
    next => exact hs
  annotate := by
    rintro s t ⟨rfl, hs⟩ id access
    exact ⟨rfl, rfl, h.annotate hs _⟩
  note hst _ := ⟨rfl, hst⟩

/-- **Every command** does, wherever it stops. -/
theorem execute (h : Lasting P) (hst : t = s ∧ P s) (c : Command) :
    InStep (fun s t => t = s ∧ P s) ((execute c).on s) ((execute c).on t) := by
  refine c.inStep h.matches_unit hst fun hdirect => ?_
  obtain ⟨rfl, hs⟩ := hst
  refine ⟨rfl, rfl, ?_⟩
  cases c with
  | appendRecord r => exact h.push hs r
  | setOffset offset => exact h.setOffset hs offset
  | setInert id inert =>
      show P ((Outcome.record <$> Session.amend id (Command.withInert inert)).on t).2
      rw [Effect.on_map]
      exact h.on_amend hs id (Command.withInert inert)
  | lookup id =>
      show P ((Session.execute (.lookup id)).on t).2
      rw [on_execute_lookup]
      exact hs
  | clear => exact h.clear hs
  | request | append | annotate | borrow | release => exact absurd hdirect Bool.false_ne_true

/-- **Every run** does. -/
theorem afterAll (h : Lasting P) (hs : P s) (cs : List Command) : P (s.afterAll cs) :=
  (outcomes_inStep h.execute cs ⟨rfl, hs⟩).2.2

end Lasting

end Session

end TwoAddress
