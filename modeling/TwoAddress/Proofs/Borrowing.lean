/-
  TwoAddress.Proofs.Borrowing
  ───────────────────────────
  **WHAT IS BORROWED IS GIVEN BACK.**

  A synthesizer may need a scratch register for a moment.  It asks its
  compilation unit for one and has to give it back, whatever the unit answers
  and however it goes on.

    • §1 `CodeUnit.traced` writes down every register a unit lends, takes back
      or refuses, and changes nothing else (`traced_faithful`);
    • §2 the `ledger` protocol: at most one register is held at a time, only
      the held one is given back, and nothing is held at the end.  Every
      request follows it;
    • §3 hence the trace of any unit whatever is a sequence of pairs, and a
      fault leaves at most one of them open;
    • §4 hence a session gets every register back, and never refuses one;
    • §5 puts the two together.
-/
import TwoAddress.Proofs.Lockstep
import TwoAddress.Proofs.RegisterSets
import TwoAddress.Transcript

namespace TwoAddress

/-! ## §1. Traces. -/

/-- What happened to a scratch register. -/
inductive ScratchEvent where
  /-- It was lent to a borrower that excluded others. -/
  | lent (exclude : List Reg) (r : Reg)
  /-- It was given back and taken. -/
  | returned (r : Reg)
  /-- It was given back and not taken. -/
  | refused (r : Reg)
  deriving DecidableEq, Repr

/-- Run a computation on the first component of a state. -/
def Effect.beside {σ τ α : Type} (x : Effect σ α) : Effect (σ × τ) α :=
  .of fun s => ((x.on s.1).1, (x.on s.1).2, s.2)

/-- A unit that does what another does, and writes down what happens to scratch
registers, in order. -/
def CodeUnit.traced {σ : Type} (u : CodeUnit σ) : CodeUnit (σ × List ScratchEvent) where
  append i := (u.append i).beside
  retarget id target := (u.retarget id target).beside
  borrow exclude := .of fun s =>
    match (u.borrow exclude).on s.1 with
    | (.ok r, s') => (.ok r, s', s.2 ++ [.lent exclude r])
    | (.error f, s') => (.error f, s', s.2)
  release r := .of fun s =>
    match (u.release r).on s.1 with
    | (.ok a, s') => (.ok a, s', s.2 ++ [.returned r])
    | (.error f, s') => (.error f, s', s.2 ++ [.refused r])
  annotate id access := (u.annotate id access).beside
  note n := (u.note n).beside

/-- What happens to scratch registers while a unit meets a request. -/
def CodeUnit.scratchTrace {σ : Type} (u : CodeUnit σ) (q : Request) (s : σ) : List ScratchEvent :=
  ((q.synthesis.runIn u.traced).on (s, [])).2.2

section Faithful

variable {σ τ α : Type}

/-- What is beside a state has no part in a computation on the state. -/
theorem inStep_beside (x : Effect σ α) {s : σ × τ} {t : σ} (h : s.1 = t) :
    InStep (fun s t => s.1 = t) (x.beside.on s) (x.on t) := by
  subst h
  exact ⟨rfl, rfl⟩

/-- A unit and the one that traces it answer each request alike, and their
states are the same but for the trace. -/
theorem traced_matches (u : CodeUnit σ) : u.traced.Matches (fun s t => s.1 = t) u where
  append h i := inStep_beside (u.append i) h
  retarget h id target := inStep_beside (u.retarget id target) h
  borrow := by
    intro s t h exclude
    subst h
    -- The event depends on the answer; the answer is passed on as it is.
    simp only [CodeUnit.traced, Effect.on_of]
    rcases (u.borrow exclude).on s.1 with ⟨_ | _, _⟩ <;> exact ⟨rfl, rfl⟩
  release := by
    intro s t h r
    subst h
    simp only [CodeUnit.traced, Effect.on_of]
    rcases (u.release r).on s.1 with ⟨_ | _, _⟩ <;> exact ⟨rfl, rfl⟩
  annotate h id access := inStep_beside (u.annotate id access) h
  note h n := inStep_beside (u.note n) h

/-- **Writing the trace changes nothing else.** -/
theorem traced_faithful (u : CodeUnit σ) (x : Synthesis α) (s : σ) (log : List ScratchEvent) :
    InStep (fun s t => s.1 = t) ((x.runIn u.traced).on (s, log)) ((x.runIn u).on s) :=
  (traced_matches u).runIn x rfl

end Faithful

/-! ## §2. The ledger. -/

/-- Rules for scratch registers alone. -/
def Protocol.scratch {τ : Type} (borrow : List Reg → τ → (Reg → τ → Prop) → Prop)
    (release : Reg → τ → (τ → Prop) → Prop) : Protocol τ :=
  { borrow, release }

/-- One register is held at a time, and the one held is the one given back.
The state is the register held. -/
def ledger : Protocol (Option Reg) :=
  .scratch (fun _ held K => held = none ∧ ∀ r, K r (some r))
    fun r held K => held = some r ∧ K none

namespace Synthesis

variable {α τ : Type}

/-- A dialogue without scratch registers keeps to any rules about them. -/
theorem Asks.follows_scratch {borrow : List Reg → τ → (Reg → τ → Prop) → Prop}
    {release : Reg → τ → (τ → Prop) → Prop} {x : Synthesis α} {t : τ} {Q : α → τ → Prop}
    (h : x.Asks Demand.scratchless) (hQ : ∀ a, Q a t) :
    x.Follows (.scratch borrow release) t Q := by
  refine h.follows (fun d hd => ?_) (fun _ => trivial) hQ
  cases d with
  | borrow exclude => exact hd.elim
  | release r => exact hd.elim
  | _ => exact fun K hK => hK

theorem Asks.scratchless {x : Synthesis α} (h : x.Asks (Demand.ordinary False)) :
    x.Asks Demand.scratchless :=
  h.mono fun _ => Demand.scratchless_of_ordinary not_false

section Ledger

variable {Q : RecordId → Option Reg → Prop}

theorem withScratch_ledger {exclude : List Reg} {body : Reg → Synthesis RecordId}
    (hbody : ∀ r, (body r).Asks Demand.scratchless) (hQ : ∀ a, Q a none) :
    (withScratch exclude body).Follows ledger none Q := by
  refine Follows.seq ⟨rfl, fun scratch => ?_⟩
  refine Follows.seq ((hbody scratch).follows_scratch fun a => ?_)
  exact ⟨rfl, hQ a⟩

theorem constant_ledger (dest : Reg) (value : Word) (hQ : ∀ id, Q id none) :
    (constant dest value).Follows ledger none Q := by
  by_cases h : dest.isXmm = false ∨ value = 0
  · exact (asks_constant (.inr h)).scratchless.follows_scratch hQ
  · simp only [not_or, Bool.not_eq_false] at h
    rw [constant_eq_withScratch h.1 h.2]
    refine Follows.seq ((asks_require _ _).follows_scratch fun _ => ?_)
    exact withScratch_ledger (fun r => (asks_viaScratch dest value r).scratchless) hQ

theorem withHighHalf_ledger (lo hi : Reg) (valueHi : Word) (id : RecordId) (hQ : Q id none) :
    (withHighHalf lo hi valueHi id).Follows ledger none Q := by
  unfold withHighHalf
  split
  · exact Follows.seq (constant_ledger hi valueHi fun _ _ _ => hQ)
  · exact hQ

theorem constantPair_ledger (lo hi : Reg) (valueLo valueHi : Word) (hQ : ∀ id, Q id none) :
    (constantPair lo hi valueLo valueHi).Follows ledger none Q := by
  cases hlo : lo.isXmm with
  | true =>
      rw [constantPair_of_xmm hlo]
      refine Follows.seq ((asks_require _ _).follows_scratch fun _ => ?_)
      refine Follows.seq (constant_ledger lo valueLo fun id => ?_)
      exact withHighHalf_ledger lo hi valueHi id (hQ id)
  | false =>
      rw [constantPair_of_gp hlo]
      refine Follows.seq (constant_ledger lo valueLo fun id => ?_)
      exact Follows.seq (constant_ledger hi valueHi fun _ => hQ id)

theorem ternary_ledger (op : Operation) (dest src1 src2 : Reg) (hQ : ∀ id, Q id none) :
    (ternary op dest src1 src2).Follows ledger none Q := by
  rcases ternary_cases op dest src1 src2 with h | h
  · exact h.scratchless.follows_scratch hQ
  · rw [h, throughScratch_eq_withScratch]
    exact withScratch_ledger (fun r => (asks_inScratch op dest src1 src2 r).scratchless) hQ

end Ledger

end Synthesis

/-- **Every request keeps to the ledger**: it holds nothing when it finishes. -/
theorem Request.follows_ledger (q : Request) :
    q.synthesis.Follows ledger none fun _ held => held = none := by
  cases q with
  | constant dest value =>
      exact Synthesis.Follows.seq (Synthesis.constant_ledger dest value fun _ => rfl)
  | constantPair lo hi valueLo valueHi =>
      exact Synthesis.Follows.seq
        (Synthesis.constantPair_ledger lo hi valueLo valueHi fun _ => rfl)
  | ternary op dest src1 src2 =>
      exact Synthesis.Follows.seq (Synthesis.ternary_ledger op dest src1 src2 fun _ => rfl)
  | _ => exact (asks_scratchless rfl).follows_scratch fun _ => rfl

/-! ## §3. Traces of any unit. -/

/-- A trace in which every register lent is given back, once, before another
is lent. -/
inductive Settled : List ScratchEvent → Prop where
  | nil : Settled []
  | pair {log : List ScratchEvent} (exclude : List Reg) (r : Reg) (settled : Settled log) :
      Settled (log ++ [.lent exclude r, .returned r])

/-- The registers that a trace leaves out, the last one lent first. -/
def unreleased (log : List ScratchEvent) : List Reg := log.foldl settle []
where
  /-- What one event does to the registers that are out. -/
  settle (out : List Reg) : ScratchEvent → List Reg
    | .lent _ r => r :: out
    | .returned r => out.erase r
    | .refused _ => out

/-- The trace of a borrower that holds the given register: settled, but for
the loan of that register at its end. -/
def Holding : Option Reg → List ScratchEvent → Prop
  | none, log => Settled log
  | some r, log => ∃ before exclude, log = before ++ [.lent exclude r] ∧ Settled before

theorem unreleased_append (log rest : List ScratchEvent) :
    unreleased (log ++ rest) = rest.foldl unreleased.settle (unreleased log) :=
  List.foldl_append

theorem Settled.unreleased_eq {log : List ScratchEvent} (h : Settled log) :
    unreleased log = [] := by
  induction h with
  | nil => rfl
  | pair exclude r _ ih =>
      rw [unreleased_append, ih]
      simp [unreleased.settle]

/-- What is held is what is out. -/
theorem Holding.unreleased_eq {held : Option Reg} {log : List ScratchEvent}
    (h : Holding held log) : unreleased log = held.toList := by
  cases held with
  | none => exact Settled.unreleased_eq h
  | some r =>
      obtain ⟨before, exclude, rfl, hbefore⟩ := h
      rw [unreleased_append, hbefore.unreleased_eq]
      rfl

/-- At most one register is out. -/
def OneOut (log : List ScratchEvent) : Prop := (unreleased log).length ≤ 1

theorem Holding.oneOut {held : Option Reg} {log : List ScratchEvent} (h : Holding held log) :
    OneOut log := by
  rw [OneOut, h.unreleased_eq]
  cases held <;> simp

/-- A request that is not about scratch registers leaves the trace alone. -/
theorem met_beside {σ τ α : Type} (rel : τ → List ScratchEvent → Prop)
    (left : List ScratchEvent → Prop) {x : Effect σ α} {t : τ} {s : σ × List ScratchEvent}
    {K : α → τ → Prop} (hrel : rel t s.2) (hleft : left s.2) (hK : ∀ a, K a t) :
    Met (fun t s => rel t s.2) (fun s => left s.2) K (x.beside.on s) := by
  simp only [Effect.beside, Effect.on_of]
  rcases x.on s.1 with ⟨_ | a, s'⟩
  · exact hleft
  · exact ⟨t, hrel, hK a⟩

/-- **The ledger holds in every unit**, whatever it lends and wherever it
faults: the trace shows what is held, and a fault leaves at most one register
out. -/
theorem ledger_keeps {σ : Type} (u : CodeUnit σ) :
    ledger.Keeps u.traced (fun held s => Holding held s.2) fun s => OneOut s.2 where
  append hheld hK := met_beside Holding OneOut hheld hheld.oneOut hK
  retarget hheld hK := met_beside Holding OneOut hheld hheld.oneOut fun _ => hK
  borrow {exclude held s K} hheld hK := by
    obtain ⟨rfl, hK⟩ := hK
    simp only [CodeUnit.traced, Effect.on_of]
    rcases (u.borrow exclude).on s.1 with ⟨_ | r, s'⟩
    · exact hheld.oneOut
    · exact ⟨some r, ⟨s.2, exclude, rfl, hheld⟩, hK r⟩
  release {r held s K} hheld hK := by
    obtain ⟨rfl, hK⟩ := hK
    obtain ⟨before, exclude, hlog, hbefore⟩ := hheld
    simp only [CodeUnit.traced, Effect.on_of]
    rcases (u.release r).on s.1 with ⟨_ | _, s'⟩
    · -- A register that is refused stays out, and no other is.
      show OneOut (s.2 ++ [.refused r])
      rw [OneOut, hlog, unreleased_append, unreleased_append, hbefore.unreleased_eq]
      exact Nat.le_refl 1
    · refine ⟨none, ?_, hK⟩
      show Settled (s.2 ++ [.returned r])
      rw [hlog, List.append_assoc]
      exact hbefore.pair exclude r
  annotate hheld hK := met_beside Holding OneOut hheld hheld.oneOut fun _ => hK
  note hheld hK := met_beside Holding OneOut hheld hheld.oneOut fun _ => hK
  stop hheld _ := hheld.oneOut

/-- A call that returns settles its trace, and one that does not leaves at most
one register out. -/
theorem scratchTrace_settled {σ : Type} (u : CodeUnit σ) (q : Request) (s : σ) :
    ((∃ reply, ((q.synthesis.runIn u).on s).1 = .ok reply) → Settled (u.scratchTrace q s)) ∧
      (unreleased (u.scratchTrace q s)).length ≤ 1 := by
  -- The ledger is about the traced unit, the answer about the unit itself.
  have hmet := q.follows_ledger.met (ledger_keeps u) (t := none) (s := (s, [])) Settled.nil
  have hsame := (traced_faithful u q.synthesis s []).1
  unfold CodeUnit.scratchTrace
  rcases hrun : (q.synthesis.runIn u.traced).on (s, []) with ⟨f | a, s', log⟩ <;>
    rw [hrun] at hmet hsame
  · refine ⟨?_, hmet⟩
    rintro ⟨reply, hreply⟩
    rw [← hsame] at hreply
    exact absurd hreply (by simp)
  · obtain ⟨held, hheld, rfl⟩ := hmet
    exact ⟨fun _ => hheld, hheld.oneOut⟩

/-! ## §4. Sessions. -/

/-- The pool of a borrower that holds a register, beside the pool it found:
the register was free to lend, and is now lent in addition. -/
def HeldFrom (found : ScratchPool) : Option Reg → ScratchPool → Prop
  | none, p => p.lendable = found.lendable ∧ p.lent = found.lent
  | some r, p =>
      p.lendable = found.lendable ∧
        ∃ g, r = .gp g ∧ found.lendable.contains (.gp g) = true ∧
          found.lent.contains (.gp g) = false ∧ p.lent = found.lent.insert (.gp g)

/-- The session's pool is as the ledger has it, and no register was refused. -/
def SessionHolds (found : ScratchPool) (held : Option Reg)
    (s : Session × List ScratchEvent) : Prop :=
  HeldFrom found held s.1.pool ∧ ∀ r, .refused r ∉ s.2

/-- A request that leaves the session's pool alone keeps what is held. -/
theorem met_beside_pool {α : Type} {x : Effect Session α} {found : ScratchPool}
    {held : Option Reg} {s : Session × List ScratchEvent} {K : α → Option Reg → Prop}
    (hpool : (x.on s.1).2.pool = s.1.pool) (hheld : SessionHolds found held s)
    (hK : ∀ a, K a held) :
    Met (SessionHolds found) (fun s => ∀ r, .refused r ∉ s.2) K (x.beside.on s) := by
  simp only [Effect.beside, Effect.on_of]
  rcases hrun : x.on s.1 with ⟨_ | a, s'⟩ <;> rw [hrun] at hpool
  · exact hheld.2
  · refine ⟨held, ⟨?_, hheld.2⟩, hK a⟩
    show HeldFrom found held s'.pool
    rw [hpool]
    exact hheld.1

theorem Session.pool_retarget (id : RecordId) (target : Option RecordId) (s : Session) :
    ((retarget id target).on s).2.pool = s.pool := by
  rw [on_retarget]
  split
  · rfl
  · split <;> rfl

/-- **A session takes back every register that the ledger gives back.** -/
theorem ledger_keeps_session (found : ScratchPool) :
    ledger.Keeps Session.unit.traced (SessionHolds found) fun s => ∀ r, .refused r ∉ s.2 where
  append hheld hK := met_beside_pool rfl hheld hK
  retarget hheld hK := met_beside_pool (Session.pool_retarget _ _ _) hheld fun _ => hK
  borrow {exclude held s K} hheld hK := by
    obtain ⟨rfl, hK⟩ := hK
    obtain ⟨⟨hlend, hlent⟩, hlog⟩ := hheld
    simp only [CodeUnit.traced, Effect.on_of, Session.unit, Session.on_borrow]
    rcases hrun : s.1.pool.borrow (.ofList exclude) with e | ⟨g, p⟩
    · exact hlog
    · obtain ⟨hin, hfree, -⟩ := ScratchPool.eligible_iff.mp (ScratchPool.eligible_of_borrow hrun)
      obtain ⟨-, rfl⟩ := ScratchPool.borrow_eq_ok.mp hrun
      rw [hlend] at hin
      rw [hlent] at hfree
      refine ⟨some (.gp g), ⟨⟨hlend, g, rfl, hin, hfree, ?_⟩, ?_⟩, hK (.gp g)⟩
      · exact congrArg (RegSet.insert · (.gp g)) hlent
      · simpa using hlog
  release {r held s K} hheld hK := by
    obtain ⟨rfl, hK⟩ := hK
    obtain ⟨⟨hlend, g, rfl, hin, hfree, hlent⟩, hlog⟩ := hheld
    -- The register is lendable and lent, so the pool takes it.
    have hout : s.1.pool.lent.contains (.gp g) = true := by rw [hlent]; simp
    simp only [CodeUnit.traced, Effect.on_of, Session.unit, Session.on_release,
      ScratchPool.release_eq_ok (hlend ▸ hin) hout]
    refine ⟨none, ⟨⟨hlend, ?_⟩, by simpa using hlog⟩, hK⟩
    show s.1.pool.lent.erase (.gp g) = found.lent
    rw [hlent, RegSet.erase_insert hfree]
  annotate hheld hK := met_beside_pool rfl hheld fun _ => hK
  note hheld hK := met_beside_pool rfl hheld fun _ => hK
  stop hheld _ := hheld.2

/-- On a session no release is refused, and a call that returns leaves lent
what was lent before it. -/
theorem session_releases (s : Session) (q : Request) :
    (∀ r, .refused r ∉ Session.unit.scratchTrace q s) ∧
      ((∃ reply, (s.meet q).1 = .ok reply) → (s.meet q).2.pool.lent = s.pool.lent) := by
  have hmet := q.follows_ledger.met (ledger_keeps_session s.pool) (t := none) (s := (s, []))
    ⟨⟨rfl, rfl⟩, fun _ h => nomatch h⟩
  obtain ⟨hres, hstate⟩ := traced_faithful Session.unit q.synthesis s []
  unfold CodeUnit.scratchTrace Session.meet
  rw [← hres, ← hstate]
  rcases hrun : (q.synthesis.runIn Session.unit.traced).on (s, []) with ⟨f | a, s', log⟩ <;>
    rw [hrun] at hmet
  · refine ⟨hmet, ?_⟩
    rintro ⟨reply, hreply⟩
    exact absurd hreply (by simp)
  · obtain ⟨held, hheld, rfl⟩ := hmet
    exact ⟨hheld.2, fun _ => hheld.1.2⟩

/-- Over a run that returns throughout, the same registers are lent after each
request. -/
theorem lent_afterRequests {s : Session} {qs : List Request} (hreturns : s.Returns qs) (n : Nat) :
    (s.afterRequests (qs.take n)).pool.lent = s.pool.lent := by
  induction qs generalizing s n with
  | nil => simp
  | cons q qs ih =>
      cases n with
      | zero => rfl
      | succ n =>
          obtain ⟨hq, hrest⟩ := Session.returns_cons.mp hreturns
          rw [List.take_succ_cons, Session.afterRequests_cons, ih hrest n]
          exact (session_releases s q).2 hq

/-! ## §5. Balance. -/

/-- **SCRATCH BORROWS ARE BALANCED.**  In any compilation unit, a request that
returns leaves a trace in which each register lent is given back before
another is lent, and one that faults leaves at most one register out.  On a
session, no release ever fails, and over a run of requests that return the
same registers are lent after each as before the first. -/
theorem scratch_borrows_balanced :
    (∀ (σ : Type) (u : CodeUnit σ) (q : Request) (s : σ),
      ((∃ reply, ((q.synthesis.runIn u).on s).1 = .ok reply) → Settled (u.scratchTrace q s)) ∧
        ((∃ f, ((q.synthesis.runIn u).on s).1 = .error f) →
          (unreleased (u.scratchTrace q s)).length ≤ 1)) ∧
    (∀ (s : Session) (q : Request) (r : Reg), .refused r ∉ Session.unit.scratchTrace q s) ∧
    (∀ (s : Session) (qs : List Request), s.Returns qs →
      ∀ n, (s.afterRequests (qs.take n)).pool.lent = s.pool.lent) := by
  refine ⟨fun σ u q s => ?_, fun s q => (session_releases s q).1, fun s qs h n => ?_⟩
  · have h := scratchTrace_settled u q s
    exact ⟨h.1, fun _ => h.2⟩
  · exact lent_afterRequests h n

/-- The shift `ecx = eax >> ecx` needs a scratch register.  A unit that lends
`edi` gets it back; one that lends `ecx`, which was excluded, does not; and a
session lends and takes back any number of times. -/
theorem shift_borrows_balanced :
    (((Request.ternary .asr (.gp .ecx) (.gp .eax) (.gp .ecx)).synthesis.runIn Transcript.unit).on
        { script := [.gp .edi], offset := 0 }).1 = .ok (.appended ⟨2⟩) ∧
    Settled (Transcript.unit.scratchTrace (.ternary .asr (.gp .ecx) (.gp .eax) (.gp .ecx))
      { script := [.gp .edi], offset := 0 }) ∧
    (((Request.ternary .asr (.gp .ecx) (.gp .eax) (.gp .ecx)).synthesis.runIn Transcript.unit).on
        { script := [.gp .ecx], offset := 0 }).1 = .error (.scratchAliases (.gp .ecx)) ∧
    (unreleased (Transcript.unit.scratchTrace (.ternary .asr (.gp .ecx) (.gp .eax) (.gp .ecx))
      { script := [.gp .ecx], offset := 0 })).length ≤ 1 ∧
    (Session.new [.gp .esi, .gp .edi]).Returns
      (.replicate 3 (.ternary .asr (.gp .ecx) (.gp .eax) (.gp .ecx))) ∧
    ∀ n, ((Session.new [.gp .esi, .gp .edi]).afterRequests
      ((List.replicate 3 (.ternary .asr (.gp .ecx) (.gp .eax) (.gp .ecx))).take n)).pool.lent =
        .empty := by
  obtain ⟨hunit, -, hsession⟩ := scratch_borrows_balanced
  refine ⟨rfl, ?_, rfl, ?_, by decide, ?_⟩
  · exact (hunit Transcript Transcript.unit _ _).1 ⟨.appended ⟨2⟩, rfl⟩
  · exact (hunit Transcript Transcript.unit _ _).2 ⟨.scratchAliases (.gp .ecx), rfl⟩
  · exact hsession _ _ (by decide)

end TwoAddress
