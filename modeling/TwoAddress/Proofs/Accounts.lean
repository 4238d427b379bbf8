/-
  TwoAddress.Proofs.Accounts
  ──────────────────────────
  **THE STATISTICS DESCRIBE THE STREAM.**

  A session counts as it goes: a counter is raised where something is done.
  So long as nothing that was done is revised, the counters can be read off
  the session itself, also after commands that stopped half way.  The count of
  notes is that of the noted positions, so with handles of 32 bits it is right
  for streams of at most 2³² records.

    • §1 what happens to scratch registers in a run of commands;
    • §2 the accounts: what the counters say about stream and pool, and what
      each single request does to both;
    • §3 commands that add to a session without revising it, and the slots
      they note;
    • §4 opcodes by their names;
    • §5 whole runs (`statistics_describe_stream`).
-/
import TwoAddress.Proofs.Borrowing
import TwoAddress.Proofs.FrameNotes
import TwoAddress.Proofs.Lending
import TwoAddress.Proofs.Lockstep
import TwoAddress.Proofs.Tallies

namespace TwoAddress

/-! ## §1. Scratch registers in a run. -/

/-- A register was taken back. -/
def ScratchEvent.isReturned : ScratchEvent → Bool
  | returned _ => true
  | _ => false

namespace Session

/-- A session, beside the trace of its scratch registers. -/
def tracedUnit : SessionUnit (Session × List ScratchEvent) :=
  { unit.traced with
    appendRecord := fun r => (appendRecord r).beside
    direct := Effect.beside }

/-- What happens to scratch registers while a command is executed. -/
def scratchEvents (s : Session) (c : Command) : List ScratchEvent :=
  ((c.runIn tracedUnit).on (s, [])).2.2

/-- How many registers are taken back in a run, by requests or by commands. -/
def releases : Session → List Command → Nat
  | _, [] => 0
  | s, c :: cs => (s.scratchEvents c).countP ScratchEvent.isReturned + (s.after c).releases cs

/-! ## §2. Accounts. -/

/-- The counters agree with the stream and the pool, of which so many registers
were taken back. -/
structure Accounts (returned : Nat) (s : Session) : Prop where
  emitted : s.stats.emitted = s.records.length
  opcodes : s.stats.opcodes.Counts (s.records.map fun r => r.opcode.name)
  inert : s.stats.inert = s.records.countP fun r => r.inert
  borrowed : s.stats.borrowed = s.pool.borrows
  borrows : s.pool.borrows = s.pool.outstanding + returned

variable {n : Nat} {s t : Session}

theorem accounts_new (scratch : List Reg) : (new scratch).Accounts 0 where
  emitted := rfl
  opcodes := Tally.counts_nil
  inert := rfl
  borrowed := rfl
  borrows := by
    show 0 = RegSet.empty.size + 0
    decide

/-- A record more is counted under its opcode, and as inert if it is. -/
theorem Accounts.push (h : s.Accounts n) (r : Record) : (s.push r).Accounts n where
  emitted := by
    show s.stats.emitted + 1 = (s.records ++ [r]).length
    rw [h.emitted, List.length_append]
    rfl
  opcodes := by
    show (s.stats.opcodes.bump r.opcode.name).Counts ((s.records ++ [r]).map _)
    rw [List.map_append]
    exact h.opcodes.bump r.opcode.name
  inert := by
    show s.stats.inert + r.inert.toNat = (s.records ++ [r]).countP _
    rw [h.inert, List.countP_append, List.countP_singleton]
    cases r.inert <;> rfl
  borrowed := h.borrowed
  borrows := h.borrows

/-- The accounts do not look at the targets of records. -/
theorem Accounts.of_untargeted (h : s.Accounts n)
    (hrecords : t.records.map Record.untargeted = s.records.map Record.untargeted)
    (hpool : t.pool = s.pool) (hstats : t.stats = s.stats) : t.Accounts n := by
  -- Length, names and inert flags are read off the records without their targets.
  have hlength : t.records.length = s.records.length := by
    simpa using congrArg List.length hrecords
  have hnames : (t.records.map fun r => r.opcode.name) = s.records.map fun r => r.opcode.name := by
    have hmap := congrArg (List.map fun r => r.opcode.name) hrecords
    rw [List.map_map, List.map_map] at hmap
    exact hmap
  have hinert : (t.records.countP fun r => r.inert) = s.records.countP fun r => r.inert := by
    have hcount := congrArg (List.countP fun r => r.inert) hrecords
    rw [List.countP_map, List.countP_map] at hcount
    exact hcount
  constructor
  · rw [hstats, hlength, h.emitted]
  · rw [hstats, hnames]
    exact h.opcodes
  · rw [hstats, hinert, h.inert]
  · rw [hstats, hpool, h.borrowed]
  · rw [hpool, h.borrows]

/-- Pointing a branch elsewhere changes its target at most. -/
theorem Accounts.retarget (h : s.Accounts n) (id : RecordId) (target : Option RecordId) :
    Accounts n ((retarget id target).on s).2 := by
  rw [on_retarget]
  split
  · exact h
  next r hr =>
    split
    · have hsame : Record.untargeted { r with target } = r.untargeted := rfl
      exact h.of_untargeted (map_untargeted_set hr hsame) rfl rfl
    · exact h

/-- A register lent is one more borrowed and one more outstanding. -/
theorem Accounts.lend (h : s.Accounts n) {exclude : RegSet} {r : GpReg} {pool : ScratchPool}
    (hrun : s.pool.borrow exclude = .ok (r, pool)) :
    Accounts n { s with pool, stats := { s.stats with borrowed := s.stats.borrowed + 1 } } := by
  have hout := (ScratchPool.eligible_iff.mp (ScratchPool.eligible_of_borrow hrun)).2.1
  obtain ⟨-, rfl⟩ := ScratchPool.borrow_eq_ok.mp hrun
  refine ⟨h.emitted, h.opcodes, h.inert, congrArg (· + 1) h.borrowed, ?_⟩
  show s.pool.borrows + 1 = (s.pool.lent.insert (.gp r)).size + n
  rw [RegSet.size_insert hout, h.borrows, ScratchPool.outstanding]
  omega

/-- A register taken back is one less outstanding and one more returned. -/
theorem Accounts.takeBack (h : s.Accounts n) {r : Reg} {pool : ScratchPool}
    (hrun : s.pool.release r = .ok pool) : Accounts (n + 1) { s with pool } := by
  obtain ⟨g, rfl, hlent, rfl⟩ := ScratchPool.exists_of_release hrun
  refine ⟨h.emitted, h.opcodes, h.inert, h.borrowed, ?_⟩
  have hsize := RegSet.size_erase (RegSet.mem_toFinset.mp hlent)
  have hborrows := h.borrows
  show s.pool.borrows = (s.pool.lent.erase (.gp g)).size + (n + 1)
  rw [ScratchPool.outstanding] at hborrows
  omega

/-- A traced session in order: it is the session itself, and its trace shows
what was taken back since `n` registers had been. -/
def InOrder (n : Nat) (o : Session × List ScratchEvent) (t : Session) : Prop :=
  o.1 = t ∧ t.Accounts (n + o.2.countP ScratchEvent.isReturned)

/-- A request that is not about scratch registers keeps the trace. -/
theorem inOrder_beside {α : Type} {x : Effect Session α} {log : List ScratchEvent}
    (h : Accounts (n + log.countP ScratchEvent.isReturned) (x.on s).2) :
    InStep (InOrder n) (x.beside.on (s, log)) (x.on s) :=
  ⟨rfl, rfl, h⟩

/-- **Every request** keeps the accounts. -/
theorem inOrder_matches (n : Nat) : unit.traced.Matches (InOrder n) unit where
  append := by
    rintro ⟨s, log⟩ t ⟨rfl, h⟩ i
    exact inOrder_beside (h.push (s.stamp i))
  retarget := by
    rintro ⟨s, log⟩ t ⟨rfl, h⟩ id target
    exact inOrder_beside (h.retarget id target)
  borrow := by
    rintro ⟨s, log⟩ t ⟨rfl, h⟩ exclude
    simp only [CodeUnit.traced, Effect.on_of, unit, on_borrow]
    cases hrun : s.pool.borrow (.ofList exclude) with
    | error e => exact ⟨rfl, rfl, h⟩
    | ok found =>
        obtain ⟨r, pool⟩ := found
        refine ⟨rfl, rfl, ?_⟩
        simpa [ScratchEvent.isReturned] using h.lend hrun
  release := by
    rintro ⟨s, log⟩ t ⟨rfl, h⟩ r
    simp only [CodeUnit.traced, Effect.on_of, unit, on_release]
    cases hrun : s.pool.release r with
    | error e =>
        refine ⟨rfl, rfl, ?_⟩
        simpa [ScratchEvent.isReturned] using h
    | ok pool =>
        refine ⟨rfl, rfl, ?_⟩
        simpa [ScratchEvent.isReturned, Nat.add_assoc] using h.takeBack hrun
  annotate := by
    rintro ⟨s, log⟩ t ⟨rfl, h⟩ id access
    exact inOrder_beside ⟨h.emitted, h.opcodes, h.inert, h.borrowed, h.borrows⟩
  note := by
    rintro ⟨s, log⟩ t ⟨rfl, h⟩ note
    exact inOrder_beside h

end Session

/-! ## §3. Commands. -/

/-- The command revises what was done: it changes the inert flag or the note
of a record, or starts a new method. -/
def Command.isRevision : Command → Bool
  | setInert _ _ | annotate _ _ | clear => true
  | _ => false

namespace Session

variable {n : Nat} {s : Session} {c : Command}

/-- **Every command** that revises nothing keeps the accounts, wherever it
stops. -/
theorem Accounts.after (h : s.Accounts n) (hc : c.isRevision = false) :
    (s.after c).Accounts (n + (s.scratchEvents c).countP ScratchEvent.isReturned) := by
  have hstep : InStep (InOrder n) ((c.runIn tracedUnit).on (s, [])) ((execute c).on s) := by
    refine c.inStep (inOrder_matches n) ⟨rfl, h⟩ fun hdirect => ?_
    -- Of the commands that no unit alone can meet, three revise nothing.
    cases c with
    | appendRecord r => exact ⟨rfl, rfl, h.push r⟩
    | setOffset offset => exact ⟨rfl, rfl, h.of_untargeted rfl rfl rfl⟩
    | lookup id =>
        refine inOrder_beside (x := execute (.lookup id)) ?_
        rw [on_execute_lookup]
        exact h
    | setInert | clear => exact absurd hc.symm Bool.false_ne_true
    | request | append | annotate | borrow | release => exact absurd hdirect Bool.false_ne_true
  exact hstep.2.2

theorem Tallied.push (h : s.Tallied) (r : Record) : (s.push r).Tallied where
  trim k hk := by
    have hlength : (s.push r).records.length = s.records.length + 1 := List.length_append
    exact h.trim k (by omega)
  once := h.once

/-- **Notes stay counted** by every command that revises nothing: those of
requests are new, and nothing else makes one. -/
theorem Tallied.after (h : s.Tallied) (hc : c.isRevision = false) : (s.after c).Tallied := by
  cases c with
  | request q =>
      rw [after_request]
      exact h.meet q
  | append op operands inert target =>
      rw [Session.after, on_execute_append]
      cases Instruction.build op operands with
      | error f => exact h
      | ok i => exact h.push _
  | appendRecord r => exact h.push r
  | setOffset offset => exact ⟨h.trim, h.once⟩
  | lookup id =>
      rw [Session.after, on_execute_lookup]
      exact h
  | borrow exclude =>
      show ((Outcome.lent <$> Session.borrow exclude).on s).2.Tallied
      rw [Effect.on_map, on_borrow]
      split <;> exact ⟨h.trim, h.once⟩
  | release r =>
      show ((Session.release r >>= fun _ => pure (Outcome.reply .done)).on s).2.Tallied
      rw [Effect.on_bind, on_release]
      cases s.pool.release r <;> exact ⟨h.trim, h.once⟩
  | setInert | annotate | clear => exact absurd hc.symm Bool.false_ne_true

/-- **Runs**, by induction on their commands. -/
theorem accounts_afterAll (cs : List Command) (hcs : ∀ c ∈ cs, c.isRevision = false) :
    ∀ {s : Session} {n : Nat}, s.Accounts n → s.Tallied →
      (s.afterAll cs).Accounts (n + s.releases cs) ∧ (s.afterAll cs).Tallied := by
  induction cs with
  | nil => exact fun h htallied => ⟨h, htallied⟩
  | cons c cs ih =>
      intro s n h htallied
      obtain ⟨hc, hrest⟩ := List.forall_mem_cons.mp hcs
      -- What the first command took back counts as taken back before the rest.
      rw [releases, ← Nat.add_assoc]
      exact ih hrest (h.after hc) (htallied.after hc)

end Session

/-! ## §4. Names of opcodes. -/

namespace Opcode

theorem mem_all (op : Opcode) : op ∈ all := by
  cases op <;> decide

/-- No two opcodes share a name. -/
theorem name_inj {a b : Opcode} (h : a.name = b.name) : a = b := by
  have hnodup : (all.map name).Nodup := by decide +kernel
  exact List.inj_on_of_nodup_map hnodup (mem_all a) (mem_all b) h

/-- Counting a name among names is counting the opcode among records. -/
theorem count_name (op : Opcode) (records : List Record) :
    (records.map fun r => r.opcode.name).count op.name =
      records.countP fun r => decide (r.opcode = op) := by
  rw [List.count, List.countP_map]
  refine List.countP_congr fun r _ => ?_
  rw [Function.comp_apply, beq_iff_eq, decide_eq_true_iff]
  exact ⟨name_inj, congrArg name⟩

end Opcode

/-! ## §5. Runs. -/

/-- The statistics of a session are those of its stream, its notes and its
pool, of which so many registers were taken back. -/
structure Session.Described (returned : Nat) (s : Session) : Prop where
  emitted : s.stats.emitted = s.records.length
  /-- An opcode is counted under its name, if it was appended at all. -/
  opcodes : ∀ op : Opcode, s.stats.opcodes.count? op.name =
    if s.records.countP (fun r => decide (r.opcode = op)) = 0 then none
    else some (s.records.countP fun r => decide (r.opcode = op))
  /-- Nothing else is counted. -/
  total : s.stats.opcodes.total = s.stats.emitted
  inert : s.stats.inert = s.records.countP fun r => r.inert
  annotated : s.stats.annotated = s.slots.size
  borrowed : s.stats.borrowed = s.pool.borrows
  returned : s.pool.borrows = s.pool.outstanding + returned

/-- **THE STATISTICS DESCRIBE THE STREAM.**  After any run from a fresh session
that revises nothing, with commands that stop half way among the others, each
counter is what can be counted in the session itself, and the registers lent
so far are those outstanding and those taken back. -/
theorem statistics_describe_stream (scratch : List Reg) (cs : List Command)
    (hcs : ∀ c ∈ cs, c.isRevision = false) :
    ((Session.new scratch).afterAll cs).Described ((Session.new scratch).releases cs) := by
  obtain ⟨haccounts, htallied⟩ :=
    Session.accounts_afterAll cs hcs (Session.accounts_new scratch) (Session.tallied_new scratch)
  rw [Nat.zero_add] at haccounts
  constructor
  · exact haccounts.emitted
  · intro op
    rw [haccounts.opcodes.count?, Opcode.count_name]
  · rw [haccounts.opcodes.total, List.length_map, haccounts.emitted]
  · exact haccounts.inert
  · exact htallied.once
  · exact haccounts.borrowed
  · exact haccounts.borrows

/-- A shift through a scratch register, an inert copy, a 64-bit store to the
frame, and the shift once more while the only scratch register is lent. -/
def Session.sampleRun : List Command :=
  [.request (.ternary .asr (.gp .ecx) (.gp .eax) (.gp .ecx)),
   .append .mov32RR [.reg (.gp .eax), .reg (.gp .eax)] true none,
   .request (.transfer (.wide .store .stackPointer 8 (.gp .eax) (.gp .edx))),
   .borrow [],
   .request (.ternary .asr (.gp .ecx) (.gp .eax) (.gp .ecx)),
   .release (.gp .esi)]

/-- The second shift stops with nothing appended, and the statistics still
describe the session: of its six records one is inert and two are noted, both
loans were given back, and the copies of the first shift and the inert one
are counted together. -/
theorem statistics_describe_sample :
    (∀ c ∈ Session.sampleRun, c.isRevision = false) ∧
      ((Session.new [.gp .esi]).outcomes Session.sampleRun).map Except.isOk =
        [true, true, true, true, false, true] ∧
      ((Session.new [.gp .esi]).afterAll Session.sampleRun).stats =
        { emitted := 6, inert := 1, borrowed := 2, annotated := 2,
          opcodes := ⟨[("Mov32RR", 3), ("Sar32RC", 1), ("Mov32MR", 2)]⟩ } ∧
      ((Session.new [.gp .esi]).afterAll Session.sampleRun).Described 2 := by
  have hplain : ∀ c ∈ Session.sampleRun, c.isRevision = false := by decide
  have hreleases : (Session.new [.gp .esi]).releases Session.sampleRun = 2 := by decide +kernel
  refine ⟨hplain, by decide +kernel, by decide +kernel, ?_⟩
  rw [← hreleases]
  exact statistics_describe_stream [.gp .esi] Session.sampleRun hplain

end TwoAddress
