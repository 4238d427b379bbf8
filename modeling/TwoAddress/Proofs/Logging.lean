/-
  TwoAddress.Proofs.Logging
  ─────────────────────────
  **THE LOG CHANGES NOTHING.**

  A logged session renders a record before it appends it, and a remark before
  it goes on.  Rendering can fail: an index has no factor past a scale of 31,
  and a remark shows no address past a scale of 7.  A failure would end the
  request then and there, and the log would have changed what the session
  does.  It never comes to that:

    • §1 what can be rendered, and that well-formed instructions can;
    • §2 whatever a request asks for can be rendered;
    • §3 so a logged and a plain session answer alike, request by request;
    • §4 hence whole runs of commands (`log_changes_nothing`).
-/
import TwoAddress.Proofs.Lockstep
import TwoAddress.Proofs.Supply
import TwoAddress.Proofs.WellFormed

namespace TwoAddress

/-! ## §1. What can be rendered. -/

/-- There is a text for what a log line about the request would show. -/
def Demand.Renders : Demand → Prop
  | append i => ∃ text, i.render = .ok text
  | note n => ∃ text, n.render = .ok text
  | retarget _ _ | borrow _ | release _ | annotate _ _ => True

namespace Instruction

theorem exists_factorText {scale : Word} (h : scale.Within 0 3) :
    ∃ text, factorText scale = .ok text := by
  have hlt : scale.toNat < 32 := by
    obtain ⟨hlow, hhigh⟩ := h
    rw [BitVec.toInt_eq_toNat_cond] at hlow hhigh
    split at hhigh <;> omega
  exact ⟨_, if_pos hlt⟩

theorem exists_arrayText (base index : Reg) {scale : Word} (h : scale.Within 0 3) (disp : Word) :
    ∃ text, arrayText base index scale disp = .ok text := by
  obtain ⟨factor, hfactor⟩ := exists_factorText h
  unfold arrayText
  split
  · exact ⟨_, rfl⟩
  · rw [hfactor]
    exact ⟨_, rfl⟩

/-- Only a scale can stand in the way. -/
theorem exists_operandText {i : Instruction} (h : i.AddressFits) :
    ∃ text, i.operandText = .ok text := by
  unfold AddressFits at h
  unfold operandText
  cases hform : i.opcode.form with
  | ra =>
      rw [hform] at h
      obtain ⟨text, htext⟩ := exists_arrayText (i.regAt 1) (i.regAt 2) h.1 (i.immAt 4)
      simp only [htext]
      exact ⟨_, rfl⟩
  | ar =>
      rw [hform] at h
      obtain ⟨text, htext⟩ := exists_arrayText (i.regAt 0) (i.regAt 1) h.1 (i.immAt 3)
      simp only [htext]
      exact ⟨_, rfl⟩
  | _ => exact ⟨_, rfl⟩

theorem exists_render {i : Instruction} (h : i.AddressFits) : ∃ text, i.render = .ok text := by
  obtain ⟨operands, hoperands⟩ := exists_operandText h
  rw [render, hoperands]
  exact ⟨_, rfl⟩

end Instruction

theorem Address.exists_render {a : Address} (h : a.scale ≤ 3) : ∃ text, a.render = .ok text := by
  unfold render
  split
  · have hlt : a.scale < 8 := UInt8.lt_of_le_of_lt h (by decide)
    exact ⟨_, if_pos hlt⟩
  · exact ⟨_, rfl⟩

theorem Note.Plain.exists_render {n : Note} (h : n.Plain) : ∃ text, n.render = .ok text := by
  cases n with
  | highHalfFirst a => exact h.elim
  | _ => exact ⟨_, rfl⟩

/-! ## §2. Requests. -/

/-- The supply of all registers. -/
def Supply.all : Supply where
  held _ := True
  worked _ := True
  held_of_worked _ := trivial

theorem Request.drawsOn_all (q : Request) : q.DrawsOn Supply.all := by
  cases q <;> simp [DrawsOn, Supply.all, Supply.Takes]

/-- The remark asked for, if the request is for one, can be rendered. -/
def Demand.remarks : Demand → Prop
  | note n => ∃ text, n.render = .ok text
  | _ => True

/-- Only a transfer shows an address, and only one that it has checked. -/
theorem Request.asks_remarks (q : Request) : q.synthesis.Asks Demand.remarks := by
  cases hdata : q.movesData with
  | false =>
      refine (follows_supply hdata q.drawsOn_all).asks.mono fun d hd => ?_
      cases d with
      | note n => exact Note.Plain.exists_render hd
      | _ => trivial
  | true =>
      cases q with
      | binaryMem op dest base disp =>
          refine Synthesis.Asks.bind ?_ fun _ => trivial
          unfold Synthesis.binaryMem
          split
          · exact Synthesis.asks_emit trivial
          · trivial
      | transfer t =>
          refine Synthesis.Asks.bind ?_ fun _ => trivial
          refine Synthesis.asks_transfer_of (fun _ _ _ => trivial) (fun _ _ => trivial) fun h => ?_
          obtain ⟨text, htext⟩ := Address.exists_render (a := t.address) h.scale
          show ∃ text, Note.render (.highHalfFirst t.address) = .ok text
          rw [Note.render, htext]
          exact ⟨_, rfl⟩
      | _ => exact absurd hdata (by simp [movesData])

/-- **Whatever a request asks for can be rendered.** -/
theorem Request.asks_renders (q : Request) : q.synthesis.Asks Demand.Renders := by
  refine (q.asks_wellFormed.and q.asks_remarks).mono fun d hd => ?_
  cases d with
  | append i => exact Instruction.exists_render hd.1.address
  | note n => exact hd.2
  | _ => trivial

/-- An instruction or a record that a command brings along can be rendered. -/
def Command.Renders : Command → Prop
  | append op operands inert target =>
      ∀ i, Instruction.build op operands = .ok i →
        ∃ text, Instruction.render { i with inert, target } = .ok text
  | appendRecord r => ∃ text, r.render = .ok text
  | _ => True

theorem Command.Renders.asks {c : Command} (h : c.Renders) : c.Asks Demand.Renders := by
  cases c with
  | request q => exact q.asks_renders
  | append op operands inert target => exact h
  | _ => trivial

/-! ## §3. Logged and plain. -/

namespace LoggedSession

variable {α : Type}

/-- The log is one of this session. -/
def Over (l : LoggedSession) (s : Session) : Prop := l.session = s

@[simp] theorem on_quietly (x : Effect Session α) (l : LoggedSession) :
    (quietly x).on l = ((x.on l.session).1, { l with session := (x.on l.session).2 }) := rfl

theorem inStep_quietly (x : Effect Session α) {l : LoggedSession} {s : Session} (h : l.Over s) :
    InStep Over ((quietly x).on l) (x.on s) := by
  subst h
  exact ⟨rfl, rfl⟩

/-- A text that can be rendered is a line like any other. -/
theorem on_writeRendered (level : Level) {message : Except Fault String} {text : String}
    (h : message = .ok text) (l : LoggedSession) :
    (writeRendered level message).on l =
      (.ok (), { l with log := l.log ++ [⟨level, text⟩] }) := by
  rw [h]
  rfl

theorem on_appendRecord {r : Record} {text : String} (h : r.render = .ok text)
    (l : LoggedSession) :
    (appendRecord r).on l =
      (.ok ⟨l.session.records.length⟩,
        { session := l.session.push r
          log := l.log ++
            [⟨.trace, RecordId.label ⟨l.session.records.length⟩ ++ ": " ++ text⟩] }) := by
  simp only [appendRecord, Effect.on_bind, Effect.on_get]
  rw [on_writeRendered .trace (congrArg (Except.map _) h)]
  rfl

/-- An instruction is logged as the record it becomes. -/
theorem on_append (i : Instruction) (l : LoggedSession) :
    (unit.append i).on l = (appendRecord (l.session.stamp i)).on l := by
  simp only [unit, Effect.on_bind, Effect.on_get]

theorem inStep_appendRecord {r : Record} (h : ∃ text, r.render = .ok text) (l : LoggedSession) :
    InStep Over ((appendRecord r).on l) ((Session.appendRecord r).on l.session) := by
  obtain ⟨text, htext⟩ := h
  rw [on_appendRecord htext]
  exact ⟨rfl, rfl⟩

/-- **The log makes no difference to what can be rendered.** -/
theorem unit_matches : unit.MatchesOn Demand.Renders Over Session.unit where
  append {l s} h i hi := by
    subst h
    show InStep Over ((unit.append i).on l) ((Session.append i).on l.session)
    rw [on_append, Session.on_append, ← Session.on_appendRecord]
    exact inStep_appendRecord (r := l.session.stamp i) hi l
  retarget h id target _ := inStep_quietly _ h
  borrow {l s} h exclude _ := by
    subst h
    -- The line follows the loan, so a refusal leaves none.
    simp only [unit, Session.unit, Effect.on_bind, on_quietly]
    rcases (Session.borrow exclude).on l.session with ⟨_ | _, _⟩ <;> exact ⟨rfl, rfl⟩
  release {l s} h r _ := by
    subst h
    simp only [unit, Session.unit, Effect.on_bind, on_quietly]
    rcases (Session.release r).on l.session with ⟨_ | _, _⟩ <;> exact ⟨rfl, rfl⟩
  annotate {l s} h id access _ := by
    subst h
    exact ⟨rfl, rfl⟩
  note {l s} h n hn := by
    obtain ⟨text, htext⟩ := hn
    simp only [unit]
    rw [on_writeRendered .debug htext]
    exact ⟨rfl, h⟩

/-! ## §4. Runs. -/

/-- The logged session after a command, whatever came of it. -/
def after (l : LoggedSession) (c : Command) : LoggedSession := ((execute c).on l).2

/-- The logged session after a run. -/
def afterAll (l : LoggedSession) (cs : List Command) : LoggedSession := cs.foldl after l

/-- What came of each command of a run. -/
def outcomes : LoggedSession → List Command → List (Except Fault Outcome)
  | _, [] => []
  | l, c :: cs => ((execute c).on l).1 :: (l.after c).outcomes cs

/-- A fault adds a line to the log and nothing else. -/
theorem on_execute (c : Command) (l : LoggedSession) :
    ((execute c).on l).1 = ((c.runIn commandUnit).on l).1 ∧
      ((execute c).on l).2.session = ((c.runIn commandUnit).on l).2.session := by
  rw [execute, Effect.on_of]
  rcases (c.runIn commandUnit).on l with ⟨_ | _, l'⟩ <;> exact ⟨rfl, rfl⟩

/-- A record is logged as an instruction is; what reaches the session itself is
not logged. -/
theorem inStep_direct {c : Command} (hc : c.Renders) (hdirect : c.isDirect = true)
    {l : LoggedSession} {s : Session} (h : l.Over s) :
    InStep Over ((c.runIn commandUnit).on l) ((Session.execute c).on s) := by
  cases c with
  | appendRecord r =>
      subst h
      exact (inStep_appendRecord hc l).map fun id => Outcome.reply (.appended id)
  | setOffset offset => exact inStep_quietly (Session.execute (.setOffset offset)) h
  | setInert id inert => exact inStep_quietly (Session.execute (.setInert id inert)) h
  | lookup id => exact inStep_quietly (Session.execute (.lookup id)) h
  | clear => exact inStep_quietly (Session.execute .clear) h
  | request | append | annotate | borrow | release => exact absurd hdirect Bool.false_ne_true

/-- **One command** comes to the same, and leaves the same session. -/
theorem inStep_execute {c : Command} (hc : c.Renders) {l : LoggedSession} {s : Session}
    (h : l.Over s) : InStep Over ((execute c).on l) ((Session.execute c).on s) := by
  have hrun : InStep Over ((c.runIn commandUnit).on l) ((Session.execute c).on s) := by
    refine hc.asks.inStep (v := Session.commandUnit) unit_matches h fun hdirect => ?_
    exact inStep_direct hc hdirect h
  obtain ⟨houtcome, hsession⟩ := on_execute c l
  exact ⟨houtcome.trans hrun.1, hsession.trans hrun.2⟩

/-- **Runs**, by induction: the sessions are the same again after each command. -/
theorem inStep_run {cs : List Command} (hcs : ∀ c ∈ cs, c.Renders) :
    ∀ {l : LoggedSession} {s : Session}, l.Over s →
      l.outcomes cs = s.outcomes cs ∧ (l.afterAll cs).Over (s.afterAll cs) := by
  induction cs with
  | nil => exact fun h => ⟨rfl, h⟩
  | cons c cs ih =>
      intro l s h
      obtain ⟨hc, hrest⟩ := List.forall_mem_cons.mp hcs
      obtain ⟨houtcome, hover⟩ := inStep_execute hc h
      obtain ⟨houtcomes, hend⟩ := ih hrest hover
      refine ⟨?_, hend⟩
      rw [outcomes, Session.outcomes, houtcome]
      exact congrArg (_ :: ·) houtcomes

/-- **THE LOG CHANGES NOTHING.**  In any run, every command has the outcome that
it has without a log, a fault included, and the session ends up the same:
records, frame notes, scratch pool, offset and statistics.  The instructions
that commands bring along must have a text; those of requests always have one,
and so do their remarks. -/
theorem log_changes_nothing (l : LoggedSession) (cs : List Command)
    (hcs : ∀ c ∈ cs, c.Renders) :
    l.outcomes cs = l.session.outcomes cs ∧
      (l.afterAll cs).session = l.session.afterAll cs ∧
      ∀ q : Request, q.synthesis.Asks Demand.Renders := by
  obtain ⟨houtcomes, hend⟩ := inStep_run hcs (show l.Over l.session from rfl)
  exact ⟨houtcomes, hend, Request.asks_renders⟩

/-- A load over its own base, a shift through a scratch register, an instruction
with the largest factor, and two commands that stop. -/
def sampleRun : List Command :=
  [.setOffset 7,
    .request (.transfer { direction := .load, base := .gp .esi, index := .gp .edi, scale := 3,
                          lo := .gp .esi, hi := .gp .edx, size := .long }),
    .request (.ternary .lsl (.gp .ecx) (.gp .eax) (.gp .ecx)),
    .append .lea32RA [.reg (.gp .eax), .reg (.gp .ebx), .reg (.gp .esi), .imm 31, .imm 8] false
      none,
    .request (.transfer (.plain .load (.gp .ebx) 2 (.gp .eax) .word)),
    .release (.gp .ebx)]

/-- Lines are written, faults happen, and nothing comes of the lines. -/
theorem log_changes_nothing_sample :
    let l : LoggedSession := { session := Session.new [.gp .ebx] }
    (l.afterAll sampleRun).log.length = 11 ∧
      (l.outcomes sampleRun).map Except.isOk = [true, true, true, true, false, false] ∧
      l.outcomes sampleRun = l.session.outcomes sampleRun ∧
      (l.afterAll sampleRun).session = l.session.afterAll sampleRun := by
  intro l
  have hcs : ∀ c ∈ sampleRun, c.Renders := by
    simp only [sampleRun, List.forall_mem_cons, Command.Renders, true_and, List.not_mem_nil,
      false_implies, implies_true, and_true]
    rintro i ⟨⟩
    exact ⟨_, rfl⟩
  obtain ⟨houtcomes, hend, -⟩ := log_changes_nothing l sampleRun hcs
  exact ⟨by decide +kernel, by decide +kernel, houtcomes, hend⟩

/-- An index without a factor has no text, so the same is not true of every
instruction that a command can bring along. -/
example :
    let c : Command := .append .lea32RA
      [.reg (.gp .eax), .reg (.gp .ebx), .reg (.gp .esi), .imm 32, .imm 8] false none
    ((execute c).on { session := Session.new [] }).1 = .error .shiftRange ∧
      ((Session.execute c).on (Session.new [])).1 = .ok (.reply (.appended ⟨0⟩)) := ⟨rfl, rfl⟩

end LoggedSession

end TwoAddress
