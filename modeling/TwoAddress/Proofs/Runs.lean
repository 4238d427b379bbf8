/-
  TwoAddress.Proofs.Runs
  ──────────────────────
  **RUNS OF A SESSION.**

  A run executes commands one after the other.  A fault ends its own command
  only: the session keeps what the command had done and goes on with the
  next.  §1 gives each request of a synthesizer as an equation on the session
  it meets, §2 defines runs, §3 specialises them to requests and says which
  request of a run appended which record.
-/
import TwoAddress.Proofs.Protocol
import TwoAddress.Session.Command

namespace TwoAddress

namespace Session

/-! ## §1. Single requests on a session. -/

@[simp] theorem on_appendRecord (r : Record) (s : Session) :
    (appendRecord r).on s = (.ok ⟨s.records.length⟩, s.push r) := rfl

@[simp] theorem on_append (i : Instruction) (s : Session) :
    (append i).on s = (.ok ⟨s.records.length⟩, s.push (s.stamp i)) := rfl

theorem on_amend (id : RecordId) (change : Record → Except Fault Record) (s : Session) :
    (amend id change).on s =
      match s.records[id.index]? with
      | none => (.error (.unknownRecord id), s)
      | some r =>
          match change r with
          | .error f => (.error f, s)
          | .ok r' => (.ok r', { s with records := s.records.set id.index r' }) := by
  unfold amend lookup
  cases hr : s.records[id.index]? with
  | none => simp [hr]
  | some r => cases hchange : change r <;> simp [hr, hchange, Except.map]

theorem on_retarget (id : RecordId) (target : Option RecordId) (s : Session) :
    (retarget id target).on s =
      match s.records[id.index]? with
      | none => (.error (.unknownRecord id), s)
      | some r =>
          if r.opcode.isBranch then
            (.ok (), { s with records := s.records.set id.index { r with target } })
          else
            (.error .notABranch, s) := by
  unfold retarget amend lookup
  cases hr : s.records[id.index]? with
  | none => simp [hr]
  | some r => by_cases hb : r.opcode.isBranch <;> simp [hr, hb]

theorem on_borrow (exclude : List Reg) (s : Session) :
    (borrow exclude).on s =
      match s.pool.borrow (.ofList exclude) with
      | .ok (r, pool) =>
          (.ok (.gp r), { s with pool, stats := { s.stats with borrowed := s.stats.borrowed + 1 } })
      | .error e => (.error (.violation (.scratchUnavailable e.message)), s) := by
  unfold borrow
  rcases h : s.pool.borrow (.ofList exclude) with _ | ⟨r, pool⟩ <;> simp [h, Except.map]

theorem on_release (r : Reg) (s : Session) :
    (release r).on s =
      match s.pool.release r with
      | .ok pool => (.ok (), { s with pool })
      | .error e => (.error (.violation (.scratchUnavailable e.message)), s) := by
  unfold release
  rcases h : s.pool.release r with _ | pool <;> simp [h]

/-- An instruction that can be built is appended as it is. -/
theorem on_execute_append (op : Opcode) (operands : List Operand) (inert : Bool)
    (target : Option RecordId) (s : Session) :
    (execute (.append op operands inert target)).on s =
      match Instruction.build op operands with
      | .error f => (.error f, s)
      | .ok i =>
          (.ok (.reply (.appended ⟨s.records.length⟩)),
            s.push (s.stamp { i with inert, target })) := by
  simp only [execute, Command.runIn, Effect.on_bind, Effect.on_ofExcept]
  cases Instruction.build op operands <;> rfl

/-- Looking a record up changes nothing. -/
theorem on_execute_lookup (id : RecordId) (s : Session) :
    (execute (.lookup id)).on s =
      (.ok (match s.records[id.index]? with | some r => .record r | none => .missing id), s) := by
  simp only [execute, Command.runIn, commandUnit, id_eq, Effect.on_bind, Effect.on_get, lookup]
  cases s.records[id.index]? <;> simp

/-! ## §2. Runs. -/

/-- The session after a command, whatever came of it. -/
def after (s : Session) (c : Command) : Session := ((execute c).on s).2

/-- The session after a run. -/
def afterAll (s : Session) (cs : List Command) : Session := cs.foldl after s

/-- What came of each command of a run. -/
def outcomes : Session → List Command → List (Except Fault Outcome)
  | _, [] => []
  | s, c :: cs => ((execute c).on s).1 :: (s.after c).outcomes cs

theorem afterAll_append (s : Session) (before rest : List Command) :
    s.afterAll (before ++ rest) = (s.afterAll before).afterAll rest := List.foldl_append

/-! ## §3. Runs of requests. -/

/-- Meet a request: its reply, and the session it leaves. -/
def meet (s : Session) (q : Request) : Except Fault Reply × Session :=
  (q.synthesis.runIn unit).on s

/-- The session after a run of requests. -/
def afterRequests (s : Session) (qs : List Request) : Session := s.afterAll (qs.map .request)

/-- Every request of a run is met without a fault. -/
def Returns (s : Session) (qs : List Request) : Prop :=
  ∀ o ∈ s.outcomes (qs.map .request), o.isOk = true

instance (s : Session) (qs : List Request) : Decidable (s.Returns qs) :=
  inferInstanceAs (Decidable (∀ o ∈ _, _))

/-- The record at a position was appended while a run met the request `q`. -/
def AppendedBy (s : Session) (qs : List Request) (id : Nat) (q : Request) : Prop :=
  ∃ before rest, qs = before ++ q :: rest ∧
    (s.afterRequests before).records.length ≤ id ∧
    id < (s.afterRequests (before ++ [q])).records.length

theorem on_execute_request (s : Session) (q : Request) :
    (execute (.request q)).on s = ((s.meet q).1.map .reply, (s.meet q).2) :=
  Effect.on_map Outcome.reply (q.synthesis.runIn unit) s

theorem after_request (s : Session) (q : Request) : s.after (.request q) = (s.meet q).2 := by
  rw [after, on_execute_request]

@[simp] theorem afterRequests_nil (s : Session) : s.afterRequests [] = s := rfl

@[simp] theorem afterRequests_cons (s : Session) (q : Request) (qs : List Request) :
    s.afterRequests (q :: qs) = (s.meet q).2.afterRequests qs := by
  rw [← after_request]
  rfl

theorem afterRequests_append (s : Session) (before rest : List Request) :
    s.afterRequests (before ++ rest) = (s.afterRequests before).afterRequests rest := by
  simp [afterRequests, afterAll, List.foldl_append]

theorem afterRequests_snoc (s : Session) (before : List Request) (q : Request) :
    s.afterRequests (before ++ [q]) = ((s.afterRequests before).meet q).2 := by
  rw [afterRequests_append, afterRequests_cons, afterRequests_nil]

/-- A run returns throughout if its first request does and the rest does. -/
theorem returns_cons {s : Session} {q : Request} {qs : List Request} :
    s.Returns (q :: qs) ↔ (∃ reply, (s.meet q).1 = .ok reply) ∧ (s.meet q).2.Returns qs := by
  have hmap : ((s.meet q).1.map Outcome.reply).isOk = true ↔ ∃ reply, (s.meet q).1 = .ok reply := by
    cases (s.meet q).1 <;> simp [Except.map, Except.isOk, Except.toBool]
  unfold Returns
  rw [List.map_cons, outcomes, on_execute_request, List.forall_mem_cons, hmap, after_request]

/-- What the rules of a protocol preserve, a request that keeps to it preserves,
also where it stops half way. -/
theorem meet_keeps {Φ : Protocol Unit} {R : Session → Prop} {s : Session} {q : Request}
    (hkeeps : Φ.Keeps unit (fun _ => R) R) (hs : R s)
    (h : q.synthesis.Follows Φ () fun _ _ => True) : R (s.meet q).2 := by
  have hmet := h.met hkeeps hs
  unfold meet
  rcases hrun : (q.synthesis.runIn unit).on s with ⟨_ | _, t⟩ <;> rw [hrun] at hmet
  · exact hmet
  · obtain ⟨_, h, -⟩ := hmet
    exact h

end Session

end TwoAddress
