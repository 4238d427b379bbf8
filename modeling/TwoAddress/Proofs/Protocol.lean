/-
  TwoAddress.Proofs.Protocol
  ──────────────────────────
  **RULES OF THE DIALOGUE.**

  A synthesizer talks to its compilation unit one request at a time, and what
  we want to know about it is mostly what it may say next: give back the
  register it holds, append only code that runs, note a slot right after the
  access.  A `Protocol` states such rules over a state of its own, one
  predicate transformer per kind of request, and `Synthesis.Follows` carries
  them through a whole tree:

      x.Follows Φ t Q    from state `t` the dialogue `x` keeps to the rules
                         of `Φ`, and whenever it finishes with `a` in state
                         `t'`, `Q a t'` holds

  The rules say nothing about any compilation unit.  `Protocol.Keeps` ties
  them to one: a relation between protocol states and unit states that every
  single request preserves.  `Follows.met` is then the only induction over
  trees: a dialogue that keeps to the rules ends in related states.
-/
import TwoAddress.Session.Command

namespace TwoAddress

/-! ## §1. Sequences. -/

namespace Synthesis

theorem seq_assoc {α β γ : Type} (x : Synthesis α) (k : α → Synthesis β) (l : β → Synthesis γ) :
    x >>= k >>= l = x >>= fun a => k a >>= l := by
  induction x with
  | done a => rfl
  | fail f => rfl
  | append i next ih => exact congrArg (append i) (funext ih)
  | retarget id target next ih => exact congrArg (retarget id target) ih
  | borrow exclude next ih => exact congrArg (borrow exclude) (funext ih)
  | release r next ih => exact congrArg (release r) ih
  | annotate id access next ih => exact congrArg (annotate id access) ih
  | note n next ih => exact congrArg (note n) ih

end Synthesis

/-! ## §2. Protocols. -/

/-- Rules of a dialogue over states `τ`.  Each field is given what has to hold
of the answer and of the state after the request, and says what has to hold
of the state before it.  Requests a protocol does not care about leave its
state alone. -/
structure Protocol (τ : Type) where
  append : Instruction → τ → (RecordId → τ → Prop) → Prop := fun _ t K => ∀ id, K id t
  retarget : RecordId → Option RecordId → τ → (τ → Prop) → Prop := fun _ _ t K => K t
  borrow : List Reg → τ → (Reg → τ → Prop) → Prop := fun _ t K => ∀ r, K r t
  release : Reg → τ → (τ → Prop) → Prop := fun _ t K => K t
  annotate : RecordId → SlotAccess → τ → (τ → Prop) → Prop := fun _ _ t K => K t
  note : Note → τ → (τ → Prop) → Prop := fun _ t K => K t
  /-- Stopping with a fault is admitted in this state. -/
  stop : Fault → τ → Prop := fun _ _ => True

namespace Synthesis

variable {α β τ : Type} {Φ : Protocol τ} {t : τ}

/-- From state `t` the dialogue keeps to the rules, and finishes in `Q` if it
finishes. -/
def Follows (Φ : Protocol τ) : Synthesis α → τ → (α → τ → Prop) → Prop
  | done a, t, Q => Q a t
  | fail f, t, _ => Φ.stop f t
  | append i next, t, Q => Φ.append i t fun id t' => (next id).Follows Φ t' Q
  | retarget id target next, t, Q => Φ.retarget id target t fun t' => next.Follows Φ t' Q
  | borrow exclude next, t, Q => Φ.borrow exclude t fun r t' => (next r).Follows Φ t' Q
  | release r next, t, Q => Φ.release r t fun t' => next.Follows Φ t' Q
  | annotate id access next, t, Q => Φ.annotate id access t fun t' => next.Follows Φ t' Q
  | note n next, t, Q => Φ.note n t fun t' => next.Follows Φ t' Q

/-- A sequence keeps to the rules if its first part does, up to a state from
which the rest does. -/
theorem follows_bind (x : Synthesis α) (k : α → Synthesis β) (t : τ) (Q : β → τ → Prop) :
    (x >>= k).Follows Φ t Q = x.Follows Φ t fun a t' => (k a).Follows Φ t' Q := by
  induction x generalizing t with
  | done a => rfl
  | fail f => rfl
  | append i next ih => exact congrArg (Φ.append i t) (funext fun id => funext fun t' => ih id t')
  | retarget id target next ih => exact congrArg (Φ.retarget id target t) (funext fun t' => ih t')
  | borrow exclude next ih =>
      exact congrArg (Φ.borrow exclude t) (funext fun r => funext fun t' => ih r t')
  | release r next ih => exact congrArg (Φ.release r t) (funext fun t' => ih t')
  | annotate id access next ih =>
      exact congrArg (Φ.annotate id access t) (funext fun t' => ih t')
  | note n next ih => exact congrArg (Φ.note n t) (funext fun t' => ih t')

theorem Follows.seq {x : Synthesis α} {k : α → Synthesis β} {Q : β → τ → Prop}
    (h : x.Follows Φ t fun a t' => (k a).Follows Φ t' Q) : (x >>= k).Follows Φ t Q := by
  rw [follows_bind]
  exact h

end Synthesis

/-! ## §3. Units that honour a protocol. -/

variable {α σ τ : Type}

/-- What a computation on a unit left behind: a state related to one from
which the answer is as wanted, or, after a fault, a state that may be left. -/
def Met (rel : τ → σ → Prop) (left : σ → Prop) (K : α → τ → Prop) :
    Except Fault α × σ → Prop
  | (.ok a, s) => ∃ t, rel t s ∧ K a t
  | (.error _, s) => left s

/-- Every single request that the rules admit keeps protocol state and unit
state related; after a fault the unit state is one that may be left. -/
structure Protocol.Keeps (Φ : Protocol τ) (u : CodeUnit σ) (rel : τ → σ → Prop)
    (left : σ → Prop) : Prop where
  append : ∀ {i t s K}, rel t s → Φ.append i t K → Met rel left K ((u.append i).on s)
  retarget : ∀ {id target t s K}, rel t s → Φ.retarget id target t K →
    Met rel left (fun _ => K) ((u.retarget id target).on s)
  borrow : ∀ {exclude t s K}, rel t s → Φ.borrow exclude t K →
    Met rel left K ((u.borrow exclude).on s)
  release : ∀ {r t s K}, rel t s → Φ.release r t K →
    Met rel left (fun _ => K) ((u.release r).on s)
  annotate : ∀ {id access t s K}, rel t s → Φ.annotate id access t K →
    Met rel left (fun _ => K) ((u.annotate id access).on s)
  note : ∀ {n t s K}, rel t s → Φ.note n t K → Met rel left (fun _ => K) ((u.note n).on s)
  stop : ∀ {f t s}, rel t s → Φ.stop f t → left s

/-- A request and what follows it: a related state after the first part, from
which the rest is met, or the fault of the first part. -/
theorem Met.bind {β : Type} {rel : τ → σ → Prop} {left : σ → Prop} {K : α → τ → Prop}
    {Q : β → τ → Prop} {x : Effect σ α} {k : α → Effect σ β} {s : σ}
    (hx : Met rel left K (x.on s))
    (hk : ∀ a t s, rel t s → K a t → Met rel left Q ((k a).on s)) :
    Met rel left Q ((x >>= k).on s) := by
  rw [Effect.on_bind]
  rcases hrun : x.on s with ⟨_ | a, s'⟩ <;> rw [hrun] at hx
  · exact hx
  · obtain ⟨t', hrel, hK⟩ := hx
    exact hk a t' s' hrel hK

/-- **A dialogue that keeps to the rules ends in related states.** -/
theorem Synthesis.Follows.met {Φ : Protocol τ} {u : CodeUnit σ} {rel : τ → σ → Prop}
    {left : σ → Prop} (keeps : Φ.Keeps u rel left) {x : Synthesis α} {Q : α → τ → Prop} :
    ∀ {t : τ} {s : σ}, rel t s → x.Follows Φ t Q → Met rel left Q ((x.runIn u).on s) := by
  induction x with
  | done a => intro t s hrel h; exact ⟨t, hrel, h⟩
  | fail f => intro t s hrel h; exact keeps.stop hrel h
  | append i next ih =>
      intro t s hrel h
      exact (keeps.append hrel h).bind fun id t' s' hrel' h' => ih id hrel' h'
  | retarget id target next ih =>
      intro t s hrel h
      exact (keeps.retarget hrel h).bind fun _ t' s' hrel' h' => ih hrel' h'
  | borrow exclude next ih =>
      intro t s hrel h
      exact (keeps.borrow hrel h).bind fun r t' s' hrel' h' => ih r hrel' h'
  | release r next ih =>
      intro t s hrel h
      exact (keeps.release hrel h).bind fun _ t' s' hrel' h' => ih hrel' h'
  | annotate id access next ih =>
      intro t s hrel h
      exact (keeps.annotate hrel h).bind fun _ t' s' hrel' h' => ih hrel' h'
  | note n next ih =>
      intro t s hrel h
      exact (keeps.note hrel h).bind fun _ t' s' hrel' h' => ih hrel' h'

end TwoAddress
