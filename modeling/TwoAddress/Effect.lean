/-
  TwoAddress.Effect
  ─────────────────
  **COMPUTATIONS THAT MAY STOP.**

  A computation runs on a state and may stop with a fault; the state it had
  reached is kept either way.  `Effect.on` runs a computation on a state, and
  the lemmas say what each way of building one does to `on`, so that nothing
  else about the monad is needed.
-/
import TwoAddress.Fault

namespace TwoAddress

/-- A computation on a state that may stop with a fault, keeping the state it
had reached. -/
abbrev Effect (σ α : Type) := ExceptT Fault (StateM σ) α

namespace Effect

variable {σ α β : Type}

/-- Run the computation on a state: its result, and the state it leaves. -/
def on (x : Effect σ α) (s : σ) : Except Fault α × σ := x.run.run s

/-- The computation given by what it does to each state. -/
def of (f : σ → Except Fault α × σ) : Effect σ α := ExceptT.mk f

@[simp] theorem on_of (f : σ → Except Fault α × σ) (s : σ) : (of f).on s = f s := rfl

@[simp] theorem on_pure (a : α) (s : σ) : (pure a : Effect σ α).on s = (.ok a, s) := rfl

@[simp] theorem on_throw (f : Fault) (s : σ) :
    (throw f : Effect σ α).on s = (.error f, s) := rfl

@[simp] theorem on_get (s : σ) : (get : Effect σ σ).on s = (.ok s, s) := rfl

@[simp] theorem on_set (s t : σ) : (set t : Effect σ PUnit).on s = (.ok ⟨⟩, t) := rfl

@[simp] theorem on_modify (f : σ → σ) (s : σ) :
    (modify f : Effect σ PUnit).on s = (.ok ⟨⟩, f s) := rfl

@[simp] theorem on_ofExcept (x : Except Fault α) (s : σ) :
    (MonadExcept.ofExcept x : Effect σ α).on s = (x, s) := by
  cases x <;> rfl

@[simp] theorem on_bind (x : Effect σ α) (k : α → Effect σ β) (s : σ) :
    (x >>= k).on s =
      match x.on s with
      | (.ok a, t) => (k a).on t
      | (.error f, t) => (.error f, t) := by
  show (ExceptT.bindCont k (x.on s).1).run (x.on s).2 = _
  rcases x.on s with ⟨_ | _, _⟩ <;> rfl

@[simp] theorem on_map (f : α → β) (x : Effect σ α) (s : σ) :
    (f <$> x).on s = ((x.on s).1.map f, (x.on s).2) := by
  rw [map_eq_pure_bind, on_bind]
  rcases x.on s with ⟨_ | _, _⟩ <;> rfl

end Effect

end TwoAddress
