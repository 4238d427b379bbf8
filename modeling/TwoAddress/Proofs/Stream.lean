/-
  TwoAddress.Proofs.Stream
  ────────────────────────
  **THE STREAM ONLY GROWS.**

  Whatever is asked of a session, and whether or not it can be met, the
  records that are there stay where they are; the target of a branch is all
  that may change about them.  So every record of a run was appended by one
  request of it, and by one only.
-/
import TwoAddress.Proofs.Runs

namespace TwoAddress

/-! ## §1. Growing. -/

/-- The record without its target: what never changes about it. -/
def Record.untargeted (r : Record) : Record := { r with target := none }

/-- Changing the target of a record changes nothing else. -/
theorem map_untargeted_set {records : List Record} {n : Nat} {r r' : Record}
    (hr : records[n]? = some r) (hsame : r'.untargeted = r.untargeted) :
    (records.set n r').map Record.untargeted = records.map Record.untargeted := by
  refine List.ext_getElem? fun m => ?_
  rw [List.getElem?_map, List.getElem?_map, List.getElem?_set]
  by_cases hm : n = m
  · subst hm
    rw [if_pos rfl, if_pos (List.getElem?_eq_some_iff.mp hr).1, hr, Option.map_some, hsame]
    rfl
  · rw [if_neg hm]

namespace Session

/-- The stream of `t` continues that of `s`, up to targets. -/
def Grows (s t : Session) : Prop :=
  s.records.map Record.untargeted <+: t.records.map Record.untargeted

theorem Grows.refl (s : Session) : s.Grows s := List.prefix_refl _

theorem Grows.trans {s t u : Session} (hst : s.Grows t) (htu : t.Grows u) : s.Grows u :=
  List.IsPrefix.trans hst htu

/-- A stream that changed in its targets only. -/
theorem Grows.of_untargeted {s t : Session}
    (h : s.records.map Record.untargeted = t.records.map Record.untargeted) : s.Grows t :=
  ⟨[], by rw [List.append_nil, h]⟩

theorem Grows.length_le {s t : Session} (h : s.Grows t) :
    s.records.length ≤ t.records.length := by
  simpa using List.IsPrefix.length_le h

/-- A record that is there stays there. -/
theorem Grows.getElem? {s t : Session} (h : s.Grows t) {n : Nat} {r : Record}
    (hr : s.records[n]? = some r) : ∃ r', t.records[n]? = some r' ∧ r'.untargeted = r.untargeted := by
  obtain ⟨rest, hrest⟩ := h
  have hn : (t.records.map Record.untargeted)[n]? = some r.untargeted := by
    rw [← hrest, List.getElem?_append_left, List.getElem?_map, hr]
    · rfl
    · rw [List.length_map]
      exact (List.getElem?_eq_some_iff.mp hr).1
  rw [List.getElem?_map, Option.map_eq_some_iff] at hn
  exact hn

/-! ## §2. Requests. -/

/-- A computation grows the stream if its first part does, and what follows it
does from wherever the first part ends. -/
theorem Grows.bind {α β : Type} {x : Effect Session α} {k : α → Effect Session β} {s : Session}
    (hx : s.Grows (x.on s).2) (hk : ∀ a (t : Session), t.Grows ((k a).on t).2) :
    s.Grows ((x >>= k).on s).2 := by
  rw [Effect.on_bind]
  rcases hrun : x.on s with ⟨_ | a, t⟩ <;> rw [hrun] at hx
  · exact hx
  · exact hx.trans (hk a t)

theorem grows_append (i : Instruction) (s : Session) : s.Grows ((append i).on s).2 := by
  rw [on_append]
  show _ <+: (s.records ++ [s.stamp i]).map _
  rw [List.map_append]
  exact List.prefix_append _ _

theorem grows_retarget (id : RecordId) (target : Option RecordId) (s : Session) :
    s.Grows ((retarget id target).on s).2 := by
  rw [on_retarget]
  split
  · exact Grows.refl s
  next r hr =>
    split
    · have hsame : Record.untargeted { r with target } = r.untargeted := rfl
      exact Grows.of_untargeted (map_untargeted_set hr hsame).symm
    · exact Grows.refl s

theorem grows_borrow (exclude : List Reg) (s : Session) : s.Grows ((borrow exclude).on s).2 := by
  rw [on_borrow]
  split <;> exact Grows.refl _

theorem grows_release (r : Reg) (s : Session) : s.Grows ((release r).on s).2 := by
  rw [on_release]
  split <;> exact Grows.refl _

/-- **No dialogue changes what is there.** -/
theorem grows_runIn {α : Type} (x : Synthesis α) :
    ∀ s : Session, s.Grows ((x.runIn unit).on s).2 := by
  induction x with
  | done a => exact Grows.refl
  | fail f => exact Grows.refl
  | append i next ih => exact fun s => (grows_append i s).bind ih
  | retarget id target next ih => exact fun s => (grows_retarget id target s).bind fun _ => ih
  | borrow exclude next ih => exact fun s => (grows_borrow exclude s).bind ih
  | release r next ih => exact fun s => (grows_release r s).bind fun _ => ih
  | annotate id access next ih =>
      exact fun s => Grows.bind (x := annotate id access) (Grows.refl s) fun _ => ih
  | note n next ih => exact fun s => Grows.bind (x := unit.note n) (Grows.refl s) fun _ => ih

/-! ## §3. Runs. -/

theorem grows_meet (s : Session) (q : Request) : s.Grows (s.meet q).2 := grows_runIn q.synthesis s

theorem grows_afterRequests (s : Session) (qs : List Request) : s.Grows (s.afterRequests qs) := by
  induction qs generalizing s with
  | nil => exact Grows.refl s
  | cons q qs ih =>
      rw [afterRequests_cons]
      exact (grows_meet s q).trans (ih (s.meet q).2)

theorem grows_between (s : Session) {before qs : List Request} (h : before <+: qs) :
    (s.afterRequests before).Grows (s.afterRequests qs) := by
  obtain ⟨rest, rfl⟩ := h
  rw [afterRequests_append]
  exact grows_afterRequests _ rest

/-- A record that was not there before a run was appended by one of its requests. -/
theorem exists_appendedBy {s : Session} {qs : List Request} {n : Nat}
    (hfrom : s.records.length ≤ n) (hto : n < (s.afterRequests qs).records.length) :
    ∃ q, s.AppendedBy qs n q := by
  induction qs generalizing s with
  | nil => exact absurd hto (Nat.not_lt.mpr hfrom)
  | cons q qs ih =>
      by_cases h : n < (s.meet q).2.records.length
      · exact ⟨q, [], qs, rfl, hfrom, by simpa using h⟩
      · rw [afterRequests_cons] at hto
        obtain ⟨q', before, rest, rfl, hle, hlt⟩ := ih (Nat.not_lt.mp h) hto
        exact ⟨q', q :: before, rest, rfl, by simpa using hle, by simpa using hlt⟩

/-- No record was appended by two requests. -/
theorem AppendedBy.unique {s : Session} {qs : List Request} {n : Nat} {q q' : Request}
    (h : s.AppendedBy qs n q) (h' : s.AppendedBy qs n q') : q = q' := by
  obtain ⟨before, rest, hqs, hle, hlt⟩ := h
  obtain ⟨before', rest', hqs', hle', hlt'⟩ := h'
  -- If one request came before the other, the record was there already when the later one was met.
  have hshort : ∀ {as bs : List Request} {a : Request}, as ++ [a] <+: bs →
      n < (s.afterRequests (as ++ [a])).records.length →
      n < (s.afterRequests bs).records.length :=
    fun hpre hn => Nat.lt_of_lt_of_le hn (grows_between s hpre).length_le
  have hpre : before ++ [q] <+: qs := ⟨rest, by simp [hqs]⟩
  have hpre' : before' ++ [q'] <+: qs := ⟨rest', by simp [hqs']⟩
  have hbefore : before <+: qs := (List.prefix_append before [q]).trans hpre
  have hbefore' : before' <+: qs := (List.prefix_append before' [q']).trans hpre'
  rcases Nat.lt_trichotomy before.length before'.length with hlen | hlen | hlen
  · have := hshort (List.prefix_of_prefix_length_le hpre hbefore' (by simp; omega)) hlt
    omega
  · obtain rfl : before = before' :=
      (List.prefix_of_prefix_length_le hbefore hbefore' (Nat.le_of_eq hlen)).eq_of_length hlen
    rw [hqs] at hqs'
    exact (List.cons.inj (List.append_cancel_left hqs')).1
  · have := hshort (List.prefix_of_prefix_length_le hpre' hbefore (by simp; omega)) hlt'
    omega

end Session

end TwoAddress
