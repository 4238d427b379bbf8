/-
  TwoAddress.Proofs.Tallies
  ─────────────────────────
  **COUNTING NAMES.**

  A tally is a list of entries that is searched and raised in place.  What it
  stands for is how often each name was counted, so this file gives every
  operation through that:

    • §1 `times`, a count that is zero where there is no entry, and the sum of
      all entries, each with what one more count does to it;
    • §2 the tally of a list of names, and the list with one name more;
    • §3 the names themselves, of which none has two entries.
-/
import TwoAddress.Session.Statistics

namespace TwoAddress

namespace Tally

/-! ## §1. One count more. -/

/-- How often a name was counted; zero if there is no entry. -/
def times (t : Tally) (name : String) : Nat := (t.count? name).getD 0

/-- How often anything was counted. -/
def total (t : Tally) : Nat := t.entries.foldr (fun e n => e.2 + n) 0

theorem lookup_entry (m n : String) (k : Nat) (entries : List (String × Nat)) :
    ((n, k) :: entries).lookup m = if m = n then some k else entries.lookup m := by
  rw [List.lookup_cons]
  cases hm : m == n with
  | true => rw [if_pos (eq_of_beq hm)]
  | false => rw [if_neg (ne_of_beq_false hm)]

/-- **Counting a name** raises its own entry, or makes one, and no other. -/
theorem count?_bump (t : Tally) (name m : String) :
    (t.bump name).count? m = if m = name then some (t.times name + 1) else t.count? m := by
  have hgo : ∀ entries : List (String × Nat), (bump.go name entries).lookup m =
      if m = name then some ((entries.lookup name).getD 0 + 1) else entries.lookup m := by
    intro entries
    induction entries with
    | nil =>
        rw [bump.go, lookup_entry]
        rfl
    | cons entry entries ih =>
        obtain ⟨n, k⟩ := entry
        rw [bump.go]
        by_cases hn : n = name
        · subst hn
          by_cases hm : m = n <;> simp [lookup_entry, hm]
        · -- The entry is not the one that is raised: both searches pass it.
          rw [if_neg hn, lookup_entry, ih, lookup_entry, lookup_entry, if_neg (Ne.symm hn)]
          by_cases hm : m = n
          · subst hm
            simp [hn]
          · simp [hm]
  exact hgo t.entries

theorem times_bump (t : Tally) (name m : String) :
    (t.bump name).times m = t.times m + if m = name then 1 else 0 := by
  rw [times, count?_bump]
  by_cases hm : m = name
  · rw [if_pos hm, if_pos hm, hm, Option.getD_some]
  · rw [if_neg hm, if_neg hm, Nat.add_zero, times]

theorem total_bump (t : Tally) (name : String) : (t.bump name).total = t.total + 1 := by
  have hgo : ∀ entries : List (String × Nat),
      (bump.go name entries).foldr (fun e n => e.2 + n) 0 =
        entries.foldr (fun e n => e.2 + n) 0 + 1 := by
    intro entries
    induction entries with
    | nil => rfl
    | cons entry entries ih =>
        rw [bump.go]
        split <;> simp only [List.foldr_cons, ih] <;> omega
  exact hgo t.entries

/-! ## §2. The tally of a list. -/

/-- The tally counts the names of a list, and has no entry for any other. -/
structure Counts (t : Tally) (names : List String) : Prop where
  count? : ∀ name, t.count? name =
    if names.count name = 0 then none else some (names.count name)
  total : t.total = names.length

theorem counts_nil : Counts {} [] := ⟨fun _ => rfl, rfl⟩

/-- How often a name was counted is how often it is in the list. -/
theorem Counts.times {t : Tally} {names : List String} (h : t.Counts names) (name : String) :
    t.times name = names.count name := by
  rw [Tally.times, h.count?]
  split
  next hnone => exact hnone.symm
  next => rfl

/-- One name more. -/
theorem Counts.bump {t : Tally} {names : List String} (h : t.Counts names) (name : String) :
    (t.bump name).Counts (names ++ [name]) where
  count? m := by
    rw [count?_bump, h.times, h.count?, List.count_append, List.count_singleton]
    by_cases hm : m = name
    · subst hm
      simp
    · have hne : name ≠ m := Ne.symm hm
      simp [hm, hne]
  total := by
    rw [total_bump, h.total, List.length_append, List.length_singleton]

/-! ## §3. The names counted. -/

/-- The names that have an entry. -/
def names (t : Tally) : List String := t.entries.map Prod.fst

/-- No name has two entries. -/
def Distinct (t : Tally) : Prop := t.names.Nodup

/-- Counting a name adds it at the end, unless it has an entry already. -/
theorem names_bump (t : Tally) (name : String) :
    (t.bump name).names = if name ∈ t.names then t.names else t.names ++ [name] := by
  have hgo : ∀ entries : List (String × Nat), (bump.go name entries).map Prod.fst =
      if name ∈ entries.map Prod.fst then entries.map Prod.fst
      else entries.map Prod.fst ++ [name] := by
    intro entries
    induction entries with
    | nil => rfl
    | cons entry entries ih =>
        obtain ⟨n, k⟩ := entry
        rw [bump.go]
        by_cases hn : n = name
        · simp [hn]
        · -- The name is looked for among the rest, with and without this entry.
          simp only [if_neg hn, List.map_cons, ih, List.mem_cons, Ne.symm hn, false_or]
          split <;> rfl
  exact hgo t.entries

theorem distinct_nil : Distinct {} := List.nodup_nil

theorem Distinct.bump {t : Tally} (h : t.Distinct) (name : String) : (t.bump name).Distinct := by
  rw [Distinct, names_bump]
  split
  · exact h
  next hnew =>
    refine List.nodup_append.mpr ⟨h, List.pairwise_singleton _ name, ?_⟩
    intro m hm n hn heq
    obtain rfl := List.mem_singleton.mp hn
    exact hnew (heq ▸ hm)

end Tally

end TwoAddress
