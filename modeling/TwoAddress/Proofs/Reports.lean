/-
  TwoAddress.Proofs.Reports
  ─────────────────────────
  **THE REPORT DOES NOT DEPEND ON THE ORDER OF THE TALLY.**

  A tally stands for a map from names to counts, so the order its entries are
  kept in means nothing.  The report sorts them and cuts the list off, and the
  order could still show in a tie, above all in one for the last place.  That
  it does not is seen without a look at the sorting:

    • §1 the ranking of entries, strict and total;
    • §2 the leading entries, by what they are and not by how they are found:
      a tally has one list of them, whatever its order;
    • §3 the entries sorted and cut off are that list;
    • §4 in every run of a session, no opcode gets a second entry;
    • §5 the text of the report (`report_ignores_order`).
-/
import Mathlib.Data.List.Nodup
import Mathlib.Data.List.Perm.Subperm
import TwoAddress.Proofs.Lockstep
import TwoAddress.Proofs.Tallies

namespace TwoAddress

namespace Tally

/-! ## §1. The ranking. -/

/-- The first entry was counted more often than the second, or as often and its
name comes first. -/
def Outranks (a b : String × Nat) : Prop := b.2 < a.2 ∨ a.2 = b.2 ∧ a.1 < b.1

instance (a b : String × Nat) : Decidable (Outranks a b) :=
  inferInstanceAs (Decidable (_ ∨ _ ∧ _))

variable {a b c : String × Nat}

theorem Outranks.trans (hab : Outranks a b) (hbc : Outranks b c) : Outranks a c := by
  rcases hab with hab | ⟨hab, hnames⟩ <;> rcases hbc with hbc | ⟨hbc, hnames'⟩
  · exact .inl (by omega)
  · exact .inl (by omega)
  · exact .inl (by omega)
  · exact .inr ⟨hab.trans hbc, String.lt_trans hnames hnames'⟩

theorem Outranks.asymm (hab : Outranks a b) : ¬ Outranks b a := by
  rcases hab with hab | ⟨hab, hnames⟩ <;> rintro (hba | ⟨hba, hnames'⟩)
  · omega
  · omega
  · omega
  · exact String.lt_asymm hnames hnames'

/-- Of two entries that differ at all, one outranks the other. -/
theorem outranks_trichotomy (a b : String × Nat) : Outranks a b ∨ a = b ∨ Outranks b a := by
  rcases Nat.lt_trichotomy a.2 b.2 with hlt | heq | hgt
  · exact .inr (.inr (.inl hlt))
  · by_cases hab : a.1 < b.1
    · exact .inl (.inr ⟨heq, hab⟩)
    · by_cases hba : b.1 < a.1
      · exact .inr (.inr (.inr ⟨heq.symm, hba⟩))
      · -- Names of which neither comes first are the same, and so are the counts.
        have hnames : a.1 = b.1 := String.le_antisymm (String.not_lt.mp hba) (String.not_lt.mp hab)
        exact .inr (.inl (Prod.ext hnames heq))
  · exact .inl (.inl hgt)

/-- The comparison that entries are sorted by is the ranking, or equality. -/
theorem ranksBefore_iff : ranksBefore a b = true ↔ a = b ∨ Outranks a b := by
  simp only [ranksBefore, Bool.or_eq_true, Bool.and_eq_true, decide_eq_true_iff]
  constructor
  · rintro (hcount | ⟨hcount, hname⟩)
    · exact .inr (.inl hcount)
    · by_cases hlt : a.1 < b.1
      · exact .inr (.inr ⟨hcount, hlt⟩)
      · exact .inl (Prod.ext (String.le_antisymm hname (String.not_lt.mp hlt)) hcount)
  · rintro (rfl | hcount | ⟨hcount, hname⟩)
    · exact .inr ⟨rfl, String.le_refl a.1⟩
    · exact .inl hcount
    · exact .inr ⟨hcount, String.not_lt.mp (String.lt_asymm hname)⟩

theorem ranksBefore_trans (a b c : String × Nat) (hab : ranksBefore a b = true)
    (hbc : ranksBefore b c = true) : ranksBefore a c = true := by
  rw [ranksBefore_iff] at hab hbc ⊢
  rcases hab with rfl | hab
  · exact hbc
  · rcases hbc with rfl | hbc
    · exact .inr hab
    · exact .inr (hab.trans hbc)

theorem ranksBefore_total (a b : String × Nat) : (ranksBefore a b || ranksBefore b a) = true := by
  rw [Bool.or_eq_true, ranksBefore_iff, ranksBefore_iff]
  rcases outranks_trichotomy a b with hab | rfl | hba
  · exact .inl (.inr hab)
  · exact .inl (.inl rfl)
  · exact .inr (.inr hba)

/-! ## §2. Leading entries. -/

/-- The list shows the leading entries: as many as there are up to `n`, no name
twice, each before those of lower rank, and every one of higher rank than all
that are left out. -/
structure Leading (t : Tally) (n : Nat) (shown : List (String × Nat)) : Prop where
  length : shown.length = min n t.entries.length
  counted : ∀ e ∈ shown, e ∈ t.entries
  once : (shown.map Prod.fst).Nodup
  ranked : shown.Pairwise Outranks
  ahead : ∀ e ∈ shown, ∀ o ∈ t.entries, o ∉ shown → Outranks e o

variable {t u : Tally} {n : Nat} {shown other : List (String × Nat)}

theorem Leading.nodup (h : t.Leading n shown) : shown.Nodup := List.Nodup.of_map Prod.fst h.once

/-- A list of leading entries is all of another one if it is part of it. -/
theorem Leading.perm_of_subset (h : t.Leading n shown) (h' : t.Leading n other)
    (hsub : shown ⊆ other) : shown.Perm other :=
  (h.nodup.subperm hsub).perm_of_length_le (Nat.le_of_eq (h'.length.trans h.length.symm))

theorem Leading.subset (h : t.Leading n shown) (h' : t.Leading n other) : shown ⊆ other := by
  intro e he
  by_contra hout
  -- For `e`, which the other list leaves out, it shows an entry left out here.
  have hswap : ∃ o ∈ other, o ∉ shown := by
    by_contra hnone
    have hsub : other ⊆ shown := fun o ho => by_contra fun hleft => hnone ⟨o, ho, hleft⟩
    exact hout ((h'.perm_of_subset h hsub).mem_iff.mpr he)
  obtain ⟨o, ho, hleft⟩ := hswap
  exact (h.ahead e he o (h'.counted o ho) hleft).asymm (h'.ahead o ho e (h.counted e he) hout)

/-- **There is one list** of leading entries. -/
theorem Leading.unique (h : t.Leading n shown) (h' : t.Leading n other) : shown = other := by
  have hperm := h.perm_of_subset h' (h.subset h')
  exact hperm.eq_of_pairwise (fun _ _ _ _ hab hba => absurd hba hab.asymm) h.ranked h'.ranked

/-- The entries may stand in any order. -/
theorem Leading.of_perm (h : t.Leading n shown) (hperm : u.entries.Perm t.entries) :
    u.Leading n shown where
  length := by rw [h.length, hperm.length_eq]
  counted e he := hperm.mem_iff.mpr (h.counted e he)
  once := h.once
  ranked := h.ranked
  ahead e he o ho := h.ahead e he o (hperm.mem_iff.mp ho)

/-! ## §3. Sorting and cutting off. -/

theorem Distinct.of_perm (h : t.Distinct) (hperm : u.entries.Perm t.entries) : u.Distinct :=
  (hperm.map Prod.fst).nodup_iff.mpr h

/-- Sorted, entries with distinct names stand in the order of the strict
ranking. -/
theorem Distinct.pairwise_outranks (h : t.Distinct) :
    (t.entries.mergeSort ranksBefore).Pairwise Outranks := by
  -- The comparison lets equal entries stand either way; none are equal here.
  have hsorted := List.pairwise_mergeSort ranksBefore_trans ranksBefore_total t.entries
  have hnodup : (t.entries.mergeSort ranksBefore).Nodup :=
    (List.mergeSort_perm t.entries ranksBefore).nodup_iff.mpr (List.Nodup.of_map Prod.fst h)
  refine (hsorted.and hnodup).imp ?_
  rintro a b ⟨hbefore, hne⟩
  exact (ranksBefore_iff.mp hbefore).resolve_left hne

/-- **The leaders are the leading entries.** -/
theorem Distinct.leading_leaders (h : t.Distinct) (n : Nat) : t.Leading n (t.leaders n) := by
  have hperm := List.mergeSort_perm t.entries ranksBefore
  have hranked := h.pairwise_outranks
  constructor
  · rw [leaders, List.length_take, hperm.length_eq]
  · exact fun e he => hperm.mem_iff.mp (List.mem_of_mem_take he)
  · have hnames : ((t.entries.mergeSort ranksBefore).map Prod.fst).Nodup :=
      (hperm.map Prod.fst).nodup_iff.mpr h
    rw [leaders, List.map_take]
    exact hnames.sublist (List.take_sublist n _)
  · exact hranked.take
  · intro e he o ho hout
    -- An entry is sorted into the part that is shown or into the rest.
    rw [← List.take_append_drop n (t.entries.mergeSort ranksBefore)] at hranked hperm
    have hrest := (List.mem_append.mp (hperm.mem_iff.mpr ho)).resolve_left hout
    exact (List.pairwise_append.mp hranked).2.2 e he o hrest

/-- The leaders do not depend on the order of the entries. -/
theorem Distinct.leaders_of_perm (h : t.Distinct) (hperm : u.entries.Perm t.entries) (n : Nat) :
    u.leaders n = t.leaders n :=
  ((h.of_perm hperm).leading_leaders n).unique ((h.leading_leaders n).of_perm hperm)

end Tally

/-! ## §4. The tally of a session. -/

namespace Session

/-- Only a record appended is counted, and it keeps the names distinct. -/
theorem lasting_distinct : Lasting fun s => s.stats.opcodes.Distinct where
  push h r := h.bump r.opcode.name
  amend h _ := h
  lend h _ := h
  takeBack h _ := h
  annotate h _ := h
  setOffset h _ := h
  clear h := h

/-- **After every run** no opcode has two entries. -/
theorem distinct_afterAll (scratch : List Reg) (cs : List Command) :
    ((new scratch).afterAll cs).stats.opcodes.Distinct :=
  lasting_distinct.afterAll Tally.distinct_nil cs

end Session

/-! ## §5. The text. -/

namespace Statistics

/-- The text of a breakdown that shows the given entries; empty if there are
none. -/
def breakdownText : List (String × Nat) → String
  | [] => ""
  | shown => "  Opcode breakdown:\n" ++
      String.join (shown.map fun e => "    " ++ e.1 ++ ": " ++ toString e.2 ++ "\n")

/-- The lines of the breakdown, each ended, are its text for the leaders. -/
theorem join_breakdown (t : Tally) :
    String.join ((breakdown t).map fun line => line ++ "\n") =
      breakdownText (t.leaders reported) := by
  unfold breakdown
  cases hentries : t.entries with
  | nil => simp [Tally.leaders, hentries, breakdownText]
  | cons entry rest =>
      -- There is something to show, as the report has room for one entry at least.
      have hlength : (t.leaders reported).length = min reported (rest.length + 1) := by
        rw [Tally.leaders, List.length_take, List.length_mergeSort, hentries, List.length_cons]
      cases hleaders : t.leaders reported with
      | nil =>
          rw [hleaders, reported, List.length_nil] at hlength
          omega
      | cons first others =>
          rw [List.isEmpty_cons, if_neg Bool.false_ne_true, List.map_cons, String.join_cons,
            List.map_map]
          rfl

/-- A report is that of the totals alone, followed by the breakdown. -/
theorem render_eq (s : Statistics) :
    s.render = ({ s with opcodes := {} } : Statistics).render ++
      breakdownText (s.opcodes.leaders reported) := by
  have hnone : breakdownText (Tally.leaders {} reported) = "" := by
    rw [Tally.leaders, List.mergeSort_nil, List.take_nil]
    rfl
  unfold render lines
  rw [List.map_append, String.join_append, join_breakdown, List.map_append, String.join_append,
    join_breakdown, hnone, String.append_empty]

/-- **THE REPORT DOES NOT DEPEND ON THE ORDER OF THE TALLY.**  However the
entries of a tally with distinct names are enumerated, the report is the same
text: the totals, and then the ten leading opcodes, or as many as there are,
by rank and each once.  This list is the only one of leading entries, so no
opcode left out comes before one that is shown. -/
theorem report_ignores_order (s : Statistics) (order : List (String × Nat))
    (hdistinct : s.opcodes.Distinct) (horder : order.Perm s.opcodes.entries) :
    ({ s with opcodes := ⟨order⟩ } : Statistics).render = s.render ∧
      ∃ shown, s.opcodes.Leading 10 shown ∧
        (∀ other, s.opcodes.Leading 10 other → other = shown) ∧
        s.render = ({ s with opcodes := {} } : Statistics).render ++ breakdownText shown := by
  have hleading := hdistinct.leading_leaders reported
  constructor
  · have hleaders : Tally.leaders ⟨order⟩ reported = s.opcodes.leaders reported :=
      hdistinct.leaders_of_perm horder reported
    rw [render_eq, render_eq s, hleaders]
  · refine ⟨s.opcodes.leaders reported, hleading, ?_, render_eq s⟩
    intro other hother
    exact hother.unique hleading

/-- Eleven opcodes, of which nine are appended once: the first of them has no
place in the report. -/
def tiedRun : List Command :=
  [.xor32RR, .mov32RR, .sub32RR, .add32RR, .or32RR, .mov32RR, .sbb32RR, .and32RR, .cmp32RR,
   .imul32RR, .mov32RR, .add32RR, .adc32RR, .sar32RC].map fun op =>
    .append op [.reg (.gp .eax), .reg (.gp .ecx)] false none

/-- What the statistics are after it. -/
def tied : Statistics := ((Session.new Session.defaultScratch).afterAll tiedRun).stats

/-- The ten opcodes shown, by count and then by name. -/
def tiedShown : List (String × Nat) :=
  [("Mov32RR", 3), ("Add32RR", 2), ("Adc32RR", 1), ("And32RR", 1), ("Cmp32RR", 1),
   ("Imul32RR", 1), ("Or32RR", 1), ("Sar32RC", 1), ("Sbb32RR", 1), ("Sub32RR", 1)]

/-- Nine opcodes tie for eight places: the last by name is left out, although
it was the first to be counted, and also with the entries read backwards. -/
theorem report_ignores_order_tied :
    tied.opcodes.Distinct ∧ tied.opcodes.entries.reverse.Perm tied.opcodes.entries ∧
      tied.opcodes.entries.head? = some ("Xor32RR", 1) ∧
      ({ tied with opcodes := ⟨tied.opcodes.entries.reverse⟩ } : Statistics).render =
        tied.render ∧
      tied.render = ({ tied with opcodes := {} } : Statistics).render ++
        breakdownText tiedShown := by
  have hdistinct : tied.opcodes.Distinct := Session.distinct_afterAll _ tiedRun
  have horder := tied.opcodes.entries.reverse_perm
  have hleading : tied.opcodes.Leading 10 tiedShown := by
    constructor <;> decide +kernel
  obtain ⟨hsame, shown, -, hunique, htext⟩ := report_ignores_order tied _ hdistinct horder
  obtain rfl := hunique tiedShown hleading
  exact ⟨hdistinct, horder, by decide +kernel, hsame, htext⟩

end Statistics

end TwoAddress
