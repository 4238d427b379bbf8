/-
  TwoAddress.Session.Statistics
  ─────────────────────────────
  **COUNTING WHAT A SESSION DOES.**

  A tally counts names.  The statistics of a session are a few totals and a
  tally of the opcodes emitted; the report shows the totals and the ten
  leading opcodes, most frequent first and by name among equals.
-/

namespace TwoAddress

/-! ## §1. Tallies. -/

/-- How often each name was counted.  Each name has at most one entry. -/
structure Tally where
  entries : List (String × Nat) := []
  deriving DecidableEq, Repr

namespace Tally

/-- Count a name once more. -/
def bump (t : Tally) (name : String) : Tally := ⟨go t.entries⟩
where
  /-- Raise the name's entry, or add one at the end. -/
  go : List (String × Nat) → List (String × Nat)
    | [] => [(name, 1)]
    | (n, k) :: rest => if n = name then (n, k + 1) :: rest else (n, k) :: go rest

/-- How often a name was counted, if at all. -/
def count? (t : Tally) (name : String) : Option Nat := t.entries.lookup name

/-- The entries in alphabetical order. -/
def byName (t : Tally) : List (String × Nat) :=
  t.entries.mergeSort fun a b => decide (a.1 ≤ b.1)

/-- The first entry ranks before the second: it was counted more often, or as
often and comes first by name. -/
def ranksBefore (a b : String × Nat) : Bool :=
  decide (b.2 < a.2) || (decide (a.2 = b.2) && decide (a.1 ≤ b.1))

/-- The leading entries, at most `n` of them. -/
def leaders (t : Tally) (n : Nat) : List (String × Nat) :=
  (t.entries.mergeSort ranksBefore).take n

end Tally

/-! ## §2. Statistics. -/

/-- What a session has done so far. -/
structure Statistics where
  /-- Records appended. -/
  emitted : Nat := 0
  /-- Records that were inert when appended. -/
  inert : Nat := 0
  /-- Scratch registers borrowed. -/
  borrowed : Nat := 0
  /-- Frame slots noted. -/
  annotated : Nat := 0
  /-- Records appended, by opcode name. -/
  opcodes : Tally := {}
  deriving DecidableEq, Repr

namespace Statistics

/-- How many opcodes the report shows. -/
def reported : Nat := 10

/-- The lines of the report on opcodes; none if there is nothing to show. -/
def breakdown (t : Tally) : List String :=
  if t.entries.isEmpty then []
  else "  Opcode breakdown:" ::
    (t.leaders reported).map fun e => "    " ++ e.1 ++ ": " ++ toString e.2

/-- The report, a line each. -/
def lines (s : Statistics) : List String :=
  ["Codegen Session Statistics:",
   "  Records emitted: " ++ toString s.emitted,
   "  Inert records: " ++ toString s.inert,
   "  Scratch registers borrowed: " ++ toString s.borrowed,
   "  Frame-slot annotations: " ++ toString s.annotated] ++ breakdown s.opcodes

/-- The report as text, every line ended. -/
def render (s : Statistics) : String :=
  String.join (s.lines.map fun line => line ++ "\n")

end Statistics

end TwoAddress
