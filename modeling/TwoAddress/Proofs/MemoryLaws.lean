/-
  TwoAddress.Proofs.MemoryLaws
  ────────────────────────────
  **READING WHAT WAS WRITTEN.**

  Values of up to eight bytes are put into memory and taken out of it one byte
  at a time, at addresses that wrap around.  The laws that make this a store of
  numbers do not speak of bytes: what was written is read back, what was written
  elsewhere does not matter, and a value may be read in two parts.

    • §1 the addresses that a value takes up, and values apart from each other;
    • §2 the number that is read: in two parts, after a write to the same place,
      and after writes elsewhere;
    • §3 all of it, for any memory (`memory_keeps_values`).
-/
import Mathlib.Algebra.Group.Nat.Defs
import TwoAddress.Proofs.ByteStore

namespace TwoAddress

namespace Memory

/-! ## §1. Places. -/

/-- The addresses of `n` bytes from `a` on.  They wrap around. -/
def places (a : Word) (n : Nat) : List Word := (List.range n).map fun i => a + BitVec.ofNat 32 i

/-- No byte is in both ranges. -/
def Apart (a : Word) (n : Nat) (b : Word) (k : Nat) : Prop := ∀ x ∈ places a n, x ∉ places b k

instance (a : Word) (n : Nat) (b : Word) (k : Nat) : Decidable (Apart a n b k) :=
  List.decidableBAll (fun x => x ∉ places b k) (places a n)

theorem mem_places {a x : Word} {n : Nat} :
    x ∈ places a n ↔ ∃ i < n, a + BitVec.ofNat 32 i = x := by
  simp only [places, List.mem_map, List.mem_range]

/-- An address that is a short way from the first one is among them. -/
theorem mem_places_of_sub {a x : Word} {n : Nat} (h : (x - a).toNat < n) : x ∈ places a n := by
  refine mem_places.mpr ⟨(x - a).toNat, h, ?_⟩
  rw [BitVec.ofNat_toNat, BitVec.setWidth_eq, BitVec.add_comm, BitVec.sub_add_cancel]

/-! ## §2. Numbers. -/

theorem number_congr {m m' : Memory} {a : Word} {n : Nat}
    (h : ∀ x ∈ places a n, m.byteAt x = m'.byteAt x) : m.number a n = m'.number a n := by
  induction n generalizing a with
  | zero => rfl
  | succ n ih =>
      have hfirst : m.byteAt a = m'.byteAt a :=
        h a (mem_places.mpr ⟨0, by omega, BitVec.add_zero a⟩)
      have hrest : ∀ x ∈ places (a + 1) n, m.byteAt x = m'.byteAt x := by
        intro x hx
        obtain ⟨i, hi, rfl⟩ := mem_places.mp hx
        exact h _ (mem_places.mpr ⟨i + 1, by omega, (add_one_add a i).symm⟩)
      rw [number, number, hfirst, ih hrest]

theorem pow_bytes_succ (n : Nat) : 2 ^ (8 * (n + 1)) = 256 * 2 ^ (8 * n) := by
  rw [Nat.mul_succ, Nat.pow_add, Nat.mul_comm]

/-- **A value in two parts**: the second one counts by its place. -/
theorem number_add (m : Memory) (a : Word) (n k : Nat) :
    m.number a (n + k) = m.number a n + 2 ^ (8 * n) * m.number (a + BitVec.ofNat 32 n) k := by
  induction n generalizing a with
  | zero =>
      have hplace : a + BitVec.ofNat 32 0 = a := BitVec.add_zero a
      rw [Nat.zero_add, hplace, number, Nat.zero_add, Nat.mul_zero, Nat.pow_zero, Nat.one_mul]
  | succ n ih =>
      rw [Nat.succ_add, number, ih (a + 1), number, add_one_add, pow_bytes_succ, Nat.mul_add,
        Nat.mul_assoc, Nat.add_assoc]

/-- **What was written is read back**, as far as it was written. -/
theorem number_write_self (m : Memory) (a : Word) {n : Nat} (hn : n ≤ 8) (v : BitVec 64) :
    (m.write a n v).number a n = v.toNat % 2 ^ (8 * n) := by
  induction n generalizing m a v with
  | zero => rw [number, Nat.mul_zero, Nat.pow_zero, Nat.mod_one]
  | succ n ih =>
      -- The rest of the value does not come round to the first byte.
      have hfirst : (m.write a (n + 1) v).byteAt a = v.setWidth 8 := by
        rw [byteAt_write _ _ _ (by omega), BitVec.sub_self, if_pos (by simp)]
        rfl
      have hbyte : (v.setWidth 8).toNat = v.toNat % 256 := BitVec.toNat_setWidth 8 v
      have hrest : (m.write a (n + 1) v).number (a + 1) n = v.toNat / 256 % 2 ^ (8 * n) := by
        rw [write, ih _ _ (by omega), BitVec.toNat_ushiftRight, Nat.shiftRight_eq_div_pow]
      rw [number, hfirst, hrest, hbyte, pow_bytes_succ, Nat.mod_mul]

/-- **What was written elsewhere** does not matter. -/
theorem number_write_apart (m : Memory) {a b : Word} {n k : Nat} (hn : n ≤ 8) (v : BitVec 64)
    (h : Apart a n b k) : (m.write a n v).number b k = m.number b k := by
  refine number_congr fun x hx => ?_
  have hout : ¬ (x - a).toNat < n := fun hin => h x (mem_places_of_sub hin) hx
  rw [byteAt_write _ _ _ (by omega), if_neg hout]

/-- A value at a place. -/
structure Write where
  place : Word
  width : Nat
  value : BitVec 64
  width_le : width ≤ 8 := by decide

/-- Values written one after the other. -/
def after (m : Memory) (ws : List Write) : Memory :=
  ws.foldl (fun m w => m.write w.place w.width w.value) m

theorem number_after_apart (m : Memory) {b : Word} {k : Nat} {ws : List Write}
    (h : ∀ w ∈ ws, Apart w.place w.width b k) : (m.after ws).number b k = m.number b k := by
  induction ws generalizing m with
  | nil => rfl
  | cons w ws ih =>
      show ((m.write w.place w.width w.value).after ws).number b k = _
      rw [ih _ fun w' hw' => h w' (List.mem_cons_of_mem w hw')]
      exact m.number_write_apart w.width_le w.value (h w List.mem_cons_self)

theorem number_zero (b : Word) (k : Nat) : zero.number b k = 0 := by
  induction k generalizing b with
  | zero => rfl
  | succ k ih => rw [number, ih]; rfl

/-! ## §3. Any memory. -/

/-- **MEMORY KEEPS VALUES.**  Values have up to eight bytes, the least significant one
first, and addresses wrap around.  After a write the value is read back at its
place, modulo what there is room for; a read of other bytes gives what it gave
before.  A value may be read in two parts, of which the second counts by its
place.  Where nothing has been written, whatever was written elsewhere, memory
reads as zero. -/
theorem memory_keeps_values (m : Memory) (a b : Word) {n k : Nat} (hn : n ≤ 8) (hk : k ≤ 8)
    (v : BitVec 64) :
    ((m.write a n v).read a n).toNat = v.toNat % 2 ^ (8 * n) ∧
    (Apart a n b k → (m.write a n v).read b k = m.read b k) ∧
    (n + k ≤ 8 → (m.read a (n + k)).toNat =
      (m.read a n).toNat + 2 ^ (8 * n) * (m.read (a + BitVec.ofNat 32 n) k).toNat) ∧
    ∀ ws : List Write, (∀ w ∈ ws, Apart w.place w.width b k) → (zero.after ws).read b k = 0 := by
  refine ⟨?_, fun hapart => ?_, fun hboth => ?_, fun ws hapart => ?_⟩
  · rw [toNat_read _ _ hn, number_write_self m a hn]
  · apply BitVec.eq_of_toNat_eq
    rw [toNat_read _ _ hk, toNat_read _ _ hk, number_write_apart m hn v hapart]
  · rw [toNat_read _ _ hboth, toNat_read _ _ hn, toNat_read _ _ hk, number_add]
  · apply BitVec.eq_of_toNat_eq
    rw [toNat_read _ _ hk, number_after_apart zero hapart, number_zero]
    rfl

/-- Four bytes of a longer value, two of them at each end of memory. -/
theorem memory_keeps_values_wrapping :
    let m : Memory := ⟨fun _ => 0x55⟩
    4 ≤ 8 ∧ 2 ≤ 8 ∧ Apart 0xFFFFFFFE 4 2 2 ∧
    ((m.write 0xFFFFFFFE 4 0x9911223344).read 0xFFFFFFFE 4).toNat = 0x11223344 ∧
    (m.write 0xFFFFFFFE 4 0x9911223344).read 2 2 = m.read 2 2 ∧
    (zero.after [{ place := 0xFFFFFFFE, width := 4, value := 0x9911223344 }]).read 2 2 = 0 := by
  intro m
  have hapart : Apart 0xFFFFFFFE 4 2 2 := by decide
  obtain ⟨hsame, hother, -, hzero⟩ :=
    memory_keeps_values m 0xFFFFFFFE 2 (n := 4) (k := 2) (by decide) (by decide) 0x9911223344
  refine ⟨by decide, by decide, hapart, ?_, hother hapart, hzero _ fun w hw => ?_⟩
  · rw [hsame]
    decide
  · rw [List.mem_singleton.mp hw]
    exact hapart

end Memory

end TwoAddress
