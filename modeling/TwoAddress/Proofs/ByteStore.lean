/-
  TwoAddress.Proofs.ByteStore
  ───────────────────────────
  **MEMORY, BYTE BY BYTE.**

  Reading and writing step through the bytes of a value one at a time.  This
  file says at once what each of them comes to: the value read is its bytes,
  the last one on top, and after a write every byte is either one of the
  value's or what it was.  So a value reads back, whole or in parts, and two
  words next to each other read back as one value.  As a number it is the sum
  of its bytes, each counted by its place.
-/
import TwoAddress.Machine.Memory

namespace TwoAddress

namespace Memory

/-! ## §1. Reading. -/

/-- The bytes behind the first one are one place further on. -/
theorem add_one_add (a : Word) (i : Nat) :
    a + 1 + BitVec.ofNat 32 i = a + BitVec.ofNat 32 (i + 1) := by
  rw [BitVec.ofNat_add, BitVec.add_assoc, BitVec.add_comm (BitVec.ofNat 32 i)]
  rfl

/-- What is read is the first byte, with the rest of it on top. -/
theorem setWidth_read_succ (m : Memory) (a : Word) (n : Nat) (hn : n < 8) :
    (m.read a (n + 1)).setWidth (8 * n + 8) =
      (m.read (a + 1) n).setWidth (8 * n) ++ m.byteAt a := by
  refine BitVec.eq_of_getLsbD_eq fun k hk => ?_
  rw [BitVec.getLsbD_setWidth, BitVec.getLsbD_append, BitVec.getLsbD_setWidth, read,
    BitVec.getLsbD_or, BitVec.getLsbD_setWidth, BitVec.getLsbD_shiftLeft]
  by_cases hlow : k < 8
  · have h64 : k < 64 := by omega
    simp [hk, hlow, h64]
  · have h64 : k < 64 := by omega
    have hrest : k - 8 < 8 * n := by omega
    have hbyte : (m.byteAt a).getLsbD k = false := BitVec.getLsbD_of_ge _ _ (by omega)
    simp [hk, hlow, h64, hrest, hbyte]

theorem read_byte (m : Memory) (a : Word) : (m.read a 1).setWidth 8 = m.byteAt a := by
  simp [read]

theorem read_half (m : Memory) (a : Word) :
    (m.read a 2).setWidth 16 = m.byteAt (a + 1) ++ m.byteAt a := by
  rw [← read_byte m (a + 1)]
  exact m.setWidth_read_succ a 1 (by decide)

theorem read_word (m : Memory) (a : Word) :
    (m.read a 4).setWidth 32 =
      m.byteAt (a + 3) ++ m.byteAt (a + 2) ++ m.byteAt (a + 1) ++ m.byteAt a := by
  have hthree : (m.read (a + 1) 3).setWidth 24 =
      m.byteAt (a + 3) ++ m.byteAt (a + 2) ++ m.byteAt (a + 1) := by
    have hstep := m.setWidth_read_succ (a + 1) 2 (by decide)
    have hhalf := m.read_half (a + 1 + 1)
    rw [show a + 1 + 1 + 1 = a + 3 by bv_omega, show a + 1 + 1 = a + 2 by bv_omega] at hhalf
    rw [show a + 1 + 1 = a + 2 by bv_omega] at hstep
    exact hstep.trans (congrArg (· ++ m.byteAt (a + 1)) hhalf)
  exact (m.setWidth_read_succ a 3 (by decide)).trans (congrArg (· ++ m.byteAt a) hthree)

/-! ## §2. Writing. -/

/-- **What a write does.**  The byte at `x` is the `x - a`-th of the value, if
that many were written, and what it was otherwise. -/
theorem byteAt_write (m : Memory) (a x : Word) {n : Nat} (hn : n ≤ 0x100000000) (v : BitVec 64) :
    (m.write a n v).byteAt x =
      if (x - a).toNat < n then (v >>> (8 * (x - a).toNat)).setWidth 8 else m.byteAt x := by
  induction n generalizing m a v with
  | zero => rfl
  | succ n ih =>
      rw [write, ih _ _ (by omega)]
      by_cases hx : x = a
      · -- The first byte is out of reach of the rest of the write.
        subst hx
        have hbefore : ¬ (x - (x + 1)).toNat < n := by bv_omega
        rw [if_neg hbefore, if_pos (by simp)]
        simp [setByte]
      · have hnext : (x - a).toNat = (x - (a + 1)).toNat + 1 := by bv_omega
        have hshift : v >>> 8 >>> (8 * (x - (a + 1)).toNat) = v >>> (8 * (x - a).toNat) := by
          rw [← BitVec.shiftRight_add, hnext]
          congr 1
          omega
        have hkeep : (m.setByte a (v.setWidth 8)).byteAt x = m.byteAt x := if_neg hx
        rw [hshift, hkeep]
        by_cases h : (x - a).toNat < n + 1
        · rw [if_pos h, if_pos (by omega)]
        · rw [if_neg h, if_neg (by omega)]

/-! ## §3. Reading back. -/

/-- A bit of what is read is a bit of the byte it falls into. -/
theorem getLsbD_read (m : Memory) (a : Word) {n : Nat} (hn : n ≤ 8) (k : Nat) :
    (m.read a n).getLsbD k =
      (decide (k < 8 * n) && (m.byteAt (a + BitVec.ofNat 32 (k / 8))).getLsbD (k % 8)) := by
  induction n generalizing a k with
  | zero => simp [read]
  | succ n ih =>
      rw [read, BitVec.getLsbD_or, BitVec.getLsbD_setWidth, BitVec.getLsbD_shiftLeft]
      by_cases hlow : k < 8
      · have hbyte : k / 8 = 0 := by omega
        have hbit : k % 8 = k := by omega
        have h64 : k < 64 := by omega
        have hin : k < 8 * (n + 1) := by omega
        simp [hlow, hbyte, hbit, h64, hin]
      · -- The other bytes are one place further on in both readings.
        have hout : (m.byteAt a).getLsbD k = false := BitVec.getLsbD_of_ge _ _ (by omega)
        have hbyte : a + 1 + BitVec.ofNat 32 ((k - 8) / 8) = a + BitVec.ofNat 32 (k / 8) := by
          have hnext : k / 8 = (k - 8) / 8 + 1 := by omega
          rw [hnext, add_one_add]
        have hbit : (k - 8) % 8 = k % 8 := by omega
        have hin : decide (k - 8 < 8 * n) = decide (k < 8 * (n + 1)) :=
          decide_eq_decide.mpr (by omega)
        rw [hout, ih _ (by omega), hbyte, hbit, hin]
        by_cases h : k < 8 * (n + 1)
        · have h64 : k < 64 := by omega
          simp [hlow, h, h64]
        · simp [h]

/-- **What is read within a write** is that part of the value. -/
theorem getLsbD_read_write (m : Memory) (a : Word) {w j n : Nat} (hw : w ≤ 8) (hin : j + n ≤ w)
    (v : BitVec 64) (k : Nat) :
    ((m.write a w v).read (a + BitVec.ofNat 32 j) n).getLsbD k =
      (decide (k < 8 * n) && v.getLsbD (8 * j + k)) := by
  rw [getLsbD_read _ _ (by omega)]
  by_cases hk : k < 8 * n
  · have hplace : (a + BitVec.ofNat 32 j + BitVec.ofNat 32 (k / 8) - a).toNat = j + k / 8 := by
      rw [BitVec.add_assoc, ← BitVec.ofNat_add]
      bv_omega
    have hbyte : k % 8 < 8 := Nat.mod_lt _ (by decide)
    have hbit : 8 * (j + k / 8) + k % 8 = 8 * j + k := by omega
    rw [byteAt_write _ _ _ (by omega), hplace, if_pos (by omega), BitVec.getLsbD_setWidth,
      BitVec.getLsbD_ushiftRight, hbit]
    simp [hbyte]
  · simp [hk]

theorem read_write_eight (m : Memory) (a : Word) (v : BitVec 64) : (m.write a 8 v).read a 8 = v := by
  refine BitVec.eq_of_getLsbD_eq fun k hk => ?_
  have hbit := getLsbD_read_write m a (j := 0) (n := 8) (Nat.le_refl 8) (by decide) v k
  rw [show a + BitVec.ofNat 32 0 = a from BitVec.add_zero a] at hbit
  rw [hbit]
  simp [hk]

/-- The low word of eight bytes. -/
theorem read_write_low (m : Memory) (a : Word) (v : BitVec 64) :
    ((m.write a 8 v).read a 4).setWidth 32 = v.setWidth 32 := by
  refine BitVec.eq_of_getLsbD_eq fun k hk => ?_
  have hbit := getLsbD_read_write m a (j := 0) (n := 4) (Nat.le_refl 8) (by decide) v k
  rw [show a + BitVec.ofNat 32 0 = a from BitVec.add_zero a] at hbit
  rw [BitVec.getLsbD_setWidth, BitVec.getLsbD_setWidth, hbit]
  simp [hk]

/-- The high word of eight bytes. -/
theorem read_write_high (m : Memory) (a : Word) (v : BitVec 64) :
    ((m.write a 8 v).read (a + 4) 4).setWidth 32 = (v >>> 32).setWidth 32 := by
  refine BitVec.eq_of_getLsbD_eq fun k hk => ?_
  have hbit : ((m.write a 8 v).read (a + 4) 4).getLsbD k = _ :=
    getLsbD_read_write m a (Nat.le_refl 8) (by decide) v k
  rw [BitVec.getLsbD_setWidth, BitVec.getLsbD_setWidth, BitVec.getLsbD_ushiftRight, hbit]
  simp [hk]

theorem getLsbD_pair (hi lo : Word) (k : Nat) :
    (hi ++ lo : BitVec 64).getLsbD k = if k < 32 then lo.getLsbD k else hi.getLsbD (k - 32) :=
  BitVec.getLsbD_append

/-- Bytes of a value in two words. -/
theorem byte_append (hi lo : Word) {d : Nat} (hd : d < 8) :
    ((hi ++ lo : BitVec 64) >>> (8 * d)).setWidth 8 =
      if d < 4 then (lo.setWidth 64 >>> (8 * d)).setWidth 8
      else (hi.setWidth 64 >>> (8 * (d - 4))).setWidth 8 := by
  refine BitVec.eq_of_getLsbD_eq fun k hk => ?_
  rw [BitVec.getLsbD_setWidth, BitVec.getLsbD_ushiftRight, getLsbD_pair]
  split
  next hlow =>
    have h64 : 8 * d + k < 64 := by omega
    rw [if_pos (by omega), BitVec.getLsbD_setWidth, BitVec.getLsbD_ushiftRight,
      BitVec.getLsbD_setWidth, decide_eq_true h64, Bool.true_and]
  next hhigh =>
    have hsame : 8 * d + k - 32 = 8 * (d - 4) + k := by omega
    have h64 : 8 * (d - 4) + k < 64 := by omega
    rw [if_neg (by omega), BitVec.getLsbD_setWidth, BitVec.getLsbD_ushiftRight,
      BitVec.getLsbD_setWidth, hsame, decide_eq_true h64, Bool.true_and]

section Pairs

variable (m : Memory) (a hi lo : Word)

theorem byteAt_write_pair (x : Word) :
    (m.write a 8 (hi ++ lo : BitVec 64)).byteAt x =
      if (x - a).toNat < 4 then (lo.setWidth 64 >>> (8 * (x - a).toNat)).setWidth 8
      else if (x - (a + 4)).toNat < 4 then
        (hi.setWidth 64 >>> (8 * (x - (a + 4)).toNat)).setWidth 8
      else m.byteAt x := by
  rw [byteAt_write _ _ _ (by decide)]
  by_cases hlow : (x - a).toNat < 4
  · rw [if_pos (by omega), if_pos hlow, byte_append hi lo (by omega), if_pos hlow]
  · rw [if_neg hlow]
    by_cases hhigh : (x - (a + 4)).toNat < 4
    · have hplace : (x - a).toNat = (x - (a + 4)).toNat + 4 := by bv_omega
      have hback : (x - a).toNat - 4 = (x - (a + 4)).toNat := by omega
      rw [if_pos (by omega), if_pos hhigh, byte_append hi lo (by omega), if_neg hlow, hback]
    · have hout : ¬ (x - a).toNat < 8 := by bv_omega
      rw [if_neg hout, if_neg hhigh]

/-- **Two words next to each other are one value**, low word first. -/
theorem write_low_high :
    (m.write a 4 (lo.setWidth 64)).write (a + 4) 4 (hi.setWidth 64) =
      m.write a 8 (hi ++ lo : BitVec 64) := by
  refine Memory.ext (funext fun x => ?_)
  rw [byteAt_write_pair, byteAt_write _ _ _ (by decide), byteAt_write _ _ _ (by decide)]
  by_cases hlow : (x - a).toNat < 4
  · -- The words do not overlap.
    have happart : ¬ (x - (a + 4)).toNat < 4 := by bv_omega
    rw [if_neg happart, if_pos hlow, if_pos hlow]
  · rw [if_neg hlow, if_neg hlow]

/-- The order in which the words are written does not matter. -/
theorem write_high_low :
    (m.write (a + 4) 4 (hi.setWidth 64)).write a 4 (lo.setWidth 64) =
      m.write a 8 (hi ++ lo : BitVec 64) := by
  refine Memory.ext (funext fun x => ?_)
  rw [byteAt_write_pair, byteAt_write _ _ _ (by decide), byteAt_write _ _ _ (by decide)]

end Pairs

/-! ## §4. Numbers. -/

/-- The number that bytes next to each other stand for, least significant first.
Addresses wrap around. -/
def number (m : Memory) (a : Word) : Nat → Nat
  | 0 => 0
  | n + 1 => (m.byteAt a).toNat + 256 * m.number (a + 1) n

theorem number_lt (m : Memory) (a : Word) (n : Nat) : m.number a n < 1 <<< (8 * n) := by
  induction n generalizing a with
  | zero => exact Nat.zero_lt_one
  | succ n ih =>
      have hbyte := (m.byteAt a).isLt
      have hrest := ih (a + 1)
      rw [Nat.one_shiftLeft] at hrest ⊢
      rw [number, Nat.mul_succ, Nat.pow_add]
      omega

/-- **What is read is the number** that the bytes stand for. -/
theorem toNat_read (m : Memory) (a : Word) {n : Nat} (hn : n ≤ 8) :
    (m.read a n).toNat = m.number a n := by
  induction n generalizing a with
  | zero => rfl
  | succ n ih =>
      have hbyte := (m.byteAt a).isLt
      have hrest := m.number_lt (a + 1) n
      -- The rest is at most seven bytes, so none of it is shifted out.
      have hfits : m.number (a + 1) n <<< 8 < 2 ^ 64 := by
        have hpow : 2 ^ (8 * n) ≤ 2 ^ 56 := Nat.pow_le_pow_right (by decide) (by omega)
        rw [Nat.one_shiftLeft] at hrest
        rw [Nat.shiftLeft_eq]
        omega
      have hlow : ((m.byteAt a).setWidth 64).toNat = (m.byteAt a).toNat := by
        rw [BitVec.toNat_setWidth]
        exact Nat.mod_eq_of_lt (by omega)
      rw [read, BitVec.toNat_or, BitVec.toNat_shiftLeft, ih _ (by omega), hlow,
        Nat.mod_eq_of_lt hfits, Nat.or_comm, ← Nat.shiftLeft_add_eq_or_of_lt hbyte,
        Nat.shiftLeft_eq, number]
      omega

theorem setWidth_read (m : Memory) (a : Word) {n : Nat} (hn : n ≤ 8) (w : Nat) :
    (m.read a n).setWidth w = BitVec.ofNat w (m.number a n) := by
  rw [← m.toNat_read a hn, BitVec.ofNat_toNat]

end Memory

end TwoAddress
