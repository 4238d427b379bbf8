/-
  TwoAddress.Proofs.TypedStores
  ─────────────────────────────
  **WHAT A STORE WRITES.**

  A store is to put the low bytes of its source at its address, least
  significant first, and to touch nothing else.  Unlike a load it overwrites no
  register, so the second half of a split value finds the address as the first
  one did, whatever registers coincide.  What is left to show is that the two
  halves do not overlap, and that the order in which they come does not matter.

    • §1 memory with some bytes replaced (`Memory.replaced`), and which bytes a
      write replaces by which;
    • §2 what is stored, byte by byte (`Stored`), by one move and by two;
    • §3 all stores (`store_writes`).
-/
import TwoAddress.Proofs.TypedLoads

namespace TwoAddress

/-! ## §1. Bytes. -/

/-- The byte of a value at a position, counted from the least significant one. -/
def byteOf {w : Nat} (v : BitVec w) (k : Nat) : Byte := (v >>> (8 * k)).setWidth 8

/-- To extend a value changes none of its bytes, and to cut it none that is left. -/
theorem byteOf_setWidth {w u : Nat} (v : BitVec w) {k : Nat} (h : w ≤ u ∨ 8 * k + 8 ≤ u) :
    byteOf (v.setWidth u) k = byteOf v k := by
  unfold byteOf
  refine BitVec.eq_of_getLsbD_eq fun j hj => ?_
  rw [BitVec.getLsbD_setWidth, BitVec.getLsbD_setWidth, BitVec.getLsbD_ushiftRight,
    BitVec.getLsbD_ushiftRight, BitVec.getLsbD_setWidth]
  by_cases hin : 8 * k + j < u
  · rw [decide_eq_true hin, Bool.true_and]
  · -- The value is extended, and the bit is past both its ends.
    have hout : v.getLsbD (8 * k + j) = false := BitVec.getLsbD_of_ge _ _ (by omega)
    rw [hout, Bool.and_false]

namespace Memory

/-- Memory with `n` bytes at a place replaced.  Addresses wrap around. -/
def replaced (m : Memory) (place : Word) (n : Nat) (bytes : Nat → Byte) : Memory :=
  ⟨fun x => if (x - place).toNat < n then bytes (x - place).toNat else m.byteAt x⟩

/-- Only the bytes that are put in place count. -/
theorem replaced_congr (m : Memory) (place : Word) {n : Nat} {bytes bytes' : Nat → Byte}
    (h : ∀ k, k < n → bytes k = bytes' k) :
    m.replaced place n bytes = m.replaced place n bytes' := by
  refine Memory.ext (funext fun x => ?_)
  show (if _ then _ else _) = if _ then _ else _
  split
  next hin => exact h _ hin
  next => rfl

/-- **A write replaces bytes** by those of the value. -/
theorem write_eq_replaced (m : Memory) (place : Word) {n : Nat} (hn : n ≤ 8) (v : BitVec 64) :
    m.write place n v = m.replaced place n (byteOf v) :=
  Memory.ext (funext fun x => m.byteAt_write place x (by omega) v)

/-- The value may be cut or extended to 64 bits on its way. -/
theorem write_setWidth {w : Nat} (m : Memory) (place : Word) {n : Nat} (hn : n ≤ 8)
    (v : BitVec w) : m.write place n (v.setWidth 64) = m.replaced place n (byteOf v) := by
  rw [write_eq_replaced m place hn]
  refine m.replaced_congr place fun k hk => ?_
  exact byteOf_setWidth v (Or.inr (by omega))

/-- Two words that are written as one value. -/
theorem write_append (m : Memory) (place hi lo : Word) :
    m.write place 8 (hi ++ lo : BitVec 64) =
      m.replaced place 8 fun k => if k < 4 then byteOf lo k else byteOf hi (k - 4) := by
  rw [write_eq_replaced m place (Nat.le_refl 8)]
  refine m.replaced_congr place fun k hk => ?_
  show ((hi ++ lo : BitVec 64) >>> (8 * k)).setWidth 8 = _
  rw [byte_append hi lo hk]
  split
  · exact byteOf_setWidth lo (Or.inl (by decide))
  · exact byteOf_setWidth hi (Or.inl (by decide))

end Memory

/-! ## §2. What is stored. -/

/-- `m'` is `m` after a store of a size from registers to a place.  Nothing but the
bytes of that size at the place has changed. -/
inductive Stored (m : Machine) (place : Word) : AccessSize → Reg → Reg → Machine → Prop where
  /-- A word, a half or a byte comes from a general-purpose register. -/
  | gp {size : AccessSize} (hsize : size.isWide = false) (r : GpReg) (hi : Reg) :
      Stored m place size (.gp r) hi
        { m with memory := m.memory.replaced place size.bytes (byteOf (m.gp r)) }
  /-- The two words of 64 bits come from a general-purpose register each, the
  second one four bytes further on. -/
  | pair {size : AccessSize} (hsize : size.isWide = true) (lo hi : GpReg) :
      Stored m place size (.gp lo) (.gp hi)
        { m with memory := m.memory.replaced place size.bytes fun k =>
            if k < 4 then byteOf (m.gp lo) k else byteOf (m.gp hi) (k - 4) }
  /-- 32 or 64 bits come from the low end of an xmm register. -/
  | xmm {size : AccessSize} (r : XmmReg) (hi : Reg) {x : Fin 8} (hx : r.index.toNat = x.val) :
      Stored m place size (.xmm r) hi
        { m with memory := m.memory.replaced place size.bytes (byteOf (m.xmm x)) }

theorem AccessSize.bytes_le (size : AccessSize) : size.bytes ≤ 8 := by
  cases size <;> decide

theorem AccessSize.bytes_extension {size : AccessSize} (hsize : size.isWide = false) :
    size.extension.bytes = size.bytes := by
  cases size with
  | long | double => exact absurd hsize (by decide)
  | _ => rfl

section Moves

variable {size : AccessSize} {a : Address} {m : Machine} {t : Transfer}

theorem stored_transferred (hsize : size.isWide = false) (r : GpReg) (hi : Reg) :
    Stored m (m.locate a) size (.gp r) hi (m.transferred .store size a r) := by
  unfold Machine.transferred
  rw [AccessSize.bytes_extension hsize, m.memory.write_setWidth _ size.bytes_le]
  exact .gp hsize r hi

theorem stored_transferredXmm (hsize : 4 ≤ size.bytes) {r : XmmReg} (hi : Reg) {x : Fin 8}
    (hx : r.index.toNat = x.val) :
    Stored m (m.locate a) size (.xmm r) hi (m.transferredXmm .store size a x) := by
  unfold Machine.transferredXmm
  rw [AccessSize.bytes_lane hsize, m.memory.write_setWidth _ size.bytes_le]
  exact .xmm r hi hx

/-- **A single move stores.** -/
theorem stored_of_whole (hstore : t.direction = .store) (hclass : t.wellClassed = true)
    (hsplit : t.isSplit = false) (hscale : t.scale ≤ 3) (m : Machine) :
    ∃ m', (Machine.run t.moves).on m = (.ok (), m') ∧
      Stored m (m.locate t.address) t.size t.lo t.hi m' := by
  rcases t.run_whole hclass hsplit hscale m with
    ⟨r, hlo, hnarrow, hrun⟩ | ⟨r, x, hlo, hx, hword, hrun⟩
  · rw [hstore] at hrun
    rw [hlo]
    exact ⟨_, hrun, stored_transferred hnarrow r t.hi⟩
  · rw [hstore] at hrun
    rw [hlo]
    exact ⟨_, hrun, stored_transferredXmm hword t.hi hx⟩

/-- **Two moves store**, in either order. -/
theorem stored_of_split (hstore : t.direction = .store) (hclass : t.wellClassed = true)
    (hsplit : t.isSplit = true) (hadmitted : t.Admitted) (m : Machine) :
    ∃ m', (Machine.run t.moves).on m = (.ok (), m') ∧
      Stored m (m.locate t.address) t.size t.lo t.hi m' := by
  obtain ⟨lo, hi, ht, hsize, hwide⟩ := t.pair_of_split hclass hsplit hadmitted
  have hlo : t.lo = .gp lo := congrArg Transfer.lo ht
  have hhi : t.hi = .gp hi := congrArg Transfer.hi ht
  -- In either order the two moves are one write of eight bytes.
  have hrun := run_store_pair hwide hsize lo hi m
  rw [← hstore, ← ht, m.memory.write_append, ← AccessSize.bytes_of_isWide hsize] at hrun
  refine ⟨_, hrun, ?_⟩
  rw [hlo, hhi]
  exact .pair hsize lo hi

end Moves

/-! ## §3. All stores. -/

/-- **STORES WRITE WHAT THEY SHOULD, AND NOTHING ELSE.**  Let a session meet a store
of any size, to an address in general-purpose registers as far as it is in
registers, from a register that the machine has; a half or a byte comes from a
general-purpose one.  The registers may coincide in any way.  What the session
appends runs to its end from every machine.  No register and no flag is changed,
and memory is changed in the bytes of the size at the address only: they are
the low bytes of the source. -/
theorem store_writes (s : Session) (t : Transfer) (hstore : t.direction = .store)
    (hclass : t.wellClassed = true) (hreturns : s.Returns [.transfer t]) (m : Machine) :
    ∃ m', s.Executes [.transfer t] m m' ∧
      Stored m (m.locate t.address) t.size t.lo t.hi m' := by
  have hadmitted := Session.admitted_of_returns hreturns
  cases hcase : t.isSplit with
  | false =>
      obtain ⟨m', hrun, hstored⟩ := stored_of_whole hstore hclass hcase hadmitted.scale m
      exact ⟨m', s.executes_transfer hadmitted hrun, hstored⟩
  | true =>
      obtain ⟨m', hrun, hstored⟩ := stored_of_split hstore hclass hcase hadmitted m
      exact ⟨m', s.executes_transfer hadmitted hrun, hstored⟩

/-- 64 bits from `esi` and `edi`, which are also base and index.  The high half goes
first, and memory ends between the two. -/
theorem store_writes_own_address :
    let t : Transfer :=
      { direction := .store, base := .gp .esi, index := .gp .edi, scale := 2, disp := -8
        lo := .gp .esi, hi := .gp .edi, size := .long }
    let m : Machine :=
      { gp := fun g => if g = .esi then 0xBB7732F4 else if g = .edi then 0x11223344 else 7
        memory := ⟨fun _ => 0x55⟩, carry := true }
    t.direction = .store ∧ t.wellClassed = true ∧ (Session.new []).Returns [.transfer t] ∧
    m.locate t.address = 0xFFFFFFFC ∧
    ∃ m', (Session.new []).Executes [.transfer t] m m' ∧ m'.gp = m.gp ∧ m'.carry = true ∧
      (List.map m'.memory.byteAt [0xFFFFFFFB, 0xFFFFFFFC, 0xFFFFFFFD, 0xFFFFFFFE, 0xFFFFFFFF]) =
        [0x55, 0xF4, 0x32, 0x77, 0xBB] ∧
      (List.map m'.memory.byteAt [0, 1, 2, 3, 4]) = [0x44, 0x33, 0x22, 0x11, 0x55] := by
  intro t m
  have hreturns : (Session.new []).Returns [.transfer t] := by decide
  obtain ⟨m', hexecutes, hstored⟩ := store_writes (Session.new []) t rfl (by decide) hreturns m
  refine ⟨rfl, by decide, hreturns, by decide, m', hexecutes, ?_⟩
  cases hstored with
  | gp hsize => exact absurd hsize (by decide)
  | pair hsize => exact ⟨rfl, rfl, by decide, by decide⟩

end TwoAddress
