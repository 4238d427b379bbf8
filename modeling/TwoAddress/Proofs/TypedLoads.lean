/-
  TwoAddress.Proofs.TypedLoads
  ────────────────────────────
  **WHAT A LOAD DELIVERS.**

  A load is to bring the bytes at its address, as the registers name it when
  the load begins, into its destination.  A single move does.  A 64-bit value
  in two general-purpose registers takes two moves, and the second one finds
  the address as the first one left it: the order of the two protects the
  base, and nothing protects the index.

    • §1 a transfer as a single move, or as the two of a pair;
    • §2 what is delivered, as numbers (`Loaded`), and single moves;
    • §3 a memory that tells a place from every other, hence when a split load
      is right (`split_load_right_iff`);
    • §4 all loads in which the index is not at risk (`load_delivers`).
-/
import TwoAddress.Proofs.Progress

namespace TwoAddress

/-! ## §1. Whole and split. -/

namespace Transfer

variable {t : Transfer}

/-- The double that stands for an xmm register has its number. -/
theorem whole_of_xmm {r : XmmReg} (h : t.lo = .xmm r) :
    ∃ r', t.whole = .xmm r' ∧ r'.index = r.index := by
  unfold whole
  rw [h]
  cases t.size.isWide with
  | false => exact ⟨r, rfl, rfl⟩
  | true => exact ⟨⟨r.index, .double⟩, rfl, rfl⟩

/-- **A transfer that is a single move** goes through a general-purpose register,
and is then no more than a word, or through an xmm register, and is then no
less. -/
theorem run_whole (hclass : t.wellClassed = true) (hsplit : t.isSplit = false)
    (hscale : t.scale ≤ 3) (m : Machine) :
    (∃ r, t.lo = .gp r ∧ t.size.isWide = false ∧
      (Machine.run t.moves).on m = (.ok (), m.transferred t.direction t.size t.address r)) ∨
    ∃ r x, t.lo = .xmm r ∧ r.index.toNat = x.val ∧ 4 ≤ t.size.bytes ∧
      (Machine.run t.moves).on m = (.ok (), m.transferredXmm t.direction t.size t.address x) := by
  obtain ⟨hbase, hindex, hfile, hsize⟩ := wellClassed_iff.mp hclass
  rw [moves_of_whole hsplit]
  cases hlo : t.lo with
  | absent =>
      rw [hlo] at hfile
      exact absurd hfile (by decide)
  | gp r =>
      have hnarrow : t.size.isWide = false := by
        rw [isSplit, hlo] at hsplit
        simpa [Reg.isXmm] using hsplit
      rw [whole_of_narrow hnarrow, hlo]
      exact Or.inl ⟨r, rfl, hnarrow, Machine.run_single rfl
        (Synthesis.step_transferMove m t.direction t.size r hbase hindex hscale)⟩
  | xmm r =>
      rw [hlo] at hfile hsize
      have hword : 4 ≤ t.size.bytes := hsize.resolve_left (by simp [Reg.isGp])
      obtain ⟨r', hwhole, hsame⟩ := whole_of_xmm hlo
      have hx : Machine.xmmIndex (.xmm r') = .ok ⟨r.index.toNat, of_decide_eq_true hfile⟩ :=
        xmmIndex_double (congrArg UInt8.toNat hsame)
      rw [hwhole]
      exact Or.inr ⟨r, ⟨r.index.toNat, of_decide_eq_true hfile⟩, rfl, rfl, hword,
        Machine.run_single rfl
          (Synthesis.step_transferMove_xmm m t.direction hword rfl hx hbase hindex hscale)⟩

/-- **A transfer that is split** goes through two general-purpose registers, at an
address that has room for both halves. -/
theorem pair_of_split (hclass : t.wellClassed = true) (hsplit : t.isSplit = true)
    (hadmitted : t.Admitted) :
    ∃ lo hi, t = t.address.transfer t.direction t.size (.gp lo) (.gp hi) ∧
      t.size.isWide = true ∧ t.address.HoldsWide := by
  obtain ⟨hbase, hindex, hfile, -⟩ := wellClassed_iff.mp hclass
  have hhigh := (hadmitted.split hsplit).1
  simp only [isSplit, Bool.and_eq_true, Bool.not_eq_true'] at hsplit
  obtain ⟨hsize, hxmm⟩ := hsplit
  obtain ⟨lo, hlo⟩ := Reg.eq_gp_of_isGp (Reg.isGp_of_inFile hfile hxmm)
  obtain ⟨hi, hhi⟩ := Reg.eq_gp_of_isGp hhigh
  have ht : t = t.address.transfer t.direction t.size (.gp lo) (.gp hi) := by
    rw [← hlo, ← hhi]
    rfl
  exact ⟨lo, hi, ht, hsize, holdsWide_of_admitted hbase hindex hsize (ht ▸ hadmitted)⟩

end Transfer

/-! ## §2. Single moves. -/

/-- How a word is filled by a number of a size: signed ones are extended. -/
def AccessSize.fill : AccessSize → Nat → Word
  | .signedByte, n => (BitVec.ofNat 8 n).signExtend 32
  | .signedHalf, n => (BitVec.ofNat 16 n).signExtend 32
  | _, n => BitVec.ofNat 32 n

/-- `m'` is `m` after a load of a size from a place into registers.  Nothing but
these registers has changed. -/
inductive Loaded (m : Machine) (place : Word) : AccessSize → Reg → Reg → Machine → Prop where
  /-- A word, a half or a byte fills a general-purpose register. -/
  | gp {size : AccessSize} (hsize : size.isWide = false) (r : GpReg) (hi : Reg) :
      Loaded m place size (.gp r) hi
        (m.setGp r (size.fill (m.memory.number place size.bytes)))
  /-- The two words of 64 bits fill a general-purpose register each. -/
  | pair {size : AccessSize} (hsize : size.isWide = true) (lo hi : GpReg) :
      Loaded m place size (.gp lo) (.gp hi)
        ((m.setGp lo (BitVec.ofNat 32 (m.memory.number place 4))).setGp hi
          (BitVec.ofNat 32 (m.memory.number (place + 4) 4)))
  /-- 32 or 64 bits stand alone in an xmm register. -/
  | xmm {size : AccessSize} (r : XmmReg) (hi : Reg) {x : Fin 8} (hx : r.index.toNat = x.val) :
      Loaded m place size (.xmm r) hi
        (m.setXmm x (BitVec.ofNat 128 (m.memory.number place size.bytes)))

theorem Memory.word_eq_number (memory : Memory) (a : Word) :
    memory.word a = BitVec.ofNat 32 (memory.number a 4) :=
  memory.setWidth_read a (by decide) 32

/-- A narrow number is not changed by being cut to its width. -/
theorem setWidth_ofNat_of_lt {n w : Nat} (hw : w ≤ 32) (hn : n < 1 <<< w) :
    ((BitVec.ofNat 32 n).setWidth w).setWidth 32 = BitVec.ofNat 32 n := by
  have hpow : 2 ^ w ≤ 2 ^ 32 := Nat.pow_le_pow_right (by decide) hw
  rw [Nat.one_shiftLeft] at hn
  apply BitVec.eq_of_toNat_eq
  rw [BitVec.toNat_setWidth, BitVec.toNat_setWidth, BitVec.toNat_ofNat,
    Nat.mod_eq_of_lt (Nat.lt_of_lt_of_le hn hpow), Nat.mod_eq_of_lt hn,
    Nat.mod_eq_of_lt (Nat.lt_of_lt_of_le hn hpow)]

/-- Extending the bytes of a size is filling a word with their number. -/
theorem AccessSize.fill_number {size : AccessSize} (hsize : size.isWide = false) (memory : Memory)
    (a : Word) :
    size.extension.apply ((memory.read a size.extension.bytes).setWidth 32) =
      size.fill (memory.number a size.bytes) := by
  cases size with
  | word | single => exact memory.word_eq_number a
  | long | double => exact absurd hsize (by decide)
  | signedByte | signedHalf =>
      -- The sign is that of the narrow number, which the word has kept.
      simp only [extension, Extension.apply, Extension.bytes, fill, bytes]
      rw [BitVec.setWidth_setWidth_of_le _ (by decide), memory.setWidth_read a (by decide)]
  | unsignedByte =>
      simp only [extension, Extension.apply, Extension.bytes, fill, bytes]
      rw [memory.setWidth_read a (by decide)]
      exact setWidth_ofNat_of_lt (by decide) (memory.number_lt a 1)
  | unsignedHalf =>
      simp only [extension, Extension.apply, Extension.bytes, fill, bytes]
      rw [memory.setWidth_read a (by decide)]
      exact setWidth_ofNat_of_lt (by decide) (memory.number_lt a 2)

section Moves

variable {size : AccessSize} {a : Address} {m : Machine}

theorem loaded_transferred (hsize : size.isWide = false) (r : GpReg) (hi : Reg) :
    Loaded m (m.locate a) size (.gp r) hi (m.transferred .load size a r) := by
  unfold Machine.transferred
  rw [AccessSize.fill_number hsize]
  exact .gp hsize r hi

theorem loaded_transferredXmm (hsize : 4 ≤ size.bytes) {r : XmmReg} (hi : Reg) {x : Fin 8}
    (hx : r.index.toNat = x.val) :
    Loaded m (m.locate a) size (.xmm r) hi (m.transferredXmm .load size a x) := by
  have hbytes : size.bytes ≤ 8 := by cases size <;> decide
  unfold Machine.transferredXmm
  rw [AccessSize.bytes_lane hsize, m.memory.setWidth_read _ hbytes]
  exact .xmm r hi hx

end Moves

/-! ## §3. When a split load is right. -/

namespace Memory

/-- Every byte is one, but for the word at a place. -/
def gap (place : Word) : Memory := ⟨fun x => if (x - place).toNat < 4 then 0 else 1⟩

theorem word_of_bytes {memory : Memory} {a : Word} {b : BitVec 8}
    (h : ∀ i : Word, i.toNat < 4 → memory.byteAt (a + i) = b) :
    memory.word a = (b ++ b ++ b ++ b : BitVec 32) := by
  have hfirst := h 0 (by decide)
  rw [show a + 0 = a from BitVec.add_zero a] at hfirst
  show (memory.read a 4).setWidth 32 = _
  rw [read_word, h 1 (by decide), h 2 (by decide), h 3 (by decide), hfirst]

theorem word_gap (place : Word) : (gap place).word place = 0 := by
  rw [word_of_bytes (b := 0)]
  · decide
  · intro i hi
    refine if_pos ?_
    rw [BitVec.add_comm, BitVec.add_sub_cancel]
    exact hi

/-- A word that has nothing of the gap. -/
theorem word_gap_of_apart (place : Word) {d : Word} (hd : 4 ≤ d.toNat)
    (hd' : d.toNat + 3 < 0x100000000) : (gap place).word (place + d) = 0x01010101 := by
  rw [word_of_bytes (b := 1)]
  · decide
  · intro i hi
    refine if_neg ?_
    bv_omega

end Memory

section Exposed

open Machine

variable {a : Address} {lo hi : GpReg}

/-- With nothing in its registers an address is its displacement. -/
theorem locate_of_zero (a : Address) (memory : Memory) :
    ({ memory } : Machine).locate a = a.disp := by
  have hvalue : ∀ r : Reg, ({ memory } : Machine).valueOf r = 0 := by
    intro r
    cases r <;> rfl
  unfold locate
  rw [hvalue, hvalue]
  simp

/-- A word that gets into the index moves the place. -/
theorem locate_of_index {g : GpReg} (hindex : a.index = .gp g) (hbase : a.base ≠ .gp g)
    (memory : Memory) (v : Word) :
    (({ memory } : Machine).setGp g v).locate a = a.disp + v <<< a.scale.toNat := by
  have hzero : (({ memory } : Machine).setGp g v).valueOf a.base = 0 := by
    rw [valueOf_setGp _ hbase]
    cases a.base <;> rfl
  have hv : (({ memory } : Machine).setGp g v).valueOf a.index = v := by
    rw [hindex]
    exact if_pos rfl
  unfold locate
  rw [hzero, hv, BitVec.add_comm a.disp]
  simp

theorem shift_apart {scale : UInt8} (h : scale ≤ 3) :
    4 ≤ ((0x01010101 : Word) <<< scale.toNat).toNat ∧
      ((0x01010101 : Word) <<< scale.toNat).toNat + 3 < 0x100000000 := by
  have hscale : scale.toNat ≤ 3 := UInt8.le_iff_toNat_le.mp h
  generalize scale.toNat = n at hscale
  have hcases : n = 0 ∨ n = 1 ∨ n = 2 ∨ n = 3 := by omega
  rcases hcases with rfl | rfl | rfl | rfl <;> decide

/-- **An index that the first half fills** leads the second half astray: there is
a machine on which it does not bring what is at its place. -/
theorem loadedSplit_of_filled (hne : lo ≠ hi) (hscale : a.scale ≤ 3)
    (hfilled : a.index = a.firstFilled lo hi) :
    ∃ m : Machine, (m.loadedSplit a lo hi).gp lo ≠ m.memory.word (m.locate a) ∨
      (m.loadedSplit a lo hi).gp hi ≠ m.memory.word (m.locate a + 4) := by
  obtain ⟨hfar, hnear⟩ := shift_apart hscale
  unfold Address.firstFilled at hfilled
  unfold loadedSplit
  by_cases hbase : a.base = .gp lo
  · -- The high half goes first, into the index; the low word is the gap.
    rw [if_pos hbase] at hfilled
    have hother : a.base ≠ .gp hi := by
      rw [hbase]
      exact fun h => hne (Reg.gp.inj h)
    refine ⟨{ memory := .gap a.disp }, Or.inl ?_⟩
    rw [if_pos hbase, locate_of_zero]
    have hfirst : (Memory.gap a.disp).word (a.disp + 4) = 0x01010101 :=
      Memory.word_gap_of_apart a.disp (by decide) (by decide)
    show (if lo = lo then _ else _ : Word) ≠ _
    rw [if_pos rfl, hfirst, locate_of_index hfilled hother, Memory.word_gap_of_apart _ hfar hnear,
      Memory.word_gap]
    decide
  · -- The low half goes first, into the index; the high word is the gap.
    rw [if_neg hbase] at hfilled
    refine ⟨{ memory := .gap (a.disp + 4) }, Or.inr ?_⟩
    rw [if_neg hbase, locate_of_zero]
    have hfirst : (Memory.gap (a.disp + 4)).word a.disp = 0x01010101 := by
      have happart := Memory.word_gap_of_apart (a.disp + 4) (d := -4) (by decide) (by decide)
      rw [show a.disp + 4 + -4 = a.disp by bv_omega] at happart
      exact happart
    have hswap : ∀ v : Word, a.disp + v + 4 = a.disp + 4 + v := by
      intro v
      bv_omega
    show (if hi = hi then _ else _ : Word) ≠ _
    rw [if_pos rfl, hfirst, locate_of_index hfilled hbase, hswap,
      Memory.word_gap_of_apart _ hfar hnear, Memory.word_gap]
    decide

/-- An index that the first half leaves alone does no harm. -/
theorem gp_loadedSplit_of_kept (hne : lo ≠ hi) (hkept : a.index ≠ a.firstFilled lo hi)
    (m : Machine) :
    (m.loadedSplit a lo hi).gp lo = m.memory.word (m.locate a) ∧
      (m.loadedSplit a lo hi).gp hi = m.memory.word (m.locate a + 4) := by
  rw [loadedSplit_of_kept hne hkept]
  constructor
  · show (if lo = hi then _ else if lo = lo then _ else _ : Word) = _
    rw [if_neg hne, if_pos rfl]
  · exact if_pos rfl

end Exposed

/-- **WHEN A SPLIT LOAD IS RIGHT.**  Let a session meet a load of 64 bits into two
general-purpose registers, the address in any registers, those two included.
What it appends runs to its end from every machine.  It brings the two words at
the address that the registers gave at the beginning, unless the index is the
register that the first half fills: the high one where the base is the low
one, else the low one. -/
theorem split_load_right_iff (s : Session) (a : Address) (hbase : a.base.isXmm = false)
    (hindex : a.index.isXmm = false) (lo hi : GpReg) (hne : lo ≠ hi) (size : AccessSize)
    (hsize : size.isWide = true)
    (hreturns : s.Returns [.transfer (a.transfer .load size (.gp lo) (.gp hi))]) :
    (∀ m, ∃ m', s.Executes [.transfer (a.transfer .load size (.gp lo) (.gp hi))] m m') ∧
    ((∀ m m', s.Executes [.transfer (a.transfer .load size (.gp lo) (.gp hi))] m m' →
        m'.gp lo = BitVec.ofNat 32 (m.memory.number (m.locate a) 4) ∧
        m'.gp hi = BitVec.ofNat 32 (m.memory.number (m.locate a + 4) 4)) ↔
      a.index ≠ a.firstFilled lo hi) := by
  have hadmitted := Session.admitted_of_returns hreturns
  have hwide := holdsWide_of_admitted hbase hindex hsize hadmitted
  have hexecutes : ∀ m, s.Executes _ m (m.loadedSplit a lo hi) := fun m =>
    s.executes_transfer hadmitted (run_load_split hwide hsize lo hi m)
  refine ⟨fun m => ⟨_, hexecutes m⟩, ?_, ?_⟩
  · intro hright hfilled
    obtain ⟨m, hwrong⟩ := loadedSplit_of_filled hne hwide.scale hfilled
    obtain ⟨hlo, hhi⟩ := hright m _ (hexecutes m)
    rw [← Memory.word_eq_number] at hlo hhi
    exact hwrong.elim (fun h => h hlo) (fun h => h hhi)
  · intro hkept m m' hm'
    rw [hm'.unique (hexecutes m), ← Memory.word_eq_number, ← Memory.word_eq_number]
    exact gp_loadedSplit_of_kept hne hkept m

/-- A load by way of `[esi + esi·8 - 8]` into `esi` and `ebx`: base and index are
both the low register, and the high half goes first. -/
theorem split_load_right_own_address :
    let a : Address := { base := .gp .esi, index := .gp .esi, scale := 3, disp := -8 }
    let m : Machine :=
      { gp := fun _ => 16, memory := ⟨fun x => x.setWidth 8⟩ }
    (Session.new []).Returns [.transfer (a.transfer .load .long (.gp .esi) (.gp .ebx))] ∧
    ∃ m', (Session.new []).Executes
        [.transfer (a.transfer .load .long (.gp .esi) (.gp .ebx))] m m' ∧
      m'.gp .esi = 0x8B8A8988 ∧ m'.gp .ebx = 0x8F8E8D8C := by
  intro a m
  have hreturns :
      (Session.new []).Returns [.transfer (a.transfer .load .long (.gp .esi) (.gp .ebx))] := by
    decide
  obtain ⟨hall, hright⟩ := split_load_right_iff (Session.new []) a rfl rfl .esi .ebx (by decide)
    .long rfl hreturns
  obtain ⟨m', hexecutes⟩ := hall m
  obtain ⟨hlo, hhi⟩ := hright.mpr (by decide) m m' hexecutes
  refine ⟨hreturns, m', hexecutes, ?_, ?_⟩
  · rw [hlo]
    decide
  · rw [hhi]
    decide

/-- A load by way of `[ebx + eax]` into `eax` and `edx`.  The low half goes first,
into the index, and the high half is looked for where nothing is. -/
theorem split_load_index_lost :
    let a : Address := { base := .gp .ebx, index := .gp .eax, scale := 0, disp := 0 }
    let m : Machine :=
      { gp := fun g => if g = .ebx then 0x1000 else if g = .eax then 0x10 else 0
        memory := ((⟨fun _ => 0⟩ : Memory).write 0x1010 4 0xAAAA).write 0x1014 4 0xBBBB }
    (Session.new []).Returns [.transfer (a.transfer .load .long (.gp .eax) (.gp .edx))] ∧
    BitVec.ofNat 32 (m.memory.number (m.locate a + 4) 4) = 0xBBBB ∧
    ∃ m', (Session.new []).Executes
        [.transfer (a.transfer .load .long (.gp .eax) (.gp .edx))] m m' ∧
      m'.gp .eax = 0xAAAA ∧ m'.gp .edx = 0 := by
  intro a m
  have hreturns :
      (Session.new []).Returns [.transfer (a.transfer .load .long (.gp .eax) (.gp .edx))] := by
    decide
  have hadmitted := Session.admitted_of_returns hreturns
  have hwide : a.HoldsWide := holdsWide_of_admitted rfl rfl rfl hadmitted
  refine ⟨hreturns, by decide, m.loadedSplit a .eax .edx,
    (Session.new []).executes_transfer hadmitted (run_load_split hwide rfl .eax .edx m), ?_, ?_⟩
  · decide
  · decide

/-! ## §4. All other loads. -/

section Delivery

variable {t : Transfer}

/-- **A single move delivers.** -/
theorem loaded_of_whole (hload : t.direction = .load) (hclass : t.wellClassed = true)
    (hsplit : t.isSplit = false) (hscale : t.scale ≤ 3) (m : Machine) :
    ∃ m', (Machine.run t.moves).on m = (.ok (), m') ∧
      Loaded m (m.locate t.address) t.size t.lo t.hi m' := by
  rcases t.run_whole hclass hsplit hscale m with
    ⟨r, hlo, hnarrow, hrun⟩ | ⟨r, x, hlo, hx, hword, hrun⟩
  · rw [hload] at hrun
    rw [hlo]
    exact ⟨_, hrun, loaded_transferred hnarrow r t.hi⟩
  · rw [hload] at hrun
    rw [hlo]
    exact ⟨_, hrun, loaded_transferredXmm hword t.hi hx⟩

/-- **Two moves deliver**, where no index is at risk. -/
theorem loaded_of_split (hload : t.direction = .load) (hclass : t.wellClassed = true)
    (hsplit : t.isSplit = true) (hne : t.lo ≠ t.hi) (hindex : t.index = .absent)
    (hadmitted : t.Admitted) (m : Machine) :
    ∃ m', (Machine.run t.moves).on m = (.ok (), m') ∧
      Loaded m (m.locate t.address) t.size t.lo t.hi m' := by
  obtain ⟨lo, hi, ht, hsize, hwide⟩ := t.pair_of_split hclass hsplit hadmitted
  have hlo : t.lo = .gp lo := congrArg Transfer.lo ht
  have hhi : t.hi = .gp hi := congrArg Transfer.hi ht
  have hkept : t.address.index ≠ t.address.firstFilled lo hi := by
    show t.index ≠ if _ then _ else _
    rw [hindex]
    split <;> exact Reg.noConfusion
  have hne' : lo ≠ hi := by
    intro h
    rw [hlo, hhi, h] at hne
    exact hne rfl
  have hrun := run_load_split hwide hsize lo hi m
  rw [← hload, ← ht] at hrun
  refine ⟨_, hrun, ?_⟩
  rw [hlo, hhi, loadedSplit_of_kept hne' hkept, Memory.word_eq_number, Memory.word_eq_number]
  exact .pair hsize lo hi

end Delivery

/-- **LOADS DELIVER.**  Let a session meet a load of any size, from an address in
general-purpose registers as far as it is in registers, into a register that the
machine has; a half or a byte goes into a general-purpose one.  If the load is
split, let its registers be two and its address have no index.  What the session
appends runs to its end from every machine.  It fills the registers with what
memory has at the address that the registers gave at the beginning, the base
being one of the two or not, and changes nothing else. -/
theorem load_delivers (s : Session) (t : Transfer) (hload : t.direction = .load)
    (hclass : t.wellClassed = true)
    (hsplit : t.isSplit = true → t.lo ≠ t.hi ∧ t.index = .absent)
    (hreturns : s.Returns [.transfer t]) (m : Machine) :
    ∃ m', s.Executes [.transfer t] m m' ∧
      Loaded m (m.locate t.address) t.size t.lo t.hi m' := by
  have hadmitted := Session.admitted_of_returns hreturns
  cases hcase : t.isSplit with
  | false =>
      obtain ⟨m', hrun, hloaded⟩ := loaded_of_whole hload hclass hcase hadmitted.scale m
      exact ⟨m', s.executes_transfer hadmitted hrun, hloaded⟩
  | true =>
      obtain ⟨hne, hindex⟩ := hsplit hcase
      obtain ⟨m', hrun, hloaded⟩ := loaded_of_split hload hclass hcase hne hindex hadmitted m
      exact ⟨m', s.executes_transfer hadmitted hrun, hloaded⟩

/-- 64 bits into `edi` and `esi` by way of `esi`, the high one of the two, and
wrapping around the end of memory. -/
theorem load_delivers_wrapping :
    let t : Transfer :=
      { direction := .load, base := .gp .esi, disp := -4, lo := .gp .edi, hi := .gp .esi
        size := .double }
    let m : Machine := { memory := ⟨fun x => x.setWidth 8⟩, carry := true }
    t.wellClassed = true ∧ (t.isSplit = true → t.lo ≠ t.hi ∧ t.index = .absent) ∧
    (Session.new []).Returns [.transfer t] ∧
    ∃ m', (Session.new []).Executes [.transfer t] m m' ∧
      m'.gp .edi = 0xFFFEFDFC ∧ m'.gp .esi = 0x03020100 ∧ m'.carry = true := by
  intro t m
  have hsplit : t.isSplit = true → t.lo ≠ t.hi ∧ t.index = .absent := fun _ => by decide
  have hreturns : (Session.new []).Returns [.transfer t] := by decide
  obtain ⟨m', hexecutes, hloaded⟩ :=
    load_delivers (Session.new []) t rfl (by decide) hsplit hreturns m
  refine ⟨by decide, hsplit, hreturns, m', hexecutes, ?_⟩
  cases hloaded with
  | gp hsize => exact absurd hsize (by decide)
  | pair => decide

end TwoAddress
