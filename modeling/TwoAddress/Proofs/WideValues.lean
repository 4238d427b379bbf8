/-
  TwoAddress.Proofs.WideValues
  ────────────────────────────
  **64-BIT VALUES IN MEMORY.**

  A 64-bit value is moved in two ways: as two words through general-purpose
  registers, in an order that the base decides, and at once through an xmm
  register.  What one of them stores the other has to load, so they must agree
  on the layout: the low word at the address and the high word four above it.

    • §1 the code that transfers add, one after the other;
    • §2 a pair of general-purpose registers: stored in either order it is one
      value of eight bytes, and loaded in either order it is its two words, as
      long as the first one loaded is not the index;
    • §3 an xmm register, named as a double or as two neighbouring singles;
    • §4 from one to the other and back (`wide_layouts_agree`).
-/
import TwoAddress.Proofs.ByteStore
import TwoAddress.Proofs.EmittedCode
import TwoAddress.Proofs.Transfers

namespace TwoAddress

/-! ## §1. Transfers and their code. -/

/-- The moves of a transfer, as instructions. -/
def Transfer.moves (t : Transfer) : List Instruction :=
  t.parts.map fun part => Synthesis.transferMove t.direction t.size part.1 part.2

theorem Transfer.moves_of_whole {t : Transfer} (h : t.isSplit = false) :
    t.moves = [Synthesis.transferMove t.direction t.size t.address t.whole] := by
  rw [moves, parts_of_whole h]
  rfl

namespace Session

theorem instructions_meet_transfer (s : Session) {t : Transfer} (h : t.Admitted) :
    (s.meet (.transfer t)).2.instructions = s.instructions ++ t.moves := by
  rw [meet_transfer_of_admitted s h, instructions, records_foldl_moved, List.map_append,
    List.map_map]
  rfl

/-- Admitted transfers are met one after the other. -/
theorem transfers_met {ts : List Transfer} (h : ∀ t ∈ ts, t.Admitted) (s : Session) :
    s.Returns (ts.map .transfer) ∧
      (s.afterRequests (ts.map .transfer)).instructions =
        s.instructions ++ ts.flatMap Transfer.moves := by
  induction ts generalizing s with
  | nil =>
      constructor
      · exact fun _ ho => nomatch ho
      · exact (List.append_nil s.instructions).symm
  | cons t ts ih =>
      have ht : t.Admitted := h t List.mem_cons_self
      obtain ⟨hreturns, hcode⟩ :=
        ih (fun t' ht' => h t' (List.mem_cons_of_mem t ht')) (s.meet (.transfer t)).2
      constructor
      · refine returns_cons.mpr ⟨⟨.appended ⟨s.records.length + t.lead⟩, ?_⟩, hreturns⟩
        rw [meet_transfer_of_admitted s ht]
      · rw [List.map_cons, afterRequests_cons, hcode, instructions_meet_transfer s ht,
          List.append_assoc]
        rfl

theorem codeFrom_transfers {ts : List Transfer} (h : ∀ t ∈ ts, t.Admitted) (s : Session) :
    (s.afterRequests (ts.map .transfer)).codeFrom s.records.length =
      ts.flatMap Transfer.moves := by
  rw [codeFrom, (transfers_met h s).2, List.drop_left' (by simp [instructions])]

theorem admitted_of_returns {s : Session} {t : Transfer} (h : s.Returns [.transfer t]) :
    t.Admitted := by
  obtain ⟨⟨reply, hreply⟩, -⟩ := returns_cons.mp h
  refine Classical.byContradiction fun hno => ?_
  obtain ⟨f, hf⟩ := s.meet_transfer_of_not_admitted hno
  rw [hf] at hreply
  exact absurd hreply (by simp)

theorem executes_transfer (s : Session) {t : Transfer} (h : t.Admitted) {m m' : Machine}
    (hrun : (Machine.run t.moves).on m = (.ok (), m')) : s.Executes [.transfer t] m m' := by
  have hall : ∀ u ∈ [t], u.Admitted := by
    intro u hu
    rw [List.mem_singleton.mp hu]
    exact h
  have hcode := codeFrom_transfers hall s
  rw [List.flatMap_cons, List.flatMap_nil, List.append_nil] at hcode
  refine ⟨(transfers_met hall s).1, ?_⟩
  show (Machine.run ((s.afterRequests ([t].map .transfer)).codeFrom _)).on m = _
  rw [hcode]
  exact hrun

/-- A value that one transfer moves and another moves on. -/
theorem executes_two (s : Session) {t t' : Transfer} (h : t.Admitted) (h' : t'.Admitted)
    {m m₁ m₂ : Machine} (hfirst : (Machine.run t.moves).on m = (.ok (), m₁))
    (hsecond : (Machine.run t'.moves).on m₁ = (.ok (), m₂)) :
    s.Executes [.transfer t, .transfer t'] m m₂ := by
  have hall : ∀ u ∈ [t, t'], u.Admitted := by
    simp only [List.mem_cons, List.not_mem_nil, or_false]
    rintro u (rfl | rfl)
    · exact h
    · exact h'
  refine ⟨(transfers_met hall s).1, ?_⟩
  have hcode := codeFrom_transfers hall s
  rw [List.flatMap_cons, List.flatMap_cons, List.flatMap_nil, List.append_nil] at hcode
  show (Machine.run ((s.afterRequests ([t, t'].map .transfer)).codeFrom _)).on m = _
  rw [hcode, Machine.run_append, hfirst]
  exact hsecond

end Session

/-! ## §2. Two general-purpose registers. -/

/-- An address at which 64-bit values can be kept in either way. -/
structure Address.HoldsWide (a : Address) : Prop where
  base : a.base.isXmm = false
  index : a.index.isXmm = false
  scale : a.scale ≤ 3
  aligned : a.disp.toInt % 4 = 0
  /-- There is a displacement for the high word. -/
  room : a.disp.toInt + 4 < 0x80000000

/-- The transfer at an address. -/
def Address.transfer (a : Address) (direction : Direction) (size : AccessSize) (lo hi : Reg) :
    Transfer :=
  { direction, base := a.base, index := a.index, scale := a.scale, disp := a.disp, lo, hi, size }

theorem AccessSize.alignment_of_isWide {size : AccessSize} (h : size.isWide = true) :
    size.alignment = 4 := by
  cases size with
  | long | double => rfl
  | _ => exact nomatch h

theorem AccessSize.bytes_of_isWide {size : AccessSize} (h : size.isWide = true) :
    size.bytes = 8 := by
  cases size with
  | long | double => rfl
  | _ => exact nomatch h

theorem AccessSize.word_le_of_isWide {size : AccessSize} (h : size.isWide = true) :
    4 ≤ size.bytes := by
  rw [bytes_of_isWide h]
  decide

theorem AccessSize.bytes_lane_of_isWide {size : AccessSize} (h : size.isWide = true) :
    size.lane.bytes = 8 :=
  (bytes_lane (word_le_of_isWide h)).trans (bytes_of_isWide h)

/-- The address one word further on. -/
def Address.above (a : Address) : Address := { a with disp := a.disp + 4 }

namespace Machine

theorem locate_above (m : Machine) (a : Address) : m.locate a.above = m.locate a + 4 :=
  (BitVec.add_assoc _ a.disp 4).symm

theorem valueOf_setGp (m : Machine) {r : Reg} {g : GpReg} (h : r ≠ .gp g) (v : Word) :
    (m.setGp g v).valueOf r = m.valueOf r := by
  cases r with
  | gp q =>
      have hne : q ≠ g := fun hq => h (congrArg Reg.gp hq)
      show (m.setGp g v).gp q = m.gp q
      rw [gp_setGp, if_neg hne]
  | _ => rfl

/-- A place does not move while its registers stay. -/
theorem locate_setGp (m : Machine) {a : Address} {g : GpReg} (hbase : a.base ≠ .gp g)
    (hindex : a.index ≠ .gp g) (v : Word) : (m.setGp g v).locate a = m.locate a := by
  unfold locate
  rw [valueOf_setGp m hbase, valueOf_setGp m hindex]

theorem setGp_comm (m : Machine) {g h : GpReg} (hne : g ≠ h) (v w : Word) :
    (m.setGp g v).setGp h w = (m.setGp h w).setGp g v := by
  unfold setGp
  congr 1
  funext q
  by_cases hg : q = g
  · have hh : q ≠ h := fun hq => hne (hg.symm.trans hq)
    simp [hg, hne]
  · simp [hg]

/-- Two instructions that run. -/
theorem run_two {i j : Instruction} (hi : i.inert = false) (hj : j.inert = false)
    {m m₁ m₂ : Machine} (hfirst : (step i).on m = (.ok (), m₁))
    (hsecond : (step j).on m₁ = (.ok (), m₂)) : (run [i, j]).on m = (.ok (), m₂) := by
  rw [run_cons hi, Effect.on_bind, hfirst]
  exact run_single hj hsecond

/-- Half of a 64-bit value is a whole word. -/
theorem transferred_load {size : AccessSize} (hsize : size.isWide = true) (m : Machine)
    (a : Address) (r : GpReg) :
    m.transferred .load size a r = m.setGp r ((m.memory.read (m.locate a) 4).setWidth 32) := by
  cases size with
  | long | double => rfl
  | _ => exact nomatch hsize

theorem transferred_store {size : AccessSize} (hsize : size.isWide = true) (m : Machine)
    (a : Address) (r : GpReg) :
    m.transferred .store size a r =
      { m with memory := m.memory.write (m.locate a) 4 ((m.gp r).setWidth 64) } := by
  cases size with
  | long | double => rfl
  | _ => exact nomatch hsize

/-- The machine after the two halves of a load, one after the other.  The second
half is where the registers say after the first. -/
def loadedSplit (m : Machine) (a : Address) (lo hi : GpReg) : Machine :=
  if a.base = .gp lo then
    let m₁ := m.setGp hi (m.memory.word (m.locate a + 4))
    m₁.setGp lo (m.memory.word (m₁.locate a))
  else
    let m₁ := m.setGp lo (m.memory.word (m.locate a))
    m₁.setGp hi (m.memory.word (m₁.locate a + 4))

end Machine

section Pair

open Machine

variable {a : Address} {size : AccessSize} {lo hi : GpReg}

theorem admitted_pair (ha : a.HoldsWide) (hsize : size.isWide = true) (direction : Direction)
    (lo hi : GpReg) : (a.transfer direction size (.gp lo) (.gp hi)).Admitted := by
  refine .of_wide ha.scale ?_ hsize (fun h => nomatch h) fun _ => ⟨rfl, ha.room⟩
  show a.disp.toInt % (size.alignment : Int) = 0
  rw [AccessSize.alignment_of_isWide hsize]
  exact ha.aligned

theorem isSplit_pair (hsize : size.isWide = true) (direction : Direction) (lo hi : GpReg) :
    (a.transfer direction size (.gp lo) (.gp hi)).isSplit = true := by
  show (size.isWide && true) = true
  rw [hsize]
  rfl

/-- Only such an address is admitted. -/
theorem holdsWide_of_admitted {direction : Direction} (hbase : a.base.isXmm = false)
    (hindex : a.index.isXmm = false) (hsize : size.isWide = true)
    (h : (a.transfer direction size (.gp lo) (.gp hi)).Admitted) : a.HoldsWide := by
  have haligned : a.disp.toInt % (size.alignment : Int) = 0 := h.aligned
  rw [AccessSize.alignment_of_isWide hsize] at haligned
  exact ⟨hbase, hindex, h.scale, haligned, (h.split (isSplit_pair hsize direction lo hi)).2⟩

/-- The high word goes first where the low word would overwrite the base. -/
theorem moves_pair (hsize : size.isWide = true) (direction : Direction) (lo hi : GpReg) :
    (a.transfer direction size (.gp lo) (.gp hi)).moves =
      if a.base = .gp lo then
        [Synthesis.transferMove direction size a.above (.gp hi),
          Synthesis.transferMove direction size a (.gp lo)]
      else
        [Synthesis.transferMove direction size a (.gp lo),
          Synthesis.transferMove direction size a.above (.gp hi)] := by
  rw [Transfer.moves, Transfer.parts_of_split (isSplit_pair hsize direction lo hi)]
  show List.map _ (if a.base = .gp lo then _ else _) = _
  split <;> rfl

theorem step_store_half (hsize : size.isWide = true) {b : Address} (hbase : b.base.isXmm = false)
    (hindex : b.index.isXmm = false) (hscale : b.scale ≤ 3) (r : GpReg) (m : Machine) :
    (step (Synthesis.transferMove .store size b (.gp r))).on m =
      (.ok (), { m with memory := m.memory.write (m.locate b) 4 ((m.gp r).setWidth 64) }) := by
  rw [Synthesis.step_transferMove m .store size r hbase hindex hscale, transferred_store hsize]

theorem step_load_half (hsize : size.isWide = true) {b : Address} (hbase : b.base.isXmm = false)
    (hindex : b.index.isXmm = false) (hscale : b.scale ≤ 3) (r : GpReg) (m : Machine) :
    (step (Synthesis.transferMove .load size b (.gp r))).on m =
      (.ok (), m.setGp r ((m.memory.read (m.locate b) 4).setWidth 32)) := by
  rw [Synthesis.step_transferMove m .load size r hbase hindex hscale, transferred_load hsize]

/-- **A pair that is stored** is one value of eight bytes, whatever the order. -/
theorem run_store_pair (ha : a.HoldsWide) (hsize : size.isWide = true) (lo hi : GpReg)
    (m : Machine) :
    (run (a.transfer .store size (.gp lo) (.gp hi)).moves).on m =
      (.ok (), { m with
        memory := m.memory.write (m.locate a) 8 (m.gp hi ++ m.gp lo : BitVec 64) }) := by
  have hlow := step_store_half hsize ha.base ha.index ha.scale lo
  have hhigh : ∀ m' : Machine, (step (Synthesis.transferMove .store size a.above (.gp hi))).on m' =
      (.ok (), { m' with
        memory := m'.memory.write (m'.locate a + 4) 4 ((m'.gp hi).setWidth 64) }) := by
    intro m'
    rw [← locate_above]
    exact step_store_half hsize (b := a.above) ha.base ha.index ha.scale hi m'
  rw [moves_pair hsize]
  split
  · rw [← Memory.write_high_low]
    exact run_two rfl rfl (hhigh m) (hlow _)
  · rw [← Memory.write_low_high]
    exact run_two rfl rfl (hlow m) (hhigh _)

/-- **A split load**, whichever registers coincide. -/
theorem run_load_split (ha : a.HoldsWide) (hsize : size.isWide = true) (lo hi : GpReg)
    (m : Machine) :
    (run (a.transfer .load size (.gp lo) (.gp hi)).moves).on m =
      (.ok (), m.loadedSplit a lo hi) := by
  have hlow := step_load_half hsize ha.base ha.index ha.scale lo
  have hhigh : ∀ m' : Machine, (step (Synthesis.transferMove .load size a.above (.gp hi))).on m' =
      (.ok (), m'.setGp hi (m'.memory.word (m'.locate a + 4))) := by
    intro m'
    rw [← locate_above]
    exact step_load_half hsize (b := a.above) ha.base ha.index ha.scale hi m'
  rw [moves_pair hsize]
  unfold loadedSplit
  split
  · exact run_two rfl rfl (hhigh m) (hlow _)
  · exact run_two rfl rfl (hlow m) (hhigh _)

/-- The register that the first of the two halves fills. -/
def Address.firstFilled (a : Address) (lo hi : GpReg) : Reg :=
  if a.base = .gp lo then .gp hi else .gp lo

/-- If the first half leaves the index alone, both halves are right. -/
theorem loadedSplit_of_kept (hne : lo ≠ hi) (hkept : a.index ≠ a.firstFilled lo hi)
    (m : Machine) :
    m.loadedSplit a lo hi = (m.setGp lo (m.memory.word (m.locate a))).setGp hi
      (m.memory.word (m.locate a + 4)) := by
  unfold loadedSplit
  unfold Address.firstFilled at hkept
  by_cases hbase : a.base = .gp lo
  · rw [if_pos hbase] at hkept ⊢
    -- The base is the low register, which the high half leaves alone.
    have hother : a.base ≠ .gp hi := by
      rw [hbase]
      exact fun h => hne (Reg.gp.inj h)
    show (m.setGp hi _).setGp lo (m.memory.word ((m.setGp hi _).locate a)) = _
    rw [locate_setGp m hother hkept, setGp_comm m hne]
  · rw [if_neg hbase] at hkept ⊢
    show (m.setGp lo _).setGp hi (m.memory.word ((m.setGp lo _).locate a + 4)) = _
    rw [locate_setGp m hbase hkept]

/-- **A pair that is loaded** is the two words, whatever the order.  The base may
be one of the two registers, the index may not. -/
theorem run_load_pair (ha : a.HoldsWide) (hsize : size.isWide = true) (hne : lo ≠ hi)
    (hlo : a.index ≠ .gp lo) (hhi : a.index ≠ .gp hi) (m : Machine) :
    (run (a.transfer .load size (.gp lo) (.gp hi)).moves).on m =
      (.ok (), (m.setGp lo ((m.memory.read (m.locate a) 4).setWidth 32)).setGp hi
        ((m.memory.read (m.locate a + 4) 4).setWidth 32)) := by
  have hkept : a.index ≠ a.firstFilled lo hi := by
    unfold Address.firstFilled
    split
    · exact hhi
    · exact hlo
  rw [run_load_split ha hsize lo hi m, loadedSplit_of_kept hne hkept]
  rfl

end Pair

/-! ## §3. An xmm register. -/

/-- The two operands name the xmm register `x`: as a double, or as a single and
its neighbour. -/
inductive NamesWide (x : Fin 8) : Reg → Reg → Prop where
  | double {i : UInt8} (hi : Reg) (h : i.toNat = x.val) : NamesWide x (.double i) hi
  | singles {i j : UInt8} (p : Precision) (h : i.toNat = x.val) (hj : j.toNat = x.val + 1) :
      NamesWide x (.single i) (.xmm ⟨j, p⟩)

section Xmm

open Machine

variable {a : Address} {size : AccessSize} {x : Fin 8} {lo hi : Reg}

theorem NamesWide.isXmm (h : NamesWide x lo hi) : lo.isXmm = true := by
  cases h <;> rfl

/-- Either way the register is used as a double. -/
theorem NamesWide.whole (h : NamesWide x lo hi) (hsize : size.isWide = true)
    (direction : Direction) :
    ∃ i : UInt8, (a.transfer direction size lo hi).whole = .double i ∧ i.toNat = x.val := by
  cases h with
  | @double i _ hi => exact ⟨i, if_pos hsize, hi⟩
  | @singles i _ _ hi _ => exact ⟨i, if_pos hsize, hi⟩

theorem NamesWide.pair (h : NamesWide x lo hi) (hsize : size.isWide = true)
    (direction : Direction) (hsingle : lo.isSingle = true) :
    Reg.pair lo hi = .ok (a.transfer direction size lo hi).whole := by
  cases h with
  | double => exact nomatch hsingle
  | @singles i j p hi hj =>
      have hlast : i ≠ 255 := by
        rintro rfl
        exact absurd hi (by have := x.isLt; simp; omega)
      have hnext : i + 1 = j := by
        rw [← UInt8.toNat_inj, UInt8.toNat_add, hi, hj]
        have := x.isLt
        show (x.val + 1) % 256 = x.val + 1
        omega
      have hwhole : (a.transfer direction size (.single i) (.xmm ⟨j, p⟩)).whole = .double i :=
        if_pos hsize
      rw [hwhole]
      show (if i = 255 then _ else if i + 1 = j then _ else _) = _
      rw [if_neg hlast, if_pos hnext]

theorem admitted_xmm (ha : a.HoldsWide) (hsize : size.isWide = true) (h : NamesWide x lo hi)
    (direction : Direction) : (a.transfer direction size lo hi).Admitted := by
  refine .of_wide ha.scale ?_ hsize (h.pair hsize direction) fun hno => ?_
  · show a.disp.toInt % (size.alignment : Int) = 0
    rw [AccessSize.alignment_of_isWide hsize]
    exact ha.aligned
  · replace hno : lo.isXmm = false := hno
    rw [h.isXmm] at hno
    exact nomatch hno

theorem moves_xmm (h : NamesWide x lo hi) (direction : Direction) :
    (a.transfer direction size lo hi).moves =
      [Synthesis.transferMove direction size a (a.transfer direction size lo hi).whole] := by
  have hsplit : (a.transfer direction size lo hi).isSplit = false := by
    show (size.isWide && !lo.isXmm) = false
    rw [h.isXmm, Bool.not_true, Bool.and_false]
  exact Transfer.moves_of_whole hsplit

theorem xmmIndex_double {i : UInt8} (h : i.toNat = x.val) : xmmIndex (.double i) = .ok x := by
  have hlt : i.toNat < 8 := by
    rw [h]
    exact x.isLt
  show (if h : i.toNat < 8 then _ else _) = _
  rw [dif_pos hlt]
  exact congrArg Except.ok (Fin.ext h)

/-- **An xmm register is moved at once.** -/
theorem run_xmm (ha : a.HoldsWide) (hsize : size.isWide = true) (h : NamesWide x lo hi)
    (direction : Direction) (m : Machine) :
    (run (a.transfer direction size lo hi).moves).on m =
      (.ok (), m.transferredXmm direction size a x) := by
  obtain ⟨i, hwhole, hi⟩ := h.whole (a := a) hsize direction
  have hword := AccessSize.word_le_of_isWide hsize
  rw [moves_xmm h, hwhole]
  exact run_single rfl (Synthesis.step_transferMove_xmm m direction hword rfl (xmmIndex_double hi)
    ha.base ha.index ha.scale)

end Xmm

/-! ## §4. From one to the other. -/

/-- The number that two words stand for. -/
theorem toNat_append_word (hi lo : Word) :
    (hi ++ lo : BitVec 64).toNat = hi.toNat * 0x100000000 + lo.toNat := by
  rw [BitVec.toNat_append, ← Nat.shiftLeft_add_eq_or_of_lt lo.isLt, Nat.shiftLeft_eq]

/-- The same in an xmm register. -/
theorem toNat_pair (hi lo : Word) :
    ((hi ++ lo : BitVec 64).setWidth 128).toNat = hi.toNat * 0x100000000 + lo.toNat := by
  have hlo := lo.isLt
  have hhi := hi.isLt
  rw [BitVec.toNat_setWidth, toNat_append_word]
  exact Nat.mod_eq_of_lt (by omega)

/-- The words of what is in an xmm register. -/
theorem words_setWidth (v : BitVec 128) :
    (v.setWidth 64).setWidth 32 = v.setWidth 32 ∧
      ((v.setWidth 64) >>> 32).setWidth 32 = (v >>> 32).setWidth 32 := by
  constructor
  · exact BitVec.setWidth_setWidth_of_le v (by decide)
  · refine BitVec.eq_of_getLsbD_eq fun k hk => ?_
    have h64 : 32 + k < 64 := by omega
    rw [BitVec.getLsbD_setWidth, BitVec.getLsbD_setWidth, BitVec.getLsbD_ushiftRight,
      BitVec.getLsbD_ushiftRight, BitVec.getLsbD_setWidth, decide_eq_true h64, Bool.true_and]

section Agreement

variable {a : Address} {lo hi : GpReg} {x : Fin 8} {xlo xhi : Reg} {size size' : AccessSize}

/-- Stored as a pair, loaded at once. -/
theorem pair_to_xmm (s : Session) (m : Machine) (ha : a.HoldsWide) (hx : NamesWide x xlo xhi)
    (hsize : size.isWide = true) (hsize' : size'.isWide = true) :
    ∃ m', s.Executes
        [.transfer (a.transfer .store size (.gp lo) (.gp hi)),
          .transfer (a.transfer .load size' xlo xhi)] m m' ∧
      (m'.xmm x).toNat = (m.gp hi).toNat * 0x100000000 + (m.gp lo).toNat := by
  have hstore := run_store_pair ha hsize lo hi m
  refine ⟨_, s.executes_two (admitted_pair ha hsize .store lo hi)
    (admitted_xmm ha hsize' hx .load) hstore (run_xmm ha hsize' hx .load _), ?_⟩
  -- The registers of the address are as they were, so the place is the same.
  show (if x = x then _ else _ : BitVec 128).toNat = _
  rw [if_pos rfl]
  show (((m.memory.write (m.locate a) 8 _).read (m.locate a) size'.lane.bytes).setWidth
    128).toNat = _
  rw [AccessSize.bytes_lane_of_isWide hsize', Memory.read_write_eight, toNat_pair]

/-- Stored at once, loaded as a pair. -/
theorem xmm_to_pair (s : Session) (m : Machine) (ha : a.HoldsWide) (hne : lo ≠ hi)
    (hlo : a.index ≠ .gp lo) (hhi : a.index ≠ .gp hi) (hx : NamesWide x xlo xhi)
    (hsize : size.isWide = true) (hsize' : size'.isWide = true) :
    ∃ m', s.Executes
        [.transfer (a.transfer .store size' xlo xhi),
          .transfer (a.transfer .load size (.gp lo) (.gp hi))] m m' ∧
      m'.gp lo = (m.xmm x).setWidth 32 ∧ m'.gp hi = (m.xmm x >>> 32).setWidth 32 := by
  have hstore := run_xmm ha hsize' hx .store m
  rw [Machine.transferredXmm, AccessSize.bytes_lane_of_isWide hsize'] at hstore
  obtain ⟨hlow, hhigh⟩ := words_setWidth (m.xmm x)
  refine ⟨_, s.executes_two (admitted_xmm ha hsize' hx .store)
    (admitted_pair ha hsize .load lo hi) hstore (run_load_pair ha hsize hne hlo hhi _), ?_, ?_⟩
  · rw [Machine.gp_setGp, if_neg hne, Machine.gp_setGp, if_pos rfl, ← hlow]
    exact Memory.read_write_low _ _ _
  · rw [Machine.gp_setGp, if_pos rfl, ← hhigh]
    exact Memory.read_write_high _ _ _

end Agreement

/-- **THE TWO WAYS OF MOVING A 64-BIT VALUE AGREE.**  At any address that holds
one, from any session and any machine, a pair of registers that is stored and
loaded into an xmm register is there as one number, and an xmm register that is
stored and loaded into a pair is there as its two words.  The base may be one
of the pair. -/
theorem wide_layouts_agree (s : Session) (m : Machine) (a : Address) (ha : a.HoldsWide)
    (lo hi : GpReg) (hne : lo ≠ hi) (hlo : a.index ≠ .gp lo) (hhi : a.index ≠ .gp hi) (x : Fin 8)
    (xlo xhi : Reg) (hx : NamesWide x xlo xhi) (size size' : AccessSize)
    (hsize : size.isWide = true) (hsize' : size'.isWide = true) :
    (∃ m', s.Executes
        [.transfer (a.transfer .store size (.gp lo) (.gp hi)),
          .transfer (a.transfer .load size' xlo xhi)] m m' ∧
      (m'.xmm x).toNat = (m.gp hi).toNat * 0x100000000 + (m.gp lo).toNat) ∧
    ∃ m', s.Executes
        [.transfer (a.transfer .store size' xlo xhi),
          .transfer (a.transfer .load size (.gp lo) (.gp hi))] m m' ∧
      m'.gp lo = (m.xmm x).setWidth 32 ∧ m'.gp hi = (m.xmm x >>> 32).setWidth 32 :=
  ⟨pair_to_xmm s m ha hx hsize hsize', xmm_to_pair s m ha hne hlo hhi hx hsize hsize'⟩

/-- An array element whose base is the low register, and two singles: the high
word goes first. -/
theorem wide_layouts_agree_element :
    (∃ m', (Session.new []).Executes
        [.transfer { direction := .store, base := .gp .eax, index := .gp .ecx, scale := 3,
                     disp := -8, lo := .gp .eax, hi := .gp .edx, size := .long },
          .transfer { direction := .load, base := .gp .eax, index := .gp .ecx, scale := 3,
                      disp := -8, lo := .single 3, hi := .single 4, size := .double }]
        { gp := fun r => if r = .edx then 5 else 7, xmm := fun _ => 0x900000008 } m' ∧
      (m'.xmm 3).toNat = 5 * 0x100000000 + 7) ∧
    ∃ m', (Session.new []).Executes
        [.transfer { direction := .store, base := .gp .eax, index := .gp .ecx, scale := 3,
                     disp := -8, lo := .single 3, hi := .single 4, size := .double },
          .transfer { direction := .load, base := .gp .eax, index := .gp .ecx, scale := 3,
                      disp := -8, lo := .gp .eax, hi := .gp .edx, size := .long }]
        { gp := fun r => if r = .edx then 5 else 7, xmm := fun _ => 0x900000008 } m' ∧
      m'.gp .eax = 8 ∧ m'.gp .edx = 9 :=
  wide_layouts_agree (Session.new [])
    { gp := fun r => if r = .edx then 5 else 7, xmm := fun _ => 0x900000008 }
    { base := .gp .eax, index := .gp .ecx, scale := 3, disp := -8 }
    ⟨rfl, rfl, by decide, by decide, by decide⟩ .eax .edx (by decide) (by decide) (by decide) 3
    (.single 3) (.single 4) (.singles .single rfl rfl) .long .double rfl rfl

end TwoAddress
