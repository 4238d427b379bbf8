/-
  TwoAddress.Proofs.WideConstants
  ───────────────────────────────
  **64-BIT CONSTANTS.**

  A 64-bit constant is made in two registers, and where it ends up depends on
  their kind.  Two general-purpose registers hold a half each.  Two xmm
  registers hold all of it in the first one, the high half on top of the low
  one, and the second register is used up on the way.  A store of the pair has
  to take the value from there.

    • §1 the instructions on xmm registers that pack a value;
    • §2 a 32-bit constant in an xmm register, made in a scratch register;
    • §3 a 64-bit constant, in xmm registers and in general-purpose ones;
    • §4 what a session makes of it (`wide_constant_packed`);
    • §5 a constant that is made and stored at once (`wide_constant_stored`).
-/
import TwoAddress.Proofs.Granted
import TwoAddress.Proofs.WideValues

namespace TwoAddress

/-! ## §1. Packing. -/

namespace Machine

@[simp] theorem xmm_setXmm (m : Machine) (x y : Fin 8) (v : BitVec 128) :
    (m.setXmm x v).xmm y = if y = x then v else m.xmm y := rfl

@[simp] theorem gp_setXmm (m : Machine) (x : Fin 8) (v : BitVec 128) :
    (m.setXmm x v).gp = m.gp := rfl

@[simp] theorem carry_setXmm (m : Machine) (x : Fin 8) (v : BitVec 128) :
    (m.setXmm x v).carry = m.carry := rfl

@[simp] theorem memory_setXmm (m : Machine) (x : Fin 8) (v : BitVec 128) :
    (m.setXmm x v).memory = m.memory := rfl

section Steps

variable (m : Machine) {x y : Fin 8} {dst src : Reg}

theorem on_readXmm (hx : xmmIndex dst = .ok x) : (readXmm dst).on m = (.ok (m.xmm x), m) := by
  simp only [readXmm, Effect.on_bind, Effect.on_ofExcept, hx, Effect.on_get, Effect.on_pure]

theorem on_writeXmm (hx : xmmIndex dst = .ok x) (v : BitVec 128) :
    (writeXmm dst v).on m = (.ok (), m.setXmm x v) := by
  simp only [writeXmm, Effect.on_bind, Effect.on_ofExcept, hx, Effect.on_modify]

/-- A word that moves to an xmm register clears the rest of it. -/
theorem step_gpToXmm (hx : xmmIndex dst = .ok x) (g : GpReg) :
    (step { opcode := .movdxrRR, operands := [.reg dst, .reg (.gp g)] }).on m =
      (.ok (), m.setXmm x ((m.gp g).setWidth 128)) := by
  show (readGp (.gp g) >>= fun v => writeXmm dst (v.setWidth 128)).on m = _
  rw [Effect.on_bind, on_readGp_gp]
  exact on_writeXmm m hx _

/-- A register is cleared by what it has in common with itself. -/
theorem step_clearXmm (hx : xmmIndex dst = .ok x) :
    (step { opcode := .xorpsRR, operands := [.reg dst, .reg dst] }).on m =
      (.ok (), m.setXmm x 0) := by
  show (readXmm dst >>= fun d => readXmm dst >>= fun s => writeXmm dst (d ^^^ s)).on m = _
  rw [Effect.on_bind, on_readXmm m hx]
  show (readXmm dst >>= fun s => writeXmm dst (m.xmm x ^^^ s)).on m = _
  rw [Effect.on_bind, on_readXmm m hx]
  show (writeXmm dst (m.xmm x ^^^ m.xmm x)).on m = _
  rw [BitVec.xor_self]
  exact on_writeXmm m hx 0

theorem step_orXmm (hx : xmmIndex dst = .ok x) (hy : xmmIndex src = .ok y) :
    (step { opcode := .orpsRR, operands := [.reg dst, .reg src] }).on m =
      (.ok (), m.setXmm x (m.xmm x ||| m.xmm y)) := by
  show (readXmm dst >>= fun d => readXmm src >>= fun s => writeXmm dst (d ||| s)).on m = _
  rw [Effect.on_bind, on_readXmm m hx]
  show (readXmm src >>= fun s => writeXmm dst (m.xmm x ||| s)).on m = _
  rw [Effect.on_bind, on_readXmm m hy]
  exact on_writeXmm m hx _

theorem step_shiftXmm (hx : xmmIndex dst = .ok x) (v : Word) :
    (step { opcode := .psllqRI, operands := [.reg dst, .imm v] }).on m =
      (.ok (), m.setXmm x (shiftHalves (m.xmm x) v.toNat)) := by
  show (readXmm dst >>= fun d => writeXmm dst (shiftHalves d v.toNat)).on m = _
  rw [Effect.on_bind, on_readXmm m hx]
  exact on_writeXmm m hx _

end Steps

end Machine

/-- The index decides which xmm register is meant, at either precision. -/
theorem xmmIndex_single {x : Fin 8} {i : UInt8} (h : i.toNat = x.val) :
    Machine.xmmIndex (.single i) = .ok x :=
  xmmIndex_double h

/-- Half a value that is shifted up is the high word of it. -/
theorem getLsbD_shiftHalves_word (v : Word) {k : Nat} (hk : k < 128) :
    (shiftHalves (v.setWidth 128) 32).getLsbD k = (decide (32 ≤ k) && v.getLsbD (k - 32)) := by
  have hupper : ((v.setWidth 128 : BitVec 128) >>> 64).setWidth 64 = 0#64 := by
    refine BitVec.eq_of_getLsbD_eq fun j hj => ?_
    have hout : v.getLsbD (64 + j) = false := BitVec.getLsbD_of_ge _ _ (by omega)
    rw [BitVec.getLsbD_setWidth, BitVec.getLsbD_ushiftRight, BitVec.getLsbD_setWidth, hout]
    simp
  rw [shiftHalves, if_pos (by decide), hupper, BitVec.getLsbD_or, BitVec.getLsbD_setWidth,
    BitVec.getLsbD_shiftLeft, BitVec.getLsbD_setWidth, BitVec.getLsbD_setWidth]
  by_cases hlow : k < 32
  · simp [hlow, Nat.not_le.mpr hlow]
  · -- Past 64 bits neither side has any left.
    by_cases hmid : k < 64
    · have h64 : k - 32 < 64 := by omega
      have h128 : k - 32 < 128 := by omega
      simp [hk, hlow, hmid, h64, h128, Nat.le_of_not_lt hlow]
    · have hout : v.getLsbD (k - 32) = false := BitVec.getLsbD_of_ge _ _ (by omega)
      simp [hmid, hout]

/-- **Two words packed** are one value, the shifted one on top. -/
theorem pack_words (lo hi : Word) :
    lo.setWidth 128 ||| shiftHalves (hi.setWidth 128) 32 = (hi ++ lo : BitVec 64).setWidth 128 := by
  refine BitVec.eq_of_getLsbD_eq fun k hk => ?_
  rw [BitVec.getLsbD_or, getLsbD_shiftHalves_word hi hk, BitVec.getLsbD_setWidth,
    BitVec.getLsbD_setWidth, Memory.getLsbD_pair, decide_eq_true hk, Bool.true_and, Bool.true_and]
  by_cases hlow : k < 32
  · have hhigh : ¬ 32 ≤ k := by omega
    simp [hlow, hhigh]
  · simp [hlow, Nat.le_of_not_lt hlow]

theorem pack_zero (lo : Word) : lo.setWidth 128 = ((0 : Word) ++ lo : BitVec 64).setWidth 128 := by
  rw [← pack_words]
  have hzero : shiftHalves ((0 : Word).setWidth 128) 32 = 0 := by decide
  rw [hzero]
  exact BitVec.or_zero.symm

/-! ## §2. A constant in an xmm register. -/

/-- `m'` differs from `m` in xmm registers at most, and in general-purpose
registers that the pool was free to lend. -/
structure Spares (pool : ScratchPool) (m m' : Machine) : Prop where
  gp : ∀ g, pool.eligible .empty g = false → m'.gp g = m.gp g
  carry : m'.carry = m.carry
  memory : m'.memory = m.memory

namespace Spares

variable {pool : ScratchPool} {m m₁ m₂ : Machine}

theorem trans (h : Spares pool m m₁) (h' : Spares pool m₁ m₂) : Spares pool m m₂ where
  gp g hg := (h'.gp g hg).trans (h.gp g hg)
  carry := h'.carry.trans h.carry
  memory := h'.memory.trans h.memory

theorem setXmm (m : Machine) (x : Fin 8) (v : BitVec 128) : Spares pool m (m.setXmm x v) :=
  ⟨fun _ _ => rfl, rfl, rfl⟩

/-- A register that was lent was free. -/
theorem setGp {g : GpReg} (hg : pool.eligible .empty g = true) (m : Machine) (v : Word) :
    Spares pool m (m.setGp g v) where
  gp q hq := by
    have hne : q ≠ g := by
      rintro rfl
      exact absurd hq (by simp [hg])
    rw [Machine.gp_setGp, if_neg hne]
  carry := rfl
  memory := rfl

end Spares

namespace Synthesis

variable {pool : ScratchPool} {m : Machine} {Q : RecordId → Machine → Prop}

/-- **A constant in an xmm register** fills it, and disturbs at most a scratch
register. -/
theorem constant_single_executing {x : Fin 8} {i : UInt8} (hi : i.toNat = x.val) (value : Word)
    (hQ : ∀ id m', m'.xmm = (m.setXmm x (value.setWidth 128)).xmm → Spares pool m m' → Q id m') :
    (constant (.single i) value).Follows (executing pool) m Q := by
  have hx := xmmIndex_single hi
  by_cases hvalue : value = 0
  · subst hvalue
    show (clearXmm (.single i)).Follows (executing pool) m Q
    exact emit_executing (Machine.step_clearXmm m hx) fun id => hQ id _ rfl (.setXmm m x 0)
  · rw [constant_eq_withScratch (show (Reg.single i).isXmm = true from rfl) hvalue]
    show (withScratch [.single i] (viaScratch (.single i) value)).Follows (executing pool) m Q
    refine Follows.seq fun g hg => ?_
    -- The register that is lent takes the value on its way.
    have hfree : pool.eligible .empty g = true := hg
    refine Follows.seq (Follows.seq ?_)
    show (constant (.gp g) value).Follows (executing pool) m _
    refine constant_executing g value fun id => ?_
    rw [if_neg hvalue]
    refine Follows.seq ?_
    refine emit_executing (Machine.step_gpToXmm (m.setGp g value) hx g) fun _ => ?_
    refine ⟨(ScratchPool.eligible_iff.mp hfree).2.1, hQ id _ ?_ ?_⟩
    · rw [Machine.gp_setGp, if_pos rfl]
      rfl
    · exact (Spares.setGp hfree m value).trans (.setXmm _ x _)

end Synthesis

/-! ## §3. Two registers. -/

/-- `m'` holds the value of two words in the xmm register `x`.  Of the other xmm
registers only `y` may differ, and only if the high word is not zero. -/
structure Packs (pool : ScratchPool) (m : Machine) (x y : Fin 8) (lo hi : Word) (m' : Machine) :
    Prop extends Spares pool m m' where
  value : m'.xmm x = (hi ++ lo : BitVec 64).setWidth 128
  spent : hi = 0 → m'.xmm y = m.xmm y
  others : ∀ z, z ≠ x → z ≠ y → m'.xmm z = m.xmm z

namespace Synthesis

variable {pool : ScratchPool} {m : Machine} {Q : RecordId → Machine → Prop}

/-- The high half is made in the second register, shifted up and put on top. -/
theorem withHighHalf_executing {m₁ : Machine} {x y : Fin 8} {i j : UInt8} (hi : i.toNat = x.val)
    (hj : j.toNat = y.val) (hne : x ≠ y) {lo : Word} (high : Word) (id : RecordId)
    (hlow : m₁.xmm = (m.setXmm x (lo.setWidth 128)).xmm) (hspares : Spares pool m m₁)
    (hQ : ∀ m', Packs pool m x y lo high m' → Q id m') :
    (withHighHalf (.single i) (.single j) high id).Follows (executing pool) m₁ Q := by
  have hx := xmmIndex_single hi
  have hy := xmmIndex_single hj
  have hlowx : m₁.xmm x = lo.setWidth 128 := by rw [hlow, Machine.xmm_setXmm, if_pos rfl]
  have hlowz : ∀ z, z ≠ x → m₁.xmm z = m.xmm z := by
    intro z hz
    rw [hlow, Machine.xmm_setXmm, if_neg hz]
  unfold withHighHalf
  by_cases hhigh : high = 0
  · subst hhigh
    rw [if_neg (by simp)]
    refine hQ m₁ ⟨hspares, ?_, fun _ => hlowz y hne.symm, fun z hz _ => hlowz z hz⟩
    rw [hlowx]
    exact pack_zero lo
  · rw [if_pos hhigh]
    refine Follows.seq (constant_single_executing hj high fun _ m₂ hxmm hspares' => ?_)
    refine Follows.seq (emit_executing (Machine.step_shiftXmm m₂ hy 32) fun _ => ?_)
    refine Follows.seq (emit_executing (Machine.step_orXmm _ hx hy) fun _ => ?_)
    have hhighy : m₂.xmm y = high.setWidth 128 := by rw [hxmm, Machine.xmm_setXmm, if_pos rfl]
    have hhighz : ∀ z, z ≠ y → m₂.xmm z = m₁.xmm z := by
      intro z hz
      rw [hxmm, Machine.xmm_setXmm, if_neg hz]
    refine hQ _ ⟨?_, ?_, fun hzero => absurd hzero hhigh, fun z hzx hzy => ?_⟩
    · exact hspares.trans (hspares'.trans ((Spares.setXmm m₂ y _).trans (.setXmm _ x _)))
    · simp only [Machine.xmm_setXmm, if_pos, if_neg hne, hhighy, hhighz x hne, hlowx]
      exact pack_words lo high
    · simp only [Machine.xmm_setXmm, if_neg hzx, if_neg hzy, hhighz z hzy, hlowz z hzx]

/-- **A 64-bit constant in two xmm registers** is whole in the first one. -/
theorem constantPair_singles_executing {x y : Fin 8} {i j : UInt8} (hi : i.toNat = x.val)
    (hj : j.toNat = y.val) (hne : x ≠ y) (low high : Word)
    (hQ : ∀ id m', Packs pool m x y low high m' → Q id m') :
    (constantPair (.single i) (.single j) low high).Follows (executing pool) m Q := by
  rw [constantPair_of_xmm (show (Reg.single i).isXmm = true from rfl)]
  show Follows _ (constant (.single i) low >>= withHighHalf (.single i) (.single j) high) m Q
  refine Follows.seq (constant_single_executing hi low fun id m₁ hxmm hspares => ?_)
  exact withHighHalf_executing hi hj hne high id hxmm hspares (hQ id)

/-- A 64-bit constant in two general-purpose registers is a half in each. -/
theorem constantPair_gp_executing (lo hi : GpReg) (low high : Word)
    (hQ : ∀ id m', m'.gp = ((m.setGp lo low).setGp hi high).gp → m'.xmm = m.xmm →
      m'.memory = m.memory → Q id m') :
    (constantPair (.gp lo) (.gp hi) low high).Follows (executing pool) m Q := by
  rw [constantPair_of_gp rfl]
  refine Follows.seq (constant_executing lo low fun id => ?_)
  exact Follows.seq (constant_executing hi high fun _ => hQ id _ rfl rfl rfl)

end Synthesis

/-! ## §4. All values. -/

namespace Session

variable {s : Session}

/-- In two xmm registers, where the request returns. -/
theorem executes_constantPair_singles {i j : UInt8} {x y : Fin 8} (hi : i.toNat = x.val)
    (hj : j.toNat = y.val) (hne : x ≠ y) {low high : Word}
    (hreturns : s.Returns [.constantPair (.single i) (.single j) low high]) (m : Machine) :
    ∃ m', s.Executes [.constantPair (.single i) (.single j) low high] m m' ∧
      Packs s.pool m x y low high m' :=
  executes_single (.seq (Synthesis.constantPair_singles_executing hi hj hne low high
    fun _ _ h => h)) hreturns

/-- In two general-purpose registers, always. -/
theorem executes_constantPair_gp (s : Session) (lo hi : GpReg) (low high : Word) (m : Machine) :
    ∃ m', s.Executes [.constantPair (.gp lo) (.gp hi) low high] m m' ∧
      m'.gp = ((m.setGp lo low).setGp hi high).gp ∧ m'.xmm = m.xmm ∧ m'.memory = m.memory := by
  have hgranted : (Request.constantPair (.gp lo) (.gp hi) low high).synthesis.Follows granted ()
      fun _ _ => True :=
    .seq (Synthesis.constantPair_granted lo hi low high fun _ => trivial)
  exact executes_single (.seq (Synthesis.constantPair_gp_executing lo hi low high
    fun _ _ hgp hxmm hmemory => ⟨hgp, hxmm, hmemory⟩)) (s.returns_single_of_granted hgranted)

end Session

/-- **64-BIT CONSTANTS ARE PACKED AS THEY SHOULD BE.**  Let any session meet the
request for a constant of two words, and let the code that it appends run from
any machine.

In two different xmm registers, if the request returns, all 128 bits of the first
one are the value, whatever both held before.  The second one is changed only
if the high word is not zero, and no other one is.  The carry and memory are
kept, and a general-purpose register can be changed only if the pool has it
and had not lent it.

In two different general-purpose registers the request always returns.  Each
of them holds a word, and nothing else but the carry is changed. -/
theorem wide_constant_packed (s : Session) (low high : Word) (m : Machine) :
    (∀ (i j : UInt8) (x y : Fin 8), i.toNat = x.val → j.toNat = y.val → x ≠ y →
      s.Returns [.constantPair (.single i) (.single j) low high] →
      ∃ m', s.Executes [.constantPair (.single i) (.single j) low high] m m' ∧
        (m'.xmm x).toNat = high.toNat * 0x100000000 + low.toNat ∧
        (∀ z, z ≠ x → (z = y → high = 0) → m'.xmm z = m.xmm z) ∧
        m'.carry = m.carry ∧ m'.memory = m.memory ∧
        ∀ g, m'.gp g ≠ m.gp g →
          s.pool.lendable.contains (.gp g) = true ∧ s.pool.lent.contains (.gp g) = false) ∧
    (∀ g h : GpReg, g ≠ h →
      ∃ m', s.Executes [.constantPair (.gp g) (.gp h) low high] m m' ∧
        m'.gp g = low ∧ m'.gp h = high ∧ (∀ r, r ≠ g → r ≠ h → m'.gp r = m.gp r) ∧
        m'.xmm = m.xmm ∧ m'.memory = m.memory) := by
  constructor
  · intro i j x y hi hj hne hreturns
    obtain ⟨m', hexecutes, hpacks⟩ := Session.executes_constantPair_singles hi hj hne hreturns m
    refine ⟨m', hexecutes, ?_, ?_, hpacks.carry, hpacks.memory, ?_⟩
    · rw [hpacks.value, toNat_pair]
    · intro z hx hy
      by_cases hz : z = y
      · rw [hz]
        exact hpacks.spent (hy hz)
      · exact hpacks.others z hx hz
    · intro g hchanged
      -- Whatever the pool could not lend was kept.
      have hfree : s.pool.eligible .empty g = true := by
        cases hg : s.pool.eligible .empty g with
        | true => rfl
        | false => exact absurd (hpacks.gp g hg) hchanged
      obtain ⟨hlendable, hlent, -⟩ := ScratchPool.eligible_iff.mp hfree
      exact ⟨hlendable, hlent⟩
  · intro g h hne
    obtain ⟨m', hexecutes, hgp, hxmm, hmemory⟩ := s.executes_constantPair_gp g h low high m
    refine ⟨m', hexecutes, ?_, ?_, ?_, hxmm, hmemory⟩
    · rw [hgp, Machine.gp_setGp, if_neg hne, Machine.gp_setGp, if_pos rfl]
    · rw [hgp, Machine.gp_setGp, if_pos rfl]
    · intro r hg hh
      rw [hgp, Machine.gp_setGp, if_neg hh, Machine.gp_setGp, if_neg hg]

/-- Both registers are full of ones to begin with, and both halves of the value need
a scratch register. -/
theorem wide_constant_packed_stale :
    (Session.new Session.defaultScratch).Returns
      [.constantPair (.single 7) (.single 0) 0x80000001 (-2)] ∧
    ∃ m', (Session.new Session.defaultScratch).Executes
        [.constantPair (.single 7) (.single 0) 0x80000001 (-2)]
        { xmm := fun _ => BitVec.allOnes 128, carry := true } m' ∧
      (m'.xmm 7).toNat = 0xFFFFFFFE80000001 ∧ m'.xmm 3 = BitVec.allOnes 128 ∧ m'.carry = true := by
  have hreturns : (Session.new Session.defaultScratch).Returns
      [.constantPair (.single 7) (.single 0) 0x80000001 (-2)] := by
    decide +kernel
  obtain ⟨hxmm, -⟩ := wide_constant_packed (Session.new Session.defaultScratch) 0x80000001 (-2)
    { xmm := fun _ => BitVec.allOnes 128, carry := true }
  obtain ⟨m', hexecutes, hvalue, hothers, hcarry, -, -⟩ :=
    hxmm 7 0 7 0 (by decide) (by decide) (by decide) hreturns
  exact ⟨hreturns, m', hexecutes, hvalue.trans (by decide), hothers 3 (by decide) (by decide),
    hcarry⟩

/-! ## §5. From a constant to memory. -/

/-- Make a 64-bit constant in two registers, and store them. -/
def Request.storeConstant (low high : Word) (base : GpReg) (disp : Word) (lo hi : Reg) :
    List Request :=
  [.constantPair lo hi low high, .transfer (.wide .store (.gp base) disp lo hi)]

namespace Session

section Stored

variable {s : Session} {m : Machine} {low high disp : Word} {base : GpReg}

/-- Through two xmm registers, by one move. -/
theorem stored_through_xmm {i : UInt8} (hi : i.toNat + 1 < 8)
    (hbase : s.pool.lendable.contains (.gp base) = false)
    (hroom : disp.toInt + 4 < 0x80000000)
    (hreturns : s.Returns (Request.storeConstant low high base disp (.single i) (.single (i + 1)))) :
    ∃ m', s.Executes (Request.storeConstant low high base disp (.single i) (.single (i + 1))) m m' ∧
      m'.memory = m.memory.write (m.gp base + disp) 8 (high ++ low : BitVec 64) := by
  obtain ⟨x, hx⟩ : ∃ x : Fin 8, i.toNat = x.val := ⟨⟨i.toNat, by omega⟩, rfl⟩
  have hnext : (i + 1).toNat = x.val + 1 := by
    rw [UInt8.toNat_add, ← hx]
    show (i.toNat + 1) % 256 = i.toNat + 1
    omega
  obtain ⟨y, hy⟩ : ∃ y : Fin 8, x.val + 1 = y.val := ⟨⟨x.val + 1, by omega⟩, rfl⟩
  have hne : x ≠ y := by
    rintro rfl
    omega
  have hpair : (Request.constantPair (.single i) (.single (i + 1)) low high).synthesis.Follows
      (executing s.pool) m fun _ m₁ => Packs s.pool m x y low high m₁ :=
    Synthesis.Follows.seq (Synthesis.constantPair_singles_executing hx (hnext.trans hy) hne low high
      fun _ _ h => h)
  refine executes_cons hpair hreturns ?_
  intro s₁ m₁ _ hreturns₁ hpacks
  have hadmitted := admitted_of_returns hreturns₁
  let a : Address := { base := .gp base, disp }
  have ha : a.HoldsWide := ⟨rfl, rfl, hadmitted.scale, hadmitted.aligned, hroom⟩
  have hstore := run_xmm ha (show AccessSize.long.isWide = true from rfl)
    (.singles .single hx hnext) .store m₁
  refine ⟨_, s₁.executes_transfer hadmitted hstore, ?_⟩
  -- The base is no scratch register, so the place is where it was.
  have hkept : m₁.gp base = m.gp base := by
    refine hpacks.gp base ?_
    simp [ScratchPool.eligible, hbase]
  have hplace : m₁.locate a = m.gp base + disp := by
    show m₁.gp base + (0 <<< 0) + disp = _
    rw [hkept]
    simp
  show m₁.memory.write (m₁.locate a) 8 ((m₁.xmm x).setWidth 64) = _
  rw [hplace, hpacks.memory, hpacks.value, BitVec.setWidth_setWidth_of_le _ (by decide),
    BitVec.setWidth_eq]

/-- Through two general-purpose registers, by a move each. -/
theorem stored_through_gp {lo hi : GpReg} (hne : lo ≠ hi) (hlo : base ≠ lo) (hhi : base ≠ hi)
    (hreturns : s.Returns (Request.storeConstant low high base disp (.gp lo) (.gp hi))) :
    disp.toInt + 4 < 0x80000000 ∧
    ∃ m', s.Executes (Request.storeConstant low high base disp (.gp lo) (.gp hi)) m m' ∧
      m'.memory = m.memory.write (m.gp base + disp) 8 (high ++ low : BitVec 64) := by
  have hpair : (Request.constantPair (.gp lo) (.gp hi) low high).synthesis.Follows
      (executing s.pool) m fun _ m₁ =>
        m₁.gp = ((m.setGp lo low).setGp hi high).gp ∧ m₁.memory = m.memory :=
    Synthesis.Follows.seq (Synthesis.constantPair_gp_executing lo hi low high
      fun _ _ hgp _ hmemory => ⟨hgp, hmemory⟩)
  -- That there is room for the high word is known once the transfer is met.
  suffices h : ∃ m', s.Executes (Request.storeConstant low high base disp (.gp lo) (.gp hi)) m m' ∧
      disp.toInt + 4 < 0x80000000 ∧
      m'.memory = m.memory.write (m.gp base + disp) 8 (high ++ low : BitVec 64) by
    obtain ⟨m', hexecutes, hroom, hstored⟩ := h
    exact ⟨hroom, m', hexecutes, hstored⟩
  refine executes_cons hpair hreturns ?_
  rintro s₁ m₁ - hreturns₁ ⟨hgp, hmemory⟩
  have hadmitted := admitted_of_returns hreturns₁
  have hroom : disp.toInt + 4 < 0x80000000 := (hadmitted.split rfl).2
  let a : Address := { base := .gp base, disp }
  have ha : a.HoldsWide := ⟨rfl, rfl, hadmitted.scale, hadmitted.aligned, hroom⟩
  have hstore := run_store_pair ha (show AccessSize.long.isWide = true from rfl) lo hi m₁
  refine ⟨_, s₁.executes_transfer hadmitted hstore, hroom, ?_⟩
  have hplace : m₁.locate a = m.gp base + disp := by
    show m₁.gp base + (0 <<< 0) + disp = _
    rw [hgp, Machine.gp_setGp, if_neg hhi, Machine.gp_setGp, if_neg hlo]
    simp
  have hlow : m₁.gp lo = low := by
    rw [hgp, Machine.gp_setGp, if_neg hne, Machine.gp_setGp, if_pos rfl]
  have hhigh : m₁.gp hi = high := by rw [hgp, Machine.gp_setGp, if_pos rfl]
  show m₁.memory.write (m₁.locate a) 8 (m₁.gp hi ++ m₁.gp lo : BitVec 64) = _
  rw [hplace, hmemory, hlow, hhigh]

end Stored

end Session

/-- **A 64-BIT CONSTANT REACHES MEMORY IN EITHER WAY.**  Let a session meet the
requests that make a constant in two neighbouring xmm registers and store it,
and let the same session or another meet them for two general-purpose
registers, at a base that is none of these and that the pool does not lend.
Both codes run to their end from every machine and leave the same memory: at
the place, the eight bytes of the value, least significant first, and
everywhere else what was there. -/
theorem wide_constant_stored (s t : Session) (m : Machine) (low high : Word) (base : GpReg)
    (disp : Word) (hbase : s.pool.lendable.contains (.gp base) = false) (i : UInt8)
    (hi : i.toNat + 1 < 8) (g h : GpReg) (hne : g ≠ h) (hg : base ≠ g) (hh : base ≠ h)
    (hxmm : s.Returns (Request.storeConstant low high base disp (.single i) (.single (i + 1))))
    (hgp : t.Returns (Request.storeConstant low high base disp (.gp g) (.gp h))) :
    ∃ m₁ m₂,
      s.Executes (Request.storeConstant low high base disp (.single i) (.single (i + 1))) m m₁ ∧
      t.Executes (Request.storeConstant low high base disp (.gp g) (.gp h)) m m₂ ∧
      m₁.memory = m₂.memory ∧
      ∀ a, m₁.memory.byteAt a =
        if (a - (m.gp base + disp)).toNat < 8 then
          ((high ++ low : BitVec 64) >>> (8 * (a - (m.gp base + disp)).toNat)).setWidth 8
        else m.memory.byteAt a := by
  obtain ⟨hroom, m₂, hexecutes₂, hmemory₂⟩ := Session.stored_through_gp (m := m) hne hg hh hgp
  obtain ⟨m₁, hexecutes₁, hmemory₁⟩ := Session.stored_through_xmm (m := m) hi hbase hroom hxmm
  refine ⟨m₁, m₂, hexecutes₁, hexecutes₂, hmemory₁.trans hmemory₂.symm, fun a => ?_⟩
  rw [hmemory₁]
  exact Memory.byteAt_write m.memory (m.gp base + disp) a (by decide) _

/-- Both halves need a scratch register, and the place wraps around the end of
memory. -/
theorem wide_constant_stored_frame :
    (Session.new Session.defaultScratch).Returns
      (Request.storeConstant 0x44332211 (-2) .ebp (-4) (.single 6) (.single 7)) ∧
    (Session.new Session.defaultScratch).Returns
      (Request.storeConstant 0x44332211 (-2) .ebp (-4) (.gp .esi) (.gp .eax)) ∧
    ∃ m₁ m₂,
      (Session.new Session.defaultScratch).Executes
        (Request.storeConstant 0x44332211 (-2) .ebp (-4) (.single 6) (.single 7)) {} m₁ ∧
      (Session.new Session.defaultScratch).Executes
        (Request.storeConstant 0x44332211 (-2) .ebp (-4) (.gp .esi) (.gp .eax)) {} m₂ ∧
      m₁.memory = m₂.memory ∧ m₁.memory.byteAt (-4) = 0x11 ∧ m₁.memory.byteAt (-1) = 0x44 ∧
      m₁.memory.byteAt 0 = 0xFE ∧ m₁.memory.byteAt 3 = 0xFF ∧ m₁.memory.byteAt 4 = 0 := by
  have hxmm : (Session.new Session.defaultScratch).Returns
      (Request.storeConstant 0x44332211 (-2) .ebp (-4) (.single 6) (.single 7)) := by
    decide +kernel
  have hgp : (Session.new Session.defaultScratch).Returns
      (Request.storeConstant 0x44332211 (-2) .ebp (-4) (.gp .esi) (.gp .eax)) := by
    decide +kernel
  refine ⟨hxmm, hgp, ?_⟩
  obtain ⟨m₁, m₂, hexecutes₁, hexecutes₂, hsame, hbytes⟩ :=
    wide_constant_stored (Session.new Session.defaultScratch) (Session.new Session.defaultScratch) {}
      0x44332211 (-2) .ebp (-4) (by decide) 6 (by decide) .esi .eax (by decide) (by decide)
      (by decide) hxmm hgp
  refine ⟨m₁, m₂, hexecutes₁, hexecutes₂, hsame, ?_, ?_, ?_, ?_, ?_⟩ <;> rw [hbytes] <;> decide

end TwoAddress
