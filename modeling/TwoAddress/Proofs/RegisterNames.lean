/-
  TwoAddress.Proofs.RegisterNames
  ───────────────────────────────
  **HOW REGISTERS ARE NAMED.**

  A general-purpose register has one name.  An xmm register has many: its index
  is read as a number of up to eight bits, and numbers may be written with a
  plus sign and with zeros in front.  Nothing that was read may be past the
  end of the file, however many zeros there are.

    • §1 rows of digits, and which of them spell a number of one digit;
    • §2 the parts of an xmm register's name, as the reader takes them off;
    • §3 the names (`Names`), and that they are what is read
      (`register_names_read`).
-/
import TwoAddress.CommandLine.Value

namespace TwoAddress.CommandLine

/-! ## §1. Digits. -/

theorem digitValue_lt {c : Char} (h : c.isDigit = true) : digitValue c < 10 := by
  simp only [Char.isDigit, Bool.and_eq_true, decide_eq_true_eq] at h
  have hhigh : c.toNat ≤ 57 := UInt32.le_iff_toNat_le.mp h.2
  show c.toNat - 48 < 10
  omega

/-- A digit is determined by its value. -/
theorem digitChar_digitValue {c : Char} (h : c.isDigit = true) :
    Nat.digitChar (digitValue c) = c := by
  have hall : ∀ n < 10, Char.ofNat (48 + n) = Nat.digitChar n := by decide
  rw [← hall _ (digitValue_lt h)]
  simp only [Char.isDigit, Bool.and_eq_true, decide_eq_true_eq] at h
  have hlow : 48 ≤ c.toNat := UInt32.le_iff_toNat_le.mp h.1
  show Char.ofNat (48 + (c.toNat - 48)) = c
  rw [Nat.add_sub_cancel' hlow, Char.ofNat_toNat]

theorem digitsValue_snoc (cs : List Char) (c : Char) :
    digitsValue (cs ++ [c]) = 10 * digitsValue cs + digitValue c := by
  unfold digitsValue
  rw [List.foldl_append]
  rfl

theorem digitsValue_zeros (n : Nat) : digitsValue (List.replicate n '0') = 0 := by
  induction n with
  | zero => rfl
  | succ n ih => rw [List.replicate_succ', digitsValue_snoc, ih]; rfl

/-- A row of digits whose value is zero is a row of zeros. -/
theorem eq_zeros_of_digitsValue {cs : List Char} (hdigits : cs.all Char.isDigit = true)
    (hzero : digitsValue cs = 0) : cs = List.replicate cs.length '0' := by
  -- The digits are taken in from the left, so what they spell has to be followed
  -- from any number on.
  have key : ∀ (cs : List Char) (n : Nat), cs.all Char.isDigit = true →
      cs.foldl (fun n c => 10 * n + digitValue c) n = 0 →
        n = 0 ∧ cs = List.replicate cs.length '0' := by
    intro cs
    induction cs with
    | nil => intro n _ h; exact ⟨h, rfl⟩
    | cons c cs ih =>
        intro n hdigits h
        rw [List.all_cons, Bool.and_eq_true] at hdigits
        obtain ⟨hhead, htail⟩ := ih (10 * n + digitValue c) hdigits.2 h
        have hvalue : digitValue c = 0 := by omega
        have hc : '0' = c := by
          have hchar := digitChar_digitValue hdigits.1
          rw [hvalue] at hchar
          exact hchar
        refine ⟨by omega, ?_⟩
        rw [List.length_cons, List.replicate_succ, ← htail, hc]
  exact (key cs 0 hdigits hzero).2

/-- **A number of one digit** is spelled by that digit behind zeros. -/
theorem digits_spell_iff {cs : List Char} {n : Nat} (hn : n < 10) :
    (cs ≠ [] ∧ cs.all Char.isDigit = true ∧ digitsValue cs = n) ↔
      ∃ zeros, cs = List.replicate zeros '0' ++ [Nat.digitChar n] := by
  have hvalue : ∀ n < 10, digitValue (Nat.digitChar n) = n := by decide
  have hdigit : ∀ n < 10, (Nat.digitChar n).isDigit = true := by decide
  constructor
  · rintro ⟨hne, hdigits, rfl⟩
    obtain ⟨front, c, rfl⟩ : ∃ front c, cs = front ++ [c] :=
      ⟨_, _, (List.dropLast_concat_getLast hne).symm⟩
    rw [List.all_append, Bool.and_eq_true, List.all_cons, List.all_nil, Bool.and_true] at hdigits
    obtain ⟨hfront, hc⟩ := hdigits
    rw [digitsValue_snoc] at hn
    -- Anything but zeros in front would count ten at least.
    have hzero : digitsValue front = 0 := by omega
    refine ⟨front.length, ?_⟩
    rw [digitsValue_snoc, hzero, ← eq_zeros_of_digitsValue hfront hzero, Nat.mul_zero,
      Nat.zero_add, digitChar_digitValue hc]
  · rintro ⟨zeros, rfl⟩
    refine ⟨by simp, ?_, ?_⟩
    · have hall : (List.replicate zeros '0').all Char.isDigit = true :=
        List.all_eq_true.mpr fun c hc => List.eq_of_mem_replicate hc ▸ rfl
      rw [List.all_append, hall, List.all_cons, hdigit n hn]
      rfl
    · rw [digitsValue_snoc, digitsValue_zeros, hvalue n hn, Nat.mul_zero, Nat.zero_add]

/-! ## §2. The parts of a name. -/

/-- A plus sign, or none. -/
def sign : Bool → List Char
  | true => ['+']
  | false => []

/-- What stands at the end of a name for a precision. -/
def suffix : Precision → List Char
  | .single => []
  | .double => ['d']

/-- A number without its sign. -/
def unsigned (cs : List Char) : List Char :=
  match cs with
  | '+' :: rest => rest
  | _ => cs

theorem readByte?_eq (cs : List Char) :
    readByte? cs =
      if unsigned cs ≠ [] ∧ (unsigned cs).all Char.isDigit = true ∧
          digitsValue (unsigned cs) ≤ 255 then
        some (digitsValue (unsigned cs))
      else none := rfl

theorem exists_sign (cs : List Char) : ∃ signed, cs = sign signed ++ unsigned cs := by
  unfold unsigned
  split
  · exact ⟨true, rfl⟩
  · exact ⟨false, rfl⟩

/-- A sign is no digit, and is taken off once. -/
theorem unsigned_sign {digits : List Char} (hdigits : digits.all Char.isDigit = true)
    (signed : Bool) : unsigned (sign signed ++ digits) = digits := by
  cases signed with
  | true => rfl
  | false =>
      show unsigned digits = digits
      unfold unsigned
      split
      · exact absurd hdigits (by simp)
      · rfl

/-- **Numbers of one digit**, as they are read. -/
theorem readByte?_eq_some_iff {cs : List Char} {n : Nat} (hn : n < 10) :
    readByte? cs = some n ↔
      ∃ signed zeros, cs = sign signed ++ (List.replicate zeros '0' ++ [Nat.digitChar n]) := by
  rw [readByte?_eq]
  constructor
  · intro h
    split at h
    next hread =>
      injection h with h
      obtain ⟨signed, hsigned⟩ := exists_sign cs
      obtain ⟨zeros, hzeros⟩ := (digits_spell_iff hn).mp ⟨hread.1, hread.2.1, h⟩
      exact ⟨signed, zeros, hzeros ▸ hsigned⟩
    next => exact absurd h (by simp)
  · rintro ⟨signed, zeros, rfl⟩
    obtain ⟨hne, hdigits, hvalue⟩ := (digits_spell_iff hn).mpr ⟨zeros, rfl⟩
    rw [unsigned_sign hdigits, hvalue, if_pos ⟨hne, hdigits, by omega⟩]

theorem append_suffix (cs : List Char) :
    (splitPrecision cs).1 ++ suffix (splitPrecision cs).2 = cs := by
  unfold splitPrecision
  split
  next h =>
    obtain ⟨index, rfl⟩ := List.getLast?_eq_some_iff.mp h
    show (index ++ ['d']).dropLast ++ ['d'] = _
    rw [List.dropLast_concat]
  next => exact List.append_nil cs

theorem splitPrecision_append {index : List Char} (h : index.getLast? ≠ some 'd')
    (precision : Precision) : splitPrecision (index ++ suffix precision) = (index, precision) := by
  cases precision with
  | single =>
      show splitPrecision (index ++ []) = _
      rw [List.append_nil, splitPrecision, if_neg h]
  | double =>
      show splitPrecision (index ++ ['d']) = _
      rw [splitPrecision, if_pos List.getLast?_concat, List.dropLast_concat]

/-- **The name behind `xmm`**, as it is read. -/
theorem readIndex_iff {rest : List Char} {n : Nat} {precision : Precision} (hn : n < 10) :
    (readByte? (splitPrecision rest).1 = some n ∧ (splitPrecision rest).2 = precision) ↔
      ∃ signed zeros, rest =
        sign signed ++ (List.replicate zeros '0' ++ [Nat.digitChar n]) ++ suffix precision := by
  constructor
  · rintro ⟨hread, rfl⟩
    obtain ⟨signed, zeros, hindex⟩ := (readByte?_eq_some_iff hn).mp hread
    refine ⟨signed, zeros, ?_⟩
    rw [← hindex, append_suffix]
  · rintro ⟨signed, zeros, rfl⟩
    -- The index ends in a digit, so that a final `d` is not part of it.
    have hdigit : ∀ n < 10, Nat.digitChar n ≠ 'd' := by decide
    rw [splitPrecision_append (by simpa using hdigit n hn)]
    exact ⟨(readByte?_eq_some_iff hn).mpr ⟨signed, zeros, rfl⟩, rfl⟩

/-! ## §3. Names. -/

/-- How registers are named.  The index of an xmm register is one digit behind any
number of zeros, with a plus sign in front or without, and a final `d` says
that the register is used as a double. -/
inductive Names : List Char → Reg → Prop where
  | gp (r : GpReg) : Names r.name.toList (.gp r)
  | xmm (signed : Bool) (zeros : Nat) (index : Fin 8) (precision : Precision) :
      Names ('x' :: 'm' :: 'm' :: (sign signed ++
          (List.replicate zeros '0' ++ [Nat.digitChar index]) ++ suffix precision))
        (.xmm ⟨UInt8.ofNat index, precision⟩)

theorem Names.ne_absent {cs : List Char} {r : Reg} (h : Names cs r) : r ≠ .absent := by
  cases h with
  | gp => exact Reg.noConfusion
  | xmm => exact Reg.noConfusion

/-- There are names for the registers that the machine has. -/
theorem Names.index_lt {cs : List Char} {r : Reg} (h : Names cs r) {x : XmmReg}
    (hx : r = .xmm x) : x.index < 8 := by
  cases h with
  | gp => exact Reg.noConfusion hx
  | xmm signed zeros index precision =>
      injection hx with hx
      rw [← hx]
      have hindex : (UInt8.ofNat index).toNat = index := UInt8.toNat_ofNat_of_lt' (by
        have := index.isLt
        show index.val < 256
        omega)
      rw [UInt8.lt_iff_toNat_lt, hindex]
      exact index.isLt

/-- What is behind `xmm` is the name of an xmm register or nothing. -/
theorem names_xmm_iff {rest : List Char} {r : Reg} :
    Names ('x' :: 'm' :: 'm' :: rest) r ↔
      ∃ signed zeros, ∃ (index : Fin 8) (precision : Precision),
        rest = sign signed ++ (List.replicate zeros '0' ++ [Nat.digitChar index]) ++
          suffix precision ∧ r = .xmm ⟨UInt8.ofNat index, precision⟩ := by
  constructor
  · intro h
    generalize hcs : 'x' :: 'm' :: 'm' :: rest = cs at h
    cases h with
    | gp g =>
        have hhead : g.name.toList.head? ≠ some 'x' := by cases g <;> decide
        exact absurd (congrArg List.head? hcs.symm) hhead
    | xmm signed zeros index precision =>
        injection hcs with _ hcs
        injection hcs with _ hcs
        injection hcs with _ hcs
        exact ⟨signed, zeros, index, precision, hcs, rfl⟩
  · rintro ⟨signed, zeros, index, precision, rfl, rfl⟩
    exact .xmm signed zeros index precision

theorem names_gp_iff {cs : List Char} (hcs : ∀ rest, cs ≠ 'x' :: 'm' :: 'm' :: rest) {r : Reg} :
    Names cs r ↔ ∃ g : GpReg, g.name.toList = cs ∧ r = .gp g := by
  constructor
  · rintro (g | _)
    · exact ⟨g, rfl, rfl⟩
    · exact absurd rfl (hcs _)
  · rintro ⟨g, rfl, rfl⟩
    exact .gp g

theorem find?_name_iff {cs : List Char} {g : GpReg} :
    (GpReg.all.find? fun r => r.name.toList == cs) = some g ↔ g.name.toList = cs := by
  constructor
  · intro h
    have hname := List.find?_some h
    exact eq_of_beq hname
  · rintro rfl
    cases g <;> decide

/-- Behind `xmm` an index is read, and it has to be one of the machine. -/
theorem readRegister_xmm_iff {s : String} {rest : List Char}
    (hcs : lowerCase s = 'x' :: 'm' :: 'm' :: rest) {r : Reg} :
    readRegister s = .ok r ↔
      ∃ n < 8, readByte? (splitPrecision rest).1 = some n ∧
        r = .xmm ⟨UInt8.ofNat n, (splitPrecision rest).2⟩ := by
  unfold readRegister
  simp only [hcs]
  rcases readByte? (splitPrecision rest).1 with _ | n
  · simp
  · constructor
    · intro h
      simp only at h
      split at h
      next hn =>
        injection h with h
        exact ⟨n, hn, rfl, h.symm⟩
      next => exact absurd h (by simp)
    · rintro ⟨k, hk, hn, rfl⟩
      injection hn with hn
      subst hn
      exact if_pos hk

/-- Anything else has to be the name of a general-purpose register. -/
theorem readRegister_gp_iff {s : String} (hcs : ∀ rest, lowerCase s ≠ 'x' :: 'm' :: 'm' :: rest)
    {r : Reg} : readRegister s = .ok r ↔ ∃ g : GpReg, g.name.toList = lowerCase s ∧ r = .gp g := by
  unfold readRegister
  split
  next rest h => exact absurd h (hcs rest)
  next =>
    constructor
    · intro h
      split at h
      next g hfind =>
        injection h with h
        exact ⟨g, find?_name_iff.mp hfind, h.symm⟩
      next => exact absurd h (by simp)
    · rintro ⟨g, hname, rfl⟩
      rw [find?_name_iff.mpr hname]

/-- **What is read is what is named.** -/
theorem readRegister_eq_ok_iff (s : String) (r : Reg) :
    readRegister s = .ok r ↔ Names (lowerCase s) r := by
  by_cases hxmm : ∃ rest, lowerCase s = 'x' :: 'm' :: 'm' :: rest
  · obtain ⟨rest, hcs⟩ := hxmm
    rw [readRegister_xmm_iff hcs, hcs, names_xmm_iff]
    constructor
    · rintro ⟨n, hn, hread, rfl⟩
      obtain ⟨signed, zeros, hrest⟩ := (readIndex_iff (by omega)).mp ⟨hread, rfl⟩
      exact ⟨signed, zeros, ⟨n, hn⟩, _, hrest, rfl⟩
    · rintro ⟨signed, zeros, index, precision, hrest, rfl⟩
      obtain ⟨hread, rfl⟩ := (readIndex_iff (by omega)).mpr ⟨signed, zeros, hrest⟩
      exact ⟨index, index.isLt, hread, rfl⟩
  · have hcs : ∀ rest, lowerCase s ≠ 'x' :: 'm' :: 'm' :: rest := fun rest h => hxmm ⟨rest, h⟩
    rw [readRegister_gp_iff hcs, names_gp_iff hcs]

/-- A refusal, with another text quoted in it. -/
def ValueError.quoting (s : String) : ValueError → ValueError
  | badXmm _ => .badXmm s
  | unknownRegister _ => .unknownRegister s
  | e => e

/-- Letter case shows in what a refusal quotes only. -/
theorem readRegister_of_lowerCase {s s' : String} (h : lowerCase s' = lowerCase s) :
    readRegister s' = (readRegister s).mapError (ValueError.quoting s') := by
  unfold readRegister
  rw [h]
  split
  next rest _ =>
    rcases splitPrecision rest with ⟨index, precision⟩
    simp only
    split
    · rfl
    · split
      · rfl
      · rfl
  next =>
    split
    · rfl
    · rfl

/-- **REGISTERS ARE READ BY THEIR NAMES.**  A text is read as a register exactly if it
is one of that register's names, whatever the case of its letters.  What is read
is a register of the machine: never the absent one, and never an xmm register
past the eighth.  Texts that differ in the case of letters only come to the same,
but for the text that a refusal quotes. -/
theorem register_names_read (s : String) :
    (∀ r, readRegister s = .ok r ↔ Names (lowerCase s) r) ∧
    (∀ r, readRegister s = .ok r → r ≠ .absent ∧ ∀ x, r = .xmm x → x.index < 8) ∧
    ∀ s', lowerCase s' = lowerCase s →
      readRegister s' = (readRegister s).mapError (ValueError.quoting s') := by
  refine ⟨readRegister_eq_ok_iff s, fun r hr => ?_, fun s' => readRegister_of_lowerCase⟩
  have hnames : Names (lowerCase s) r := (readRegister_eq_ok_iff s r).mp hr
  exact ⟨hnames.ne_absent, fun x hx => hnames.index_lt hx⟩

/-- Zeros in front take nothing away, and a ninth xmm register does not come of them. -/
theorem register_names_read_padded :
    readRegister "XMM+0007D" = .ok (.double 7) ∧ readRegister "xmm+0007d" = .ok (.double 7) ∧
    ∀ r, ¬ Names (lowerCase "xmm0008") r := by
  have hread : readRegister "XMM+0007D" = .ok (.double 7) :=
    ((register_names_read "XMM+0007D").1 _).mpr (.xmm true 3 7 .double)
  refine ⟨hread, ?_, fun r hr => ?_⟩
  · rw [(register_names_read "XMM+0007D").2.2 "xmm+0007d" (by decide), hread]
    rfl
  · have hrefused : readRegister "xmm0008" = .error (.noSuchXmm 8) := rfl
    have haccepted := ((register_names_read "xmm0008").1 r).mpr hr
    exact absurd (hrefused.symm.trans haccepted) (by simp)

end TwoAddress.CommandLine
