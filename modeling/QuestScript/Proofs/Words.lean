import QuestScript.Assembly
import Mathlib.Data.Nat.Bitwise
import Mathlib.Data.Set.Function
import Mathlib.Order.Interval.Set.Defs

/-!
# Reading words back

The six formats have disjoint fields and leading bits of their own. So a word gives back the
instruction it was made from (`decode_encode`), a word that can be read is made again from what
is read (`fits_and_encode_of_decode`), and what cannot be read are the words of the reserved
formats (`decode_eq_none_iff`). `encode_bij_on_unreserved` puts this together, and adds what becomes
of operands that are too wide.
-/

namespace QuestScript

namespace Instruction

/-- A shift to the left multiplies, as long as nothing is lost. -/
theorem to_nat_shift_left_of_lt {w k : UInt32} {n : Nat} (hk : k.toNat = n) (hn : n < 32)
    (hw : w.toNat * 2 ^ n < 2 ^ 32) : (w <<< k).toNat = w.toNat * 2 ^ n := by
  rw [UInt32.toNat_shiftLeft, hk, Nat.mod_eq_of_lt hn, Nat.shiftLeft_eq, Nat.mod_eq_of_lt hw]

/-- A shift to the right divides. -/
theorem to_nat_shift_right_eq_div {w k : UInt32} {n : Nat} (hk : k.toNat = n) (hn : n < 32) :
    (w >>> k).toNat = w.toNat / 2 ^ n := by
  rw [UInt32.toNat_shiftRight, hk, Nat.mod_eq_of_lt hn, Nat.shiftRight_eq_div_pow]

/-- A mask of low bits takes the remainder. -/
theorem to_nat_and_mask {w mask : UInt32} {n : Nat} (hmask : mask.toNat = 2 ^ n - 1) :
    (w &&& mask).toNat = w.toNat % 2 ^ n := by
  rw [UInt32.toNat_and, hmask, Nat.and_two_pow_sub_one_eq_mod]

/-- Words with disjoint bits are joined by addition. -/
theorem to_nat_or_of_lt {high low : UInt32} {k n : Nat} (hhigh : high.toNat = k * 2 ^ n)
    (hlow : low.toNat < 2 ^ n) : (high ||| low).toNat = k * 2 ^ n + low.toNat := by
  rw [UInt32.toNat_or, hhigh, Nat.mul_comm, Nat.two_pow_add_eq_or_of_lt hlow]

/-- Some bits in the middle of a word, as a number. -/
theorem to_nat_shift_right_and_mask {w k mask : UInt32} {m n : Nat} (hk : k.toNat = m) (hm : m < 32)
    (hmask : mask.toNat = 2 ^ n - 1) :
    ((w >>> k) &&& mask).toNat = w.toNat / 2 ^ m % 2 ^ n := by
  rw [to_nat_and_mask hmask, to_nat_shift_right_eq_div hk hm]

/-- A field in the middle of a word is known by its number. -/
theorem shift_right_and_mask_eq {w k mask x : UInt32} {m n : Nat} (hk : k.toNat = m) (hm : m < 32)
    (hmask : mask.toNat = 2 ^ n - 1) (h : w.toNat / 2 ^ m % 2 ^ n = x.toNat) :
    (w >>> k) &&& mask = x := by
  apply UInt32.toNat.inj
  rw [to_nat_shift_right_and_mask hk hm hmask, h]

/-- The last field of a word is known by its number. -/
theorem and_mask_eq {w mask x : UInt32} {n : Nat} (hmask : mask.toNat = 2 ^ n - 1)
    (h : w.toNat % 2 ^ n = x.toNat) : w &&& mask = x := by
  apply UInt32.toNat.inj
  rw [to_nat_and_mask hmask, h]

/-! ## The fields of a format -/

/-- The width of the operation number. -/
def opcodeBits : Instruction → Nat
  | segment0 .. | segment1 .. => 6
  | segment2 .. | segment4 .. => 10
  | segment3 .. => 18
  | segment5 .. => 26

/-- The width of each operand. -/
def operandBits : Instruction → Nat
  | segment0 .. => 24
  | segment1 .. => 12
  | segment2 .. => 20
  | segment3 .. | segment4 .. => 8
  | segment5 .. => 0

/-- The operation number fits its field. -/
def OpcodeFits (i : Instruction) : Prop :=
  i.opcode.toNat < 2 ^ i.opcodeBits

instance (i : Instruction) : Decidable i.OpcodeFits :=
  inferInstanceAs (Decidable (_ < _))

/-- The operation number and the operands fit their fields. -/
def Fits (i : Instruction) : Prop :=
  i.OpcodeFits ∧ ∀ operand ∈ i.operands, operand.toNat < 2 ^ i.operandBits

instance (i : Instruction) : Decidable i.Fits :=
  inferInstanceAs (Decidable (_ ∧ _))

/-- The instruction with other operands. -/
def mapOperands (f : UInt32 → UInt32) : Instruction → Instruction
  | segment0 op a => segment0 op (f a)
  | segment1 op a b => segment1 op (f a) (f b)
  | segment2 op a => segment2 op (f a)
  | segment3 op a => segment3 op (f a)
  | segment4 op a b => segment4 op (f a) (f b)
  | segment5 op => segment5 op

/-- The instruction with each operand modulo the size of its field. -/
def reduced (i : Instruction) : Instruction :=
  i.mapOperands fun operand => UInt32.ofNat (operand.toNat % 2 ^ i.operandBits)

/-- The number that an instruction stands for: what selects its format, then its fields, each
in front of the ones behind it. -/
def value : Instruction → Nat
  | segment0 op a => op.toNat * 2 ^ 24 + a.toNat
  | segment1 op a b => 1 * 2 ^ 30 + op.toNat * 2 ^ 24 + a.toNat * 2 ^ 12 + b.toNat
  | segment2 op a => 2 * 2 ^ 30 + op.toNat * 2 ^ 20 + a.toNat
  | segment3 op a => 0x30 * 2 ^ 26 + op.toNat * 2 ^ 8 + a.toNat
  | segment4 op a b => 0x31 * 2 ^ 26 + op.toNat * 2 ^ 16 + a.toNat * 2 ^ 8 + b.toNat
  | segment5 op => 0x32 * 2 ^ 26 + op.toNat

/-- The word of an instruction that fits its fields, as a number. -/
theorem to_nat_encode {i : Instruction} (h : i.Fits) : i.encode.toNat = i.value := by
  obtain ⟨hop, hoperands⟩ := h
  -- The fields of a segment do not overlap, so that joining them is adding them.
  cases i with
  | segment0 op a =>
      have ha : a.toNat < 2 ^ 24 := hoperands a (by simp [operands])
      have hop : op.toNat < 2 ^ 6 := hop
      have hshift : (op <<< 24).toNat = op.toNat * 2 ^ 24 :=
        to_nat_shift_left_of_lt rfl (by decide) (by omega)
      have hmask : a &&& 0x00ffffff = a := and_mask_eq (n := 24) rfl (by omega)
      rw [encode, hmask, to_nat_or_of_lt hshift (by omega), value]
  | segment1 op a b =>
      have ha : a.toNat < 2 ^ 12 := hoperands a (by simp [operands])
      have hb : b.toNat < 2 ^ 12 := hoperands b (by simp [operands])
      have hop : op.toNat < 2 ^ 6 := hop
      have hshift : (op <<< 24).toNat = op.toNat * 2 ^ 24 :=
        to_nat_shift_left_of_lt rfl (by decide) (by omega)
      have hamask : a &&& 0xfff = a := and_mask_eq (n := 12) rfl (by omega)
      have hbmask : b &&& 0xfff = b := and_mask_eq (n := 12) rfl (by omega)
      have hashift : (a <<< 12).toNat = a.toNat * 2 ^ 12 :=
        to_nat_shift_left_of_lt rfl (by decide) (by omega)
      have hlead : ((0x40000000 : UInt32) ||| (op <<< 24)).toNat =
          (1 * 2 ^ 6 + op.toNat) * 2 ^ 24 := by
        rw [to_nat_or_of_lt (k := 1) (n := 30) rfl (by omega), hshift]
        omega
      have hhead : ((0x40000000 : UInt32) ||| (op <<< 24) ||| (a <<< 12)).toNat =
          (1 * 2 ^ 18 + op.toNat * 2 ^ 12 + a.toNat) * 2 ^ 12 := by
        rw [to_nat_or_of_lt hlead (by omega), hashift]
        omega
      rw [encode, hamask, hbmask, to_nat_or_of_lt hhead (by omega), value]
      omega
  | segment2 op a =>
      have ha : a.toNat < 2 ^ 20 := hoperands a (by simp [operands])
      have hop : op.toNat < 2 ^ 10 := hop
      have hshift : (op <<< 20).toNat = op.toNat * 2 ^ 20 :=
        to_nat_shift_left_of_lt rfl (by decide) (by omega)
      have hmask : a &&& 0x000fffff = a := and_mask_eq (n := 20) rfl (by omega)
      have hhead : ((0x80000000 : UInt32) ||| (op <<< 20)).toNat =
          (2 * 2 ^ 10 + op.toNat) * 2 ^ 20 := by
        rw [to_nat_or_of_lt (k := 2) (n := 30) rfl (by omega), hshift]
        omega
      rw [encode, hmask, to_nat_or_of_lt hhead (by omega), value]
      omega
  | segment3 op a =>
      have ha : a.toNat < 2 ^ 8 := hoperands a (by simp [operands])
      have hop : op.toNat < 2 ^ 18 := hop
      have hshift : (op <<< 8).toNat = op.toNat * 2 ^ 8 :=
        to_nat_shift_left_of_lt rfl (by decide) (by omega)
      have hmask : a &&& 0xff = a := and_mask_eq (n := 8) rfl (by omega)
      have hhead : ((0xc0000000 : UInt32) ||| (op <<< 8)).toNat =
          (0x30 * 2 ^ 18 + op.toNat) * 2 ^ 8 := by
        rw [to_nat_or_of_lt (k := 0x30) (n := 26) rfl (by omega), hshift]
        omega
      rw [encode, hmask, to_nat_or_of_lt hhead (by omega), value]
      omega
  | segment4 op a b =>
      have ha : a.toNat < 2 ^ 8 := hoperands a (by simp [operands])
      have hb : b.toNat < 2 ^ 8 := hoperands b (by simp [operands])
      have hop : op.toNat < 2 ^ 10 := hop
      have hshift : (op <<< 16).toNat = op.toNat * 2 ^ 16 :=
        to_nat_shift_left_of_lt rfl (by decide) (by omega)
      have hamask : a &&& 0xff = a := and_mask_eq (n := 8) rfl (by omega)
      have hbmask : b &&& 0xff = b := and_mask_eq (n := 8) rfl (by omega)
      have hashift : (a <<< 8).toNat = a.toNat * 2 ^ 8 :=
        to_nat_shift_left_of_lt rfl (by decide) (by omega)
      have hlead : ((0xc4000000 : UInt32) ||| (op <<< 16)).toNat =
          (0x31 * 2 ^ 10 + op.toNat) * 2 ^ 16 := by
        rw [to_nat_or_of_lt (k := 0x31) (n := 26) rfl (by omega), hshift]
        omega
      have hhead : ((0xc4000000 : UInt32) ||| (op <<< 16) ||| (a <<< 8)).toNat =
          (0x31 * 2 ^ 18 + op.toNat * 2 ^ 8 + a.toNat) * 2 ^ 8 := by
        rw [to_nat_or_of_lt hlead (by omega), hashift]
        omega
      rw [encode, hamask, hbmask, to_nat_or_of_lt hhead (by omega), value]
      omega
  | segment5 op =>
      have hop : op.toNat < 2 ^ 26 := hop
      rw [encode, to_nat_or_of_lt (k := 0x32) (n := 26) rfl hop, value]

/-! ## Both directions -/

/-- An instruction that fits its fields is read back from its word. -/
theorem decode_encode {i : Instruction} (h : i.Fits) : decode? i.encode = some i := by
  have hw := to_nat_encode h
  obtain ⟨hop, hoperands⟩ := h
  generalize i.encode = w at hw
  -- the two tests of the leading bits, as numbers
  have hlead : (w >>> 30).toNat = w.toNat / 2 ^ 30 := to_nat_shift_right_eq_div rfl (by decide)
  have hformat : (w >>> 26).toNat = w.toNat / 2 ^ 26 := to_nat_shift_right_eq_div rfl (by decide)
  cases i with
  | segment0 op a =>
      have ha : a.toNat < 2 ^ 24 := hoperands a (by simp [operands])
      have hop : op.toNat < 2 ^ 6 := hop
      rw [value] at hw
      have h0 : (w >>> 30).toNat = 0 := by omega
      have hfirst : (w >>> 24) &&& 0x3f = op :=
        shift_right_and_mask_eq (m := 24) (n := 6) rfl (by decide) rfl (by omega)
      have hsecond : w &&& 0x00ffffff = a := and_mask_eq (n := 24) rfl (by omega)
      simp [decode?, h0, hfirst, hsecond]
  | segment1 op a b =>
      have ha : a.toNat < 2 ^ 12 := hoperands a (by simp [operands])
      have hb : b.toNat < 2 ^ 12 := hoperands b (by simp [operands])
      have hop : op.toNat < 2 ^ 6 := hop
      rw [value] at hw
      have h1 : (w >>> 30).toNat = 1 := by omega
      have hfirst : (w >>> 24) &&& 0x3f = op :=
        shift_right_and_mask_eq (m := 24) (n := 6) rfl (by decide) rfl (by omega)
      have hsecond : (w >>> 12) &&& 0xfff = a :=
        shift_right_and_mask_eq (m := 12) (n := 12) rfl (by decide) rfl (by omega)
      have hthird : w &&& 0xfff = b := and_mask_eq (n := 12) rfl (by omega)
      simp [decode?, h1, hfirst, hsecond, hthird]
  | segment2 op a =>
      have ha : a.toNat < 2 ^ 20 := hoperands a (by simp [operands])
      have hop : op.toNat < 2 ^ 10 := hop
      rw [value] at hw
      have h2 : (w >>> 30).toNat = 2 := by omega
      have hfirst : (w >>> 20) &&& 0x3ff = op :=
        shift_right_and_mask_eq (m := 20) (n := 10) rfl (by decide) rfl (by omega)
      have hsecond : w &&& 0x000fffff = a := and_mask_eq (n := 20) rfl (by omega)
      simp [decode?, h2, hfirst, hsecond]
  | segment3 op a =>
      have ha : a.toNat < 2 ^ 8 := hoperands a (by simp [operands])
      have hop : op.toNat < 2 ^ 18 := hop
      rw [value] at hw
      have h3 : (w >>> 30).toNat = 3 := by omega
      have h30 : (w >>> 26).toNat = 0x30 := by omega
      have hfirst : (w >>> 8) &&& 0x3ffff = op :=
        shift_right_and_mask_eq (m := 8) (n := 18) rfl (by decide) rfl (by omega)
      have hsecond : w &&& 0xff = a := and_mask_eq (n := 8) rfl (by omega)
      simp [decode?, h3, h30, hfirst, hsecond]
  | segment4 op a b =>
      have ha : a.toNat < 2 ^ 8 := hoperands a (by simp [operands])
      have hb : b.toNat < 2 ^ 8 := hoperands b (by simp [operands])
      have hop : op.toNat < 2 ^ 10 := hop
      rw [value] at hw
      have h3 : (w >>> 30).toNat = 3 := by omega
      have h31 : (w >>> 26).toNat = 0x31 := by omega
      have hfirst : (w >>> 16) &&& 0x3ff = op :=
        shift_right_and_mask_eq (m := 16) (n := 10) rfl (by decide) rfl (by omega)
      have hsecond : (w >>> 8) &&& 0xff = a :=
        shift_right_and_mask_eq (m := 8) (n := 8) rfl (by decide) rfl (by omega)
      have hthird : w &&& 0xff = b := and_mask_eq (n := 8) rfl (by omega)
      simp [decode?, h3, h31, hfirst, hsecond, hthird]
  | segment5 op =>
      have hop : op.toNat < 2 ^ 26 := hop
      rw [value] at hw
      have h3 : (w >>> 30).toNat = 3 := by omega
      have h32 : (w >>> 26).toNat = 0x32 := by omega
      have hfirst : w &&& 0x03ffffff = op := and_mask_eq (n := 26) rfl (by omega)
      simp [decode?, h3, h32, hfirst]

/-- What is read from a word fits its fields, and its word is the one that was read. -/
theorem fits_and_encode_of_decode {w : Word} {i : Instruction} (h : decode? w = some i) :
    i.Fits ∧ i.encode = w := by
  have hlead : (w >>> 30).toNat = w.toNat / 2 ^ 30 := to_nat_shift_right_eq_div rfl (by decide)
  have hformat : (w >>> 26).toNat = w.toNat / 2 ^ 26 := to_nat_shift_right_eq_div rfl (by decide)
  have hw : w.toNat < 2 ^ 32 := w.toNat_lt
  -- it is enough that the fields fit and that the number of the instruction is the word's
  suffices hsuff : i.Fits ∧ i.value = w.toNat by
    refine ⟨hsuff.1, UInt32.toNat.inj ?_⟩
    rw [to_nat_encode hsuff.1, hsuff.2]
  unfold decode? at h
  split at h
  case h_1 h0 =>
    obtain rfl := Option.some.inj h
    have hop : ((w >>> 24) &&& 0x3f).toNat = w.toNat / 2 ^ 24 % 2 ^ 6 :=
      to_nat_shift_right_and_mask rfl (by decide) rfl
    have ha : (w &&& 0x00ffffff).toNat = w.toNat % 2 ^ 24 := to_nat_and_mask rfl
    simp only [Fits, OpcodeFits, opcode, opcodeBits, operands, operandBits, value,
      List.mem_cons, List.not_mem_nil, or_false, forall_eq, hop, ha]
    omega
  case h_2 h1 =>
    obtain rfl := Option.some.inj h
    have hop : ((w >>> 24) &&& 0x3f).toNat = w.toNat / 2 ^ 24 % 2 ^ 6 :=
      to_nat_shift_right_and_mask rfl (by decide) rfl
    have ha : ((w >>> 12) &&& 0xfff).toNat = w.toNat / 2 ^ 12 % 2 ^ 12 :=
      to_nat_shift_right_and_mask rfl (by decide) rfl
    have hb : (w &&& 0xfff).toNat = w.toNat % 2 ^ 12 := to_nat_and_mask rfl
    simp only [Fits, OpcodeFits, opcode, opcodeBits, operands, operandBits, value,
      List.mem_cons, List.not_mem_nil, or_false, forall_eq_or_imp, forall_eq, hop, ha, hb]
    omega
  case h_3 h2 =>
    obtain rfl := Option.some.inj h
    have hop : ((w >>> 20) &&& 0x3ff).toNat = w.toNat / 2 ^ 20 % 2 ^ 10 :=
      to_nat_shift_right_and_mask rfl (by decide) rfl
    have ha : (w &&& 0x000fffff).toNat = w.toNat % 2 ^ 20 := to_nat_and_mask rfl
    simp only [Fits, OpcodeFits, opcode, opcodeBits, operands, operandBits, value,
      List.mem_cons, List.not_mem_nil, or_false, forall_eq, hop, ha]
    omega
  case h_4 =>
    split at h
    case h_1 h30 =>
      obtain rfl := Option.some.inj h
      have hop : ((w >>> 8) &&& 0x3ffff).toNat = w.toNat / 2 ^ 8 % 2 ^ 18 :=
        to_nat_shift_right_and_mask rfl (by decide) rfl
      have ha : (w &&& 0xff).toNat = w.toNat % 2 ^ 8 := to_nat_and_mask rfl
      simp only [Fits, OpcodeFits, opcode, opcodeBits, operands, operandBits, value,
        List.mem_cons, List.not_mem_nil, or_false, forall_eq, hop, ha]
      omega
    case h_2 h31 =>
      obtain rfl := Option.some.inj h
      have hop : ((w >>> 16) &&& 0x3ff).toNat = w.toNat / 2 ^ 16 % 2 ^ 10 :=
        to_nat_shift_right_and_mask rfl (by decide) rfl
      have ha : ((w >>> 8) &&& 0xff).toNat = w.toNat / 2 ^ 8 % 2 ^ 8 :=
        to_nat_shift_right_and_mask rfl (by decide) rfl
      have hb : (w &&& 0xff).toNat = w.toNat % 2 ^ 8 := to_nat_and_mask rfl
      simp only [Fits, OpcodeFits, opcode, opcodeBits, operands, operandBits, value,
        List.mem_cons, List.not_mem_nil, or_false, forall_eq_or_imp, forall_eq, hop, ha, hb]
      omega
    case h_3 h32 =>
      obtain rfl := Option.some.inj h
      have hop : (w &&& 0x03ffffff).toNat = w.toNat % 2 ^ 26 := to_nat_and_mask rfl
      simp only [Fits, OpcodeFits, opcode, opcodeBits, operands, value, List.not_mem_nil,
        false_implies, implies_true, and_true, hop]
      omega
    case h_4 => exact absurd h (by simp)

/-- The words that cannot be read are those with reserved leading bits. -/
theorem decode_eq_none_iff (w : Word) :
    decode? w = none ↔ (w >>> 26).toNat ∈ Set.Icc 0x33 0x3f := by
  have hlead : (w >>> 30).toNat = w.toNat / 2 ^ 30 := to_nat_shift_right_eq_div rfl (by decide)
  have hformat : (w >>> 26).toNat = w.toNat / 2 ^ 26 := to_nat_shift_right_eq_div rfl (by decide)
  have hw : w.toNat < 2 ^ 32 := w.toNat_lt
  rw [Set.mem_Icc]
  unfold decode?
  split
  case h_1 h0 => simp only [reduceCtorEq, false_iff]; omega
  case h_2 h1 => simp only [reduceCtorEq, false_iff]; omega
  case h_3 h2 => simp only [reduceCtorEq, false_iff]; omega
  case h_4 h0 h1 h2 =>
    split
    case h_1 h30 => simp only [reduceCtorEq, false_iff]; omega
    case h_2 h31 => simp only [reduceCtorEq, false_iff]; omega
    case h_3 h32 => simp only [reduceCtorEq, false_iff]; omega
    case h_4 h30 h31 h32 =>
      -- with both leading bits set, the six leading bits are 0x30 at least
      have hlead_ne : (w >>> 30).toNat ≠ 0 ∧ (w >>> 30).toNat ≠ 1 ∧ (w >>> 30).toNat ≠ 2 :=
        ⟨h0, h1, h2⟩
      have hformat_ne :
          (w >>> 26).toNat ≠ 0x30 ∧ (w >>> 26).toNat ≠ 0x31 ∧ (w >>> 26).toNat ≠ 0x32 :=
        ⟨h30, h31, h32⟩
      simp only [true_iff]
      omega

/-! ## Operands that are too wide -/

/-- A mask sees only what it keeps. -/
theorem of_nat_mod_and_mask {a mask : UInt32} {n : Nat} (hmask : mask.toNat = 2 ^ n - 1) :
    UInt32.ofNat (a.toNat % 2 ^ n) &&& mask = a &&& mask := by
  apply UInt32.toNat.inj
  have hlt : a.toNat % 2 ^ n < 2 ^ 32 := (Nat.mod_le _ _).trans_lt a.toNat_lt
  rw [to_nat_and_mask hmask, to_nat_and_mask hmask, UInt32.toNat_ofNat', Nat.mod_eq_of_lt hlt,
    Nat.mod_mod]

/-- Nothing of an operand but its remainder gets into the word. -/
theorem encode_reduced (i : Instruction) : i.reduced.encode = i.encode := by
  cases i with
  | segment0 op a =>
      simp only [reduced, mapOperands, operandBits, encode]
      rw [of_nat_mod_and_mask (n := 24) rfl]
  | segment1 op a b =>
      simp only [reduced, mapOperands, operandBits, encode]
      rw [of_nat_mod_and_mask (n := 12) rfl, of_nat_mod_and_mask (n := 12) rfl]
  | segment2 op a =>
      simp only [reduced, mapOperands, operandBits, encode]
      rw [of_nat_mod_and_mask (n := 20) rfl]
  | segment3 op a =>
      simp only [reduced, mapOperands, operandBits, encode]
      rw [of_nat_mod_and_mask (n := 8) rfl]
  | segment4 op a b =>
      simp only [reduced, mapOperands, operandBits, encode]
      rw [of_nat_mod_and_mask (n := 8) rfl, of_nat_mod_and_mask (n := 8) rfl]
  | segment5 op => rfl

theorem opcode_map_operands (f : UInt32 → UInt32) (i : Instruction) :
    (i.mapOperands f).opcode = i.opcode := by
  cases i <;> rfl

theorem opcode_bits_map_operands (f : UInt32 → UInt32) (i : Instruction) :
    (i.mapOperands f).opcodeBits = i.opcodeBits := by
  cases i <;> rfl

theorem operand_bits_map_operands (f : UInt32 → UInt32) (i : Instruction) :
    (i.mapOperands f).operandBits = i.operandBits := by
  cases i <;> rfl

theorem operands_map_operands (f : UInt32 → UInt32) (i : Instruction) :
    (i.mapOperands f).operands = i.operands.map f := by
  cases i <;> rfl

/-- Reduced operands fit. -/
theorem fits_reduced {i : Instruction} (h : i.OpcodeFits) : i.reduced.Fits := by
  refine ⟨?_, ?_⟩
  · rw [OpcodeFits, reduced, opcode_map_operands, opcode_bits_map_operands]
    exact h
  · intro operand hmem
    rw [reduced, operands_map_operands, List.mem_map] at hmem
    obtain ⟨a, -, rfl⟩ := hmem
    rw [reduced, operand_bits_map_operands, UInt32.toNat_ofNat']
    calc a.toNat % 2 ^ i.operandBits % 2 ^ 32
        ≤ a.toNat % 2 ^ i.operandBits := Nat.mod_le _ _
      _ < 2 ^ i.operandBits := Nat.mod_lt _ (Nat.two_pow_pos _)

/-- The formats are a bijection between the instructions that fit their fields and the words that
are not reserved. Reading undoes writing, and writing undoes reading; of an operand that is too
wide for its field, the remainder is read back. -/
theorem encode_bij_on_unreserved :
    Set.BijOn encode {i | i.Fits} {w | (w >>> 26).toNat ∉ Set.Icc 0x33 0x3f} ∧
    (∀ i : Instruction, i.Fits → decode? i.encode = some i) ∧
    (∀ w i, decode? w = some i → i.Fits ∧ i.encode = w) ∧
    (∀ w, decode? w = none ↔ (w >>> 26).toNat ∈ Set.Icc 0x33 0x3f) ∧
    (∀ i : Instruction, i.OpcodeFits → decode? i.encode = some i.reduced) := by
  refine ⟨⟨?maps, ?injective, ?onto⟩, fun i => decode_encode,
    fun w i => fits_and_encode_of_decode, decode_eq_none_iff, ?wide⟩
  case maps =>
    intro i (hfits : i.Fits)
    show (i.encode >>> 26).toNat ∉ Set.Icc 0x33 0x3f
    rw [← decode_eq_none_iff, decode_encode hfits]
    exact Option.some_ne_none i
  case injective =>
    intro i (hi : i.Fits) j (hj : j.Fits) hencode
    have hdecode := decode_encode hi
    rw [hencode, decode_encode hj] at hdecode
    exact (Option.some.inj hdecode).symm
  case onto =>
    intro w (hw : (w >>> 26).toNat ∉ Set.Icc 0x33 0x3f)
    rw [← decode_eq_none_iff, ← ne_eq, Option.ne_none_iff_exists'] at hw
    obtain ⟨i, hi⟩ := hw
    exact ⟨i, fits_and_encode_of_decode hi⟩
  case wide =>
    intro i hop
    rw [← encode_reduced]
    exact decode_encode (fits_reduced hop)

example : decode? (segment4 0x3ff 0x1ff 7).encode = some (segment4 0x3ff 0xff 7) := by decide

/-! ## The formats that code is made of -/

theorem decode_encode_segment0 {op a : UInt32} (hop : op.toNat < 2 ^ 6) (ha : a.toNat < 2 ^ 24) :
    decode? (segment0 op a).encode = some (segment0 op a) :=
  decode_encode ⟨hop, by simpa [operands, operandBits] using ha⟩

theorem decode_encode_segment3 {op a : UInt32} (hop : op.toNat < 2 ^ 18) (ha : a.toNat < 2 ^ 8) :
    decode? (segment3 op a).encode = some (segment3 op a) :=
  decode_encode ⟨hop, by simpa [operands, operandBits] using ha⟩

theorem decode_encode_segment5 {op : UInt32} (hop : op.toNat < 2 ^ 26) :
    decode? (segment5 op).encode = some (segment5 op) :=
  decode_encode ⟨hop, by simp [operands]⟩

end Instruction

/-- The numbers of the built-in operations are far below the host's. -/
theorem Opcode.to_nat_code_lt (opcode : Opcode) : opcode.code.toNat < 72 := by
  cases opcode <;> decide

/-- An operation is found under its number. -/
theorem Opcode.of_code?_code (opcode : Opcode) : Opcode.ofCode? opcode.code = some opcode := by
  cases opcode <;> rfl

namespace Assembly

theorem decode_op (opcode : Opcode) :
    Instruction.decode? (op opcode) = some (.segment5 opcode.code) :=
  Instruction.decode_encode_segment5 (by have := opcode.to_nat_code_lt; omega)

theorem decode_push {index : Nat} (h : index < 2 ^ 24) :
    Instruction.decode? (push index) =
      some (.segment0 Instruction.pushOp (UInt32.ofNat index)) := by
  refine Instruction.decode_encode_segment0 (by decide) ?_
  rw [UInt32.toNat_ofNat']
  omega

end Assembly

end QuestScript
