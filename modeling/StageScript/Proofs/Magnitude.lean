import Mathlib
import StageScript.Proofs.NarrowForms

set_option autoImplicit false

/-! # Numbers without a sign

What is read from digits has no minus sign and is no NaN (`Decimal.isUnsigned_nearest`), since
rounding, multiplying and dividing keep it so. A number like that is listed as `inf`, or as a digit
with digits, points, minus signs and an `e` behind it (`Decimal.isMagnitude_listed`). Main
statement: `Literal.sexpr_number`. -/

namespace StageScript

namespace Decimal

open Float.Model (Format UnpackedFloat)
open Float.Model.UnpackedFloat

/-! ## Arithmetic -/

/-- No NaN, and no minus sign. -/
inductive Unsigned : UnpackedFloat → Prop where
  | infinity : Unsigned (.infinity .positive)
  | zero : Unsigned (.zero .positive)
  | finite (m : Nat) (e : Int) (hm : 0 < m) : Unsigned (.finite .positive m e hm)

theorem unsigned_roundWithAccuracy (spec : Format) (m : Nat) (e : Int) (accuracy : Accuracy) :
    Unsigned (roundWithAccuracy spec .positive m e accuracy) := by
  simp only [roundWithAccuracy]
  split
  · exact .zero
  · exact .finite _ _ _

theorem unsigned_ofNat (spec : Format) (n : Nat) : Unsigned (ofNat spec n) := by
  rw [ofNat, ofInt, UnpackedFloat.normalize]
  split
  · next h =>
    rw [Int.compare_eq_lt] at h
    omega
  · exact .zero
  · exact unsigned_roundWithAccuracy _ _ _ _

namespace Unsigned

variable {x : UnpackedFloat}

theorem mul_finite (hx : Unsigned x) (spec : Format) {m : Nat} {e : Int} (hm : 0 < m) :
    Unsigned (mul spec x (.finite .positive m e hm)) := by
  cases hx with
  | infinity => exact .infinity
  | zero => exact .zero
  | finite => exact unsigned_roundWithAccuracy _ _ _ _

theorem div_finite (hx : Unsigned x) (spec : Format) {m : Nat} {e : Int} (hm : 0 < m) :
    Unsigned (div spec x (.finite .positive m e hm)) := by
  cases hx with
  | infinity => exact .infinity
  | zero => exact .zero
  | finite => exact unsigned_roundWithAccuracy _ _ _ _

end Unsigned

theorem unsigned_ofScientific (spec : Format) (m : Nat) (e : Int) :
    Unsigned (UnpackedFloat.ofScientific spec m e) := by
  rw [UnpackedFloat.ofScientific]
  split
  · exact .zero
  split
  · exact .infinity
  split
  · exact .zero
  split
  · exact (Unsigned.finite _ _ _).mul_finite _ _
  · exact (Unsigned.finite _ _ _).div_finite _ _

/-! ## Bits -/

/-- The bits are not behind those of infinity, where the NaNs and the negative numbers are. -/
def IsUnsigned (x : Float) : Prop := x.toBits.toNat ≤ 2047 * 2 ^ 52

instance (x : Float) : Decidable (IsUnsigned x) :=
  inferInstanceAs (Decidable (x.toBits.toNat ≤ 2047 * 2 ^ 52))

theorem toNat_packComponents (field : BitVec 11) (fraction : BitVec 52) :
    (packComponents Format.binary64 .positive field fraction).toNat =
      field.toNat * 2 ^ 52 + fraction.toNat := by
  have hshift := Nat.shiftLeft_add_eq_or_of_lt fraction.isLt field.toNat
  rw [packComponents, BitVec.toNat_append, BitVec.toNat_append]
  simp only [Sign.toBitVec, BitVec.toNat_ofNat, Nat.zero_mod, Nat.zero_shiftLeft, Nat.zero_or]
  rw [← hshift, Nat.shiftLeft_eq]

theorem Unsigned.toNat_pack_le {x : UnpackedFloat} (hx : Unsigned x) :
    (UnpackedFloat.pack Format.binary64 x).toNat ≤ 2047 * 2 ^ 52 := by
  have hle : ∀ (field : BitVec 11) (fraction : BitVec 52), field.toNat < 2047 →
      (packComponents Format.binary64 .positive field fraction).toNat ≤ 2047 * 2 ^ 52 := by
    intro field fraction hfield
    rw [toNat_packComponents]
    have := fraction.isLt
    omega
  cases hx with
  | infinity => decide
  | zero => decide
  | finite m e hm =>
    simp only [UnpackedFloat.pack]
    split
    · decide
    · next hfield =>
      split
      · refine hle _ _ ?_
        rw [BitVec.toNat_ofNat]
        have := Nat.mod_le (e + Format.binary64.exponentBias + 52).toNat (2 ^ 11)
        omega
      · exact hle _ _ (by decide)

section Unpack

variable (b : BitVec 64)

theorem toNat_unpackSign : (@unpackSign Format.binary64 b).toNat =
    b.toNat / 2 ^ 63 % 2 := by
  simp [unpackSign, BitVec.extractLsb, BitVec.extractLsb', Nat.shiftRight_eq_div_pow]

theorem toNat_unpackExponent : (@unpackExponent Format.binary64 b).toNat =
    b.toNat / 2 ^ 52 % 2 ^ 11 := by
  simp [unpackExponent, BitVec.extractLsb, BitVec.extractLsb', Nat.shiftRight_eq_div_pow]

theorem toNat_unpackMantissa : (@unpackMantissa Format.binary64 b).toNat =
    b.toNat % 2 ^ 52 := by
  simp [unpackMantissa, BitVec.extractLsb, BitVec.extractLsb', Nat.shiftRight_eq_div_pow]

variable {b}

theorem unsigned_unpack (h : b.toNat ≤ 2047 * 2 ^ 52) :
    Unsigned (UnpackedFloat.unpack Format.binary64 b) := by
  have hsign : @unpackSign Format.binary64 b = 0#1 := by
    apply BitVec.eq_of_toNat_eq
    rw [toNat_unpackSign, BitVec.toNat_ofNat]
    omega
  simp only [UnpackedFloat.unpack, hsign, Sign.ofBitVec, if_pos]
  split
  · next hexponent =>
    have hmantissa : @unpackMantissa Format.binary64 b = 0#52 := by
      have hfield := congrArg BitVec.toNat hexponent
      rw [toNat_unpackExponent] at hfield
      have hall : (-1#11).toNat = 2047 := rfl
      have hzero : b.toNat % 2 ^ 52 = 0 := by omega
      apply BitVec.eq_of_toNat_eq
      rw [toNat_unpackMantissa, hzero]
      rfl
    rw [if_pos hmantissa]
    exact .infinity
  split
  · split
    · exact .zero
    · exact .finite _ _ _
  · exact .finite _ _ _

end Unpack

theorem isUnsigned_pack {x : UnpackedFloat} (hx : Unsigned x) :
    IsUnsigned (.ofModel (.pack x)) := hx.toNat_pack_le

theorem IsUnsigned.unpack {x : Float} (hx : IsUnsigned x) : Unsigned x.toModel.unpack :=
  unsigned_unpack hx

/-- The parts of a number without a sign have none. -/
theorem IsUnsigned.parts {x : Float} (hx : IsUnsigned x) :
    Parts.ofFloat x = .infinite false ∨ ∃ m q, Parts.ofFloat x = .finite false m q := by
  rw [IsUnsigned] at hx
  rw [Parts.ofFloat, Parts.ofBits]
  generalize x.toBits.toNat = bits at hx
  simp only [Nat.pow_eq, beq_iff_eq]
  have hnegative : (bits / 2 ^ 63 % 2 == 1) = false := by
    rw [beq_eq_false_iff_ne]
    omega
  rw [hnegative]
  split
  · next hfield => exact .inl (if_pos (by omega))
  split
  · exact .inr ⟨_, _, rfl⟩
  · exact .inr ⟨_, _, rfl⟩

/-! ## Reading -/

/-- A finite number above zero. -/
def isPositive : UnpackedFloat → Bool
  | .finite .positive _ _ _ => true
  | _ => false

theorem isPositive_power : ∀ i : Fin Float.exactlyRepresentablePowersOfTen.size,
    isPositive Float.exactlyRepresentablePowersOfTen[i].toModel.unpack = true := by
  decide +kernel

/-- The powers of ten that are kept are finite. -/
theorem exists_unpack_power (e : Nat) (h : e < Float.exactlyRepresentablePowersOfTen.size) :
    ∃ m q hm, Float.exactlyRepresentablePowersOfTen[e].toModel.unpack =
      .finite .positive m q hm := by
  have hpositive := isPositive_power ⟨e, h⟩
  generalize hx : Float.exactlyRepresentablePowersOfTen[e].toModel.unpack = x
  replace hpositive : isPositive x = true := hx ▸ hpositive
  match x, hpositive with
  | .finite .positive m q hm, _ => exact ⟨m, q, hm, rfl⟩

theorem isUnsigned_ofScientific (m : Nat) (s : Bool) (e : Nat) :
    IsUnsigned (Float.ofScientific m s e) := by
  have hm : Unsigned m.toUInt64.toFloat.toModel.unpack :=
    (isUnsigned_pack (unsigned_ofNat _ _)).unpack
  rw [Float.ofScientific]
  split
  · next h =>
    obtain ⟨n, q, hn, hpower⟩ := exists_unpack_power e (by
      simp only [Float.exactlyRepresentablePowersOfTen, List.size_toArray, List.length_cons,
        List.length_nil]
      omega)
    -- small numbers are multiplied or divided by a power that is kept
    dsimp only
    split
    · refine isUnsigned_pack ?_
      rw [hpower]
      exact hm.div_finite _ _
    · refine isUnsigned_pack ?_
      rw [hpower]
      exact hm.mul_finite _ _
  · exact isUnsigned_pack (unsigned_ofScientific _ _ _)

theorem isUnsigned_nearest (digits : List Char) (e : Int) : IsUnsigned (nearest digits e) := by
  simp only [nearest]
  split
  · exact isUnsigned_ofScientific _ _ _
  split
  · decide +kernel
  · exact isUnsigned_ofScientific _ _ _

/-! ## Writing -/

/-- A character that numbers are written with. -/
def isNumeral (c : Char) : Bool := isAsciiDigit c || c == '.' || c == 'e' || c == '-'

theorem isNumeral_of_all {cs : List Char} (h : cs.all isNumeral = true) :
    ∀ c ∈ cs, isNumeral c = true := List.all_eq_true.1 h

/-- A digit comes first, and then more characters that numbers are written with. -/
def IsMagnitude (s : String) : Prop :=
  ∃ c cs, s.toList = c :: cs ∧ isAsciiDigit c = true ∧ ∀ d ∈ cs, isNumeral d = true

theorem isNumeral_of_digit {c : Char} (h : isAsciiDigit c = true) : isNumeral c = true := by
  simp [isNumeral, h]

theorem IsMagnitude.append {s t : String} (hs : IsMagnitude s)
    (ht : ∀ c ∈ t.toList, isNumeral c = true) : IsMagnitude (s ++ t) := by
  obtain ⟨c, cs, heq, hc, hcs⟩ := hs
  refine ⟨c, cs ++ t.toList, by rw [String.toList_append, heq, List.cons_append], hc, ?_⟩
  intro d hd
  rcases List.mem_append.1 hd with hd | hd
  · exact hcs d hd
  · exact ht d hd

theorem isAsciiDigit_toDigits (n : Nat) : ∀ c ∈ Nat.toDigits 10 n, isAsciiDigit c = true := by
  intro c hc
  have hdigit := Nat.isDigit_of_mem_toDigits (by decide) (by decide) hc
  simpa [isAsciiDigit, Char.isDigit, Char.le_def] using hdigit

theorem isNumeral_digits {ds : List Char} {n : Nat} (h : ds ⊆ Nat.toDigits 10 n) :
    ∀ c ∈ (String.ofList ds).toList, isNumeral c = true := by
  rw [String.toList_ofList]
  exact fun c hc => isNumeral_of_digit (isAsciiDigit_toDigits n c (h hc))

theorem isMagnitude_digits {ds : List Char} {n : Nat} (hne : ds ≠ [])
    (h : ds ⊆ Nat.toDigits 10 n) : IsMagnitude (String.ofList ds) := by
  obtain ⟨c, cs, rfl⟩ := List.exists_cons_of_ne_nil hne
  obtain ⟨hc, hcs⟩ := List.forall_mem_cons.1 fun d hd => isAsciiDigit_toDigits n d (h hd)
  exact ⟨c, cs, String.toList_ofList, hc, fun d hd => isNumeral_of_digit (hcs d hd)⟩

theorem isNumeral_zeros (n : Nat) : ∀ c ∈ (zeros n).toList, isNumeral c = true := by
  rw [zeros, String.toList_ofList]
  intro c hc
  obtain rfl := List.eq_of_mem_replicate hc
  rfl

theorem isMagnitude_toPositional (d : Numeral) {wholeEnding : String}
    (h : ∀ c ∈ wholeEnding.toList, isNumeral c = true) :
    IsMagnitude (d.toPositional wholeEnding) := by
  have hdigits := isMagnitude_digits (n := d.digits) Nat.toDigits_ne_nil (List.Subset.refl _)
  rw [Numeral.toPositional]
  split
  · exact (hdigits.append (isNumeral_zeros _)).append h
  split
  · next hpoint =>
    have hne : (Nat.toDigits 10 d.digits).take
        (Int.ofNat (Nat.toDigits 10 d.digits).length + d.exponent).toNat ≠ [] := by
      rw [Ne, List.take_eq_nil_iff, not_or]
      exact ⟨by omega, Nat.toDigits_ne_nil⟩
    have hdot : ∀ c ∈ ".".toList, isNumeral c = true := isNumeral_of_all (by decide)
    exact ((isMagnitude_digits hne (List.take_subset _ _)).append hdot).append
      (isNumeral_digits (List.drop_subset _ _))
  · have hzero : IsMagnitude "0." := ⟨'0', ['.'], by decide, rfl, isNumeral_of_all (by decide)⟩
    exact (hzero.append (isNumeral_zeros _)).append (isNumeral_digits (List.Subset.refl _))

theorem isMagnitude_toScientific (d : Numeral) : IsMagnitude d.toScientific := by
  have hne : (Nat.toDigits 10 d.digits).take 1 ≠ [] := by
    rw [Ne, List.take_eq_nil_iff, not_or]
    exact ⟨Nat.one_ne_zero, Nat.toDigits_ne_nil⟩
  rw [Numeral.toScientific]
  refine ((((isMagnitude_digits hne (List.take_subset _ _)).append ?_).append
    (isNumeral_of_all (by decide))).append ?_).append (isNumeral_digits (List.Subset.refl _))
  · split
    · exact isNumeral_of_all (by decide)
    · intro c hc
      rcases List.mem_append.1 (String.toList_append ▸ hc) with hc | hc
      · obtain rfl : c = '.' := by simpa using hc
        rfl
      · exact isNumeral_digits (List.drop_subset _ _) c hc
  · split <;> exact isNumeral_of_all (by decide)

/-- A number without a sign is listed without one. -/
theorem isMagnitude_listed {x : Float} (hx : IsUnsigned x) :
    listed x = "inf" ∨ IsMagnitude (listed x) := by
  rw [listed]
  obtain h | ⟨m, q, h⟩ := hx.parts
  · rw [h]
    exact .inl rfl
  · rw [h]
    refine .inr ?_
    simp only [Layout.writeParts, Bool.false_eq_true, if_false]
    split
    · exact ⟨'0', ['.', '0'], by decide, rfl, isNumeral_of_all (by decide)⟩
    rw [Layout.write]
    split
    · exact isMagnitude_toPositional _ (isNumeral_of_all (by decide))
    · exact isMagnitude_toScientific _

end Decimal

/-- A number of a script is listed as infinite, or starting with a digit. -/
theorem Literal.sexpr_number {l : Literal} (hk : l.kind = .number)
    (h : Scanner.Lexeme .number l.text.toList) :
    l.sexpr = "inf" ∨ Decimal.IsMagnitude l.sexpr := by
  obtain ⟨ds, e, hread⟩ := Scanner.exists_read?_number h
  rw [sexpr, hk]
  dsimp only
  rw [hread]
  exact Decimal.isMagnitude_listed (Decimal.isUnsigned_nearest ds e)

end StageScript
