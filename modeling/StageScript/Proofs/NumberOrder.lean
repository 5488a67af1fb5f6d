import StageScript.Proofs.Magnitude

set_option autoImplicit false

/-! # The order of numbers

Of two numbers that can be compared the first is less than, equal to or greater than the second, and
a number can be compared with every other one unless it is no number at all
(`Decimal.compare_eq_none_iff`). What a comparison says is read off this order
(`Comparison.holds_eq`), so three of the comparisons exclude each other and the other three are
their negations (`Comparison.complementary_iff`). -/

namespace StageScript

open Float.Model (UnpackedFloat)

/-! ## Numbers apart from their bits -/

namespace Decimal

/-- Two numbers have an order unless one of them is a NaN. -/
theorem compare_eq_none_iff {x y : UnpackedFloat} :
    x.compare y = none ↔ x.isNaN = true ∨ y.isNaN = true := by
  unfold UnpackedFloat.compare
  split <;> simp_all [UnpackedFloat.isNaN]

/-- The order of two numbers the other way round. -/
theorem compare_swap (x y : UnpackedFloat) : y.compare x = (x.compare y).map Ordering.swap := by
  cases x with
  | notANumber => cases y <;> rfl
  | infinity s =>
    cases y with
    | infinity t => cases s <;> cases t <;> rfl
    | notANumber | zero | finite => cases s <;> rfl
  | zero s =>
    cases y with
    | infinity t | finite t => cases t <;> rfl
    | notANumber | zero => rfl
  | finite s m e hm =>
    cases y with
    | infinity t => cases s <;> cases t <;> rfl
    | notANumber => rfl
    | zero t => cases s <;> rfl
    | finite t n f hn =>
      have hswap : ((compare e f).then (compare m n)).swap = (compare f e).then (compare n m) := by
        rw [Ordering.swap_then, ← Std.OrientedOrd.eq_swap, ← Std.OrientedOrd.eq_swap]
      cases s <;> cases t
      · simp only [UnpackedFloat.compare, Option.map_some, hswap]
      · rfl
      · rfl
      · simp only [UnpackedFloat.compare, Option.map_some, hswap]

/-! ## NaN and its bits -/

open Float.Model.UnpackedFloat (packComponents packedNaN Sign)

/-- Bits with another exponent, or without a fraction, are not those of a NaN. -/
theorem packComponents_ne_packedNaN {s : Sign} {field : BitVec 11} {fraction : BitVec 52}
    (h : field ≠ -1#11 ∨ fraction = 0) :
    packComponents .binary64 s field fraction ≠ packedNaN .binary64 := by
  intro heq
  have hfield := congrArg (@UnpackedFloat.unpackExponent .binary64) heq
  have hfraction := congrArg (@UnpackedFloat.unpackMantissa .binary64) heq
  rw [packedNaN, UnpackedFloat.unpackExponent_packComponents,
    UnpackedFloat.unpackExponent_packComponents] at hfield
  rw [packedNaN, UnpackedFloat.unpackMantissa_packComponents,
    UnpackedFloat.unpackMantissa_packComponents] at hfraction
  rcases h with h | h
  · exact h hfield
  · rw [h] at hfraction
    exact absurd hfraction (by decide)

/-- Packing makes no NaN. -/
theorem isNaN_pack {u : UnpackedFloat} (hu : u.isNaN = false) :
    (Float.ofModel (.pack u)).isNaN = false := by
  have hbits : UnpackedFloat.pack .binary64 u ≠ packedNaN .binary64 := by
    cases u with
    | notANumber => cases hu
    | infinity s => exact packComponents_ne_packedNaN (.inr rfl)
    | zero s => exact packComponents_ne_packedNaN (.inr rfl)
    | finite s m e hm =>
      simp only [UnpackedFloat.pack]
      split
      · exact packComponents_ne_packedNaN (.inr rfl)
      next hsmall =>
      split
      · -- the exponent is below the one of infinity
        refine packComponents_ne_packedNaN (.inl fun hfield => ?_)
        have hnat := congrArg BitVec.toNat hfield
        have hall : (-1#11).toNat = 2 ^ 11 - 1 := rfl
        rw [hall, BitVec.toNat_ofNat] at hnat
        omega
      · exact packComponents_ne_packedNaN (.inl (by decide))
  rw [Bool.eq_false_iff, Ne]
  exact fun hnan =>
    hbits ((UnpackedFloat.isNaN_unpack_iff_of_valid (Float.Model.pack u).valid).1 hnan)

/-- A sign makes no NaN and takes none away. -/
theorem isNaN_neg (x : Float) : (-x).isNaN = x.isNaN := by
  have hneg : -x = .ofModel (.pack x.toModel.unpack.neg) := rfl
  have hx : x.isNaN = x.toModel.unpack.isNaN := rfl
  rw [hneg, hx]
  generalize x.toModel.unpack = u
  cases u with
  | notANumber => decide +kernel
  | infinity s | zero s | finite s m e hm => exact isNaN_pack rfl

theorem IsUnsigned.isNaN {x : Float} (hx : IsUnsigned x) : x.isNaN = false := by
  have hx' := hx.unpack
  show x.toModel.unpack.isNaN = false
  generalize x.toModel.unpack = u at hx' ⊢
  cases hx' <;> rfl

end Decimal

/-! ## Comparisons -/

namespace Comparison

/-- Whether the comparison holds of two numbers in an order, or of two that are in none. -/
def admits : Comparison → Option Ordering → Bool
  | equal, order => order == some .eq
  | notEqual, order => order != some .eq
  | less, order => order == some .lt
  | lessEqual, order => order == some .lt || order == some .eq
  | greater, order => order == some .gt
  | greaterEqual, order => order == some .gt || order == some .eq

theorem lt_iff (x y : Float) :
    x < y ↔ x.toModel.unpack.compare y.toModel.unpack = some .lt := by
  have hmodel : x < y ↔ decide (x.toModel < y.toModel) = true := Iff.rfl
  have hunpacked : x.toModel < y.toModel ↔
      (x.toModel.unpack.compare y.toModel.unpack == some .lt) = true := Iff.rfl
  rw [hmodel, decide_eq_true_iff, hunpacked, beq_iff_eq]

theorem le_iff (x y : Float) :
    x ≤ y ↔ (x.toModel.unpack.compare y.toModel.unpack).any Ordering.isLE = true := by
  have hmodel : x ≤ y ↔ decide (x.toModel ≤ y.toModel) = true := Iff.rfl
  rw [hmodel, decide_eq_true_iff]
  rfl

/-- The order of two numbers decides every comparison. -/
theorem holds_eq (c : Comparison) (x y : Float) :
    c.holds x y = c.admits (x.toModel.unpack.compare y.toModel.unpack) := by
  have hswap := Decimal.compare_swap x.toModel.unpack y.toModel.unpack
  have hbeq : (x == y) = (x.toModel.unpack.compare y.toModel.unpack == some .eq) := rfl
  cases c with
  | equal => exact hbeq
  | notEqual => rw [holds, bne, hbeq, admits, bne]
  | less =>
    rw [holds, Bool.eq_iff_iff, decide_eq_true_iff, lt_iff, admits, beq_iff_eq]
  | lessEqual =>
    rw [holds, Bool.eq_iff_iff, decide_eq_true_iff, le_iff]
    cases x.toModel.unpack.compare y.toModel.unpack with
    | none => simp [admits]
    | some o => cases o <;> simp [admits, Ordering.isLE]
  | greater =>
    rw [holds, Bool.eq_iff_iff, decide_eq_true_iff, lt_iff, hswap]
    cases x.toModel.unpack.compare y.toModel.unpack with
    | none => simp [admits]
    | some o => cases o <;> simp [admits, Ordering.swap]
  | greaterEqual =>
    rw [holds, Bool.eq_iff_iff, decide_eq_true_iff, le_iff, hswap]
    cases x.toModel.unpack.compare y.toModel.unpack with
    | none => simp [admits]
    | some o => cases o <;> simp [admits, Ordering.swap, Ordering.isLE]

/-- Of `less`, `equal` and `greater` exactly one is true, and the other three comparisons are their
    negations. -/
structure Complementary (truth : Comparison → Bool) : Prop where
  one : [truth .less, truth .equal, truth .greater].count true = 1
  notEqual : truth .notEqual = !truth .equal
  greaterEqual : truth .greaterEqual = !truth .less
  lessEqual : truth .lessEqual = !truth .greater

/-- Comparisons are complementary of two numbers unless one of them is a NaN. -/
theorem complementary_iff (x y : Float) :
    Complementary (·.holds x y) ↔ x.isNaN = false ∧ y.isNaN = false := by
  have hnan : x.isNaN = false ∧ y.isNaN = false ↔
      x.toModel.unpack.compare y.toModel.unpack ≠ none := by
    rw [Ne, Decimal.compare_eq_none_iff, not_or, Bool.not_eq_true, Bool.not_eq_true]
    rfl
  have hholds : (fun c : Comparison => c.holds x y) =
      fun c => c.admits (x.toModel.unpack.compare y.toModel.unpack) :=
    funext fun c => c.holds_eq x y
  rw [hnan, hholds]
  cases x.toModel.unpack.compare y.toModel.unpack with
  | none => exact iff_of_false (fun h => absurd h.one (by decide)) fun h => h rfl
  | some o => exact iff_of_true (by cases o <;> exact ⟨rfl, rfl, rfl, rfl⟩) (by simp)

end Comparison

end StageScript
