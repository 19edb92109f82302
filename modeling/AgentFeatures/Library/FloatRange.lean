import AgentFeatures.Library.FloatRounding

/-! When arithmetic on 64-bit floats stays finite.

A result is finite exactly when its operands are and the exact result is below `overflowBound`,
half a unit above the largest finite float.
-/

namespace Library

namespace FloatRange

open Float.Model (Format UnpackedFloat totalExponent)
open Float.Model.UnpackedFloat

/-- The number that sign, mantissa and exponent stand for; zero for anything that is not finite. -/
def unpackedValue : UnpackedFloat → Rat
  | .finite sign mantissa exponent _ => sign.apply mantissa * 2 ^ exponent
  | _ => 0

theorem unpackedValue_zero (sign : Sign) : unpackedValue (.zero sign) = 0 := rfl

theorem abs_zero_lt_overflowBound : |(0 : Rat)| < overflowBound := by norm_num [overflowBound]

/-- The number a finite float stands for; zero for any other. -/
def value (x : Float) : Rat := unpackedValue x.toModel.unpack

-----------------------------------------------------------------------------------------
-- Operands
-----------------------------------------------------------------------------------------

/-- A mantissa and an exponent as they are unpacked from a float. -/
structure Fits (mantissa : Nat) (exponent : Int) : Prop where
  small : mantissa < 2 ^ 53
  least : -1074 ≤ exponent
  most : exponent ≤ 971
  normal : 2 ^ 52 ≤ mantissa ∨ exponent = -1074

/-- An unpacked float as it comes from a packed one. -/
def Canonical : UnpackedFloat → Prop
  | .finite _ mantissa exponent _ => Fits mantissa exponent
  | _ => True

theorem canonical_unpack (x : Float) : Canonical x.toModel.unpack := by
  rw [Float.Model.unpack]
  generalize x.toModel.toBits.toBitVec = bits
  have small := (@unpackMantissa Format.binary64 bits).isLt
  have range := (@unpackExponent Format.binary64 bits).isLt
  change (@unpackMantissa Format.binary64 bits).toNat < 2 ^ 52 at small
  change (@unpackExponent Format.binary64 bits).toNat < 2048 at range
  have bias : (Format.binary64.exponentBias : Int) = 1023 := rfl
  unfold UnpackedFloat.unpack
  simp only [bias]
  split
  · split <;> trivial
  · next below =>
      split
      · next least =>
          split
          · trivial
          · have zero : (@unpackExponent Format.binary64 bits).toNat = 0 := by
              rw [least]
              rfl
            simp only [Canonical, zero]
            exact ⟨by omega, by decide, by decide, .inr rfl⟩
      · next above =>
          have positive : (@unpackExponent Format.binary64 bits).toNat ≠ 0 :=
            fun zero => above (BitVec.eq_of_toNat_eq zero)
          have notFull : (@unpackExponent Format.binary64 bits).toNat ≠ 2047 :=
            fun full => below (BitVec.eq_of_toNat_eq full)
          refine ⟨BitVec.isLt _, ?_, ?_, .inl ?_⟩
          · change (-1074 : Int) ≤ _ - (1023 + 52)
            omega
          · change _ - (1023 + 52) ≤ (971 : Int)
            omega
          · rw [BitVec.toNat_append]
            exact Nat.left_le_or

/-- A float that fits is below the bound. -/
theorem Fits.lt_overflowBound {mantissa : Nat} {exponent : Int} (fits : Fits mantissa exponent)
    : (mantissa : Rat) * 2 ^ exponent < overflowBound := by
  have small : 2 * mantissa < (2 ^ 54 - 1) * 2 ^ 0 := by
    have bound := fits.small
    omega
  have units : (mantissa : Rat) * 2 ^ exponent ≤ (mantissa : Rat) * 2 ^ (971 : Int) :=
    mul_le_mul_of_nonneg_left (zpow_le_zpow_right₀ (by norm_num) fits.most) (by positivity)
  have split : (mantissa : Rat) * 2 ^ (971 : Int) = (2 * mantissa : Nat) * 2 ^ (970 : Int) := by
    have power : (2 : Rat) ^ (971 : Int) = 2 * 2 ^ (970 : Int) := by
      rw [← zpow_one_add₀ (by norm_num)]
      rfl
    rw [power, Nat.cast_mul, Nat.cast_ofNat, mul_left_comm, mul_assoc]
  have below := (overflowBound_le_mul_iff (j := 970) (by decide)).not.mpr
    (not_le.mpr (Nat.cast_lt.mpr small))
  exact units.trans_lt (split ▸ not_le.mp below)

theorem abs_unpackedValue {sign : Sign} {mantissa : Nat} {exponent : Int}
    {positive : 0 < mantissa}
    : |unpackedValue (.finite sign mantissa exponent positive)|
      = (mantissa : Rat) * 2 ^ exponent := by
  have power : (0 : Rat) ≤ 2 ^ exponent := by positivity
  cases sign <;> simp [unpackedValue, Sign.apply, abs_mul, abs_of_nonneg power]

/-- The same number at a smaller exponent, with its sign. -/
theorem apply_shiftLeft_mul_two_zpow (sign : Sign) (n k : Nat) (e : Int)
    : (sign.apply ((n <<< k : Nat) : Int) : Rat) * 2 ^ (e - k) = sign.apply n * 2 ^ e := by
  have same := shiftLeft_mul_two_zpow n k e
  cases sign with
  | positive => exact_mod_cast same
  | negative =>
      rw [Sign.apply, Sign.apply]
      push_cast
      rw [neg_mul, neg_mul]
      exact congrArg _ same

-----------------------------------------------------------------------------------------
-- Operations
-----------------------------------------------------------------------------------------

theorem packs_iff_fits {x : UnpackedFloat} (canonical : Canonical x) : Packs x ↔ x.isFinite := by
  cases x with
  | infinity sign => exact iff_of_false (not_packs_infinity sign) (by simp [isFinite])
  | notANumber => exact iff_of_false not_packs_notANumber (by simp [isFinite])
  | zero sign => exact iff_of_true (packs_zero sign) rfl
  | finite sign mantissa exponent positive =>
      exact iff_of_true (packs_finite_iff.mpr canonical.most) rfl

theorem abs_lt_overflowBound {x : UnpackedFloat} (canonical : Canonical x)
    : |unpackedValue x| < overflowBound := by
  cases x with
  | finite sign mantissa exponent positive =>
      rw [abs_unpackedValue]
      exact canonical.lt_overflowBound
  | _ => exact abs_zero_lt_overflowBound

theorem abs_mul_two_zpow (q : Rat) (e : Int) : |q| * 2 ^ e = |q * 2 ^ e| := by
  rw [abs_mul, abs_of_pos (show (0 : Rat) < 2 ^ e by positivity)]

/-- Two floats at the smaller one of their exponents. -/
theorem aligned (sign : Sign) (mantissa : Nat) {exponent smaller : Int}
    (le : smaller ≤ exponent)
    : (sign.apply ((mantissa <<< (exponent - smaller).toNat : Nat) : Int) : Rat) * 2 ^ smaller
      = sign.apply mantissa * 2 ^ exponent := by
  have shift : exponent - (exponent - smaller).toNat = smaller := by omega
  have same := apply_shiftLeft_mul_two_zpow sign mantissa (exponent - smaller).toNat exponent
  rwa [shift] at same

/-- A sum is finite when both operands are and the exact sum is below the bound. -/
theorem packs_add_iff {x y : UnpackedFloat} (atLeft : Canonical x) (atRight : Canonical y)
    : Packs (UnpackedFloat.add Format.binary64 x y)
      ↔ x.isFinite ∧ y.isFinite ∧ |unpackedValue x + unpackedValue y| < overflowBound := by
  cases x with
  | notANumber => exact iff_of_false not_packs_notANumber (by simp [isFinite])
  | infinity sign =>
      refine iff_of_false ?_ (by simp [isFinite])
      cases y with
      | notANumber => exact not_packs_notANumber
      | infinity other =>
          rw [UnpackedFloat.add]
          split
          · exact not_packs_infinity sign
          · exact not_packs_notANumber
      | _ => exact not_packs_infinity sign
  | zero sign =>
      rw [unpackedValue_zero, zero_add]
      cases y with
      | notANumber => exact iff_of_false not_packs_notANumber (by simp [isFinite])
      | infinity other => exact iff_of_false (not_packs_infinity other) (by simp [isFinite])
      | zero other =>
          refine iff_of_true ?_ ⟨rfl, rfl, abs_lt_overflowBound atRight⟩
          rw [UnpackedFloat.add]
          split <;> exact packs_zero _
      | finite other mantissa exponent positive =>
          exact iff_of_true (packs_finite_iff.mpr atRight.most)
            ⟨rfl, rfl, abs_lt_overflowBound atRight⟩
  | finite sign mantissa exponent positive =>
      cases y with
      | notANumber => exact iff_of_false not_packs_notANumber (by simp [isFinite])
      | infinity other => exact iff_of_false (not_packs_infinity other) (by simp [isFinite])
      | zero other =>
          rw [unpackedValue_zero, add_zero]
          exact iff_of_true (packs_finite_iff.mpr atLeft.most)
            ⟨rfl, rfl, abs_lt_overflowBound atLeft⟩
      | finite other mantissa' exponent' positive' =>
          rw [UnpackedFloat.add, decreaseExponent, decreaseExponent]
          dsimp only
          rw [packs_normalize_iff]
          have sum : |((sign.apply ((mantissa <<< (exponent - min exponent exponent').toNat : Nat))
                + other.apply ((mantissa' <<< (exponent' - min exponent exponent').toNat : Nat))
                  : Int) : Rat)| * 2 ^ min exponent exponent'
              = |unpackedValue (.finite sign mantissa exponent positive)
                + unpackedValue (.finite other mantissa' exponent' positive')| := by
            rw [abs_mul_two_zpow, Int.cast_add, add_mul,
              aligned sign mantissa (min_le_left _ _), aligned other mantissa' (min_le_right _ _)]
            rfl
          rw [sum]
          simp [isFinite]

theorem neg_apply (sign : Sign) (n : Int) : (-sign).apply n = -sign.apply n := by
  cases sign with
  | positive => rfl
  | negative => exact (neg_neg n).symm

/-- A difference is a sum with the negated operand. -/
theorem sub_eq_add (x y : UnpackedFloat)
    : UnpackedFloat.sub Format.binary64 x y = UnpackedFloat.add Format.binary64 x y.neg := by
  cases x <;> cases y <;> simp only [UnpackedFloat.sub, UnpackedFloat.add, UnpackedFloat.neg,
    neg_apply, Int.sub_eq_add_neg]

theorem canonical_neg {x : UnpackedFloat} (canonical : Canonical x) : Canonical x.neg := by
  cases x <;> exact canonical

theorem isFinite_neg (x : UnpackedFloat) : x.neg.isFinite = x.isFinite := by
  cases x <;> rfl

theorem unpackedValue_neg (x : UnpackedFloat) : unpackedValue x.neg = -unpackedValue x := by
  cases x with
  | finite sign mantissa exponent positive =>
      simp only [UnpackedFloat.neg, unpackedValue, neg_apply, Int.cast_neg, neg_mul]
  | _ => exact neg_zero.symm

theorem packs_sub_iff {x y : UnpackedFloat} (atLeft : Canonical x) (atRight : Canonical y)
    : Packs (UnpackedFloat.sub Format.binary64 x y)
      ↔ x.isFinite ∧ y.isFinite ∧ |unpackedValue x - unpackedValue y| < overflowBound := by
  rw [sub_eq_add, packs_add_iff atLeft (canonical_neg atRight), isFinite_neg,
    unpackedValue_neg, sub_eq_add_neg]

/-- The exact product of two mantissas has no room to spare. -/
theorem Fits.mul {mantissa mantissa' : Nat} {exponent exponent' : Int}
    (positive : 0 < mantissa) (positive' : 0 < mantissa')
    (atLeft : Fits mantissa exponent) (atRight : Fits mantissa' exponent')
    : exponent + exponent'
      ≤ max (((mantissa * mantissa').log2 : Int) + (exponent + exponent') - 52) (-1074) := by
  have nonzero : mantissa * mantissa' ≠ 0 := (Nat.mul_pos positive positive').ne'
  have wide (large : 2 ^ 52 ≤ mantissa ∨ 2 ^ 52 ≤ mantissa')
      : 52 ≤ (mantissa * mantissa').log2 := by
    rw [Nat.le_log2 nonzero]
    rcases large with left | right
    · exact left.trans (Nat.le_mul_of_pos_right _ positive')
    · exact right.trans (Nat.le_mul_of_pos_left _ positive)
  rcases atLeft.normal with large | least
  · have := wide (.inl large)
    omega
  · rcases atRight.normal with large | least'
    · have := wide (.inr large)
      omega
    · omega

/-- A product is finite when both operands are and the exact product is below the bound. -/
theorem packs_mul_iff {x y : UnpackedFloat} (atLeft : Canonical x) (atRight : Canonical y)
    : Packs (UnpackedFloat.mul Format.binary64 x y)
      ↔ x.isFinite ∧ y.isFinite ∧ |unpackedValue x * unpackedValue y| < overflowBound := by
  cases x with
  | notANumber => exact iff_of_false not_packs_notANumber (by simp [isFinite])
  | infinity sign =>
      refine iff_of_false ?_ (by simp [isFinite])
      cases y with
      | notANumber => exact not_packs_notANumber
      | zero other => exact not_packs_notANumber
      | _ => exact not_packs_infinity _
  | zero sign =>
      cases y with
      | notANumber => exact iff_of_false not_packs_notANumber (by simp [isFinite])
      | infinity other => exact iff_of_false not_packs_notANumber (by simp [isFinite])
      | _ =>
          refine iff_of_true (packs_zero _) ⟨rfl, rfl, ?_⟩
          rw [unpackedValue_zero, zero_mul]
          exact abs_zero_lt_overflowBound
  | finite sign mantissa exponent positive =>
      cases y with
      | notANumber => exact iff_of_false not_packs_notANumber (by simp [isFinite])
      | infinity other => exact iff_of_false (not_packs_infinity _) (by simp [isFinite])
      | zero other =>
          refine iff_of_true (packs_zero _) ⟨rfl, rfl, ?_⟩
          rw [unpackedValue_zero, mul_zero]
          exact abs_zero_lt_overflowBound
      | finite other mantissa' exponent' positive' =>
          rw [UnpackedFloat.mul,
            packs_roundWithAccuracy_exact_iff (Fits.mul positive positive' atLeft atRight),
            abs_mul, abs_unpackedValue, abs_unpackedValue]
          have product : ((mantissa * mantissa' : Nat) : Rat) * 2 ^ (exponent + exponent')
              = mantissa * 2 ^ exponent * (mantissa' * 2 ^ exponent') := by
            rw [zpow_add₀ (by norm_num), Nat.cast_mul]
            ring
          rw [product]
          simp [isFinite]

/-- The whole part of a quotient reaches the bound with the quotient, in units small enough or
with digits enough.
-/
theorem overflowBound_le_floor_iff {n d : Nat} (positive : 0 < d) {j : Int}
    (enough : j ≤ 970 ∨ 2 ^ 53 * d ≤ n)
    : overflowBound ≤ ((n / d : Nat) : Rat) * 2 ^ j ↔ overflowBound ≤ (n : Rat) / d * 2 ^ j := by
  have floor : ((n / d : Nat) : Rat) * 2 ^ j ≤ (n : Rat) / d * 2 ^ j :=
    mul_le_mul_of_nonneg_right Nat.cast_div_le (by positivity)
  refine ⟨floor.trans', fun reaches => ?_⟩
  by_cases fine : j ≤ 970
  · obtain ⟨k, unit⟩ : ∃ k : Nat, (k : Int) + j = 970 := ⟨(970 - j).toNat, by omega⟩
    rw [overflowBound_le_mul_iff unit] at reaches ⊢
    rw [le_div_iff₀ (by positivity)] at reaches
    rw [Nat.cast_le, Nat.le_div_iff_mul_le positive]
    exact_mod_cast reaches
  · have digits : 2 ^ 53 ≤ n / d :=
      (Nat.le_div_iff_mul_le positive).mpr (enough.resolve_left fine)
    exact overflowBound_le_two_zpow.trans (two_zpow_le_mul digits (by omega))

/-- A quotient and the accuracy of its remainder hand on the doubled quotient. -/
theorem handed_accuracyOfFraction {n d : Nat} (positive : 0 < d)
    : handed (n / d) (accuracyOfFraction (n % d) d) = 2 * n / d := by
  have rest := Nat.mod_lt n positive
  have split : 2 * n = 2 * (n % d) + d * (2 * (n / d)) := by
    have whole := Nat.mod_add_div n d
    rw [Nat.mul_left_comm, ← Nat.mul_add, whole]
  rw [split, Nat.add_mul_div_left _ _ positive, accuracyOfFraction]
  split
  · next none => simp [none, handed_exact]
  · rcases lt_trichotomy (2 * (n % d)) d with less | half | more
    · rw [compare_lt_iff_lt.mpr less, Nat.div_eq_of_lt less]
      exact (Nat.zero_add _).symm
    · rw [compare_eq_iff_eq.mpr half, half, Nat.div_self positive]
      exact Nat.add_comm _ 1
    · have one : 2 * (n % d) / d = 1 := by
        rw [Nat.div_eq_iff positive]
        omega
      rw [compare_gt_iff_gt.mpr more, one]
      exact Nat.add_comm _ 1

/-- The quotient of two mantissas has digits enough, unless its exponent is the least one. -/
theorem digits_of_quotient {mantissa mantissa' shift : Nat} (positive : 0 < mantissa)
    (long : mantissa'.log2 + 53 ≤ mantissa.log2 + shift)
    : 2 ^ 52 * mantissa' ≤ mantissa <<< shift := by
  have wide : 2 ^ (mantissa.log2 + shift) ≤ mantissa <<< shift := by
    rw [← log2_shiftLeft positive]
    exact Nat.log2_self_le (by rw [Nat.shiftLeft_eq]; positivity)
  have narrow : mantissa' ≤ 2 ^ (mantissa'.log2 + 1) := Nat.lt_log2_self.le
  calc 2 ^ 52 * mantissa'
      ≤ 2 ^ 52 * 2 ^ (mantissa'.log2 + 1) := Nat.mul_le_mul_left _ narrow
    _ = 2 ^ (mantissa'.log2 + 53) := by ring
    _ ≤ 2 ^ (mantissa.log2 + shift) := Nat.pow_le_pow_right (by decide) long
    _ ≤ mantissa <<< shift := wide

/-- A quotient of finite floats is finite when the exact quotient is below the bound. -/
theorem packs_div_finite_iff {sign sign' : Sign} {mantissa mantissa' : Nat}
    {exponent exponent' : Int} {positive : 0 < mantissa} {positive' : 0 < mantissa'}
    : Packs (UnpackedFloat.div Format.binary64 (.finite sign mantissa exponent positive)
        (.finite sign' mantissa' exponent' positive'))
      ↔ |unpackedValue (.finite sign mantissa exponent positive)
          / unpackedValue (.finite sign' mantissa' exponent' positive')| < overflowBound := by
  rw [UnpackedFloat.div, divCore, targetExponent_eq, totalExponent, totalExponent]
  dsimp only
  generalize isTarget : min (exponent - exponent')
    (max ((mantissa.log2 : Int) + 1 + exponent - (mantissa'.log2 + 1 + exponent') - 53) (-1074))
      = target
  generalize isShift : (exponent - exponent' - target).toNat = shift
  have digits (high : -1074 < target) : 2 ^ 52 * mantissa' ≤ mantissa <<< shift :=
    digits_of_quotient positive (by omega)
  have fits : target
      ≤ max (((mantissa <<< shift / mantissa').log2 : Int) + target - 52) (-1074) := by
    by_cases low : target ≤ -1074
    · omega
    · have wide : 2 ^ 52 ≤ mantissa <<< shift / mantissa' :=
        (Nat.le_div_iff_mul_le positive').mpr (digits (by omega))
      have log := (Nat.le_log2 (by omega)).mpr wide
      omega
  have enough : target - 1 ≤ 970 ∨ 2 ^ 53 * mantissa' ≤ 2 * mantissa <<< shift := by
    by_cases low : target ≤ -1074
    · omega
    · have := digits (by omega)
      omega
  have quotient : ((2 * mantissa <<< shift : Nat) : Rat) / mantissa' * 2 ^ (target - 1)
      = mantissa * 2 ^ exponent / (mantissa' * 2 ^ exponent') := by
    have shifted := shiftLeft_mul_two_zpow mantissa shift (exponent - exponent')
    rw [show exponent - exponent' - shift = target by omega] at shifted
    calc ((2 * mantissa <<< shift : Nat) : Rat) / mantissa' * 2 ^ (target - 1)
        = ((mantissa <<< shift : Nat) : Rat) * 2 ^ target / mantissa' := by
          rw [zpow_sub_one₀ (by norm_num), Nat.cast_mul]
          push_cast
          ring
      _ = mantissa * 2 ^ exponent / (mantissa' * 2 ^ exponent') := by
          rw [shifted, zpow_sub₀ (by norm_num)]
          field_simp
  rw [packs_roundWithAccuracy_iff fits, handed_accuracyOfFraction positive', ← not_le,
    overflowBound_le_floor_iff positive' enough, quotient, not_le, abs_div, abs_unpackedValue,
    abs_unpackedValue]

/-- A quotient by a number other than zero is finite when the dividend is and the divisor is
infinite or the exact quotient is below the bound.
-/
theorem packs_div_iff {x y : UnpackedFloat} (nonzero : ∀ sign, y ≠ .zero sign)
    : Packs (UnpackedFloat.div Format.binary64 x y)
      ↔ x.isFinite
        ∧ (y.isInf ∨ y.isFinite ∧ |unpackedValue x / unpackedValue y| < overflowBound) := by
  cases y with
  | zero other => exact absurd rfl (nonzero other)
  | notANumber =>
      refine iff_of_false ?_ (by simp [isFinite, isInf])
      cases x <;> exact not_packs_notANumber
  | infinity other =>
      cases x with
      | notANumber => exact iff_of_false not_packs_notANumber (by simp [isFinite])
      | infinity sign => exact iff_of_false not_packs_notANumber (by simp [isFinite])
      | _ => exact iff_of_true (packs_zero _) ⟨rfl, .inl rfl⟩
  | finite other mantissa' exponent' positive' =>
      cases x with
      | notANumber => exact iff_of_false not_packs_notANumber (by simp [isFinite])
      | infinity sign => exact iff_of_false (not_packs_infinity _) (by simp [isFinite])
      | zero sign =>
          refine iff_of_true (packs_zero _) ⟨rfl, .inr ⟨rfl, ?_⟩⟩
          rw [unpackedValue_zero, zero_div]
          exact abs_zero_lt_overflowBound
      | finite sign mantissa exponent positive =>
          rw [packs_div_finite_iff]
          simp [isFinite, isInf]

-----------------------------------------------------------------------------------------
-- Floats
-----------------------------------------------------------------------------------------

/-- The float nearest to an integer, infinite out of range. -/
def ofInt (n : Int) : Float := .ofModel (.ofInt n)

theorem isFinite_ofInt_iff (n : Int) : (ofInt n).isFinite ↔ |(n : Rat)| < overflowBound := by
  have packs
      : Packs (UnpackedFloat.normalize Format.binary64 n 0 .positive)
        ↔ |(n : Rat)| * 2 ^ (0 : Int) < overflowBound := packs_normalize_iff
  rw [zpow_zero, mul_one] at packs
  exact packs

theorem isFinite_add_iff (x y : Float)
    : (x + y).isFinite ↔ x.isFinite ∧ y.isFinite ∧ |value x + value y| < overflowBound :=
  packs_add_iff (canonical_unpack x) (canonical_unpack y)

theorem isFinite_sub_iff (x y : Float)
    : (x - y).isFinite ↔ x.isFinite ∧ y.isFinite ∧ |value x - value y| < overflowBound :=
  packs_sub_iff (canonical_unpack x) (canonical_unpack y)

theorem isFinite_mul_iff (x y : Float)
    : (x * y).isFinite ↔ x.isFinite ∧ y.isFinite ∧ |value x * value y| < overflowBound :=
  packs_mul_iff (canonical_unpack x) (canonical_unpack y)

theorem unpack_zero : (0 : Float).toModel.unpack = .zero .positive := rfl

/-- Exactly the zeros equal zero. -/
theorem beq_zero_iff (x : Float) : (x == 0) = true ↔ ∃ sign, x.toModel.unpack = .zero sign := by
  change (x.toModel.unpack.compare (0 : Float).toModel.unpack == some .eq) = true ↔ _
  rw [unpack_zero]
  cases x.toModel.unpack with
  | notANumber => simp [UnpackedFloat.compare]
  | infinity sign => cases sign <;> simp [UnpackedFloat.compare]
  | zero sign => simp [UnpackedFloat.compare]
  | finite sign mantissa exponent positive => cases sign <;> simp [UnpackedFloat.compare]

theorem isFinite_div_iff {x y : Float} (nonzero : (y == 0) = false)
    : (x / y).isFinite
      ↔ x.isFinite ∧ (y.isInf ∨ y.isFinite ∧ |value x / value y| < overflowBound) := by
  refine packs_div_iff fun sign isZero => ?_
  exact Bool.eq_false_iff.mp nonzero ((beq_zero_iff y).mpr ⟨sign, isZero⟩)

theorem isFinite_neg_iff (x : Float) : (-x).isFinite ↔ x.isFinite :=
  (packs_iff_fits (canonical_neg (canonical_unpack x))).trans (by rw [isFinite_neg]; rfl)

/-- The remainder of a division by a number other than zero, with the sign of the divisor: the
float nearest to the exact remainder.
-/
def mod (x y : Float) : Float :=
  match x.toModel.unpack, y.toModel.unpack with
  | .finite sign mantissa exponent _, .finite sign' mantissa' exponent' _ =>
      let smaller := min exponent exponent'
      let dividend := sign.apply (decreaseExponent mantissa exponent smaller).1
      let divisor := sign'.apply (decreaseExponent mantissa' exponent' smaller).1
      let remainder := dividend.fmod divisor
      .ofModel (.pack (UnpackedFloat.normalize Format.binary64 remainder smaller sign'))
  | .zero _, .finite sign' .. => .ofModel (.pack (.zero sign'))
  | .zero _, .infinity sign' => .ofModel (.pack (.zero sign'))
  | .finite sign .., .infinity sign' => if sign == sign' then x else y
  | _, _ => .ofModel (.pack .notANumber)

theorem zero_lt_iff (x : Float)
    : 0 < x
      ↔ x.toModel.unpack = .infinity .positive
        ∨ ∃ mantissa exponent positive,
            x.toModel.unpack = .finite .positive mantissa exponent positive := by
  change decide (((0 : Float).toModel.unpack.compare x.toModel.unpack == some .lt) = true) = true
    ↔ _
  rw [decide_eq_true_iff, unpack_zero]
  cases x.toModel.unpack with
  | notANumber => simp [UnpackedFloat.compare]
  | infinity sign => cases sign <;> simp [UnpackedFloat.compare]
  | zero sign => simp [UnpackedFloat.compare]
  | finite sign mantissa exponent positive =>
      cases sign <;> simp [UnpackedFloat.compare, positive]

theorem abs_fmod_lt (a : Int) {b : Int} (nonzero : b ≠ 0) : |a.fmod b| < |b| := by
  rcases lt_or_gt_of_ne nonzero with negative | positive
  · have opposite := Int.neg_fmod_neg a b
    have lower := Int.fmod_nonneg_of_pos (-a) (b := -b) (by omega)
    have upper := Int.fmod_lt_of_pos (-a) (b := -b) (by omega)
    rw [abs_of_neg negative, abs_lt]
    omega
  · have lower := Int.fmod_nonneg_of_pos a positive
    have upper := Int.fmod_lt_of_pos a positive
    rw [abs_of_pos positive, abs_lt]
    omega

/-- The exact remainder is smaller than the divisor. -/
theorem packs_mod {sign' : Sign} {mantissa' : Nat} {exponent' smaller : Int}
    (positive : 0 < mantissa') (fits : Fits mantissa' exponent') (le : smaller ≤ exponent')
    (dividend : Int)
    : Packs (UnpackedFloat.normalize Format.binary64
        (dividend.fmod (sign'.apply (decreaseExponent mantissa' exponent' smaller).1)) smaller
        sign') := by
  rw [packs_normalize_iff]
  have scaled := aligned sign' mantissa' le
  have shifted : 0 < mantissa' <<< (exponent' - smaller).toNat := by
    rw [Nat.shiftLeft_eq]
    positivity
  have nonzero : sign'.apply ((mantissa' <<< (exponent' - smaller).toNat : Nat) : Int) ≠ 0 := by
    cases sign' <;> simp only [Sign.apply] <;> omega
  have smallerThan := abs_fmod_lt dividend nonzero
  rw [← Int.cast_lt (R := Rat), Int.cast_abs, Int.cast_abs] at smallerThan
  refine (mul_lt_mul_of_pos_right smallerThan (by positivity)).trans ?_
  rw [abs_mul_two_zpow, scaled]
  exact abs_lt_overflowBound (x := .finite sign' mantissa' exponent' positive) fits

/-- A remainder is finite when the dividend is and the divisor is finite too, or infinite on the
dividend's side of zero.
-/
theorem isFinite_mod_iff {x y : Float} (nonzero : (y == 0) = false)
    : (mod x y).isFinite
      ↔ x.isFinite ∧ (y.isFinite ∨ y.isInf ∧ ((x == 0) = true ∨ (0 < x ↔ 0 < y))) := by
  have atRight := canonical_unpack y
  have notZero (sign : Sign) : y.toModel.unpack ≠ .zero sign := fun isZero =>
    Bool.eq_false_iff.mp nonzero ((beq_zero_iff y).mpr ⟨sign, isZero⟩)
  have packed (unpacked : UnpackedFloat)
      : (Float.ofModel (.pack unpacked)).isFinite ↔ Packs unpacked := Iff.rfl
  have finite_iff (z : Float) : z.isFinite = z.toModel.unpack.isFinite := rfl
  have inf_iff (z : Float) : z.isInf = z.toModel.unpack.isInf := rfl
  have notANumber := (packed .notANumber).not.mpr not_packs_notANumber
  rw [beq_zero_iff, zero_lt_iff, zero_lt_iff, mod, finite_iff x, finite_iff y, inf_iff y]
  cases right : y.toModel.unpack with
  | zero sign' => exact absurd right (notZero sign')
  | notANumber =>
      cases x.toModel.unpack <;> exact iff_of_false notANumber (by simp [isFinite, isInf])
  | infinity sign' =>
      cases left : x.toModel.unpack with
      | notANumber => exact iff_of_false notANumber (by simp [isFinite])
      | infinity sign => exact iff_of_false notANumber (by simp [isFinite])
      | zero sign =>
          exact iff_of_true ((packed _).mpr (packs_zero sign')) ⟨rfl, .inr ⟨rfl, .inl ⟨sign, rfl⟩⟩⟩
      | finite sign mantissa exponent positive =>
          have finite : x.isFinite = true := by rw [finite_iff, left, isFinite]
          have infinite : y.isFinite = false := by rw [finite_iff, right, isFinite]
          cases sign <;> cases sign' <;> simp [finite, infinite, isFinite, isInf, positive]
  | finite sign' mantissa' exponent' positive' =>
      rw [right] at atRight
      cases left : x.toModel.unpack with
      | notANumber => exact iff_of_false notANumber (by simp [isFinite])
      | infinity sign => exact iff_of_false notANumber (by simp [isFinite])
      | zero sign => exact iff_of_true ((packed _).mpr (packs_zero sign')) ⟨rfl, .inl rfl⟩
      | finite sign mantissa exponent positive =>
          refine iff_of_true ((packed _).mpr ?_) ⟨rfl, .inl rfl⟩
          exact packs_mod positive' atRight (min_le_right exponent exponent') _

theorem isFinite_iff_not (x : Float) : x.isFinite ↔ ¬ x.isNaN ∧ ¬ x.isInf := by
  have finite_iff : x.isFinite = x.toModel.unpack.isFinite := rfl
  have nan_iff : x.isNaN = x.toModel.unpack.isNaN := rfl
  have inf_iff : x.isInf = x.toModel.unpack.isInf := rfl
  rw [finite_iff, nan_iff, inf_iff]
  cases x.toModel.unpack <;> simp [isFinite, isNaN, isInf]

/-- A float is finite exactly when its exponent bits are not all set. -/
theorem isFinite_iff_toBits (x : Float)
    : x.isFinite ↔ x.toBits.toBitVec.extractLsb' 52 11 ≠ 0x7ff#11 :=
  isFinite_unpack_iff x.toBits.toBitVec

-----------------------------------------------------------------------------------------
-- Rounding to an integer
-----------------------------------------------------------------------------------------

/-- The integer nearest to a number, the even one of two that are equally near. -/
def roundHalfEven (q : Rat) : Int :=
  let below := ⌊q⌋
  if q - below < 1 / 2 then below
  else if 1 / 2 < q - below then below + 1
  else below + below % 2

/-- The rounded number is at most half away, and even at half. -/
theorem roundHalfEven_spec (q : Rat)
    : |(roundHalfEven q : Rat) - q| ≤ 1 / 2
      ∧ (|(roundHalfEven q : Rat) - q| = 1 / 2 → roundHalfEven q % 2 = 0) := by
  have atLeast := Int.floor_le q
  have atMost := Int.lt_floor_add_one q
  unfold roundHalfEven
  generalize ⌊q⌋ = below at *
  dsimp only
  split
  · next low =>
      have close : |(below : Rat) - q| < 1 / 2 := abs_lt.mpr ⟨by linarith, by linarith⟩
      exact ⟨close.le, fun half => absurd half close.ne⟩
  · next notLow =>
      split
      · next high =>
          have close : |((below + 1 : Int) : Rat) - q| < 1 / 2 := by
            push_cast
            exact abs_lt.mpr ⟨by linarith, by linarith⟩
          exact ⟨close.le, fun half => absurd half close.ne⟩
      · next notHigh =>
          have half : q = below + 1 / 2 := by linarith
          refine ⟨?_, fun _ => by omega⟩
          rcases Int.emod_two_eq_zero_or_one below with even | odd
          · rw [even, half]
            norm_num
          · rw [odd, half]
            push_cast
            norm_num

/-- Rounding keeps the order. Witness: numbers that cross are equal and halfway between two
integers, of which only one is even.
-/
theorem roundHalfEven_mono {p q : Rat} (le : p ≤ q) : roundHalfEven p ≤ roundHalfEven q := by
  obtain ⟨closeP, evenP⟩ := roundHalfEven_spec p
  obtain ⟨closeQ, evenQ⟩ := roundHalfEven_spec q
  generalize roundHalfEven p = m at *
  generalize roundHalfEven q = n at *
  by_contra crossed
  have above : (n : Rat) + 1 ≤ m := by exact_mod_cast not_le.mp crossed
  obtain ⟨-, upper⟩ := abs_le.mp closeP
  obtain ⟨lower, -⟩ := abs_le.mp closeQ
  have next : (m : Rat) = n + 1 := by linarith
  have halfP : (m : Rat) - p = 1 / 2 := by linarith
  have halfQ : (n : Rat) - q = -(1 / 2) := by linarith
  have even := evenP (by rw [halfP]; norm_num)
  have even' := evenQ (by rw [halfQ]; norm_num)
  have successor : m = n + 1 := by exact_mod_cast next
  omega

/-- Rounding stays below an even bound exactly more than half below it: the largest integer below
the bound is odd, so halfway to the bound is rounded up to it.
-/
theorem abs_roundHalfEven_lt_iff {n : Int} (even : n % 2 = 0) {q : Rat}
    : |roundHalfEven q| < n ↔ |q| < (n : Rat) - 1 / 2 := by
  obtain ⟨close, evenAtHalf⟩ := roundHalfEven_spec q
  generalize roundHalfEven q = m at *
  have far : |q| ≤ |(m : Rat)| + |(m : Rat) - q| := by
    rw [abs_sub_comm, ← sub_le_iff_le_add']
    exact abs_sub_abs_le_abs_sub q m
  constructor
  · intro lt
    have below : |(m : Rat)| ≤ n - 1 := by exact_mod_cast Int.le_sub_one_of_lt lt
    refine lt_of_le_of_ne (by linarith) fun reached => ?_
    have half : |(m : Rat) - q| = 1 / 2 := le_antisymm close (by linarith)
    have last : |m| = n - 1 := by
      have least : (n : Rat) - 1 ≤ |(m : Rat)| := by linarith
      have same : |(m : Rat)| = n - 1 := le_antisymm below least
      exact_mod_cast same
    have evenBelow := evenAtHalf half
    rcases abs_choice m with same | same <;> omega
  · intro lt
    have near : |(m : Rat)| ≤ |q| + |(m : Rat) - q| := by
      rw [← sub_le_iff_le_add']
      exact abs_sub_abs_le_abs_sub (m : Rat) q
    have below : |(m : Rat)| < n := by linarith
    exact_mod_cast below

end FloatRange

end Library
