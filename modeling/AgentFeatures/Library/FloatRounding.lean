import Mathlib

/-! When rounding to a 64-bit float overflows: the exact number decides it. -/

namespace Library

namespace FloatRange

open Float.Model (Format UnpackedFloat totalExponent)
open Float.Model.UnpackedFloat

/-- The least magnitude that is rounded to infinity. -/
def overflowBound : Rat := (2 ^ 54 - 1) * 2 ^ (970 : Int)

-----------------------------------------------------------------------------------------
-- Shifted mantissas
-----------------------------------------------------------------------------------------

/-- The mantissa with its next bit. -/
def doubled (em : ExtendedMantissa) : Nat := 2 * em.mantissa + em.roundBit.toNat

/-- Shifting halves the mantissa with its next bit. -/
theorem doubled_shiftRightOne (em : ExtendedMantissa)
    : doubled em.shiftRightOne = doubled em / 2 := by
  have bit : ((em.mantissa % 2 != 0).toNat) = em.mantissa % 2 := by
    rcases Nat.mod_two_eq_zero_or_one em.mantissa with even | odd <;> simp [*]
  have small := Bool.toNat_le em.roundBit
  simp only [doubled, ExtendedMantissa.shiftRightOne, bit]
  omega

/-- By induction on the shift. -/
theorem doubled_shiftRight (em : ExtendedMantissa) (k : Nat)
    : doubled (em >>> k) = doubled em / 2 ^ k := by
  induction k with
  | zero => simp [HShiftRight.hShiftRight, Nat.repeat]
  | succ k ih =>
      change doubled (em >>> k).shiftRightOne = _
      rw [doubled_shiftRightOne, ih, Nat.div_div_eq_div_mul, Nat.pow_succ]

/-- Rounding reaches a power of two only from the last half unit below it. -/
theorem roundedMantissa_reaches {em : ExtendedMantissa} {p : Nat} (positive : 0 < p)
    (below : doubled em < 2 ^ (p + 1))
    : 2 ^ p ≤ em.roundedMantissa ↔ 2 ^ (p + 1) - 1 ≤ doubled em := by
  obtain ⟨q, rfl⟩ := Nat.exists_eq_succ_of_ne_zero positive.ne'
  rcases em with ⟨mantissa, roundBit, stickyBit⟩
  have power : 2 ^ (q + 1 + 1) = 2 * (2 * 2 ^ q) := by ring
  have half : 2 ^ (q + 1) = 2 * 2 ^ q := by ring
  rw [Nat.succ_eq_add_one, power] at *
  cases roundBit <;> cases stickyBit <;>
    simp only [doubled, ExtendedMantissa.roundedMantissa, ExtendedMantissa.accuracy,
      Accuracy.roundToNearestEven, Bool.toNat_true, Bool.toNat_false] at * <;> omega

/-- Rounding adds at most one. -/
theorem roundedMantissa_bounds (em : ExtendedMantissa)
    : em.mantissa ≤ em.roundedMantissa ∧ 2 * em.roundedMantissa ≤ doubled em + 2 := by
  rcases em with ⟨mantissa, roundBit, stickyBit⟩
  cases roundBit <;> cases stickyBit <;>
    simp only [doubled, ExtendedMantissa.roundedMantissa, ExtendedMantissa.accuracy,
      Accuracy.roundToNearestEven, Bool.toNat_true, Bool.toNat_false] <;> omega

-----------------------------------------------------------------------------------------
-- Packing
-----------------------------------------------------------------------------------------

theorem targetExponent_eq (e : Int)
    : Format.binary64.targetExponent e = max (e - 53) (-1074) := by
  rw [Format.targetExponent]
  rfl

/-- A float is finite unless its exponent field is full. -/
theorem isFinite_unpack_iff (bits : BitVec Format.binary64.numBits)
    : (UnpackedFloat.unpack Format.binary64 bits).isFinite
      ↔ unpackExponent bits ≠ (-1#11 : BitVec Format.binary64.exponentBits) := by
  unfold UnpackedFloat.unpack
  dsimp only
  split
  · next full =>
      refine iff_of_false ?_ (not_not_intro full)
      split <;> simp [UnpackedFloat.isFinite]
  · next below =>
      refine iff_of_true ?_ below
      split
      · split <;> rfl
      · rfl

/-- Packing the unpacked float does not overflow. -/
def Packs (unpacked : UnpackedFloat) : Prop := (Float.Model.pack unpacked).isFinite

theorem not_packs_notANumber : ¬ Packs .notANumber := by
  rw [Packs]
  decide

theorem not_packs_infinity (sign : Sign) : ¬ Packs (.infinity sign) := by
  rw [Packs]
  cases sign <;> decide

theorem packs_zero (sign : Sign) : Packs (.zero sign) := by
  rw [Packs]
  cases sign <;> decide

/-- A positive mantissa overflows with its exponent. -/
theorem packs_finite_iff {sign : Sign} {mantissa : Nat} {exponent : Int}
    {positive : 0 < mantissa}
    : Packs (.finite sign mantissa exponent positive) ↔ exponent ≤ 971 := by
  refine (isFinite_unpack_iff _).trans ?_
  change unpackExponent (UnpackedFloat.pack Format.binary64 _) ≠ _ ↔ _
  rw [UnpackedFloat.pack]
  have bias : (Format.binary64.exponentBias : Int) = 1023 := rfl
  simp only [bias]
  split
  · next large =>
      refine iff_of_false (by simp [packedInfinity]) ?_
      have : (2048 : Nat) ≤ (exponent + 1023 + 52).toNat + 1 := large
      omega
  · next small =>
      have biased : (exponent + 1023 + 52).toNat + 1 < 2048 := Nat.lt_of_not_le small
      refine iff_of_true ?_ (by omega)
      split
      · rw [unpackExponent_packComponents]
        intro full
        have number := congrArg BitVec.toNat full
        have modulus : (exponent + 1023 + 52).toNat % 2048 = 2047 := number
        omega
      · rw [unpackExponent_packComponents]
        decide

-----------------------------------------------------------------------------------------
-- Rounding
-----------------------------------------------------------------------------------------

theorem mantissa_eq (em : ExtendedMantissa) : em.mantissa = doubled em / 2 := by
  have small := Bool.toNat_le em.roundBit
  rw [doubled]
  omega

/-- The mantissa with its next bit, as the operation hands it to rounding. -/
def handed (mantissa : Nat) (accuracy : Accuracy) : Nat :=
  doubled (.ofMantissaAndAccuracy mantissa accuracy)

theorem handed_exact (mantissa : Nat) : handed mantissa .exact = 2 * mantissa := rfl

theorem handed_bounds (mantissa : Nat) (accuracy : Accuracy)
    : 2 * mantissa ≤ handed mantissa accuracy ∧ handed mantissa accuracy ≤ 2 * mantissa + 1 := by
  have keeps : (ExtendedMantissa.ofMantissaAndAccuracy mantissa accuracy).mantissa = mantissa := by
    cases accuracy with
    | exact => rfl
    | inexact order => cases order <;> rfl
  have small :=
    Bool.toNat_le (ExtendedMantissa.ofMantissaAndAccuracy mantissa accuracy).roundBit
  rw [handed, doubled, keeps]
  omega

/-- The target exponent of a mantissa. -/
theorem targetExponent_totalExponent (mantissa : Nat) (exponent : Int)
    : Format.binary64.targetExponent (totalExponent mantissa exponent)
      = max ((mantissa.log2 : Int) + exponent - 52) (-1074) := by
  rw [targetExponent_eq, totalExponent]
  omega

/-- The shift of a rounded mantissa back below `2 ^ 53`. -/
theorem second_shift {rounded : Nat} {target : Int} (least : -1074 ≤ target)
    (small : rounded ≤ 2 ^ 53)
    : (max ((rounded.log2 : Int) + target - 52) (-1074) - target).toNat
      = if rounded < 2 ^ 53 then 0 else 1 := by
  split
  · next below =>
      have log : rounded.log2 ≤ 52 := by
        rcases Nat.eq_zero_or_pos rounded with rfl | positive
        · simp
        · exact Nat.le_of_lt_succ ((Nat.log2_lt positive.ne').mpr below)
      omega
  · next above =>
      have log : rounded.log2 = 53 := by
        rw [Nat.le_antisymm small (Nat.le_of_not_lt above), Nat.log2_two_pow]
      omega

theorem shiftToTargetExponent_eq (mantissa : Nat) (exponent : Int) (accuracy : Accuracy)
    : shiftToTargetExponent Format.binary64 mantissa exponent accuracy
      = (ExtendedMantissa.ofMantissaAndAccuracy mantissa accuracy
          >>> (max ((mantissa.log2 : Int) + exponent - 52) (-1074) - exponent).toNat,
        exponent + (max ((mantissa.log2 : Int) + exponent - 52) (-1074) - exponent).toNat) := by
  rw [shiftToTargetExponent, targetExponent_totalExponent, shiftToExponent]

/-- What is rounded and shifted overflows with its exponent, unless nothing is left of it. -/
theorem packs_roundWithAccuracy_iff_final {sign : Sign} {mantissa : Nat} {exponent : Int}
    {accuracy : Accuracy} {first second : ExtendedMantissa × Int}
    (isFirst : shiftToTargetExponent Format.binary64 mantissa exponent accuracy = first)
    (isSecond
      : shiftToTargetExponent Format.binary64 first.1.roundedMantissa first.2 .exact = second)
    : Packs (roundWithAccuracy Format.binary64 sign mantissa exponent accuracy)
      ↔ second.1.mantissa = 0 ∨ second.2 ≤ 971 := by
  rw [roundWithAccuracy, isFirst]
  dsimp only
  rw [isSecond]
  split
  · next none => exact iff_of_true (packs_zero sign) (.inl none)
  · next some => rw [packs_finite_iff, or_iff_right some]

/-- A mantissa that is rounded to `2 ^ 53` is halved, at the next exponent. -/
theorem packs_roundWithAccuracy_iff_rounded {sign : Sign} {mantissa : Nat} {exponent : Int}
    {accuracy : Accuracy} {target : Int} {em : ExtendedMantissa}
    (isTarget : target = max ((mantissa.log2 : Int) + exponent - 52) (-1074))
    (fits : exponent ≤ target)
    (shifted
      : em = ExtendedMantissa.ofMantissaAndAccuracy mantissa accuracy
          >>> (target - exponent).toNat)
    (small : em.roundedMantissa ≤ 2 ^ 53) (large : 971 ≤ target → 2 ≤ em.roundedMantissa)
    : Packs (roundWithAccuracy Format.binary64 sign mantissa exponent accuracy)
      ↔ target ≤ 970 ∨ target = 971 ∧ em.roundedMantissa < 2 ^ 53 := by
  have atTarget : exponent + (target - exponent).toNat = target := by omega
  have first := shiftToTargetExponent_eq mantissa exponent accuracy
  rw [← isTarget, ← shifted, atTarget] at first
  have second := shiftToTargetExponent_eq em.roundedMantissa target .exact
  rw [second_shift (by omega) small] at second
  rw [packs_roundWithAccuracy_iff_final first second]
  have left (k : Nat)
      : (ExtendedMantissa.ofMantissaAndAccuracy em.roundedMantissa .exact >>> k).mantissa
        = 2 * em.roundedMantissa / 2 ^ k / 2 := by
    rw [mantissa_eq, doubled_shiftRight]
    rfl
  dsimp only
  rw [left]
  split <;> omega

theorem lt_mul_two_zpow {n p : Nat} {j q : Int} (below : n < 2 ^ p) (sum : p + j ≤ q)
    : (n : Rat) * 2 ^ j < 2 ^ q := by
  have power : (n : Rat) < 2 ^ p := by exact_mod_cast below
  have scaled : (n : Rat) * 2 ^ j < 2 ^ (p + j) := by
    rw [zpow_add₀ (by norm_num), zpow_natCast]
    exact mul_lt_mul_of_pos_right power (by positivity)
  exact scaled.trans_le (zpow_le_zpow_right₀ (by norm_num) sum)

theorem two_zpow_le_mul {n p : Nat} {j q : Int} (above : 2 ^ p ≤ n) (sum : q ≤ p + j)
    : (2 : Rat) ^ q ≤ n * 2 ^ j := by
  have power : (2 : Rat) ^ p ≤ n := by exact_mod_cast above
  have scaled : (2 : Rat) ^ (p + j) ≤ n * 2 ^ j := by
    rw [zpow_add₀ (by norm_num), zpow_natCast]
    exact mul_le_mul_of_nonneg_right power (by positivity)
  exact (zpow_le_zpow_right₀ (by norm_num) sum).trans scaled

theorem two_zpow_le_overflowBound : (2 : Rat) ^ (1023 : Int) ≤ overflowBound := by
  have split : (2 : Rat) ^ (1023 : Int) = 2 ^ 53 * 2 ^ (970 : Int) := by
    rw [← zpow_natCast, ← zpow_add₀ (by norm_num)]
    rfl
  rw [split, overflowBound]
  exact mul_le_mul_of_nonneg_right (by norm_num) (by positivity)

theorem overflowBound_le_two_zpow : overflowBound ≤ (2 : Rat) ^ (1024 : Int) := by
  have split : (2 : Rat) ^ (1024 : Int) = 2 ^ 54 * 2 ^ (970 : Int) := by
    rw [← zpow_natCast, ← zpow_add₀ (by norm_num)]
    rfl
  rw [split, overflowBound]
  exact mul_le_mul_of_nonneg_right (by norm_num) (by positivity)

/-- The bound, in units of a small power of two. -/
theorem overflowBound_le_mul_iff {q : Rat} {k : Nat} {j : Int} (unit : k + j = 970)
    : overflowBound ≤ q * 2 ^ j ↔ (((2 ^ 54 - 1) * 2 ^ k : Nat) : Rat) ≤ q := by
  have split : overflowBound = (((2 ^ 54 - 1) * 2 ^ k : Nat) : Rat) * 2 ^ j := by
    rw [overflowBound, ← unit, zpow_add₀ (by norm_num), zpow_natCast]
    push_cast
    ring
  rw [split, mul_le_mul_iff_left₀ (by positivity)]

theorem handed_lt (mantissa : Nat) (accuracy : Accuracy)
    : handed mantissa accuracy < 2 ^ (mantissa.log2 + 2) := by
  have below : mantissa < 2 ^ (mantissa.log2 + 1) := Nat.lt_log2_self
  have atMost := (handed_bounds mantissa accuracy).2
  have double : 2 ^ (mantissa.log2 + 2) = 2 * 2 ^ (mantissa.log2 + 1) := by ring
  omega

theorem le_handed {mantissa : Nat} (nonzero : mantissa ≠ 0) (accuracy : Accuracy)
    : 2 ^ (mantissa.log2 + 1) ≤ handed mantissa accuracy := by
  have above := Nat.log2_self_le nonzero
  have atLeast := (handed_bounds mantissa accuracy).1
  have double : 2 ^ (mantissa.log2 + 1) = 2 * 2 ^ mantissa.log2 := by ring
  omega

/-- Rounding overflows exactly when what is handed to it reaches the bound. Witness: below the
exponent 971 nothing overflows, above it everything does, and there the mantissa does that is
rounded to `2 ^ 53`.
-/
theorem packs_roundWithAccuracy_iff {sign : Sign} {mantissa : Nat} {exponent : Int}
    {accuracy : Accuracy}
    (fits : exponent ≤ max ((mantissa.log2 : Int) + exponent - 52) (-1074))
    : Packs (roundWithAccuracy Format.binary64 sign mantissa exponent accuracy)
      ↔ (handed mantissa accuracy : Rat) * 2 ^ (exponent - 1) < overflowBound := by
  generalize isTarget : max ((mantissa.log2 : Int) + exponent - 52) (-1074) = target at fits
  generalize isShift : (target - exponent).toNat = k
  generalize shifted : ExtendedMantissa.ofMantissaAndAccuracy mantissa accuracy >>> k = em
  have halved : doubled em = handed mantissa accuracy / 2 ^ k := by
    rw [← shifted, doubled_shiftRight, handed]
  have top := handed_lt mantissa accuracy
  have below : doubled em < 2 ^ 54 := by
    rw [halved, Nat.div_lt_iff_lt_mul (by positivity), ← Nat.pow_add]
    exact top.trans_le (Nat.pow_le_pow_right (by decide) (by omega))
  have bottom (high : 971 ≤ target)
      : mantissa.log2 = 52 + k ∧ 2 ^ (mantissa.log2 + 1) ≤ handed mantissa accuracy := by
    have log : mantissa.log2 = 52 + k := by omega
    refine ⟨log, le_handed ?_ accuracy⟩
    intro zero
    rw [zero, Nat.log2_zero] at log
    omega
  obtain ⟨kept, carried⟩ := roundedMantissa_bounds em
  have large (high : 971 ≤ target) : 2 ≤ em.roundedMantissa := by
    obtain ⟨log, above⟩ := bottom high
    have wide : 2 ^ 53 ≤ doubled em := by
      rw [halved, Nat.le_div_iff_mul_le (by positivity), ← Nat.pow_add]
      exact le_trans (Nat.pow_le_pow_right (by decide) (by omega)) above
    rw [mantissa_eq] at kept
    omega
  have shifted' := shifted.symm
  rw [← isShift] at shifted'
  rw [packs_roundWithAccuracy_iff_rounded isTarget.symm fits shifted' (by omega) large]
  rcases lt_trichotomy target 971 with low | at971 | high
  · refine iff_of_true (.inl (by omega)) ?_
    exact (lt_mul_two_zpow top (q := 1023) (by push_cast; omega)).trans_le
      two_zpow_le_overflowBound
  · have reaches
        : 2 ^ 53 ≤ em.roundedMantissa ↔ 2 ^ (53 + 1) - 1 ≤ doubled em :=
      roundedMantissa_reaches (by decide) below
    rw [halved, Nat.le_div_iff_mul_le (by positivity)] at reaches
    have unit : (k : Int) + (exponent - 1) = 970 := by omega
    have overflows := overflowBound_le_mul_iff (q := handed mantissa accuracy) unit
    rw [Nat.cast_le, ← reaches] at overflows
    rw [← not_iff_not, not_lt, overflows]
    omega
  · refine iff_of_false (by omega) (not_lt.mpr ?_)
    obtain ⟨log, above⟩ := bottom high.le
    exact overflowBound_le_two_zpow.trans (two_zpow_le_mul above (by push_cast; omega))

theorem log2_shiftLeft {n : Nat} (positive : 0 < n) (k : Nat)
    : (n <<< k).log2 = n.log2 + k := by
  have shifted : n <<< k = n * 2 ^ k := Nat.shiftLeft_eq n k
  refine (Nat.log2_eq_iff (by rw [shifted]; positivity)).mpr ⟨?_, ?_⟩
  · rw [shifted, Nat.pow_add]
    exact Nat.mul_le_mul_right _ (Nat.log2_self_le positive.ne')
  · rw [shifted, Nat.add_right_comm, Nat.pow_add]
    exact Nat.mul_lt_mul_of_pos_right Nat.lt_log2_self (by positivity)

/-- A smaller exponent for the same number. -/
theorem shiftLeft_mul_two_zpow (n k : Nat) (e : Int)
    : ((n <<< k : Nat) : Rat) * 2 ^ (e - k) = n * 2 ^ e := by
  have power : (2 : Rat) ^ e = 2 ^ k * 2 ^ (e - k) := by
    rw [← zpow_natCast, ← zpow_add₀ (by norm_num), add_sub_cancel]
  rw [Nat.shiftLeft_eq, power]
  push_cast
  ring

/-- An exact mantissa overflows with the number. -/
theorem packs_roundWithAccuracy_exact_iff {sign : Sign} {mantissa : Nat} {exponent : Int}
    (fits : exponent ≤ max ((mantissa.log2 : Int) + exponent - 52) (-1074))
    : Packs (roundWithAccuracy Format.binary64 sign mantissa exponent .exact)
      ↔ (mantissa : Rat) * 2 ^ exponent < overflowBound := by
  have same : (handed mantissa .exact : Rat) * 2 ^ (exponent - 1)
      = mantissa * 2 ^ exponent := by
    rw [handed_exact, zpow_sub_one₀ (by norm_num)]
    push_cast
    ring
  rw [packs_roundWithAccuracy_iff fits, same]

theorem packs_round_iff {sign : Sign} {mantissa : Nat} (positive : 0 < mantissa)
    {exponent : Int}
    : Packs (UnpackedFloat.round Format.binary64 sign mantissa exponent)
      ↔ (mantissa : Rat) * 2 ^ exponent < overflowBound := by
  rw [UnpackedFloat.round, targetExponent_totalExponent, decreaseExponent]
  dsimp only
  have log := log2_shiftLeft positive
    (exponent - max ((mantissa.log2 : Int) + exponent - 52) (-1074)).toNat
  rw [packs_roundWithAccuracy_exact_iff (by rw [log]; omega), shiftLeft_mul_two_zpow]

theorem packs_normalize_iff {mantissa : Int} {exponent : Int} {zeroSign : Sign}
    : Packs (UnpackedFloat.normalize Format.binary64 mantissa exponent zeroSign)
      ↔ |(mantissa : Rat)| * 2 ^ exponent < overflowBound := by
  unfold UnpackedFloat.normalize
  have magnitude : |(mantissa : Rat)| = (mantissa.natAbs : Rat) := by
    rw [Nat.cast_natAbs, Int.cast_abs]
  rcases lt_trichotomy mantissa 0 with negative | zero | positive
  · rw [compare_lt_iff_lt.mpr negative]
    have same : (-mantissa).toNat = mantissa.natAbs := by omega
    rw [packs_round_iff (by omega), same, magnitude]
  · subst zero
    refine iff_of_true (packs_zero zeroSign) ?_
    norm_num [overflowBound]
  · rw [compare_gt_iff_gt.mpr positive]
    have same : mantissa.toNat = mantissa.natAbs := by omega
    rw [packs_round_iff (by omega), same, magnitude]

end FloatRange

end Library
