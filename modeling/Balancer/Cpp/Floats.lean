import Mathlib.Data.Int.Log
import Mathlib.Tactic

/-!
# `float` and `double`

The finite values of a floating-point type are rationals. An operation is the exact one, followed by
the rounding to a value of the type: the nearest one, and of two nearest ones the even one.

* `Format.round`: the rounding, without a bound on the exponent.
* `Format.nearest`: the result of an operation, none for an infinity.
* `le_round_intCast_iff`: the least rational that is rounded to an integer or above it.
* `abs_round_sub_le`: the relative error of a rounding.
-/

namespace Cpp

/-! ## Rounding to an integer -/

/-- The nearest integer, the even one of two. -/
def roundEven (x : ℚ) : Int :=
  if x - ⌊x⌋ < 1 / 2 then ⌊x⌋
  else if 1 / 2 < x - ⌊x⌋ then ⌊x⌋ + 1
  else if ⌊x⌋ % 2 = 0 then ⌊x⌋ else ⌊x⌋ + 1

theorem abs_roundEven_sub_le (x : ℚ) : |(roundEven x : ℚ) - x| ≤ 1 / 2 := by
  have hFloor := Int.floor_le x
  have hLt := Int.lt_floor_add_one x
  unfold roundEven
  rw [abs_le]
  split_ifs
  all_goals
    push_cast
    constructor <;> linarith

/-- In the middle between two integers it is the even one. -/
theorem roundEven_even {x : ℚ} (h : |(roundEven x : ℚ) - x| = 1 / 2) : roundEven x % 2 = 0 := by
  have hFloor := Int.floor_le x
  have hLt := Int.lt_floor_add_one x
  unfold roundEven at h ⊢
  split_ifs at h ⊢ with hBelow hAbove hEven
  · rw [abs_of_nonpos (by linarith)] at h
    linarith
  · push_cast at h
    rw [abs_of_nonneg (by linarith)] at h
    linarith
  · exact hEven
  · omega

theorem roundEven_unique {n : Int} {x : ℚ} (h : |(n : ℚ) - x| ≤ 1 / 2)
    (hTie : |(n : ℚ) - x| = 1 / 2 → n % 2 = 0) : roundEven x = n := by
  have hNear := abs_roundEven_sub_le x
  by_contra hNot
  have hDistance : (1 : ℚ) ≤ |(roundEven x : ℚ) - n| := by
    have hInt : 1 ≤ |roundEven x - n| := Int.one_le_abs (sub_ne_zero.mpr hNot)
    exact_mod_cast hInt
  have hTriangle := abs_sub_le (roundEven x : ℚ) x n
  rw [abs_sub_comm x] at hTriangle
  -- both are as far from `x` as possible, so both are even
  have hEven := roundEven_even (x := x) (by linarith)
  have hEven' := hTie (by linarith)
  have hLe : |roundEven x - n| ≤ 1 := by
    have hCast : |(roundEven x : ℚ) - n| ≤ 1 := by linarith
    exact_mod_cast hCast
  have hBounds := abs_le.mp hLe
  omega

theorem roundEven_neg (x : ℚ) : roundEven (-x) = -roundEven x := by
  have hSame : |((-roundEven x : Int) : ℚ) - -x| = |(roundEven x : ℚ) - x| := by
    rw [← abs_neg]
    push_cast
    ring_nf
  apply roundEven_unique
  · rw [hSame]
    exact abs_roundEven_sub_le x
  · intro hTie
    have hEven := roundEven_even (hSame.symm.trans hTie)
    omega

/-- Half of one below an even integer is the first number that is rounded to it. -/
theorem le_roundEven_iff {n : Int} (hEven : n % 2 = 0) {x : ℚ} :
    n ≤ roundEven x ↔ (n : ℚ) - 1 / 2 ≤ x := by
  have hNear := abs_le.mp (abs_roundEven_sub_le x)
  constructor
  · intro h
    have hLe : (n : ℚ) ≤ roundEven x := Int.cast_le.mpr h
    linarith
  · intro h
    by_contra hNot
    have hSucc : (roundEven x : ℚ) + 1 ≤ n := by
      have hInt : roundEven x + 1 ≤ n := by omega
      exact_mod_cast hInt
    have hTie : |(roundEven x : ℚ) - x| = 1 / 2 := by
      rw [abs_of_nonpos (by linarith)]
      linarith
    have hNext : (n : ℚ) = (roundEven x + 1 : Int) := by
      push_cast
      linarith
    have hOther := roundEven_even hTie
    have hNextInt : n = roundEven x + 1 := Int.cast_injective hNext
    omega

theorem le_roundEven {n : Int} {x : ℚ} (h : (n : ℚ) ≤ x) : n ≤ roundEven x := by
  have hNear := abs_le.mp (abs_roundEven_sub_le x)
  have hLt : (n : ℚ) < (roundEven x + 1 : Int) := by
    push_cast
    linarith
  exact Int.lt_add_one_iff.mp (Int.cast_lt.mp hLt)

theorem roundEven_le {n : Int} {x : ℚ} (h : x ≤ (n : ℚ)) : roundEven x ≤ n := by
  have hNeg : ((-n : Int) : ℚ) ≤ -x := by
    push_cast
    exact neg_le_neg h
  have hLe := le_roundEven hNeg
  rw [roundEven_neg] at hLe
  omega

/-! ## Formats -/

/-- A binary format: the bits of a significand, the exponent of the least positive value, and the
exponent of the bound below which the finite values lie. -/
structure Format where
  precision : Nat
  minExp : Int
  maxExp : Int
  precision_pos : 0 < precision

/-- `float`. -/
def binary32 : Format := ⟨24, -149, 128, by decide⟩

/-- `double`. -/
def binary64 : Format := ⟨53, -1074, 1024, by decide⟩

namespace Format

variable {fmt : Format} {x : ℚ}

/-- The exponent of the last place of a value that is as large as `x`. -/
def exponent (fmt : Format) (x : ℚ) : Int := max fmt.minExp (Int.log 2 |x| + 1 - fmt.precision)

/-- The nearest value of the format, if its exponents had no bound. -/
def round (fmt : Format) (x : ℚ) : ℚ := roundEven (x / 2 ^ fmt.exponent x) * 2 ^ fmt.exponent x

/-- The result of an operation whose exact result is `x`, none for an infinity. -/
def nearest (fmt : Format) (x : ℚ) : Option ℚ :=
  if |fmt.round x| < 2 ^ fmt.maxExp then some (fmt.round x) else none

theorem nearest_eq_some {y : ℚ} :
    fmt.nearest x = some y ↔ fmt.round x = y ∧ |y| < 2 ^ fmt.maxExp := by
  unfold nearest
  split
  · rename_i hFinite
    rw [Option.some.injEq]
    constructor
    · rintro rfl
      exact ⟨rfl, hFinite⟩
    · exact fun h => h.1
  · rename_i hNot
    constructor
    · intro h
      cases h
    · rintro ⟨rfl, hFinite⟩
      exact absurd hFinite hNot

theorem round_neg (fmt : Format) (x : ℚ) : fmt.round (-x) = -fmt.round x := by
  have hExponent : fmt.exponent (-x) = fmt.exponent x := by rw [exponent, exponent, abs_neg]
  rw [round, round, hExponent, neg_div, roundEven_neg]
  push_cast
  ring

/-! ## Rounding and powers of two -/

/-- A power of two is a multiple of a lower one. -/
theorem two_zpow_eq_mul {e k : Int} (h : e ≤ k) :
    (2 : ℚ) ^ k = ((2 ^ (k - e).toNat : Int) : ℚ) * 2 ^ e := by
  have hSum : k = ((k - e).toNat : Int) + e := by omega
  calc (2 : ℚ) ^ k = 2 ^ (((k - e).toNat : Int) + e) := by rw [← hSum]
    _ = ((2 ^ (k - e).toNat : Int) : ℚ) * 2 ^ e := by
        rw [zpow_add₀ two_ne_zero, zpow_natCast]
        push_cast
        rfl

theorem two_zpow_log_le (h : 0 < x) : (2 : ℚ) ^ Int.log 2 x ≤ x := by
  exact_mod_cast Int.zpow_log_le_self Nat.one_lt_two h

theorem log_lt {k : Int} (h : 0 < x) : Int.log 2 x < k ↔ x < (2 : ℚ) ^ k := by
  have hIff := Int.lt_zpow_iff_log_lt (b := 2) (x := k) Nat.one_lt_two h
  exact_mod_cast hIff.symm

theorem le_log {k : Int} (h : 0 < x) : k ≤ Int.log 2 x ↔ (2 : ℚ) ^ k ≤ x := by
  have hIff := Int.zpow_le_iff_le_log (b := 2) (x := k) Nat.one_lt_two h
  exact_mod_cast hIff.symm

theorem round_nonneg (h : 0 ≤ x) : 0 ≤ fmt.round x := by
  have hScaled : ((0 : Int) : ℚ) ≤ x / 2 ^ fmt.exponent x := by
    rw [Int.cast_zero]
    positivity
  have hNonneg : (0 : ℚ) ≤ roundEven (x / 2 ^ fmt.exponent x) :=
    Int.cast_nonneg (le_roundEven hScaled)
  unfold round
  positivity

theorem two_zpow_le_round {k : Int} (hMin : fmt.minExp ≤ k) (h : (2 : ℚ) ^ k ≤ x) :
    (2 : ℚ) ^ k ≤ fmt.round x := by
  have hPos : 0 < x := lt_of_lt_of_le (by positivity) h
  have hPlace : (0 : ℚ) < 2 ^ fmt.exponent x := by positivity
  rcases le_or_gt (fmt.exponent x) k with hLe | hGt
  · rw [two_zpow_eq_mul hLe] at h ⊢
    have hScaled := le_roundEven ((le_div_iff₀ hPlace).mpr h)
    exact mul_le_mul_of_nonneg_right (Int.cast_le.mpr hScaled) hPlace.le
  · -- the last place itself is not below the power
    have hLog : fmt.exponent x ≤ Int.log 2 x := by
      have hPrecision := fmt.precision_pos
      have hExponent : fmt.exponent x = max fmt.minExp (Int.log 2 x + 1 - fmt.precision) := by
        rw [exponent, abs_of_pos hPos]
      omega
    have hOne : ((1 : Int) : ℚ) ≤ x / 2 ^ fmt.exponent x := by
      rw [le_div_iff₀ hPlace, Int.cast_one, one_mul]
      exact (le_log hPos).mp hLog
    have hScaled : (1 : ℚ) ≤ roundEven (x / 2 ^ fmt.exponent x) := by
      exact_mod_cast le_roundEven hOne
    calc (2 : ℚ) ^ k ≤ 2 ^ fmt.exponent x := zpow_le_zpow_right₀ one_le_two hGt.le
      _ ≤ fmt.round x := le_mul_of_one_le_left hPlace.le hScaled

theorem round_le_two_zpow {k : Int} (hMin : fmt.minExp ≤ k) (h : x ≤ (2 : ℚ) ^ k) :
    fmt.round x ≤ (2 : ℚ) ^ k := by
  have hPlace : (0 : ℚ) < 2 ^ fmt.exponent x := by positivity
  rcases le_or_gt x 0 with hNonpos | hPos
  · have hNonneg : 0 ≤ fmt.round (-x) := round_nonneg (neg_nonneg.mpr hNonpos)
    rw [round_neg] at hNonneg
    exact (neg_nonneg.mp hNonneg).trans (by positivity)
  · have hLe : fmt.exponent x ≤ k := by
      have hPrecision := fmt.precision_pos
      have hLog : Int.log 2 x ≤ k := by
        have hLt : (2 : ℚ) ^ k < 2 ^ (k + 1) := zpow_lt_zpow_right₀ one_lt_two (lt_add_one k)
        exact Int.lt_add_one_iff.mp ((log_lt hPos).mpr (lt_of_le_of_lt h hLt))
      rw [exponent, abs_of_pos hPos]
      omega
    rw [two_zpow_eq_mul hLe] at h ⊢
    have hScaled := roundEven_le ((div_le_iff₀ hPlace).mpr h)
    exact mul_le_mul_of_nonneg_right (Int.cast_le.mpr hScaled) hPlace.le

/-- A result below a power of two that the format has is finite. -/
theorem nearest_of_abs_le {k : Int} (hMin : fmt.minExp ≤ k) (hMax : k < fmt.maxExp)
    (h : |x| ≤ (2 : ℚ) ^ k) : fmt.nearest x = some (fmt.round x) := by
  obtain ⟨hLow, hHigh⟩ := abs_le.mp h
  have hNeg := round_le_two_zpow hMin (neg_le.mp hLow)
  rw [round_neg] at hNeg
  refine nearest_eq_some.mpr ⟨rfl, ?_⟩
  refine lt_of_le_of_lt (abs_le.mpr ⟨neg_le.mp hNeg, round_le_two_zpow hMin hHigh⟩) ?_
  exact zpow_lt_zpow_right₀ one_lt_two hMax

/-- **The relative error of a rounding.** -/
theorem abs_round_sub_le (h : (2 : ℚ) ^ (fmt.minExp + fmt.precision) ≤ |x|) :
    |fmt.round x - x| ≤ |x| * 2 ^ (-fmt.precision : Int) := by
  have hPos : 0 < |x| := lt_of_lt_of_le (by positivity) h
  have hPlace : (0 : ℚ) < 2 ^ fmt.exponent x := by positivity
  have hExponent : fmt.exponent x = Int.log 2 |x| + 1 - fmt.precision := by
    have hLog := (le_log hPos).mpr h
    rw [exponent]
    omega
  have hSplit : fmt.round x - x =
      (roundEven (x / 2 ^ fmt.exponent x) - x / 2 ^ fmt.exponent x) * 2 ^ fmt.exponent x := by
    rw [sub_mul, div_mul_cancel₀ _ hPlace.ne', round]
  have hHalf : (1 : ℚ) / 2 * 2 ^ fmt.exponent x =
      2 ^ Int.log 2 |x| * 2 ^ (-fmt.precision : Int) := by
    rw [hExponent, ← zpow_add₀ two_ne_zero, add_sub_right_comm, ← sub_eq_add_neg,
      zpow_add_one₀ two_ne_zero]
    ring
  rw [hSplit, abs_mul, abs_of_pos hPlace]
  calc |(roundEven (x / 2 ^ fmt.exponent x) : ℚ) - x / 2 ^ fmt.exponent x| * 2 ^ fmt.exponent x
      ≤ 1 / 2 * 2 ^ fmt.exponent x :=
        mul_le_mul_of_nonneg_right (abs_roundEven_sub_le _) hPlace.le
    _ = 2 ^ Int.log 2 |x| * 2 ^ (-fmt.precision : Int) := hHalf
    _ ≤ |x| * 2 ^ (-fmt.precision : Int) :=
        mul_le_mul_of_nonneg_right (two_zpow_log_le hPos) (by positivity)

/-! ## Rounding up to an integer -/

/-- Half of the distance from an integer to the value below it. -/
def slack (fmt : Format) (m : Int) : ℚ := 2 ^ ((Nat.clog 2 m.toNat : Int) - fmt.precision) / 2

/-- An integer lies above one power of two and not above the next one. -/
theorem two_zpow_clog {m : Int} (hm : 1 ≤ m) :
    (2 : ℚ) ^ ((Nat.clog 2 m.toNat : Int) - 1) < m ∧ (m : ℚ) ≤ 2 ^ (Nat.clog 2 m.toNat : Int) := by
  obtain ⟨n, rfl⟩ := Int.eq_ofNat_of_zero_le (le_trans zero_le_one hm)
  have hn : 1 ≤ n := by omega
  rw [Int.toNat_natCast]
  constructor
  · rcases Nat.eq_or_lt_of_le hn with rfl | hLt
    · norm_num
    · have hPos := Nat.clog_pos Nat.one_lt_two hLt
      have hPow := Nat.pow_pred_clog_lt_self Nat.one_lt_two hLt
      have hExponent : (Nat.clog 2 n : Int) - 1 = ((Nat.clog 2 n).pred : Int) := by
        rw [Nat.pred_eq_sub_one]
        omega
      rw [hExponent, zpow_natCast]
      exact_mod_cast hPow
  · rw [zpow_natCast]
    exact_mod_cast Nat.le_pow_clog Nat.one_lt_two n

theorem slack_nonneg (m : Int) : 0 ≤ fmt.slack m := by
  unfold slack
  positivity

theorem slack_le {m : Int} (hm : 1 ≤ m) : fmt.slack m ≤ m * 2 ^ (-fmt.precision : Int) := by
  have hSplit : fmt.slack m =
      2 ^ ((Nat.clog 2 m.toNat : Int) - 1) * 2 ^ (-fmt.precision : Int) := by
    rw [slack, sub_eq_add_neg, zpow_add₀ two_ne_zero, zpow_sub_one₀ two_ne_zero]
    ring
  rw [hSplit]
  exact mul_le_mul_of_nonneg_right (two_zpow_clog hm).1.le (by positivity)

/-- **Rounding up to an integer.** The least number that is rounded to an integer or above it. -/
theorem le_round_intCast_iff {m : Int} (hm : 1 ≤ m)
    (hPrecision : Nat.clog 2 m.toNat < fmt.precision)
    (hMin : fmt.minExp ≤ (Nat.clog 2 m.toNat : Int) - fmt.precision) :
    (m : ℚ) ≤ fmt.round x ↔ m - fmt.slack m ≤ x := by
  obtain ⟨hAbove, hBelow⟩ := two_zpow_clog hm
  unfold slack
  generalize Nat.clog 2 m.toNat = c at hPrecision hMin hAbove hBelow ⊢
  have hPlace : (0 : ℚ) < 2 ^ ((c : Int) - fmt.precision) := by positivity
  -- in the last places of its binade the integer is an even number `n`
  obtain ⟨n, hEven, hn⟩ : ∃ n : Int, n % 2 = 0 ∧ (m : ℚ) = n * 2 ^ ((c : Int) - fmt.precision) := by
    have hOne := two_zpow_eq_mul (show (c : Int) - fmt.precision ≤ 0 by omega)
    rw [zpow_zero] at hOne
    refine ⟨m * 2 ^ (0 - ((c : Int) - fmt.precision)).toNat, ?_, ?_⟩
    · obtain ⟨d, hd⟩ : ∃ d, (0 - ((c : Int) - fmt.precision)).toNat = d + 1 :=
        ⟨(0 - ((c : Int) - fmt.precision)).toNat - 1, by omega⟩
      rw [hd, pow_succ, ← mul_assoc]
      omega
    · rw [Int.cast_mul, mul_assoc, ← hOne, mul_one]
  have hHalf : (n : ℚ) * 2 ^ ((c : Int) - fmt.precision) - 2 ^ ((c : Int) - fmt.precision) / 2 =
      (n - 1 / 2) * 2 ^ ((c : Int) - fmt.precision) := by ring
  have hPos := fmt.precision_pos
  have hFirst := two_zpow_eq_mul (show (c : Int) - fmt.precision ≤ (c : Int) - 1 by omega)
  rcases lt_or_ge x (2 ^ ((c : Int) - 1)) with hLow | hNotLow
  · -- below the binade
    have hRound : fmt.round x ≤ 2 ^ ((c : Int) - 1) := round_le_two_zpow (by omega) hLow.le
    constructor
    · intro h
      linarith
    · intro h
      rw [hFirst, hn] at hAbove
      have hSteps : (2 ^ ((c : Int) - 1 - ((c : Int) - fmt.precision)).toNat : Int) + 1 ≤ n :=
        Int.cast_lt.mp (lt_of_mul_lt_mul_right hAbove hPlace.le)
      have hNext : (2 : ℚ) ^ ((c : Int) - 1) + 2 ^ ((c : Int) - fmt.precision) ≤ m := by
        rw [hFirst, hn, ← add_one_mul]
        exact mul_le_mul_of_nonneg_right (by exact_mod_cast hSteps) hPlace.le
      linarith
  · rcases lt_or_ge x (2 ^ (c : Int)) with hInside | hHigh
    · have hx : 0 < x := lt_of_lt_of_le (by positivity) hNotLow
      have hExponent : fmt.exponent x = (c : Int) - fmt.precision := by
        have hLog := (le_log hx).mpr hNotLow
        have hLog' := (log_lt hx).mpr hInside
        rw [exponent, abs_of_pos hx]
        omega
      rw [round, hExponent, hn, hHalf, mul_le_mul_iff_of_pos_right hPlace, Int.cast_le,
        le_roundEven_iff hEven, le_div_iff₀ hPlace]
    · have hRound : 2 ^ (c : Int) ≤ fmt.round x := two_zpow_le_round (by omega) hHigh
      constructor
      · intro _
        linarith
      · intro _
        linarith

end Format

/-! ## Bit patterns -/

/-- The value of a `float`, none for an infinity or a NaN. -/
def floatValue (bits : BitVec 32) : Option ℚ :=
  let exponent : Nat := bits.toNat / 2 ^ 23 % 256
  let fraction : Nat := bits.toNat % 2 ^ 23
  let magnitude : ℚ :=
    if exponent = 0 then (fraction : ℚ) * 2 ^ (-149 : Int)
    else (2 ^ 23 + (fraction : ℚ)) * 2 ^ ((exponent : Int) - 150)
  if exponent = 255 then none
  else some (if bits.toNat / 2 ^ 31 = 1 then -magnitude else magnitude)

/-- `x >= 0`: a value that is not negative, or the positive infinity. -/
def NotNegative (bits : BitVec 32) : Prop :=
  (∃ x ∈ floatValue bits, 0 ≤ x) ∨ bits = 0x7F800000#32

instance (bits : BitVec 32) : Decidable (NotNegative bits) := inferInstanceAs (Decidable (_ ∨ _))

theorem NotNegative.nonneg {bits : BitVec 32} {x : ℚ} (h : NotNegative bits)
    (hValue : floatValue bits = some x) : 0 ≤ x := by
  rcases h with ⟨y, hy, hNonneg⟩ | rfl
  · obtain rfl := Option.some.inj (hy.symm.trans hValue)
    exact hNonneg
  · cases hValue

example : floatValue 0xBF800000#32 = some (-1) ∧ floatValue 0x42F60000#32 = some 123 := by
  decide +kernel

end Cpp
