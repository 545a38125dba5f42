import Mathlib.Analysis.Complex.Exponential
import Mathlib.Analysis.Complex.Norm
import Mathlib.Analysis.Complex.Trigonometric
import Mathlib.Tactic

/-!
# The sine of whole numbers

`exp (n * I)` is the `n`-th power of `exp I`. A fraction close to `exp I` is multiplied with itself in
whole numbers, and the error grows by no more than the first one at each step.
-/

namespace Library.Sine

theorem norm_pow_sub_pow_le {z w : ℂ} (hz : ‖z‖ ≤ 1) (hw : ‖w‖ ≤ 1) (n : ℕ) :
    ‖z ^ n - w ^ n‖ ≤ n * ‖z - w‖ := by
  induction n with
  | zero => simp
  | succ n ih =>
      have split : z ^ (n + 1) - w ^ (n + 1) = z ^ n * (z - w) + (z ^ n - w ^ n) * w := by ring
      have bounded : ‖z ^ n‖ ≤ 1 := by simpa using pow_le_one₀ (norm_nonneg z) hz
      calc ‖z ^ (n + 1) - w ^ (n + 1)‖
          ≤ ‖z ^ n * (z - w)‖ + ‖(z ^ n - w ^ n) * w‖ := by rw [split]; exact norm_add_le _ _
        _ = ‖z ^ n‖ * ‖z - w‖ + ‖z ^ n - w ^ n‖ * ‖w‖ := by rw [norm_mul, norm_mul]
        _ ≤ 1 * ‖z - w‖ + n * ‖z - w‖ * 1 := by gcongr
        _ = ↑(n + 1) * ‖z - w‖ := by push_cast; ring

theorem sum_exp_I (k : ℕ) :
    ∑ m ∈ Finset.range (2 * k), Complex.I ^ m / (m.factorial : ℂ) =
      ((∑ j ∈ Finset.range k, (-1) ^ j / ((2 * j).factorial : ℚ) : ℚ) : ℂ) +
        ((∑ j ∈ Finset.range k, (-1) ^ j / ((2 * j + 1).factorial : ℚ) : ℚ) : ℂ) * Complex.I := by
  induction k with
  | zero => simp
  | succ k ih =>
      have even : Complex.I ^ (2 * k) = (-1) ^ k := by rw [pow_mul, Complex.I_sq]
      have odd : Complex.I ^ (2 * k + 1) = (-1) ^ k * Complex.I := by rw [pow_succ, even]
      rw [show 2 * (k + 1) = 2 * k + 1 + 1 by ring, Finset.sum_range_succ, Finset.sum_range_succ, ih,
        even, odd, Finset.sum_range_succ, Finset.sum_range_succ]
      push_cast
      ring

/-- The cosine and the sine of 1 in units of 2⁻⁶⁴, both rounded down. -/
def cosine : ℤ := 9966818358784711825

def sine : ℤ := 15522399902203605024

noncomputable def unit : ℂ := (cosine + sine * Complex.I) / 2 ^ 64

theorem norm_unit_le : ‖unit‖ ≤ 1 := by
  have numerator : ‖(cosine + sine * Complex.I : ℂ)‖ ≤ 2 ^ 64 := by
    have square := Complex.normSq_add_mul_I (cosine : ℝ) (sine : ℝ)
    rw [Complex.normSq_eq_norm_sq] at square
    refine le_of_sq_le_sq ?_ (by positivity)
    push_cast at square
    rw [square]
    norm_num [cosine, sine]
  rw [unit, norm_div, div_le_one (by norm_num)]
  simpa using numerator

def cosineSum : ℚ := ∑ j ∈ Finset.range 11, (-1) ^ j / ((2 * j).factorial : ℚ)

def sineSum : ℚ := ∑ j ∈ Finset.range 11, (-1) ^ j / ((2 * j + 1).factorial : ℚ)

theorem cosineSum_close : |((cosine / 2 ^ 64 - cosineSum : ℚ) : ℝ)| ≤ 1 / 2 ^ 64 := by
  have rational : |(cosine / 2 ^ 64 - cosineSum : ℚ)| ≤ 1 / 2 ^ 64 := by
    norm_num [cosine, cosineSum, Finset.sum_range_succ, Nat.factorial, abs_le]
  simpa using (Rat.cast_le (K := ℝ)).mpr rational

theorem sineSum_close : |((sine / 2 ^ 64 - sineSum : ℚ) : ℝ)| ≤ 1 / 2 ^ 64 := by
  have rational : |(sine / 2 ^ 64 - sineSum : ℚ)| ≤ 1 / 2 ^ 64 := by
    norm_num [sine, sineSum, Finset.sum_range_succ, Nat.factorial, abs_le]
  simpa using (Rat.cast_le (K := ℝ)).mpr rational

theorem series_close :
    ‖Complex.exp Complex.I - (cosineSum + sineSum * Complex.I)‖ ≤ 1 / 2 ^ 63 := by
  have series := Complex.exp_bound (le_of_eq Complex.norm_I) (show 0 < 2 * 11 by norm_num)
  rw [sum_exp_I] at series
  refine series.trans ?_
  norm_num [Nat.factorial]

theorem unit_close : ‖unit - Complex.exp Complex.I‖ ≤ 1 / 2 ^ 62 := by
  have parts : unit - (cosineSum + sineSum * Complex.I) =
      ((cosine / 2 ^ 64 - cosineSum : ℚ) : ℝ) +
        ((sine / 2 ^ 64 - sineSum : ℚ) : ℝ) * Complex.I := by
    rw [unit]
    push_cast
    ring
  have rounded : ‖unit - (cosineSum + sineSum * Complex.I)‖ ≤ 1 / 2 ^ 64 + 1 / 2 ^ 64 := by
    rw [parts]
    refine (Complex.norm_le_abs_re_add_abs_im _).trans ?_
    rw [Complex.add_re, Complex.add_im, Complex.ofReal_re, Complex.ofReal_im, Complex.re_ofReal_mul,
      Complex.im_ofReal_mul, Complex.I_re, Complex.I_im, mul_zero, mul_one, add_zero, zero_add]
    exact add_le_add cosineSum_close sineSum_close
  calc ‖unit - Complex.exp Complex.I‖
      ≤ ‖unit - (cosineSum + sineSum * Complex.I)‖ +
          ‖(cosineSum + sineSum * Complex.I) - Complex.exp Complex.I‖ :=
        norm_sub_le_norm_sub_add_norm_sub _ _ _
    _ ≤ (1 / 2 ^ 64 + 1 / 2 ^ 64) + 1 / 2 ^ 63 := by
        rw [norm_sub_rev (_ + _) (Complex.exp _)]
        exact add_le_add rounded series_close
    _ = 1 / 2 ^ 62 := by norm_num

/-! ## Powers in whole numbers -/

def turn : ℕ → ℤ × ℤ
  | 0 => (1, 0)
  | n + 1 =>
      ((turn n).1 * cosine - (turn n).2 * sine, (turn n).1 * sine + (turn n).2 * cosine)

theorem turn_eq (n : ℕ) :
    (((turn n).1 : ℂ) + (turn n).2 * Complex.I) / (2 ^ 64) ^ n = unit ^ n := by
  induction n with
  | zero => simp [turn]
  | succ n ih =>
      rw [pow_succ unit, ← ih, turn, unit, div_mul_div_comm, ← pow_succ]
      push_cast
      congr 1
      linear_combination (-((turn n).2 : ℂ) * sine) * Complex.I_sq

theorem sin_close (n : ℕ) : |((turn n).2 : ℝ) / (2 ^ 64) ^ n - Real.sin n| ≤ (n : ℝ) / 2 ^ 62 := by
  have power : Complex.exp Complex.I ^ n = Complex.exp ((n : ℝ) * Complex.I) := by
    rw [← Complex.exp_nat_mul, Complex.ofReal_natCast]
  have imaginary : (unit ^ n - Complex.exp Complex.I ^ n).im =
      ((turn n).2 : ℝ) / (2 ^ 64) ^ n - Real.sin n := by
    have scale : ((2 : ℂ) ^ 64) ^ n = (((2 : ℝ) ^ 64) ^ n : ℝ) := by push_cast; rfl
    rw [Complex.sub_im, power, Complex.exp_ofReal_mul_I_im, ← turn_eq, scale, Complex.div_ofReal_im]
    simp
  have onCircle : ‖Complex.exp Complex.I‖ ≤ 1 := by
    simpa using (Complex.norm_exp_ofReal_mul_I 1).le
  rw [← imaginary]
  calc |(unit ^ n - Complex.exp Complex.I ^ n).im|
      ≤ ‖unit ^ n - Complex.exp Complex.I ^ n‖ := Complex.abs_im_le_norm _
    _ ≤ n * ‖unit - Complex.exp Complex.I‖ := norm_pow_sub_pow_le norm_unit_le onCircle n
    _ ≤ n * (1 / 2 ^ 62) := by gcongr; exact unit_close
    _ = n / 2 ^ 62 := by ring

/-- The digits of the sine with room for the error on both sides. -/
def Digits (n c : ℕ) : Prop :=
  (c * 2 ^ 30 + n) * (2 ^ 64) ^ n ≤ (turn n).2.natAbs * 2 ^ 62 ∧
    (turn n).2.natAbs * 2 ^ 62 + n * (2 ^ 64) ^ n < (c + 1) * 2 ^ 30 * (2 ^ 64) ^ n

instance (n c : ℕ) : Decidable (Digits n c) := inferInstanceAs (Decidable (_ ∧ _))

theorem floor_sin {n c : ℕ} (digits : Digits n c) : ⌊2 ^ 32 * |Real.sin n|⌋₊ = c := by
  obtain ⟨low, high⟩ := digits
  have positive : (0 : ℝ) < (2 ^ 64) ^ n := by positivity
  have size : |((turn n).2 : ℝ) / (2 ^ 64) ^ n| = ((turn n).2.natAbs : ℝ) / (2 ^ 64) ^ n := by
    rw [abs_div, abs_of_pos positive, Nat.cast_natAbs, Int.cast_abs]
  have close := (abs_abs_sub_abs_le ((turn n).2 / (2 ^ 64) ^ n : ℝ) (Real.sin n)).trans (sin_close n)
  rw [size, abs_le] at close
  have below : ((c * 2 ^ 30 + n : ℝ)) / 2 ^ 62 ≤ ((turn n).2.natAbs : ℝ) / (2 ^ 64) ^ n := by
    rw [div_le_div_iff₀ (by norm_num) positive]
    exact_mod_cast low
  have above : ((turn n).2.natAbs : ℝ) / (2 ^ 64) ^ n < ((c + 1) * 2 ^ 30 - n : ℝ) / 2 ^ 62 := by
    rw [div_lt_div_iff₀ positive (by norm_num), sub_mul, lt_sub_iff_add_lt]
    exact_mod_cast high
  rw [Nat.floor_eq_iff (by positivity)]
  constructor <;> linarith

end Library.Sine
