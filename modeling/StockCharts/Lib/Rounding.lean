import Mathlib.Algebra.Order.Ring.Pow
import Mathlib.Data.Int.Log
import Mathlib.Data.Rat.Floor
import Mathlib.Tactic.Linarith
import Mathlib.Tactic.NormNum
import Mathlib.Tactic.Positivity

/-!
# Rounded arithmetic

The standard model of floating point: an operation answers its exact result with a relative error of
at most `u`, the unit roundoff (`Rounds`). Rounding to `p` binary digits, to nearest and ties to
even, is one such function, with `u = 1 / 2 ^ p` (`rounds_roundTo`); there is no largest and no
smallest exponent here, so neither overflow nor underflow.

What a chain of operations makes of a number that is not negative is a number **between** two
multiples of it (`Between`). The rules of this file say what each operation does to the two factors:
a rounding widens them by `1 - u` and `1 + u`, and a sum, a multiple or a quotient leaves them.
-/

set_option autoImplicit false

namespace StockCharts

/-! ## Rounding functions -/

/-- `rnd` is right up to a relative error of `u`. -/
structure Rounds (u : ℚ) (rnd : ℚ → ℚ) : Prop where
  nonneg : 0 ≤ u
  lt_one : u < 1
  error : ∀ x, |rnd x - x| ≤ u * |x|

theorem Rounds.mono {u v : ℚ} {rnd : ℚ → ℚ} (h : Rounds u rnd) (huv : u ≤ v) (hv : v < 1) :
    Rounds v rnd where
  nonneg := h.nonneg.trans huv
  lt_one := hv
  error x := (h.error x).trans (mul_le_mul_of_nonneg_right huv (abs_nonneg x))

/-- Exact arithmetic rounds nothing. -/
theorem rounds_id {u : ℚ} (h0 : 0 ≤ u) (h1 : u < 1) : Rounds u id where
  nonneg := h0
  lt_one := h1
  error x := by
    rw [id, sub_self, abs_zero]
    exact mul_nonneg h0 (abs_nonneg x)

/-- The nearest integer, and of two the even one. -/
def roundEven (x : ℚ) : ℤ :=
  if x - ⌊x⌋ < 1 / 2 ∨ (x - ⌊x⌋ = 1 / 2 ∧ ⌊x⌋ % 2 = 0) then ⌊x⌋ else ⌊x⌋ + 1

/-- The distance of the numbers of `p` binary digits around `x`. -/
def ulp (p : ℕ) (x : ℚ) : ℚ := 2 ^ (Int.log 2 |x| - p + 1)

/-- The nearest number of `p` binary digits. -/
def roundTo (p : ℕ) (x : ℚ) : ℚ := roundEven (x / ulp p x) * ulp p x

theorem abs_roundEven_sub_le (x : ℚ) : |(roundEven x : ℚ) - x| ≤ 1 / 2 := by
  have hlo := Int.floor_le x
  have hhi := Int.lt_floor_add_one x
  rw [roundEven, abs_le]
  split
  · rename_i h
    have hle : x - ⌊x⌋ ≤ 1 / 2 := h.elim le_of_lt fun htie => htie.1.le
    constructor <;> linarith
  · rename_i h
    have hge : 1 / 2 ≤ x - ⌊x⌋ := not_lt.mp (not_or.mp h).1
    rw [Int.cast_add, Int.cast_one]
    constructor <;> linarith

theorem ulp_pos (p : ℕ) (x : ℚ) : 0 < ulp p x := zpow_pos (by norm_num) _

theorem ulp_le (p : ℕ) {x : ℚ} (hx : x ≠ 0) : ulp p x ≤ 2 / 2 ^ p * |x| := by
  have hlog : (2 : ℚ) ^ Int.log 2 |x| ≤ |x| := Int.zpow_log_le_self (by norm_num) (abs_pos.mpr hx)
  have hsplit : ulp p x = 2 / 2 ^ p * 2 ^ Int.log 2 |x| := by
    rw [ulp, zpow_add₀ (by norm_num), zpow_sub₀ (by norm_num), zpow_natCast, zpow_one]
    ring
  rw [hsplit]
  exact mul_le_mul_of_nonneg_left hlog (by positivity)

/-- **Rounding to `p` digits is right up to `1 / 2 ^ p`**, half a unit in the last place. -/
theorem rounds_roundTo {p : ℕ} (hp : p ≠ 0) : Rounds (1 / 2 ^ p) (roundTo p) where
  nonneg := by positivity
  lt_one := by
    rw [div_lt_one (by positivity)]
    exact one_lt_pow₀ (by norm_num) hp
  error x := by
    by_cases hx : x = 0
    · rw [hx]
      simp [roundTo, roundEven]
    · have hulp := ulp_pos p x
      have hscale : roundTo p x - x = (roundEven (x / ulp p x) - x / ulp p x) * ulp p x := by
        rw [sub_mul, div_mul_cancel₀ _ hulp.ne', roundTo]
      calc |roundTo p x - x|
          = |(roundEven (x / ulp p x) : ℚ) - x / ulp p x| * ulp p x := by
            rw [hscale, abs_mul, abs_of_pos hulp]
        _ ≤ 1 / 2 * ulp p x := mul_le_mul_of_nonneg_right (abs_roundEven_sub_le _) hulp.le
        _ ≤ 1 / 2 * (2 / 2 ^ p * |x|) := by linarith [ulp_le p hx]
        _ = 1 / 2 ^ p * |x| := by ring

/-! ## Numbers between two multiples -/

/-- `y` stands for `x`, up to a factor between `lo` and `hi`. -/
def Between (lo hi x y : ℚ) : Prop := lo * x ≤ y ∧ y ≤ hi * x

namespace Between

variable {lo hi lo' hi' u x x' y y' c : ℚ} {rnd : ℚ → ℚ}

theorem zero (lo hi : ℚ) : Between lo hi 0 0 := ⟨(mul_zero lo).le, (mul_zero hi).ge⟩

/-- Where no operation rounds, the number is the exact one. -/
theorem eq_of_one (h : Between 1 1 x y) : y = x := by
  obtain ⟨hlo, hhi⟩ := h
  rw [one_mul] at hlo hhi
  exact le_antisymm hhi hlo

theorem nonneg (h : Between lo hi x y) (hlo : 0 ≤ lo) (hx : 0 ≤ x) : 0 ≤ y :=
  (mul_nonneg hlo hx).trans h.1

theorem mono (h : Between lo hi x y) (hlo : lo' ≤ lo) (hhi : hi ≤ hi') (hx : 0 ≤ x) :
    Between lo' hi' x y :=
  ⟨(mul_le_mul_of_nonneg_right hlo hx).trans h.1, h.2.trans (mul_le_mul_of_nonneg_right hhi hx)⟩

theorem add (h : Between lo hi x y) (h' : Between lo hi x' y') :
    Between lo hi (x + x') (y + y') := by
  rw [Between, mul_add, mul_add]
  exact ⟨add_le_add h.1 h'.1, add_le_add h.2 h'.2⟩

theorem mul_right (h : Between lo hi x y) (hc : 0 ≤ c) : Between lo hi (x * c) (y * c) := by
  rw [Between, ← mul_assoc, ← mul_assoc]
  exact ⟨mul_le_mul_of_nonneg_right h.1 hc, mul_le_mul_of_nonneg_right h.2 hc⟩

theorem div_right (h : Between lo hi x y) (hc : 0 ≤ c) : Between lo hi (x / c) (y / c) := by
  rw [div_eq_mul_inv, div_eq_mul_inv]
  exact h.mul_right (inv_nonneg.mpr hc)

/-- A number with a relative error. -/
theorem of_error (h : |y - x| ≤ u * x) : Between (1 - u) (1 + u) x y := by
  rw [abs_le] at h
  constructor <;> linarith [h.1, h.2]

/-- One more rounding. -/
theorem round (hrnd : Rounds u rnd) (h : Between lo hi x y) (hlo : 0 ≤ lo) (hx : 0 ≤ x) :
    Between (lo * (1 - u)) (hi * (1 + u)) x (rnd y) := by
  have hy : 0 ≤ y := h.nonneg hlo hx
  have herror := hrnd.error y
  rw [abs_of_nonneg hy] at herror
  obtain ⟨hdown, hup⟩ := of_error herror
  have hu : 0 ≤ 1 - u := sub_nonneg.mpr hrnd.lt_one.le
  have hu' : 0 ≤ 1 + u := add_nonneg zero_le_one hrnd.nonneg
  constructor
  · calc lo * (1 - u) * x = (1 - u) * (lo * x) := by ring
      _ ≤ (1 - u) * y := mul_le_mul_of_nonneg_left h.1 hu
      _ ≤ rnd y := hdown
  · calc rnd y ≤ (1 + u) * y := hup
      _ ≤ (1 + u) * (hi * x) := mul_le_mul_of_nonneg_left h.2 hu'
      _ = hi * (1 + u) * x := by ring

/-- Both stand for nothing, or both for something. -/
theorem pos_iff (h : Between lo hi x y) (hlo : 0 < lo) (hx : 0 ≤ x) : 0 < y ↔ 0 < x := by
  constructor
  · intro hy
    refine lt_of_le_of_ne hx fun hzero => ?_
    have hle := h.2
    rw [← hzero, mul_zero] at hle
    exact absurd hy (not_lt.mpr hle)
  · exact fun hx => (mul_pos hlo hx).trans_le h.1

end Between

/-! ### Chains of operations -/

/-- `y` stands for `x` behind one operation that is right up to `u`, and `k` that are up to `v`. -/
def Near (u v : ℚ) (k : ℕ) (x y : ℚ) : Prop :=
  Between ((1 - u) * (1 - v) ^ k) ((1 + u) * (1 + v) ^ k) x y

namespace Near

variable {u v x x' y y' c : ℚ} {j k : ℕ} {rnd : ℚ → ℚ}

theorem lo_pos (hu : u < 1) (hv : v < 1) (k : ℕ) : 0 < (1 - u) * (1 - v) ^ k :=
  mul_pos (sub_pos.mpr hu) (pow_pos (sub_pos.mpr hv) k)

/-- The operation that is right up to `u`. -/
theorem of_error (h : |y - x| ≤ u * x) : Near u v 0 x y := by
  rw [Near, pow_zero, pow_zero, mul_one, mul_one]
  exact Between.of_error h

/-- One more operation that is right up to `v`. -/
theorem round (h : Near u v k x y) (hrnd : Rounds v rnd) (hu : u < 1) (hx : 0 ≤ x) :
    Near u v (k + 1) x (rnd y) := by
  rw [Near, pow_succ, pow_succ, ← mul_assoc, ← mul_assoc]
  exact Between.round hrnd h (lo_pos hu hrnd.lt_one k).le hx

theorem mono (h : Near u v j x y) (hjk : j ≤ k) (hu0 : 0 ≤ u) (hu : u < 1) (hv0 : 0 ≤ v)
    (hv : v < 1) (hx : 0 ≤ x) : Near u v k x y := by
  refine Between.mono h ?_ ?_ hx
  · exact mul_le_mul_of_nonneg_left
      (pow_le_pow_of_le_one (sub_nonneg.mpr hv.le) (sub_le_self 1 hv0) hjk) (sub_nonneg.mpr hu.le)
  · exact mul_le_mul_of_nonneg_left
      (pow_le_pow_right₀ (le_add_of_nonneg_right hv0) hjk) (add_nonneg zero_le_one hu0)

theorem add (h : Near u v k x y) (h' : Near u v k x' y') : Near u v k (x + x') (y + y') :=
  Between.add h h'

theorem mul_right (h : Near u v k x y) (hc : 0 ≤ c) : Near u v k (x * c) (y * c) :=
  Between.mul_right h hc

theorem div_right (h : Near u v k x y) (hc : 0 ≤ c) : Near u v k (x / c) (y / c) :=
  Between.div_right h hc

/-- Without errors the number is the exact one. -/
theorem eq_of_exact (h : Near 0 0 k x y) : y = x := by
  rw [Near, sub_zero, add_zero, one_pow, one_mul] at h
  exact Between.eq_of_one h

/-- **How far a few roundings go.** Where `k` errors of `v` add up to `w` at most, they cost a
factor of `1 - w` on either side. -/
theorem within (h : Near u v k x y) (hu0 : 0 ≤ u) (hu : u < 1) (hv0 : 0 ≤ v) (hv : v < 1)
    {w : ℚ} (hw : k * v ≤ w) (hw1 : w < 1) (hx : 0 ≤ x) :
    Between ((1 - u) * (1 - w)) ((1 + u) / (1 - w)) x y := by
  have hdown : 1 - w ≤ (1 - v) ^ k := by
    have hbernoulli := one_add_mul_le_pow (a := -v) (by linarith) k
    rw [← sub_eq_add_neg] at hbernoulli
    linarith
  have hprod : (1 + v) ^ k * (1 - v) ^ k ≤ 1 := by
    have hsquare : (1 + v) * (1 - v) = 1 - v ^ 2 := by ring
    rw [← mul_pow, hsquare]
    exact pow_le_one₀ (sub_nonneg.mpr (pow_le_one₀ hv0 hv.le)) (sub_le_self 1 (sq_nonneg v))
  have hup : (1 + v) ^ k ≤ 1 / (1 - w) := by
    rw [le_div_iff₀ (sub_pos.mpr hw1)]
    exact (mul_le_mul_of_nonneg_left hdown (by positivity)).trans hprod
  refine Between.mono h (mul_le_mul_of_nonneg_left hdown (sub_nonneg.mpr hu.le)) ?_ hx
  rw [div_eq_mul_one_div]
  exact mul_le_mul_of_nonneg_left hup (add_nonneg zero_le_one hu0)

end Near

end StockCharts
