import Mathlib.Algebra.Order.BigOperators.Group.List
import Mathlib.Tactic.Linarith
import Mathlib.Tactic.Ring
import StockCharts.Lib.Flt

/-!
# Sums and means, and the unit of a column

The operations of `Flt` that statistics on a column need: sums, the mean that skips `nan`, and the
elementwise maximum, which does **not** skip it.

A change of unit multiplies every value by one positive number. Each operation either commutes with
it (`scale_sub`, `scale_add`, `scale_abs`, `scale_maximum`, `scale_mean`, the extremes) or, as the
division does, undoes it (`scale_div_scale`), and no value is an exception: an infinity keeps its
sign, and what is missing stays missing. So a ratio of such statistics has no unit.
-/

set_option autoImplicit false

namespace StockCharts
namespace Flt

variable {K : Type}

/-! ## Operations -/

section Operations

variable [Field K]

def neg : Flt K → Flt K
  | .nan => .nan
  | .negInf => .posInf
  | .fin x => .fin (-x)
  | .posInf => .negInf

def add : Flt K → Flt K → Flt K
  | .fin x, .fin y => .fin (x + y)
  | .posInf, .fin _ | .fin _, .posInf | .posInf, .posInf => .posInf
  | .negInf, .fin _ | .fin _, .negInf | .negInf, .negInf => .negInf
  | _, _ => .nan

instance : Neg (Flt K) := ⟨neg⟩
instance : Add (Flt K) := ⟨add⟩

@[simp] theorem neg_fin (x : K) : (-fin x : Flt K) = fin (-x) := rfl

@[simp] theorem fin_add_fin (x y : K) : (fin x + fin y : Flt K) = fin (x + y) := rfl

def isNan : Flt K → Bool
  | .nan => true
  | _ => false

def sum (xs : List (Flt K)) : Flt K := xs.foldr (· + ·) (fin 0)

variable [LinearOrder K]

/-- The mean of the cells that are not `nan`, and `nan` where there is none. -/
def mean (xs : List (Flt K)) : Flt K :=
  let present := xs.filter fun x => !x.isNan
  if present.isEmpty then nan else sum present / fin (present.length : K)

/-- The larger of two cells, and `nan` as soon as one of them is. -/
def maximum (a b : Flt K) : Flt K :=
  if a.isNan || b.isNan then nan else if a < b then b else a

omit [LinearOrder K] in
theorem sum_fin (xs : List K) : sum (xs.map fin) = fin xs.sum := by
  induction xs with
  | nil => rfl
  | cons x xs ih =>
    rw [List.map_cons, List.sum_cons, sum, List.foldr_cons, ← sum, ih, fin_add_fin]

@[simp] theorem mean_nan_cons (xs : List (Flt K)) : mean (nan :: xs) = mean xs := rfl

theorem mean_fin {xs : List K} [IsStrictOrderedRing K] (hne : xs ≠ []) :
    mean (xs.map fin) = fin (xs.sum / xs.length) := by
  have hpresent : (xs.map fin).filter (fun x : Flt K => !x.isNan) = xs.map fin := by
    rw [List.filter_eq_self]
    rintro a ha
    obtain ⟨x, -, rfl⟩ := List.mem_map.mp ha
    rfl
  have hlen : (xs.length : K) ≠ 0 := by
    rw [Nat.cast_ne_zero]
    exact fun h => hne (List.length_eq_zero_iff.mp h)
  rw [mean, hpresent, List.isEmpty_map, List.length_map, sum_fin, fin_div_fin hlen, if_neg]
  simpa using hne

omit [Field K] in
@[simp] theorem maximum_fin (x y : K) : maximum (fin x) (fin y) = fin (Max.max x y) := by
  show (if x < y then fin y else fin x) = fin (Max.max x y)
  rw [max_def_lt]
  split <;> rfl

end Operations

/-! ## Comparisons in a row

`≤` and `<` are not those of an order, since `nan` is below nothing, but they compose like it. -/

section Order

variable [Field K] [LinearOrder K] {a b c : Flt K}

omit [Field K] in
theorem lt_of_le_lt (h : a ≤ b) (h' : b < c) : a < c := by
  cases a <;> cases b <;> cases c <;> first
    | exact trivial
    | exact lt_of_le_of_lt (α := K) h h'
    | exact absurd h id
    | exact absurd h' id

omit [Field K] in
theorem lt_of_lt_le (h : a < b) (h' : b ≤ c) : a < c := by
  cases a <;> cases b <;> cases c <;> first
    | exact trivial
    | exact lt_of_lt_of_le (α := K) h h'
    | exact absurd h id
    | exact absurd h' id

theorem neg_le_neg_of_le [IsStrictOrderedRing K] (h : a ≤ b) : -b ≤ -a := by
  cases a <;> cases b <;> first
    | exact trivial
    | exact neg_le_neg (α := K) h
    | exact absurd h id

end Order

/-! ## A change of unit -/

section Unit

variable [Field K] [LinearOrder K] {k : K}

def scale (k : K) (a : Flt K) : Flt K := fin k * a

@[simp] theorem scale_nan (k : K) : scale k nan = nan := rfl

@[simp] theorem scale_fin (k x : K) : scale k (fin x) = fin (k * x) := rfl

theorem scale_posInf (hk : 0 < k) : scale k posInf = posInf := by
  show infOfSign k = posInf
  rw [infOfSign, if_neg hk.ne', if_pos hk]

/-- Whether a cell is missing does not depend on the unit, so neither does which are counted. -/
theorem isNan_scale (hk : 0 < k) (a : Flt K) : (scale k a).isNan = a.isNan := by
  cases a with
  | nan => rfl
  | negInf =>
    show (infOfSign (-k)).isNan = false
    rw [infOfSign]
    split
    · rename_i h
      exact absurd (neg_eq_zero.mp h) hk.ne'
    · split <;> rfl
  | fin x => rfl
  | posInf => rw [scale_posInf hk]

variable [IsStrictOrderedRing K]

theorem scale_negInf (hk : 0 < k) : scale k negInf = negInf := by
  show infOfSign (-k) = negInf
  rw [infOfSign, if_neg (neg_ne_zero.mpr hk.ne'), if_neg (not_lt.mpr (neg_nonpos.mpr hk.le))]

theorem infOfSign_mul (hk : 0 < k) (x : K) : infOfSign (k * x) = infOfSign x := by
  simp only [infOfSign, mul_eq_zero, hk.ne', false_or, mul_pos_iff_of_pos_left hk]

theorem scale_sub (hk : 0 < k) (a b : Flt K) : scale k a - scale k b = scale k (a - b) := by
  cases a <;> cases b <;>
    simp only [scale_nan, scale_fin, scale_posInf hk, scale_negInf hk, nan_sub, sub_nan, fin_sub_fin,
      ← mul_sub] <;>
    first | rfl | exact (scale_posInf hk).symm | exact (scale_negInf hk).symm

theorem scale_add (hk : 0 < k) (a b : Flt K) : scale k a + scale k b = scale k (a + b) := by
  cases a <;> cases b <;>
    simp only [scale_nan, scale_fin, scale_posInf hk, scale_negInf hk, fin_add_fin, ← mul_add] <;>
    first | rfl | exact (scale_posInf hk).symm | exact (scale_negInf hk).symm

theorem scale_abs (hk : 0 < k) (a : Flt K) : abs (scale k a) = scale k (abs a) := by
  cases a with
  | nan => rfl
  | negInf => rw [scale_negInf hk]; exact (scale_posInf hk).symm
  | fin x => rw [scale_fin, abs_fin, abs_fin, scale_fin, abs_mul, abs_of_pos hk]
  | posInf => rw [scale_posInf hk]; exact (scale_posInf hk).symm

/-- **A ratio has no unit.** -/
theorem scale_div_scale (hk : 0 < k) (a b : Flt K) : scale k a / scale k b = a / b := by
  have hzero : ∀ y : K, k * y = 0 ↔ y = 0 := fun y => by simp [hk.ne']
  have hneg : ∀ y : K, k * y < 0 ↔ y < 0 := fun y => by
    rw [← mul_lt_mul_iff_right₀ hk (b := y), mul_zero]
  cases a with
  | nan => rw [scale_nan, nan_div, nan_div]
  | negInf =>
    rw [scale_negInf hk]
    cases b with
    | nan => rfl
    | negInf => rw [scale_negInf hk]
    | fin y =>
      show (if k * y < 0 then posInf else negInf) = if y < 0 then posInf else negInf
      simp only [hneg]
    | posInf => rw [scale_posInf hk]
  | fin x =>
    cases b with
    | nan => rfl
    | negInf => rw [scale_negInf hk]; rfl
    | fin y =>
      show (if k * y = 0 then infOfSign (k * x) else fin (k * x / (k * y))) =
        if y = 0 then infOfSign x else fin (x / y)
      simp only [hzero, infOfSign_mul hk, mul_div_mul_left _ _ hk.ne']
    | posInf => rw [scale_posInf hk]; rfl
  | posInf =>
    rw [scale_posInf hk]
    cases b with
    | nan => rfl
    | negInf => rw [scale_negInf hk]
    | fin y =>
      show (if k * y < 0 then negInf else posInf) = if y < 0 then negInf else posInf
      simp only [hneg]
    | posInf => rw [scale_posInf hk]

theorem scale_lt_scale (hk : 0 < k) (a b : Flt K) : scale k a < scale k b ↔ a < b := by
  cases a <;> cases b <;>
    simp only [scale_nan, scale_fin, scale_posInf hk, scale_negInf hk, fin_lt_fin,
      mul_lt_mul_iff_right₀ hk] <;> exact Iff.rfl

theorem scale_maximum (hk : 0 < k) (a b : Flt K) :
    maximum (scale k a) (scale k b) = scale k (maximum a b) := by
  simp only [maximum, isNan_scale hk, scale_lt_scale hk]
  split
  · rfl
  · split <;> rfl

/-! ### Columns -/

omit [Field K] [LinearOrder K] [IsStrictOrderedRing K] in
theorem pickSkip_eq (better : Flt K → Flt K → Prop) [DecidableRel better] (a b : Flt K) :
    pickSkip better a b =
      if a.isNan then b else if b.isNan then a else if better b a then b else a := by
  cases a <;> cases b <;> rfl

omit [IsStrictOrderedRing K] in
/-- An extreme is in the unit of its column. -/
theorem best_scale {better : Flt K → Flt K → Prop} [DecidableRel better] (hk : 0 < k)
    (hbetter : ∀ a b, better (scale k a) (scale k b) ↔ better a b) (xs : List (Flt K)) :
    best better (xs.map (scale k)) = scale k (best better xs) := by
  induction xs with
  | nil => rfl
  | cons x xs ih =>
    show pickSkip better (scale k x) (best better (xs.map (scale k))) =
      scale k (pickSkip better x (best better xs))
    rw [ih]
    simp only [pickSkip_eq, isNan_scale hk, hbetter]
    split
    · rfl
    · split
      · rfl
      · split <;> rfl

theorem max_scale (hk : 0 < k) (xs : List (Flt K)) :
    Flt.max (xs.map (scale k)) = scale k (Flt.max xs) :=
  best_scale hk (fun a b => scale_lt_scale hk b a) xs

theorem min_scale (hk : 0 < k) (xs : List (Flt K)) :
    Flt.min (xs.map (scale k)) = scale k (Flt.min xs) :=
  best_scale hk (fun a b => scale_lt_scale hk a b) xs

theorem sum_scale (hk : 0 < k) (xs : List (Flt K)) : sum (xs.map (scale k)) = scale k (sum xs) := by
  induction xs with
  | nil => rw [List.map_nil, sum, List.foldr_nil, scale_fin, mul_zero]
  | cons x xs ih =>
    rw [List.map_cons, sum, List.foldr_cons, ← sum, ih, scale_add hk]
    rfl

theorem scale_div_fin (hk : 0 < k) (a : Flt K) {n : K} (hn : 0 < n) :
    scale k a / fin n = scale k (a / fin n) := by
  cases a with
  | nan => rw [scale_nan, nan_div, scale_nan]
  | negInf =>
    have hdiv : (negInf / fin n : Flt K) = negInf := if_neg (not_lt.mpr hn.le)
    rw [scale_negInf hk, hdiv, scale_negInf hk]
  | fin x =>
    rw [scale_fin, fin_div_fin hn.ne', fin_div_fin hn.ne', scale_fin, mul_div_assoc]
  | posInf =>
    have hdiv : (posInf / fin n : Flt K) = posInf := if_neg (not_lt.mpr hn.le)
    rw [scale_posInf hk, hdiv, scale_posInf hk]

theorem mean_scale (hk : 0 < k) (xs : List (Flt K)) :
    mean (xs.map (scale k)) = scale k (mean xs) := by
  have hpresent : (xs.map (scale k)).filter (fun x => !x.isNan) =
      (xs.filter fun x => !x.isNan).map (scale k) := by
    rw [List.filter_map]
    simp only [Function.comp_def, isNan_scale hk]
  rw [mean, mean, hpresent, List.isEmpty_map, List.length_map, sum_scale hk]
  split
  · rfl
  · rename_i hne
    have hlen : 0 < ((xs.filter fun x => !x.isNan).length : K) := by
      rw [Nat.cast_pos, List.length_pos_iff]
      simpa using hne
    exact scale_div_fin hk _ hlen

end Unit

end Flt
end StockCharts
