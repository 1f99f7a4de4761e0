import Mathlib.Algebra.Order.Field.Basic
import Mathlib.Tactic.NormNum
import Mathlib.Tactic.Ring
import StockCharts.Data

/-!
# The normalisation of a window

Before a window is drawn, each price column is rescaled to `0 … 100` **by its own** minimum and
maximum over the window; a column that does not vary becomes `50` throughout. The four columns of a
candle are therefore moved by four different maps, and a candle is not in general a candle
afterwards: its high may come out below its open, and an up day may be drawn as a down day.

What becomes of a column by itself is the subject of `Canonical.lean`, and when the four of them are
candles still that of `Candle.lean`.
-/

set_option autoImplicit false

namespace StockCharts

open Flt (fin)

/-- The new value of a cell of a column. -/
def normCell (col : List Price) (x : Price) : Price :=
  let minVal := Flt.min col
  let maxVal := Flt.max col
  if .fin 0 < maxVal - minVal then (x - minVal) / (maxVal - minVal) * .fin 100 else .fin 50

def normaliseCol (window : List Row) (col : Col) : List Row :=
  -- One iteration of `for col in required_cols`: `window[col] = …`.
  window.map fun row => Function.update row col (normCell (column window col) (row col))

def normalise (window : List Row) : List Row := requiredCols.foldl normaliseCol window

/-! ## The columns do not meet

Each iteration reads and writes one column, so the loop is the four rescalings side by side. -/

/-- An iteration leaves the other columns alone. -/
theorem column_normaliseCol_of_ne {w : List Row} {c col : Col} (h : c ≠ col) :
    column (normaliseCol w col) c = column w c := by
  simp [column, normaliseCol, Function.update_of_ne h]

theorem foldl_normaliseCol {cols : List Col} (hnd : cols.Nodup) (w : List Row) :
    cols.foldl normaliseCol w =
      w.map fun row c => if c ∈ cols then normCell (column w c) (row c) else row c := by
  induction cols generalizing w with
  | nil => simp
  | cons col cols ih =>
    obtain ⟨hcol, hnd'⟩ := List.nodup_cons.mp hnd
    rw [List.foldl_cons, ih hnd', normaliseCol, List.map_map]
    refine List.map_congr_left fun row _ => funext fun c => ?_
    show (if c ∈ cols then normCell (column (normaliseCol w col) c) _ else _) = _
    by_cases hc : c = col
    · subst hc
      simp [hcol]
    · simp [hc, column_normaliseCol_of_ne hc]

/-- **The loop is the four rescalings side by side.** -/
theorem normalise_eq_map (w : List Row) :
    normalise w = w.map fun row c => normCell (column w c) (row c) := by
  rw [normalise, foldl_normaliseCol (by decide)]
  simp only [mem_requiredCols, if_true]

/-! ## One column of numbers -/

/-- The new value of `x` in a column that spans `m … M`. -/
def normQ (m M x : ℚ) : ℚ := if 0 < M - m then (x - m) / (M - m) * 100 else 50

/-- On numbers the cell is rescaled by the extremes of its column. -/
theorem normCell_fin {xs : List ℚ} {m M : ℚ} (hm : IsLeast {x | x ∈ xs} m)
    (hM : IsGreatest {x | x ∈ xs} M) (x : ℚ) :
    normCell (xs.map fin) (fin x) = fin (normQ m M x) := by
  simp only [normCell, Flt.min_fin hm, Flt.max_fin hM, Flt.fin_sub_fin, Flt.fin_lt_fin, normQ]
  split
  · rename_i h
    rw [Flt.fin_div_fin h.ne', Flt.fin_mul_fin]
  · rfl

section NormQ

variable {m M m' M' x y : ℚ}

theorem normQ_of_lt (h : m < M) : normQ m M x = (x - m) / (M - m) * 100 := if_pos (sub_pos.mpr h)

theorem normQ_const : normQ m m x = 50 := by simp [normQ]

theorem normQ_min (h : m < M) : normQ m M m = 0 := by simp [normQ_of_lt h]

theorem normQ_max (h : m < M) : normQ m M M = 100 := by
  rw [normQ_of_lt h, div_self (sub_pos.mpr h).ne', one_mul]

theorem normQ_le_normQ_iff (h : m < M) (h' : m' < M') :
    normQ m M x ≤ normQ m' M' y ↔ (x - m) * (M' - m') ≤ (y - m') * (M - m) := by
  rw [normQ_of_lt h, normQ_of_lt h', mul_le_mul_iff_left₀ (by norm_num : (0 : ℚ) < 100),
    div_le_div_iff₀ (sub_pos.mpr h) (sub_pos.mpr h')]

theorem normQ_lt_normQ_iff (h : m < M) : normQ m M x < normQ m M y ↔ x < y := by
  rw [← not_le, normQ_le_normQ_iff h h, mul_le_mul_iff_left₀ (sub_pos.mpr h),
    sub_le_sub_iff_right, not_le]

theorem normQ_mono (h : m < M) (hxy : x ≤ y) : normQ m M x ≤ normQ m M y := by
  rw [normQ_le_normQ_iff h h]
  exact mul_le_mul_of_nonneg_right (sub_le_sub_right hxy m) (sub_pos.mpr h).le

theorem normQ_nonneg (h : m < M) (hx : m ≤ x) : 0 ≤ normQ m M x := by
  rw [← normQ_min h]
  exact normQ_mono h hx

theorem normQ_le_hundred (h : m < M) (hx : x ≤ M) : normQ m M x ≤ 100 := by
  rw [← normQ_max h]
  exact normQ_mono h hx

theorem normQ_mem_range (hm : m ≤ x) (hM : x ≤ M) : 0 ≤ normQ m M x ∧ normQ m M x ≤ 100 := by
  rcases (hm.trans hM).lt_or_eq with hlt | heq
  · exact ⟨normQ_nonneg hlt hm, normQ_le_hundred hlt hM⟩
  · rw [heq, normQ_const]
    norm_num

theorem normQ_affine {a : ℚ} (ha : 0 < a) (b : ℚ) :
    normQ (a * m + b) (a * M + b) (a * x + b) = normQ m M x := by
  have hrange : a * M + b - (a * m + b) = a * (M - m) := by ring
  have hpos : a * x + b - (a * m + b) = a * (x - m) := by ring
  simp only [normQ, hrange, hpos, mul_pos_iff_of_pos_left ha, mul_div_mul_left _ _ ha.ne']

end NormQ

/-- **A column and its image under `x ↦ a * x + b`, `a > 0`, normalise to the same cells.** -/
theorem normCell_affine {a : ℚ} (ha : 0 < a) (b : ℚ) (xs : List ℚ) (hne : xs ≠ []) (x : ℚ) :
    normCell ((xs.map fun x => a * x + b).map fin) (fin (a * x + b)) =
      normCell (xs.map fin) (fin x) := by
  obtain ⟨m, M, hm, hM⟩ := Flt.exists_extremes xs hne
  have hmono : Monotone fun x : ℚ => a * x + b := fun x y hxy =>
    add_le_add_left (mul_le_mul_of_nonneg_left hxy ha.le) b
  rw [normCell_fin hm hM, normCell_fin (Flt.isLeast_map hmono hm) (Flt.isGreatest_map hmono hM),
    normQ_affine ha]

end StockCharts
