import StockCharts.Canonical
import StockCharts.Label

/-!
# A later download of the same ticker

A re-run on a later date sees a longer frame whose old prices have been re-adjusted, all four by
one factor. What was read off an old window is read off the new frame unchanged: the slices at an
old index end inside the old rows, and the label and the normalised chart are both ratios.
-/

set_option autoImplicit false

namespace StockCharts

open Flt (fin)

/-- A download with no missing price, every price positive. -/
structure RatFrame where
  columns : List Col
  rows : List (Col → ℚ)
  pos : ∀ r ∈ rows, ∀ c, 0 < r c

namespace RatFrame

def toDataFrame (F : RatFrame) : DataFrame := ⟨F.columns, F.rows.map ratRow⟩

/-- The frame after a re-adjustment by `k` and some more days. -/
def readjust (F : RatFrame) (k : ℚ) (more : List Row) : DataFrame :=
  ⟨F.columns, (F.rows.map fun r => ratRow fun c => k * r c) ++ more⟩

theorem toDataFrame_len (F : RatFrame) : F.toDataFrame.len = F.rows.length := by
  simp [toDataFrame, DataFrame.len]

theorem readjust_len (F : RatFrame) (k : ℚ) (more : List Row) :
    (F.readjust k more).len = F.rows.length + more.length := by
  simp [readjust, DataFrame.len]

def slice (F : RatFrame) (lo hi : ℕ) : List (Col → ℚ) := (F.rows.drop lo).take (hi - lo)

theorem iloc_toDataFrame (F : RatFrame) (lo hi : ℕ) :
    F.toDataFrame.iloc lo hi = (F.slice lo hi).map ratRow := by
  simp [DataFrame.iloc, toDataFrame, slice, List.map_take, List.map_drop]

/-- A slice that ends inside the old rows does not see the new ones. -/
theorem iloc_readjust (F : RatFrame) (k : ℚ) (more : List Row) {lo hi : ℕ}
    (hlo : lo ≤ hi) (hhi : hi ≤ F.rows.length) :
    (F.readjust k more).iloc lo hi = (F.slice lo hi).map fun r => ratRow fun c => k * r c := by
  have hlen : hi - lo ≤ ((F.rows.map fun r => ratRow fun c => k * r c).drop lo).length := by
    simp only [List.length_drop, List.length_map]
    omega
  rw [DataFrame.iloc, readjust, List.drop_append_of_le_length (by simp; omega),
    List.take_append_of_le_length hlen, slice, List.map_take, List.map_drop]

theorem slice_ne_nil (F : RatFrame) {lo hi : ℕ} (hlo : lo < hi) (hhi : hi ≤ F.rows.length) :
    F.slice lo hi ≠ [] := by
  apply List.ne_nil_of_length_pos
  rw [slice, List.length_take, List.length_drop]
  omega

theorem pos_of_mem_slice (F : RatFrame) {lo hi : ℕ} {r : Col → ℚ} (hr : r ∈ F.slice lo hi)
    (c : Col) : 0 < r c :=
  F.pos r (List.mem_of_mem_drop (List.mem_of_mem_take hr)) c

end RatFrame

/-- The label is read off ratios, so a unit does not matter. -/
theorem labelOf_scale {k c : ℚ} (hk : 0 < k) (hc : 0 < c) {rows : List (Col → ℚ)}
    (hne : rows ≠ []) :
    labelOf (fin (k * c)) (rows.map fun r => ratRow fun col => k * r col) =
      labelOf (fin c) (rows.map ratRow) := by
  obtain ⟨hi, -, hhi⟩ := Flt.exists_max_fin (rows.map fun r => r .High) (by simpa using hne)
  obtain ⟨lo, -, hlo⟩ := Flt.exists_min_fin (rows.map fun r => r .Low) (by simpa using hne)
  have hmono : Monotone fun x : ℚ => k * x := fun x y hxy => mul_le_mul_of_nonneg_left hxy hk.le
  have hhi' := Flt.isGreatest_map hmono hhi
  have hlo' := Flt.isLeast_map hmono hlo
  rw [List.map_map] at hhi' hlo'
  have hmove : ∀ x : ℚ, (k * x - k * c) / (k * c) = (x - c) / c := fun x => by
    rw [← mul_sub, mul_div_mul_left _ _ hk.ne']
  have hscaled := labelOf_rat (rows.map fun r col => k * r col) (mul_pos hk hc).ne'
    (by rw [List.map_map]; exact hhi') (by rw [List.map_map]; exact hlo')
  rw [List.map_map] at hscaled
  rw [labelOf_rat rows hc.ne' hhi hlo, ← hmove hi, ← hmove lo]
  exact hscaled

section Stability

variable {cfg : Config} (F : RatFrame) {k : ℚ} (more : List Row) {i : ℕ}

/-- An old window has its old label. -/
theorem labelAt_readjust (hk : 0 < k) (hi : i + cfg.windowSize + 5 ≤ F.rows.length) :
    labelAt cfg (F.readjust k more) i = labelAt cfg F.toDataFrame i := by
  have hpos := cfg.windowSize_pos
  have hw : F.slice i (i + cfg.windowSize) ≠ [] := F.slice_ne_nil (by omega) (by omega)
  have hf : F.slice (i + cfg.windowSize) (i + cfg.windowSize + 5) ≠ [] :=
    F.slice_ne_nil (by omega) hi
  simp only [labelAt, window, futureWindow]
  rw [F.iloc_readjust k more (by omega) (by omega), F.iloc_readjust k more (by omega) hi,
    F.iloc_toDataFrame, F.iloc_toDataFrame, List.getLast?_map, List.getLast?_map,
    List.getLast?_eq_some_getLast hw]
  have hclose := F.pos_of_mem_slice (List.getLast_mem hw) .Close
  exact congrArg Except.ok (labelOf_scale hk hclose hf)

/-- And its old chart. -/
theorem normalise_readjust (hk : 0 < k) (hi : i + cfg.windowSize + 5 ≤ F.rows.length) :
    normalise (window cfg (F.readjust k more) i) = normalise (window cfg F.toDataFrame i) := by
  rw [window, window, F.iloc_readjust k more (by omega) (by omega), F.iloc_toDataFrame,
    normalise_scale hk]

/-- **Nothing read off an old window changes.** Every index enumerated before is enumerated after,
with the same label, the same chart in all four columns, and the same file. -/
theorem stable_under_readjust (hk : 0 < k) (indices : List ℕ)
    (h : tickerIndices cfg F.toDataFrame = some indices) :
    ∃ indices', tickerIndices cfg (F.readjust k more) = some indices' ∧ ∀ i ∈ indices,
      i ∈ indices' ∧
      labelAt cfg (F.readjust k more) i = labelAt cfg F.toDataFrame i ∧
      normalise (window cfg (F.readjust k more) i) = normalise (window cfg F.toDataFrame i) ∧
      ∀ split ticker, imageAt cfg split ticker (F.readjust k more) i =
        imageAt cfg split ticker F.toDataFrame i := by
  obtain ⟨hlen, hcols, -⟩ := tickerIndices_eq_some h
  rw [F.toDataFrame_len] at hlen
  have hsome := @tickerIndices_of_long cfg (F.readjust k more) hcols
    (by rw [F.readjust_len]; omega)
  refine ⟨_, hsome, fun i hi => ?_⟩
  have hin := (mem_tickerIndices h).mp hi
  rw [F.toDataFrame_len] at hin
  have hlabel := labelAt_readjust F more hk hin.le
  refine ⟨(mem_tickerIndices hsome).mpr (by rw [F.readjust_len]; omega), hlabel,
    normalise_readjust F more hk hin.le, fun split ticker => ?_⟩
  rw [imageAt, imageAt, hlabel]

end Stability

/-- A price that rises by one a day. -/
def RatFrame.rising (n : ℕ) : RatFrame where
  columns := requiredCols
  rows := (List.range n).map fun (d : ℕ) _ => (d : ℚ) + 1
  pos r hr c := by
    obtain ⟨d, -, rfl⟩ := List.mem_map.mp hr
    exact Nat.cast_add_one_pos d

/-- Ten more days, at one price. -/
def tenDays : List Row := List.replicate 10 fun _ => fin 14

theorem stable_under_readjust_half :
    ∃ indices', tickerIndices (Config.script "/root")
        ((RatFrame.rising 40).readjust (1 / 2) tenDays) = some indices' ∧
      ∀ i ∈ List.range 5, i ∈ indices' ∧
      labelAt (Config.script "/root") ((RatFrame.rising 40).readjust (1 / 2) tenDays) i =
        labelAt (Config.script "/root") (RatFrame.rising 40).toDataFrame i ∧
      normalise (window (Config.script "/root") ((RatFrame.rising 40).readjust (1 / 2) tenDays) i) =
        normalise (window (Config.script "/root") (RatFrame.rising 40).toDataFrame i) ∧
      ∀ split ticker,
        imageAt (Config.script "/root") split ticker
            ((RatFrame.rising 40).readjust (1 / 2) tenDays) i =
          imageAt (Config.script "/root") split ticker (RatFrame.rising 40).toDataFrame i :=
  stable_under_readjust (RatFrame.rising 40) tenDays (by norm_num) (List.range 5)
    (@tickerIndices_of_long (Config.script "/root") _ mem_requiredCols (by decide))

end StockCharts
