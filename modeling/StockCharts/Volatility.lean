import StockCharts.Fetch
import StockCharts.Lib.Scale
import StockCharts.Stability

/-!
# Labels by volatility

Three earlier versions of the generator label a window by the moves of the next five days as the
committed one does, against a threshold of its own: one and a half times the **average true range**
of the window over its last close, and 2 % at least. They differ in one expression, the distance of
a high from the close of the day before.

* The threshold is a ratio as the moves are, so a later download, in another unit and with more
  days, has the same labels, for all prices there can be (`volatilityLabelAt_rescale`; for the
  committed labels, `labelAt_rescale`).
* **The first version has no distance**: its conditional answers with the shifted closes
  themselves. A true range is then as large as a price, and a label other than `hold` asks for a
  move as large as the price and a half (`move_of_firstLabelAt`).
-/

set_option autoImplicit false

namespace StockCharts

open Flt (fin)

/-! ## The threshold -/

/-- `Series.shift()`: each value one day later, and none on the first. -/
def shift (xs : List Price) : List Price := (Flt.nan :: xs).dropLast

def highClose (window : List Row) : List Price :=
  -- `np.abs(window['High'] - window['Close'].shift())`.
  List.zipWith (fun h c => Flt.abs (h - c)) (column window .High) (shift (column window .Close))

def firstHighClose (window : List Row) : List Price :=
  -- `np.abs(window['High'] - window['Shift'] if 'Shift' in window else window['Close'].shift())`,
  -- where no frame has a column `Shift`.
  (shift (column window .Close)).map Flt.abs

def trueRange (highClose : List Row → List Price) (window : List Row) : List Price :=
  List.zipWith Flt.maximum
    (List.zipWith (· - ·) (column window .High) (column window .Low)) (highClose window)

def atrThreshold (highClose : List Row → List Price) (window : List Row) (close : Price) : Price :=
  Flt.mean (trueRange highClose window) / close * fin 1.5

/-- `max(0.02, atr_threshold)`, which is `0.02` where the second is not a number. -/
def atLeast (atr : Price) : Price := if fin 0.02 < atr then atr else fin 0.02

/-- The two tests, at a threshold. -/
def labelAbove (θ maxGain maxLoss : Price) : Label :=
  if θ < maxGain ∧ Flt.abs maxLoss < maxGain then .buy
  else if maxLoss < -θ ∧ maxGain < Flt.abs maxLoss then .sell
  else .hold

def labelOfAbove (θ currentPrice : Price) (future : List Row) : Label :=
  let futureMax := Flt.max (column future .High)
  let futureMin := Flt.min (column future .Low)
  let maxGain := (futureMax - currentPrice) / currentPrice
  let maxLoss := (futureMin - currentPrice) / currentPrice
  labelAbove θ maxGain maxLoss

def volatilityLabelAt (highClose : List Row → List Price) (cfg : Config) (df : DataFrame) (i : ℕ) :
    Except PyError Label :=
  match (window cfg df i).getLast? with
  | none => .error .indexError
  | some row =>
    let θ := atLeast (atrThreshold highClose (window cfg df i) (row .Close))
    .ok (labelOfAbove θ (row .Close) (futureWindow cfg df i))

def adaptiveLabelAt : Config → DataFrame → ℕ → Except PyError Label := volatilityLabelAt highClose

def firstLabelAt : Config → DataFrame → ℕ → Except PyError Label := volatilityLabelAt firstHighClose

/-! ## In another unit -/

def scaleRow (k : ℚ) (r : Row) : Row := fun c => Flt.scale k (r c)

/-- The frame of a later download: the prices in another unit, and some more days. -/
def DataFrame.rescale (df : DataFrame) (k : ℚ) (more : List Row) : DataFrame :=
  ⟨df.columns, df.rows.map (scaleRow k) ++ more⟩

section Rescale

variable {k : ℚ} {rows : List Row} {df : DataFrame} {cfg : Config} {i : ℕ}

theorem column_scaleRow (rows : List Row) (c : Col) :
    column (rows.map (scaleRow k)) c = (column rows c).map (Flt.scale k) := by
  simp [column, scaleRow, Function.comp_def]

/-- A slice that ends inside the old rows, in the new unit. -/
theorem iloc_rescale (more : List Row) {lo hi : ℕ} (hlo : lo ≤ hi) (hhi : hi ≤ df.len) :
    (df.rescale k more).iloc lo hi = (df.iloc lo hi).map (scaleRow k) := by
  unfold DataFrame.len at hhi
  have hdrop : lo ≤ (df.rows.map (scaleRow k)).length := by
    rw [List.length_map]
    omega
  have htake : hi - lo ≤ ((df.rows.map (scaleRow k)).drop lo).length := by
    rw [List.length_drop, List.length_map]
    omega
  rw [DataFrame.iloc, DataFrame.rescale, List.drop_append_of_le_length hdrop,
    List.take_append_of_le_length htake, DataFrame.iloc, List.map_take, List.map_drop]

theorem shift_scale (xs : List Price) :
    shift (xs.map (Flt.scale k)) = (shift xs).map (Flt.scale k) := by
  rw [shift, shift, List.map_dropLast, List.map_cons, Flt.scale_nan]

theorem highClose_scale (hk : 0 < k) (rows : List Row) :
    highClose (rows.map (scaleRow k)) = (highClose rows).map (Flt.scale k) := by
  rw [highClose, highClose, column_scaleRow, column_scaleRow, shift_scale, List.zipWith_map,
    List.map_zipWith]
  simp only [Flt.scale_sub hk, Flt.scale_abs hk]

theorem firstHighClose_scale (hk : 0 < k) (rows : List Row) :
    firstHighClose (rows.map (scaleRow k)) = (firstHighClose rows).map (Flt.scale k) := by
  rw [firstHighClose, firstHighClose, column_scaleRow, shift_scale, List.map_map, List.map_map]
  simp only [Function.comp_def, Flt.scale_abs hk]

/-- True ranges are prices: they go with the unit. -/
theorem trueRange_scale {highClose : List Row → List Price} (hk : 0 < k)
    (h : highClose (rows.map (scaleRow k)) = (highClose rows).map (Flt.scale k)) :
    trueRange highClose (rows.map (scaleRow k)) = (trueRange highClose rows).map (Flt.scale k) := by
  rw [trueRange, trueRange, column_scaleRow, column_scaleRow, h, List.zipWith_map]
  simp only [Flt.scale_sub hk]
  rw [← List.map_zipWith, List.zipWith_map, List.map_zipWith]
  simp only [Flt.scale_maximum hk]

/-- The threshold is a ratio of two of them: it does not. -/
theorem atrThreshold_scale {highClose : List Row → List Price} (hk : 0 < k)
    (h : highClose (rows.map (scaleRow k)) = (highClose rows).map (Flt.scale k)) (close : Price) :
    atrThreshold highClose (rows.map (scaleRow k)) (Flt.scale k close) =
      atrThreshold highClose rows close := by
  rw [atrThreshold, atrThreshold, trueRange_scale hk h, Flt.mean_scale hk, Flt.scale_div_scale hk]

/-- The committed label is the one at 1.5 %. -/
theorem labelOf_eq_above (p : Price) (future : List Row) :
    labelOf p future = labelOfAbove (fin 0.015) p future := rfl

theorem labelOfAbove_scale (hk : 0 < k) (θ p : Price) (future : List Row) :
    labelOfAbove θ (Flt.scale k p) (future.map (scaleRow k)) = labelOfAbove θ p future := by
  simp only [labelOfAbove, column_scaleRow, Flt.max_scale hk, Flt.min_scale hk, Flt.scale_sub hk,
    Flt.scale_div_scale hk]

theorem window_rescale (more : List Row) (hi : i + cfg.windowSize ≤ df.len) :
    window cfg (df.rescale k more) i = (window cfg df i).map (scaleRow k) :=
  iloc_rescale more (by omega) hi

theorem futureWindow_rescale (more : List Row) (hi : i + cfg.windowSize + 5 ≤ df.len) :
    futureWindow cfg (df.rescale k more) i = (futureWindow cfg df i).map (scaleRow k) :=
  iloc_rescale more (by omega) hi

/-- The committed labels have no unit either. -/
theorem labelAt_rescale (hk : 0 < k) (more : List Row) (hi : i + cfg.windowSize + 5 ≤ df.len) :
    labelAt cfg (df.rescale k more) i = labelAt cfg df i := by
  unfold labelAt
  rw [window_rescale more (by omega), futureWindow_rescale more hi, List.getLast?_map]
  cases (window cfg df i).getLast? with
  | none => rfl
  | some row =>
    simp only [Option.map_some]
    rw [show scaleRow k row .Close = Flt.scale k (row .Close) from rfl, labelOf_eq_above,
      labelOf_eq_above, labelOfAbove_scale hk]

/-- So neither does a label, whatever the distance, if that goes with the unit. -/
theorem volatilityLabelAt_of_scale {highClose : List Row → List Price} (hk : 0 < k)
    (h : ∀ rows, highClose (rows.map (scaleRow k)) = (highClose rows).map (Flt.scale k))
    (more : List Row) (hi : i + cfg.windowSize + 5 ≤ df.len) :
    volatilityLabelAt highClose cfg (df.rescale k more) i =
      volatilityLabelAt highClose cfg df i := by
  unfold volatilityLabelAt
  rw [window_rescale more (by omega), futureWindow_rescale more hi, List.getLast?_map]
  cases (window cfg df i).getLast? with
  | none => rfl
  | some row =>
    simp only [Option.map_some]
    rw [show scaleRow k row .Close = Flt.scale k (row .Close) from rfl, atrThreshold_scale hk (h _),
      labelOfAbove_scale hk]

/-- **Volatility labels have no unit**: a later download, re-adjusted by a factor and with more days,
has the same labels at the same positions, whichever prices it has and whichever are missing. -/
theorem volatilityLabelAt_rescale (hk : 0 < k) (df : DataFrame) (more : List Row)
    (hi : i + cfg.windowSize + 5 ≤ df.len) :
    adaptiveLabelAt cfg (df.rescale k more) i = adaptiveLabelAt cfg df i ∧
      firstLabelAt cfg (df.rescale k more) i = firstLabelAt cfg df i :=
  ⟨volatilityLabelAt_of_scale hk (highClose_scale hk) more hi,
    volatilityLabelAt_of_scale hk (firstHighClose_scale hk) more hi⟩

theorem volatilityLabelAt_rescale_half :
    adaptiveLabelAt (Config.quota 1) (threeWindows.rescale (1 / 2) tenDays) 0 =
        adaptiveLabelAt (Config.quota 1) threeWindows 0 ∧
      firstLabelAt (Config.quota 1) (threeWindows.rescale (1 / 2) tenDays) 0 =
        firstLabelAt (Config.quota 1) threeWindows 0 :=
  volatilityLabelAt_rescale (by norm_num) threeWindows tenDays (by decide)

end Rescale

/-! ## The first version -/

theorem sum_le_sum_zipWith_max {xs ys : List ℚ} (h : ys.length = xs.length) :
    ys.sum ≤ (List.zipWith max xs ys).sum := by
  induction xs generalizing ys with
  | nil =>
    rw [List.length_nil, List.length_eq_zero_iff] at h
    simp [h]
  | cons x xs ih =>
    cases ys with
    | nil => exact absurd h (by simp)
    | cons y ys =>
      rw [List.zipWith_cons_cons, List.sum_cons, List.sum_cons]
      exact add_le_add (le_max_right x y) (ih (Nat.succ.inj h))

theorem fin_le_atLeast {x y : ℚ} (h : x ≤ y) : fin x ≤ atLeast (fin y) := by
  unfold atLeast
  split
  · exact h
  · rename_i hy
    have hy' : ¬ (0.02 : ℚ) < y := hy
    exact h.trans (not_lt.mp hy')

theorem lt_of_labelAbove_buy {θ g m : Price} (h : labelAbove θ g m = .buy) : θ < g := by
  unfold labelAbove at h
  split at h
  · rename_i hbuy
    exact hbuy.1
  · split at h <;> exact absurd h (by simp)

theorem lt_of_labelAbove_sell {θ g m : Price} (h : labelAbove θ g m = .sell) : m < -θ := by
  unfold labelAbove at h
  split at h
  · exact absurd h (by simp)
  · split at h
    · rename_i hsell
      exact hsell.1
    · exact absurd h (by simp)

/-- The closes of the days of a window before its last. -/
def earlierCloses (rows : List (Col → ℚ)) : List ℚ := rows.dropLast.map fun r => r .Close

/-- The true ranges of the first version: none on the first day, and on each other day at least the
close of the day before. -/
theorem trueRange_firstHighClose (r : Col → ℚ) (rows : List (Col → ℚ)) :
    trueRange firstHighClose ((r :: rows).map ratRow) =
      Flt.nan :: (List.zipWith max (rows.map fun r => r .High - r .Low)
        ((earlierCloses (r :: rows)).map abs)).map fin := by
  have hshift : shift (column ((r :: rows).map ratRow) .Close) =
      Flt.nan :: (earlierCloses (r :: rows)).map fin := by
    rw [column_ratRow, shift, List.dropLast_cons_of_ne_nil (by simp), earlierCloses,
      ← List.map_dropLast, ← List.map_dropLast]
  have hrange : List.zipWith (· - ·) (column ((r :: rows).map ratRow) .High)
      (column ((r :: rows).map ratRow) .Low) =
        fin (r .High - r .Low) :: (rows.map fun r => r .High - r .Low).map fin := by
    rw [column_ratRow, column_ratRow]
    simp [List.zipWith_map, List.zipWith_self]
  rw [trueRange, firstHighClose, hshift, hrange, List.map_cons, List.zipWith_cons_cons,
    List.map_zipWith]
  simp only [List.zipWith_map_left, List.zipWith_map_right, Flt.abs_fin, Flt.maximum_fin]
  rfl

def meanEarlierClose (rows : List (Col → ℚ)) : ℚ :=
  (earlierCloses rows).sum / (earlierCloses rows).length

/-- The average true range of the first version is at least the mean of the earlier closes. -/
theorem exists_mean_trueRange {r : Col → ℚ} {rows : List (Col → ℚ)} (hrows : rows ≠ []) :
    ∃ μ, Flt.mean (trueRange firstHighClose ((r :: rows).map ratRow)) = fin μ ∧
      meanEarlierClose (r :: rows) ≤ μ := by
  set closes := earlierCloses (r :: rows) with hcloses
  set ranges := List.zipWith max (rows.map fun r => r .High - r .Low) (closes.map abs) with hranges
  have hlen : closes.length = rows.length := by simp [hcloses, earlierCloses]
  have hlen' : ranges.length = closes.length := by simp [hranges, hlen]
  have hne : ranges ≠ [] := by
    rw [← List.length_pos_iff, hlen', hlen]
    exact List.length_pos_iff.mpr hrows
  have habs : closes.sum ≤ (closes.map abs).sum := by
    have h := List.sum_le_sum (l := closes) (f := id) (g := abs) fun x _ => le_abs_self x
    rwa [List.map_id] at h
  have hsum : closes.sum ≤ ranges.sum := habs.trans (sum_le_sum_zipWith_max (by simp [hlen]))
  refine ⟨ranges.sum / ranges.length, ?_, ?_⟩
  · rw [trueRange_firstHighClose, Flt.mean_nan_cons, Flt.mean_fin hne]
  · rw [hlen']
    exact div_le_div_of_nonneg_right hsum (Nat.cast_nonneg _)

/-- The first threshold is at least one and a half times the mean of the earlier closes, over the
last one. -/
theorem le_firstThreshold {rows : List (Col → ℚ)} {p : ℚ} (hne : rows ≠ []) (hp : 0 < p) :
    fin (1.5 * meanEarlierClose rows / p) ≤
      atLeast (atrThreshold firstHighClose (rows.map ratRow) (fin p)) := by
  obtain ⟨r, rows, rfl⟩ := List.exists_cons_of_ne_nil hne
  by_cases hrows : rows = []
  · -- there is one day, and no close before it
    subst hrows
    have hzero : 1.5 * meanEarlierClose [r] / p = 0 := by simp [meanEarlierClose, earlierCloses]
    have hmin : (0 : ℚ) ≤ 0.02 := by norm_num
    rw [hzero]
    exact hmin
  · obtain ⟨μ, hμ, hle⟩ := @exists_mean_trueRange r rows hrows
    rw [atrThreshold, hμ, Flt.fin_div_fin hp.ne', Flt.fin_mul_fin]
    apply fin_le_atLeast
    calc 1.5 * meanEarlierClose (r :: rows) / p
        = meanEarlierClose (r :: rows) / p * 1.5 := by ring
      _ ≤ μ / p * 1.5 := by gcongr

theorem labelOfAbove_rat {c hi lo : ℚ} (θ : Price) (rows : List (Col → ℚ)) (hc : c ≠ 0)
    (hhi : IsGreatest {x | x ∈ rows.map fun r => r .High} hi)
    (hlo : IsLeast {x | x ∈ rows.map fun r => r .Low} lo) :
    labelOfAbove θ (fin c) (rows.map ratRow) =
      labelAbove θ (fin ((hi - c) / c)) (fin ((lo - c) / c)) := by
  simp only [labelOfAbove, column_ratRow, Flt.max_fin hhi, Flt.min_fin hlo, Flt.fin_sub_fin,
    Flt.fin_div_fin hc]

/-- **What a label of the first version asks for**: a `buy` a high above the last close by one and a
half times the mean of the closes before it, and a `sell` a last close above that. -/
theorem move_of_firstLabelAt {cfg : Config} (F : RatFrame) {i : ℕ}
    (hi : i + cfg.windowSize + 5 ≤ F.rows.length) {last : Col → ℚ}
    (hlast : (F.slice i (i + cfg.windowSize)).getLast? = some last) :
    let m := meanEarlierClose (F.slice i (i + cfg.windowSize))
    (firstLabelAt cfg F.toDataFrame i = .ok .buy →
      ∃ r ∈ F.slice (i + cfg.windowSize) (i + cfg.windowSize + 5),
        last .Close + 1.5 * m < r .High) ∧
      (firstLabelAt cfg F.toDataFrame i = .ok .sell → 1.5 * m < last .Close) := by
  have hpos := cfg.windowSize_pos
  set rows := F.slice i (i + cfg.windowSize) with hrows
  set future := F.slice (i + cfg.windowSize) (i + cfg.windowSize + 5) with hfuture
  have hne : rows ≠ [] := F.slice_ne_nil (by omega) (by omega)
  have hp : 0 < last .Close := F.pos_of_mem_slice (List.mem_of_getLast? hlast) .Close
  have hfne : future ≠ [] := F.slice_ne_nil (by omega) hi
  obtain ⟨hi', -, hhi⟩ := Flt.exists_max_fin (future.map fun r => r .High) (by simpa using hfne)
  obtain ⟨lo, -, hlo⟩ := Flt.exists_min_fin (future.map fun r => r .Low) (by simpa using hfne)
  set θ := atLeast (atrThreshold firstHighClose (rows.map ratRow) (fin (last .Close))) with hθ
  have hle : fin (1.5 * meanEarlierClose rows / last .Close) ≤ θ := le_firstThreshold hne hp
  have hlabel : firstLabelAt cfg F.toDataFrame i =
      .ok (labelAbove θ (fin ((hi' - last .Close) / last .Close))
        (fin ((lo - last .Close) / last .Close))) := by
    have hw : window cfg F.toDataFrame i = rows.map ratRow := F.iloc_toDataFrame _ _
    have hf : futureWindow cfg F.toDataFrame i = future.map ratRow := F.iloc_toDataFrame _ _
    unfold firstLabelAt volatilityLabelAt
    rw [hw, hf, List.getLast?_map, hlast]
    exact congrArg Except.ok (labelOfAbove_rat θ future hp.ne' hhi hlo)
  rw [hlabel, Except.ok.injEq, Except.ok.injEq]
  constructor
  · intro hbuy
    have hlt := Flt.lt_of_le_lt hle (lt_of_labelAbove_buy hbuy)
    rw [Flt.fin_lt_fin, div_lt_div_iff_of_pos_right hp] at hlt
    obtain ⟨r, hr, hrhi⟩ := List.mem_map.mp hhi.1
    exact ⟨r, hr, by linarith⟩
  · intro hsell
    have hlt := Flt.lt_of_lt_le (lt_of_labelAbove_sell hsell) (Flt.neg_le_neg_of_le hle)
    rw [Flt.neg_fin, Flt.fin_lt_fin, ← neg_div, div_lt_div_iff_of_pos_right hp] at hlt
    obtain ⟨r, hr, hrlo⟩ := List.mem_map.mp hlo.1
    have hlow : 0 < r .Low := F.pos_of_mem_slice hr .Low
    linarith

def leapDay (n : ℕ) : Col → ℚ
  | .High => if n = 30 then 3 else 1
  | _ => 1

/-- A still price, and one high of three times that. -/
def leap : RatFrame where
  columns := requiredCols
  rows := (List.range 36).map leapDay
  pos r hr c := by
    obtain ⟨n, -, rfl⟩ := List.mem_map.mp hr
    cases c with
    | High =>
      show (0 : ℚ) < if n = 30 then 3 else 1
      split <;> norm_num
    | Open => exact one_pos
    | Low => exact one_pos
    | Close => exact one_pos

theorem move_of_firstLabelAt_leap :
    ∃ r ∈ leap.slice 30 35, leapDay 29 .Close + 1.5 * meanEarlierClose (leap.slice 0 30) < r .High :=
  (@move_of_firstLabelAt (Config.quota 1) leap 0 (by decide) (leapDay 29) rfl).1 (by decide +kernel)

end StockCharts
