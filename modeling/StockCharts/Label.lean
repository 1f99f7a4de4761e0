import Mathlib.Algebra.Order.Field.Basic
import Mathlib.Tactic.Linarith
import Mathlib.Tactic.Ring
import StockCharts.Window

/-!
# The label of a window

`labelOf` is the script's labeller: the extremes of the next five days, as relative moves from the
window's last close, and two tests in a row. The tests look like mirror images and are not: `buy`
asks `max_gain > abs(max_loss)` and `sell` asks `abs(max_loss) > max_gain`, without an `abs` around
the gain. When every one of the five days lies below the close both moves are negative, and a
**flat** future, whose two moves are equal, is a `sell` on the way down and a `hold` on the way up.
`mirrored_iff` says that this is the only asymmetry there is.
-/

set_option autoImplicit false

namespace StockCharts

open Flt (fin)

/-- The two tests on `max_gain` and `max_loss`. -/
def labelOfMoves (maxGain maxLoss : Price) : Label :=
  if .fin 0.015 < maxGain ∧ Flt.abs maxLoss < maxGain then .buy
  else if maxLoss < .fin (-0.015) ∧ maxGain < Flt.abs maxLoss then .sell
  else .hold

def labelOf (currentPrice : Price) (future : List Row) : Label :=
  let futureMax := Flt.max (column future .High)
  let futureMin := Flt.min (column future .Low)
  let maxGain := (futureMax - currentPrice) / currentPrice
  let maxLoss := (futureMin - currentPrice) / currentPrice
  labelOfMoves maxGain maxLoss

/-- The label of the window at `i`: `window.iloc[-1]` raises on a window with no row. -/
def labelAt (cfg : Config) (df : DataFrame) (i : ℕ) : Except PyError Label :=
  match (window cfg df i).getLast? with
  | none => .error .indexError
  | some row => .ok (labelOf (row .Close) (futureWindow cfg df i))

/-- An enumerated window has a label, so the labeller never raises in the loops. -/
theorem labelAt_of_mem {cfg : Config} {df : DataFrame} {indices : List ℕ} {i : ℕ}
    (h : tickerIndices cfg df = some indices) (hi : i ∈ indices) :
    ∃ l, labelAt cfg df i = .ok l := by
  have hlen := window_length_of_mem h hi
  have hpos := cfg.windowSize_pos
  unfold labelAt
  cases hw : (window cfg df i).getLast? with
  | none =>
    rw [List.getLast?_eq_none_iff] at hw
    rw [hw] at hlen
    simp only [List.length_nil] at hlen
    omega
  | some row => exact ⟨_, rfl⟩

def imageAt (cfg : Config) (split : Split) (ticker : String) (df : DataFrame) (i : ℕ) :
    Except PyError Image :=
  (labelAt cfg df i).map fun l => ⟨split, l, filename ticker i⟩

/-! ## The labeller on days with no missing price -/

theorem labelOfMoves_fin (g l : ℚ) : labelOfMoves (fin g) (fin l) =
    if 0.015 < g ∧ |l| < g then .buy
    else if l < -0.015 ∧ g < |l| then .sell
    else .hold := by
  simp only [labelOfMoves, Flt.abs_fin, Flt.fin_lt_fin]

theorem labelOf_rat {c hi lo : ℚ} (rows : List (Col → ℚ)) (hc : c ≠ 0)
    (hhi : IsGreatest {x | x ∈ rows.map fun r => r .High} hi)
    (hlo : IsLeast {x | x ∈ rows.map fun r => r .Low} lo) :
    labelOf (fin c) (rows.map ratRow) =
      labelOfMoves (fin ((hi - c) / c)) (fin ((lo - c) / c)) := by
  simp only [labelOf, column_ratRow, Flt.max_fin hhi, Flt.min_fin hlo, Flt.fin_sub_fin,
    Flt.fin_div_fin hc]

/-! ## Gains against losses -/

def Label.mirror : Label → Label
  | .buy => .sell
  | .hold => .hold
  | .sell => .buy

/-- **The mirror law of the two tests.** Exchanging a gain with a loss exchanges the label, except
that equal moves beyond the threshold break the tie one way only. -/
theorem labelOfMoves_mirror_iff {g l : ℚ} (h : l ≤ g) :
    labelOfMoves (fin (-l)) (fin (-g)) = (labelOfMoves (fin g) (fin l)).mirror ↔
      ¬ (g = l ∧ 0.015 < |g|) := by
  rw [labelOfMoves_fin, labelOfMoves_fin, abs_neg]
  -- the signs decide both absolute values; in each case the two sides are linear
  rcases abs_cases g with ⟨hg, hg'⟩ | ⟨hg, hg'⟩ <;> rcases abs_cases l with ⟨hl, hl'⟩ | ⟨hl, hl'⟩ <;>
    rw [hg, hl] <;> split_ifs <;> simp only [Label.mirror, reduceCtorEq, true_iff, false_iff,
      not_and] <;> grind

structure Bar where
  prices : Col → ℚ
  low_le_high : prices .Low ≤ prices .High

/-- The day reflected about a price: its high is where its low was, and the other way round. -/
def Bar.reflect (c : ℚ) (b : Bar) : Bar where
  prices
    | .High => 2 * c - b.prices .Low
    | .Low => 2 * c - b.prices .High
    | col => 2 * c - b.prices col
  low_le_high := by
    show 2 * c - b.prices .High ≤ 2 * c - b.prices .Low
    linarith [b.low_le_high]

def futureRows (future : Fin 5 → Bar) : List Row :=
  (List.ofFn fun j => (future j).prices).map ratRow

def FlatAt (p : ℚ) (future : Fin 5 → Bar) : Prop :=
  ∀ j, (future j).prices .Low = p ∧ (future j).prices .High = p

def columnRange (c : Col) (future : Fin 5 → Bar) : Set ℚ := Set.range fun j => (future j).prices c

theorem setOf_mem_ofFn (c : Col) (future : Fin 5 → Bar) :
    {x | x ∈ (List.ofFn fun j => (future j).prices).map fun r => r c} = columnRange c future := by
  ext x
  show x ∈ (List.ofFn fun j => (future j).prices).map (fun r => r c) ↔ ∃ j, (future j).prices c = x
  simp only [List.mem_map, List.mem_ofFn, exists_exists_eq_and]

theorem labelOf_future {c hi lo : ℚ} {future : Fin 5 → Bar} (hc : c ≠ 0)
    (hhi : IsGreatest (columnRange .High future) hi)
    (hlo : IsLeast (columnRange .Low future) lo) :
    labelOf (fin c) (futureRows future) =
      labelOfMoves (fin ((hi - c) / c)) (fin ((lo - c) / c)) := by
  rw [← setOf_mem_ofFn] at hhi hlo
  exact labelOf_rat _ hc hhi hlo

theorem exists_extremes (future : Fin 5 → Bar) : ∃ hi lo,
    IsGreatest (columnRange .High future) hi ∧ IsLeast (columnRange .Low future) lo := by
  obtain ⟨hi, -, hhi⟩ := Flt.exists_max_fin
    ((List.ofFn fun j => (future j).prices).map fun r => r .High) (by simp)
  obtain ⟨lo, -, hlo⟩ := Flt.exists_min_fin
    ((List.ofFn fun j => (future j).prices).map fun r => r .Low) (by simp)
  rw [setOf_mem_ofFn] at hhi hlo
  exact ⟨hi, lo, hhi, hlo⟩

theorem antitone_reflect (c : ℚ) : Antitone fun x : ℚ => 2 * c - x := fun _ _ h =>
  sub_le_sub_left h _

/-- Reflecting the days turns their low into the new high. -/
theorem isGreatest_reflect {c lo : ℚ} {future : Fin 5 → Bar}
    (h : IsLeast (columnRange .Low future) lo) :
    IsGreatest (columnRange .High fun j => (future j).reflect c) (2 * c - lo) := by
  have himage := (antitone_reflect c).map_isLeast h
  rw [columnRange, ← Set.range_comp] at himage
  exact himage

theorem isLeast_reflect {c hi : ℚ} {future : Fin 5 → Bar}
    (h : IsGreatest (columnRange .High future) hi) :
    IsLeast (columnRange .Low fun j => (future j).reflect c) (2 * c - hi) := by
  have himage := (antitone_reflect c).map_isGreatest h
  rw [columnRange, ← Set.range_comp] at himage
  exact himage

theorem extremes_le {hi lo : ℚ} {future : Fin 5 → Bar}
    (hhi : IsGreatest (columnRange .High future) hi)
    (hlo : IsLeast (columnRange .Low future) lo) : lo ≤ hi :=
  (hlo.2 ⟨0, rfl⟩).trans ((future 0).low_le_high.trans (hhi.2 ⟨0, rfl⟩))

theorem extremes_eq_iff {hi lo p : ℚ} {future : Fin 5 → Bar}
    (hhi : IsGreatest (columnRange .High future) hi)
    (hlo : IsLeast (columnRange .Low future) lo) : (hi = p ∧ lo = p) ↔ FlatAt p future := by
  constructor
  · intro hext j
    obtain ⟨hhp, hlp⟩ := hext
    have h₁ : lo ≤ (future j).prices .Low := hlo.2 ⟨j, rfl⟩
    have h₂ : (future j).prices .High ≤ hi := hhi.2 ⟨j, rfl⟩
    have h₃ := (future j).low_le_high
    exact ⟨by linarith, by linarith⟩
  · intro hflat
    obtain ⟨j, hj⟩ := hhi.1
    obtain ⟨k, hk⟩ := hlo.1
    exact ⟨hj.symm.trans (hflat j).2, hk.symm.trans (hflat k).1⟩

/-- **The labeller treats gains and losses alike except on a flat future.** For a close `c > 0` and
five days after it, reflecting the days about `c` mirrors the label exactly when the days do not
all stand still at one price more than 1.5 % away from `c`. -/
theorem mirrored_iff {c : ℚ} (hc : 0 < c) (future : Fin 5 → Bar) :
    labelOf (fin c) (futureRows fun j => (future j).reflect c) =
        (labelOf (fin c) (futureRows future)).mirror ↔
      ¬ ∃ p, FlatAt p future ∧ 0.015 * c < |p - c| := by
  obtain ⟨hi, lo, hhi, hlo⟩ := exists_extremes future
  have hc0 : c ≠ 0 := hc.ne'
  have hgain : (2 * c - lo - c) / c = -((lo - c) / c) := by ring
  have hloss : (2 * c - hi - c) / c = -((hi - c) / c) := by ring
  have hmoves : (lo - c) / c ≤ (hi - c) / c :=
    div_le_div_of_nonneg_right (sub_le_sub_right (extremes_le hhi hlo) c) hc.le
  have habs : ∀ p : ℚ, 0.015 < |(p - c) / c| ↔ 0.015 * c < |p - c| := fun p => by
    rw [abs_div, abs_of_pos hc, lt_div_iff₀ hc]
  rw [labelOf_future hc0 hhi hlo, labelOf_future hc0 (isGreatest_reflect hlo) (isLeast_reflect hhi),
    hgain, hloss, labelOfMoves_mirror_iff hmoves]
  refine not_congr ⟨fun ⟨heq, hfar⟩ => ?_, fun ⟨p, hflat, hfar⟩ => ?_⟩
  · have hsame : hi = lo := by
      rw [div_left_inj' hc0] at heq
      linarith
    exact ⟨hi, (extremes_eq_iff hhi hlo).mp ⟨rfl, hsame.symm⟩, (habs hi).mp hfar⟩
  · obtain ⟨rfl, rfl⟩ := (extremes_eq_iff hhi hlo).mpr hflat
    exact ⟨rfl, (habs _).mpr hfar⟩

def Bar.still (p : ℚ) : Bar := ⟨fun _ => p, le_rfl⟩

theorem mirrored_iff_still :
    labelOf (fin 100) (futureRows fun _ => (Bar.still 101).reflect 100) =
        (labelOf (fin 100) (futureRows fun _ => Bar.still 101)).mirror ↔
      ¬ ∃ p, FlatAt p (fun _ => Bar.still 101) ∧ 0.015 * 100 < |p - 100| :=
  mirrored_iff (by norm_num) _

/-- Five days at 90 behind a close of 100 are a `sell`; their reflection, five days at 110, is a
`hold` and not a `buy`. -/
theorem not_mirrored_still :
    ¬ labelOf (fin 100) (futureRows fun _ => (Bar.still 90).reflect 100) =
        (labelOf (fin 100) (futureRows fun _ => Bar.still 90)).mirror := by
  decide +kernel

end StockCharts
