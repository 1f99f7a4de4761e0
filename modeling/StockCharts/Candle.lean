import StockCharts.Normalize

/-!
# When a normalised window is still a window of candles

The statement the renderer relies on when it is asked for `type='candle'`: every row has its low
below its body and its high above it, and a day is drawn up, down or level as it was. `Ranges` is
what the four rescalings are determined by, and the argument is about the rows in which a column
takes its extremes: where the low is at its top, everything above it is at its top as well.
-/

set_option autoImplicit false

namespace StockCharts

open Flt (fin)

/-- A trading day with its low below and its high above the body. -/
structure Candle where
  prices : Col → ℚ
  low_le_open : prices .Low ≤ prices .Open
  open_le_high : prices .Open ≤ prices .High
  low_le_close : prices .Low ≤ prices .Close
  close_le_high : prices .Close ≤ prices .High

def drawn (w : List Candle) : List Row := normalise (w.map fun b => ratRow b.prices)

def KeptBy (b : Candle) (r : Row) : Prop :=
  (r .Low ≤ r .Open ∧ r .Open ≤ r .High ∧ r .Low ≤ r .Close ∧ r .Close ≤ r .High) ∧
    (r .Open < r .Close ↔ b.prices .Open < b.prices .Close) ∧
    (r .Close < r .Open ↔ b.prices .Close < b.prices .Open)

def CandlesKept (w : List Candle) : Prop := ∀ p ∈ w.zip (drawn w), KeptBy p.1 p.2

instance (b : Candle) (r : Row) : Decidable (KeptBy b r) :=
  inferInstanceAs (Decidable (_ ∧ _ ∧ _))

instance (w : List Candle) : Decidable (CandlesKept w) :=
  inferInstanceAs (Decidable (∀ p ∈ w.zip (drawn w), KeptBy p.1 p.2))

/-- The least and the greatest value of each column over a window. -/
structure Ranges (w : List Candle) where
  lo : Col → ℚ
  hi : Col → ℚ
  least : ∀ c, IsLeast {x | x ∈ w.map fun b => b.prices c} (lo c)
  greatest : ∀ c, IsGreatest {x | x ∈ w.map fun b => b.prices c} (hi c)

theorem exists_ranges {w : List Candle} (hne : w ≠ []) : Nonempty (Ranges w) := by
  have hcols : ∀ c, w.map (fun b => b.prices c) ≠ [] := fun c => by simpa using hne
  choose lo hi hlo hhi using fun c => Flt.exists_extremes _ (hcols c)
  exact ⟨⟨lo, hi, hlo, hhi⟩⟩

namespace Ranges

variable {w : List Candle} (r : Ranges w)

def scaled (b : Candle) (c : Col) : ℚ := normQ (r.lo c) (r.hi c) (b.prices c)

theorem lo_le {b : Candle} (hb : b ∈ w) (c : Col) : r.lo c ≤ b.prices c :=
  (r.least c).2 (List.mem_map.mpr ⟨b, hb, rfl⟩)

theorem le_hi {b : Candle} (hb : b ∈ w) (c : Col) : b.prices c ≤ r.hi c :=
  (r.greatest c).2 (List.mem_map.mpr ⟨b, hb, rfl⟩)

theorem exists_lo (c : Col) : ∃ b ∈ w, b.prices c = r.lo c := List.mem_map.mp (r.least c).1

theorem exists_hi (c : Col) : ∃ b ∈ w, b.prices c = r.hi c := List.mem_map.mp (r.greatest c).1

theorem lo_le_hi (c : Col) : r.lo c ≤ r.hi c := by
  obtain ⟨b, hb, hlo⟩ := r.exists_lo c
  rw [← hlo]
  exact r.le_hi hb c

/-- The window as it is drawn, by the ranges of its columns. -/
theorem drawn_eq : drawn w = w.map fun b => ratRow (r.scaled b) := by
  rw [drawn, normalise_eq_map, List.map_map]
  refine List.map_congr_left fun b _ => funext fun c => ?_
  have hcol : column (w.map fun b => ratRow b.prices) c = (w.map fun b => b.prices c).map fin := by
    simp [column, ratRow, Function.comp_def]
  show normCell (column _ c) (fin (b.prices c)) = _
  rw [hcol, normCell_fin (r.least c) (r.greatest c)]
  rfl

theorem candlesKept_iff_scaled : CandlesKept w ↔ ∀ b ∈ w, KeptBy b (ratRow (r.scaled b)) := by
  rw [CandlesKept, r.drawn_eq, ← List.map_prod_left_eq_zip]
  simp

/-! ### Columns that do not vary -/

/-- A column that does not vary is drawn at `50`. -/
theorem scaled_of_const {c : Col} (h : ¬ r.lo c < r.hi c) (b : Candle) : r.scaled b c = 50 := by
  rw [scaled, le_antisymm (r.lo_le_hi c) (not_lt.mp h), normQ_const]

theorem const_of_fifty_le {c : Col} (h : ∀ b ∈ w, 50 ≤ r.scaled b c) : ¬ r.lo c < r.hi c := by
  intro hlt
  obtain ⟨b, hb, hlo⟩ := r.exists_lo c
  have hle := h b hb
  rw [scaled, hlo, normQ_min hlt] at hle
  norm_num at hle

theorem const_of_le_fifty {c : Col} (h : ∀ b ∈ w, r.scaled b c ≤ 50) : ¬ r.lo c < r.hi c := by
  intro hlt
  obtain ⟨b, hb, hhi⟩ := r.exists_hi c
  have hle := h b hb
  rw [scaled, hhi, normQ_max hlt] at hle
  norm_num at hle

theorem prices_of_const {c : Col} (h : ¬ r.lo c < r.hi c) {b : Candle} (hb : b ∈ w) :
    b.prices c = r.lo c :=
  le_antisymm ((r.le_hi hb c).trans (not_lt.mp h)) (r.lo_le hb c)

/-! ### Rows at the top or the bottom of a scale -/

theorem eq_hi_of_hundred_le {c : Col} {b : Candle} (hb : b ∈ w) (h : 100 ≤ r.scaled b c) :
    r.lo c < r.hi c ∧ b.prices c = r.hi c := by
  have hlt : r.lo c < r.hi c := by
    by_contra hc
    rw [r.scaled_of_const hc] at h
    norm_num at h
  refine ⟨hlt, le_antisymm (r.le_hi hb c) (not_lt.mp fun hlt' => ?_)⟩
  rw [← normQ_lt_normQ_iff hlt, normQ_max hlt] at hlt'
  exact absurd h (not_le.mpr hlt')

theorem eq_lo_of_le_zero {c : Col} {b : Candle} (hb : b ∈ w) (h : r.scaled b c ≤ 0) :
    r.lo c < r.hi c ∧ b.prices c = r.lo c := by
  have hlt : r.lo c < r.hi c := by
    by_contra hc
    rw [r.scaled_of_const hc] at h
    norm_num at h
  refine ⟨hlt, le_antisymm (not_lt.mp fun hlt' => ?_) (r.lo_le hb c)⟩
  rw [← normQ_lt_normQ_iff hlt, normQ_min hlt] at hlt'
  exact absurd h (not_le.mpr hlt')

end Ranges

/-- Every column stands still, and the days are level. -/
def Still (w : List Candle) : Prop :=
  (∀ b ∈ w, ∀ b' ∈ w, b.prices = b'.prices) ∧ ∀ b ∈ w, b.prices .Open = b.prices .Close

/-- Every column varies, open and close span one range, and inside the ranges no low stands above
its body and no high below it. -/
def BodyOnOneScale (w : List Candle) : Prop :=
  ∃ r : Ranges w, (∀ c, r.lo c < r.hi c) ∧
    r.lo .Open = r.lo .Close ∧ r.hi .Open = r.hi .Close ∧
    ∀ b ∈ w,
      (b.prices .Low - r.lo .Low) * (r.hi .Open - r.lo .Open) ≤
        (min (b.prices .Open) (b.prices .Close) - r.lo .Open) * (r.hi .Low - r.lo .Low) ∧
      (max (b.prices .Open) (b.prices .Close) - r.lo .Open) * (r.hi .High - r.lo .High) ≤
        (b.prices .High - r.lo .High) * (r.hi .Open - r.lo .Open)

variable {w : List Candle}

/-! ## From well-drawn candles to the shape of the window -/

section Kept

variable (r : Ranges w) (hk : ∀ b ∈ w, KeptBy b (ratRow (r.scaled b)))
include hk

theorem low_le_body {b : Candle} (hb : b ∈ w) :
    r.scaled b .Low ≤ r.scaled b .Open ∧ r.scaled b .Low ≤ r.scaled b .Close :=
  ⟨(hk b hb).1.1, (hk b hb).1.2.2.1⟩

theorem body_le_high {b : Candle} (hb : b ∈ w) :
    r.scaled b .Open ≤ r.scaled b .High ∧ r.scaled b .Close ≤ r.scaled b .High :=
  ⟨(hk b hb).1.2.1, (hk b hb).1.2.2.2⟩

theorem level_of_scaled_eq {b : Candle} (hb : b ∈ w)
    (h : r.scaled b .Open = r.scaled b .Close) : b.prices .Open = b.prices .Close := by
  obtain ⟨-, hup, hdown⟩ := hk b hb
  have h₁ : ¬ b.prices .Open < b.prices .Close := fun hlt => by
    have := Flt.fin_lt_fin.mp (hup.mpr hlt)
    exact absurd h this.ne
  have h₂ : ¬ b.prices .Close < b.prices .Open := fun hlt => by
    have := Flt.fin_lt_fin.mp (hdown.mpr hlt)
    exact absurd h.symm this.ne
  exact le_antisymm (not_lt.mp h₂) (not_lt.mp h₁)

theorem still_of_const (hOpen : ¬ r.lo .Open < r.hi .Open) (hClose : ¬ r.lo .Close < r.hi .Close) :
    Still w := by
  have hbody : ∀ b, r.scaled b .Open = 50 ∧ r.scaled b .Close = 50 := fun b =>
    ⟨r.scaled_of_const hOpen b, r.scaled_of_const hClose b⟩
  have hLow : ¬ r.lo .Low < r.hi .Low := r.const_of_le_fifty fun b hb =>
    (low_le_body r hk hb).1.trans (hbody b).1.le
  have hHigh : ¬ r.lo .High < r.hi .High := r.const_of_fifty_le fun b hb =>
    (hbody b).1.ge.trans (body_le_high r hk hb).1
  have hconst : ∀ c, ¬ r.lo c < r.hi c := by
    intro c
    cases c with
    | Open => exact hOpen
    | High => exact hHigh
    | Low => exact hLow
    | Close => exact hClose
  refine ⟨fun b hb b' hb' => funext fun c => ?_, fun b hb => ?_⟩
  · rw [r.prices_of_const (hconst c) hb, r.prices_of_const (hconst c) hb']
  · exact level_of_scaled_eq r hk hb ((hbody b).1.trans (hbody b).2.symm)

/-- The row in which the low is greatest: open and close are greatest there too, and equal. -/
theorem hi_open_eq_hi_close (hLow : r.lo .Low < r.hi .Low) :
    (r.lo .Open < r.hi .Open ∧ r.lo .Close < r.hi .Close) ∧ r.hi .Open = r.hi .Close := by
  obtain ⟨b, hb, hhi⟩ := r.exists_hi .Low
  have htop : r.scaled b .Low = 100 := by rw [Ranges.scaled, hhi, normQ_max hLow]
  obtain ⟨hO, hC⟩ := low_le_body r hk hb
  rw [htop] at hO hC
  obtain ⟨hltO, heqO⟩ := r.eq_hi_of_hundred_le hb hO
  obtain ⟨hltC, heqC⟩ := r.eq_hi_of_hundred_le hb hC
  have hlevel : r.scaled b .Open = r.scaled b .Close := by
    rw [Ranges.scaled, Ranges.scaled, heqO, heqC, normQ_max hltO, normQ_max hltC]
  refine ⟨⟨hltO, hltC⟩, ?_⟩
  rw [← heqO, ← heqC]
  exact level_of_scaled_eq r hk hb hlevel

/-- The row in which the high is least: open and close are least there too, and equal. -/
theorem lo_open_eq_lo_close (hHigh : r.lo .High < r.hi .High) : r.lo .Open = r.lo .Close := by
  obtain ⟨b, hb, hlo⟩ := r.exists_lo .High
  have hbot : r.scaled b .High = 0 := by rw [Ranges.scaled, hlo, normQ_min hHigh]
  obtain ⟨hO, hC⟩ := body_le_high r hk hb
  rw [hbot] at hO hC
  obtain ⟨hltO, heqO⟩ := r.eq_lo_of_le_zero hb hO
  obtain ⟨hltC, heqC⟩ := r.eq_lo_of_le_zero hb hC
  have hlevel : r.scaled b .Open = r.scaled b .Close := by
    rw [Ranges.scaled, Ranges.scaled, heqO, heqC, normQ_min hltO, normQ_min hltC]
  rw [← heqO, ← heqC]
  exact level_of_scaled_eq r hk hb hlevel

/-- Kept candles force one of the two shapes. -/
theorem shape_of_kept : Still w ∨ BodyOnOneScale w := by
  by_cases hLow : r.lo .Low < r.hi .Low
  · by_cases hHigh : r.lo .High < r.hi .High
    · obtain ⟨⟨hO, hC⟩, hhi⟩ := hi_open_eq_hi_close r hk hLow
      have hlo := lo_open_eq_lo_close r hk hHigh
      refine Or.inr ⟨r, fun c => ?_, hlo, hhi, fun b hb => ?_⟩
      · cases c with
        | Open => exact hO
        | High => exact hHigh
        | Low => exact hLow
        | Close => exact hC
      · obtain ⟨h₁, h₂⟩ := low_le_body r hk hb
        obtain ⟨h₃, h₄⟩ := body_le_high r hk hb
        simp only [Ranges.scaled] at h₁ h₂ h₃ h₄
        rw [← hlo, ← hhi] at h₂ h₄
        rw [normQ_le_normQ_iff hLow hO] at h₁ h₂
        rw [normQ_le_normQ_iff hO hHigh] at h₃ h₄
        exact ⟨by rcases min_choice (b.prices .Open) (b.prices .Close) with h | h <;> rwa [h],
          by rcases max_choice (b.prices .Open) (b.prices .Close) with h | h <;> rwa [h]⟩
    · -- the high stands still at 50, so nothing above 50 is left for the body
      refine Or.inl (still_of_const r hk ?_ ?_)
      · exact r.const_of_le_fifty fun b hb =>
          (body_le_high r hk hb).1.trans (r.scaled_of_const hHigh b).le
      · exact r.const_of_le_fifty fun b hb =>
          (body_le_high r hk hb).2.trans (r.scaled_of_const hHigh b).le
  · refine Or.inl (still_of_const r hk ?_ ?_)
    · exact r.const_of_fifty_le fun b hb =>
        (r.scaled_of_const hLow b).ge.trans (low_le_body r hk hb).1
    · exact r.const_of_fifty_le fun b hb =>
        (r.scaled_of_const hLow b).ge.trans (low_le_body r hk hb).2

end Kept

/-! ## … and back -/

/-- Each of the two keeps them. -/
theorem kept_of_still (h : Still w) : CandlesKept w := by
  by_cases hne : w = []
  · subst hne
    intro p hp
    simp at hp
  obtain ⟨r⟩ := exists_ranges hne
  have hconst : ∀ c, ¬ r.lo c < r.hi c := fun c => by
    obtain ⟨b, hb, hlo⟩ := r.exists_lo c
    obtain ⟨b', hb', hhi⟩ := r.exists_hi c
    rw [← hlo, ← hhi, h.1 b hb b' hb']
    exact lt_irrefl _
  refine r.candlesKept_iff_scaled.mpr fun b hb => ?_
  have hlevel := h.2 b hb
  simp [KeptBy, ratRow, r.scaled_of_const (hconst _), hlevel]

theorem kept_of_bodyOnOneScale (h : BodyOnOneScale w) : CandlesKept w := by
  obtain ⟨r, hlt, hlo, hhi, hrows⟩ := h
  refine r.candlesKept_iff_scaled.mpr fun b hb => ?_
  obtain ⟨hlow, hhigh⟩ := hrows b hb
  have hO := hlt .Open
  -- open and close are on one scale: both compare as before
  have hclose : r.scaled b .Close = normQ (r.lo .Open) (r.hi .Open) (b.prices .Close) := by
    rw [Ranges.scaled, ← hlo, ← hhi]
  have hbody : ∀ x, min (b.prices .Open) (b.prices .Close) ≤ x →
      x ≤ max (b.prices .Open) (b.prices .Close) →
      r.scaled b .Low ≤ normQ (r.lo .Open) (r.hi .Open) x ∧
        normQ (r.lo .Open) (r.hi .Open) x ≤ r.scaled b .High := fun x hmin hmax =>
    ⟨((normQ_le_normQ_iff (hlt .Low) hO).mpr hlow).trans (normQ_mono hO hmin),
      (normQ_mono hO hmax).trans ((normQ_le_normQ_iff hO (hlt .High)).mpr hhigh)⟩
  obtain ⟨h₁, h₂⟩ := hbody (b.prices .Open) (min_le_left _ _) (le_max_left _ _)
  obtain ⟨h₃, h₄⟩ := hbody (b.prices .Close) (min_le_right _ _) (le_max_right _ _)
  rw [← hclose] at h₃ h₄
  refine ⟨⟨h₁, h₂, h₃, h₄⟩, ?_, ?_⟩
  · show fin _ < fin (r.scaled b .Close) ↔ _
    rw [hclose]
    exact normQ_lt_normQ_iff hO
  · show fin (r.scaled b .Close) < fin _ ↔ _
    rw [hclose]
    exact normQ_lt_normQ_iff hO

/-- **Which windows are still candles after the normalisation.** Either nothing in the window
varies, or open and close span one range and every wick stays outside its body's place in it. -/
theorem candlesKept_iff : CandlesKept w ↔ Still w ∨ BodyOnOneScale w := by
  constructor
  · intro hk
    by_cases hne : w = []
    · exact Or.inl ⟨by simp [hne], by simp [hne]⟩
    · obtain ⟨r⟩ := exists_ranges hne
      exact shape_of_kept r (r.candlesKept_iff_scaled.mp hk)
  · rintro (h | h)
    · exact kept_of_still h
    · exact kept_of_bodyOnOneScale h

def upDay : Candle where
  prices
    | .Open | .Low => 1
    | .High | .Close => 2
  low_le_open := by decide +kernel
  open_le_high := by decide +kernel
  low_le_close := by decide +kernel
  close_le_high := by decide +kernel

def levelDay : Candle where
  prices
    | .Low => 1
    | .Open | .High | .Close => 2
  low_le_open := by decide +kernel
  open_le_high := by decide +kernel
  low_le_close := by decide +kernel
  close_le_high := by decide +kernel

/-- One up day and twenty-nine level ones: the high and the close do not vary and become 50, the
open becomes 100 on the level days, above the high. -/
theorem not_candlesKept_upDay : ¬ CandlesKept (upDay :: List.replicate 29 levelDay) := by
  decide +kernel

end StockCharts
