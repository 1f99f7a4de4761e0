import Mathlib.Tactic.Common
import StockCharts.Data

/-!
# Which windows a frame has

Three expressions of `fetch_and_generate_candlesticks` describe positions in a frame: the guard on
its length, the range of the indices that are shuffled, and the two slices taken at an index. The
slices at `i` are whole exactly when `i + WINDOW_SIZE + 5 ≤ len(df)`. The guard agrees with that:
it skips exactly the frames with no such `i`. **The range does not**: it stops one short, at
`i + WINDOW_SIZE + 5 < len(df)`, so the last position of every admitted frame is never enumerated,
and the shortest admitted frame, which has one position, enumerates none.
-/

set_option autoImplicit false

namespace StockCharts

/-- The guards and the range: `none` where the ticker is skipped (`continue`), otherwise the list
`indices` before it is shuffled. -/
def tickerIndices (cfg : Config) (df : DataFrame) : Option (List ℕ) :=
  if df.empty = true ∨ df.len < cfg.windowSize + 5 then none
  else if ∀ c ∈ requiredCols, c ∈ df.columns then
    some (List.range (df.len - cfg.windowSize - 5))
  else none

def window (cfg : Config) (df : DataFrame) (i : ℕ) : List Row :=
  -- `df.iloc[i:i+WINDOW_SIZE]`.
  df.iloc i (i + cfg.windowSize)

def futureWindow (cfg : Config) (df : DataFrame) (i : ℕ) : List Row :=
  -- `df.iloc[i+WINDOW_SIZE : i+WINDOW_SIZE+5]`.
  df.iloc (i + cfg.windowSize) (i + cfg.windowSize + 5)

variable {cfg : Config} {df : DataFrame} {i : ℕ} {indices : List ℕ}

/-! ## The guards and the range -/

theorem tickerIndices_of_short (h : df.len < cfg.windowSize + 5) : tickerIndices cfg df = none :=
  if_pos (Or.inr h)

theorem tickerIndices_of_long (hcols : ∀ c, c ∈ df.columns) (h : cfg.windowSize + 5 ≤ df.len) :
    tickerIndices cfg df = some (List.range (df.len - cfg.windowSize - 5)) := by
  have hlen : 0 < df.rows.length := by unfold DataFrame.len at h; omega
  have hempty : ¬ (df.empty = true ∨ df.len < cfg.windowSize + 5) := by
    rintro (he | hs)
    · rw [DataFrame.empty, List.isEmpty_iff] at he
      rw [he] at hlen
      simp at hlen
    · omega
  rw [tickerIndices, if_neg hempty, if_pos fun c _ => hcols c]

theorem tickerIndices_eq_some (h : tickerIndices cfg df = some indices) :
    cfg.windowSize + 5 ≤ df.len ∧ (∀ c, c ∈ df.columns) ∧
      indices = List.range (df.len - cfg.windowSize - 5) := by
  unfold tickerIndices at h
  split at h
  · exact absurd h (by simp)
  · rename_i hg
    split at h
    · rename_i hcols
      rw [Option.some.injEq] at h
      push Not at hg
      exact ⟨hg.2, fun c => hcols c (mem_requiredCols c), h.symm⟩
    · exact absurd h (by simp)

/-- The range, as a condition on the index. -/
theorem mem_tickerIndices (h : tickerIndices cfg df = some indices) :
    i ∈ indices ↔ i + cfg.windowSize + 5 < df.len := by
  obtain ⟨_, _, rfl⟩ := tickerIndices_eq_some h
  rw [List.mem_range]
  omega

theorem nodup_tickerIndices (h : tickerIndices cfg df = some indices) : indices.Nodup := by
  obtain ⟨_, _, rfl⟩ := tickerIndices_eq_some h
  exact List.nodup_range

/-! ## The slices -/

theorem window_length (h : i + cfg.windowSize ≤ df.len) :
    (window cfg df i).length = cfg.windowSize := by
  rw [window, DataFrame.iloc_length_of_le h]
  omega

theorem futureWindow_length (h : i + cfg.windowSize + 5 ≤ df.len) :
    (futureWindow cfg df i).length = 5 := by
  rw [futureWindow, DataFrame.iloc_length_of_le h]
  omega

theorem window_append_futureWindow :
    window cfg df i ++ futureWindow cfg df i = df.iloc i (i + cfg.windowSize + 5) := by
  have h₁ : i + cfg.windowSize - i = cfg.windowSize := by omega
  have h₂ : i + cfg.windowSize + 5 - (i + cfg.windowSize) = 5 := by omega
  have h₃ : i + cfg.windowSize + 5 - i = cfg.windowSize + 5 := by omega
  rw [window, futureWindow, DataFrame.iloc, DataFrame.iloc, DataFrame.iloc, h₁, h₂, h₃,
    List.take_add, List.drop_drop]

theorem window_length_of_mem (h : tickerIndices cfg df = some indices) (hi : i ∈ indices) :
    (window cfg df i).length = cfg.windowSize := by
  have := (mem_tickerIndices h).mp hi
  exact window_length (by omega)

theorem futureWindow_length_of_mem (h : tickerIndices cfg df = some indices) (hi : i ∈ indices) :
    (futureWindow cfg df i).length = 5 := by
  have := (mem_tickerIndices h).mp hi
  exact futureWindow_length (by omega)

/-! ## Do the guard, the range and the slices agree? -/

/-- The ticker is skipped exactly when no position has a whole chart and a whole future behind it;
otherwise the indices are exactly those positions, and at each of them the slices are whole,
adjacent and inside the frame. -/
structure IndicesAgree (cfg : Config) (df : DataFrame) : Prop where
  skipped : tickerIndices cfg df = none ↔ ¬ ∃ i, i + cfg.windowSize + 5 ≤ df.len
  enumerated : ∀ indices, tickerIndices cfg df = some indices →
    ∀ i, i ∈ indices ↔ i + cfg.windowSize + 5 ≤ df.len
  slices : ∀ indices, tickerIndices cfg df = some indices → ∀ i ∈ indices,
    (window cfg df i).length = cfg.windowSize ∧ (futureWindow cfg df i).length = 5 ∧
      window cfg df i ++ futureWindow cfg df i = df.iloc i (i + cfg.windowSize + 5) ∧
      i + cfg.windowSize + 5 ≤ df.len

/-- At an enumerated index the slices are whole, adjacent and inside the frame. -/
theorem slices_of_mem (h : tickerIndices cfg df = some indices) (hi : i ∈ indices) :
    (window cfg df i).length = cfg.windowSize ∧ (futureWindow cfg df i).length = 5 ∧
      window cfg df i ++ futureWindow cfg df i = df.iloc i (i + cfg.windowSize + 5) ∧
      i + cfg.windowSize + 5 ≤ df.len :=
  ⟨window_length_of_mem h hi, futureWindow_length_of_mem h hi, window_append_futureWindow,
    by have := (mem_tickerIndices h).mp hi; omega⟩

/-- The guard skips the frames with no whole position. -/
theorem tickerIndices_eq_none_iff (hcols : ∀ c, c ∈ df.columns) :
    tickerIndices cfg df = none ↔ ¬ ∃ i, i + cfg.windowSize + 5 ≤ df.len := by
  by_cases h : df.len < cfg.windowSize + 5
  · simp only [tickerIndices_of_short h, true_iff]
    intro hex
    obtain ⟨i, hi⟩ := hex
    omega
  · rw [tickerIndices_of_long hcols (not_lt.mp h)]
    simp only [reduceCtorEq, false_iff, not_not]
    exact ⟨0, by omega⟩

/-- **The range misses the last position of every frame it is taken of.** On a frame with the four
price columns the three expressions agree exactly when the frame is too short to be admitted. -/
theorem indicesAgree_iff (hcols : ∀ c, c ∈ df.columns) :
    IndicesAgree cfg df ↔ df.len < cfg.windowSize + 5 := by
  constructor
  · intro hag
    by_contra hlong
    have hsome := tickerIndices_of_long hcols (not_lt.mp hlong)
    -- the last position: its future ends with the frame
    have hlast := (hag.enumerated _ hsome (df.len - cfg.windowSize - 5)).mpr (by omega)
    exact absurd (List.mem_range.mp hlast) (lt_irrefl _)
  · intro hshort
    have hnone := tickerIndices_of_short hshort
    refine ⟨tickerIndices_eq_none_iff hcols, fun indices h => ?_, fun indices h i hi => ?_⟩
    · rw [hnone] at h; exact absurd h (by simp)
    · -- the slices of an index are whole on every frame
      exact slices_of_mem h hi

def flatFrame (n : ℕ) : DataFrame := ⟨requiredCols, List.replicate n fun _ => .fin 1⟩

@[simp] theorem flatFrame_len (n : ℕ) : (flatFrame n).len = n := by
  simp [flatFrame, DataFrame.len]

theorem indicesAgree_iff_forty :
    IndicesAgree (Config.script "/root") (flatFrame 40) ↔ (flatFrame 40).len < 30 + 5 :=
  @indicesAgree_iff (Config.script "/root") (flatFrame 40) mem_requiredCols

/-- At the shortest frame the guard admits there is one position and the range is empty. -/
theorem not_indicesAgree_thirtyFive : ¬ IndicesAgree (Config.script "/root") (flatFrame 35) := by
  intro hag
  have hsome : tickerIndices (Config.script "/root") (flatFrame 35) = some [] :=
    @tickerIndices_of_long (Config.script "/root") _ mem_requiredCols (by simp [Config.script])
  have h0 := (hag.enumerated [] hsome 0).mpr (by simp [Config.script])
  exact absurd h0 (by simp)

end StockCharts
