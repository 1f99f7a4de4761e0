import Mathlib.Algebra.BigOperators.Group.List.Basic
import StockCharts.Fetch

/-!
# What the quotas fill to

Within one split nothing depends on chance. The windows kept are the first that come, in an order
`random.shuffle` chose, from tickers in some order, with a `continue` for each full label and two
exits once all three are full; but **the counts see none of it**: each label ends with
`TARGET_IMAGES_PER_CLASS`, or with every window the tickers had of it.

That is `fillAll_counts` at this store. What is left to say is what a ticker has on offer, and that
is a number of *its frame*: a shuffle changes the order of the offers and not their multiset.
-/

set_option autoImplicit false

namespace StockCharts

/-- The windows of a label in what a download answered: those of the positions
`i < len(df) - WINDOW_SIZE - 5`. One that raised has none, and neither has a frame that is empty,
too short or without one of the price columns. -/
def windowsLabelled (cfg : Config) (l : Label) : Except PyError DataFrame → ℕ
  | .error _ => 0
  | .ok df =>
    if df.empty = true ∨ df.len < cfg.windowSize + 5 ∨ ∃ c ∈ requiredCols, c ∉ df.columns then 0
    else (List.range (df.len - cfg.windowSize - 5)).countP fun i => decide (labelAt cfg df i = .ok l)

def NeverRaises (cfg : Config) (job : Job) : Prop :=
  ∀ df indices, tickerWindows cfg job = some (df, indices) →
    ∀ i ∈ indices, renders cfg job df i = true

variable {cfg : Config} {job : Job} {jobs : List Job} {l : Label} {split : Split}

/-- A frame that the loop skips has no windows. -/
theorem windowsLabelled_of_skip {df : DataFrame} (h : tickerIndices cfg df = none) :
    windowsLabelled cfg l (.ok df) = 0 := by
  unfold tickerIndices at h
  rw [windowsLabelled, if_pos]
  split at h
  · rename_i hguard
    exact hguard.imp_right Or.inl
  · split at h
    · exact absurd h (by simp)
    · rename_i hcols
      push Not at hcols
      exact Or.inr (Or.inr hcols)

/-- The windows of any other frame are those of the indices that are shuffled. -/
theorem windowsLabelled_of_indices {df : DataFrame} {indices : List ℕ}
    (h : tickerIndices cfg df = some indices) :
    windowsLabelled cfg l (.ok df) = indices.countP fun i => decide (labelAt cfg df i = .ok l) := by
  obtain ⟨hlen, hcols, rfl⟩ := tickerIndices_eq_some h
  have hpos := cfg.windowSize_pos
  rw [windowsLabelled, if_neg]
  rintro (hempty | hshort | ⟨c, -, hc⟩)
  · have hrows : df.rows.length = 0 := by
      rw [List.length_eq_zero_iff]
      exact List.isEmpty_iff.mp hempty
    unfold DataFrame.len at hlen
    omega
  · omega
  · exact hc (hcols c)

theorem neverRaises_of_plot (h : ∀ img chart, job.plot img chart = .ok ()) :
    NeverRaises cfg job := by
  intro df indices hw i hi
  obtain ⟨m, hm⟩ := labelAt_of_tickerWindows hw hi
  rw [renders, hm]
  simp only [h]
  rfl

theorem offer_cls_eq_iff {df : DataFrame} {i : ℕ} {m : Label} (hl : labelAt cfg df i = .ok m) :
    (offer cfg job df i).cls = (job.split, l) ↔ labelAt cfg df i = .ok l := by
  rw [offer_of_labelAt hl, hl]
  simp

theorem countP_offers (cfg : Config) (job : Job) (l : Label) :
    (offers cfg job).countP (fun o => decide (o.cls = (job.split, l))) =
      windowsLabelled cfg l job.history := by
  cases hh : job.history with
  | error e => rw [offers_skip (by rw [tickerWindows, hh])]; rfl
  | ok df =>
    cases hi : tickerIndices cfg df with
    | none =>
      rw [offers_skip (by rw [tickerWindows, hh]; simp [hi]), windowsLabelled_of_skip hi]
      rfl
    | some indices =>
      have hw := tickerWindows_of_history hh hi
      rw [offers_enter hw, List.countP_map, windowsLabelled_of_indices hi]
      simp only [Function.comp_def]
      rw [← (job.shuffle.perm indices).countP_eq]
      refine List.countP_congr fun i hmem => ?_
      obtain ⟨m, hm⟩ := labelAt_of_tickerWindows hw hmem
      simpa using offer_cls_eq_iff hm

theorem lands_of_neverRaises (h : NeverRaises cfg job) : ∀ o ∈ offers cfg job, o.lands = true := by
  rw [forall_mem_offers]
  intro df indices hw i hi
  rw [← renders_eq_lands]
  exact h df indices hw i hi

/-- **Quotas fill exactly, in any order.** For entries of one split whose renders do not raise, the
final count of a label is the smaller of the quota and the number of its windows over all the
downloads. The downloads are taken in some fixed order here; the entries may come in any other,
each with a shuffle of its own. -/
theorem counts_eq_min {downloads : List (String × Except PyError DataFrame)}
    (horder : (jobs.map fun job => (job.ticker, job.history)).Perm downloads)
    (hsplit : ∀ job ∈ jobs, job.split = split) (hrender : ∀ job ∈ jobs, NeverRaises cfg job) :
    (fetchAndGenerateCandlesticks cfg jobs).counts (split, l) =
      min cfg.targetImagesPerClass
        (downloads.map fun download => windowsLabelled cfg l download.2).sum := by
  have hcls : ∀ b ∈ jobs.map (batch cfg), b.classes = splitKeys split := by
    simp only [List.forall_mem_map]
    exact fun job hj => congrArg splitKeys (hsplit job hj)
  have hlands : ∀ b ∈ jobs.map (batch cfg), ∀ o ∈ b.offers, o.lands = true := by
    simp only [List.forall_mem_map]
    exact fun job hj => lands_of_neverRaises (hrender job hj)
  have hsupply : (jobs.map (batch cfg)).map
      (fun b => b.offers.countP fun o => decide (o.cls = (split, l))) =
        (jobs.map fun job => (job.ticker, job.history)).map
          fun download => windowsLabelled cfg l download.2 := by
    rw [List.map_map, List.map_map]
    refine List.map_congr_left fun job hj => ?_
    rw [← hsplit job hj]
    exact countP_offers cfg job l
  rw [fetchAndGenerateCandlesticks, tickerLoop_eq_fillAll,
    fillAll_counts hcls (mem_splitKeys split l) hlands (Nat.zero_le _), hsupply,
    (horder.map _).sum_eq]
  simp [Store.empty]

theorem counts_eq_min_two :
    (fetchAndGenerateCandlesticks (Config.quota 50)
        [threeWindowsJob "MSFT" .train, threeWindowsJob "AAPL" .train]).counts (.train, .sell) =
      min 50 ([("AAPL", .ok threeWindows), ("MSFT", .ok threeWindows)].map fun download =>
        windowsLabelled (Config.quota 50) .sell download.2).sum :=
  @counts_eq_min (Config.quota 50) _ .sell .train _ (List.Perm.swap _ _ _)
    (by simp [threeWindowsJob]) (by
      simp only [List.forall_mem_cons, List.not_mem_nil, false_imp_iff, implies_true, and_true]
      exact ⟨neverRaises_of_plot fun _ _ => rfl, neverRaises_of_plot fun _ _ => rfl⟩)

end StockCharts
