import Mathlib.Data.List.Find
import StockCharts.Machine

/-!
# The two early exits

Both loops leave when `counts[split]` is full. For the window loop that is an optimisation: every
window left is of the split that is full. For the ticker loop it is not. The list runs through
*both* splits, so the break at a ticker of one split also drops the tickers of the other, whose
quotas may be open: **with the training tickers listed first, a training split that fills up
before its last ticker leaves the validation split empty.**

The loops without their breaks stand below, and `earlyExits_iff` says exactly when they make no
difference: when everything of the other split that a break drops could not have added an image.
An earlier version of the script runs one loop for each split.
-/

set_option autoImplicit false

namespace StockCharts

open Control

/-! ## The loops without their breaks -/

def windowLoopFree (cfg : Config) (job : Job) (df : DataFrame) (indices : List ℕ) (st : St) : St :=
  forLoop (fun _ _ => false) (windowBody cfg job df) indices st

def tickerBodyFree (cfg : Config) (job : Job) (st : St) : St :=
  match tickerWindows cfg job with
  | none => st
  | some (df, indices) => windowLoopFree cfg job df indices st

def tickerLoopFree (cfg : Config) (jobs : List Job) (st : St) : St :=
  forLoop (fun _ _ => false)
    (fun job st => (.ok (tickerBodyFree cfg job st) : Except Empty St)) jobs st

variable {cfg : Config} {job : Job} {jobs rest : List Job} {df : DataFrame} {indices : List ℕ}
  {st : St}

theorem windowLoopFree_eq_fillFree (hl : ∀ i ∈ indices, ∃ l, labelAt cfg df i = .ok l) (st : St) :
    windowLoopFree cfg job df indices st =
      fillFree cfg.targetImagesPerClass (indices.map (offer cfg job df)) st := by
  rw [fillFree, forLoop_map, windowLoopFree]
  refine forLoop_congr fun i hi s => ?_
  obtain ⟨l, hl⟩ := hl i hi
  exact windowBody_eq_take hl s

theorem tickerBodyFree_eq_fillFree (cfg : Config) (job : Job) (st : St) :
    tickerBodyFree cfg job st = fillFree cfg.targetImagesPerClass (offers cfg job) st := by
  unfold tickerBodyFree
  cases hw : tickerWindows cfg job with
  | none => rw [offers_skip hw]; rfl
  | some w =>
    rw [offers_enter hw]
    exact windowLoopFree_eq_fillFree (fun i hi => labelAt_of_tickerWindows hw hi) st

/-- Without the exits, too, the loops are those of the library. -/
theorem tickerLoopFree_eq_fillAllFree (cfg : Config) (jobs : List Job) (st : St) :
    tickerLoopFree cfg jobs st =
      fillAllFree cfg.targetImagesPerClass (jobs.map (batch cfg)) st := by
  rw [fillAllFree, forLoop_map, tickerLoopFree]
  simp only [tickerBodyFree_eq_fillFree]
  rfl

/-! ## When the breaks make no difference -/

/-- The ticker could add nothing to the state: it has no usable frame, or no shuffled window whose
label has room, or the first that has raises. -/
def AddsNothing (cfg : Config) (job : Job) (st : St) : Prop :=
  ∀ df indices, tickerWindows cfg job = some (df, indices) →
    ∀ i, indices.find? (hasRoom cfg job.split df st) = some i → renders cfg job df i = false

/-- At a break of the ticker loop, no ticker of the other split that is dropped could have added
anything. -/
def HarmlessBreak (cfg : Config) : Control → Prop
  | tickers (job :: rest) st => allFull cfg job.split st = true →
      ∀ dropped ∈ rest, dropped.split ≠ job.split → AddsNothing cfg dropped st
  | _ => True

/-- A ticker that adds nothing is a blocked batch. -/
theorem addsNothing_iff_blocked :
    AddsNothing cfg job st ↔ Blocked cfg.targetImagesPerClass (offers cfg job) st := by
  unfold AddsNothing Blocked
  cases hw : tickerWindows cfg job with
  | none => simp [offers_skip hw]
  | some w =>
    obtain ⟨df, indices⟩ := w
    have hroom : indices.find? (hasRoom cfg job.split df st) = indices.find? fun i =>
        decide (st.counts (offer cfg job df i).cls < cfg.targetImagesPerClass) :=
      List.find?_congr fun i hi =>
        let ⟨_, hl⟩ := labelAt_of_tickerWindows hw hi
        hasRoom_eq hl st
    rw [offers_enter hw, List.find?_map, forall_windows_some]
    constructor
    · intro h o ho
      obtain ⟨i, hi, rfl⟩ := Option.map_eq_some_iff.mp ho
      rw [← renders_eq_lands]
      exact h i (hroom.trans hi)
    · intro h i hi
      rw [renders_eq_lands]
      exact h _ (Option.map_eq_some_iff.mpr ⟨i, hroom.symm.trans hi, rfl⟩)

theorem addsNothing_of_full (h : allFull cfg job.split st = true) : AddsNothing cfg job st := by
  intro df indices hw i hi
  obtain ⟨l, hl⟩ := labelAt_of_tickerWindows hw (List.mem_of_find?_eq_some hi)
  have hopen := (hasRoom_iff hl).mp (List.find?_some hi)
  exact absurd (allFull_iff.mp h l) (not_le.mpr hopen)

/-- The library's condition on the entries behind a break, at the points of the run. -/
theorem cutOffHarmless_iff (cfg : Config) (jobs : List Job) (st : St) :
    CutOffHarmless cfg.targetImagesPerClass (jobs.map (batch cfg)) st ↔
      Always (step cfg) (HarmlessBreak cfg) (tickers jobs st) := by
  induction jobs generalizing st with
  | nil => simp [CutOffHarmless, always_nil, HarmlessBreak]
  | cons job rest ih =>
    rw [List.map_cons, CutOffHarmless,
      show full _ (batch cfg job).classes st = allFull cfg job.split st from
        (allFull_eq_full job.split st).symm]
    cases hf : allFull cfg job.split st with
    | true =>
      simp only [if_true, always_full hf, HarmlessBreak, and_true, hf, forall_true_left,
        List.forall_mem_map]
      constructor
      · exact fun h dropped hd _ => addsNothing_iff_blocked.mpr (h dropped hd)
      · intro h dropped hd
        apply addsNothing_iff_blocked.mp
        by_cases hs : dropped.split = job.split
        · exact addsNothing_of_full (by rw [hs]; exact hf)
        · exact h dropped hd hs
    | false =>
      rw [if_neg Bool.false_ne_true, always_cons hf, tickerBody_eq_fill, ← ih]
      have hhere : HarmlessBreak cfg (tickers (job :: rest) st) := by simp [HarmlessBreak, hf]
      have hin : ∀ df indices, tickerWindows cfg job = some (df, indices) →
          AlongWindows cfg (HarmlessBreak cfg) job df rest indices st :=
        fun df indices _ => alongWindows_of_forall (fun _ _ => trivial) indices st
      exact ⟨fun h => ⟨hhere, hin, h⟩, fun h => h.2.2⟩

/-- **The early exits change nothing exactly when every break of the ticker loop is harmless**:
the counts and the files of the run are those of the loops without their breaks if and only if, at
each point where the ticker loop breaks, none of the dropped tickers of the other split could have
added an image. -/
theorem earlyExits_iff (cfg : Config) (jobs : List Job) :
    SameDataset (fetchAndGenerateCandlesticks cfg jobs) (tickerLoopFree cfg jobs Store.empty) ↔
      Always (step cfg) (HarmlessBreak cfg) (start jobs) := by
  rw [start, ← cutOffHarmless_iff, fetchAndGenerateCandlesticks, tickerLoop_eq_fillAll,
    tickerLoopFree_eq_fillAllFree]
  constructor
  · exact fun h => harmless_of_counts_eq h.1
  · intro h
    rw [fillAll_eq_free h]
    exact ⟨fun _ => rfl, fun _ => Iff.rfl⟩

/-- With one image per class the first training ticker fills the training split. The loop leaves at
the second, and nothing is ever written for `val`. -/
theorem not_sameDataset_trainFirst :
    ¬ SameDataset
      (fetchAndGenerateCandlesticks (Config.quota 1)
        [threeWindowsJob "AAPL" .train, threeWindowsJob "MSFT" .train, threeWindowsJob "BA" .val])
      (tickerLoopFree (Config.quota 1)
        [threeWindowsJob "AAPL" .train, threeWindowsJob "MSFT" .train, threeWindowsJob "BA" .val]
        Store.empty) := by
  decide +kernel

end StockCharts
