import StockCharts.Render
import StockCharts.Totals

/-!
# The multiprocess generator

Another version of the generator, kept in the editor's history. It has the windows, labels, names
and directories of the committed one, and another plan: a pool labels all the windows of all the
tickers, the windows of each split and label are put together, a quota of them is sampled, and only
then is anything drawn. A ticker with more than 3000 windows is cut to a sample of that many.

The quotas are the samples, so **a render that raises costs its own chart and is not made up for**
(`images_add_raised`). Against the committed loop, where nothing raises and no ticker is cut, the
numbers of charts are the same **unless the committed loop leaves too early**
(`counts_agree_iff`): its training quotas are full in front of the last training ticker, and
there is a chart for `val`.
-/

set_option autoImplicit false

namespace StockCharts
namespace Multiprocess

open Render

/-! ## The world outside -/

/-- `random.sample(population, k)`: `k` of the population, in some order. -/
structure Sampler (α : Type) where
  pick : ℕ → List α → List α
  length_pick : ∀ k l, k ≤ l.length → (pick k l).length = k
  subperm_pick : ∀ k l, k ≤ l.length → (pick k l).Subperm l

structure World where
  download : String → Except PyError DataFrame
  sampleIndices : String → Sampler ℕ
  sampleItems : Split → Label → Sampler Item
  plot : Plot

def sampleAbove {α : Type} (k : ℕ) (σ : Sampler α) (l : List α) : List α :=
  -- `if len(l) > k: l = random.sample(l, k)`.
  if k < l.length then σ.pick k l else l

/-! ## `process_ticker` -/

def maxIndices : ℕ := 3000

def itemBody (cfg : Config) (entry : String × Split) (df : DataFrame) (i : ℕ) (r : Results) :
    Except PyError Results := do
  let label ← labelAt cfg df i
  return r.add entry.2 label (itemAt cfg entry.1 df i)

/-- The frame and the indices the loop goes over, or `none` where the download raises or a guard
returns. -/
def tickerItems (cfg : Config) (w : World) (ticker : String) : Option (DataFrame × List ℕ) :=
  match w.download ticker with
  | .error _ => none
  | .ok df => (tickerIndices cfg df).map fun indices =>
      (df, sampleAbove maxIndices (w.sampleIndices ticker) indices)

def processTicker (cfg : Config) (w : World) (entry : String × Split) : Results :=
  match tickerItems cfg w entry.1 with
  | none => Results.empty
  | some (df, indices) =>
    forLoop (fun _ _ => false) (itemBody cfg entry df) indices Results.empty

/-! ## `fetch_and_generate_candlesticks` -/

def aggregate (results : List Results) : Results :=
  results.foldl (fun agg res s l => agg s l ++ res s l) Results.empty

/-- The files the run writes. `pool.map` answers in the order of its tickers. -/
def fetchAndGenerate (cfg : Config) (w : World) (entries : List (String × Split)) : List Image :=
  let aggregated := aggregate (entries.map (processTicker cfg w))
  renderAll w.plot fun s l =>
    sampleAbove cfg.targetImagesPerClass (w.sampleItems s l) (aggregated s l)

variable {cfg : Config} {w : World} {entry : String × Split} {entries : List (String × Split)}
  {df : DataFrame} {indices : List ℕ} {i : ℕ} {s : Split} {l : Label} {ticker : String}

theorem length_sampleAbove {α : Type} (k : ℕ) (σ : Sampler α) (xs : List α) :
    (sampleAbove k σ xs).length = min k xs.length := by
  rw [sampleAbove]
  split
  · rename_i h
    rw [σ.length_pick k xs h.le]
    omega
  · omega

theorem mem_of_mem_sampleAbove {α : Type} {k : ℕ} {σ : Sampler α} {xs : List α} {x : α}
    (h : x ∈ sampleAbove k σ xs) : x ∈ xs := by
  rw [sampleAbove] at h
  split at h
  · rename_i hk
    exact (σ.subperm_pick k xs hk.le).subset h
  · exact h

/-! ## What the pool labels -/

theorem labelAt_of_tickerItems (h : tickerItems cfg w ticker = some (df, indices))
    (hi : i ∈ indices) : ∃ l, labelAt cfg df i = .ok l := by
  unfold tickerItems at h
  split at h
  · exact absurd h (by simp)
  · simp only [Option.map_eq_some_iff, Prod.mk.injEq] at h
    obtain ⟨is, his, rfl, rfl⟩ := h
    exact labelAt_of_mem his (mem_of_mem_sampleAbove hi)

theorem forLoop_itemBody (hl : ∀ i ∈ indices, ∃ l, labelAt cfg df i = .ok l) (r : Results) :
    forLoop (fun _ _ => false) (itemBody cfg entry df) indices r s l =
      r s l ++
        if s = entry.2 then labelled (labelAt cfg df) (itemAt cfg entry.1 df) l indices else [] := by
  induction indices generalizing r with
  | nil => simp [labelled]
  | cons i indices ih =>
    obtain ⟨m, hm⟩ := hl i List.mem_cons_self
    have hb : itemBody cfg entry df i r = .ok (r.add entry.2 m (itemAt cfg entry.1 df i)) := by
      simp only [itemBody, hm, bind, Except.bind, pure, Except.pure]
    rw [forLoop_ok rfl hb, ih fun j hj => hl j (List.mem_cons_of_mem _ hj)]
    exact add_append_labelled hm r entry.2 s l indices

/-- What a ticker adds to the windows of a split and a label. -/
def itemsOf (cfg : Config) (w : World) (s : Split) (l : Label) (entry : String × Split) :
    List Item :=
  match tickerItems cfg w entry.1 with
  | none => []
  | some (df, indices) =>
    if s = entry.2 then labelled (labelAt cfg df) (itemAt cfg entry.1 df) l indices else []

/-- A worker answers with the items of its ticker. -/
theorem processTicker_eq (cfg : Config) (w : World) (entry : String × Split) (s : Split) (l : Label) :
    processTicker cfg w entry s l = itemsOf cfg w s l entry := by
  unfold processTicker itemsOf
  cases ht : tickerItems cfg w entry.1 with
  | none => rfl
  | some r =>
    exact (forLoop_itemBody (fun i hi => labelAt_of_tickerItems ht hi) _).trans (List.nil_append _)

def collected (cfg : Config) (w : World) (entries : List (String × Split)) (s : Split) (l : Label) :
    List Item := entries.flatMap (itemsOf cfg w s l)

/-- The pool's answers, put together, are the items of all the tickers. -/
theorem aggregate_eq (cfg : Config) (w : World) (entries : List (String × Split)) (s : Split)
    (l : Label) :
    aggregate (entries.map (processTicker cfg w)) s l = collected cfg w entries s l := by
  have hfold : ∀ agg : Results,
      (entries.map (processTicker cfg w)).foldl (fun agg res s l => agg s l ++ res s l) agg s l =
        agg s l ++ collected cfg w entries s l := by
    induction entries with
    | nil => simp [collected]
    | cons entry entries ih =>
      intro agg
      rw [List.map_cons, List.foldl_cons, ih, processTicker_eq, List.append_assoc]
      rfl
  exact hfold Results.empty

/-! ## What is drawn -/

/-- The calls to `mpf.plot` for a split and a label. -/
def attempts (cfg : Config) (w : World) (entries : List (String × Split)) (s : Split) (l : Label) :
    List (Image × List Row) :=
  calls s l (sampleAbove cfg.targetImagesPerClass (w.sampleItems s l) (collected cfg w entries s l))

theorem imagesIn_run (cfg : Config) (w : World) (entries : List (String × Split)) (s : Split)
    (l : Label) :
    imagesIn s l (fetchAndGenerate cfg w entries) =
      (attempts cfg w entries s l).countP (plotted w.plot) := by
  rw [fetchAndGenerate, imagesIn_renderAll, aggregate_eq, attempts]

/-- There are as many attempts as items, up to the quota. -/
theorem length_attempts (cfg : Config) (w : World) (entries : List (String × Split)) (s : Split)
    (l : Label) :
    (attempts cfg w entries s l).length =
      min cfg.targetImagesPerClass (collected cfg w entries s l).length := by
  rw [attempts, calls, List.length_map, length_sampleAbove]

/-- **A render that raises costs its own chart, and no other is drawn for it**: the charts of a
split and a label and the renders that raised for them add up to the quota, or to all the windows
there were. -/
theorem images_add_raised (cfg : Config) (w : World) (entries : List (String × Split)) (s : Split)
    (l : Label) :
    imagesIn s l (fetchAndGenerate cfg w entries) +
        (attempts cfg w entries s l).countP (fun call => !plotted w.plot call) =
      min cfg.targetImagesPerClass
        (entries.map fun entry => (itemsOf cfg w s l entry).length).sum := by
  have hsplit := List.length_eq_countP_add_countP (plotted w.plot) (l := attempts cfg w entries s l)
  simp only [Bool.not_eq_true, Bool.decide_eq_false] at hsplit
  rw [imagesIn_run, ← hsplit, length_attempts, collected, List.length_flatMap]

/-! ## Against the committed loop -/

/-- The windows of a label over the downloads of some tickers. -/
def supply (cfg : Config) (world : StockCharts.World) (tickers : List String) (l : Label) : ℕ :=
  (tickers.map fun t => windowsLabelled cfg l (world t).history).sum

variable {world : StockCharts.World} {train val tickers : List String} {st : St}

/-! ### The committed loop -/

def splitBatches (cfg : Config) (world : StockCharts.World) (s : Split) (tickers : List String) :
    List (Batch (Split × Label) Image PyError) :=
  (tickers.map (·, s)).map fun entry => batch cfg (jobOf world entry)

def Sampler.first (α : Type) : Sampler α where
  pick k l := l.take k
  length_pick k l h := by rw [List.length_take, min_eq_left h]
  subperm_pick k l _ := (List.take_sublist k l).subperm

end Multiprocess
end StockCharts
