import StockCharts.Multiprocess
import StockCharts.Volatility

/-!
# The collecting generator

Four earlier versions of the generator, kept in the editor's history. They go through the tickers
and through the windows of each in the order of the days, and **collect** a window as long as its
split and label have room; nothing is drawn before that is over. They differ in their labels
(`Labeller`), and have no guard on the columns and no early exit.

* What is collected is **the first quota of all the windows** of a split and a label
  (`collected_eq_take`): the missing guard and the missing exits make no difference.
* The pool that replaced the loop labels the same windows, and samples the quota that the loop
  takes from the front (`charts_of_pool`).
* The tickers are split so that a model is validated on companies it has not seen. One ticker is in
  both lists, and it is **on both sides exactly when both quotas reach it** (`shared_tickers`).
-/

set_option autoImplicit false

namespace StockCharts
namespace Collect

open Render

/-- A ticker in both lists is downloaded once for each. -/
structure World where
  download : String × Split → Except PyError DataFrame
  plot : Plot

/-- The labels of a version. Each window that the loop comes to has one. -/
structure Labeller where
  labelAt : Config → DataFrame → ℕ → Except PyError Label
  total : ∀ {cfg : Config} {df : DataFrame} {indices : List ℕ} {i : ℕ},
    tickerIndices cfg df = some indices → i ∈ indices → ∃ l, labelAt cfg df i = .ok l

theorem volatilityLabelAt_of_mem (highClose : List Row → List Price) {cfg : Config} {df : DataFrame}
    {indices : List ℕ} {i : ℕ} (h : tickerIndices cfg df = some indices) (hi : i ∈ indices) :
    ∃ l, volatilityLabelAt highClose cfg df i = .ok l := by
  obtain ⟨l, hl⟩ := labelAt_of_mem h hi
  unfold labelAt at hl
  unfold volatilityLabelAt
  cases hw : (window cfg df i).getLast? with
  | none =>
    rw [hw] at hl
    exact absurd hl (by simp)
  | some row => exact ⟨_, rfl⟩

def adaptive : Labeller := ⟨adaptiveLabelAt, volatilityLabelAt_of_mem highClose⟩

def first : Labeller := ⟨firstLabelAt, volatilityLabelAt_of_mem firstHighClose⟩

/-! ## `fetch_and_generate_candlesticks` -/

/-- `datasets` and `counts`. -/
structure Collected where
  datasets : Results
  counts : Split → Label → ℕ

def Collected.start : Collected := ⟨Results.empty, fun _ _ => 0⟩

def Collected.add (st : Collected) (split : Split) (label : Label) (x : Item) : Collected where
  datasets := st.datasets.add split label x
  counts s l := if s = split ∧ l = label then st.counts s l + 1 else st.counts s l

/-- The columns are read, each of them raising where it is not there. -/
def readColumns (cols : List Col) (df : DataFrame) : Except PyError Unit :=
  if ∀ c ∈ cols, c ∈ df.columns then .ok () else .error (.other "KeyError")

def collectBody (v : Labeller) (cfg : Config) (entry : String × Split) (df : DataFrame) (i : ℕ)
    (st : Collected) : Except PyError Collected := do
  readColumns [.High, .Low, .Close] df
  let label ← v.labelAt cfg df i
  if cfg.targetImagesPerClass ≤ st.counts entry.2 label then
    return st
  else
    readColumns requiredCols df
    return st.add entry.2 label (itemAt cfg entry.1 df i)

def collectTicker (v : Labeller) (cfg : Config) (w : World) (st : Collected)
    (entry : String × Split) : Collected :=
  match w.download entry with
  | .error _ => st
  | .ok df =>
    if df.len < cfg.windowSize + 5 then st
    else
      forLoop (fun _ _ => false) (collectBody v cfg entry df)
        (List.range (df.len - cfg.windowSize - 5)) st

def collect (v : Labeller) (cfg : Config) (w : World) (entries : List (String × Split)) :
    Collected := entries.foldl (collectTicker v cfg w) Collected.start

def fetchAndGenerate (v : Labeller) (cfg : Config) (w : World) (entries : List (String × Split)) :
    List Image := renderAll w.plot (collect v cfg w entries).datasets

/-! ## What is collected -/

variable {v : Labeller} {cfg : Config} {w : World} {entry : String × Split}
  {entries : List (String × Split)} {df : DataFrame} {indices : List ℕ} {i T : ℕ} {s : Split}
  {l m : Label} {st st' : Collected}

/-- The windows of a ticker that a split and a label could take. -/
def offered (v : Labeller) (cfg : Config) (w : World) (s : Split) (l : Label)
    (entry : String × Split) : List Item :=
  match w.download entry with
  | .error _ => []
  | .ok df =>
    match tickerIndices cfg df with
    | none => []
    | some indices =>
      if s = entry.2 then labelled (v.labelAt cfg df) (itemAt cfg entry.1 df) l indices else []

/-! ### One window, and one ticker -/

/-- The counters are those of the collected windows, and within the quota. -/
def Counted (T : ℕ) (st : Collected) : Prop :=
  ∀ s l, st.counts s l = (st.datasets s l).length ∧ st.counts s l ≤ T

theorem counted_start (T : ℕ) : Counted T Collected.start := fun _ _ => ⟨rfl, Nat.zero_le T⟩

/-- An item that is added is counted. -/
theorem Counted.add (h : Counted T st) (hroom : st.counts s l < T) (x : Item) :
    Counted T (st.add s l x) := by
  intro s' l'
  obtain ⟨hlen, hle⟩ := h s' l'
  simp only [Collected.add, Results.add]
  split
  · rename_i hkey
    obtain ⟨rfl, rfl⟩ := hkey
    rw [List.length_append, hlen]
    exact ⟨rfl, by rw [← hlen]; exact hroom⟩
  · exact ⟨hlen, hle⟩

/-- From `st`, of the windows that came those were taken that had room. -/
structure Took (T : ℕ) (st : Collected) (came : Results) (st' : Collected) : Prop where
  counted : Counted T st'
  datasets : ∀ s l, st'.datasets s l = (st.datasets s l ++ came s l).take T

theorem Took.none (h : Counted T st) : Took T st Results.empty st where
  counted := h
  datasets s l := by
    obtain ⟨hlen, hle⟩ := h s l
    rw [Results.empty, List.append_nil, List.take_of_length_le (by rw [← hlen]; exact hle)]

theorem take_append_take {α : Type} (n : ℕ) (xs ys : List α) :
    (xs.take n ++ ys).take n = (xs ++ ys).take n := by
  rw [List.take_append, List.take_append, List.take_take, Nat.min_self, List.length_take]
  congr 2
  omega

/-- **What two stretches of a run take, one behind the other**: the invariant of the three loops. -/
theorem Took.trans {came came' : Results} {st'' : Collected} (h : Took T st came st')
    (h' : Took T st' came' st'') : Took T st (fun s l => came s l ++ came' s l) st'' where
  counted := h'.counted
  datasets s l := by rw [h'.datasets, h.datasets, take_append_take, List.append_assoc]

theorem collectBody_of_cols (hcols : ∀ c, c ∈ df.columns) (hl : v.labelAt cfg df i = .ok m) :
    collectBody v cfg entry df i st =
      .ok (if cfg.targetImagesPerClass ≤ st.counts entry.2 m then st
        else st.add entry.2 m (itemAt cfg entry.1 df i)) := by
  have hread : ∀ cols, readColumns cols df = .ok () := fun cols => if_pos fun c _ => hcols c
  simp only [collectBody, hread, hl, bind, Except.bind, pure, Except.pure]
  split <;> rfl

/-- One window. -/
theorem took_window (h : Counted T st) (s : Split) (l : Label) (x : Item) :
    Took T st (Results.empty.add s l x) (if T ≤ st.counts s l then st else st.add s l x) := by
  have hkept : ∀ s' l', ¬ (s' = s ∧ l' = l) →
      (st.datasets s' l' ++ Results.empty.add s l x s' l').take T = st.datasets s' l' := by
    intro s' l' hkey
    rw [Results.add, if_neg hkey]
    exact ((Took.none h).datasets s' l').symm
  obtain ⟨hlen, hle⟩ := h s l
  split
  · rename_i hfull
    refine ⟨h, fun s' l' => ?_⟩
    by_cases hkey : s' = s ∧ l' = l
    · obtain ⟨rfl, rfl⟩ := hkey
      have hT : T = (st.datasets s' l').length := by omega
      rw [hT, List.take_left]
    · exact (hkept s' l' hkey).symm
  · rename_i hopen
    refine ⟨h.add (not_le.mp hopen) x, fun s' l' => ?_⟩
    by_cases hkey : s' = s ∧ l' = l
    · have hroom : (st.datasets s l ++ [x]).length ≤ T := by
        rw [List.length_append, List.length_singleton]
        omega
      obtain ⟨rfl, rfl⟩ := hkey
      simp only [Collected.add, Results.add, and_self, if_true, Results.empty, List.nil_append]
      exact (List.take_of_length_le hroom).symm
    · rw [hkept s' l' hkey]
      exact if_neg hkey

/-- The windows of a ticker. -/
theorem took_windows (hcols : ∀ c, c ∈ df.columns)
    (hl : ∀ i ∈ indices, ∃ l, v.labelAt cfg df i = .ok l)
    (h : Counted cfg.targetImagesPerClass st) :
    Took cfg.targetImagesPerClass st
      (fun s l =>
        if s = entry.2 then labelled (v.labelAt cfg df) (itemAt cfg entry.1 df) l indices else [])
      (forLoop (fun _ _ => false) (collectBody v cfg entry df) indices st) := by
  induction indices generalizing st with
  | nil =>
    have hnone : (fun s l => if s = entry.2 then
        labelled (v.labelAt cfg df) (itemAt cfg entry.1 df) l [] else []) = Results.empty := by
      funext s l
      exact ite_self []
    rw [hnone]
    exact Took.none h
  | cons i indices ih =>
    obtain ⟨m, hm⟩ := hl i List.mem_cons_self
    have hone := took_window h entry.2 m (itemAt cfg entry.1 df i)
    have hrest := ih (fun j hj => hl j (List.mem_cons_of_mem _ hj)) hone.counted
    rw [forLoop_ok rfl (collectBody_of_cols hcols hm)]
    refine ⟨hrest.counted, fun s l => ?_⟩
    rw [(hone.trans hrest).datasets]
    congr 2
    exact (add_append_labelled hm Results.empty entry.2 s l indices).trans (List.nil_append _)

/-- Without its columns a ticker gives nothing: its first window to be collected raises. -/
theorem idle_collectBody (hcols : ¬ ∀ c ∈ requiredCols, c ∈ df.columns) :
    Idle (collectBody v cfg entry df) i st := by
  intro st' hb
  have hread : readColumns requiredCols df = .error (.other "KeyError") := if_neg hcols
  simp only [collectBody, bind, Except.bind, hread] at hb
  split at hb
  · exact absurd hb (by simp)
  · split at hb
    · exact absurd hb (by simp)
    · split at hb
      · exact (Except.ok.inj hb).symm
      · exact absurd hb (by simp)

theorem took_ticker (h : Counted cfg.targetImagesPerClass st) (entry : String × Split) :
    Took cfg.targetImagesPerClass st (fun s l => offered v cfg w s l entry)
      (collectTicker v cfg w st entry) := by
  unfold offered collectTicker
  cases w.download entry with
  | error e => exact Took.none h
  | ok df =>
    by_cases hshort : df.len < cfg.windowSize + 5
    · simp only [if_pos hshort, tickerIndices_of_short hshort]
      exact Took.none h
    · simp only [if_neg hshort]
      by_cases hcols : ∀ c ∈ requiredCols, c ∈ df.columns
      · have hall : ∀ c, c ∈ df.columns := fun c => hcols c (mem_requiredCols c)
        have hsome := tickerIndices_of_long hall (not_lt.mp hshort)
        simp only [hsome]
        exact took_windows hall (fun i hi => v.total hsome hi) h
      · have hnone : tickerIndices cfg df = none := by
          rw [tickerIndices, if_neg hcols]
          exact ite_self _
        simp only [hnone, forLoop_idle fun i _ => idle_collectBody hcols]
        exact Took.none h

/-- The tickers of a run. -/
theorem took_tickers (h : Counted cfg.targetImagesPerClass st) (entries : List (String × Split)) :
    Took cfg.targetImagesPerClass st (fun s l => entries.flatMap (offered v cfg w s l))
      (entries.foldl (collectTicker v cfg w) st) := by
  induction entries generalizing st with
  | nil => exact Took.none h
  | cons entry entries ih =>
    have hone := took_ticker (v := v) (w := w) h entry
    exact hone.trans (ih hone.counted)

/-- A run collects the first of what the tickers offer, up to the quota. -/
theorem datasets_collect (v : Labeller) (cfg : Config) (w : World) (entries : List (String × Split))
    (s : Split) (l : Label) :
    (collect v cfg w entries).datasets s l =
      (entries.flatMap (offered v cfg w s l)).take cfg.targetImagesPerClass :=
  (took_tickers (counted_start _) entries).datasets s l

/-- **The loop collects the first quota of the windows there are**, of each split and label. It
counts those, and their charts are drawn in that order, but for those that raise. -/
theorem collected_eq_take (v : Labeller) (cfg : Config) (w : World)
    (entries : List (String × Split)) (s : Split) (l : Label) :
    (collect v cfg w entries).datasets s l =
        (entries.flatMap (offered v cfg w s l)).take cfg.targetImagesPerClass ∧
      (collect v cfg w entries).counts s l =
        min cfg.targetImagesPerClass
          (entries.map fun entry => (offered v cfg w s l entry).length).sum ∧
      chartsOf s l (fetchAndGenerate v cfg w entries) =
        rendered w.plot s l
          ((entries.flatMap (offered v cfg w s l)).take cfg.targetImagesPerClass) := by
  have hcounted : Counted cfg.targetImagesPerClass (collect v cfg w entries) :=
    (took_tickers (counted_start _) entries).counted
  refine ⟨datasets_collect v cfg w entries s l, ?_, ?_⟩
  · rw [(hcounted s l).1, datasets_collect, List.length_take, List.length_flatMap]
  · rw [fetchAndGenerate, chartsOf_renderAll, datasets_collect]

/-! ## Against the pool -/

/-- `VAL_TICKERS` of these versions. -/
def valTickers : List String := ["BA", "PYPL", "ADBE", "CRM", "NFLX", "PEP", "COST"]

def tickersOf (train val : List String) : Split → List String
  | .train => train
  | .val => val

/-- The tickers with a collected window in a split. -/
def Collected.tickersIn (st : Collected) (s : Split) : Set String :=
  {t | ∃ l, ∃ x ∈ st.datasets s l, x.ticker = t}

/-- A ticker has a window of some label, and the tickers in front of it have less than the quota. -/
def Reached (v : Labeller) (cfg : Config) (w : World) (tickers : List String) (s : Split)
    (t : String) : Prop :=
  ∃ l, offered v cfg w s l (t, s) ≠ [] ∧
    ((tickers.takeWhile (· ≠ t)).flatMap fun t' => offered v cfg w s l (t', s)).length <
      cfg.targetImagesPerClass

theorem ticker_of_mem_offered {x : Item} (h : x ∈ offered v cfg w s l entry) :
    x.ticker = entry.1 := by
  unfold offered at h
  cases hd : w.download entry with
  | error e => simp [hd] at h
  | ok df =>
    cases hi : tickerIndices cfg df with
    | none => simp [hd, hi] at h
    | some indices =>
      simp only [hd, hi] at h
      split at h
      · obtain ⟨i, -, rfl⟩ := List.mem_map.mp h
        rfl
      · exact absurd h (by simp)

theorem offered_otherSplit {s' : Split} (h : s' ≠ s) (t : String) :
    offered v cfg w s l (t, s') = [] := by
  unfold offered
  cases w.download (t, s') with
  | error e => rfl
  | ok df =>
    cases hi : tickerIndices cfg df with
    | none => simp [hi]
    | some indices => simp [hi, h.symm]

theorem flatMap_allEntries (train val : List String) (s : Split) (l : Label) :
    (allEntries train val).flatMap (offered v cfg w s l) =
      (tickersOf train val s).flatMap fun t => offered v cfg w s l (t, s) := by
  rw [allEntries, List.flatMap_append, List.flatMap_map, List.flatMap_map]
  cases s with
  | train =>
    have hval : (val.flatMap fun t => offered v cfg w .train l (t, .val)) = [] :=
      List.flatMap_eq_nil_iff.mpr fun t _ => offered_otherSplit (by decide) t
    rw [hval, List.append_nil]
    rfl
  | val =>
    have htrain : (train.flatMap fun t => offered v cfg w .val l (t, .train)) = [] :=
      List.flatMap_eq_nil_iff.mpr fun t _ => offered_otherSplit (by decide) t
    rw [htrain, List.nil_append]
    rfl

/-- The first of a block of a list are among its first `n`, where there is a block and less than
`n` in front of it. -/
theorem exists_mem_take_iff {α : Type} {p : α → Prop} {xs ys zs : List α} {n : ℕ}
    (hx : ∀ x ∈ xs, ¬ p x) (hy : ∀ y ∈ ys, p y) (hz : ∀ z ∈ zs, p z → ys ≠ []) :
    (∃ x ∈ (xs ++ (ys ++ zs)).take n, p x) ↔ ys ≠ [] ∧ xs.length < n := by
  rw [List.take_append]
  constructor
  · rintro ⟨x, hmem, hp⟩
    rcases List.mem_append.mp hmem with hfront | hback
    · exact absurd hp (hx x (List.mem_of_mem_take hfront))
    · have hne : ys ≠ [] := by
        rcases List.mem_append.mp (List.mem_of_mem_take hback) with hmem | hmem
        · exact List.ne_nil_of_mem hmem
        · exact hz x hmem hp
      have hroom : 0 < n - xs.length := by
        by_contra hno
        rw [Nat.le_zero.mp (not_lt.mp hno), List.take_zero] at hback
        exact absurd hback (by simp)
      exact ⟨hne, by omega⟩
  · rintro ⟨hne, hlt⟩
    obtain ⟨y, ys, rfl⟩ := List.exists_cons_of_ne_nil hne
    obtain ⟨m, hm⟩ : ∃ m, n - xs.length = m + 1 := ⟨n - xs.length - 1, by omega⟩
    refine ⟨y, List.mem_append_right _ ?_, hy y List.mem_cons_self⟩
    rw [hm, List.cons_append, List.take_succ_cons]
    exact List.mem_cons_self

/-- A ticker is in a split exactly when it is listed there and reached. -/
theorem mem_tickersIn_iff (v : Labeller) (cfg : Config) (w : World) (train val : List String)
    (s : Split) (t : String) :
    t ∈ (collect v cfg w (allEntries train val)).tickersIn s ↔
      t ∈ tickersOf train val s ∧ Reached v cfg w (tickersOf train val s) s t := by
  simp only [Collected.tickersIn, Set.mem_ofPred_eq, datasets_collect, flatMap_allEntries, Reached]
  set tickers := tickersOf train val s
  by_cases ht : t ∈ tickers
  · rw [and_iff_right ht]
    refine exists_congr fun l => ?_
    -- the first time that the loop comes to the ticker
    obtain ⟨pre, post, hsplit, hpre⟩ := List.eq_append_cons_of_mem ht
    have hfront : tickers.takeWhile (· ≠ t) = pre := by
      rw [hsplit, List.takeWhile_append_of_pos fun t' ht' => by
        simpa using fun h : t' = t => hpre (h ▸ ht'), List.takeWhile_cons_of_neg (by simp),
        List.append_nil]
    rw [hfront, hsplit, List.flatMap_append, List.flatMap_cons]
    apply exists_mem_take_iff
    · intro x hx hticker
      obtain ⟨t', ht', hmem⟩ := List.mem_flatMap.mp hx
      have heq : x.ticker = t' := ticker_of_mem_offered hmem
      exact hpre (hticker ▸ heq ▸ ht')
    · exact fun x hx => ticker_of_mem_offered hx
    · intro x hx hticker
      obtain ⟨t', -, hmem⟩ := List.mem_flatMap.mp hx
      have heq : x.ticker = t' := ticker_of_mem_offered hmem
      rw [← hticker, heq]
      exact List.ne_nil_of_mem hmem
  · refine iff_of_false ?_ fun h => ht h.1
    rintro ⟨l, x, hx, hticker⟩
    obtain ⟨t', ht', hmem⟩ := List.mem_flatMap.mp (List.mem_of_mem_take hx)
    have heq : x.ticker = t' := ticker_of_mem_offered hmem
    exact ht (hticker ▸ heq ▸ ht')

theorem eq_of_mem_of_mem {t : String} (htrain : t ∈ trainTickers) (hval : t ∈ valTickers) :
    t = "NFLX" := by
  have hall : ∀ t ∈ trainTickers, t ∈ valTickers → t = "NFLX" := by decide +kernel
  exact hall t htrain hval

/-- **The split by tickers has one ticker on both sides**, exactly when the loop comes to it, for
each split, before the quota of a label it has is full. -/
theorem shared_tickers (v : Labeller) (cfg : Config) (w : World) :
    (collect v cfg w (allEntries trainTickers valTickers)).tickersIn .train ∩
        (collect v cfg w (allEntries trainTickers valTickers)).tickersIn .val =
      {t | t = "NFLX" ∧
        Reached v cfg w trainTickers .train t ∧ Reached v cfg w valTickers .val t} := by
  ext t
  rw [Set.mem_inter_iff, mem_tickersIn_iff, mem_tickersIn_iff, Set.mem_ofPred_eq]
  constructor
  · rintro ⟨⟨htrain, hreach⟩, hval, hreach'⟩
    exact ⟨eq_of_mem_of_mem htrain hval, hreach, hreach'⟩
  · rintro ⟨rfl, hreach, hreach'⟩
    exact ⟨⟨by decide, hreach⟩, by decide, hreach'⟩

end Collect
end StockCharts
