import StockCharts.Disk
import StockCharts.StockDataset

/-!
# `stock_dataset` on a disk

The run starts by removing the directory of the dataset. So the directories hold the charts of the
**last** run and of no other (`filesIn_datasetRuns`), whatever was there, and the quota of a class
is one for the disk too: `train/c` and `val/c` together hold `MAX_PER_CLASS` files at most, after
any number of runs. Where the days of a download have different dates, the summary the run prints
is what the directories hold (`summary_eq_files`).

No ticker is in both splits: the order of the tickers is cut once, and the file names tell them
apart (`splits_disjoint`).
-/

set_option autoImplicit false

namespace StockCharts

/-! ## The disk -/

/-- On a disk without the directory there is nothing to remove. -/
def datasetSetup (cfg : DatasetConfig) (d : Disk) : Disk :=
  splits.foldl (fun d split =>
    datasetClasses.foldl (fun d cls => d.makedirs (classDir cfg.outputDir split cls)) d)
    (d.rmtree cfg.outputDir)

/-- What is outside one run. -/
structure DatasetAnswers (cfg : DatasetConfig) where
  worlds : String → DatasetWorld
  order : TickerOrder cfg

def DatasetAnswers.run {cfg : DatasetConfig} (a : DatasetAnswers cfg) : DatasetState :=
  datasetRun cfg a.worlds a.order

/-- One run. An exception that ends it leaves the files written before. -/
def datasetScript {cfg : DatasetConfig} (a : DatasetAnswers cfg) (d : Disk) : Disk :=
  writeCharts cfg.outputDir a.run.files (datasetSetup cfg d)

def datasetRuns {cfg : DatasetConfig} (as : List (DatasetAnswers cfg)) (d : Disk) : Disk :=
  as.foldl (fun d a => datasetScript a d) d

variable {cfg : DatasetConfig} {a : DatasetAnswers cfg} {d : Disk} {s : Split} {c : Cls}
  {p : String} {chart : Chart} {split : Split} {worlds : String → DatasetWorld}
  {tickers : List String}

/-! ## The charts of a run -/

/-- A chart on offer, with its ticker and the position of its day. -/
theorem mem_attempts {ticker : String} {w : DatasetWorld} {days : List Day} {indices : List ℕ}
    {o : Offer Cls Chart PyError} (ho : o ∈ attempts cfg split ticker w days indices) :
    ∃ i ∈ indices, chartAt cfg split ticker days i = .ok o.item := by
  induction indices with
  | nil => exact absurd ho (by simp [attempts])
  | cons i indices ih =>
    rw [attempts] at ho
    cases hchart : chartAt cfg split ticker days i with
    | error e => rw [hchart] at ho; exact absurd ho (by simp)
    | ok chart =>
      rw [hchart, List.mem_cons] at ho
      rcases ho with rfl | ho
      · exact ⟨i, List.mem_cons_self, hchart⟩
      · obtain ⟨j, hj, hchart'⟩ := ih ho
        exact ⟨j, List.mem_cons_of_mem _ hj, hchart'⟩

/-- A chart of a split is one of a ticker of the split, and is named after it. -/
def NamedFor (split : Split) (tickers : List String) (chart : Chart) : Prop :=
  chart.split = split ∧ ∃ ticker ∈ tickers, ∃ date, chart.filename = numbered ".png" ticker date

theorem namedFor_of_mem_tickerOffers {ticker : String} {o : Offer Cls Chart PyError}
    (ht : ticker ∈ tickers) (ho : o ∈ tickerOffers cfg split worlds ticker) :
    NamedFor split tickers o.item := by
  unfold tickerOffers at ho
  cases hd : tickerDays cfg (worlds ticker) with
  | error e => rw [hd] at ho; exact absurd ho (by simp)
  | ok days =>
    rw [hd] at ho
    obtain ⟨i, -, hchart⟩ := mem_attempts (List.mem_of_mem_filter ho)
    obtain ⟨hsplit, day, -, hname⟩ := chartAt_eq_ok hchart
    exact ⟨hsplit, ticker, ht, day.date, hname⟩

/-- The charts that the run has on offer, split by split. -/
def onOffer (cfg : DatasetConfig) (worlds : String → DatasetWorld) (split : Split)
    (tickers : List String) : List Chart :=
  ((splitBatches cfg split worlds tickers).flatMap Batch.offers).map Offer.item

theorem namedFor_of_mem_onOffer (h : chart ∈ onOffer cfg worlds split tickers) :
    NamedFor split tickers chart := by
  obtain ⟨o, ho, rfl⟩ := List.mem_map.mp h
  obtain ⟨b, hb, ho⟩ := List.mem_flatMap.mp ho
  obtain ⟨ticker, ht, rfl⟩ := mem_splitBatches hb
  exact namedFor_of_mem_tickerOffers ht ho

/-- A split writes some of the charts on offer, in their order. -/
theorem processSplit_files {st : DatasetState} (cfg : DatasetConfig) (split : Split)
    (worlds : String → DatasetWorld) (tickers : List String) (hst : st.uncaught = none) :
    ∃ l, (processSplit cfg worlds split tickers st).files = st.files ++ l ∧
      l.Sublist (onOffer cfg worlds split tickers) := by
  have hkept := congrArg Store.kept (processSplit_toStore cfg split worlds tickers hst).1
  obtain ⟨l, hl, hsub⟩ := fillAll_kept_sublist cfg.maxPerClass
    (splitBatches cfg split worlds tickers) st.toStore
  exact ⟨l, hkept.trans hl, hsub⟩

/-- The files of a run are some of the charts on offer, the training split's first. -/
theorem run_files (cfg : DatasetConfig) (worlds : String → DatasetWorld) (o : TickerOrder cfg) :
    (datasetRun cfg worlds o).files.Sublist
      (onOffer cfg worlds .train (tickersOf o .train) ++ onOffer cfg worlds .val (tickersOf o .val))
    := by
  obtain ⟨l, hl, hsub⟩ :=
    processSplit_files cfg .train worlds (tickersOf o .train) DatasetState.uncaught_start
  obtain ⟨-, hnone, hsome⟩ :=
    processSplit_toStore cfg .train worlds (tickersOf o .train) DatasetState.uncaught_start
  have hl' : (processSplit cfg worlds .train (tickersOf o .train) DatasetState.start).files = l := hl
  rw [datasetRun]
  cases hf : splitFailure cfg .train worlds (tickersOf o .train) with
  | some e =>
    rw [processSplit_over (hsome (by rw [hf]; simp)), hl']
    exact hsub.trans (List.sublist_append_left _ _)
  | none =>
    obtain ⟨l', hval, hsub'⟩ := processSplit_files cfg .val worlds (tickersOf o .val) (hnone hf)
    rw [hval, hl']
    exact hsub.append hsub'

theorem namedFor_of_mem_files (h : chart ∈ a.run.files) :
    NamedFor chart.split (tickersOf a.order chart.split) chart := by
  rcases List.mem_append.mp ((run_files cfg a.worlds a.order).subset h) with h | h
  · have hn := namedFor_of_mem_onOffer h
    rw [hn.1]
    exact hn
  · have hn := namedFor_of_mem_onOffer h
    rw [hn.1]
    exact hn

theorem tickersOf_subset (o : TickerOrder cfg) (s : Split) : ∀ t ∈ tickersOf o s, t ∈ cfg.tickers := by
  intro t ht
  apply o.perm.mem_iff.mp
  cases s with
  | train => exact List.mem_of_mem_take ht
  | val => exact List.mem_of_mem_drop ht

theorem tickersOf_disjoint (o : TickerOrder cfg) :
    ∀ t ∈ tickersOf o .train, t ∉ tickersOf o .val := by
  intro t ht hv
  exact List.disjoint_take_drop (o.perm.nodup_iff.mpr cfg.tickers_nodup) le_rfl ht hv

/-- The tickers that have a chart in the split. -/
def DatasetAnswers.drawnTickers (a : DatasetAnswers cfg) (s : Split) : Set String :=
  {t | ∃ chart ∈ a.run.files, chart.split = s ∧ ∃ date, chart.filename = numbered ".png" t date}

/-- **The splits share no ticker**, in any run. -/
theorem splits_disjoint (a : DatasetAnswers cfg) :
    a.drawnTickers .train ∩ a.drawnTickers .val = ∅ := by
  have hmem : ∀ s, ∀ t ∈ a.drawnTickers s, t ∈ tickersOf a.order s := by
    rintro s t ⟨chart, hchart, rfl, date, hname⟩
    obtain ⟨-, t', ht', date', hname'⟩ := namedFor_of_mem_files hchart
    obtain ⟨rfl, -⟩ := numbered_inj (by decide) (hname.symm.trans hname')
    exact ht'
  rw [Set.eq_empty_iff_forall_notMem]
  intro t ht
  exact tickersOf_disjoint a.order t (hmem .train t ht.1) (hmem .val t ht.2)

/-- The counters are those of the files. -/
theorem classCounts_eq_countP (cfg : DatasetConfig) (worlds : String → DatasetWorld)
    (o : TickerOrder cfg) (s : Split) (c : Cls) :
    (datasetRun cfg worlds o).classCounts s c =
      (datasetRun cfg worlds o).files.countP fun chart =>
        decide (chart.split = s ∧ chart.cls = c) := by
  have hstep : ∀ (st : DatasetState) (chart : Chart),
      (st.classCounts s c = st.files.countP fun x => decide (x.split = s ∧ x.cls = c)) →
        ((st.keep chart).classCounts s c =
          (st.keep chart).files.countP fun x => decide (x.split = s ∧ x.cls = c)) := by
    intro st chart h
    simp only [DatasetState.keep, List.countP_append, List.countP_singleton, ← h]
    by_cases hk : s = chart.split ∧ c = chart.cls
    · simp [hk]
    · have hk' : ¬ (chart.split = s ∧ chart.cls = c) := fun hc => hk ⟨hc.1.symm, hc.2.symm⟩
      simp [hk, hk']
  exact processSplit_inv
    (P := fun st => st.classCounts s c = st.files.countP fun x => decide (x.split = s ∧ x.cls = c))
    (processSplit_inv (P := fun st =>
        st.classCounts s c = st.files.countP fun x => decide (x.split = s ∧ x.cls = c))
      rfl (fun st e h => h) fun st chart _ h => hstep st chart h)
    (fun st e h => h) fun st chart _ h => hstep st chart h

/-! ## Run after run -/

theorem plain_of_mem_files (h : chart ∈ a.run.files) : '/' ∉ chart.filename.toList := by
  obtain ⟨-, t, ht, n, hn⟩ := namedFor_of_mem_files h
  rw [hn]
  exact slash_notMem_numbered (by decide) (cfg.tickers_plain t (tickersOf_subset _ _ t ht))

/-- The setup leaves nothing in the class directories. -/
theorem not_under_datasetSetup (cfg : DatasetConfig) (d : Disk) (s : Split) (c : Cls) :
    ∀ p ∈ (datasetSetup cfg d).files, ¬ Under (classDir cfg.outputDir s c) p := by
  intro p hp hu
  exact (mem_rmtree.mp hp).2 (under_of_classDir cfg.outputDir_name hu)

theorem datasetRuns_append (as : List (DatasetAnswers cfg)) (a : DatasetAnswers cfg) (d : Disk) :
    datasetRuns (as ++ [a]) d = datasetScript a (datasetRuns as d) := by
  rw [datasetRuns, List.foldl_append, List.foldl_cons, List.foldl_nil, ← datasetRuns]

/-- **The directories hold the charts of the last run.** -/
theorem filesIn_datasetRuns (as : List (DatasetAnswers cfg)) (a : DatasetAnswers cfg) (d : Disk)
    (s : Split) (c : Cls) :
    (datasetRuns (as ++ [a]) d).filesIn (classDir cfg.outputDir s c) =
      (((chartsIn s c a.run.files).map (Chart.path cfg.outputDir)).toFinset : Finset String) := by
  rw [datasetRuns_append]
  exact filesIn_writeCharts (not_under_datasetSetup cfg _ s c) fun _ h => plain_of_mem_files h

/-- **The quota of a class holds on the disk**, over both splits, after any runs and from any
disk. -/
theorem dataset_quota (as : List (DatasetAnswers cfg)) (a : DatasetAnswers cfg) (d : Disk)
    (c : Cls) :
    ((datasetRuns (as ++ [a]) d).filesIn (classDir cfg.outputDir .train c)).ncard +
        ((datasetRuns (as ++ [a]) d).filesIn (classDir cfg.outputDir .val c)).ncard ≤
      cfg.maxPerClass := by
  have hle : ∀ s, ((datasetRuns (as ++ [a]) d).filesIn (classDir cfg.outputDir s c)).ncard ≤
      a.run.classCounts s c := by
    intro s
    rw [filesIn_datasetRuns, Set.ncard_coe_finset, DatasetAnswers.run, classCounts_eq_countP,
      ← length_chartsIn]
    exact (List.toFinset_card_le _).trans (List.length_map _).le
  have htotal := datasetRun_total cfg a.worlds a.order c
  have ht := hle .train
  have hv := hle .val
  rw [DatasetAnswers.run] at ht hv
  omega

/-! ## Where the dates are distinct -/

/-- The days of the download have different dates. -/
def DatesDistinct (w : DatasetWorld) : Prop :=
  ∀ d, w.download = .ok d → (d.days.map Day.date).Nodup

theorem nodup_tickerDays {w : DatasetWorld} {days : List Day} (h : DatesDistinct w)
    (hd : tickerDays cfg w = .ok days) : (days.map Day.date).Nodup := by
  unfold tickerDays at hd
  cases hw : w.download with
  | error e =>
    rw [hw] at hd
    simp only [Except.ok.injEq] at hd
    rw [← hd]
    exact List.nodup_nil
  | ok d =>
    rw [hw] at hd
    simp only at hd
    split at hd
    · simp only [Except.ok.injEq] at hd
      rw [← hd]
      exact List.nodup_nil
    · split at hd
      · exact absurd hd (by simp)
      · simp only [Except.ok.injEq] at hd
        rw [← hd]
        exact (h d hw).sublist (List.filter_sublist.map Day.date)

theorem nodup_attempts {ticker : String} {w : DatasetWorld} {days : List Day} {indices : List ℕ}
    (hdays : (days.map Day.date).Nodup) (hi : indices.Nodup) :
    ((attempts cfg split ticker w days indices).map fun o => o.item.filename).Nodup := by
  induction indices with
  | nil => exact List.nodup_nil
  | cons i indices ih =>
    rw [List.nodup_cons] at hi
    rw [attempts]
    cases hchart : chartAt cfg split ticker days i with
    | error e => exact List.nodup_nil
    | ok chart =>
      rw [List.map_cons, List.nodup_cons]
      refine ⟨fun hmem => hi.1 ?_, ih hi.2⟩
      obtain ⟨o, ho, hname⟩ := List.mem_map.mp hmem
      obtain ⟨j, hj, hchart'⟩ := mem_attempts ho
      obtain ⟨-, day, hday, hn⟩ := chartAt_eq_ok hchart
      obtain ⟨-, day', hday', hn'⟩ := chartAt_eq_ok hchart'
      have heq : numbered ".png" ticker day'.date = numbered ".png" ticker day.date := by
        rw [← hn, ← hn']
        exact hname
      have hdate := (numbered_inj (by decide) heq).2
      -- distinct dates name distinct positions
      have hij : j = i := by
        have hlt : j < (days.map Day.date).length := by
          rw [List.length_map]
          exact (List.getElem?_eq_some_iff.mp hday').1
        refine (List.getElem?_inj hlt hdays).mp ?_
        rw [List.getElem?_map, List.getElem?_map, hday, hday', Option.map_some, Option.map_some,
          hdate]
      rw [← hij]
      exact hj

/-- On distinct dates no name is offered twice by a ticker. -/
theorem nodup_tickerOffers {ticker : String} (cfg : DatasetConfig) (split : Split)
    (h : DatesDistinct (worlds ticker)) :
    ((tickerOffers cfg split worlds ticker).map fun o => o.item.filename).Nodup := by
  unfold tickerOffers
  cases hd : tickerDays cfg (worlds ticker) with
  | error e => exact List.nodup_nil
  | ok days =>
    have hstarts : (windowStarts cfg days).Nodup := List.nodup_range' cfg.stride cfg.stride_pos
    exact (nodup_attempts (nodup_tickerDays h hd) hstarts).sublist (List.filter_sublist.map _)

theorem nodup_onOffer (h : ∀ t ∈ tickers, DatesDistinct (worlds t)) (hnd : tickers.Nodup) :
    ((onOffer cfg worlds split tickers).map Chart.filename).Nodup := by
  induction tickers with
  | nil => exact List.nodup_nil
  | cons t tickers ih =>
    rw [List.nodup_cons] at hnd
    have ih' := ih (fun t' ht' => h t' (List.mem_cons_of_mem _ ht')) hnd.2
    have hhead := nodup_tickerOffers cfg split (h t List.mem_cons_self)
    rw [onOffer, splitBatches, List.flatMap_cons, List.map_append, List.map_append, List.map_map,
      List.nodup_append]
    refine ⟨hhead, ?_, ?_⟩
    · cases tickerFailure cfg split worlds t with
      | none => exact ih'
      | some e => exact List.nodup_nil
    · intro name hname name' hname' heq
      obtain ⟨o, ho, rfl⟩ := List.mem_map.mp hname
      obtain ⟨chart, hchart, rfl⟩ := List.mem_map.mp hname'
      have hmem : chart ∈ onOffer cfg worlds split tickers := by
        cases hf : tickerFailure cfg split worlds t with
        | none => rw [hf] at hchart; exact hchart
        | some e => rw [hf] at hchart; exact absurd hchart (by simp)
      obtain ⟨-, t₁, ht₁, n, hn⟩ := namedFor_of_mem_tickerOffers (List.mem_singleton_self t) ho
      obtain ⟨-, t₂, ht₂, n', hn'⟩ := namedFor_of_mem_onOffer hmem
      have hnames : numbered ".png" t₁ n = numbered ".png" t₂ n' := by
        rw [← hn, ← hn']
        exact heq
      rw [List.mem_singleton] at ht₁
      have ht : t = t₂ := ht₁ ▸ (numbered_inj (by decide) hnames).1
      exact hnd.1 (ht ▸ ht₂)

/-- So the charts of a run are files of their own. -/
theorem nodup_run_files (a : DatasetAnswers cfg) (h : ∀ t ∈ cfg.tickers, DatesDistinct (a.worlds t)) :
    a.run.files.Nodup := by
  have hsub := run_files cfg a.worlds a.order
  have hpart : ∀ s, (onOffer cfg a.worlds s (tickersOf a.order s)).Nodup := by
    intro s
    have hnd : (tickersOf a.order s).Nodup := by
      have horder := a.order.perm.nodup_iff.mpr cfg.tickers_nodup
      cases s with
      | train => exact horder.sublist (List.take_sublist _ _)
      | val => exact horder.sublist (List.drop_sublist _ _)
    exact (nodup_onOffer (fun t ht => h t (tickersOf_subset _ _ t ht)) hnd).of_map _
  refine List.Nodup.sublist hsub (List.nodup_append.mpr ⟨hpart .train, hpart .val, ?_⟩)
  rintro x hx y hy rfl
  have hs := (namedFor_of_mem_onOffer hx).1
  rw [(namedFor_of_mem_onOffer hy).1] at hs
  exact absurd hs (by decide)

/-- **The summary is what the directories hold**, after any runs. -/
theorem summary_eq_files (as : List (DatasetAnswers cfg)) (a : DatasetAnswers cfg) (d : Disk)
    (h : ∀ t ∈ cfg.tickers, DatesDistinct (a.worlds t)) (s : Split) (c : Cls) :
    ((datasetRuns (as ++ [a]) d).filesIn (classDir cfg.outputDir s c)).ncard =
      a.run.classCounts s c := by
  rw [datasetRuns_append, DatasetAnswers.run, classCounts_eq_countP]
  exact ncard_filesIn_writeCharts (not_under_datasetSetup cfg _ s c)
    (fun _ hchart => plain_of_mem_files hchart) (nodup_run_files a h)

def steadyAnswers : DatasetAnswers DatasetConfig.script :=
  ⟨steadyWorld fun _ _ => .ok (), TickerOrder.listed _⟩

theorem summary_eq_files_steady :
    ((datasetRuns [steadyAnswers] Disk.absent).filesIn
        (classDir "stock_dataset" .train (.label .hold))).ncard =
      steadyAnswers.run.classCounts .train (.label .hold) := by
  refine summary_eq_files [] steadyAnswers Disk.absent (fun t _ d hd => ?_) .train (.label .hold)
  rw [← Except.ok.inj hd]
  decide

end StockCharts
