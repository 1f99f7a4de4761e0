import StockCharts.ChartFiles
import StockCharts.Lib.Batches

/-!
# The generator of `stock_dataset`

An earlier generator of the same charts, kept in the editor's history. It differs from
`generate_data.py` in what its loops do with the same three events:

* a quota is one of a **class**, over both splits together, and `unknown` is one of the classes;
* a render that raises is caught *around the render*, and costs its own window;
* nothing else in the window loop is caught. A close of zero is a `ZeroDivisionError`, a frame
  without closes a `KeyError`, and either **ends the whole run**.

The training tickers come first, so the validation split gets what they leave of each quota.
`classCounts_eq` says how much that is, for every run: nothing of a class of which the training
tickers had a quota.
-/

set_option autoImplicit false

namespace StockCharts

/-! ## Constants -/

structure DatasetConfig where
  outputDir : String
  maxPerClass : ℕ
  windowSize : ℕ
  futureLookahead : ℕ
  stride : ℕ
  windowSize_pos : 0 < windowSize
  stride_pos : 0 < stride
  buyThreshold : ℚ
  sellThreshold : ℚ
  holdLimit : ℚ
  tickers : List String
  outputDir_name : IsName outputDir
  tickers_nodup : tickers.Nodup
  tickers_plain : ∀ t ∈ tickers, '/' ∉ t.toList

/-- `CLASSES`. -/
def datasetClasses : List Cls := [.label .buy, .label .sell, .label .hold, .unknown]

theorem mem_datasetClasses (c : Cls) : c ∈ datasetClasses := by
  rcases c with l | _
  · cases l <;> decide
  · decide

def datasetTickers : List String :=
  ["AAPL", "MSFT", "GOOGL", "AMZN", "NVDA", "TSLA", "META", "AVGO", "CSCO", "ADBE",
    "CRM", "INTC", "AMD", "QCOM", "ORCL", "TXN", "AMAT", "NOW", "INTU", "MU",
    "LRCX", "PANW", "SNPS", "CDNS", "KLAC", "IBM", "AMCR", "ADI", "FI", "FIS",
    "JPM", "V", "MA", "BAC", "WFC", "GS", "MS", "C", "BLK", "AXP",
    "SCHW", "PGR", "CB", "MMC", "AIG", "MET", "BK", "COF", "USB", "PNC",
    "JNJ", "UNH", "PFE", "ABT", "MRK", "TMO", "LLY", "DHR", "BMY", "AMGN",
    "GILD", "CVS", "CI", "ISRG", "SYK", "MDT", "REGN", "VRTX", "BDX", "ZTS",
    "WMT", "PG", "HD", "KO", "PEP", "COST", "MCD", "NKE", "PM", "SBUX",
    "TGT", "LOW", "EL", "CL", "KMB", "MDLZ", "DG", "DLTR", "ORLY", "AZO",
    "XOM", "CVX", "GE", "CAT", "BA", "HON", "UPS", "UNP", "RTX", "LMT",
    "DE", "COP", "SLB", "EOG", "MPC", "PSX", "VLO", "FDX", "NSC", "GD"]

def DatasetConfig.script : DatasetConfig where
  outputDir := "stock_dataset"
  maxPerClass := 1000
  windowSize := 40
  futureLookahead := 5
  stride := 1
  windowSize_pos := by decide
  stride_pos := by decide
  buyThreshold := 0.020
  sellThreshold := -0.020
  holdLimit := 0.005
  tickers := datasetTickers
  outputDir_name := ⟨by decide, by decide⟩
  tickers_nodup := by decide +kernel
  tickers_plain := by decide +kernel

/-! ## The frame -/

/-- A row of the download: `%Y%m%d` of its day as a number, the required columns, and the cells of
the others. -/
structure Day where
  date : ℕ
  prices : Row
  others : List Price

structure Download where
  columns : List Col
  days : List Day

def Download.dropna (d : Download) : List Day :=
  -- A row goes when any of its cells is missing, in any column.
  d.days.filter fun day =>
    d.columns.all (fun c => decide (day.prices c ≠ .nan)) &&
      day.others.all fun x => decide (x ≠ .nan)

/-- What the world answers while one ticker is processed. -/
structure DatasetWorld where
  /-- `yf.download(ticker_symbol, period="5y", interval="1d")`. -/
  download : Except PyError Download
  /-- `generate_chart_image`: it writes the file, or raises and writes nothing. -/
  generateChartImage : List Day → Chart → Except PyError Unit

/-! ## `process_ticker` -/

/-- `class_counts`, the files written, and the exception that ended the run. -/
structure DatasetState where
  classCounts : Split → Cls → ℕ
  files : List Chart
  uncaught : Option PyError

namespace DatasetState

def start : DatasetState := ⟨fun _ _ => 0, [], none⟩

theorem uncaught_start : start.uncaught = none := rfl

def keep (st : DatasetState) (chart : Chart) : DatasetState :=
  { st with
    classCounts := fun s c =>
      if s = chart.split ∧ c = chart.cls then st.classCounts s c + 1 else st.classCounts s c
    files := st.files ++ [chart] }

end DatasetState

def isClassFull (cfg : DatasetConfig) (st : DatasetState) (cls : Cls) : Bool :=
  decide (cfg.maxPerClass ≤ st.classCounts .train cls + st.classCounts .val cls)

def allClassesFull (cfg : DatasetConfig) (st : DatasetState) : Bool :=
  datasetClasses.all (isClassFull cfg st)

def labelOfChange (cfg : DatasetConfig) (percentChange : Price) : Cls :=
  if .fin cfg.buyThreshold ≤ percentChange then .label .buy
  else if percentChange ≤ .fin cfg.sellThreshold then .label .sell
  else if Flt.abs percentChange ≤ .fin cfg.holdLimit then .label .hold
  else .unknown

def closeAt (days : List Day) (k : ℕ) : Except PyError Price :=
  match days[k]? with
  | none => .error .indexError
  | some day => .ok (day.prices .Close)

/-- The label of the window in front of day `i`. The division is one of Python floats, and raises
on zero. -/
def changeLabel (cfg : DatasetConfig) (days : List Day) (i : ℕ) : Except PyError Cls := do
  let currentPrice ← closeAt days (i - 1)
  let futurePrice ← closeAt days (i + cfg.futureLookahead - 1)
  if currentPrice = .fin 0 then
    throw (.other "float division by zero")
  return labelOfChange cfg ((futurePrice - currentPrice) / currentPrice)

/-- The file of the window in front of day `i`, which is named by the date of day `i`. -/
def chartAt (cfg : DatasetConfig) (split : Split) (ticker : String) (days : List Day) (i : ℕ) :
    Except PyError Chart := do
  let label ← changeLabel cfg days i
  match days[i]? with
  | none => throw .indexError
  | some day => return ⟨split, label, numbered ".png" ticker day.date⟩

def windowDays (cfg : DatasetConfig) (days : List Day) (i : ℕ) : List Day :=
  -- `df.iloc[i - WINDOW_SIZE : i]`.
  (days.drop (i - cfg.windowSize)).take cfg.windowSize

/-- One iteration of the window loop, past its break. -/
def datasetBody (cfg : DatasetConfig) (split : Split) (ticker : String) (w : DatasetWorld)
    (days : List Day) (i : ℕ) (st : DatasetState) : DatasetState :=
  match chartAt cfg split ticker days i with
  | .error e => { st with uncaught := some e }
  | .ok chart =>
    if isClassFull cfg st chart.cls then st
    else
      match w.generateChartImage (windowDays cfg days i) chart with
      | .error _ => st
      | .ok _ => st.keep chart

/-- The loops end where all classes are full, and where an exception has left them. -/
def loopOver (cfg : DatasetConfig) (st : DatasetState) : Bool :=
  st.uncaught.isSome || allClassesFull cfg st

def datasetLoop (cfg : DatasetConfig) (split : Split) (ticker : String) (w : DatasetWorld)
    (days : List Day) (indices : List ℕ) (st : DatasetState) : DatasetState :=
  forLoop (fun _ st => loopOver cfg st)
    (fun i st => (.ok (datasetBody cfg split ticker w days i st) : Except Empty DatasetState))
    indices st

/-- The rows the window loop goes over: none where the download raises or a guard skips the
ticker. -/
def tickerDays (cfg : DatasetConfig) (w : DatasetWorld) : Except PyError (List Day) :=
  match w.download with
  | .error _ => .ok []
  | .ok d =>
    -- `df.empty` is also true of rows without any column, which are left out here.
    if d.days.isEmpty ∨ d.days.length < cfg.windowSize + cfg.futureLookahead + 10 then .ok []
    else if .Close ∉ d.columns then .error (.other "Close")
    else .ok d.dropna

def windowStarts (cfg : DatasetConfig) (days : List Day) : List ℕ :=
  -- `range(WINDOW_SIZE, len(df) - FUTURE_LOOKAHEAD, STRIDE)`.
  List.range' cfg.windowSize
    ((days.length - cfg.futureLookahead - cfg.windowSize + cfg.stride - 1) / cfg.stride) cfg.stride

def processTicker (cfg : DatasetConfig) (split : Split) (worlds : String → DatasetWorld)
    (ticker : String) (st : DatasetState) : DatasetState :=
  if allClassesFull cfg st then st
  else
    match tickerDays cfg (worlds ticker) with
    | .error e => { st with uncaught := some e }
    | .ok days =>
      datasetLoop cfg split ticker (worlds ticker) days (windowStarts cfg days) st

/-! ## The run -/

def processSplit (cfg : DatasetConfig) (worlds : String → DatasetWorld) (split : Split)
    (tickers : List String) (st : DatasetState) : DatasetState :=
  forLoop (fun _ st => loopOver cfg st)
    (fun ticker st => (.ok (processTicker cfg split worlds ticker st) : Except Empty DatasetState))
    tickers st

/-- `random.shuffle` of a copy of `TICKERS`. -/
structure TickerOrder (cfg : DatasetConfig) where
  order : List String
  perm : order.Perm cfg.tickers

def tickersOf {cfg : DatasetConfig} (o : TickerOrder cfg) : Split → List String
  | .train => o.order.take (splitIndex o.order.length)
  | .val => o.order.drop (splitIndex o.order.length)

def datasetRun (cfg : DatasetConfig) (worlds : String → DatasetWorld) (o : TickerOrder cfg) :
    DatasetState :=
  processSplit cfg worlds .val (tickersOf o .val)
    (processSplit cfg worlds .train (tickersOf o .train) DatasetState.start)

variable {cfg : DatasetConfig} {split : Split} {ticker : String} {w : DatasetWorld}
  {worlds : String → DatasetWorld} {days : List Day} {indices : List ℕ} {tickers : List String}
  {st : DatasetState} {i : ℕ} {c : Cls} {e : PyError} {chart : Chart}

/-! ## What one iteration can do -/

theorem chartAt_eq_ok (h : chartAt cfg split ticker days i = .ok chart) :
    chart.split = split ∧
      ∃ day, days[i]? = some day ∧ chart.filename = numbered ".png" ticker day.date := by
  unfold chartAt at h
  cases hl : changeLabel cfg days i with
  | error e => rw [hl] at h; exact absurd h (by simp [bind, Except.bind])
  | ok cls =>
    rw [hl] at h
    simp only [bind, Except.bind] at h
    cases hd : days[i]? with
    | none => rw [hd] at h; exact absurd h (by simp [throw, throwThe, MonadExceptOf.throw])
    | some day =>
      rw [hd] at h
      simp only [pure, Except.pure, Except.ok.injEq] at h
      rw [← h]
      exact ⟨rfl, day, rfl, rfl⟩

/-- An iteration is left by an exception, passes its window over, or keeps its chart. -/
theorem datasetBody_cases (cfg : DatasetConfig) (split : Split) (ticker : String) (w : DatasetWorld)
    (days : List Day) (i : ℕ) (st : DatasetState) :
    (∃ e, datasetBody cfg split ticker w days i st = { st with uncaught := some e }) ∨
      datasetBody cfg split ticker w days i st = st ∨
      ∃ chart, chartAt cfg split ticker days i = .ok chart ∧
        datasetBody cfg split ticker w days i st = st.keep chart := by
  unfold datasetBody
  cases hchart : chartAt cfg split ticker days i with
  | error e => exact Or.inl ⟨e, rfl⟩
  | ok chart =>
    right
    simp only
    split
    · exact Or.inl rfl
    · split
      · exact Or.inl rfl
      · exact Or.inr ⟨chart, rfl, rfl⟩

/-- What every kept chart and every exception of the split preserves, the loop over its tickers
preserves. -/
theorem processSplit_inv {P : DatasetState → Prop} (h0 : P st)
    (huncaught : ∀ st e, P st → P { st with uncaught := some e })
    (hkeep : ∀ st (chart : Chart), chart.split = split → P st → P (st.keep chart)) :
    P (processSplit cfg worlds split tickers st) := by
  refine forLoop_inv h0 fun ticker _ s₁ s₂ _ hb hP => ?_
  rw [Except.ok.injEq] at hb
  subst hb
  unfold processTicker
  split
  · exact hP
  · split
    · exact huncaught _ _ hP
    · refine forLoop_inv hP fun i _ s₃ s₄ _ hb' hP' => ?_
      rw [Except.ok.injEq] at hb'
      subst hb'
      rcases datasetBody_cases cfg split ticker (worlds ticker) _ i s₃ with
        ⟨e, he⟩ | he | ⟨chart, hchart, he⟩
      · rw [he]
        exact huncaught _ _ hP'
      · rw [he]
        exact hP'
      · rw [he]
        exact hkeep _ chart (chartAt_eq_ok hchart).1 hP'

/-! ## The loops fill the quotas of the classes -/

/-- What a quota of the script is one of: a class over both splits. -/
def DatasetState.toStore (st : DatasetState) : Store Cls Chart where
  counts c := st.classCounts .train c + st.classCounts .val c
  kept := st.files

theorem toStore_counts (st : DatasetState) (c : Cls) :
    st.toStore.counts c = st.classCounts .train c + st.classCounts .val c := rfl

theorem toStore_start (c : Cls) : DatasetState.start.toStore.counts c = 0 := rfl

/-- A chart that is kept counts once in the store over both splits. -/
theorem toStore_keep (st : DatasetState) (chart : Chart) :
    (st.keep chart).toStore = st.toStore.keep chart.cls chart := by
  rw [DatasetState.toStore, Store.keep, Store.mk.injEq]
  refine ⟨?_, rfl⟩
  funext c
  by_cases hc : c = chart.cls
  · subst hc
    cases hs : chart.split
    · simp [DatasetState.keep, DatasetState.toStore, hs]
      omega
    · simp [DatasetState.keep, DatasetState.toStore, hs]
      omega
  · simp [DatasetState.keep, DatasetState.toStore, hc]

/-- The test of the loops is the library's `full`, at the totals. -/
theorem allClassesFull_eq_full :
    allClassesFull cfg st = full cfg.maxPerClass datasetClasses st.toStore := rfl

/-- The window in front of day `i`, as an offer to keep its chart. -/
def chartOffer (cfg : DatasetConfig) (w : DatasetWorld) (days : List Day) (i : ℕ) (chart : Chart) :
    Offer Cls Chart PyError where
  cls := chart.cls
  item := chart
  outcome := w.generateChartImage (windowDays cfg days i) chart

/-- The offers of a ticker, up to the first exception that nothing catches. -/
def attempts (cfg : DatasetConfig) (split : Split) (ticker : String) (w : DatasetWorld)
    (days : List Day) : List ℕ → List (Offer Cls Chart PyError)
  | [] => []
  | i :: indices =>
    match chartAt cfg split ticker days i with
    | .error _ => []
    | .ok chart => chartOffer cfg w days i chart :: attempts cfg split ticker w days indices

/-- That exception. -/
def failure (cfg : DatasetConfig) (split : Split) (ticker : String) (days : List Day) :
    List ℕ → Option PyError
  | [] => none
  | i :: indices =>
    match chartAt cfg split ticker days i with
    | .error e => some e
    | .ok _ => failure cfg split ticker days indices

/-- An offer that does not land is passed over: the render is guarded. -/
theorem datasetBody_toStore (w : DatasetWorld) (st : DatasetState)
    (h : chartAt cfg split ticker days i = .ok chart) :
    (datasetBody cfg split ticker w days i st).uncaught = st.uncaught ∧
      (datasetBody cfg split ticker w days i st).toStore =
        if cfg.maxPerClass ≤ st.toStore.counts chart.cls then st.toStore
        else if (chartOffer cfg w days i chart).lands then
          st.toStore.keep chart.cls chart
        else st.toStore := by
  have hbody : datasetBody cfg split ticker w days i st =
      if isClassFull cfg st chart.cls then st
      else match w.generateChartImage (windowDays cfg days i) chart with
        | .error _ => st
        | .ok _ => st.keep chart := by
    rw [datasetBody, h]
  rw [hbody]
  by_cases hc : cfg.maxPerClass ≤ st.toStore.counts chart.cls
  · have hfull : isClassFull cfg st chart.cls = true := decide_eq_true hc
    rw [if_pos hc, hfull, if_pos rfl]
    exact ⟨rfl, rfl⟩
  · have hopen : isClassFull cfg st chart.cls = false := decide_eq_false hc
    rw [if_neg hc, hopen, if_neg Bool.false_ne_true]
    cases hr : w.generateChartImage (windowDays cfg days i) chart with
    | error e =>
      have hl : (chartOffer cfg w days i chart).lands = false := by
        simp only [chartOffer, Offer.lands, hr]
      rw [hl, if_neg Bool.false_ne_true]
      exact ⟨rfl, rfl⟩
    | ok u =>
      have hl : (chartOffer cfg w days i chart).lands = true := by
        simp only [chartOffer, Offer.lands, hr]
      rw [hl, if_pos rfl]
      exact ⟨rfl, toStore_keep st chart⟩

theorem datasetLoop_over (h : loopOver cfg st = true) :
    datasetLoop cfg split ticker w days indices st = st := by
  cases indices with
  | nil => rfl
  | cons i indices => exact forLoop_stop h

theorem datasetLoop_cons (h : loopOver cfg st = false) :
    datasetLoop cfg split ticker w days (i :: indices) st =
      datasetLoop cfg split ticker w days indices (datasetBody cfg split ticker w days i st) :=
  forLoop_ok h rfl

theorem loopOver_of_uncaught (h : st.uncaught = some e) : loopOver cfg st = true := by
  simp [loopOver, h]

/-- As long as nothing is uncaught, a loop is left by its break only. -/
theorem loopOver_eq (h : st.uncaught = none) :
    loopOver cfg st = full cfg.maxPerClass datasetClasses st.toStore := by
  simp [loopOver, h, allClassesFull_eq_full]

/-- **The window loop fills the classes from the offers that land**, up to the exception. Where
there is one, the run is over behind it: it was raised, or all classes were full before. -/
theorem datasetLoop_toStore (hst : st.uncaught = none) :
    (datasetLoop cfg split ticker w days indices st).toStore =
        fill cfg.maxPerClass datasetClasses
          ((attempts cfg split ticker w days indices).filter Offer.lands) st.toStore ∧
      (failure cfg split ticker days indices = none →
        (datasetLoop cfg split ticker w days indices st).uncaught = none) ∧
      (failure cfg split ticker days indices ≠ none →
        loopOver cfg (datasetLoop cfg split ticker w days indices st) = true) := by
  induction indices generalizing st with
  | nil => exact ⟨rfl, fun _ => hst, fun h => absurd rfl h⟩
  | cons i indices ih =>
    cases hf : full cfg.maxPerClass datasetClasses st.toStore with
    | true =>
      have hover : loopOver cfg st = true := by rw [loopOver_eq hst, hf]
      rw [datasetLoop_over hover, fill_of_full hf]
      exact ⟨rfl, fun _ => hst, fun _ => hover⟩
    | false =>
      have hgo : loopOver cfg st = false := by rw [loopOver_eq hst, hf]
      rw [datasetLoop_cons hgo]
      cases hchart : chartAt cfg split ticker days i with
      | error e =>
        have hbody : datasetBody cfg split ticker w days i st = { st with uncaught := some e } := by
          rw [datasetBody, hchart]
        have hover : loopOver cfg (datasetBody cfg split ticker w days i st) = true :=
          loopOver_of_uncaught (e := e) (by rw [hbody])
        have hattempts : attempts cfg split ticker w days (i :: indices) = [] := by
          rw [attempts, hchart]
        have hfailure : failure cfg split ticker days (i :: indices) = some e := by
          rw [failure, hchart]
        rw [datasetLoop_over hover, hattempts, hfailure]
        refine ⟨?_, fun h => absurd h (by simp), fun _ => hover⟩
        rw [hbody]
        rfl
      | ok chart =>
        obtain ⟨huncaught, hstore⟩ := datasetBody_toStore w st hchart
        obtain ⟨hfill, hnone, hsome⟩ := ih (huncaught.trans hst)
        have hattempts : attempts cfg split ticker w days (i :: indices) =
            chartOffer cfg w days i chart :: attempts cfg split ticker w days indices := by
          rw [attempts, hchart]
        have hfailure : failure cfg split ticker days (i :: indices) =
            failure cfg split ticker days indices := by rw [failure, hchart]
        rw [hattempts, hfailure]
        refine ⟨?_, hnone, hsome⟩
        rw [hfill, hstore]
        cases hl : (chartOffer cfg w days i chart).lands with
        | true =>
          rw [filter_lands_cons_true hl, if_pos rfl]
          by_cases hc : cfg.maxPerClass ≤ st.toStore.counts chart.cls
          · rw [if_pos hc, fill_closed (o := chartOffer cfg w days i chart) hc]
          · rw [if_neg hc]
            exact (fill_keep (o := chartOffer cfg w days i chart) (mem_datasetClasses _)
              (not_le.mp hc) hl).symm
        | false =>
          rw [filter_lands_cons_false hl, if_neg Bool.false_ne_true, ite_self]

/-! ## The tickers of a split -/

/-- The charts of a ticker that can be drawn, as offers. -/
def tickerOffers (cfg : DatasetConfig) (split : Split) (worlds : String → DatasetWorld)
    (ticker : String) : List (Offer Cls Chart PyError) :=
  match tickerDays cfg (worlds ticker) with
  | .error _ => []
  | .ok days =>
    (attempts cfg split ticker (worlds ticker) days (windowStarts cfg days)).filter Offer.lands

def tickerFailure (cfg : DatasetConfig) (split : Split) (worlds : String → DatasetWorld)
    (ticker : String) : Option PyError :=
  match tickerDays cfg (worlds ticker) with
  | .error e => some e
  | .ok days => failure cfg split ticker days (windowStarts cfg days)

def tickerBatch (cfg : DatasetConfig) (split : Split) (worlds : String → DatasetWorld)
    (ticker : String) : Batch Cls Chart PyError where
  classes := datasetClasses
  offers := tickerOffers cfg split worlds ticker
  cls_mem _ _ := mem_datasetClasses _

/-- The batches of the tickers, up to the first whose windows raise. -/
def splitBatches (cfg : DatasetConfig) (split : Split) (worlds : String → DatasetWorld) :
    List String → List (Batch Cls Chart PyError)
  | [] => []
  | ticker :: tickers =>
    tickerBatch cfg split worlds ticker ::
      match tickerFailure cfg split worlds ticker with
      | none => splitBatches cfg split worlds tickers
      | some _ => []

def splitFailure (cfg : DatasetConfig) (split : Split) (worlds : String → DatasetWorld)
    (tickers : List String) : Option PyError :=
  tickers.findSome? (tickerFailure cfg split worlds)

theorem lands_of_mem_tickerOffers :
    ∀ o ∈ tickerOffers cfg split worlds ticker, o.lands = true := by
  unfold tickerOffers
  split
  · simp
  · intro o ho
    exact (List.mem_filter.mp ho).2

/-- **One ticker fills quotas** from its offers in front of the first exception that nothing
catches. -/
theorem processTicker_toStore (split : Split) (worlds : String → DatasetWorld) (ticker : String)
    (hst : st.uncaught = none) :
    (processTicker cfg split worlds ticker st).toStore =
        fill cfg.maxPerClass datasetClasses (tickerOffers cfg split worlds ticker) st.toStore ∧
      (tickerFailure cfg split worlds ticker = none →
        (processTicker cfg split worlds ticker st).uncaught = none) ∧
      (tickerFailure cfg split worlds ticker ≠ none →
        loopOver cfg (processTicker cfg split worlds ticker st) = true) := by
  unfold processTicker
  cases hf : full cfg.maxPerClass datasetClasses st.toStore with
  | true =>
    have hfull : allClassesFull cfg st = true := by rw [allClassesFull_eq_full, hf]
    rw [if_pos hfull, fill_of_full hf]
    exact ⟨rfl, fun _ => hst, fun _ => by rw [loopOver_eq hst, hf]⟩
  | false =>
    have hopen : allClassesFull cfg st = false := by rw [allClassesFull_eq_full, hf]
    rw [hopen, if_neg Bool.false_ne_true, tickerOffers, tickerFailure]
    cases hd : tickerDays cfg (worlds ticker) with
    | error e =>
      exact ⟨rfl, fun h => absurd h (by simp), fun _ => loopOver_of_uncaught (e := e) rfl⟩
    | ok days => exact datasetLoop_toStore hst

theorem processSplit_over (h : loopOver cfg st = true) :
    processSplit cfg worlds split tickers st = st := by
  cases tickers with
  | nil => rfl
  | cons ticker tickers => exact forLoop_stop h

theorem processSplit_cons (h : loopOver cfg st = false) :
    processSplit cfg worlds split (ticker :: tickers) st =
      processSplit cfg worlds split tickers (processTicker cfg split worlds ticker st) :=
  forLoop_ok h rfl

/-- **The loop over the tickers fills the classes**, batch after batch, up to the exception. -/
theorem processSplit_toStore (cfg : DatasetConfig) (split : Split)
    (worlds : String → DatasetWorld) (tickers : List String) (hst : st.uncaught = none) :
    (processSplit cfg worlds split tickers st).toStore =
        fillAll cfg.maxPerClass (splitBatches cfg split worlds tickers) st.toStore ∧
      (splitFailure cfg split worlds tickers = none →
        (processSplit cfg worlds split tickers st).uncaught = none) ∧
      (splitFailure cfg split worlds tickers ≠ none →
        loopOver cfg (processSplit cfg worlds split tickers st) = true) := by
  induction tickers generalizing st with
  | nil => exact ⟨rfl, fun _ => hst, fun h => absurd rfl h⟩
  | cons ticker tickers ih =>
    cases hf : full cfg.maxPerClass datasetClasses st.toStore with
    | true =>
      have hover : loopOver cfg st = true := by rw [loopOver_eq hst, hf]
      rw [processSplit_over hover, splitBatches,
        fillAll_of_full (b := tickerBatch cfg split worlds ticker) hf]
      exact ⟨rfl, fun _ => hst, fun _ => hover⟩
    | false =>
      have hgo : loopOver cfg st = false := by rw [loopOver_eq hst, hf]
      obtain ⟨hfill, hnone, hsome⟩ := processTicker_toStore split worlds ticker hst
      rw [processSplit_cons hgo, splitBatches,
        fillAll_cons (b := tickerBatch cfg split worlds ticker) hf, splitFailure,
        List.findSome?_cons]
      cases ht : tickerFailure cfg split worlds ticker with
      | none =>
        obtain ⟨hrest, hnone', hsome'⟩ := ih (hnone ht)
        refine ⟨?_, hnone', hsome'⟩
        rw [hrest, hfill]
        rfl
      | some e =>
        have hover := hsome (by rw [ht]; simp)
        rw [processSplit_over hover]
        exact ⟨hfill, fun h => absurd h (by simp), fun _ => hover⟩

/-- A split leaves the counters of the other one alone. -/
theorem processSplit_other {s : Split} (hs : s ≠ split) :
    (processSplit cfg worlds split tickers st).classCounts s c = st.classCounts s c := by
  refine processSplit_inv (P := fun st' : DatasetState => st'.classCounts s c = st.classCounts s c)
    rfl (fun st' e h => h) fun st' chart hchart h => ?_
  rw [← h]
  simp [DatasetState.keep, hchart, hs]

/-! ## What a run counts -/

/-- The drawable charts of a class, over the tickers of a split up to the exception. -/
def supply (cfg : DatasetConfig) (split : Split) (worlds : String → DatasetWorld)
    (tickers : List String) (c : Cls) : ℕ :=
  ((splitBatches cfg split worlds tickers).map fun b =>
    b.offers.countP fun o => decide (o.cls = c)).sum

/-- The supply of the validation tickers, which are not reached behind an exception. -/
def valSupply (cfg : DatasetConfig) (worlds : String → DatasetWorld) (o : TickerOrder cfg)
    (c : Cls) : ℕ :=
  match splitFailure cfg .train worlds (tickersOf o .train) with
  | none => supply cfg .val worlds (tickersOf o .val) c
  | some _ => 0

theorem mem_splitBatches {b : Batch Cls Chart PyError}
    (hb : b ∈ splitBatches cfg split worlds tickers) :
    ∃ ticker ∈ tickers, b = tickerBatch cfg split worlds ticker := by
  induction tickers with
  | nil => exact absurd hb (by simp [splitBatches])
  | cons ticker tickers ih =>
    rw [splitBatches, List.mem_cons] at hb
    rcases hb with rfl | hb
    · exact ⟨ticker, List.mem_cons_self, rfl⟩
    · cases ht : tickerFailure cfg split worlds ticker with
      | some e => rw [ht] at hb; exact absurd hb (by simp)
      | none =>
        rw [ht] at hb
        obtain ⟨ticker', hmem, rfl⟩ := ih hb
        exact ⟨ticker', List.mem_cons_of_mem _ hmem, rfl⟩

/-- What a run over a split fills to. -/
theorem fillAll_supply {s : Store Cls Chart} (hle : s.counts c ≤ cfg.maxPerClass) :
    (fillAll cfg.maxPerClass (splitBatches cfg split worlds tickers) s).counts c =
      min cfg.maxPerClass (s.counts c + supply cfg split worlds tickers c) := by
  refine fillAll_counts ?_ (mem_datasetClasses c) ?_ hle
  · intro b hb
    obtain ⟨ticker, -, rfl⟩ := mem_splitBatches hb
    rfl
  · intro b hb
    obtain ⟨ticker, -, rfl⟩ := mem_splitBatches hb
    exact lands_of_mem_tickerOffers

theorem processTrain_counts (cfg : DatasetConfig) (worlds : String → DatasetWorld)
    (tickers : List String) (c : Cls) :
    (processSplit cfg worlds .train tickers DatasetState.start).classCounts .train c =
        min cfg.maxPerClass (supply cfg .train worlds tickers c) ∧
      (processSplit cfg worlds .train tickers DatasetState.start).classCounts .val c = 0 := by
  have hval : (processSplit cfg worlds .train tickers DatasetState.start).classCounts .val c = 0 :=
    processSplit_other (by decide)
  refine ⟨?_, hval⟩
  have htotal : (processSplit cfg worlds .train tickers DatasetState.start).toStore.counts c =
      min cfg.maxPerClass (supply cfg .train worlds tickers c) := by
    rw [(processSplit_toStore cfg .train worlds tickers rfl).1, fillAll_supply (Nat.zero_le _),
    toStore_start, Nat.zero_add]
  rwa [toStore_counts, hval, Nat.add_zero] at htotal

theorem datasetRun_train (cfg : DatasetConfig) (worlds : String → DatasetWorld)
    (o : TickerOrder cfg) (c : Cls) :
    (datasetRun cfg worlds o).classCounts .train c =
      min cfg.maxPerClass (supply cfg .train worlds (tickersOf o .train) c) :=
  (processSplit_other (by decide)).trans (processTrain_counts cfg worlds _ c).1

/-- The two splits together. -/
theorem datasetRun_total (cfg : DatasetConfig) (worlds : String → DatasetWorld)
    (o : TickerOrder cfg) (c : Cls) :
    (datasetRun cfg worlds o).classCounts .train c + (datasetRun cfg worlds o).classCounts .val c =
      min cfg.maxPerClass (supply cfg .train worlds (tickersOf o .train) c +
        valSupply cfg worlds o c) := by
  obtain ⟨htrain, hval⟩ := processTrain_counts cfg worlds (tickersOf o .train) c
  obtain ⟨-, hnone, hsome⟩ :=
    processSplit_toStore cfg .train worlds (tickersOf o .train) DatasetState.uncaught_start
  rw [← toStore_counts, datasetRun]
  generalize processSplit cfg worlds .train (tickersOf o .train) DatasetState.start = st at *
  have hcount : st.toStore.counts c =
      min cfg.maxPerClass (supply cfg .train worlds (tickersOf o .train) c) := by
    rw [toStore_counts, htrain, hval, Nat.add_zero]
  cases hf : splitFailure cfg .train worlds (tickersOf o .train) with
  | none =>
    rw [(processSplit_toStore cfg .val worlds _ (hnone hf)).1, fillAll_supply (by omega), hcount,
      valSupply, hf]
    simp only
    omega
  | some e =>
    rw [processSplit_over (hsome (by rw [hf]; simp)), hcount, valSupply, hf, Nat.add_zero]

/-- **What a run counts**, class by class. The training tickers fill the quota first, from all of
their charts that can be drawn; the validation tickers fill what is left of it. -/
theorem classCounts_eq (cfg : DatasetConfig) (worlds : String → DatasetWorld)
    (o : TickerOrder cfg) (c : Cls) :
    (datasetRun cfg worlds o).classCounts .train c =
        min cfg.maxPerClass (supply cfg .train worlds (tickersOf o .train) c) ∧
      (datasetRun cfg worlds o).classCounts .val c =
        min (cfg.maxPerClass - supply cfg .train worlds (tickersOf o .train) c)
          (valSupply cfg worlds o c) := by
  have htrain := datasetRun_train cfg worlds o c
  have htotal := datasetRun_total cfg worlds o c
  refine ⟨htrain, ?_⟩
  omega

/-! ## What is drawn -/

theorem windowDays_length (hi : i ∈ windowStarts cfg days) :
    (windowDays cfg days i).length = cfg.windowSize := by
  obtain ⟨k, hk, rfl⟩ := List.mem_range'.mp hi
  have hmul : cfg.stride * k + cfg.stride ≤
      days.length - cfg.futureLookahead - cfg.windowSize + cfg.stride - 1 :=
    calc cfg.stride * k + cfg.stride = cfg.stride * (k + 1) := by rw [Nat.mul_succ]
      _ ≤ cfg.stride * ((days.length - cfg.futureLookahead - cfg.windowSize + cfg.stride - 1) /
          cfg.stride) := Nat.mul_le_mul_left _ hk
      _ ≤ _ := Nat.mul_div_le _ _
  have hstride := cfg.stride_pos
  rw [windowDays, List.length_take, List.length_drop]
  omega

/-- A window with all its days, none of which has a missing cell. -/
def CompleteWindow (cfg : DatasetConfig) (w : DatasetWorld) (window : List Day) : Prop :=
  window.length = cfg.windowSize ∧ ∀ d, w.download = .ok d → ∀ day ∈ window,
    (∀ c ∈ d.columns, day.prices c ≠ .nan) ∧ ∀ x ∈ day.others, x ≠ .nan

theorem completeWindow (hd : tickerDays cfg w = .ok days) (hi : i ∈ windowStarts cfg days) :
    CompleteWindow cfg w (windowDays cfg days i) := by
  refine ⟨windowDays_length hi, fun d hw day hday => ?_⟩
  have hmem : day ∈ days := List.mem_of_mem_drop (List.mem_of_mem_take hday)
  unfold tickerDays at hd
  rw [hw] at hd
  simp only at hd
  split at hd
  · simp only [Except.ok.injEq] at hd
    rw [← hd] at hmem
    exact absurd hmem List.not_mem_nil
  · split at hd
    · exact absurd hd (by simp)
    · simp only [Except.ok.injEq] at hd
      rw [← hd, Download.dropna, List.mem_filter] at hmem
      simpa using hmem.2

/-- An iteration sees of the renderer what it answers for its window. -/
theorem datasetBody_congr {w' : DatasetWorld}
    (h : ∀ chart, w.generateChartImage (windowDays cfg days i) chart =
      w'.generateChartImage (windowDays cfg days i) chart) :
    datasetBody cfg split ticker w days i st = datasetBody cfg split ticker w' days i st := by
  unfold datasetBody
  simp only [h]

/-- **Only complete windows are drawn.** What a renderer does with any other, with a short one or
one that misses a price, is nowhere in the run. -/
theorem run_eq_of_complete {worlds' : String → DatasetWorld}
    (hd : ∀ t, (worlds t).download = (worlds' t).download)
    (hr : ∀ t window, CompleteWindow cfg (worlds t) window → ∀ chart,
      (worlds t).generateChartImage window chart = (worlds' t).generateChartImage window chart)
    (o : TickerOrder cfg) : datasetRun cfg worlds o = datasetRun cfg worlds' o := by
  have hdays : ∀ t, tickerDays cfg (worlds t) = tickerDays cfg (worlds' t) := by
    intro t
    rw [tickerDays, tickerDays, hd]
  have hticker : ∀ split t st, processTicker cfg split worlds t st =
      processTicker cfg split worlds' t st := by
    intro split t st
    unfold processTicker
    rw [← hdays]
    cases hdt : tickerDays cfg (worlds t) with
    | error e => rfl
    | ok days =>
      have hloop : datasetLoop cfg split t (worlds t) days (windowStarts cfg days) st =
          datasetLoop cfg split t (worlds' t) days (windowStarts cfg days) st := by
        refine forLoop_congr fun i hi s => ?_
        rw [datasetBody_congr (hr t _ (completeWindow hdt hi))]
      simp only [hloop]
  have hsplit : ∀ split tickers st, processSplit cfg worlds split tickers st =
      processSplit cfg worlds' split tickers st := by
    intro split tickers st
    refine forLoop_congr fun t _ s => ?_
    rw [hticker]
  rw [datasetRun, datasetRun, hsplit, hsplit]

/-- Sixty days at one price. -/
def steadyDays : List Day := (List.range 60).map fun n => ⟨n, fun _ => .fin 1, []⟩

def steadyWorld (render : List Day → Chart → Except PyError Unit) : String → DatasetWorld :=
  fun _ => ⟨.ok ⟨requiredCols, steadyDays⟩, render⟩

def TickerOrder.listed (cfg : DatasetConfig) : TickerOrder cfg := ⟨cfg.tickers, List.Perm.refl _⟩

/-- A renderer that refuses short windows makes no difference. -/
theorem run_eq_of_complete_steady :
    datasetRun DatasetConfig.script (steadyWorld fun _ _ => .ok ())
        (TickerOrder.listed DatasetConfig.script) =
      datasetRun DatasetConfig.script
        (steadyWorld fun window _ =>
          if window.length = DatasetConfig.script.windowSize then .ok ()
          else .error (.other "short window"))
        (TickerOrder.listed DatasetConfig.script) := by
  apply run_eq_of_complete
  · intro t
    rfl
  · intro t window hcomplete chart
    exact (if_pos hcomplete.1).symm

end StockCharts
