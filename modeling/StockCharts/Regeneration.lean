import Mathlib.Order.Interval.Finset.Nat
import StockCharts.ChartFiles

/-!
# The generator in `jetson-inference`

The script that fills the directory `train.py` is pointed at. It has no quotas: it clears the class
directories, draws every fifth window of every ticker, and tosses a coin **for each window** to
choose its split. At the end it draws a third as many distractors. An exception inside a ticker ends
the ticker, and one inside a distractor costs that distractor.

Two results are about whole runs:

* the totals it prints are what the directories hold, whatever they held before and whichever
  charts raised (`totals_eq_files`);
* neighbouring windows share all but five of their days, so **a training chart and a validation
  chart have no day in common only where the coin never changed for a ticker**
  (`noDayShared_iff`).
-/

set_option autoImplicit false

namespace StockCharts
namespace Regeneration

/-! ## Constants -/

structure Config where
  baseDir : String
  tickers : List String
  minRows : ℕ
  windowSize : ℕ
  horizon : ℕ
  stride : ℕ
  threshold : ℚ
  tickers_nodup : tickers.Nodup
  tickers_plain : ∀ t ∈ tickers, '/' ∉ t.toList
  stride_pos : 0 < stride
  stride_lt : stride < windowSize

def Config.script : Config where
  baseDir := "python/training/classification/data"
  tickers := ["AAPL", "MSFT", "GOOGL", "AMZN", "NVDA", "META", "TSLA", "NFLX",
    "AMD", "INTC", "JPM", "V", "JNJ", "WMT", "DIS", "PYPL", "BA",
    "SPY", "QQQ", "BTC-USD", "ETH-USD"]
  minRows := 60
  windowSize := 40
  horizon := 10
  stride := 5
  threshold := 0.03
  tickers_nodup := by decide
  tickers_plain := by decide
  stride_pos := by decide
  stride_lt := by decide

inductive Theme where
  | light
  | dark
  deriving DecidableEq, Repr

def Theme.name : Theme → String
  | .light => "light"
  | .dark => "dark"

/-! ## The frame -/

inductive Columns where
  | index (names : List String)
  | multiIndex (keys : List (String × String))

/-- The column names, after `get_level_values(0)` where there are two levels. -/
def Columns.names : Columns → List String
  | index names => names
  | multiIndex keys => keys.map Prod.fst

structure Bar where
  prices : Row
  volume : Price

structure History where
  columns : Columns
  bars : List Bar

def requiredColumns : List String := ["Open", "High", "Low", "Close", "Volume"]

/-! ## The world outside -/

/-- What the world answers while one ticker is processed. -/
structure Answers where
  /-- `yf.download(ticker, period="2y", interval="1d", progress=False)`. -/
  download : Except PyError History
  /-- `random.random() < 0.8`, for the window that ends in front of day `i`. -/
  toTrain : ℕ → Bool
  theme : ℕ → Theme
  /-- `random.randint(100,999)`. -/
  suffix : ℕ → ℕ
  /-- The style of the theme and `mpf.plot`: it writes the file, or raises and writes nothing. -/
  plot : Chart → Theme → List Bar → Except PyError Unit

/-- What it answers while the distractors are drawn. -/
structure Distractors where
  toTrain : ℕ → Bool
  suffix : ℕ → ℕ
  /-- The `try` block: the picture is saved, or something in it raises. -/
  draw : Chart → Except PyError Unit

structure World where
  answers : String → Answers
  distractors : Distractors

/-! ## The charts of a ticker -/

def labelOfReturn (cfg : Config) (futureReturn : Price) : Label :=
  if .fin cfg.threshold < futureReturn then .buy
  else if futureReturn < .fin (-cfg.threshold) then .sell
  else .hold

def closeAt (bars : List Bar) (k : ℕ) : Except PyError Price :=
  match bars[k]? with
  | none => .error .indexError
  | some bar => .ok (bar.prices .Close)

/-- The label of the window in front of day `i`. It compares two closes behind the window. -/
def futureLabel (cfg : Config) (bars : List Bar) (i : ℕ) : Except PyError Label := do
  let later ← closeAt bars (i + cfg.horizon)
  let current ← closeAt bars i
  return labelOfReturn cfg ((later - current) / current)

def splitOf (toTrain : Bool) : Split := if toTrain then .train else .val

def chartName (ticker : String) (i : ℕ) (theme : Theme) (n : ℕ) : String :=
  -- `f"{ticker}_{i}_{theme}_{random.randint(100,999)}.png"`.
  numbered ".png" (numbered "" ticker i ++ "_" ++ theme.name) n

def windowBars (cfg : Config) (bars : List Bar) (i : ℕ) : List Bar :=
  -- `df.iloc[i-window_size:i]`.
  (bars.drop (i - cfg.windowSize)).take cfg.windowSize

/-- The body of the window loop, up to the count. -/
def drawWindow (cfg : Config) (ticker : String) (a : Answers) (bars : List Bar) (i : ℕ) :
    Except PyError Chart := do
  let label ← futureLabel cfg bars i
  let chart : Chart :=
    ⟨splitOf (a.toTrain i), .label label, chartName ticker i (a.theme i) (a.suffix i)⟩
  a.plot chart (a.theme i) (windowBars cfg bars i)
  return chart

/-- `total_generated`, and the files written. -/
abbrev St := Store Cls Chart

def keepChart (st : St) (chart : Chart) : St := st.keep chart.cls chart

def windowEnds (cfg : Config) (bars : List Bar) : List ℕ :=
  -- `range(window_size, len(df) - 10, 5)`.
  List.range' cfg.windowSize
    ((bars.length - cfg.horizon - cfg.windowSize + cfg.stride - 1) / cfg.stride) cfg.stride

/-- The rows the window loop goes over, or `none` where the download raises or a guard skips the
ticker. -/
def tickerBars (cfg : Config) (a : Answers) : Option (List Bar) :=
  match a.download with
  | .error _ => none
  | .ok df =>
    if df.bars.isEmpty ∨ df.bars.length < cfg.minRows then none
    else if ∀ col ∈ requiredColumns, col ∈ df.columns.names then some df.bars
    else none

def tickerBody (cfg : Config) (w : World) (ticker : String) (st : St) : St :=
  match tickerBars cfg (w.answers ticker) with
  | none => st
  | some bars =>
    forLoop (fun _ _ => false)
      (fun i st => (drawWindow cfg ticker (w.answers ticker) bars i).map (keepChart st))
      (windowEnds cfg bars) st

/-! ## The distractors -/

def unknownTarget (st : St) : ℕ :=
  -- `sum(total_generated[c] for c in ['buy', 'hold', 'sell']) // 3`.
  (labels.map fun l => st.counts (.label l)).sum / 3

def distractor (o : Distractors) (i : ℕ) : Chart :=
  ⟨splitOf (o.toTrain i), .unknown, numbered ".png" (numbered "" "distractor" i) (o.suffix i)⟩

def unknownBody (o : Distractors) (st : St) (i : ℕ) : St :=
  match o.draw (distractor o i) with
  | .error _ => st
  | .ok _ => keepChart st (distractor o i)

/-! ## One run -/

def generateCharts (cfg : Config) (w : World) : St :=
  cfg.tickers.foldl (fun st ticker => tickerBody cfg w ticker st) Store.empty

def run (cfg : Config) (w : World) : St :=
  let st := generateCharts cfg w
  (List.range (unknownTarget st)).foldl (unknownBody w.distractors) st

/-! ### On the disk -/

def splitDir (cfg : Config) (s : Split) : String := pathJoin cfg.baseDir [s.name]

def pathExists (d : Disk) (path : String) : Prop :=
  path ∈ d.dirs ∨ ∃ p ∈ d.dirs ∪ d.files, Under path p

instance (d : Disk) (path : String) : Decidable (pathExists d path) :=
  inferInstanceAs (Decidable (_ ∨ _))

def clearClass (cfg : Config) (s : Split) (d : Disk) (c : Cls) : Disk :=
  let classPath := classDir cfg.baseDir s c
  (if pathExists d classPath then d.rmtree classPath else d).makedirs classPath

def setup (cfg : Config) (d : Disk) : Disk :=
  splits.foldl (fun d s =>
    if pathExists d (splitDir cfg s) then classes.foldl (clearClass cfg s) d
    else classes.foldl (fun d c => d.makedirs (classDir cfg.baseDir s c)) d) d

def script (cfg : Config) (w : World) (d : Disk) : Disk :=
  writeCharts cfg.baseDir (run cfg w).kept (setup cfg d)

def runs (cfg : Config) (ws : List World) (d : Disk) : Disk :=
  ws.foldl (fun d w => script cfg w d) d

variable {cfg : Config} {w : World} {ws : List World} {d : Disk} {p ticker : String} {st : St}
  {charts : List Chart} {a : Answers} {bars : List Bar} {i : ℕ} {chart : Chart} {s : Split} {c : Cls}

/-! ## The setup leaves the class directories empty -/

/-- One class directory is cleared of what is under it. -/
theorem mem_clearClass : p ∈ (clearClass cfg s d c).files ↔
    p ∈ d.files ∧ ¬ Under (classDir cfg.baseDir s c) p := by
  show p ∈ (if pathExists d (classDir cfg.baseDir s c) then d.rmtree (classDir cfg.baseDir s c)
    else d).files ↔ _
  split
  · exact mem_rmtree
  · -- with no such directory there is no file below it
    rename_i hno
    rw [pathExists, not_or] at hno
    refine ⟨fun hp => ⟨hp, fun hu => ?_⟩, And.left⟩
    exact hno.2 ⟨p, Finset.mem_union_right _ hp, hu⟩

theorem mem_foldl_clearClass (cs : List Cls) (d : Disk) :
    p ∈ (cs.foldl (clearClass cfg s) d).files ↔
      p ∈ d.files ∧ ∀ c ∈ cs, ¬ Under (classDir cfg.baseDir s c) p := by
  induction cs generalizing d with
  | nil => simp
  | cons c cs ih => rw [List.foldl_cons, ih, mem_clearClass, List.forall_mem_cons, and_assoc]

theorem foldl_makedirs_files (cs : List Cls) (d : Disk) :
    (cs.foldl (fun d c => d.makedirs (classDir cfg.baseDir s c)) d).files = d.files := by
  induction cs generalizing d with
  | nil => rfl
  | cons c cs ih => exact ih _

theorem under_splitDir (h : Under (classDir cfg.baseDir s c) p) : Under (splitDir cfg s) p := by
  refine List.IsPrefix.trans ⟨(c.name ++ "/").toList, ?_⟩ h
  rw [classDir, pathJoin_pair s.isName c.isName.slash_free, splitDir, pathJoin, List.foldl_cons,
    List.foldl_nil, joinStep_of_slashFree s.isName.slash_free]
  simp only [String.toList_append, List.append_assoc]

/-- Behind the setup no class directory holds anything. -/
theorem not_under_setup (cfg : Config) (d : Disk) (s : Split) (c : Cls) :
    ∀ p ∈ (setup cfg d).files, ¬ Under (classDir cfg.baseDir s c) p := by
  -- one split: both branches leave nothing in its class directories, and add no file
  have hsplit : ∀ (d : Disk) (s : Split) (p : String),
      p ∈ (if pathExists d (splitDir cfg s) then classes.foldl (clearClass cfg s) d
        else classes.foldl (fun d c => d.makedirs (classDir cfg.baseDir s c)) d).files →
      p ∈ d.files ∧ ∀ c ∈ classes, ¬ Under (classDir cfg.baseDir s c) p := by
    intro d s p hp
    split at hp
    · exact (mem_foldl_clearClass classes d).mp hp
    · rename_i hno
      rw [foldl_makedirs_files] at hp
      rw [pathExists, not_or] at hno
      exact ⟨hp, fun c _ hu => hno.2 ⟨p, Finset.mem_union_right _ hp, under_splitDir hu⟩⟩
  have hmem : c ∈ classes := by
    rcases c with l | _
    · cases l <;> decide
    · decide
  intro p hp
  rw [setup, splits, List.foldl_cons, List.foldl_cons, List.foldl_nil] at hp
  obtain ⟨hp, hval⟩ := hsplit _ _ _ hp
  obtain ⟨-, htrain⟩ := hsplit _ _ _ hp
  cases s with
  | train => exact htrain c hmem
  | val => exact hval c hmem

/-! ## The charts of a run -/

/-- What a run of `keepChart` adds: the charts, and one count for each. -/
theorem foldl_keepChart (charts : List Chart) (st : St) :
    (charts.foldl keepChart st).kept = st.kept ++ charts ∧
      ∀ c, (charts.foldl keepChart st).counts c =
        st.counts c + charts.countP fun chart => decide (chart.cls = c) := by
  induction charts generalizing st with
  | nil => simp
  | cons chart charts ih =>
    obtain ⟨hkept, hcounts⟩ := ih (keepChart st chart)
    rw [List.foldl_cons]
    constructor
    · rw [hkept, keepChart, Store.keep_kept, List.append_assoc, List.singleton_append]
    · intro c
      rw [hcounts, keepChart, Store.keep_counts, List.countP_cons]
      by_cases hc : chart.cls = c
      · simp [hc]
        omega
      · simp [hc, Ne.symm hc]

/-- The charts of a ticker: those of its first windows, up to the one that raises. -/
def tickerCharts (cfg : Config) (w : World) (ticker : String) : List Chart :=
  match tickerBars cfg (w.answers ticker) with
  | none => []
  | some bars => okPrefix (drawWindow cfg ticker (w.answers ticker) bars) (windowEnds cfg bars)

/-- **One ticker keeps its charts**, those in front of the first exception. -/
theorem tickerBody_eq (cfg : Config) (w : World) (ticker : String) (st : St) :
    tickerBody cfg w ticker st = (tickerCharts cfg w ticker).foldl keepChart st := by
  unfold tickerBody tickerCharts
  cases tickerBars cfg (w.answers ticker) with
  | none => rfl
  | some bars => exact forLoop_map_eq keepChart _ st

def labelledCharts (cfg : Config) (w : World) : List Chart :=
  cfg.tickers.flatMap (tickerCharts cfg w)

theorem generateCharts_eq (cfg : Config) (w : World) :
    generateCharts cfg w = (labelledCharts cfg w).foldl keepChart Store.empty := by
  rw [labelledCharts, List.foldl_flatMap, generateCharts]
  simp only [tickerBody_eq]

/-- The distractors among the first `n` that are saved. -/
def savedDistractors (o : Distractors) (n : ℕ) : List Chart :=
  ((List.range n).map (distractor o)).filter fun chart => (o.draw chart).isOk

theorem foldl_unknownBody (o : Distractors) (is : List ℕ) (st : St) :
    is.foldl (unknownBody o) st =
      ((is.map (distractor o)).filter fun chart => (o.draw chart).isOk).foldl keepChart st := by
  induction is generalizing st with
  | nil => rfl
  | cons i is ih =>
    rw [List.foldl_cons, ih, List.map_cons, unknownBody]
    cases hd : o.draw (distractor o i) with
    | error e => rw [List.filter_cons_of_neg (by simp [hd, Except.isOk, Except.toBool])]
    | ok u =>
      rw [List.filter_cons_of_pos (by simp [hd, Except.isOk, Except.toBool]), List.foldl_cons]

/-- The whole run, as one run of `keepChart`. -/
theorem run_eq (cfg : Config) (w : World) :
    run cfg w =
      (labelledCharts cfg w ++
        savedDistractors w.distractors (unknownTarget (generateCharts cfg w))).foldl keepChart
          Store.empty := by
  rw [List.foldl_append, ← generateCharts_eq]
  exact foldl_unknownBody _ _ _

theorem run_kept (cfg : Config) (w : World) :
    (run cfg w).kept = labelledCharts cfg w ++
      savedDistractors w.distractors (unknownTarget (generateCharts cfg w)) := by
  rw [run_eq, (foldl_keepChart _ _).1]
  rfl

/-- Each counter is the number of charts kept of its class. -/
theorem run_counts (cfg : Config) (w : World) (c : Cls) :
    (run cfg w).counts c = (run cfg w).kept.countP fun chart => decide (chart.cls = c) := by
  rw [run_kept, run_eq, (foldl_keepChart _ _).2]
  exact Nat.zero_add _

/-! ### Names -/

theorem slash_notMem_chartName (h : '/' ∉ ticker.toList) (i : ℕ) (theme : Theme) (n : ℕ) :
    '/' ∉ (chartName ticker i theme n).toList := by
  apply slash_notMem_numbered (by decide)
  rw [String.toList_append, String.toList_append, List.mem_append, List.mem_append, not_or, not_or]
  refine ⟨⟨slash_notMem_numbered (by decide) h, by decide⟩, ?_⟩
  cases theme <;> decide

theorem chartName_inj {ticker' : String} {i' n n' : ℕ} {theme theme' : Theme}
    (h : chartName ticker i theme n = chartName ticker' i' theme' n') : ticker = ticker' ∧ i = i' := by
  have hsep : ∀ th : Theme, '_' ∉ th.name.toList := by
    intro th
    cases th <;> decide
  have hstem := congrArg String.toList (numbered_inj (by decide) h).1
  simp only [String.toList_append, List.append_assoc] at hstem
  obtain ⟨hname, -⟩ := append_sep_inj (a := '_') hstem (hsep theme) (hsep theme')
  exact numbered_inj (by decide) (String.toList_inj.mp hname)

/-- A labelled chart, by the window it shows. -/
def Shows (w : World) (ticker : String) (i : ℕ) (chart : Chart) : Prop :=
  chart.split = splitOf ((w.answers ticker).toTrain i) ∧ (∃ l, chart.cls = .label l) ∧
    chart.filename = chartName ticker i ((w.answers ticker).theme i) ((w.answers ticker).suffix i)

/-- A chart that is drawn shows the window it is named for. -/
theorem shows_of_drawWindow
    (h : drawWindow cfg ticker (w.answers ticker) bars i = .ok chart) : Shows w ticker i chart := by
  unfold drawWindow at h
  cases hl : futureLabel cfg bars i with
  | error e => rw [hl] at h; exact absurd h (by simp [bind, Except.bind])
  | ok l =>
    rw [hl] at h
    simp only [bind, Except.bind] at h
    split at h
    · exact absurd h (by simp)
    · simp only [pure, Except.pure, Except.ok.injEq] at h
      rw [← h]
      exact ⟨rfl, ⟨l, rfl⟩, rfl⟩

def endAt (cfg : Config) (k : ℕ) : ℕ := cfg.windowSize + cfg.stride * k

theorem endAt_inj {k k' : ℕ} (h : endAt cfg k = endAt cfg k') : k = k' :=
  Nat.eq_of_mul_eq_mul_left cfg.stride_pos (Nat.add_left_cancel h)

/-- The charts of a ticker show its first windows, in order. -/
theorem shows_getElem {k : ℕ} (h : (tickerCharts cfg w ticker)[k]? = some chart) :
    Shows w ticker (endAt cfg k) chart := by
  unfold tickerCharts at h
  cases hb : tickerBars cfg (w.answers ticker) with
  | none => rw [hb] at h; exact absurd h (by simp)
  | some bars =>
    rw [hb] at h
    obtain ⟨i, hi, hdraw⟩ := getElem?_okPrefix h
    have hend : i = endAt cfg k := by
      obtain ⟨hlt, rfl⟩ := List.getElem?_eq_some_iff.mp hi
      exact List.getElem_range' hlt
    rw [← hend]
    exact shows_of_drawWindow hdraw

theorem exists_shows_of_mem (h : chart ∈ tickerCharts cfg w ticker) :
    ∃ k, (tickerCharts cfg w ticker)[k]? = some chart ∧ Shows w ticker (endAt cfg k) chart := by
  obtain ⟨k, hk⟩ := List.mem_iff_getElem?.mp h
  exact ⟨k, hk, shows_getElem hk⟩

theorem mem_savedDistractors {o : Distractors} {n : ℕ} (h : chart ∈ savedDistractors o n) :
    ∃ i < n, chart = distractor o i := by
  obtain ⟨i, hi, rfl⟩ := List.mem_map.mp (List.mem_of_mem_filter h)
  exact ⟨i, List.mem_range.mp hi, rfl⟩

theorem plain_of_mem_kept (h : chart ∈ (run cfg w).kept) : '/' ∉ chart.filename.toList := by
  rw [run_kept, List.mem_append] at h
  rcases h with h | h
  · obtain ⟨ticker, ht, h⟩ := List.mem_flatMap.mp h
    obtain ⟨k, -, -, -, hname⟩ := exists_shows_of_mem h
    rw [hname]
    exact slash_notMem_chartName (cfg.tickers_plain ticker ht) _ _ _
  · obtain ⟨i, -, rfl⟩ := mem_savedDistractors h
    exact slash_notMem_numbered (by decide) (slash_notMem_numbered (by decide) (by decide))

theorem nodup_tickerCharts (cfg : Config) (w : World) (ticker : String) :
    (tickerCharts cfg w ticker).Nodup := by
  rw [List.nodup_iff_getElem?_ne_getElem?]
  intro k k' hlt hk' heq
  have hchart := List.getElem?_eq_getElem hk'
  obtain ⟨-, -, hname⟩ := shows_getElem hchart
  obtain ⟨-, -, hname'⟩ := shows_getElem (heq.trans hchart)
  rw [hname] at hname'
  have := endAt_inj (chartName_inj hname').2
  omega

theorem nodup_labelledCharts (cfg : Config) (w : World) : (labelledCharts cfg w).Nodup := by
  rw [labelledCharts, List.nodup_flatMap]
  refine ⟨fun ticker _ => nodup_tickerCharts cfg w ticker, ?_⟩
  refine cfg.tickers_nodup.imp fun {ticker ticker'} hne => ?_
  intro chart h h'
  obtain ⟨k, -, -, -, hname⟩ := exists_shows_of_mem h
  obtain ⟨k', -, -, -, hname'⟩ := exists_shows_of_mem h'
  rw [hname] at hname'
  exact hne (chartName_inj hname').1

/-- No chart is kept twice. -/
theorem nodup_kept (cfg : Config) (w : World) : (run cfg w).kept.Nodup := by
  rw [run_kept, List.nodup_append]
  refine ⟨nodup_labelledCharts cfg w, ?_, ?_⟩
  · refine List.Nodup.filter _ (List.Nodup.map ?_ List.nodup_range)
    intro i i' heq
    have hstem := (numbered_inj (by decide) (congrArg Chart.filename heq)).1
    exact (numbered_inj (by decide) hstem).2
  · rintro x hx y hy rfl
    obtain ⟨ticker, -, hx⟩ := List.mem_flatMap.mp hx
    obtain ⟨k, -, -, ⟨l, hl⟩, -⟩ := exists_shows_of_mem hx
    obtain ⟨i, -, rfl⟩ := mem_savedDistractors hy
    exact absurd hl (by simp [distractor])

/-! ## What the directories hold -/

/-- **The totals are what the directories hold**, after any runs and from any disk: a class has as
many images in `train` and `val` together as the last run counted, and the distractors are at most
a third of the charts. -/
theorem totals_eq_files (ws : List World) (w : World) (d : Disk) :
    (∀ c, ((runs cfg (ws ++ [w]) d).filesIn (classDir cfg.baseDir .train c)).ncard +
        ((runs cfg (ws ++ [w]) d).filesIn (classDir cfg.baseDir .val c)).ncard =
      (run cfg w).counts c) ∧
    (run cfg w).counts .unknown * 3 ≤ (labels.map fun l => (run cfg w).counts (.label l)).sum := by
  constructor
  · intro c
    have hdir : ∀ s, ((runs cfg (ws ++ [w]) d).filesIn (classDir cfg.baseDir s c)).ncard =
        (run cfg w).kept.countP fun chart => decide (chart.split = s ∧ chart.cls = c) := by
      intro s
      rw [runs, List.foldl_append, List.foldl_cons, List.foldl_nil]
      exact ncard_filesIn_writeCharts (not_under_setup cfg _ s c)
        (fun _ h => plain_of_mem_kept h) (nodup_kept cfg w)
    rw [hdir, hdir, run_counts]
    exact (countP_splits _ _).symm
  · -- the first loops count labels only, and the last one `unknown` only
    have hlabel : ∀ l, (run cfg w).counts (.label l) = (generateCharts cfg w).counts (.label l) := by
      intro l
      rw [run_eq, List.foldl_append, ← generateCharts_eq, (foldl_keepChart _ _).2,
        List.countP_eq_zero.mpr, Nat.add_zero]
      intro chart hchart
      obtain ⟨i, -, rfl⟩ := mem_savedDistractors hchart
      simp [distractor]
    have hunknown : (run cfg w).counts .unknown ≤ unknownTarget (generateCharts cfg w) := by
      rw [run_counts, run_kept, List.countP_append, List.countP_eq_zero.mpr, Nat.zero_add]
      · refine List.countP_le_length.trans ((List.length_filter_le _ _).trans ?_)
        rw [List.length_map, List.length_range]
      · intro chart hchart
        obtain ⟨ticker, -, hchart⟩ := List.mem_flatMap.mp hchart
        obtain ⟨k, -, -, ⟨l, hl⟩, -⟩ := exists_shows_of_mem hchart
        simp [hl]
    simp only [hlabel]
    exact (Nat.mul_le_mul_right 3 hunknown).trans (Nat.div_mul_le_self _ 3)

/-! ## Days on both sides -/

/-- The positions of the days that the window in front of day `i` shows. -/
def daysOf (cfg : Config) (i : ℕ) : Finset ℕ := Finset.Ico (i - cfg.windowSize) i

/-- The run has a chart of that window in the split. -/
def DrawnAt (cfg : Config) (w : World) (s : Split) (ticker : String) (i : ℕ) : Prop :=
  ∃ chart ∈ (run cfg w).kept, chart.split = s ∧ (∃ l, chart.cls = .label l) ∧
    ∃ theme n, chart.filename = chartName ticker i theme n

/-- No day of a ticker is in a training chart and in a validation chart. -/
def NoDayShared (cfg : Config) (w : World) : Prop :=
  ∀ ticker i j, DrawnAt cfg w .train ticker i → DrawnAt cfg w .val ticker j →
    Disjoint (daysOf cfg i) (daysOf cfg j)

theorem drawnAt_iff : DrawnAt cfg w s ticker i ↔
    ticker ∈ cfg.tickers ∧ ∃ k < (tickerCharts cfg w ticker).length,
      i = endAt cfg k ∧ s = splitOf ((w.answers ticker).toTrain i) := by
  constructor
  · rintro ⟨chart, hchart, rfl, ⟨l, hl⟩, theme, n, hname⟩
    rw [run_kept, List.mem_append] at hchart
    rcases hchart with hchart | hchart
    · obtain ⟨ticker', ht, hchart⟩ := List.mem_flatMap.mp hchart
      obtain ⟨k, hk, hshows⟩ := exists_shows_of_mem hchart
      obtain ⟨rfl, rfl⟩ := chartName_inj (hname.symm.trans hshows.2.2)
      exact ⟨ht, k, (List.getElem?_eq_some_iff.mp hk).1, rfl, hshows.1⟩
    · obtain ⟨i, -, rfl⟩ := mem_savedDistractors hchart
      exact absurd hl (by simp [distractor])
  · rintro ⟨ht, k, hk, rfl, rfl⟩
    obtain ⟨hsplit, hcls, hname⟩ := shows_getElem (List.getElem?_eq_getElem hk)
    refine ⟨(tickerCharts cfg w ticker)[k], ?_, hsplit, hcls, _, _, hname⟩
    rw [run_kept]
    exact List.mem_append_left _ (List.mem_flatMap.mpr ⟨ticker, ht, List.getElem_mem hk⟩)

/-- What changes along an interval changes at a step of it. -/
theorem exists_step_ne {α : Type} (g : ℕ → α) {i j : ℕ} (hij : i ≤ j) (hne : g i ≠ g j) :
    ∃ k, k < j ∧ g k ≠ g (k + 1) := by
  by_contra hno
  push Not at hno
  have hconst : ∀ m, i ≤ m → m ≤ j → g i = g m := by
    intro m hm
    induction m, hm using Nat.le_induction with
    | base => exact fun _ => rfl
    | succ m hm ih => exact fun hmj => (ih (Nat.le_of_succ_le hmj)).trans (hno m hmj)
  exact hne (hconst j hij (le_refl j))

theorem not_disjoint_daysOf (cfg : Config) (k : ℕ) :
    ¬ Disjoint (daysOf cfg (endAt cfg k)) (daysOf cfg (endAt cfg (k + 1))) := by
  have hstep : endAt cfg (k + 1) = endAt cfg k + cfg.stride := by
    rw [endAt, endAt, Nat.mul_succ, Nat.add_assoc]
  have hle : cfg.windowSize ≤ endAt cfg k := Nat.le_add_right _ _
  have hlt := cfg.stride_lt
  -- the last day of the earlier window
  rw [Finset.not_disjoint_iff]
  refine ⟨endAt cfg k - 1, ?_, ?_⟩
  · rw [daysOf, Finset.mem_Ico]
    omega
  · rw [daysOf, Finset.mem_Ico]
    omega

/-- Neighbours are in one split where no day is shared. -/
theorem NoDayShared.adjacent {k : ℕ} {s' : Split} (hno : NoDayShared cfg w)
    (h : DrawnAt cfg w s ticker (endAt cfg k))
    (h' : DrawnAt cfg w s' ticker (endAt cfg (k + 1))) : s = s' := by
  cases s with
  | train =>
    cases s' with
    | train => rfl
    | val => exact absurd (hno _ _ _ h h') (not_disjoint_daysOf cfg k)
  | val =>
    cases s' with
    | train => exact absurd (hno _ _ _ h' h).symm (not_disjoint_daysOf cfg k)
    | val => rfl

/-- **No day is on both sides exactly when the coin never changed for a ticker**: all the charts of
a ticker are in one split. -/
theorem noDayShared_iff (cfg : Config) (w : World) :
    NoDayShared cfg w ↔
      ∀ ticker s s' i j, DrawnAt cfg w s ticker i → DrawnAt cfg w s' ticker j → s = s' := by
  constructor
  · intro hno ticker s s' i j hi hj
    obtain ⟨ht, k, hk, rfl, rfl⟩ := drawnAt_iff.mp hi
    obtain ⟨-, k', hk', rfl, rfl⟩ := drawnAt_iff.mp hj
    have hdrawn : ∀ m < (tickerCharts cfg w ticker).length,
        DrawnAt cfg w (splitOf ((w.answers ticker).toTrain (endAt cfg m))) ticker (endAt cfg m) :=
      fun m hm => drawnAt_iff.mpr ⟨ht, m, hm, rfl, rfl⟩
    have hle : ∀ m m', m ≤ m' → m' < (tickerCharts cfg w ticker).length →
        splitOf ((w.answers ticker).toTrain (endAt cfg m)) =
          splitOf ((w.answers ticker).toTrain (endAt cfg m')) := by
      intro m m' hmm' hm'
      by_contra hne
      obtain ⟨n, hn, hne'⟩ :=
        exists_step_ne (fun n => splitOf ((w.answers ticker).toTrain (endAt cfg n))) hmm' hne
      exact hne' (hno.adjacent (hdrawn n (by omega)) (hdrawn (n + 1) (by omega)))
    rcases Nat.le_total k k' with hkk' | hkk'
    · exact hle k k' hkk' hk'
    · exact (hle k' k hkk' hk).symm
  · intro hone ticker i j hi hj
    exact absurd (hone ticker .train .val i j hi hj) (by decide)

end Regeneration
end StockCharts
