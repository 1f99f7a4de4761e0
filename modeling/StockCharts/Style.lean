import StockCharts.Disk
import StockCharts.Lib.Kwargs

/-!
# How a window is drawn

Between the file name and `mpf.plot` the script builds a chart style, with two calls into
`mplfinance`: `make_marketcolors` and `make_mpf_style`. The second takes any keywords and checks
them against a table of fourteen (`styleKwargs`). The script passes `base_style`. The table has
`base_mpf_style` and `base_mpl_style`, and **no `base_style`**, so the call raises a `KeyError` for
every market colours and every style name, in front of `mpf.plot`. The exception ends the ticker,
at its first window with room.

The rest of `mplfinance` is an `Mplfinance`: what it makes of accepted keywords, and how it plots.
Nothing is assumed of it, since nothing of it is reached.
-/

set_option autoImplicit false

namespace StockCharts

/-! ## `make_mpf_style` -/

/-- A keyword's value. -/
inductive PyVal where
  | none
  | bool (b : Bool)
  | str (s : String)
  | list (items : List PyVal)
  | dict (items : List (String × PyVal))

namespace PyVal

def isStr : PyVal → Except PyError Bool
  | str _ => .ok true
  | _ => .ok false

def isList : PyVal → Except PyError Bool
  | list _ => .ok true
  | _ => .ok false

def isDict : PyVal → Except PyError Bool
  | dict _ => .ok true
  | _ => .ok false

def isBool : PyVal → Except PyError Bool
  | bool _ => .ok true
  | _ => .ok false

def isStrOrList : PyVal → Except PyError Bool
  | str _ => .ok true
  | list _ => .ok true
  | _ => .ok false

/-- `value in keys`, for the keys of a dictionary: what cannot be hashed raises. -/
def inKeys (keys : List String) : PyVal → Except PyError Bool
  | str s => .ok (decide (s ∈ keys))
  | list _ => .error (.other "unhashable type: 'list'")
  | dict _ => .error (.other "unhashable type: 'dict'")
  | _ => .ok false

/-- `value in [axis[0:len(value)] for axis in axes]`. -/
def isStartOf (axes : List String) : PyVal → Except PyError Bool
  | str s => .ok (axes.any fun axis => s.toList == axis.toList.take s.length)
  | none => .error (.other "object of type 'NoneType' has no len()")
  | bool _ => .error (.other "object of type 'bool' has no len()")
  | _ => .ok false

end PyVal

/-- The keys of `_styles`. -/
def availableStyles : List String :=
  ["binance", "binancedark", "blueskies", "brasil", "charles", "checkers", "classic", "default",
    "ibd", "kenan", "mike", "nightclouds", "sas", "starsandstripes", "tradingview", "yahoo"]

def styleKwargs : List (Keyword PyVal PyError) :=
  -- `_valid_make_mpf_style_kwargs()`. Every default is `None`.
  [⟨"base_mpf_style", .none, PyVal.inKeys availableStyles⟩,
    ⟨"base_mpl_style", .none, PyVal.isStrOrList⟩,
    ⟨"marketcolors", .none, PyVal.isDict⟩,
    ⟨"mavcolors", .none, PyVal.isList⟩,
    ⟨"facecolor", .none, PyVal.isStr⟩,
    ⟨"edgecolor", .none, PyVal.isStr⟩,
    ⟨"figcolor", .none, PyVal.isStr⟩,
    ⟨"gridcolor", .none, PyVal.isStr⟩,
    ⟨"gridstyle", .none, PyVal.isStr⟩,
    ⟨"gridaxis", .none, PyVal.isStartOf ["vertical", "horizontal", "both"]⟩,
    ⟨"y_on_right", .none, PyVal.isBool⟩,
    ⟨"rc", .none, PyVal.isDict⟩,
    ⟨"legacy_rc", .none, PyVal.isDict⟩,
    ⟨"style_name", .none, PyVal.isStr⟩]

def kwargError : KwargError PyError → PyError
  | .unrecognized key => .other ("Unrecognized kwarg=\"" ++ key ++ "\"")
  | .refused key => .other ("kwarg \"" ++ key ++ "\" validator returned False")
  | .raised _ e => e

/-- `mplfinance`, apart from the check of the style's keywords. -/
structure Mplfinance where
  makeMarketcolors : List (String × PyVal) → Except PyError PyVal
  /-- What `make_mpf_style` makes of the configuration. -/
  finishStyle : List (String × PyVal) → Except PyError PyVal
  plot : PyVal → Image → List Row → Except PyError Unit

def Mplfinance.makeMpfStyle (mpf : Mplfinance) (kwargs : List (String × PyVal)) :
    Except PyError PyVal := do
  let config ← (processKwargs kwargs styleKwargs).mapError kwargError
  mpf.finishStyle config

/-! ## The script's call -/

def styleChoices : List String := ["binance", "yahoo", "charles"]

/-- The library, and what `random.choice` answers for each chart. -/
structure Renderer where
  mpf : Mplfinance
  choice : Image → String
  choice_mem : ∀ img, choice img ∈ styleChoices

/-- The lines of the window loop from `style = random.choice(…)` to `mpf.plot(…)`. -/
def Renderer.draw (r : Renderer) (img : Image) (window : List Row) : Except PyError Unit := do
  let style := r.choice img
  let mc ← r.mpf.makeMarketcolors [("up", .str "g"), ("down", .str "r"), ("inherit", .bool true)]
  let s ← r.mpf.makeMpfStyle [("marketcolors", mc), ("base_style", .str style)]
  r.mpf.plot s img window

/-- What is outside the script once its drawing code is given. -/
structure Outside where
  history : Except PyError DataFrame
  shuffle : Shuffle
  renderer : Renderer

def Outside.answers (o : Outside) : Answers := ⟨o.history, o.shuffle, o.renderer.draw⟩

def drawnWorld (outside : String → Outside) : World := fun ticker => (outside ticker).answers

variable {cfg : Config} {job : Job} {jobs : List Job} {kwargs : List (String × PyVal)} {d : Disk}
  {p : String}

theorem base_style_notMem : ∀ k ∈ styleKwargs, k.key ≠ "base_style" := by
  simp [styleKwargs]

/-- A call with a keyword that is not in the table raises, wherever the keyword stands. -/
theorem makeMpfStyle_raises {key : String} {value : PyVal} (mpf : Mplfinance)
    (hmem : (key, value) ∈ kwargs)
    (hkey : ∀ k ∈ styleKwargs, k.key ≠ key) : ∃ e, mpf.makeMpfStyle kwargs = .error e := by
  cases hp : processKwargs kwargs styleKwargs with
  | error e => exact ⟨kwargError e, by simp [Mplfinance.makeMpfStyle, hp, Except.mapError]; rfl⟩
  | ok config =>
    obtain ⟨k, hk, -⟩ := processKwargs_ok_iff.mp ⟨config, hp⟩ _ hmem
    have hfound := List.find?_some hk
    simp only [decide_eq_true_eq] at hfound
    exact absurd hfound (hkey k (List.mem_of_find?_eq_some hk))

theorem draw_raises (r : Renderer) (img : Image) (w : List Row) :
    ∃ e, r.draw img w = .error e := by
  unfold Renderer.draw
  cases hm : r.mpf.makeMarketcolors [("up", .str "g"), ("down", .str "r"), ("inherit", .bool true)]
  with
  | error e => exact ⟨e, rfl⟩
  | ok mc =>
    have hmem : ("base_style", PyVal.str (r.choice img)) ∈
        [("marketcolors", mc), ("base_style", .str (r.choice img))] :=
      List.mem_cons_of_mem _ List.mem_cons_self
    obtain ⟨e, he⟩ := makeMpfStyle_raises r.mpf hmem base_style_notMem
    refine ⟨e, ?_⟩
    simp only [bind, Except.bind, he]

theorem lands_of_plot_raises (h : ∀ img w, ∃ e, job.plot img w = .error e) :
    ∀ o ∈ offers cfg job, o.lands = false := by
  rw [forall_mem_offers]
  intro df indices hw i hi
  obtain ⟨l, hl⟩ := labelAt_of_tickerWindows hw hi
  obtain ⟨e, he⟩ := h (job.image l i) (normalise (window cfg df i))
  rw [offer_of_labelAt hl, Offer.lands]
  simp only [he]

/-- Where no chart can be drawn, the loops leave their state as it was. -/
theorem tickerLoop_of_plot_raises {st : St}
    (h : ∀ job ∈ jobs, ∀ img w, ∃ e, job.plot img w = .error e) :
    tickerLoop cfg jobs st = st := by
  rw [tickerLoop_eq_fillAll]
  apply fillAll_of_none_lands
  simp only [List.forall_mem_map]
  intro job hjob
  exact lands_of_plot_raises (h job hjob)

theorem fetch_drawnWorld (cfg : Config) (outside : String → Outside) :
    fetchAndGenerateCandlesticks cfg (jobsOf (drawnWorld outside)) = Store.empty := by
  apply tickerLoop_of_plot_raises
  intro job hjob img w
  obtain ⟨entry, -, rfl⟩ := List.mem_map.mp hjob
  exact draw_raises (outside entry.1).renderer img w

theorem mem_script_drawnWorld {outside : String → Outside} :
    p ∈ (script cfg (drawnWorld outside) d).files ↔
      p ∈ d.files ∨ ∃ s, ∃ i < unknownTarget cfg s, p = unknownPath cfg s i := by
  rw [script, mem_generateUnknowns, mem_writeImages, setupDirectories_files, fetch_drawnWorld]
  simp [writtenPaths, Store.empty]

/-- **No run of the script draws a chart.** Whatever the downloads, the shuffles, the styles and
the rest of the library answer, run after run, the counters stay at zero, the disk gains the
distractors and nothing else, and the labelled directories keep what they held. -/
theorem no_chart_drawn (cfg : Config) (outsides : List (String → Outside)) (d : Disk) :
    (∀ outside ∈ outsides, ∀ k,
        (fetchAndGenerateCandlesticks cfg (jobsOf (drawnWorld outside))).counts k = 0) ∧
      (∀ p, p ∈ (runs cfg (outsides.map drawnWorld) d).files ↔
        p ∈ d.files ∨
          (outsides ≠ [] ∧ ∃ s, ∃ i < unknownTarget cfg s, p = unknownPath cfg s i)) ∧
      ∀ s l, (runs cfg (outsides.map drawnWorld) d).filesIn (dirPath cfg s (.label l)) =
        d.filesIn (dirPath cfg s (.label l)) := by
  have hfiles : ∀ p, p ∈ (runs cfg (outsides.map drawnWorld) d).files ↔
      p ∈ d.files ∨
        (outsides ≠ [] ∧ ∃ s, ∃ i < unknownTarget cfg s, p = unknownPath cfg s i) := by
    intro p
    induction outsides generalizing d with
    | nil => simp [runs]
    | cons outside outsides ih =>
      rw [List.map_cons, runs, List.foldl_cons, ← runs, ih, mem_script_drawnWorld, or_assoc,
        or_iff_left_of_imp And.right]
      simp
  refine ⟨fun outside _ k => ?_, hfiles, fun s l => ?_⟩
  · rw [fetch_drawnWorld]
    rfl
  · ext p
    constructor
    · rintro ⟨hp, hin⟩
      rcases (hfiles p).mp hp with hp | ⟨-, s', i, -, rfl⟩
      · exact ⟨hp, hin⟩
      · exact absurd hin (not_inDir_unknownPath i s')
    · rintro ⟨hp, hin⟩
      exact ⟨(hfiles p).mpr (Or.inl hp), hin⟩

end StockCharts
