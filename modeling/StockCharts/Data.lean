import Mathlib.Algebra.Order.Field.Rat
import Mathlib.Data.List.Perm.Basic
import StockCharts.Lib.Flt
import StockCharts.Lib.Path

/-!
# The data of `generate_data.py`

The script's constants, the frame a download answers with, the names of what it writes, and the
answers of the world outside it.

**Prices are `Flt ℚ`**: exact rationals, the infinities a division by a zero close produces, and
`nan` for a missing cell. A frame is its rows and the list of the required columns it has; a
frame's other columns (`Volume`, `Dividends`, …) are read by nothing here.

**What is outside is an `Answers`**: the download, the shuffle and the renderer, one of each for
every entry of the ticker list. None is assumed to behave: a download may raise or answer with any
frame, a shuffle is any permutation, and a render may raise at any chart.
-/

set_option autoImplicit false

namespace StockCharts

/-! ## Constants -/

/-- The module constants a run reads. The window is never empty. -/
structure Config where
  outputDir : String
  targetImagesPerClass : ℕ
  windowSize : ℕ
  windowSize_pos : 0 < windowSize

def Config.script (home : String) : Config where
  outputDir := pathJoin home ["financial_charts_data"]
  targetImagesPerClass := 50
  windowSize := 30
  windowSize_pos := by decide

inductive Split where
  | train
  | val
  deriving DecidableEq, Repr

inductive Label where
  | buy
  | hold
  | sell
  deriving DecidableEq, Repr

/-- `CLASSES`: the lower level of directories, the labels and `unknown`. -/
inductive Cls where
  | label (l : Label)
  | unknown
  deriving DecidableEq, Repr

def Split.name : Split → String
  | .train => "train"
  | .val => "val"

def Label.name : Label → String
  | .buy => "buy"
  | .hold => "hold"
  | .sell => "sell"

def Cls.name : Cls → String
  | .label l => l.name
  | .unknown => "unknown"

def labels : List Label := [.buy, .hold, .sell]

theorem mem_labels (l : Label) : l ∈ labels := by cases l <;> decide

def classes : List Cls := [.label .buy, .label .hold, .label .sell, .unknown]

def trainTickers : List String :=
  ["AAPL", "MSFT", "GOOGL", "AMZN", "META", "TSLA", "JPM", "V", "JNJ", "SPY", "QQQ", "AMD",
    "NFLX", "DIS", "INTC"]

def valTickers : List String := ["BA", "PYPL", "ADBE", "CRM", "PEP", "COST"]

def allTickers : List (String × Split) :=
  trainTickers.map (·, .train) ++ valTickers.map (·, .val)

/-- Where the scripts that split a list of `n` into `train` and `val` cut it. -/
def splitIndex (n : ℕ) : ℕ :=
  -- `int(n * 0.8)`.
  n * 4 / 5

/-! ## Frames -/

abbrev Price := Flt ℚ

inductive Col where
  | Open
  | High
  | Low
  | Close
  deriving DecidableEq, Repr

def requiredCols : List Col := [.Open, .High, .Low, .Close]

theorem mem_requiredCols (c : Col) : c ∈ requiredCols := by cases c <;> decide

abbrev Row := Col → Price

def column (rows : List Row) (c : Col) : List Price := rows.map fun r => r c

def ratRow (r : Col → ℚ) : Row := fun c => .fin (r c)

theorem column_ratRow (rows : List (Col → ℚ)) (c : Col) :
    column (rows.map ratRow) c = (rows.map fun r => r c).map .fin := by
  simp [column, ratRow, Function.comp_def]

/-- What a download answers with: the required columns it has, and its rows. -/
structure DataFrame where
  columns : List Col
  rows : List Row

namespace DataFrame

def len (df : DataFrame) : ℕ := df.rows.length

def empty (df : DataFrame) : Bool :=
  -- `df.empty`. A frame with no column at all is not told apart from one with rows: it has no
  -- required column either, and both tests skip the ticker.
  df.rows.isEmpty

def iloc (df : DataFrame) (lo hi : ℕ) : List Row :=
  -- `df.iloc[lo:hi]`, which stops at the end of the frame.
  (df.rows.drop lo).take (hi - lo)

theorem iloc_length (df : DataFrame) (lo hi : ℕ) :
    (df.iloc lo hi).length = min (hi - lo) (df.len - lo) := by
  simp [iloc, len]

theorem iloc_length_of_le {df : DataFrame} {lo hi : ℕ} (h : hi ≤ df.len) :
    (df.iloc lo hi).length = hi - lo := by
  rw [iloc_length]
  omega

end DataFrame

/-! ## What is written -/

/-- An image file, by the components of its path below `OUTPUT_DIR`. -/
structure Image where
  split : Split
  label : Label
  filename : String
  deriving DecidableEq, Repr

def filename (ticker : String) (i : ℕ) : String :=
  -- `f"{ticker}_{i}.png"`.
  numbered ".png" ticker i

def dirPath (cfg : Config) (s : Split) (c : Cls) : String :=
  -- `os.path.join(OUTPUT_DIR, split, cls)`.
  pathJoin cfg.outputDir [s.name, c.name]

def Image.filepath (cfg : Config) (img : Image) : String :=
  -- `os.path.join(OUTPUT_DIR, split, label, filename)`.
  pathJoin cfg.outputDir [img.split.name, img.label.name, img.filename]

theorem filename_inj {t t' : String} {i i' : ℕ} (h : filename t i = filename t' i') :
    t = t' ∧ i = i' := numbered_inj (by decide) h

/-! ## The world outside -/

inductive PyError where
  | indexError
  | other (msg : String)
  deriving DecidableEq, Repr

/-- `random.shuffle`: some order of the list it is given. -/
structure Shuffle where
  order : List ℕ → List ℕ
  perm : ∀ l, (order l).Perm l

/-- What the world answers while one ticker is processed. -/
structure Answers where
  /-- `yf.Ticker(ticker).history(period='max', interval='1d')`. -/
  history : Except PyError DataFrame
  /-- `random.shuffle(indices)`. -/
  shuffle : Shuffle
  /-- `mpf.plot` of a chart into a file: it writes the file, or raises and writes nothing. -/
  plot : Image → List Row → Except PyError Unit

/-- One entry of `all_tickers`, with the world's answers to it. -/
structure Job extends Answers where
  ticker : String
  split : Split

namespace Shuffle

theorem mem_order (σ : Shuffle) {l : List ℕ} {i : ℕ} : i ∈ σ.order l ↔ i ∈ l :=
  (σ.perm l).mem_iff

theorem nodup_order (σ : Shuffle) {l : List ℕ} (h : l.Nodup) : (σ.order l).Nodup :=
  (σ.perm l).nodup_iff.mpr h

def id : Shuffle := ⟨fun l => l, List.Perm.refl⟩

end Shuffle
end StockCharts
