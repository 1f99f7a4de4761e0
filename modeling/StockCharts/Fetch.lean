import StockCharts.Label
import StockCharts.Lib.Batches
import StockCharts.Normalize

/-!
# `fetch_and_generate_candlesticks`

The two nested loops over their shared state: `counts`, and the files written so far in the order
they were written. An iteration of the window loop has one exit of each kind, and the `try` stands
around the *whole* window loop:

* an exception, from the label or from the renderer, ends the ticker;
* a label that has its quota is skipped (`continue`);
* otherwise the chart is drawn, and after that the file is there and the label is counted.

Below the loops stands what they are an instance of. A window is an **offer** to keep one image
under its label, a ticker is a **batch** of offers of its split's labels, and the ticker loop is
`fillAll` (`tickerLoop_eq_fillAll`). Everything about quotas, early exits and raises is then a
theorem of `Lib/Batches.lean`.
-/

set_option autoImplicit false

namespace StockCharts

/-- `counts`, by split and label, and the files written. -/
abbrev St := Store (Split × Label) Image

def allFull (cfg : Config) (split : Split) (st : St) : Bool :=
  -- `all(counts[split][c] >= TARGET_IMAGES_PER_CLASS for c in ['buy', 'hold', 'sell'])`.
  labels.all fun c => decide (cfg.targetImagesPerClass ≤ st.counts (split, c))

/-- One iteration of the window loop, past its break. The state changes in the last line only, so
an exception leaves it as it was. -/
def windowBody (cfg : Config) (job : Job) (df : DataFrame) (i : ℕ) (st : St) :
    Except PyError St := do
  let label ← labelAt cfg df i
  if cfg.targetImagesPerClass ≤ st.counts (job.split, label) then
    return st
  let img : Image := ⟨job.split, label, filename job.ticker i⟩
  job.plot img (normalise (window cfg df i))
  return st.keep (job.split, label) img

def windowLoop (cfg : Config) (job : Job) (df : DataFrame) (indices : List ℕ) (st : St) : St :=
  forLoop (fun _ st => allFull cfg job.split st) (windowBody cfg job df) indices st

/-- From the download to the shuffle: the frame and the shuffled indices, or `none` where the
download raises or a guard skips the ticker. -/
def tickerWindows (cfg : Config) (job : Job) : Option (DataFrame × List ℕ) :=
  match job.history with
  | .error _ => none
  | .ok df => (tickerIndices cfg df).map fun indices => (df, job.shuffle.order indices)

def tickerBody (cfg : Config) (job : Job) (st : St) : St :=
  -- One iteration of the ticker loop, past its break: the `try` block with its handler.
  match tickerWindows cfg job with
  | none => st
  | some (df, indices) => windowLoop cfg job df indices st

def tickerLoop (cfg : Config) (jobs : List Job) (st : St) : St :=
  -- `for ticker, split in all_tickers`, from a given state.
  forLoop (fun job st => allFull cfg job.split st)
    (fun job st => (.ok (tickerBody cfg job st) : Except Empty St)) jobs st

/-- The whole function: the counters start at zero and nothing is written. -/
def fetchAndGenerateCandlesticks (cfg : Config) (jobs : List Job) : St :=
  tickerLoop cfg jobs Store.empty

variable {cfg : Config} {job : Job} {jobs : List Job} {df : DataFrame} {indices : List ℕ} {i : ℕ}
  {st st' : St} {l : Label}

/-! ## What one iteration can do -/

def Job.image (job : Job) (l : Label) (i : ℕ) : Image := ⟨job.split, l, filename job.ticker i⟩

@[simp] theorem Job.image_split (job : Job) (l : Label) (i : ℕ) :
    (job.image l i).split = job.split := rfl

@[simp] theorem Job.image_label (job : Job) (l : Label) (i : ℕ) : (job.image l i).label = l := rfl

@[simp] theorem Job.image_filename (job : Job) (l : Label) (i : ℕ) :
    (job.image l i).filename = filename job.ticker i := rfl

def Job.Renders (cfg : Config) (job : Job) (df : DataFrame) (i : ℕ) (l : Label) : Prop :=
  job.plot (job.image l i) (normalise (window cfg df i)) = .ok ()

/-- The `continue` of a label that has its quota. -/
theorem windowBody_closed (hl : labelAt cfg df i = .ok l)
    (h : cfg.targetImagesPerClass ≤ st.counts (job.split, l)) :
    windowBody cfg job df i st = .ok st := by
  simp [windowBody, hl, h, bind, Except.bind, pure, Except.pure]

/-- A label with room is drawn, and counted where the renderer does not raise. -/
theorem windowBody_open (hl : labelAt cfg df i = .ok l)
    (h : st.counts (job.split, l) < cfg.targetImagesPerClass) :
    windowBody cfg job df i st =
      (job.plot (job.image l i) (normalise (window cfg df i))).map
        fun _ => st.keep (job.split, l) (job.image l i) := by
  simp only [windowBody, hl, bind, Except.bind, pure, Except.pure, if_neg (not_le.mpr h),
    Job.image]
  cases job.plot ⟨job.split, l, filename job.ticker i⟩ (normalise (window cfg df i)) <;> rfl

/-- An iteration that completes skipped a full label, or drew and counted its window. -/
theorem windowBody_cases (h : windowBody cfg job df i st = .ok st') :
    ∃ l, labelAt cfg df i = .ok l ∧
      ((cfg.targetImagesPerClass ≤ st.counts (job.split, l) ∧ st' = st) ∨
        (st.counts (job.split, l) < cfg.targetImagesPerClass ∧ job.Renders cfg df i l ∧
          st' = st.keep (job.split, l) (job.image l i))) := by
  cases hl : labelAt cfg df i with
  | error e => simp [windowBody, hl, bind, Except.bind] at h
  | ok l =>
    refine ⟨l, rfl, ?_⟩
    by_cases hc : cfg.targetImagesPerClass ≤ st.counts (job.split, l)
    · rw [windowBody_closed hl hc, Except.ok.injEq] at h
      exact Or.inl ⟨hc, h.symm⟩
    · rw [windowBody_open hl (not_le.mp hc)] at h
      cases hp : job.plot (job.image l i) (normalise (window cfg df i)) with
      | error e => rw [hp] at h; exact absurd h (by simp [Except.map])
      | ok u =>
        rw [hp] at h
        exact Or.inr ⟨not_le.mp hc, hp, (Except.ok.injEq _ _ ▸ h).symm⟩

/-- What reaches the window loop: the frame was downloaded and passed both guards, and the indices
are its enumerated ones in some order. -/
theorem tickerWindows_eq_some (h : tickerWindows cfg job = some (df, indices)) :
    job.history = .ok df ∧ ∃ is, tickerIndices cfg df = some is ∧
      indices = job.shuffle.order is := by
  unfold tickerWindows at h
  split at h
  · exact absurd h (by simp)
  · rename_i df' hdf
    simp only [Option.map_eq_some_iff, Prod.mk.injEq] at h
    obtain ⟨is, his, rfl, rfl⟩ := h
    exact ⟨hdf, is, his, rfl⟩

theorem tickerWindows_of_history {is : List ℕ} (hh : job.history = .ok df)
    (hi : tickerIndices cfg df = some is) :
    tickerWindows cfg job = some (df, job.shuffle.order is) := by
  unfold tickerWindows
  rw [hh]
  simp only [hi, Option.map_some]

/-- No window comes twice in one ticker. -/
theorem nodup_tickerWindows (h : tickerWindows cfg job = some (df, indices)) : indices.Nodup := by
  obtain ⟨-, is, his, rfl⟩ := tickerWindows_eq_some h
  exact job.shuffle.nodup_order (nodup_tickerIndices his)

/-- What is asked of the windows of a ticker, once they are known to be `w`. -/
theorem forall_windows_some {P : DataFrame → List ℕ → Prop} (w : DataFrame × List ℕ) :
    (∀ df indices, some w = some (df, indices) → P df indices) ↔ P w.1 w.2 := by
  constructor
  · intro hall
    exact hall w.1 w.2 rfl
  · rintro hP _ _ ⟨⟩
    exact hP

/-- Inside the window loop there is always a label, so what raises is the renderer. -/
theorem labelAt_of_tickerWindows (h : tickerWindows cfg job = some (df, indices))
    (hi : i ∈ indices) : ∃ l, labelAt cfg df i = .ok l := by
  obtain ⟨-, is, his, rfl⟩ := tickerWindows_eq_some h
  exact labelAt_of_mem his (job.shuffle.mem_order.mp hi)

/-! ## The loops, one iteration at a time -/

theorem windowLoop_break (h : allFull cfg job.split st = true) :
    windowLoop cfg job df (i :: indices) st = st := forLoop_stop h

theorem windowLoop_ok (h : allFull cfg job.split st = false)
    (hb : windowBody cfg job df i st = .ok st') :
    windowLoop cfg job df (i :: indices) st = windowLoop cfg job df indices st' := forLoop_ok h hb

/-- An exception ends the ticker: the indices to come are dropped, and what was drawn stays. -/
theorem windowLoop_error {e : PyError} (h : allFull cfg job.split st = false)
    (hb : windowBody cfg job df i st = .error e) :
    windowLoop cfg job df (i :: indices) st = st := forLoop_error h hb

theorem tickerBody_skip (h : tickerWindows cfg job = none) : tickerBody cfg job st = st := by
  rw [tickerBody, h]

theorem tickerBody_enter (h : tickerWindows cfg job = some (df, indices)) :
    tickerBody cfg job st = windowLoop cfg job df indices st := by
  rw [tickerBody, h]

@[simp] theorem tickerLoop_nil : tickerLoop cfg [] st = st := rfl

/-- The `break` of the ticker loop drops the entries to come, whatever their split. -/
theorem tickerLoop_full (h : allFull cfg job.split st = true) :
    tickerLoop cfg (job :: jobs) st = st := by
  simp only [tickerLoop, forLoop, h, if_true]

theorem tickerLoop_cons (h : allFull cfg job.split st = false) :
    tickerLoop cfg (job :: jobs) st = tickerLoop cfg jobs (tickerBody cfg job st) := by
  simp only [tickerLoop, forLoop, h, Bool.false_eq_true, if_false]

/-! ## The loops fill quotas -/

def splitKeys (split : Split) : List (Split × Label) := labels.map (split, ·)

theorem mem_splitKeys (split : Split) (l : Label) : (split, l) ∈ splitKeys split :=
  List.mem_map_of_mem (mem_labels l)

/-- The test of both breaks is the library's `full`, at the three keys of the split. -/
theorem allFull_eq_full (split : Split) (st : St) :
    allFull cfg split st = full cfg.targetImagesPerClass (splitKeys split) st := by
  simp [allFull, full, splitKeys, Function.comp_def]

theorem allFull_iff {split : Split} :
    allFull cfg split st = true ↔ ∀ l, cfg.targetImagesPerClass ≤ st.counts (split, l) := by
  rw [allFull_eq_full, full_iff]
  constructor
  · exact fun h l => h _ (mem_splitKeys split l)
  · intro h k hk
    obtain ⟨l, -, rfl⟩ := List.mem_map.mp hk
    exact h l

/-- The window at `i` as an offer. The second arm stands for `window.iloc[-1]` on an empty window,
which no enumerated index has (`labelAt_of_mem`). -/
def offer (cfg : Config) (job : Job) (df : DataFrame) (i : ℕ) :
    Offer (Split × Label) Image PyError :=
  match labelAt cfg df i with
  | .ok l =>
    { cls := (job.split, l), item := job.image l i,
      outcome := job.plot (job.image l i) (normalise (window cfg df i)) }
  | .error e => { cls := (job.split, .hold), item := job.image .hold i, outcome := .error e }

theorem offer_of_labelAt (hl : labelAt cfg df i = .ok l) :
    offer cfg job df i =
      { cls := (job.split, l), item := job.image l i,
        outcome := job.plot (job.image l i) (normalise (window cfg df i)) } := by
  rw [offer, hl]

theorem offer_cls_mem (cfg : Config) (job : Job) (df : DataFrame) (i : ℕ) :
    (offer cfg job df i).cls ∈ splitKeys job.split := by
  unfold offer
  split
  · exact mem_splitKeys _ _
  · exact mem_splitKeys _ _

/-- **One iteration is one attempt to keep an offer**: the step that the loop lemmas below run. -/
theorem windowBody_eq_take (hl : labelAt cfg df i = .ok l) (st : St) :
    windowBody cfg job df i st = (offer cfg job df i).take cfg.targetImagesPerClass st := by
  rw [offer_of_labelAt hl]
  by_cases hc : cfg.targetImagesPerClass ≤ st.counts (job.split, l)
  · rw [windowBody_closed hl hc, Offer.take_closed hc]
  · rw [windowBody_open hl (not_le.mp hc), Offer.take, if_neg hc]

/-- The label of the window at `i` has room: an iteration at `st` would draw the window. -/
def hasRoom (cfg : Config) (split : Split) (df : DataFrame) (st : St) (i : ℕ) : Bool :=
  match labelAt cfg df i with
  | .ok l => decide (st.counts (split, l) < cfg.targetImagesPerClass)
  | .error _ => false

/-- Drawing the window at `i` under its label does not raise. -/
def renders (cfg : Config) (job : Job) (df : DataFrame) (i : ℕ) : Bool :=
  match labelAt cfg df i with
  | .ok l => (job.plot (job.image l i) (normalise (window cfg df i))).isOk
  | .error _ => false

theorem hasRoom_eq (hl : labelAt cfg df i = .ok l) (st : St) :
    hasRoom cfg job.split df st i =
      decide (st.counts (offer cfg job df i).cls < cfg.targetImagesPerClass) := by
  rw [offer_of_labelAt hl, hasRoom, hl]

theorem hasRoom_iff (hl : labelAt cfg df i = .ok l) :
    hasRoom cfg job.split df st i = true ↔
      st.counts (job.split, l) < cfg.targetImagesPerClass := by
  rw [hasRoom, hl, decide_eq_true_eq]

/-- A window that renders is an offer that lands. -/
theorem renders_eq_lands (cfg : Config) (job : Job) (df : DataFrame) (i : ℕ) :
    renders cfg job df i = (offer cfg job df i).lands := by
  cases hl : labelAt cfg df i with
  | error e => simp only [renders, offer, hl, Offer.lands]
  | ok l =>
    simp only [renders, offer, hl, Offer.lands]
    cases job.plot (job.image l i) (normalise (window cfg df i)) <;> rfl

theorem renders_iff (hl : labelAt cfg df i = .ok l) :
    renders cfg job df i = true ↔ job.Renders cfg df i l := by
  unfold renders Job.Renders
  rw [hl]
  cases hp : job.plot (job.image l i) (normalise (window cfg df i)) with
  | ok u => simp only [hp, Except.isOk, Except.toBool]
  | error e => simp [hp, Except.isOk, Except.toBool]

def offers (cfg : Config) (job : Job) : List (Offer (Split × Label) Image PyError) :=
  match tickerWindows cfg job with
  | none => []
  | some (df, indices) => indices.map (offer cfg job df)

theorem offers_skip (h : tickerWindows cfg job = none) : offers cfg job = [] := by
  rw [offers, h]

theorem offers_enter (h : tickerWindows cfg job = some (df, indices)) :
    offers cfg job = indices.map (offer cfg job df) := by
  rw [offers, h]

/-- A condition on the offers of a ticker, as one on its windows: the library speaks of the first,
the modules about the generator of the second. -/
theorem forall_mem_offers {P : Offer (Split × Label) Image PyError → Prop} :
    (∀ o ∈ offers cfg job, P o) ↔ ∀ df indices, tickerWindows cfg job = some (df, indices) →
      ∀ i ∈ indices, P (offer cfg job df i) := by
  cases hw : tickerWindows cfg job with
  | none => simp [offers_skip hw]
  | some w => rw [offers_enter hw, List.forall_mem_map, forall_windows_some]

def batch (cfg : Config) (job : Job) : Batch (Split × Label) Image PyError where
  classes := splitKeys job.split
  offers := offers cfg job
  cls_mem := forall_mem_offers.mpr fun df _ _ i _ => offer_cls_mem cfg job df i

/-- The window loop fills quotas from the offers of its ticker. -/
theorem windowLoop_eq_fill (hl : ∀ i ∈ indices, ∃ l, labelAt cfg df i = .ok l) (st : St) :
    windowLoop cfg job df indices st =
      fill cfg.targetImagesPerClass (splitKeys job.split) (indices.map (offer cfg job df)) st := by
  rw [fill, forLoop_map, windowLoop]
  simp only [allFull_eq_full]
  refine forLoop_congr fun i hi s => ?_
  obtain ⟨l, hl⟩ := hl i hi
  exact windowBody_eq_take hl s

/-- So does an iteration of the ticker loop; a ticker that is skipped has none. -/
theorem tickerBody_eq_fill (cfg : Config) (job : Job) (st : St) :
    tickerBody cfg job st =
      fill cfg.targetImagesPerClass (splitKeys job.split) (offers cfg job) st := by
  cases hw : tickerWindows cfg job with
  | none => rw [tickerBody_skip hw, offers_skip hw, fill_nil]
  | some w =>
    rw [tickerBody_enter hw, offers_enter hw,
      windowLoop_eq_fill fun i hi => labelAt_of_tickerWindows hw hi]

/-- **The ticker loop fills quotas from one batch after another.** -/
theorem tickerLoop_eq_fillAll (cfg : Config) (jobs : List Job) (st : St) :
    tickerLoop cfg jobs st = fillAll cfg.targetImagesPerClass (jobs.map (batch cfg)) st := by
  rw [fillAll, forLoop_map, tickerLoop]
  simp only [allFull_eq_full, tickerBody_eq_fill]
  rfl

/-! ## Comparing two runs -/

def SameDataset (st st' : St) : Prop :=
  (∀ k, st.counts k = st'.counts k) ∧ ∀ img, img ∈ st.kept ↔ img ∈ st'.kept

instance (st st' : St) : Decidable (SameDataset st st') :=
  decidable_of_iff
    ((∀ k ∈ splitKeys .train ++ splitKeys .val, st.counts k = st'.counts k) ∧
      (∀ img ∈ st.kept, img ∈ st'.kept) ∧ ∀ img ∈ st'.kept, img ∈ st.kept)
    (by
      refine and_congr ⟨fun h k => h k ?_, fun h k _ => h k⟩
        ⟨fun h img => ⟨h.1 img, h.2 img⟩, fun h => ⟨fun img => (h img).mp, fun img => (h img).mpr⟩⟩
      obtain ⟨s, l⟩ := k
      cases s with
      | train => exact List.mem_append_left _ (mem_splitKeys _ l)
      | val => exact List.mem_append_right _ (mem_splitKeys _ l))

/-! ## A small frame

Three windows, one of each label. The concrete runs of the later modules are over it. -/

def Config.quota (T : ℕ) : Config := { Config.script "/root" with targetImagesPerClass := T }

/-- A still price, but for one high and one low: the three windows of 30 days that are enumerated
are a `buy`, a `hold` and a `sell`, in this order. -/
def threeWindows : DataFrame where
  columns := requiredCols
  rows := (List.range 38).map fun n => fun
    | .High => .fin (if n = 30 then 2 else 1)
    | .Low => .fin (if n = 36 then 1 / 2 else 1)
    | _ => .fin 1

example : (List.range 3).map (labelAt (Config.quota 1) threeWindows) =
    [.ok .buy, .ok .hold, .ok .sell] := by decide +kernel

def threeWindowsJob (ticker : String) (split : Split) : Job where
  history := .ok threeWindows
  shuffle := Shuffle.id
  plot _ _ := .ok ()
  ticker := ticker
  split := split

end StockCharts
