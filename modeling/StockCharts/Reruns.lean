import StockCharts.Disk

/-!
# The quota on disk, run after run

A run counts from zero. The quota it keeps is one for **its own images**, and a directory holds
those of every run since it was created. On empty directories the two are the same. On any other,
the next run can fill its quota with windows it has not drawn before, since which windows are drawn
is up to the shuffle, and then the directory holds more than the quota (`quotaHolds_script_iff`).
An earlier version of the script removed the old dataset first.

The worlds in which that happens are ordinary ones: one ticker whose price stands still, with one
window more than the quota has room for, and no data for the others.
-/

set_option autoImplicit false

namespace StockCharts

def QuotaHolds (cfg : Config) (d : Disk) : Prop :=
  ∀ s l, (d.filesIn (dirPath cfg s (.label l))).ncard ≤ cfg.targetImagesPerClass

def LabelledEmpty (cfg : Config) (d : Disk) : Prop :=
  ∀ s l, d.filesIn (dirPath cfg s (.label l)) = ∅

variable {cfg : Config} {world : World} {d : Disk} {s : Split} {l : Label} {p : String}

/-! ## A run on empty directories -/

/-- On empty directories one run keeps the quota, whatever its world is. -/
theorem quotaHolds_of_empty (h : LabelledEmpty cfg d) : QuotaHolds cfg (script cfg world d) := by
  intro s l
  have hinv := runInvariant_script cfg world
  rw [filesIn_script, h s l, Set.empty_union, ← hinv.counts_eq s l]
  exact hinv.counts_le s l

theorem labelledEmpty_absent (cfg : Config) : LabelledEmpty cfg Disk.absent := by
  intro s l
  ext p
  exact iff_of_false (fun h => absurd h.1 (Finset.notMem_empty p)) id

/-- Without a quota to fill, holding the quota is being empty. -/
theorem labelledEmpty_of_quotaHolds (hT : cfg.targetImagesPerClass = 0) (h : QuotaHolds cfg d) :
    LabelledEmpty cfg d := by
  intro s l
  have hcard := h s l
  rw [hT, Nat.le_zero, Set.ncard_eq_zero (d.finite_filesIn _)] at hcard
  exact hcard

/-- A quota of zero keeps them empty, run after run. -/
theorem quotaHolds_runs_of_empty (hT : cfg.targetImagesPerClass = 0) (worlds : List World)
    (h : LabelledEmpty cfg d) : LabelledEmpty cfg (runs cfg worlds d) := by
  induction worlds generalizing d with
  | nil => exact h
  | cons world worlds ih => exact ih (labelledEmpty_of_quotaHolds hT (quotaHolds_of_empty h))

/-! ## A ticker that stands still -/

def labelPrices : Label → Col → ℚ
  | .buy, .High => 2
  | .sell, .Low => 1 / 2
  | _, _ => 1

/-- Such days only: one window more than the quota, all of them of the label. -/
def labelFrame (cfg : Config) (l : Label) : DataFrame where
  columns := requiredCols
  rows := (List.replicate (cfg.windowSize + 5 + (cfg.targetImagesPerClass + 1))
    (labelPrices l)).map ratRow

theorem tickerIndices_labelFrame (cfg : Config) (l : Label) :
    tickerIndices cfg (labelFrame cfg l) = some (List.range (cfg.targetImagesPerClass + 1)) := by
  have hlen : (labelFrame cfg l).len =
      cfg.windowSize + 5 + (cfg.targetImagesPerClass + 1) := by
    simp [labelFrame, DataFrame.len]
  rw [tickerIndices_of_long mem_requiredCols (by omega), hlen]
  congr 2
  omega

theorem iloc_labelFrame {lo hi : ℕ} (h : hi ≤ (labelFrame cfg l).len) :
    (labelFrame cfg l).iloc lo hi = (List.replicate (hi - lo) (labelPrices l)).map ratRow := by
  rw [DataFrame.len, labelFrame, List.length_map, List.length_replicate] at h
  rw [DataFrame.iloc, labelFrame, ← List.map_drop, ← List.map_take, List.drop_replicate,
    List.take_replicate]
  congr 2
  omega

theorem labelOf_labelPrices (l : Label) :
    labelOf (.fin 1) ((List.replicate 5 (labelPrices l)).map ratRow) = l := by
  cases l with
  | buy => decide +kernel
  | hold => decide +kernel
  | sell => decide +kernel

theorem labelAt_labelFrame {i : ℕ} (hi : i ∈ List.range (cfg.targetImagesPerClass + 1)) :
    labelAt cfg (labelFrame cfg l) i = .ok l := by
  have hin := (mem_tickerIndices (tickerIndices_labelFrame cfg l)).mp hi
  have hpos := cfg.windowSize_pos
  have hrow : (window cfg (labelFrame cfg l) i).getLast? = some (ratRow (labelPrices l)) := by
    rw [window, iloc_labelFrame (by omega), List.getLast?_map, List.getLast?_replicate,
      if_neg (by omega)]
    rfl
  have hclose : ratRow (labelPrices l) .Close = .fin 1 := by cases l <;> rfl
  rw [labelAt, hrow]
  show Except.ok (labelOf (ratRow (labelPrices l) .Close) _) = _
  rw [hclose, futureWindow, iloc_labelFrame (by omega), Nat.add_sub_cancel_left,
    labelOf_labelPrices]

/-! ## A world in which nothing else happens -/

def leadTicker : Split → String
  | .train => "AAPL"
  | .val => "BA"

/-- The split's first ticker answers with a frame of one label, drawn in the given order; every
other download raises. -/
def stillWorld (cfg : Config) (s : Split) (l : Label) (σ : Shuffle) : World := fun ticker =>
  { history := if ticker = leadTicker s then .ok (labelFrame cfg l) else .error (.other "no data")
    shuffle := σ
    plot := fun _ _ => .ok () }

theorem tickerLoop_of_skip {jobs : List Job} (h : ∀ job ∈ jobs, tickerWindows cfg job = none)
    (st : St) : tickerLoop cfg jobs st = st := by
  apply forLoop_idle
  intro job hjob st' hok
  rw [Except.ok.injEq, tickerBody_skip (h job hjob)] at hok
  exact hok.symm

theorem tickerLoop_append_of_skip {pre jobs : List Job} {st : St}
    (h : ∀ job ∈ pre, tickerWindows cfg job = none) (hopen : ∀ s, allFull cfg s st = false) :
    tickerLoop cfg (pre ++ jobs) st = tickerLoop cfg jobs st := by
  induction pre with
  | nil => rfl
  | cons job pre ih =>
    rw [List.cons_append, tickerLoop_cons (hopen job.split),
      tickerBody_skip (h job List.mem_cons_self)]
    exact ih fun job hj => h job (List.mem_cons_of_mem _ hj)

/-- Where one ticker alone has windows, the loop is that ticker's. -/
theorem tickerLoop_solo {pre post : List Job} {job : Job} {st : St}
    (hpre : ∀ job ∈ pre, tickerWindows cfg job = none)
    (hpost : ∀ job ∈ post, tickerWindows cfg job = none) (hopen : ∀ s, allFull cfg s st = false) :
    tickerLoop cfg (pre ++ job :: post) st = tickerBody cfg job st := by
  rw [tickerLoop_append_of_skip hpre hopen, tickerLoop_cons (hopen job.split),
    tickerLoop_of_skip hpost]

theorem leadTicker_mem (s : Split) : (leadTicker s, s) ∈ allTickers := by
  cases s with
  | train => decide
  | val => decide

theorem tickerWindows_stillWorld {σ : Shuffle} {entry : String × Split}
    (h : entry.1 ≠ leadTicker s) : tickerWindows cfg (jobOf (stillWorld cfg s l σ) entry) = none := by
  unfold tickerWindows jobOf stillWorld
  rw [if_neg h]

/-- A ticker all of whose windows are of one label and render draws its first ones. -/
theorem tickerBody_kept {job : Job} {df : DataFrame} {indices : List ℕ} {st : St}
    (hw : tickerWindows cfg job = some (df, indices))
    (hlab : ∀ i ∈ indices, labelAt cfg df i = .ok l)
    (hrender : ∀ i ∈ indices, renders cfg job df i = true) :
    (tickerBody cfg job st).kept = st.kept ++
      (indices.take (cfg.targetImagesPerClass - st.counts (job.split, l))).map (job.image l) := by
  rw [tickerBody_eq_fill, offers_enter hw, fill_kept (mem_splitKeys job.split l)]
  · rw [← List.map_take, List.map_map]
    congr 1
    apply List.map_congr_left
    intro i hi
    rw [Function.comp_apply, offer_of_labelAt (hlab i (List.mem_of_mem_take hi))]
  · rw [List.forall_mem_map]
    intro i hi
    rw [offer_of_labelAt (hlab i hi)]
  · rw [List.forall_mem_map]
    intro i hi
    rw [← renders_eq_lands]
    exact hrender i hi

/-- The run over such a world keeps the first indices of its shuffle, up to the quota. -/
theorem tickerBody_stillWorld (cfg : Config) (s : Split) (l : Label) (σ : Shuffle) :
    (tickerBody cfg (jobOf (stillWorld cfg s l σ) (leadTicker s, s)) Store.empty).kept =
      ((σ.order (List.range (cfg.targetImagesPerClass + 1))).take cfg.targetImagesPerClass).map
        fun i => ⟨s, l, filename (leadTicker s) i⟩ := by
  have hh : (jobOf (stillWorld cfg s l σ) (leadTicker s, s)).history = .ok (labelFrame cfg l) :=
    if_pos rfl
  have hw := tickerWindows_of_history hh (tickerIndices_labelFrame cfg l)
  have hlab : ∀ i ∈ σ.order (List.range (cfg.targetImagesPerClass + 1)),
      labelAt cfg (labelFrame cfg l) i = .ok l := by
    intro i hi
    exact labelAt_labelFrame (σ.mem_order.mp hi)
  have hrender : ∀ i ∈ σ.order (List.range (cfg.targetImagesPerClass + 1)),
      renders cfg (jobOf (stillWorld cfg s l σ) (leadTicker s, s)) (labelFrame cfg l) i = true := by
    intro i hi
    rw [renders_iff (hlab i hi)]
    rfl
  rw [tickerBody_kept hw hlab hrender]
  rfl

/-- **What is drawn in such a world**: the first windows in the shuffled order, up to the quota. -/
theorem kept_stillWorld (hT : 0 < cfg.targetImagesPerClass) (s : Split) (l : Label) (σ : Shuffle) :
    (fetchAndGenerateCandlesticks cfg (jobsOf (stillWorld cfg s l σ))).kept =
      ((σ.order (List.range (cfg.targetImagesPerClass + 1))).take cfg.targetImagesPerClass).map
        fun i => ⟨s, l, filename (leadTicker s) i⟩ := by
  obtain ⟨pre, post, hsplit⟩ := List.append_of_mem (leadTicker_mem s)
  have hnd := nodup_allTickers
  rw [hsplit, List.map_append, List.map_cons, List.nodup_append, List.nodup_cons] at hnd
  obtain ⟨-, ⟨hpost, -⟩, hdisj⟩ := hnd
  rw [fetchAndGenerateCandlesticks, jobsOf, hsplit, List.map_append, List.map_cons,
    tickerLoop_solo, tickerBody_stillWorld]
  · rw [List.forall_mem_map]
    intro e he
    apply tickerWindows_stillWorld
    intro heq
    exact hdisj _ (List.mem_map_of_mem he) _ List.mem_cons_self heq
  · rw [List.forall_mem_map]
    intro e he
    apply tickerWindows_stillWorld
    intro heq
    exact hpost (List.mem_map.mpr ⟨e, he, heq⟩)
  · intro s
    exact allFull_eq_false (l := .hold) hT

/-! ## One file too many -/

def Shuffle.back (j : ℕ) : Shuffle where
  order l := if j ∈ l then l.erase j ++ [j] else l
  perm l := by
    split
    · rename_i hj
      exact (List.perm_append_singleton j _).trans (List.perm_cons_erase hj).symm
    · exact List.Perm.refl l

theorem notMem_take_back (T j : ℕ) : j ∉ ((Shuffle.back j).order (List.range (T + 1))).take T := by
  unfold Shuffle.back
  by_cases hj : j ∈ List.range (T + 1)
  · have hlen : ((List.range (T + 1)).erase j).length = T := by
      rw [List.length_erase_of_mem hj, List.length_range, Nat.add_sub_cancel]
    simp only [if_pos hj]
    rw [List.take_left' hlen]
    exact List.nodup_range.not_mem_erase
  · simp only [if_neg hj]
    intro hmem
    exact hj (List.mem_of_mem_take hmem)

theorem leadTicker_plain (s : Split) : '/' ∉ (leadTicker s).toList := by
  cases s with
  | train => decide
  | val => decide

/-- An image that a run keeps is a file behind it. -/
theorem windowPath_mem_script {i : ℕ}
    (h : (⟨s, l, filename (leadTicker s) i⟩ : Image) ∈
      (fetchAndGenerateCandlesticks cfg (jobsOf world)).kept) :
    windowPath cfg s l (leadTicker s) i ∈
      (script cfg world d).filesIn (dirPath cfg s (.label l)) := by
  rw [filesIn_script]
  right
  exact ⟨List.mem_map_of_mem h, inDir_windowPath (leadTicker_plain s) s l i⟩

theorem windowPath_zero_mem (hT : 0 < cfg.targetImagesPerClass) (s : Split) (l : Label)
    (d : Disk) : windowPath cfg s l (leadTicker s) 0 ∈
      (script cfg (stillWorld cfg s l Shuffle.id) d).filesIn (dirPath cfg s (.label l)) := by
  apply windowPath_mem_script
  rw [kept_stillWorld hT]
  refine List.mem_map.mpr ⟨0, ?_, rfl⟩
  show 0 ∈ (List.range (cfg.targetImagesPerClass + 1)).take cfg.targetImagesPerClass
  rw [List.take_range, List.mem_range]
  omega

/-- The directory holds a file already, and the run writes its full quota under other names. -/
theorem exceeds_quota (hT : 0 < cfg.targetImagesPerClass) {j : ℕ}
    (hp : p ∈ d.filesIn (dirPath cfg s (.label l)))
    (hj : ∀ i, p = windowPath cfg s l (leadTicker s) i → i = j) :
    ¬ QuotaHolds cfg (script cfg (stillWorld cfg s l (Shuffle.back j)) d) := by
  intro hquota
  have hle := hquota s l
  have hperm := (Shuffle.back j).perm (List.range (cfg.targetImagesPerClass + 1))
  have hnot := notMem_take_back cfg.targetImagesPerClass j
  have hkept := kept_stillWorld hT s l (Shuffle.back j)
  generalize hnews : ((Shuffle.back j).order (List.range (cfg.targetImagesPerClass + 1))).take
    cfg.targetImagesPerClass = news at hnot hkept
  have hlen : news.length = cfg.targetImagesPerClass := by
    rw [← hnews, List.length_take, hperm.length_eq, List.length_range]
    omega
  have hnd : (news.map (windowPath cfg s l (leadTicker s))).Nodup := by
    refine List.Nodup.map (fun i i' => windowPath_inj (leadTicker_plain s)) ?_
    rw [← hnews]
    exact (hperm.nodup_iff.mpr List.nodup_range).sublist (List.take_sublist _ _)
  have hfresh : p ∉ news.map (windowPath cfg s l (leadTicker s)) := by
    intro hmem
    obtain ⟨i, hi, heq⟩ := List.mem_map.mp hmem
    exact hnot (hj i heq.symm ▸ hi)
  have hsub : (((p :: news.map (windowPath cfg s l (leadTicker s))).toFinset : Finset String) :
      Set String) ⊆ (script cfg (stillWorld cfg s l (Shuffle.back j)) d).filesIn
        (dirPath cfg s (.label l)) := by
    intro q hq
    rw [List.coe_toFinset] at hq
    rcases List.mem_cons.mp hq with rfl | hq
    · rw [filesIn_script]
      exact Or.inl hp
    · obtain ⟨i, hi, rfl⟩ := List.mem_map.mp hq
      apply windowPath_mem_script
      rw [hkept]
      exact List.mem_map.mpr ⟨i, hi, rfl⟩
  have hcard := Set.ncard_le_ncard hsub (Disk.finite_filesIn _ _)
  rw [Set.ncard_coe_finset, List.toFinset_card_of_nodup (List.nodup_cons.mpr ⟨hfresh, hnd⟩),
    List.length_cons, List.length_map, hlen] at hcard
  omega

/-- **A run keeps the quota of the directories exactly when they are empty before it**: on any
other disk some world breaks it. -/
theorem quotaHolds_script_iff (cfg : Config) (d : Disk) :
    (∀ world, QuotaHolds cfg (script cfg world d)) ↔ LabelledEmpty cfg d := by
  constructor
  · intro h s l
    rw [Set.eq_empty_iff_forall_notMem]
    intro p hp
    rcases Nat.eq_zero_or_pos cfg.targetImagesPerClass with hT | hT
    · -- nothing fits, and the file is still there after any run
      have hempty := labelledEmpty_of_quotaHolds hT (h (stillWorld cfg s l Shuffle.id)) s l
      rw [filesIn_script, Set.union_empty_iff] at hempty
      rw [hempty.1] at hp
      exact hp
    · by_cases hex : ∃ j, p = windowPath cfg s l (leadTicker s) j
      · obtain ⟨j, rfl⟩ := hex
        refine exceeds_quota hT hp ?_ (h (stillWorld cfg s l (Shuffle.back j)))
        intro i hi
        exact (windowPath_inj (leadTicker_plain s) hi).symm
      · refine exceeds_quota hT hp ?_ (h (stillWorld cfg s l (Shuffle.back 0)))
        intro i hi
        exact absurd ⟨i, hi⟩ hex
  · intro h world
    exact quotaHolds_of_empty h

/-! ## Any number of runs -/

/-- Once a run has drawn something, the labelled directories are never empty again. -/
theorem not_labelledEmpty_after (hT : 0 < cfg.targetImagesPerClass) (worlds : List World) :
    ¬ LabelledEmpty cfg
      (runs cfg (stillWorld cfg .train .buy Shuffle.id :: worlds) Disk.absent) := by
  intro hempty
  have hfirst := windowPath_zero_mem hT .train .buy Disk.absent
  have hlater := files_subset_runs cfg worlds _ hfirst.1
  have hmem : windowPath cfg .train .buy (leadTicker .train) 0 ∈
      (runs cfg (stillWorld cfg .train .buy Shuffle.id :: worlds) Disk.absent).filesIn
        (dirPath cfg .train (.label .buy)) := ⟨hlater, hfirst.2⟩
  rw [hempty .train .buy] at hmem
  exact hmem

theorem quotaHolds_runs_iff (cfg : Config) {k : ℕ} (hk : 0 < k) :
    (∀ worlds : List World, worlds.length = k → QuotaHolds cfg (runs cfg worlds Disk.absent)) ↔
      k = 1 ∨ cfg.targetImagesPerClass = 0 := by
  constructor
  · intro h
    by_contra hne
    rw [not_or] at hne
    obtain ⟨n, rfl⟩ : ∃ n, k = n + 2 := ⟨k - 2, by omega⟩
    -- all runs but the last leave a file behind, and some last run then breaks the quota
    have hfull := not_labelledEmpty_after (Nat.pos_of_ne_zero hne.2)
      (List.replicate n (stillWorld cfg .train .buy Shuffle.id))
    refine hfull ((quotaHolds_script_iff cfg _).mp ?_)
    intro world
    have hlast := h ((stillWorld cfg .train .buy Shuffle.id ::
      List.replicate n (stillWorld cfg .train .buy Shuffle.id)) ++ [world]) (by simp)
    rw [runs_append] at hlast
    exact hlast
  · rintro (rfl | hT) worlds hlen
    · obtain ⟨world, rfl⟩ := List.length_eq_one_iff.mp hlen
      exact quotaHolds_of_empty (labelledEmpty_absent cfg)
    · intro s l
      rw [quotaHolds_runs_of_empty hT worlds (labelledEmpty_absent cfg) s l, Set.ncard_empty]
      exact Nat.zero_le _

/-- **The quota on disk is a quota for one run.** From any disk, a run keeps it in every world
exactly when the labelled directories are empty before the run. So in a sequence of runs each of
which starts on empty labelled directories it holds after every one of them; and from an absent
`OUTPUT_DIR`, with nothing removed in between, it holds after `k` runs in every world exactly when
`k` is one or there is no quota to fill. -/
theorem quota_over_runs (cfg : Config) :
    (∀ d, (∀ world, QuotaHolds cfg (script cfg world d)) ↔ LabelledEmpty cfg d) ∧
    (∀ worlds d, (∀ ws w, ws ++ [w] <+: worlds → LabelledEmpty cfg (runs cfg ws d)) →
      ∀ ws w, ws ++ [w] <+: worlds → QuotaHolds cfg (runs cfg (ws ++ [w]) d)) ∧
    ∀ k, 0 < k →
      ((∀ worlds : List World, worlds.length = k → QuotaHolds cfg (runs cfg worlds Disk.absent)) ↔
        k = 1 ∨ cfg.targetImagesPerClass = 0) := by
  refine ⟨quotaHolds_script_iff cfg, ?_, fun k => quotaHolds_runs_iff cfg⟩
  intro worlds d h ws w hpre
  rw [runs_append]
  exact quotaHolds_of_empty (h ws w hpre)

theorem exceeds_twice (hT : 0 < cfg.targetImagesPerClass) (s : Split) (l : Label) :
    ¬ QuotaHolds cfg (runs cfg
      [stillWorld cfg s l Shuffle.id, stillWorld cfg s l (Shuffle.back 0)] Disk.absent) := by
  show ¬ QuotaHolds cfg (script cfg _ (script cfg _ Disk.absent))
  apply exceeds_quota hT (windowPath_zero_mem hT s l Disk.absent)
  intro i hi
  exact (windowPath_inj (leadTicker_plain s) hi).symm

/-- Two runs of the script as it is: the first draws the windows 0 to 49 of AAPL, the second the
windows 1 to 50, and `train/buy` holds 51 images. -/
theorem not_quotaHolds_twice :
    ¬ QuotaHolds (Config.script "/root") (runs (Config.script "/root")
      [stillWorld (Config.script "/root") .train .buy Shuffle.id,
        stillWorld (Config.script "/root") .train .buy (Shuffle.back 0)] Disk.absent) :=
  exceeds_twice (by decide) .train .buy

end StockCharts
