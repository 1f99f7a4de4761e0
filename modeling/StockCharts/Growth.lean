import StockCharts.Disk
import StockCharts.Volatility

/-!
# What re-runs leave of the labels

The directories hold the charts of every run, so a window may be drawn again by a later run, from a
later download. Downloads grow: new days come at the end, and the old ones are re-adjusted by a
factor (`DataFrame.rescale`). As long as they do no more than that, **a window is in one directory**,
however many runs drew it and whatever the shuffles were (`one_directory_over_runs`); the names are
by position, and the positions stay.

The distractors have one set of names, so the `unknown` directories are those of the first run
(`distractors_over_runs`).
-/

set_option autoImplicit false

namespace StockCharts

/-! ## Downloads that grow -/

/-- Where both answer, the second world's download of a ticker is the first one's, re-adjusted and
with more days. Prices may be missing in either. -/
def Later (w w' : World) : Prop :=
  ∀ t df df', (w t).history = .ok df → (w' t).history = .ok df' →
    ∃ k : ℚ, 0 < k ∧ ∃ more : List Row, df' = df.rescale k more

/-- The worlds agree on the labels of the windows they both enumerate. -/
def AgreeOnLabels (cfg : Config) (w w' : World) : Prop :=
  ∀ t df df', (w t).history = .ok df → (w' t).history = .ok df' →
    ∀ i, i + cfg.windowSize + 5 < df.len → i + cfg.windowSize + 5 < df'.len →
      labelAt cfg df i = labelAt cfg df' i

variable {cfg : Config} {w w' : World} {worlds : List World} {d : Disk} {s s' : Split}
  {l : Label} {p : String}

theorem AgreeOnLabels.refl (cfg : Config) (w : World) : AgreeOnLabels cfg w w := by
  intro t df df' h h' i _ _
  rw [h, Except.ok.injEq] at h'
  rw [h']

theorem AgreeOnLabels.symm (h : AgreeOnLabels cfg w w') : AgreeOnLabels cfg w' w :=
  fun t df df' hd hd' i hi hi' => (h t df' df hd' hd i hi' hi).symm

/-- Growing keeps the labels of the windows that both have. -/
theorem Later.agreeOnLabels (h : Later w w') : AgreeOnLabels cfg w w' := by
  intro t df df' hd hd' i hi _
  obtain ⟨k, hk, more, rfl⟩ := h t df df' hd hd'
  exact (labelAt_rescale hk more hi.le).symm

/-! ## What the directories hold -/

/-- After any runs, a labelled directory holds what it held and what the loops of each wrote. -/
theorem mem_filesIn_runs (cfg : Config) (worlds : List World) (d : Disk) (s : Split) (l : Label) :
    p ∈ (runs cfg worlds d).filesIn (dirPath cfg s (.label l)) ↔
      p ∈ d.filesIn (dirPath cfg s (.label l)) ∨ ∃ world ∈ worlds,
        p ∈ filesIn cfg s (.label l) (fetchAndGenerateCandlesticks cfg (jobsOf world)).kept := by
  induction worlds generalizing d with
  | nil => simp [runs]
  | cons world worlds ih =>
    rw [runs, List.foldl_cons, ← runs, ih, filesIn_script]
    simp only [Set.mem_union, List.mem_cons, exists_eq_or_imp, or_assoc]

theorem plain_of_mem_allTickers {t : String} (ht : (t, s) ∈ allTickers) : '/' ∉ t.toList :=
  slash_notMem_allTickers t (List.mem_map_of_mem (f := Prod.fst) ht)

/-- A window that is there was drawn by one of the runs, under its label, and for its ticker. -/
theorem drawn_of_mem_runs {t : String} {i : ℕ} (ht : (t, s') ∈ allTickers)
    (hp : windowPath cfg s l t i ∈ (runs cfg worlds Disk.absent).files) :
    (t, s) ∈ allTickers ∧ ∃ world ∈ worlds, ∃ df, (world t).history = .ok df ∧
      i + cfg.windowSize + 5 < df.len ∧ labelAt cfg df i = .ok l := by
  have hplain := plain_of_mem_allTickers ht
  have hin : windowPath cfg s l t i ∈
      (runs cfg worlds Disk.absent).filesIn (dirPath cfg s (.label l)) :=
    ⟨hp, inDir_windowPath hplain s l i⟩
  rcases (mem_filesIn_runs cfg worlds Disk.absent s l).mp hin with hold | ⟨world, hw, hnew⟩
  · exact absurd hold.1 (Finset.notMem_empty _)
  · obtain ⟨job, hjob, rfl, df, indices, j, hwin, hj, hl, hpath⟩ :=
      (runInvariant_script cfg world).named s l _ hnew
    obtain ⟨entry, hentry, rfl⟩ := List.mem_map.mp hjob
    have hname : '/' ∉ (filename (jobOf world entry).ticker j).toList :=
      slash_notMem_filename (plain_of_mem_allTickers hentry) j
    rw [windowPath, filepath_eq (slash_notMem_windowName hplain _ l i)] at hpath
    obtain ⟨rfl, rfl⟩ := filename_inj (inDir_unique (slash_notMem_filename hplain i) hname hpath).2
    obtain ⟨hdf, is, his, rfl⟩ := tickerWindows_eq_some hwin
    have hmem := (mem_tickerIndices his).mp ((jobOf world entry).shuffle.mem_order.mp hj)
    exact ⟨hentry, world, hw, df, hdf, hmem, hl⟩

/-- **A window is in one directory**, over any runs whose downloads grow: the splits of a ticker
never mix, and neither do the labels of a window. -/
theorem one_directory_over_runs (cfg : Config) (hlater : worlds.Pairwise Later) {t : String}
    (ht : t ∈ allTickers.map Prod.fst) (i : ℕ) :
    {dir : Split × Label | windowPath cfg dir.1 dir.2 t i ∈
      (runs cfg worlds Disk.absent).files}.Subsingleton := by
  obtain ⟨entry, hentry, rfl⟩ := List.mem_map.mp ht
  rintro ⟨s, l⟩ hp ⟨s', l'⟩ hp'
  obtain ⟨hs, w, hw, df, hdf, hi, hl⟩ := drawn_of_mem_runs hentry hp
  obtain ⟨hs', w', hw', df', hdf', hi', hl'⟩ := drawn_of_mem_runs hentry hp'
  rw [Prod.mk.injEq]
  constructor
  · exact congrArg Prod.snd (List.inj_on_of_nodup_map nodup_allTickers hs hs' rfl)
  · have hsymm : Std.Symm (AgreeOnLabels cfg) := ⟨fun _ _ h => h.symm⟩
    have hpair : worlds.Pairwise (AgreeOnLabels cfg) := hlater.imp fun h => h.agreeOnLabels
    have hagree : AgreeOnLabels cfg w w' :=
      hpair.forall_of_forall (fun x _ => AgreeOnLabels.refl cfg x) hw hw'
    rw [hagree entry.1 df df' hdf hdf' i hi hi', hl', Except.ok.injEq] at hl
    exact hl.symm

/-- Every ticker has the one download. -/
def worldOf (df : DataFrame) : World := fun _ => ⟨.ok df, Shuffle.id, fun _ _ => .ok ()⟩

theorem one_directory_over_runs_halved :
    {dir : Split × Label | windowPath (Config.script "/root") dir.1 dir.2 "AAPL" 0 ∈
      (runs (Config.script "/root")
        [worldOf threeWindows, worldOf (threeWindows.rescale (1 / 2) tenDays)]
        Disk.absent).files}.Subsingleton := by
  refine one_directory_over_runs (Config.script "/root") ?_ (by decide) 0
  rw [List.pairwise_pair]
  intro t df df' hdf hdf'
  obtain rfl : threeWindows = df := Except.ok.inj hdf
  exact ⟨1 / 2, by norm_num, tenDays, (Except.ok.inj hdf').symm⟩

/-! ## The distractors -/

theorem isName_distractor (i : ℕ) : '/' ∉ (numbered ".png" "distractor" i).toList :=
  slash_notMem_numbered (by decide) (by decide)

theorem unknownPath_eq (cfg : Config) (s : Split) (i : ℕ) :
    unknownPath cfg s i = dirPath cfg s .unknown ++ "/" ++ numbered ".png" "distractor" i :=
  pathJoin_triple s.isName (Cls.isName .unknown) (isName_distractor i)

theorem unknownPath_inj {i j : ℕ} (h : unknownPath cfg s i = unknownPath cfg s' j) :
    s = s' ∧ i = j := by
  rw [unknownPath_eq, unknownPath_eq] at h
  obtain ⟨hdir, hname⟩ := inDir_unique (isName_distractor i) (isName_distractor j) h
  exact ⟨(dirPath_inj hdir).1, (numbered_inj (by decide) hname).2⟩

theorem inDir_unknownPath_iff {i : ℕ} :
    InDir (dirPath cfg s .unknown) (unknownPath cfg s' i) ↔ s' = s := by
  rw [unknownPath_eq]
  constructor
  · rintro ⟨name, hname, heq⟩
    exact (dirPath_inj (inDir_unique (isName_distractor i) hname heq).1).1
  · rintro rfl
    exact ⟨_, isName_distractor i, rfl⟩

/-- A run adds its distractors to a directory and nothing else. -/
theorem filesIn_unknown_script (cfg : Config) (world : World) (d : Disk) (s : Split) :
    (script cfg world d).filesIn (dirPath cfg s .unknown) =
      d.filesIn (dirPath cfg s .unknown) ∪
        ((Finset.range (unknownTarget cfg s)).image (unknownPath cfg s) : Finset String) := by
  ext p
  show (p ∈ (script cfg world d).files ∧ InDir _ p) ↔
    (p ∈ d.files ∧ InDir _ p) ∨ p ∈ ((_ : Finset String) : Set String)
  rw [script, mem_generateUnknowns, mem_writeImages, setupDirectories_files, Finset.mem_coe,
    Finset.mem_image]
  constructor
  · rintro ⟨(hp | hp) | ⟨s', i, hi, rfl⟩, hin⟩
    · exact Or.inl ⟨hp, hin⟩
    · -- the images of the loops are in the labelled directories
      obtain ⟨img, himg, rfl⟩ := List.mem_map.mp hp
      have hnd : ((jobsOf world).map Job.ticker).Nodup := by
        rw [jobsOf_tickers]
        exact nodup_allTickers
      have hplain : ∀ job ∈ jobsOf world, '/' ∉ job.ticker.toList := by
        intro job hjob
        obtain ⟨entry, hentry, rfl⟩ := List.mem_map.mp hjob
        exact plain_of_mem_allTickers hentry
      have hsound := sound_of_reaches hnd (reaches_done cfg (jobsOf world) Store.empty)
      have hin' := (inDir_filepath_iff (hsound.plain hplain img himg)).mp hin
      exact absurd hin'.2 (by simp)
    · rw [inDir_unknownPath_iff] at hin
      subst hin
      exact Or.inr ⟨i, Finset.mem_range.mpr hi, rfl⟩
  · rintro (⟨hp, hin⟩ | ⟨i, hi, rfl⟩)
    · exact ⟨Or.inl (Or.inl hp), hin⟩
    · exact ⟨Or.inr ⟨s, i, Finset.mem_range.mp hi, rfl⟩, inDir_unknownPath_iff.mpr rfl⟩

/-- **The distractors are those of the first run**: on a disk that had none, `train/unknown` and
`val/unknown` hold four and one fifth of three quotas, after one run and after any more. -/
theorem distractors_over_runs (cfg : Config) (world : World) (worlds : List World) (s : Split) :
    ((runs cfg (world :: worlds) Disk.absent).filesIn (dirPath cfg s .unknown)).ncard =
      unknownTarget cfg s := by
  have hruns : ∀ (worlds : List World) (d : Disk),
      d.filesIn (dirPath cfg s .unknown) =
        ((Finset.range (unknownTarget cfg s)).image (unknownPath cfg s) : Finset String) →
      (runs cfg worlds d).filesIn (dirPath cfg s .unknown) =
        ((Finset.range (unknownTarget cfg s)).image (unknownPath cfg s) : Finset String) := by
    intro worlds
    induction worlds with
    | nil => exact fun d hd => hd
    | cons world worlds ih =>
      intro d hd
      apply ih
      rw [filesIn_unknown_script, hd, Set.union_self]
  have hfirst : (script cfg world Disk.absent).filesIn (dirPath cfg s .unknown) =
      ((Finset.range (unknownTarget cfg s)).image (unknownPath cfg s) : Finset String) := by
    have habsent : Disk.absent.filesIn (dirPath cfg s .unknown) = ∅ := by
      ext p
      exact iff_of_false (fun h => absurd h.1 (Finset.notMem_empty p)) id
    rw [filesIn_unknown_script, habsent, Set.empty_union]
  rw [runs, List.foldl_cons, ← runs, hruns worlds _ hfirst, Set.ncard_coe_finset,
    Finset.card_image_of_injective _ fun i j h => (unknownPath_inj h).2, Finset.card_range]

end StockCharts
