import StockCharts.Invariant

/-!
# The script on a disk

One run of the script is `setup_directories`, the ticker loop and `generate_unknowns`, and it
starts from whatever the run before it left. A `Disk` is the directories and the files that exist;
writing a file that exists replaces it. `os.makedirs` with `exist_ok` adds directories and takes
nothing away, so **nothing a run does removes a file** (`files_subset_script`), and what a labelled
directory holds after a run is what it held before together with what the ticker loop wrote there
(`filesIn_script`). The distractors have fixed names in a directory of their own.
-/

set_option autoImplicit false

namespace StockCharts

/-- The directories and the files that exist, as paths. -/
structure Disk where
  dirs : Finset String
  files : Finset String

namespace Disk

def absent : Disk := ⟨∅, ∅⟩

def makedirs (d : Disk) (path : String) : Disk := { d with dirs := insert path d.dirs }

def write (d : Disk) (path : String) : Disk := { d with files := insert path d.files }

def filesIn (d : Disk) (dir : String) : Set String := {p | p ∈ d.files ∧ InDir dir p}

theorem finite_filesIn (d : Disk) (dir : String) : (d.filesIn dir).Finite := by
  apply d.files.finite_toSet.subset
  intro p hp
  exact hp.1

end Disk

def splits : List Split :=
  -- `for split in ['train', 'val']`, and the order of the splits in `generate_unknowns`.
  [.train, .val]

def setupDirectories (cfg : Config) (d : Disk) : Disk :=
  splits.foldl (fun d split =>
    classes.foldl (fun d cls => d.makedirs (dirPath cfg split cls)) d) d

abbrev World := String → Answers

def jobOf (world : World) (entry : String × Split) : Job :=
  { world entry.1 with ticker := entry.1, split := entry.2 }

def jobsOf (world : World) : List Job := allTickers.map (jobOf world)

def writeImages (cfg : Config) (world : World) (d : Disk) : Disk :=
  -- The ticker loop writes its images in the order it keeps them.
  (fetchAndGenerateCandlesticks cfg (jobsOf world)).kept.foldl
    (fun d img => d.write (img.filepath cfg)) d

def unknownTarget (cfg : Config) : Split → ℕ
  -- `int(total_structured * ratio)`: a ratio of 0.8 for `train`, of 0.2 for `val`.
  | .train => cfg.targetImagesPerClass * 3 * 4 / 5
  | .val => cfg.targetImagesPerClass * 3 / 5

def unknownPath (cfg : Config) (split : Split) (i : ℕ) : String :=
  -- `os.path.join(OUTPUT_DIR, split, 'unknown', f"distractor_{i}.png")`.
  pathJoin cfg.outputDir [split.name, Cls.unknown.name, numbered ".png" "distractor" i]

def generateUnknowns (cfg : Config) (d : Disk) : Disk :=
  splits.foldl (fun d split =>
    (List.range (unknownTarget cfg split)).foldl (fun d i => d.write (unknownPath cfg split i)) d) d

def script (cfg : Config) (world : World) (d : Disk) : Disk :=
  generateUnknowns cfg (writeImages cfg world (setupDirectories cfg d))

def runs (cfg : Config) (worlds : List World) (d : Disk) : Disk :=
  worlds.foldl (fun d world => script cfg world d) d

variable {cfg : Config} {world : World} {d : Disk} {s : Split} {l : Label} {p : String}

/-! ## What a run leaves alone and what it adds -/

/-- A run of writes adds their files and takes none away. -/
theorem mem_foldl_write {α : Type} (f : α → String) (xs : List α) (d : Disk) :
    p ∈ (xs.foldl (fun d x => d.write (f x)) d).files ↔ p ∈ d.files ∨ ∃ x ∈ xs, p = f x := by
  induction xs generalizing d with
  | nil => simp
  | cons x xs ih =>
    rw [List.foldl_cons, ih]
    simp only [Disk.write, Finset.mem_insert, List.mem_cons, exists_eq_or_imp]
    tauto

theorem setupDirectories_files (cfg : Config) (d : Disk) : (setupDirectories cfg d).files = d.files :=
  rfl

/-- Behind the loops: the old files, and the images kept. -/
theorem mem_writeImages : p ∈ (writeImages cfg world d).files ↔
    p ∈ d.files ∨ p ∈ writtenPaths cfg (fetchAndGenerateCandlesticks cfg (jobsOf world)) := by
  rw [writeImages, mem_foldl_write, writtenPaths, List.mem_map]
  simp only [eq_comm]

theorem mem_generateUnknowns : p ∈ (generateUnknowns cfg d).files ↔
    p ∈ d.files ∨ ∃ s, ∃ i < unknownTarget cfg s, p = unknownPath cfg s i := by
  have hex : (∃ s, ∃ i < unknownTarget cfg s, p = unknownPath cfg s i) ↔
      (∃ i < unknownTarget cfg .train, p = unknownPath cfg .train i) ∨
        ∃ i < unknownTarget cfg .val, p = unknownPath cfg .val i := by
    constructor
    · intro hex
      obtain ⟨s, h⟩ := hex
      cases s with
      | train => exact Or.inl h
      | val => exact Or.inr h
    · intro hex
      rcases hex with h | h
      · exact ⟨_, h⟩
      · exact ⟨_, h⟩
  rw [hex, generateUnknowns, splits, List.foldl_cons, List.foldl_cons, List.foldl_nil,
    mem_foldl_write, mem_foldl_write]
  simp only [List.mem_range, or_assoc]

theorem not_inDir_unknownPath (i : ℕ) (s' : Split) :
    ¬ InDir (dirPath cfg s (.label l)) (unknownPath cfg s' i) := by
  have hname : '/' ∉ (numbered ".png" "distractor" i).toList :=
    slash_notMem_numbered (by decide) (by decide)
  intro hin
  obtain ⟨name, hn, heq⟩ := hin
  rw [unknownPath, pathJoin_triple s'.isName (Cls.isName .unknown) hname] at heq
  exact absurd (dirPath_inj (inDir_unique hname hn heq).1).2 (by simp)

/-- **What a labelled directory holds after a run**: what it held, and what the ticker loop wrote
there. -/
theorem filesIn_script (cfg : Config) (world : World) (d : Disk) (s : Split) (l : Label) :
    (script cfg world d).filesIn (dirPath cfg s (.label l)) =
      d.filesIn (dirPath cfg s (.label l)) ∪
        filesIn cfg s (.label l) (fetchAndGenerateCandlesticks cfg (jobsOf world)).kept := by
  ext p
  show (p ∈ (script cfg world d).files ∧ _) ↔
    (p ∈ d.files ∧ _) ∨ (p ∈ writtenPaths cfg _ ∧ InDir _ p)
  rw [script, mem_generateUnknowns, mem_writeImages, setupDirectories_files]
  constructor
  · rintro ⟨(hp | hp) | ⟨s', i, -, rfl⟩, hin⟩
    · exact Or.inl ⟨hp, hin⟩
    · exact Or.inr ⟨hp, hin⟩
    · exact absurd hin (not_inDir_unknownPath i s')
  · rintro (⟨hp, hin⟩ | ⟨hp, hin⟩)
    · exact ⟨Or.inl (Or.inl hp), hin⟩
    · exact ⟨Or.inl (Or.inr hp), hin⟩

/-- **A run removes nothing.** -/
theorem files_subset_script (cfg : Config) (world : World) (d : Disk) :
    d.files ⊆ (script cfg world d).files := by
  intro p hp
  rw [script, mem_generateUnknowns, mem_writeImages]
  exact Or.inl (Or.inl hp)

/-- No run removes a file. -/
theorem files_subset_runs (cfg : Config) (worlds : List World) (d : Disk) :
    d.files ⊆ (runs cfg worlds d).files := by
  induction worlds generalizing d with
  | nil => exact Finset.Subset.refl _
  | cons world worlds ih => exact (files_subset_script cfg world d).trans (ih _)

theorem runs_append (cfg : Config) (ws ws' : List World) (d : Disk) :
    runs cfg (ws ++ ws') d = runs cfg ws' (runs cfg ws d) := List.foldl_append

/-! ## The tickers of the script -/

theorem jobsOf_tickers (world : World) : (jobsOf world).map Job.ticker = allTickers.map Prod.fst := by
  rw [jobsOf, List.map_map]
  rfl

theorem nodup_allTickers : (allTickers.map Prod.fst).Nodup := by decide

theorem slash_notMem_allTickers : ∀ t ∈ allTickers.map Prod.fst, '/' ∉ t.toList := by decide

/-- The tickers of the script are distinct, so its own run has the invariant. -/
theorem runInvariant_script (cfg : Config) (world : World) :
    RunInvariant cfg (jobsOf world) (fetchAndGenerateCandlesticks cfg (jobsOf world)) := by
  have hd : ((jobsOf world).map Job.ticker).Nodup := by
    rw [jobsOf_tickers]
    exact nodup_allTickers
  have hplain : ∀ job ∈ jobsOf world, '/' ∉ job.ticker.toList := by
    intro job hjob
    apply slash_notMem_allTickers _
    rw [← jobsOf_tickers world]
    exact List.mem_map_of_mem hjob
  exact (sound_of_reaches hd (reaches_done cfg (jobsOf world) Store.empty)).runInvariant hplain hd

end StockCharts
