import Mathlib.Data.List.Infix
import StockCharts.Disk
import StockCharts.Organise

/-!
# `organize_stock_data.py`

The script looks for images in two walks and files each under the first class whose name is in the
name of the image.

* The first walk is of `python/training/classification`, and skips every directory whose path has
  `train` in it. That is every directory of the walk: `training` has it
  (`firstWalk_empty`). So the images always come from the second walk, of the whole tree.
* A chart is named `TICKER_i.png`, and the class is the directory it is in. No name has a class in
  it, so **no chart of the generator is filed under its label** (`never_filed_under_label`).

A keyword is in a name only if all of its letters are, and one letter is missing each time.
-/

set_option autoImplicit false

namespace StockCharts

/-- `word in s`. -/
def occursIn (word s : String) : Bool := decide (word.toList <:+: s.toList)

/-- What `os.walk(top)` answers with: directories, each below `top`, with their files. -/
structure Walk (top : String) where
  visits : List (String × List String)
  below : ∀ v ∈ visits, top.toList <+: v.1.toList

def gatherImages (skip : List String) (visits : List (String × List String)) : List String :=
  visits.flatMap fun v =>
    if skip.any fun word => occursIn word v.1 then []
    else (v.2.filter isImage).map fun file => pathJoin v.1 [file]

def allImages (inside : Walk "python/training/classification") (everywhere : Walk ".") :
    List String :=
  let found := gatherImages ["train", "val"] inside.visits
  if found.isEmpty then gatherImages ["docs", ".git"] everywhere.visits else found

/-- `os.path.basename`. -/
def basename (path : String) : String :=
  String.ofList (path.toList.reverse.takeWhile fun ch => decide (ch ≠ '/')).reverse

/-- The class an image is filed under. -/
def assign (imgPath : String) : Cls :=
  let filename := (basename imgPath).toLower
  (classes.find? fun c => occursIn c.name filename).getD .unknown

def categorized (images : List String) (c : Cls) : List String :=
  images.filter fun img => decide (assign img = c)

/-! ## The first walk -/

/-- The first walk finds nothing: each of its roots has a directory to skip in its path. -/
theorem firstWalk_empty (w : Walk "python/training/classification") :
    gatherImages ["train", "val"] w.visits = [] := by
  rw [gatherImages, List.flatMap_eq_nil_iff]
  intro v hv
  have htrain : occursIn "train" v.1 = true := by
    apply decide_eq_true
    have htop : "train".toList <:+: "python/training/classification".toList := by decide
    exact htop.trans (w.below v hv).isInfix
  simp [htrain]

/-- The images come from the second walk. -/
theorem allImages_eq (inside : Walk "python/training/classification") (everywhere : Walk ".") :
    allImages inside everywhere = gatherImages ["docs", ".git"] everywhere.visits := by
  rw [allImages, firstWalk_empty]
  rfl

/-! ## The classes of the generated images -/

theorem basename_join {dir name : String} (h : '/' ∉ name.toList) :
    basename (dir ++ "/" ++ name) = name := by
  have hall : ∀ ch ∈ name.toList.reverse, decide (ch ≠ '/') = true := by
    intro ch hch
    rw [decide_eq_true_eq]
    rintro rfl
    exact h (List.mem_reverse.mp hch)
  apply String.toList_inj.mp
  rw [basename, String.toList_ofList, String.toList_append, String.toList_append,
    List.reverse_append, List.reverse_append, List.takeWhile_append_of_pos hall]
  simp

/-- A word that occurs has all of its letters. -/
theorem notOccursIn {word s : String} {ch : Char} (hw : ch ∈ word.toList) (hs : ch ∉ s.toList) :
    occursIn word s = false := by
  apply decide_eq_false
  intro h
  exact hs (h.subset hw)

theorem toLower_toList (s : String) : s.toLower.toList = s.toList.map Char.toLower :=
  String.toList_map

theorem toLower_digit {ch : Char} (h : ch.isDigit = true) : ch.toLower = ch := by
  have hnot : ¬ (ch.val ≥ 'A'.val ∧ ch.val ≤ 'Z'.val) := by
    rintro ⟨hA, -⟩
    simp only [Char.isDigit, Bool.and_eq_true, decide_eq_true_eq] at h
    exact absurd (UInt32.le_trans hA h.2) (by decide)
  exact dif_neg hnot

/-- The letters of a numbered name: those of its stem, digits, and those of the extension. -/
theorem mem_toLower_numbered {ext stem : String} {n : ℕ} {ch : Char}
    (h : ch ∈ (numbered ext stem n).toLower.toList) :
    ch ∈ stem.toLower.toList ∨ ch = '_' ∨ ch.isDigit = true ∨ ch ∈ ext.toLower.toList := by
  rw [toLower_toList, numbered_toList, List.map_append, List.map_cons, List.map_append,
    List.mem_append, List.mem_cons, List.mem_append, ← toLower_toList, ← toLower_toList] at h
  rcases h with h | h | h | h
  · exact Or.inl h
  · exact Or.inr (Or.inl h)
  · obtain ⟨d, hd, rfl⟩ := List.mem_map.mp h
    have hdigit := Nat.isDigit_of_mem_toDigits (by decide) (by decide) hd
    rw [toLower_digit hdigit]
    exact Or.inr (Or.inr (Or.inl hdigit))
  · exact Or.inr (Or.inr (Or.inr h))

/-- A letter of a class that a stem does not have, nor what stands behind it in a file name. -/
def MissesLetter (stem : String) (c : Cls) : Prop :=
  ∃ ch ∈ c.name.toList, ch ∉ stem.toLower.toList ∧ ch ≠ '_' ∧ ch.isDigit = false ∧
    ch ∉ ".png".toLower.toList

instance (stem : String) (c : Cls) : Decidable (MissesLetter stem c) :=
  -- Over the letters of the class, not over all characters.
  List.decidableBEx _ _

theorem not_occursIn_numbered {stem : String} {c : Cls} (h : MissesLetter stem c) (n : ℕ) :
    occursIn c.name (numbered ".png" stem n).toLower = false := by
  obtain ⟨ch, hw, hstem, hsep, hdigit, hext⟩ := h
  apply notOccursIn hw
  intro hmem
  rcases mem_toLower_numbered hmem with h | h | h | h
  · exact hstem h
  · exact hsep h
  · rw [hdigit] at h
    exact absurd h (by decide)
  · exact hext h

/-- An image that has no class in its name is filed under `unknown`. -/
theorem assign_numbered {stem img : String} (h : ∀ c ∈ classes, MissesLetter stem c) {n : ℕ}
    (hname : basename img = numbered ".png" stem n) : assign img = .unknown := by
  have hnone : (classes.find? fun c => occursIn c.name (numbered ".png" stem n).toLower) = none := by
    rw [List.find?_eq_none]
    intro c hc
    rw [not_occursIn_numbered (h c hc) n]
    decide
  rw [assign, hname, hnone]
  rfl

theorem missesLetter_tickers : ∀ t ∈ allTickers.map Prod.fst, ∀ c ∈ classes, MissesLetter t c := by
  decide +kernel

theorem missesLetter_distractor : ∀ c ∈ classes, MissesLetter "distractor" c := by decide +kernel

variable {cfg : Config} {world : World} {d : Disk} {p : String}

/-- The stems of the names the generator writes. -/
def IsGenerated (name : String) : Prop :=
  ∃ stem n, (∀ c ∈ classes, MissesLetter stem c) ∧ name = numbered ".png" stem n

theorem isGenerated_of_mem_script (hp : p ∈ (script cfg world d).files) :
    p ∈ d.files ∨ IsGenerated (basename p) := by
  rw [script, mem_generateUnknowns, mem_writeImages, setupDirectories_files] at hp
  rcases hp with (hp | hp) | ⟨s, i, -, rfl⟩
  · exact Or.inl hp
  · right
    obtain ⟨img, himg, rfl⟩ := List.mem_map.mp hp
    have hnd : ((jobsOf world).map Job.ticker).Nodup := by
      rw [jobsOf_tickers]
      exact nodup_allTickers
    have hsound := sound_of_reaches hnd (reaches_done cfg (jobsOf world) Store.empty)
    obtain ⟨job, hjob, df, indices, i, -, -, -, hi⟩ := hsound.drawn img himg
    have ht : job.ticker ∈ allTickers.map Prod.fst := by
      rw [← jobsOf_tickers world]
      exact List.mem_map_of_mem hjob
    have hplain : '/' ∉ img.filename.toList := by
      rw [hi]
      exact slash_notMem_filename (slash_notMem_allTickers _ ht) i
    refine ⟨job.ticker, i, missesLetter_tickers _ ht, ?_⟩
    rw [filepath_eq hplain, basename_join hplain, hi]
    rfl
  · right
    have hname : '/' ∉ (numbered ".png" "distractor" i).toList :=
      slash_notMem_numbered (by decide) (by decide)
    refine ⟨"distractor", i, missesLetter_distractor, ?_⟩
    rw [unknownPath, pathJoin_triple s.isName (Cls.isName .unknown) hname, basename_join hname]

/-- Whatever the runs were, a new file has a generated name. -/
theorem isGenerated_of_mem_runs (cfg : Config) (worlds : List World)
    (hp : p ∈ (runs cfg worlds d).files) : p ∈ d.files ∨ IsGenerated (basename p) := by
  induction worlds generalizing d with
  | nil => exact Or.inl hp
  | cons world worlds ih =>
    rcases ih hp with hp | hp
    · exact isGenerated_of_mem_script hp
    · exact Or.inr hp

/-- Whatever the images, wherever they are: none that has the name of a file of the generator is
put into `buy`, `hold` or `sell`. -/
theorem generated_not_categorized (cfg : Config) (worlds : List World) (images : List String)
    (l : Label) :
    (categorized images (.label l)).filter (fun img =>
      decide (basename img ∈ (runs cfg worlds Disk.absent).files.image basename)) = [] := by
  rw [List.filter_eq_nil_iff]
  intro img himg hname
  rw [decide_eq_true_eq, Finset.mem_image] at hname
  obtain ⟨p, hp, hbase⟩ := hname
  have hassign : assign img = .label l := by
    simpa [categorized] using (List.mem_filter.mp himg).2
  rcases isGenerated_of_mem_runs cfg worlds hp with hp | ⟨stem, n, hstem, hn⟩
  · exact absurd hp (Finset.notMem_empty p)
  · rw [assign_numbered hstem (hbase.symm.trans hn)] at hassign
    exact absurd hassign (by simp)

/-- **A generated chart is never filed under its label.** The images of a run come from the walk of
the whole tree, and the labels get none that the generator has named, after any of its runs. -/
theorem never_filed_under_label (cfg : Config) (worlds : List World)
    (inside : Walk "python/training/classification") (everywhere : Walk ".") :
    allImages inside everywhere = gatherImages ["docs", ".git"] everywhere.visits ∧
      ∀ l, (categorized (allImages inside everywhere) (.label l)).filter (fun img =>
        decide (basename img ∈ (runs cfg worlds Disk.absent).files.image basename)) = [] :=
  ⟨allImages_eq inside everywhere, generated_not_categorized cfg worlds _⟩

end StockCharts
