import Mathlib.Data.List.TakeWhile
import StockCharts.Lib.Cut
import StockCharts.StockOrganiser

/-!
# What `organize_stock_data.py` copies

Each class is shuffled and cut, and copied into `train` and `val`. The images come from the walk of
the whole tree, which passes through `train` and `val` too, so an image can be in the very place it
is copied to. `shutil.copy` raises there, and nothing catches it.

Such an image is only safe on the other side of the cut. **Some shuffle lets the script end exactly
when there is room on the other side** (`organiseStock_can_end_iff`): of the images of a class, no
more may be in their training place than a fifth, and no more in their validation place than four
fifths.
-/

set_option autoImplicit false

namespace StockCharts

def dataDir : String := "python/training/classification/data"

/-- `random.shuffle` of the images of each class. -/
structure StockShuffles (images : List String) where
  order : Cls → List String
  perm : ∀ c, (order c).Perm (categorized images c)

variable {images : List String} {r : StockShuffles images} {d : Disk} {s : Split} {c : Cls}
  {img : String}

/-- `train_subset` and `val_subset`. -/
def StockShuffles.subset (r : StockShuffles images) (c : Cls) : Split → List String
  | .train => (r.order c).take (splitIndex (r.order c).length)
  | .val => (r.order c).drop (splitIndex (r.order c).length)

def destination (s : Split) (c : Cls) (img : String) : String :=
  -- `os.path.join(train_dir, c, os.path.basename(img))`, and the same with `val_dir`.
  pathJoin dataDir [s.name, c.name, basename img]

/-- The path without the `./` that the walk of `.` puts in front. -/
def relative (path : String) : String :=
  if "./".toList <+: path.toList then String.ofList (path.toList.drop 2) else path

def copyFile (src dst : String) (d : Disk) : Except PyError Disk :=
  if relative src = dst then
    .error (.other ("'" ++ src ++ "' and '" ++ dst ++ "' are the same file"))
  else .ok (d.write dst)

/-- The calls to `shutil.copy`, in their order. -/
def copies (r : StockShuffles images) : List (String × String) :=
  classes.flatMap fun c =>
    (r.subset c .train).map (fun img => (img, destination .train c img)) ++
      (r.subset c .val).map fun img => (img, destination .val c img)

/-- What is there when the copying ends, and the exception that ends it. -/
def copyAllFiles : List (String × String) → Disk → Disk × Option PyError
  | [], d => (d, none)
  | job :: jobs, d =>
    match copyFile job.1 job.2 d with
    | .error e => (d, some e)
    | .ok d => copyAllFiles jobs d

def makeClassDirs (d : Disk) : Disk :=
  classes.foldl (fun d c =>
    (d.makedirs (pathJoin dataDir [Split.train.name, c.name])).makedirs
      (pathJoin dataDir [Split.val.name, c.name])) d

def organiseStock (r : StockShuffles images) (d : Disk) : Disk × Option PyError :=
  copyAllFiles (copies r) (makeClassDirs d)

/-- The image is where it would be copied to. -/
def atHome (s : Split) (c : Cls) (img : String) : Bool := decide (relative img = destination s c img)

theorem atHome_iff : atHome s c img = true ↔ relative img = destination s c img :=
  decide_eq_true_iff

theorem not_atHome_iff : atHome s c img = false ↔ relative img ≠ destination s c img :=
  decide_eq_false_iff_not

/-- The copies end where no file is copied onto itself. -/
theorem copyAllFiles_ends_iff (jobs : List (String × String)) (d : Disk) :
    (copyAllFiles jobs d).2 = none ↔ ∀ job ∈ jobs, relative job.1 ≠ job.2 := by
  induction jobs generalizing d with
  | nil => simp [copyAllFiles]
  | cons job jobs ih =>
    rw [copyAllFiles, copyFile, List.forall_mem_cons]
    by_cases h : relative job.1 = job.2
    · simp [h]
    · simp [h, ih]

theorem mem_classes (c : Cls) : c ∈ classes := by
  rcases c with l | _
  · cases l <;> decide
  · decide

theorem mem_copies {job : String × String} :
    job ∈ copies r ↔ ∃ c s img, img ∈ r.subset c s ∧ job = (img, destination s c img) := by
  simp only [copies, List.mem_flatMap, List.mem_append, List.mem_map]
  constructor
  · rintro ⟨c, -, ⟨img, himg, rfl⟩ | ⟨img, himg, rfl⟩⟩
    · exact ⟨c, .train, img, himg, rfl⟩
    · exact ⟨c, .val, img, himg, rfl⟩
  · rintro ⟨c, s, img, himg, rfl⟩
    refine ⟨c, mem_classes c, ?_⟩
    cases s with
    | train => exact Or.inl ⟨img, himg, rfl⟩
    | val => exact Or.inr ⟨img, himg, rfl⟩

theorem organiseStock_ends_iff (r : StockShuffles images) (d : Disk) :
    (organiseStock r d).2 = none ↔ ∀ c s, ∀ img ∈ r.subset c s, atHome s c img = false := by
  rw [organiseStock, copyAllFiles_ends_iff]
  constructor
  · intro h c s img himg
    have hne := h _ (mem_copies.mpr ⟨c, s, img, himg, rfl⟩)
    dsimp only at hne
    exact not_atHome_iff.mpr hne
  · intro h job hjob
    obtain ⟨c, s, img, himg, rfl⟩ := mem_copies.mp hjob
    dsimp only
    exact not_atHome_iff.mp (h c s img himg)

theorem slash_notMem_basename (path : String) : '/' ∉ (basename path).toList := by
  rw [basename, String.toList_ofList, List.mem_reverse]
  intro h
  have hslash : decide ('/' ≠ '/') = true :=
    List.mem_takeWhile_imp (p := fun ch => decide (ch ≠ '/')) h
  exact of_decide_eq_true hslash rfl

/-- An image is at home on one side of the cut only. -/
theorem atHome_val_of_train (h : atHome .train c img = true) : atHome .val c img = false := by
  rw [atHome_iff] at h
  rw [not_atHome_iff]
  intro hval
  have hdest := h.symm.trans hval
  have hname := slash_notMem_basename img
  rw [destination, destination, pathJoin_triple Split.train.isName c.isName hname,
    pathJoin_triple Split.val.isName c.isName hname] at hdest
  have hdir := (inDir_unique hname hname hdest).1
  have hsplit := (pathJoin_pair_inj Split.train.isName Split.val.isName c.isName c.isName hdir).1
  exact absurd hsplit (by decide)

/-- **Some shuffle lets the script end exactly when there is room**: of every class, at most the
validation share is at home in `train`, and at most the training share at home in `val`. -/
theorem organiseStock_can_end_iff (images : List String) (d : Disk) :
    (∃ r : StockShuffles images, (organiseStock r d).2 = none) ↔
      ∀ c, (categorized images c).countP (atHome .train c) ≤
          (categorized images c).length - splitIndex (categorized images c).length ∧
        (categorized images c).countP (atHome .val c) ≤
          splitIndex (categorized images c).length := by
  have hcut : ∀ c, splitIndex (categorized images c).length ≤ (categorized images c).length := by
    intro c
    rw [splitIndex]
    omega
  have hone : ∀ c, ∀ img ∈ categorized images c, atHome .train c img = true →
      atHome .val c img = false := fun c img _ h => atHome_val_of_train h
  constructor
  · rintro ⟨r, hr⟩ c
    rw [organiseStock_ends_iff] at hr
    refine (exists_cut_iff (hone c) (hcut c)).mp ⟨r.order c, r.perm c, ?_, ?_⟩
    · rw [← (r.perm c).length_eq]
      exact hr c .train
    · rw [← (r.perm c).length_eq]
      exact hr c .val
  · intro hroom
    have horder := fun c => (exists_cut_iff (hone c) (hcut c)).mpr (hroom c)
    choose order hperm htrain hval using horder
    refine ⟨⟨order, hperm⟩, (organiseStock_ends_iff _ d).mpr fun c s => ?_⟩
    cases s with
    | train =>
      intro img himg
      rw [StockShuffles.subset, (hperm c).length_eq] at himg
      exact htrain c img himg
    | val =>
      intro img himg
      rw [StockShuffles.subset, (hperm c).length_eq] at himg
      exact hval c img himg

end StockCharts
