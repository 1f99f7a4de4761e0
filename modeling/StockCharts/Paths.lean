import Mathlib.Data.Set.Card
import StockCharts.Fetch

/-!
# Files and directories

An image is a split, a label and a file name; what is on disk is a path. The two views agree **as
long as the file name has no `/` in it**: then the path is that of the directory `split/label`, a
`/` and the name, so distinct images have distinct paths and each is in the one directory its
split and label say. A ticker is a free string, and the script puts it into the name as it is. One
that starts with `/` makes `os.path.join` drop the directory altogether.
-/

set_option autoImplicit false

namespace StockCharts

theorem Split.isName (s : Split) : IsName s.name := by
  cases s with
  | train => exact ⟨by decide, by decide⟩
  | val => exact ⟨by decide, by decide⟩

theorem Cls.isName (c : Cls) : IsName c.name := by
  cases c with
  | unknown => exact ⟨by decide, by decide⟩
  | label l =>
    cases l with
    | buy => exact ⟨by decide, by decide⟩
    | hold => exact ⟨by decide, by decide⟩
    | sell => exact ⟨by decide, by decide⟩

theorem Split.name_inj {s s' : Split} (h : s.name = s'.name) : s = s' := by
  cases s <;> cases s' <;> first | rfl | exact absurd h (by decide)

theorem Cls.name_inj {c c' : Cls} (h : c.name = c'.name) : c = c' := by
  rcases c with l | _ <;> rcases c' with l' | _
  · cases l <;> cases l' <;> first | rfl | exact absurd h (by decide)
  · cases l <;> exact absurd h (by decide)
  · cases l' <;> exact absurd h (by decide)
  · rfl

variable {cfg : Config} {s s' : Split} {c c' : Cls} {img img' : Image}

theorem dirPath_inj (h : dirPath cfg s c = dirPath cfg s' c') : s = s' ∧ c = c' := by
  obtain ⟨hs, hc⟩ := pathJoin_pair_inj s.isName s'.isName c.isName c'.isName h
  exact ⟨Split.name_inj hs, Cls.name_inj hc⟩

theorem filepath_eq (h : '/' ∉ img.filename.toList) :
    img.filepath cfg = dirPath cfg img.split (.label img.label) ++ "/" ++ img.filename :=
  pathJoin_triple img.split.isName (Cls.isName (.label img.label)) h

theorem inDir_filepath_iff (h : '/' ∉ img.filename.toList) :
    InDir (dirPath cfg s c) (img.filepath cfg) ↔ img.split = s ∧ .label img.label = c := by
  rw [filepath_eq h]
  constructor
  · intro hin
    obtain ⟨name, hname, heq⟩ := hin
    exact dirPath_inj (inDir_unique h hname heq).1
  · intro hkey
    obtain ⟨rfl, rfl⟩ := hkey
    exact ⟨img.filename, h, rfl⟩

theorem filepath_inj (h : '/' ∉ img.filename.toList) (h' : '/' ∉ img'.filename.toList)
    (heq : img.filepath cfg = img'.filepath cfg) : img = img' := by
  rw [filepath_eq h, filepath_eq h'] at heq
  obtain ⟨hdir, hname⟩ := inDir_unique h h' heq
  obtain ⟨hs, hl⟩ := dirPath_inj hdir
  rw [Cls.label.injEq] at hl
  cases img
  cases img'
  simp only [Image.mk.injEq]
  exact ⟨hs, hl, hname⟩

theorem slash_notMem_filename {ticker : String} (h : '/' ∉ ticker.toList) (i : ℕ) :
    '/' ∉ (filename ticker i).toList := slash_notMem_numbered (by decide) h

def windowPath (cfg : Config) (s : Split) (l : Label) (ticker : String) (i : ℕ) : String :=
  Image.filepath cfg ⟨s, l, filename ticker i⟩

section Windows

variable {l : Label} {ticker : String} {i j : ℕ} (ht : '/' ∉ ticker.toList)
include ht

theorem slash_notMem_windowName (s : Split) (l : Label) (i : ℕ) :
    '/' ∉ (Image.mk s l (filename ticker i)).filename.toList := slash_notMem_filename ht i

theorem inDir_windowPath (s : Split) (l : Label) (i : ℕ) :
    InDir (dirPath cfg s (.label l)) (windowPath cfg s l ticker i) :=
  (inDir_filepath_iff (slash_notMem_windowName ht s l i)).mpr ⟨rfl, rfl⟩

/-- The path of a window determines the image, among images with plain names. -/
theorem eq_of_filepath_eq_windowPath (h : '/' ∉ img.filename.toList)
    (heq : img.filepath cfg = windowPath cfg s l ticker i) : img = ⟨s, l, filename ticker i⟩ := by
  unfold windowPath at heq
  exact filepath_inj h (slash_notMem_windowName ht s l i) heq

theorem windowPath_inj (h : windowPath cfg s l ticker i = windowPath cfg s l ticker j) : i = j := by
  have himg := eq_of_filepath_eq_windowPath ht (slash_notMem_windowName ht s l i) h
  exact (filename_inj (congrArg Image.filename himg)).2

end Windows

/-! ## The files under a directory -/

/-- The files the run has written under `split/cls`, as paths. -/
def filesIn (cfg : Config) (s : Split) (c : Cls) (files : List Image) : Set String :=
  {p | p ∈ files.map (Image.filepath cfg) ∧ InDir (dirPath cfg s c) p}

/-- Where no file name has a `/`, the number of files of a directory is the number of distinct
images of its split and label. -/
theorem ncard_filesIn {files : List Image} {l : Label} (hnd : files.Nodup)
    (hplain : ∀ img ∈ files, '/' ∉ img.filename.toList) :
    (filesIn cfg s (.label l) files).ncard =
      files.countP fun img => decide (img.split = s ∧ img.label = l) := by
  have heq : filesIn cfg s (.label l) files =
      ((files.filter fun img => decide (img.split = s ∧ img.label = l)).map
        (Image.filepath cfg)).toFinset := by
    ext p
    show (p ∈ _ ∧ InDir _ p) ↔ p ∈ ((_ : Finset String) : Set String)
    simp only [List.mem_map, List.coe_toFinset, Set.mem_ofPred_eq, List.mem_filter,
      decide_eq_true_eq]
    constructor
    · rintro ⟨⟨img, himg, rfl⟩, hin⟩
      rw [inDir_filepath_iff (hplain img himg), Cls.label.injEq] at hin
      exact ⟨img, ⟨himg, hin⟩, rfl⟩
    · rintro ⟨img, ⟨himg, hin⟩, rfl⟩
      refine ⟨⟨img, himg, rfl⟩, ?_⟩
      rw [inDir_filepath_iff (hplain img himg), Cls.label.injEq]
      exact hin
  rw [heq, Set.ncard_coe_finset, List.toFinset_card_of_nodup, List.length_map,
    List.countP_eq_length_filter]
  refine List.Nodup.map_on ?_ (hnd.filter _)
  intro img himg img' himg' hpath
  exact filepath_inj (hplain img (List.mem_of_mem_filter himg))
    (hplain img' (List.mem_of_mem_filter himg')) hpath

end StockCharts
