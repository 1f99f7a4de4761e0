import Mathlib.Data.List.Infix
import Mathlib.Data.List.Nodup
import Mathlib.Logic.Function.Basic
import StockCharts.Data

/-!
# The scripts that organise a dataset

Three scripts put images into `train` and `val`, and each cuts a shuffled list after 80 %.

`organize_data.py` copies, class by class. One run is a partition of the images
(`organise_partition`). It removes nothing first, so a second run copies over the first, and with
another shuffle it puts a training image into `val`: **no image is in both exactly when all runs
cut the same set** (`noLeak_organiseRuns_iff`).

`fix_structure.py` gathers the names of the training images, then removes every file of all eight
directories, and then moves the images from one of them. Whatever was there, **nothing is left**,
and with two images or more the script does not end either (`fixStructure_loses`).

A directory is what its names hold. It has files only.
-/

set_option autoImplicit false

namespace StockCharts

variable {K : Type}

/-! ## `organize_data.py` -/

/-- A directory: the content of each name that exists. -/
abbrev Folder (K : Type) := String → Option K

abbrev Dataset (K : Type) := Split → Cls → Folder K

def Dataset.empty : Dataset K := fun _ _ _ => none

/-- A directory of `source_dir`, as `os.listdir` lists it. One that does not exist is skipped, as
an empty one. -/
structure Listing (K : Type) where
  files : List (String × K)
  nodup : (files.map Prod.fst).Nodup

def isImage (name : String) : Bool :=
  -- `img.lower().endswith(('.png', '.jpg', '.jpeg'))`.
  [".png", ".jpg", ".jpeg"].any fun ext => decide (ext.toList <:+ name.toLower.toList)

def Listing.images (l : Listing K) : List (String × K) := l.files.filter fun x => isImage x.1

/-- One run's shuffle of each class. -/
structure Shuffles (src : Cls → Listing K) where
  order : Cls → List (String × K)
  perm : ∀ c, (order c).Perm (src c).images

variable {src : Cls → Listing K} {r r' : Shuffles src} {rs : List (Shuffles src)}
  {d : Dataset K} {s : Split} {c : Cls} {name : String} {k : K} {x : String × K}

/-- `train_imgs` and `val_imgs`. -/
def Shuffles.part (r : Shuffles src) (c : Cls) : Split → List (String × K)
  | .train => (r.order c).take (splitIndex (r.order c).length)
  | .val => (r.order c).drop (splitIndex (r.order c).length)

def copyAll (files : List (String × K)) (dst : Folder K) : Folder K :=
  files.foldl (fun dst x => Function.update dst x.1 (some x.2)) dst

/-- `shutil.copy` of the files into the directory of the split and the class. -/
def Dataset.copyInto (d : Dataset K) (s : Split) (c : Cls) (files : List (String × K)) :
    Dataset K :=
  fun s' c' => if s' = s ∧ c' = c then copyAll files (d s' c') else d s' c'

def organise (r : Shuffles src) (d : Dataset K) : Dataset K :=
  classes.foldl (fun d c =>
    (d.copyInto .train c (r.part c .train)).copyInto .val c (r.part c .val)) d

def organiseRuns (rs : List (Shuffles src)) (d : Dataset K) : Dataset K :=
  rs.foldl (fun d r => organise r d) d

/-- A run copies into each directory its part of the images. -/
theorem organise_eq (r : Shuffles src) (d : Dataset K) (s : Split) (c : Cls) :
    organise r d s c = copyAll (r.part c s) (d s c) := by
  cases s with
  | train =>
    rcases c with l | _
    · cases l <;> simp [organise, classes, Dataset.copyInto]
    · simp [organise, classes, Dataset.copyInto]
  | val =>
    rcases c with l | _
    · cases l <;> simp [organise, classes, Dataset.copyInto]
    · simp [organise, classes, Dataset.copyInto]

theorem isSome_copyAll (files : List (String × K)) (dst : Folder K) :
    (copyAll files dst name).isSome ↔ name ∈ files.map Prod.fst ∨ (dst name).isSome := by
  induction files generalizing dst with
  | nil => simp [copyAll]
  | cons x files ih =>
    have hcons : copyAll (x :: files) dst = copyAll files (Function.update dst x.1 (some x.2)) := rfl
    rw [hcons, ih, List.map_cons, List.mem_cons]
    by_cases hx : name = x.1
    · subst hx
      simp
    · rw [Function.update_of_ne hx]
      simp [hx]

theorem copyAll_of_notMem {files : List (String × K)} {dst : Folder K}
    (h : name ∉ files.map Prod.fst) : copyAll files dst name = dst name := by
  induction files generalizing dst with
  | nil => rfl
  | cons x files ih =>
    rw [List.map_cons, List.mem_cons, not_or] at h
    exact (ih h.2).trans (Function.update_of_ne h.1 _ _)

theorem copyAll_of_mem {files : List (String × K)} {dst : Folder K}
    (hnd : (files.map Prod.fst).Nodup) (h : (name, k) ∈ files) :
    copyAll files dst name = some k := by
  induction files generalizing dst with
  | nil => exact absurd h List.not_mem_nil
  | cons x files ih =>
    rw [List.map_cons, List.nodup_cons] at hnd
    rcases List.mem_cons.mp h with rfl | h
    · exact (copyAll_of_notMem hnd.1).trans (Function.update_self _ _ _)
    · exact ih hnd.2 h

/-! ### The parts of a shuffle -/

theorem nodup_order (r : Shuffles src) (c : Cls) : ((r.order c).map Prod.fst).Nodup := by
  have himages : ((src c).images.map Prod.fst).Nodup :=
    (src c).nodup.sublist (List.filter_sublist.map _)
  exact ((r.perm c).map Prod.fst).nodup_iff.mpr himages

theorem nodup_part (r : Shuffles src) (c : Cls) (s : Split) : ((r.part c s).map Prod.fst).Nodup := by
  cases s with
  | train => exact (nodup_order r c).sublist ((List.take_sublist _ _).map _)
  | val => exact (nodup_order r c).sublist ((List.drop_sublist _ _).map _)

theorem mem_images_iff : x ∈ (src c).images ↔ x ∈ r.part c .train ∨ x ∈ r.part c .val := by
  rw [← (r.perm c).mem_iff, ← List.mem_append]
  show x ∈ r.order c ↔ x ∈ (r.order c).take _ ++ (r.order c).drop _
  rw [List.take_append_drop]

/-- A name is in one part only. -/
theorem part_disjoint (h : name ∈ (r.part c .train).map Prod.fst) :
    name ∉ (r.part c .val).map Prod.fst := by
  rw [Shuffles.part, List.map_take] at h
  rw [Shuffles.part, List.map_drop]
  exact List.disjoint_take_drop (nodup_order r c) le_rfl h

/-- What a run leaves in an empty directory is of its part. -/
theorem mem_part_of_organise (h : organise r Dataset.empty s c name = some k) :
    (name, k) ∈ r.part c s := by
  rw [organise_eq] at h
  have hmem : name ∈ (r.part c s).map Prod.fst := by
    by_contra hno
    rw [copyAll_of_notMem hno] at h
    exact absurd h (by simp [Dataset.empty])
  obtain ⟨⟨name', k'⟩, hx, rfl⟩ := List.mem_map.mp hmem
  rw [copyAll_of_mem (nodup_part r c s) hx, Option.some.injEq] at h
  rw [← h]
  exact hx

theorem mem_images_of_mem_part (h : x ∈ r.part c s) : x ∈ (src c).images := by
  cases s with
  | train => exact mem_images_iff.mpr (Or.inl h)
  | val => exact mem_images_iff.mpr (Or.inr h)

/-- **One run is a partition**: from empty directories, an image is in one of the two with its
content and not in the other, and there is nothing else. -/
theorem organise_partition (r : Shuffles src) (c : Cls) (name : String) (k : K) :
    ((name, k) ∈ (src c).images ↔
      (organise r Dataset.empty .train c name = some k ∧ organise r Dataset.empty .val c name = none) ∨
        (organise r Dataset.empty .val c name = some k ∧
          organise r Dataset.empty .train c name = none)) ∧
      ∀ s, organise r Dataset.empty s c name = some k → (name, k) ∈ (src c).images := by
  constructor
  · constructor
    · intro h
      rcases mem_images_iff.mp h with ht | hv
      · left
        have hno := part_disjoint (List.mem_map_of_mem (f := Prod.fst) ht)
        rw [organise_eq, organise_eq, copyAll_of_mem (nodup_part r c .train) ht,
          copyAll_of_notMem hno]
        exact ⟨rfl, rfl⟩
      · right
        have hno : name ∉ (r.part c .train).map Prod.fst := by
          intro hm
          exact part_disjoint hm (List.mem_map_of_mem (f := Prod.fst) hv)
        rw [organise_eq, organise_eq, copyAll_of_mem (nodup_part r c .val) hv,
          copyAll_of_notMem hno]
        exact ⟨rfl, rfl⟩
    · rintro (⟨h, -⟩ | ⟨h, -⟩)
      · exact mem_images_of_mem_part (mem_part_of_organise h)
      · exact mem_images_of_mem_part (mem_part_of_organise h)
  · intro s hs
    exact mem_images_of_mem_part (mem_part_of_organise hs)

/-! ### Run after run -/

theorem isSome_organiseRuns (rs : List (Shuffles src)) (d : Dataset K) :
    (organiseRuns rs d s c name).isSome ↔
      (d s c name).isSome ∨ ∃ r ∈ rs, name ∈ (r.part c s).map Prod.fst := by
  induction rs generalizing d with
  | nil => simp [organiseRuns]
  | cons r rs ih =>
    have hcons : organiseRuns (r :: rs) d = organiseRuns rs (organise r d) := rfl
    rw [hcons, ih, organise_eq, isSome_copyAll]
    simp only [List.mem_cons, exists_eq_or_imp]
    tauto

/-- No image is in `train` and in `val`. -/
def NoLeak (d : Dataset K) : Prop :=
  ∀ c name, (d .train c name).isSome → ¬ (d .val c name).isSome

/-- **Runs over the same images leak none exactly when they all cut the same training images.** -/
theorem noLeak_organiseRuns_iff (rs : List (Shuffles src)) :
    NoLeak (organiseRuns rs Dataset.empty) ↔
      ∀ r ∈ rs, ∀ r' ∈ rs, ∀ c, ∀ x ∈ r.part c .train, x ∈ r'.part c .train := by
  have hin : ∀ s c name, (organiseRuns rs Dataset.empty s c name).isSome ↔
      ∃ r ∈ rs, name ∈ (r.part c s).map Prod.fst := by
    intro s c name
    rw [isSome_organiseRuns]
    simp [Dataset.empty]
  constructor
  · intro hno r hr r' hr' c x hx
    have himage := mem_images_iff.mpr (Or.inl hx)
    rcases mem_images_iff.mp himage with ht | hv
    · exact ht
    · have htrain := (hin .train c x.1).mpr ⟨r, hr, List.mem_map_of_mem hx⟩
      have hval := (hin .val c x.1).mpr ⟨r', hr', List.mem_map_of_mem hv⟩
      exact absurd hval (hno c x.1 htrain)
  · intro hall c name ht hv
    obtain ⟨r, hr, hname⟩ := (hin .train c name).mp ht
    obtain ⟨r', hr', hname'⟩ := (hin .val c name).mp hv
    obtain ⟨x, hx, rfl⟩ := List.mem_map.mp hname
    exact part_disjoint (List.mem_map_of_mem (hall r hr r' hr' c x hx)) hname'

/-! ## `fix_structure.py` -/

/-- The names in each of the directories, as `os.listdir` lists them. -/
abbrev Names := Split → Cls → List String

/-- `all_images`: the images of the training directories, with their class. -/
def gather (d : Names) : List (String × Cls) :=
  classes.flatMap fun c => ((d .train c).filter isImage).map (·, c)

def Names.setAt (d : Names) (s : Split) (c : Cls) (names : List String) : Names :=
  fun s' c' => if s' = s ∧ c' = c then names else d s' c'

/-- `os.remove` of every name listed. -/
def clearDir (d : Names) (s : Split) (c : Cls) : Names :=
  d.setAt s c ((d s c).foldl (fun names f => names.erase f) (d s c))

def clearAll (d : Names) : Names :=
  classes.foldl (fun d c => clearDir (clearDir d .train c) .val c) d

/-- `shutil.move` from `train/unknown` into the training directory of the class. -/
def moveImage (d : Names) (img : String × Cls) : Except PyError Names :=
  if img.1 ∈ d .train .unknown then
    let d := d.setAt .train .unknown ((d .train .unknown).erase img.1)
    .ok (d.setAt .train img.2 (img.1 :: d .train img.2))
  else .error (.other "No such file or directory")

/-- The last loop: what is there when it ends, and the exception that ends it. -/
def moveAll : List (String × Cls) → Names → Names × Option PyError
  | [], d => (d, none)
  | img :: imgs, d =>
    match moveImage d img with
    | .error e => (d, some e)
    | .ok d => moveAll imgs d

/-- `all_images` behind `random.shuffle`. -/
structure GatherOrder (d : Names) where
  order : List (String × Cls)
  perm : order.Perm (gather d)

def fixStructure (d : Names) (σ : GatherOrder d) : Names × Option PyError :=
  moveAll (σ.order.take (splitIndex σ.order.length)) (clearAll d)

theorem clearDir_eq (d : Names) (s : Split) (c : Cls) : clearDir d s c = d.setAt s c [] := by
  have herase : ∀ names : List String, names.foldl (fun names f => names.erase f) names = [] := by
    intro names
    induction names with
    | nil => rfl
    | cons f names ih =>
      rw [List.foldl_cons, List.erase_cons_head]
      exact ih
  rw [clearDir, herase]

theorem clearAll_eq (d : Names) (s : Split) (c : Cls) : clearAll d s c = [] := by
  rcases c with l | _
  · cases s <;> cases l <;> simp [clearAll, classes, clearDir_eq, Names.setAt]
  · cases s <;> simp [clearAll, classes, clearDir_eq, Names.setAt]

/-- **Nothing survives.** Whatever the directories held and however the images are shuffled, all of
them are empty in the end; and the script ends without an exception only where there was one
training image at most. -/
theorem fixStructure_loses (d : Names) (σ : GatherOrder d) :
    (∀ s c, (fixStructure d σ).1 s c = []) ∧
      ((fixStructure d σ).2 = none ↔ (gather d).length ≤ 1) := by
  have hlen : (gather d).length = σ.order.length := σ.perm.length_eq.symm
  have hcut : σ.order.take (splitIndex σ.order.length) = [] ↔ σ.order.length ≤ 1 := by
    rw [List.take_eq_nil_iff, splitIndex, ← List.length_eq_zero_iff]
    omega
  rw [fixStructure, hlen, ← hcut]
  cases himgs : σ.order.take (splitIndex σ.order.length) with
  | nil => exact ⟨clearAll_eq d, by simp [moveAll]⟩
  | cons img imgs =>
    have hmove : moveImage (clearAll d) img = .error (.other "No such file or directory") := by
      rw [moveImage, if_neg]
      rw [clearAll_eq]
      exact List.not_mem_nil
    have hall : moveAll (img :: imgs) (clearAll d) =
        (clearAll d, some (.other "No such file or directory")) := by
      rw [moveAll, hmove]
    rw [hall]
    exact ⟨clearAll_eq d, by simp⟩

end StockCharts
