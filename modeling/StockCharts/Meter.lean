import Mathlib.Algebra.BigOperators.Ring.List
import StockCharts.Lib.Rounding

/-!
# `train.py`: what `validate` measures

`validate` sees the validation set one batch at a time. Each batch has a mean loss and a mean
accuracy, and an `AverageMeter` averages those, weighted by the size of the batch. The last batch
may be a short one, so without the weights the average would depend on where the set is cut.

With them **it depends on the cut by rounding only** (`validate_loader`): at every batch size, what
comes out is the mean over the set up to a factor that the number of operations bounds, and in exact
arithmetic it is the mean. On an empty set the meter was never updated, and reports the zero it was
reset to.

The network is an `Evaluator`: what it predicts for an image, and what the criterion answers for a
batch, in evaluation mode, where an image's output does not depend on the others of its batch. The
mean of a tensor is taken in single precision and everything after it in Python's floats; both are
a parameter (`Floats`), of which `Floats.ieee` is what the machine does and `Floats.exact` what the
formulas say.
-/

set_option autoImplicit false

namespace StockCharts

variable {α W X : Type}

/-! ## Numbers -/

/-- The mean as the formula has it; what a tensor answers is `Floats.mean`. -/
def mean (xs : List ℚ) : ℚ := xs.sum / xs.length

structure Floats where
  /-- `.float().mean().cpu().item()`. -/
  mean : List ℚ → ℚ
  /-- What an operation on Python's floats makes of its exact result. -/
  double : ℚ → ℚ

def Floats.exact : Floats := ⟨StockCharts.mean, id⟩

/-- Both precisions round to nearest. The sum of a batch of zeros and ones is exact. -/
def Floats.ieee : Floats := ⟨fun xs => roundTo 24 (StockCharts.mean xs), roundTo 53⟩

/-- `u` and `v` bound the relative errors of the two precisions. -/
structure Floats.Within (u v : ℚ) (fl : Floats) : Prop where
  nonneg : 0 ≤ u
  lt_one : u < 1
  mean : ∀ xs, (∀ x ∈ xs, 0 ≤ x) → |fl.mean xs - StockCharts.mean xs| ≤ u * StockCharts.mean xs
  double : Rounds v fl.double

/-! ## `AverageMeter` -/

structure AverageMeter where
  val : ℚ
  avg : ℚ
  sum : ℚ
  count : ℕ

namespace AverageMeter

def reset : AverageMeter := ⟨0, 0, 0, 0⟩

def update (fl : Floats) (m : AverageMeter) (val : ℚ) (n : ℕ) : AverageMeter :=
  let sum := fl.double (m.sum + fl.double (val * n))
  let count := m.count + n
  ⟨val, fl.double (sum / count), sum, count⟩

end AverageMeter

/-! ## The loader -/

/-- `DataLoader(dataset, batch_size=b, shuffle=False)`: the samples in their order, `b` at a time,
the last batch with what is left. -/
def loader (b : ℕ) : List α → List (List α)
  | [] => []
  | x :: xs => (x :: xs.take (b - 1)) :: loader b (xs.drop (b - 1))
termination_by xs => xs.length
decreasing_by simp only [List.length_drop, List.length_cons]; omega

theorem flatten_loader (b : ℕ) (xs : List α) : (loader b xs).flatten = xs := by
  induction xs using loader.induct b with
  | case1 => rw [loader, List.flatten_nil]
  | case2 x xs ih =>
    rw [loader, List.flatten_cons, ih, List.cons_append, List.take_append_drop]

/-- No batch is empty, so there are no more batches than samples. -/
theorem length_loader_le (b : ℕ) (xs : List α) : (loader b xs).length ≤ xs.length := by
  induction xs using loader.induct b with
  | case1 => simp [loader]
  | case2 x xs ih =>
    rw [loader, List.length_cons, List.length_cons]
    rw [List.length_drop] at ih
    omega

/-! ## `validate` -/

structure Evaluator (W X : Type) where
  predict : W → X → ℕ
  /-- `criterion(output, target).item()`. -/
  criterion : W → List (X × ℕ) → ℚ

abbrev Sample (X : Type) := X × ℕ

/-- The `loss` and `accuracy` of a `train` or a `validate`. -/
@[ext] structure Stats where
  loss : ℚ
  accuracy : ℚ

def isHit (ev : Evaluator W X) (model : W) (s : Sample X) : ℚ :=
  -- `(preds == target).float()`.
  if ev.predict model s.1 = s.2 then 1 else 0

def accuracy (fl : Floats) (ev : Evaluator W X) (model : W) (batch : List (Sample X)) : ℚ :=
  fl.double (fl.mean (batch.map (isHit ev model)) * 100)

def validate (fl : Floats) (ev : Evaluator W X) (batches : List (List (Sample X))) (model : W) :
    Stats :=
  let meters := batches.foldl
    (fun (m : AverageMeter × AverageMeter) batch =>
      (m.1.update fl (ev.criterion model batch) batch.length,
        m.2.update fl (accuracy fl ev model batch) batch.length))
    (AverageMeter.reset, AverageMeter.reset)
  ⟨meters.1.avg, meters.2.avg⟩

variable {fl : Floats} {u v : ℚ} {ev : Evaluator W X} {model : W} {data : List (Sample X)}
  {f : α → ℚ}

/-! ### Means -/

/-- The mean of a batch, times its size, is its sum. -/
theorem mean_mul_length (xs : List ℚ) : mean xs * xs.length = xs.sum := by
  cases xs with
  | nil => simp [mean]
  | cons x xs =>
    have hlen : ((x :: xs).length : ℚ) ≠ 0 := by
      rw [List.length_cons]
      positivity
    rw [mean, div_mul_cancel₀ _ hlen]

theorem mean_nonneg {xs : List ℚ} (h : ∀ x ∈ xs, 0 ≤ x) : 0 ≤ mean xs :=
  div_nonneg (List.sum_nonneg h) (Nat.cast_nonneg _)

theorem mean_map_mul (xs : List α) (f : α → ℚ) (c : ℚ) :
    mean (xs.map fun x => f x * c) = mean (xs.map f) * c := by
  rw [mean, mean, List.length_map, List.length_map, List.sum_map_mul_right, div_mul_eq_mul_div]

theorem within_exact (hu0 : 0 ≤ u) (hu : u < 1) (hv0 : 0 ≤ v) (hv : v < 1) :
    Floats.exact.Within u v where
  nonneg := hu0
  lt_one := hu
  mean xs hxs := by
    rw [Floats.exact, sub_self, abs_zero]
    exact mul_nonneg hu0 (mean_nonneg hxs)
  double := rounds_id hv0 hv

theorem within_ieee (hu : 1 / 2 ^ 24 ≤ u) (hu1 : u < 1) (hv : 1 / 2 ^ 53 ≤ v) (hv1 : v < 1) :
    Floats.ieee.Within u v where
  nonneg := le_trans (by positivity) hu
  lt_one := hu1
  mean xs hxs := by
    have herror := ((rounds_roundTo (p := 24) (by decide)).mono hu hu1).error (mean xs)
    rwa [abs_of_nonneg (mean_nonneg hxs)] at herror
  double := (rounds_roundTo (p := 53) (by decide)).mono hv hv1

/-! ### What a meter holds -/

/-- A meter that was given, in `j` batches, what stands for the means of `f` over them: its sum and
its average stand for those over all the data, by as many operations as there were. -/
structure Measured (u v : ℚ) (f : α → ℚ) (data : List α) (j : ℕ) (m : AverageMeter) : Prop where
  sum : Near u v (j + 2) (data.map f).sum m.sum
  count_eq : m.count = data.length
  avg : Near u v (j + 3) (mean (data.map f)) m.avg

theorem measured_reset (u v : ℚ) (f : α → ℚ) : Measured u v f [] 0 AverageMeter.reset where
  sum := Between.zero _ _
  count_eq := rfl
  avg := by
    have hnil : mean ([] : List ℚ) = 0 := by simp [mean]
    rw [List.map_nil, hnil]
    exact Between.zero _ _

/-- **One update.** The value of the batch has been rounded twice, once by the tensor and once by
Python. Its product with the size, the sum and the quotient are one rounding each. -/
theorem Measured.update {data : List α} {m : AverageMeter} {j : ℕ} (h : Measured u v f data j m)
    (hfl : fl.Within u v) (hf : ∀ x, 0 ≤ f x) (batch : List α) {val : ℚ}
    (hval : Near u v 1 (mean (batch.map f)) val) :
    Measured u v f (data ++ batch) (j + 1) (m.update fl val batch.length) := by
  have hnonneg : ∀ xs : List α, 0 ≤ (xs.map f).sum := fun xs =>
    List.sum_nonneg (List.forall_mem_map.mpr fun x _ => hf x)
  have hterm : Near u v 2 (batch.map f).sum (fl.double (val * batch.length)) := by
    have hproduct := hval.mul_right (Nat.cast_nonneg (α := ℚ) batch.length)
    have hmean := mean_mul_length (batch.map f)
    rw [List.length_map] at hmean
    rw [hmean] at hproduct
    exact hproduct.round hfl.double hfl.lt_one (hnonneg batch)
  have hsum : Near u v (j + 1 + 2) ((data ++ batch).map f).sum
      (fl.double (m.sum + fl.double (val * batch.length))) := by
    rw [List.map_append, List.sum_append]
    have hlate : Near u v (j + 2) (batch.map f).sum (fl.double (val * batch.length)) :=
      hterm.mono (by omega) hfl.nonneg hfl.lt_one hfl.double.nonneg hfl.double.lt_one
        (hnonneg batch)
    exact (h.sum.add hlate).round hfl.double hfl.lt_one
      (add_nonneg (hnonneg data) (hnonneg batch))
  have hcount : m.count + batch.length = (data ++ batch).length := by
    rw [h.count_eq, List.length_append]
  refine ⟨hsum, hcount, ?_⟩
  show Near u v (j + 1 + 3) (mean ((data ++ batch).map f))
    (fl.double (_ / (m.count + batch.length : ℕ)))
  rw [hcount, mean, List.length_map]
  exact (hsum.div_right (Nat.cast_nonneg _)).round hfl.double hfl.lt_one
    (div_nonneg (hnonneg _) (Nat.cast_nonneg _))

/-- A run of updates, batch after batch. -/
theorem measured_foldl {data : List α} {m : AverageMeter} {j : ℕ} (h : Measured u v f data j m)
    (hfl : fl.Within u v) (hf : ∀ x, 0 ≤ f x) (val : List α → ℚ)
    (batches : List (List α))
    (hval : ∀ batch ∈ batches, Near u v 1 (mean (batch.map f)) (val batch)) :
    Measured u v f (data ++ batches.flatten) (j + batches.length)
      (batches.foldl (fun m batch => m.update fl (val batch) batch.length) m) := by
  induction batches generalizing data m j with
  | nil => simpa using h
  | cons batch batches ih =>
    have hone := h.update hfl hf batch (hval batch List.mem_cons_self)
    have hrest := ih hone fun b hb => hval b (List.mem_cons_of_mem _ hb)
    rw [List.foldl_cons, List.flatten_cons, ← List.append_assoc, List.length_cons,
      show j + (batches.length + 1) = j + 1 + batches.length by omega]
    exact hrest

/-- The two meters do not see each other. -/
theorem foldl_meters (f g : AverageMeter → List α → AverageMeter) (batches : List (List α))
    (m : AverageMeter × AverageMeter) :
    batches.foldl (fun (m : AverageMeter × AverageMeter) batch => (f m.1 batch, g m.2 batch)) m =
      (batches.foldl f m.1, batches.foldl g m.2) := by
  induction batches generalizing m with
  | nil => rfl
  | cons batch batches ih => rw [List.foldl_cons, ih, List.foldl_cons, List.foldl_cons]

theorem validate_loss (fl : Floats) (ev : Evaluator W X) (batches : List (List (Sample X)))
    (model : W) :
    (validate fl ev batches model).loss =
      (batches.foldl (fun m batch => m.update fl (ev.criterion model batch) batch.length)
        AverageMeter.reset).avg := by
  rw [validate, foldl_meters (fun m batch => m.update fl (ev.criterion model batch) batch.length)
    fun m batch => m.update fl (accuracy fl ev model batch) batch.length]

theorem validate_accuracy (fl : Floats) (ev : Evaluator W X) (batches : List (List (Sample X)))
    (model : W) :
    (validate fl ev batches model).accuracy =
      (batches.foldl (fun m batch => m.update fl (accuracy fl ev model batch) batch.length)
        AverageMeter.reset).avg := by
  rw [validate, foldl_meters (fun m batch => m.update fl (ev.criterion model batch) batch.length)
    fun m batch => m.update fl (accuracy fl ev model batch) batch.length]

/-! ### Hits -/

/-- The samples that the model gets right. -/
def hits (ev : Evaluator W X) (model : W) (data : List (Sample X)) : ℕ :=
  data.countP fun s => decide (ev.predict model s.1 = s.2)

theorem isHit_nonneg (ev : Evaluator W X) (model : W) (s : Sample X) : 0 ≤ isHit ev model s := by
  rw [isHit]
  split <;> norm_num

theorem sum_isHit (ev : Evaluator W X) (model : W) (data : List (Sample X)) :
    (data.map (isHit ev model)).sum = hits ev model data := by
  induction data with
  | nil => rfl
  | cons s data ih =>
    rw [List.map_cons, List.sum_cons, ih, isHit]
    by_cases hs : ev.predict model s.1 = s.2
    · simp [hits, hs, add_comm]
    · simp [hits, hs]

/-- The share of the samples that the model gets right, in percent. -/
def percentage (ev : Evaluator W X) (model : W) (data : List (Sample X)) : ℚ :=
  (hits ev model data : ℚ) / data.length * 100

theorem mean_isHit (ev : Evaluator W X) (model : W) (data : List (Sample X)) :
    mean (data.map fun s => isHit ev model s * 100) = percentage ev model data := by
  rw [mean_map_mul, mean, sum_isHit, List.length_map, percentage]

theorem percentage_nonneg (ev : Evaluator W X) (model : W) (data : List (Sample X)) :
    0 ≤ percentage ev model data := by
  unfold percentage
  positivity

theorem near_accuracy (hfl : fl.Within u v) (ev : Evaluator W X) (model : W)
    (batch : List (Sample X)) :
    Near u v 1 (mean (batch.map fun s => isHit ev model s * 100)) (accuracy fl ev model batch) := by
  have hnonneg : ∀ x ∈ batch.map (isHit ev model), 0 ≤ x :=
    List.forall_mem_map.mpr fun s _ => isHit_nonneg ev model s
  have hmean : Near u v 0 (mean (batch.map (isHit ev model)))
      (fl.mean (batch.map (isHit ev model))) := Near.of_error (hfl.mean _ hnonneg)
  rw [mean_map_mul]
  exact (hmean.mul_right (by norm_num)).round hfl.double hfl.lt_one
    (mul_nonneg (mean_nonneg hnonneg) (by norm_num))

/-- The accuracy stands for the percentage, at every batch size. -/
theorem near_validate_accuracy (hfl : fl.Within u v) (ev : Evaluator W X) (b : ℕ)
    (data : List (Sample X)) (model : W) :
    Near u v ((loader b data).length + 3) (percentage ev model data)
      (validate fl ev (loader b data) model).accuracy := by
  have hrun := measured_foldl (measured_reset u v fun s => isHit ev model s * 100) hfl
    (fun s => mul_nonneg (isHit_nonneg ev model s) (by norm_num)) (accuracy fl ev model)
    (loader b data) fun batch _ => near_accuracy hfl ev model batch
  rw [List.nil_append, flatten_loader, Nat.zero_add] at hrun
  rw [validate_accuracy, ← mean_isHit]
  exact hrun.avg

/-- **`validate` measures the set, not its batches.** Where the criterion is the mean of some losses
up to `u`, the reported loss is the mean of those over the set, and the reported accuracy the share
of the samples that the model gets right, in percent: both up to one error of `u` and as many of `v`
as there are batches and three. Without errors the batch size is nowhere in the result. -/
theorem validate_loader (hfl : fl.Within u v) {ℓ : Sample X → ℚ} (hℓ : ∀ s, 0 ≤ ℓ s)
    {b : ℕ} {data : List (Sample X)}
    (hcriterion : ∀ batch ∈ loader b data,
      |ev.criterion model batch - mean (batch.map ℓ)| ≤ u * mean (batch.map ℓ)) :
    Near u v ((loader b data).length + 3) (mean (data.map ℓ))
        (validate fl ev (loader b data) model).loss ∧
      Near u v ((loader b data).length + 3) (percentage ev model data)
        (validate fl ev (loader b data) model).accuracy ∧
      (u = 0 → v = 0 →
        validate fl ev (loader b data) model = ⟨mean (data.map ℓ), percentage ev model data⟩) := by
  have hone : ∀ batch ∈ loader b data,
      Near u v 1 (mean (batch.map ℓ)) (ev.criterion model batch) := by
    intro batch hbatch
    exact (Near.of_error (hcriterion batch hbatch)).mono (Nat.zero_le 1) hfl.nonneg hfl.lt_one
      hfl.double.nonneg hfl.double.lt_one (mean_nonneg (List.forall_mem_map.mpr fun s _ => hℓ s))
  have hloss : Near u v ((loader b data).length + 3) (mean (data.map ℓ))
      (validate fl ev (loader b data) model).loss := by
    have hrun := measured_foldl (measured_reset u v ℓ) hfl hℓ (ev.criterion model)
      (loader b data) hone
    rw [List.nil_append, flatten_loader, Nat.zero_add] at hrun
    rw [validate_loss]
    exact hrun.avg
  have haccuracy := near_validate_accuracy hfl ev b data model
  refine ⟨hloss, haccuracy, ?_⟩
  rintro rfl rfl
  exact Stats.ext hloss.eq_of_exact haccuracy.eq_of_exact

/-- Every third image is a miss, and the last one. -/
def thirds : Evaluator Unit ℕ where
  predict _ x := if x % 3 = 2 ∨ x = 7 then 0 else 1
  criterion _ batch := Floats.ieee.mean (batch.map fun s => (s.1 : ℚ) ^ 2)

def eightSamples : List (Sample ℕ) := [0, 1, 2, 3, 4, 5, 6, 7].map (·, 1)

/-- In batches of three, five hits of eight are reported as a little more than 62.5. -/
theorem validate_loader_eight :
    Near (1 / 2 ^ 24) (1 / 2 ^ 53) ((loader 3 eightSamples).length + 3)
        (mean (eightSamples.map fun s => (s.1 : ℚ) ^ 2))
        (validate Floats.ieee thirds (loader 3 eightSamples) ()).loss ∧
      Near (1 / 2 ^ 24) (1 / 2 ^ 53) ((loader 3 eightSamples).length + 3)
        (percentage thirds () eightSamples)
        (validate Floats.ieee thirds (loader 3 eightSamples) ()).accuracy ∧
      percentage thirds () eightSamples = 62.5 ∧
      62.5 < (validate Floats.ieee thirds (loader 3 eightSamples) ()).accuracy := by
  have hfl : Floats.ieee.Within (1 / 2 ^ 24) (1 / 2 ^ 53) :=
    within_ieee le_rfl (by norm_num) le_rfl (by norm_num)
  obtain ⟨hloss, haccuracy, -⟩ := @validate_loader Unit ℕ Floats.ieee _ _ thirds () hfl
    (fun s => (s.1 : ℚ) ^ 2) (fun s => sq_nonneg _) 3 eightSamples fun batch _ =>
      hfl.mean _ (List.forall_mem_map.mpr fun s _ => sq_nonneg _)
  exact ⟨hloss, haccuracy, by decide +kernel, by decide +kernel⟩

/-- Some accuracy is above zero exactly when some sample is a hit. -/
theorem accuracy_pos_iff (hfl : fl.Within u v) (ev : Evaluator W X) (b : ℕ)
    (data : List (Sample X)) (model : W) :
    0 < (validate fl ev (loader b data) model).accuracy ↔ 0 < hits ev model data := by
  rw [Between.pos_iff (near_validate_accuracy hfl ev b data model)
    (Near.lo_pos hfl.lt_one hfl.double.lt_one _) (percentage_nonneg ev model data)]
  constructor
  · intro h
    by_contra hzero
    rw [percentage, Nat.eq_zero_of_not_pos hzero] at h
    simp at h
  · intro h
    have hlen : 0 < data.length := h.trans_le List.countP_le_length
    have hlen' : (0 : ℚ) < data.length := Nat.cast_pos.mpr hlen
    have hhits : (0 : ℚ) < hits ev model data := Nat.cast_pos.mpr h
    unfold percentage
    positivity

/-- **Rounding does not make up a hit.** On a million images the errors of the operations are still
less than one image, so of two models the one with more hits has the higher accuracy. -/
theorem hits_le_of_accuracy_le (hfl : fl.Within (1 / 2 ^ 22) (1 / 2 ^ 50)) {b : ℕ}
    {data : List (Sample X)} (hlen : data.length ≤ 2 ^ 20) {model' : W}
    (h : (validate fl ev (loader b data) model).accuracy ≤
      (validate fl ev (loader b data) model').accuracy) :
    hits ev model data ≤ hits ev model' data := by
  by_contra hmore
  have hbatches : (((loader b data).length + 3 : ℕ) : ℚ) ≤ 2 ^ 21 := by
    have hle := length_loader_le b data
    exact_mod_cast (show (loader b data).length + 3 ≤ 2 ^ 21 by omega)
  have hwithin : ∀ m, Between ((1 - 1 / 2 ^ 22) * (1 - 1 / 2 ^ 29))
      ((1 + 1 / 2 ^ 22) / (1 - 1 / 2 ^ 29)) (percentage ev m data)
      (validate fl ev (loader b data) m).accuracy := by
    intro m
    apply (near_validate_accuracy hfl ev b data m).within hfl.nonneg hfl.lt_one hfl.double.nonneg
      hfl.double.lt_one (by linarith) (by norm_num) (percentage_nonneg ev m data)
  have hchain := ((hwithin model).1.trans h).trans (hwithin model').2
  have hone : (hits ev model' data : ℚ) + 1 ≤ hits ev model data := by
    exact_mod_cast not_le.mp hmore
  have hcount : hits ev model' data ≤ data.length := List.countP_le_length
  have hmillion : (hits ev model' data : ℚ) ≤ 2 ^ 20 := by exact_mod_cast hcount.trans hlen
  have hpos : (0 : ℚ) < data.length := by
    have hfew : hits ev model data ≤ data.length := List.countP_le_length
    exact_mod_cast (show 0 < data.length by omega)
  have hhits : (1 - 1 / 2 ^ 22) * (1 - 1 / 2 ^ 29) * (hits ev model data : ℚ) ≤
      (1 + 1 / 2 ^ 22) / (1 - 1 / 2 ^ 29) * hits ev model' data := by
    rw [percentage, percentage, ← mul_assoc, ← mul_assoc, mul_le_mul_iff_left₀ (by norm_num),
      mul_div_assoc', mul_div_assoc', div_le_div_iff_of_pos_right hpos] at hchain
    exact hchain
  norm_num at hhits
  linarith

end StockCharts
