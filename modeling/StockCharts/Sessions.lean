import StockCharts.Lib.Loop
import StockCharts.Trainer

/-!
# Training that may be killed at any write

`session` ends between two epochs. A process can be killed anywhere, and `save_checkpoint` is three
writes: the checkpoint, its copy, the labels. Here a training is a machine whose events are a
launch, an epoch, a write and a kill, in any order, over any number of processes, each launched
from scratch or resuming from either file.

Whatever the events, **each checkpoint file is one that an uninterrupted training writes**
(`files_of_driven`): a kill loses epochs, and never mixes two. In front of an epoch, the best file
has the best accuracy *of the process*.

A kill between the first two writes is the one that costs something for good. The epoch is in the
checkpoint, so no process that resumes runs it again, and it was not copied; the copy was due
exactly where the epoch was better than what its process had seen (`killed_before_copy`).
-/

set_option autoImplicit false

namespace StockCharts

variable {W B X Ω : Type}

/-- What a process does next: an epoch, or one of the three writes. -/
inductive Phase (W B : Type) where
  | loop
  | save (state : Checkpoint W B) (isBest : Bool)
  | earmark (state : Checkpoint W B) (isBest : Bool)
  | label (state : Checkpoint W B)

structure Proc (W B : Type) where
  epoch : ℕ
  net : Net W B
  bestAccuracy : ℚ
  phase : Phase W B

structure Sys (W B : Type) where
  dir : ModelDir W B
  proc : Option (Proc W B)

inductive Event (Ω : Type) where
  | launch (resume : Option CheckpointFile)
  | epoch (ω : Ω)
  | write
  | kill

namespace Trainer

def launched (t : Trainer W B X Ω) (resume : Option CheckpointFile) (dir : ModelDir W B) :
    Proc W B where
  epoch := (t.startFrom resume dir).1
  net := (t.startFrom resume dir).2
  bestAccuracy := 0
  phase := .loop

/-- The process behind an epoch, with the checkpoint to save. -/
def trained (t : Trainer W B X Ω) (p : Proc W B) (ω : Ω) : Proc W B :=
  let out := t.runEpoch p.epoch ω p.net
  { p with
    net := out.1
    bestAccuracy := max out.2.val.accuracy p.bestAccuracy
    phase := .save out.2 (decide (p.bestAccuracy < out.2.val.accuracy)) }

def step (t : Trainer W B X Ω) : Event Ω → Sys W B → Option (Sys W B)
  | .launch resume, ⟨dir, none⟩ => some ⟨dir, some (t.launched resume dir)⟩
  | .epoch ω, ⟨dir, some p⟩ =>
    match p.phase with
    | .loop => if p.epoch < t.epochs then some ⟨dir, some (t.trained p ω)⟩ else none
    | _ => none
  | .write, ⟨dir, some p⟩ =>
    match p.phase with
    | .loop => none
    | .save c isBest => some ⟨torchSave c dir, some { p with phase := .earmark c isBest }⟩
    | .earmark c isBest => some ⟨earmark isBest dir, some { p with phase := .label c }⟩
    | .label c => some ⟨writeLabels c dir, some { p with epoch := p.epoch + 1, phase := .loop }⟩
  | .kill, ⟨dir, some _⟩ => some ⟨dir, none⟩
  | _, _ => none

/-- Everything one event can do. -/
inductive Move (t : Trainer W B X Ω) : Sys W B → Sys W B → Prop where
  | launch {resume dir} : Move t ⟨dir, none⟩ ⟨dir, some (t.launched resume dir)⟩
  | epoch {ω dir n net b} : n < t.epochs →
      Move t ⟨dir, some ⟨n, net, b, .loop⟩⟩ ⟨dir, some (t.trained ⟨n, net, b, .loop⟩ ω)⟩
  | save {dir n net b c isBest} :
      Move t ⟨dir, some ⟨n, net, b, .save c isBest⟩⟩
        ⟨torchSave c dir, some ⟨n, net, b, .earmark c isBest⟩⟩
  | earmark {dir n net b c isBest} :
      Move t ⟨dir, some ⟨n, net, b, .earmark c isBest⟩⟩
        ⟨Trainer.earmark isBest dir, some ⟨n, net, b, .label c⟩⟩
  | label {dir n net b c} :
      Move t ⟨dir, some ⟨n, net, b, .label c⟩⟩
        ⟨writeLabels c dir, some ⟨n + 1, net, b, .loop⟩⟩
  | kill {dir p} : Move t ⟨dir, some p⟩ ⟨dir, none⟩

variable {t : Trainer W B X Ω} {e : Event Ω} {s s' : Sys W B} {dir : ModelDir W B} {n : ℕ}
  {net : Net W B} {b : ℚ} {c : Checkpoint W B} {ω : Ω} {ωs : List Ω} {isBest : Bool}

/-- The inversion of an event: every invariant below has one case for each `Move`. -/
theorem move_of_step (h : t.step e s = some s') : Move t s s' := by
  obtain ⟨dir, proc⟩ := s
  cases proc with
  | none =>
    cases e with
    | launch resume => rw [step, Option.some.injEq] at h; subst h; exact .launch
    | epoch ω => exact absurd h (by simp [step])
    | write => exact absurd h (by simp [step])
    | kill => exact absurd h (by simp [step])
  | some p =>
    obtain ⟨n, net, b, phase⟩ := p
    cases e with
    | launch resume => exact absurd h (by simp [step])
    | kill => rw [step, Option.some.injEq] at h; subst h; exact .kill
    | epoch ω =>
      cases phase with
      | loop =>
        by_cases hn : n < t.epochs
        · simp only [step, hn, if_true, Option.some.injEq] at h
          subst h
          exact .epoch hn
        · exact absurd h (by simp [step, hn])
      | save c isBest => exact absurd h (by simp [step])
      | earmark c isBest => exact absurd h (by simp [step])
      | label c => exact absurd h (by simp [step])
    | write =>
      cases phase with
      | loop => exact absurd h (by simp [step])
      | save c isBest => simp only [step, Option.some.injEq] at h; subst h; exact .save
      | earmark c isBest => simp only [step, Option.some.injEq] at h; subst h; exact .earmark
      | label c => simp only [step, Option.some.injEq] at h; subst h; exact .label

/-! ## A session is a run of the machine -/

/-- An epoch of `session`, as four events: the training, and the three writes. -/
theorem driven_epoch (hn : n < t.epochs) (ω : Ω) (net : Net W B) (b : ℚ) (dir : ModelDir W B) :
    Driven t.step ⟨dir, some ⟨n, net, b, .loop⟩⟩
      ⟨(t.epochBody ⟨n, net, b, dir⟩ ω).dir,
        some ⟨n + 1, (t.epochBody ⟨n, net, b, dir⟩ ω).net,
          (t.epochBody ⟨n, net, b, dir⟩ ω).bestAccuracy, .loop⟩⟩ := by
  apply Driven.head (b := ⟨dir, some (t.trained ⟨n, net, b, .loop⟩ ω)⟩) (e := .epoch ω)
  · simp [step, hn]
  · exact Driven.head (e := .write) rfl
      (Driven.head (e := .write) rfl (Driven.single (e := .write) rfl))

theorem driven_epochs (hlen : n + ωs.length ≤ t.epochs) (net : Net W B) (b : ℚ)
    (dir : ModelDir W B) :
    ∃ net' b', Driven t.step ⟨dir, some ⟨n, net, b, .loop⟩⟩
      ⟨(ωs.foldl t.epochBody ⟨n, net, b, dir⟩).dir,
        some ⟨n + ωs.length, net', b', .loop⟩⟩ := by
  induction ωs generalizing n net b dir with
  | nil => exact ⟨net, b, Driven.refl _⟩
  | cons ω ωs ih =>
    rw [List.length_cons] at hlen
    obtain ⟨net', b', hrest⟩ := @ih (n + 1) (by omega)
      (t.epochBody ⟨n, net, b, dir⟩ ω).net (t.epochBody ⟨n, net, b, dir⟩ ω).bestAccuracy
      (t.epochBody ⟨n, net, b, dir⟩ ω).dir
    refine ⟨net', b', (driven_epoch (by omega) ω net b dir).trans ?_⟩
    rw [List.length_cons, List.foldl_cons, show n + (ωs.length + 1) = n + 1 + ωs.length by omega]
    exact hrest

/-- **Every session is a run of the machine**: a launch, its epochs with their writes, and an end. -/
theorem driven_session (t : Trainer W B X Ω) (resume : Option CheckpointFile) (ωs : List Ω)
    (dir : ModelDir W B) :
    Driven t.step ⟨dir, none⟩ ⟨t.session resume ωs dir, none⟩ := by
  have hlaunch : t.step (.launch resume) ⟨dir, none⟩ = some ⟨dir, some (t.launched resume dir)⟩ :=
    rfl
  by_cases hn : (t.startFrom resume dir).1 ≤ t.epochs
  · obtain ⟨net', b', hrun⟩ := @driven_epochs W B X Ω t (t.startFrom resume dir).1
      (ωs.take (t.epochs - (t.startFrom resume dir).1)) (by rw [List.length_take]; omega)
      (t.startFrom resume dir).2 0 dir
    exact Driven.head hlaunch (hrun.trans (Driven.single (e := .kill) rfl))
  · have hnil : t.session resume ωs dir = dir := by
      rw [session, Nat.sub_eq_zero_of_le (by omega), List.take_zero]
      rfl
    rw [hnil]
    exact Driven.head hlaunch (Driven.single (e := .kill) rfl)

/-! ## What every state of a run keeps -/

/-- The model and the optimizer in front of epoch `n` of an uninterrupted training. -/
def OnTrack (t : Trainer W B X Ω) (n : ℕ) (net : Net W B) : Prop :=
  ∃ ωs : List Ω, ωs.length = n ∧ t.netAfter 0 t.initial ωs = net

/-- A checkpoint that an uninterrupted training writes. -/
def Written (t : Trainer W B X Ω) (c : Checkpoint W B) : Prop :=
  c.epoch < t.epochs ∧ ∃ ωs : List Ω, ωs.length = c.epoch + 1 ∧
    (t.checkpointsFrom 0 t.initial ωs).getLast? = some c

/-- A process that resumes from such a checkpoint goes on with that training. -/
theorem Written.onTrack (h : t.Written c) : t.OnTrack (c.epoch + 1) ⟨c.stateDict, c.optimizer⟩ := by
  obtain ⟨-, ωs, hlen, hlast⟩ := h
  exact ⟨ωs, hlen, (getLast?_checkpointsFrom hlast).2.symm⟩

/-- An epoch of a process on track has such a checkpoint to save. -/
theorem OnTrack.written (h : t.OnTrack n net) (hn : n < t.epochs) (ω : Ω) :
    t.Written (t.runEpoch n ω net).2 := by
  obtain ⟨ωs, hlen, hnet⟩ := h
  refine ⟨hn, ωs ++ [ω], by rw [List.length_append, hlen]; rfl, ?_⟩
  rw [checkpointsFrom_append, hnet, hlen, Nat.zero_add, checkpointsFrom, checkpointsFrom,
    List.getLast?_append, List.getLast?_singleton, Option.some_or]

/-- Such a checkpoint is the last one of a session from an empty directory. -/
theorem Written.session (h : t.Written c) :
    ∃ ωs : List Ω, ωs.length = c.epoch + 1 ∧
      (t.session none ωs ModelDir.empty).checkpoint = some c := by
  obtain ⟨hlt, ωs, hlen, hlast⟩ := h
  refine ⟨ωs, hlen, ?_⟩
  have htake : ωs.take (t.epochs - 0) = ωs := List.take_of_length_le (by omega)
  rw [session_checkpoint, sessionCheckpoints]
  show ((t.checkpointsFrom 0 t.initial (ωs.take (t.epochs - 0))).getLast?.or none) = some c
  rw [htake, hlast, Option.some_or]

/-- The best file holds the best accuracy of the process, once that is above zero. -/
structure Earmarked (b : ℚ) (dir : ModelDir W B) : Prop where
  nonneg : 0 ≤ b
  best : 0 < b → ∃ c, dir.best = some c ∧ valAccuracy c = b
  checkpoint : 0 < b → ∀ c, dir.checkpoint = some c → valAccuracy c ≤ b

/-- What is known of the checkpoint being saved. -/
structure Saving (t : Trainer W B X Ω) (n : ℕ) (net : Net W B) (c : Checkpoint W B) : Prop where
  written : t.Written c
  epoch_eq : c.epoch = n
  net_eq : (⟨c.stateDict, c.optimizer⟩ : Net W B) = net
  classes_eq : c.classes = t.classes

/-- Before its copy is made: the checkpoint is the best one, or is no better than the best file. -/
def Judged (b : ℚ) (c : Checkpoint W B) (isBest : Bool) (dir : ModelDir W B) : Prop :=
  if isBest then 0 < b ∧ valAccuracy c = b
  else 0 ≤ b ∧ valAccuracy c ≤ b ∧ (0 < b → ∃ c', dir.best = some c' ∧ valAccuracy c' = b)

def ProcInv (t : Trainer W B X Ω) (dir : ModelDir W B) : Proc W B → Prop
  | ⟨n, net, b, .loop⟩ => t.OnTrack n net ∧ Earmarked b dir
  | ⟨n, net, b, .save c isBest⟩ => t.Saving n net c ∧ Judged b c isBest dir
  | ⟨n, net, b, .earmark c isBest⟩ =>
    t.Saving n net c ∧ Judged b c isBest dir ∧ dir.checkpoint = some c
  | ⟨n, net, b, .label c⟩ => t.Saving n net c ∧ Earmarked b dir

structure SysInv (t : Trainer W B X Ω) (s : Sys W B) : Prop where
  files : ∀ f c, s.dir.read f = some c → t.Written c
  best_pos : ∀ c, s.dir.best = some c → 0 < valAccuracy c
  labels : ∀ ls, s.dir.labels = some ls → ls = t.classes
  proc : ∀ p, s.proc = some p → t.ProcInv s.dir p

theorem sysInv_empty (t : Trainer W B X Ω) : t.SysInv ⟨ModelDir.empty, none⟩ where
  files f c h := by cases f <;> exact absurd h (by simp [ModelDir.read, ModelDir.empty])
  best_pos c h := absurd h (by simp [ModelDir.empty])
  labels ls h := absurd h (by simp [ModelDir.empty])
  proc p h := absurd h (by simp)

/-- Every launch is on track: from scratch, or from a file that is written. -/
theorem onTrack_launched (resume : Option CheckpointFile)
    (hfiles : ∀ f c, dir.read f = some c → t.Written c) :
    t.OnTrack (t.startFrom resume dir).1 (t.startFrom resume dir).2 := by
  unfold startFrom
  cases resume with
  | none => exact ⟨[], rfl, rfl⟩
  | some f =>
    simp only [Option.bind_some]
    cases hf : dir.read f with
    | none => exact ⟨[], rfl, rfl⟩
    | some c => exact (hfiles f c hf).onTrack

/-- The test behind an epoch judges its checkpoint. -/
theorem judged_trained {p : Proc W B} (h : Earmarked p.bestAccuracy dir) (ω : Ω) :
    Judged (t.trained p ω).bestAccuracy (t.runEpoch p.epoch ω p.net).2
      (decide (p.bestAccuracy < (t.runEpoch p.epoch ω p.net).2.val.accuracy)) dir := by
  show Judged (max (t.runEpoch p.epoch ω p.net).2.val.accuracy p.bestAccuracy) _ _ dir
  unfold Judged
  by_cases hlt : p.bestAccuracy < (t.runEpoch p.epoch ω p.net).2.val.accuracy
  · rw [decide_eq_true hlt, if_pos rfl, max_eq_left hlt.le]
    exact ⟨h.nonneg.trans_lt hlt, rfl⟩
  · rw [decide_eq_false hlt, if_neg Bool.false_ne_true, max_eq_right (not_lt.mp hlt)]
    exact ⟨h.nonneg, not_lt.mp hlt, h.best⟩

theorem Judged.torchSave (h : Judged b c isBest dir) (c' : Checkpoint W B) :
    Judged b c isBest (torchSave c' dir) := h

/-- The copy puts the best file right again. -/
theorem Judged.earmark (h : Judged b c isBest dir) (hc : dir.checkpoint = some c) :
    Earmarked b (Trainer.earmark isBest dir) := by
  unfold Judged at h
  cases isBest with
  | true =>
    obtain ⟨hb, hacc⟩ := h
    refine ⟨hb.le, fun _ => ⟨c, by simpa using hc, hacc⟩, fun _ c' hc' => ?_⟩
    rw [earmark_checkpoint, hc, Option.some.injEq] at hc'
    rw [← hc', hacc]
  | false =>
    obtain ⟨hb, hacc, hbest⟩ := h
    refine ⟨hb, hbest, fun _ c' hc' => ?_⟩
    rw [earmark_checkpoint, hc, Option.some.injEq] at hc'
    rw [← hc']
    exact hacc

theorem Earmarked.writeLabels (h : Earmarked b dir) (c : Checkpoint W B) :
    Earmarked b (Trainer.writeLabels c dir) where
  nonneg := h.nonneg
  best hb := by rw [writeLabels_best]; exact h.best hb
  checkpoint hb := by rw [writeLabels_checkpoint]; exact h.checkpoint hb

/-- **One event preserves it**, whichever comes. -/
theorem sysInv_move (h : t.SysInv s) (hm : Move t s s') : t.SysInv s' := by
  obtain ⟨hfiles, hpos, hlabels, hproc⟩ := h
  cases hm with
  | launch =>
    refine ⟨hfiles, hpos, hlabels, fun p hp => ?_⟩
    obtain rfl := Option.some.inj hp
    exact ⟨onTrack_launched _ hfiles, le_rfl, fun hb => absurd hb (lt_irrefl _),
      fun hb => absurd hb (lt_irrefl _)⟩
  | kill => exact ⟨hfiles, hpos, hlabels, fun p hp => absurd hp (by simp)⟩
  | epoch hn =>
    obtain ⟨htrack, hbest⟩ := hproc _ rfl
    refine ⟨hfiles, hpos, hlabels, fun p hp => ?_⟩
    obtain rfl := Option.some.inj hp
    exact ⟨⟨htrack.written hn _, rfl, rfl, rfl⟩, judged_trained hbest _⟩
  | save =>
    obtain ⟨hsaving, hjudged⟩ := hproc _ rfl
    refine ⟨fun f c' hc' => ?_, hpos, hlabels, fun p hp => ?_⟩
    · cases f with
      | checkpoint =>
        obtain rfl := Option.some.inj hc'
        exact hsaving.written
      | best => exact hfiles .best c' hc'
    · obtain rfl := Option.some.inj hp
      exact ⟨hsaving, hjudged.torchSave _, rfl⟩
  | @earmark dir n net b c isBest =>
    obtain ⟨hsaving, hjudged, hcheckpoint⟩ := hproc _ rfl
    have hread : ∀ c', (Trainer.earmark isBest dir).best = some c' →
        (isBest = true ∧ c' = c) ∨ dir.best = some c' := by
      intro c' hc'
      cases isBest with
      | true =>
        rw [earmark_best, if_pos rfl, hcheckpoint, Option.some.injEq] at hc'
        exact Or.inl ⟨rfl, hc'.symm⟩
      | false => exact Or.inr hc'
    refine ⟨fun f c' hc' => ?_, fun c' hc' => ?_, fun ls hls => ?_, fun p hp => ?_⟩
    · cases f with
      | checkpoint =>
        apply hfiles .checkpoint
        rwa [ModelDir.read, earmark_checkpoint] at hc'
      | best =>
        rcases hread c' hc' with ⟨-, rfl⟩ | hold
        · exact hsaving.written
        · exact hfiles .best c' hold
    · rcases hread c' hc' with ⟨rfl, rfl⟩ | hold
      · obtain ⟨hb, hacc⟩ := hjudged
        rw [hacc]
        exact hb
      · exact hpos c' hold
    · apply hlabels
      cases isBest <;> exact hls
    · obtain rfl := Option.some.inj hp
      exact ⟨hsaving, hjudged.earmark hcheckpoint⟩
  | @label dir n net b c =>
    obtain ⟨hsaving, hbest⟩ := hproc _ rfl
    refine ⟨fun f c' hc' => ?_, fun c' hc' => ?_, fun ls hls => ?_, fun p hp => ?_⟩
    · cases f with
      | checkpoint =>
        apply hfiles .checkpoint
        rwa [ModelDir.read, writeLabels_checkpoint] at hc'
      | best =>
        apply hfiles .best
        rwa [ModelDir.read, writeLabels_best] at hc'
    · apply hpos
      rwa [writeLabels_best] at hc'
    · unfold writeLabels at hls
      split at hls
      · exact (Option.some.inj hls).symm.trans hsaving.classes_eq
      · exact hlabels ls hls
    · obtain rfl := Option.some.inj hp
      refine ⟨?_, hbest.writeLabels c⟩
      have htrack := hsaving.written.onTrack
      rwa [hsaving.epoch_eq, hsaving.net_eq] at htrack

/-- Every state of every run has it. -/
theorem sysInv_of_driven (h : Driven t.step ⟨ModelDir.empty, none⟩ s) : t.SysInv s :=
  h.inv (sysInv_empty t) fun _ _ _ hs he => sysInv_move hs (move_of_step he)

/-- A network that answers with the last target it was trained on. -/
def parrot : Trainer ℕ Unit ℕ ℕ where
  classes := ["buy", "hold", "sell", "unknown"]
  lr := 1 / 10
  epochs := 35
  batchSize := 8
  initial := ⟨0, ⟨1 / 10, ()⟩⟩
  trainBatches target := [[(0, target)]]
  sgd net batch := (⟨(batch.map Prod.snd).sum, net.optimizer⟩, ⟨0, 0⟩)
  ev := ⟨fun model _ => model, fun _ _ => 0⟩
  valSet := [(7, 1), (8, 2)]
  floats := Floats.ieee

/-- The machine whose launches resume from the checkpoint. -/
def resumeStep (t : Trainer W B X Ω) (e : Event Ω) (s : Sys W B) : Option (Sys W B) :=
  match e with
  | .launch (some .checkpoint) => t.step e s
  | .launch _ => none
  | _ => t.step e s

/-- The epoch behind the last checkpoint. -/
def nextEpoch (dir : ModelDir W B) : ℕ :=
  match dir.checkpoint with
  | none => 0
  | some c => c.epoch + 1

theorem nextEpoch_of_checkpoint (h : dir.checkpoint = some c) : nextEpoch dir = c.epoch + 1 := by
  rw [nextEpoch, h]

theorem startFrom_checkpoint (t : Trainer W B X Ω) (dir : ModelDir W B) :
    (t.startFrom (some .checkpoint) dir).1 = nextEpoch dir := by
  unfold startFrom nextEpoch
  simp only [Option.bind_some, ModelDir.read]
  cases dir.checkpoint <;> rfl

theorem step_of_resumeStep (h : t.resumeStep e s = some s') : t.step e s = some s' := by
  cases e with
  | launch r =>
    cases r with
    | none => exact absurd h (by simp [resumeStep])
    | some f =>
      cases f with
      | checkpoint => exact h
      | best => exact absurd h (by simp [resumeStep])
  | epoch ω => exact h
  | write => exact h
  | kill => exact h

theorem driven_of_resume {a : Sys W B} (h : Driven t.resumeStep a s) : Driven t.step a s :=
  h.inv (Driven.refl a) fun _ _ _ hs he => hs.trans (Driven.single (step_of_resumeStep he))

theorem launched_of_resumeStep {p : Proc W B}
    (h : t.resumeStep e ⟨dir, none⟩ = some ⟨dir, some p⟩) :
    p.phase = .loop ∧ p.epoch = nextEpoch dir := by
  cases e with
  | launch r =>
    cases r with
    | none => exact absurd h (by simp [resumeStep])
    | some f =>
      cases f with
      | checkpoint =>
        simp only [resumeStep, step, Option.some.injEq, Sys.mk.injEq, true_and] at h
        subst h
        exact ⟨rfl, startFrom_checkpoint t dir⟩
      | best => exact absurd h (by simp [resumeStep])
  | epoch ω => exact absurd h (by simp [resumeStep, step])
  | write => exact absurd h (by simp [resumeStep, step])
  | kill => exact absurd h (by simp [resumeStep, step])

/-- Where the process stands, by its epoch and the directory's. -/
def InStep (dir : ModelDir W B) : Proc W B → Prop
  | ⟨n, _, _, .loop⟩ => n = nextEpoch dir
  | ⟨n, _, _, .save c _⟩ => c.epoch = n ∧ n = nextEpoch dir
  | ⟨n, _, _, .earmark c _⟩ => c.epoch = n ∧ dir.checkpoint = some c ∧
      ∀ c', dir.best = some c' → c'.epoch < n
  | ⟨n, _, _, .label _⟩ => n + 1 = nextEpoch dir

/-- The best file is one of the epochs behind the checkpoint. -/
structure Numbered (s : Sys W B) : Prop where
  best_lt : ∀ c, s.dir.best = some c → c.epoch < nextEpoch s.dir
  inStep : ∀ p, s.proc = some p → InStep s.dir p

theorem inStep_launched {p : Proc W B} (h : t.resumeStep e ⟨dir, none⟩ = some ⟨dir, some p⟩) :
    InStep dir p := by
  obtain ⟨n, net, b, phase⟩ := p
  obtain ⟨hphase, hepoch⟩ := launched_of_resumeStep h
  obtain rfl : phase = .loop := hphase
  exact hepoch

theorem nextEpoch_earmark : nextEpoch (Trainer.earmark isBest dir) = nextEpoch dir := by
  rw [nextEpoch, nextEpoch, earmark_checkpoint]

theorem nextEpoch_writeLabels : nextEpoch (writeLabels c dir) = nextEpoch dir := by
  rw [nextEpoch, nextEpoch, writeLabels_checkpoint]

/-- After the copy, the best file is the checkpoint's or what it was. -/
theorem best_earmark {c' : Checkpoint W B} (hc : dir.checkpoint = some c)
    (h : (Trainer.earmark isBest dir).best = some c') : c' = c ∨ dir.best = some c' := by
  rw [earmark_best] at h
  cases isBest with
  | true =>
    rw [if_pos rfl, hc, Option.some.injEq] at h
    exact Or.inl h.symm
  | false => exact Or.inr h

/-- One event preserves the numbering: a process that resumes takes the next epoch, so a number is
written once. -/
theorem numbered_step (h : Numbered s) (hs : t.resumeStep e s = some s') : Numbered s' := by
  obtain ⟨hbest, hin⟩ := h
  cases move_of_step (step_of_resumeStep hs) with
  | launch =>
    refine ⟨hbest, fun p hp => ?_⟩
    obtain rfl := Option.some.inj hp
    exact inStep_launched hs
  | kill => exact ⟨hbest, fun p hp => absurd hp (by simp)⟩
  | epoch hn =>
    refine ⟨hbest, fun p hp => ?_⟩
    obtain rfl := Option.some.inj hp
    exact ⟨rfl, hin _ rfl⟩
  | @save dir n net b c isBest =>
    obtain ⟨hc, hn⟩ := hin _ rfl
    have hnext : nextEpoch (torchSave c dir) = c.epoch + 1 := rfl
    have hold : ∀ c', dir.best = some c' → c'.epoch < n := by
      intro c' hc'
      rw [hn]
      exact hbest c' hc'
    refine ⟨fun c' hc' => ?_, fun p hp => ?_⟩
    · show c'.epoch < nextEpoch (torchSave c dir)
      have := hold c' hc'
      omega
    · obtain rfl := Option.some.inj hp
      exact ⟨hc, rfl, hold⟩
  | @earmark dir n net b c isBest =>
    obtain ⟨hc, hcheckpoint, hold⟩ := hin _ rfl
    have hnext : nextEpoch (Trainer.earmark isBest dir) = c.epoch + 1 := by
      rw [nextEpoch_earmark, nextEpoch_of_checkpoint hcheckpoint]
    refine ⟨fun c' hc' => ?_, fun p hp => ?_⟩
    · show c'.epoch < nextEpoch (Trainer.earmark isBest dir)
      rcases best_earmark hcheckpoint hc' with rfl | hc'
      · omega
      · have := hold c' hc'
        omega
    · obtain rfl := Option.some.inj hp
      show n + 1 = nextEpoch (Trainer.earmark isBest dir)
      omega
  | @label dir n net b c =>
    refine ⟨fun c' hc' => ?_, fun p hp => ?_⟩
    · show c'.epoch < nextEpoch (writeLabels c dir)
      rw [nextEpoch_writeLabels]
      apply hbest
      have hc'' : (writeLabels c dir).best = some c' := hc'
      rwa [writeLabels_best] at hc''
    · obtain rfl := Option.some.inj hp
      show n + 1 = nextEpoch (writeLabels c dir)
      rw [nextEpoch_writeLabels]
      exact hin _ rfl

theorem numbered_empty : Numbered (⟨ModelDir.empty, none⟩ : Sys W B) where
  best_lt c h := absurd h (by simp [ModelDir.empty])
  inStep p h := absurd h (by simp)

/-- The epoch `k` is saved, and the best file is not and will not be its. -/
structure Lost (k : ℕ) (s : Sys W B) : Prop where
  numbered : Numbered s
  saved : k < nextEpoch s.dir
  not_best : ∀ c, s.dir.best = some c → c.epoch ≠ k
  later : ∀ p, s.proc = some p → ∀ c isBest, p.phase = .earmark c isBest → k < c.epoch

/-- One event preserves a loss: the epochs to come have later numbers. -/
theorem lost_step {k : ℕ} (h : Lost k s) (hs : t.resumeStep e s = some s') : Lost k s' := by
  have hnumbered := numbered_step h.numbered hs
  obtain ⟨⟨-, hin⟩, hsaved, hbest, hlater⟩ := h
  cases move_of_step (step_of_resumeStep hs) with
  | launch =>
    refine ⟨hnumbered, hsaved, hbest, fun p hp c isBest hc => ?_⟩
    obtain rfl := Option.some.inj hp
    exact absurd hc (by simp [launched])
  | kill => exact ⟨hnumbered, hsaved, hbest, fun p hp => absurd hp (by simp)⟩
  | epoch hn =>
    refine ⟨hnumbered, hsaved, hbest, fun p hp c isBest hc => ?_⟩
    obtain rfl := Option.some.inj hp
    exact absurd hc (by simp [trained])
  | @save dir n net b c isBest =>
    obtain ⟨hc, hn⟩ := hin _ rfl
    have hk : k < c.epoch := by rw [hc, hn]; exact hsaved
    refine ⟨hnumbered, hk.trans (Nat.lt_succ_self _), hbest, fun p hp c' isBest' hc' => ?_⟩
    obtain rfl := Option.some.inj hp
    simp only [Phase.earmark.injEq] at hc'
    rw [← hc'.1]
    exact hk
  | @earmark dir n net b c isBest =>
    obtain ⟨-, hcheckpoint, -⟩ := hin _ rfl
    have hk : k < c.epoch := hlater _ rfl c isBest rfl
    refine ⟨hnumbered, ?_, fun c' hc' => ?_, fun p hp c' isBest' hc' => ?_⟩
    · show k < nextEpoch (Trainer.earmark isBest dir)
      rw [nextEpoch_earmark]
      exact hsaved
    · rcases best_earmark hcheckpoint hc' with rfl | hc'
      · exact hk.ne'
      · exact hbest c' hc'
    · obtain rfl := Option.some.inj hp
      exact absurd hc' (by simp)
  | @label dir n net b c =>
    refine ⟨hnumbered, ?_, fun c' hc' => ?_, fun p hp c' isBest' hc' => ?_⟩
    · show k < nextEpoch (writeLabels c dir)
      rw [nextEpoch_writeLabels]
      exact hsaved
    · apply hbest
      have hc'' : (writeLabels c dir).best = some c' := hc'
      rwa [writeLabels_best] at hc''
    · obtain rfl := Option.some.inj hp
      exact absurd hc' (by simp)

/-! ### Was the copy due? -/

/-- Between the checkpoint and its copy, the event before was the write of the checkpoint. -/
theorem save_before {p : Proc W B} (hm : Move t s s') (hp : s'.proc = some p)
    (hphase : p.phase = .earmark c isBest) :
    ∃ p', s.proc = some p' ∧ p'.phase = .save c isBest ∧ s'.dir = torchSave c s.dir ∧
      p = { p' with phase := .earmark c isBest } := by
  cases hm with
  | launch =>
    obtain rfl := Option.some.inj hp
    exact absurd hphase (by simp [launched])
  | epoch =>
    obtain rfl := Option.some.inj hp
    exact absurd hphase (by simp [trained])
  | save =>
    obtain rfl := Option.some.inj hp
    simp only [Phase.earmark.injEq] at hphase
    obtain ⟨rfl, rfl⟩ := hphase
    exact ⟨_, rfl, rfl, rfl, rfl⟩
  | earmark =>
    obtain rfl := Option.some.inj hp
    exact absurd hphase (by simp)
  | label =>
    obtain rfl := Option.some.inj hp
    exact absurd hphase (by simp)
  | kill => exact absurd hp (by simp)

/-- Before that write, the event before was the epoch. -/
theorem epoch_before {p : Proc W B} (hm : Move t s s') (hp : s'.proc = some p)
    (hphase : p.phase = .save c isBest) :
    ∃ p' ω, s = ⟨s'.dir, some p'⟩ ∧ p'.phase = .loop ∧ p = t.trained p' ω ∧
      c = (t.runEpoch p'.epoch ω p'.net).2 ∧ (isBest = true ↔ p'.bestAccuracy < valAccuracy c) := by
  cases hm with
  | launch =>
    obtain rfl := Option.some.inj hp
    exact absurd hphase (by simp [launched])
  | @epoch ω dir n net b hn =>
    obtain rfl := Option.some.inj hp
    simp only [trained, Phase.save.injEq] at hphase
    obtain ⟨rfl, rfl⟩ := hphase
    exact ⟨⟨n, net, b, .loop⟩, ω, rfl, rfl, rfl, rfl, decide_eq_true_iff⟩
  | save =>
    obtain rfl := Option.some.inj hp
    exact absurd hphase (by simp)
  | earmark =>
    obtain rfl := Option.some.inj hp
    exact absurd hphase (by simp)
  | label =>
    obtain rfl := Option.some.inj hp
    exact absurd hphase (by simp)
  | kill => exact absurd hp (by simp)

/-- A run to a state between a checkpoint and its copy came through the process in front of that
epoch, and the copy is due exactly where the epoch beats what that process had seen. -/
theorem front_of_earmark {p : Proc W B}
    (h : Driven t.resumeStep ⟨ModelDir.empty, none⟩ ⟨dir, some p⟩)
    (hp : p.phase = .earmark c isBest) :
    ∃ dir₀ p₀ ω, Driven t.resumeStep ⟨ModelDir.empty, none⟩ ⟨dir₀, some p₀⟩ ∧ p₀.phase = .loop ∧
      c = (t.runEpoch p₀.epoch ω p₀.net).2 ∧ dir = torchSave c dir₀ ∧
      p = { t.trained p₀ ω with phase := .earmark c isBest } ∧
      (isBest = true ↔ p₀.bestAccuracy < valAccuracy c) := by
  rcases h.cases_tail with heq | ⟨s₁, e₁, hrun₁, he₁⟩
  · exact absurd (congrArg Sys.proc heq) (by simp)
  obtain ⟨p₁, hp₁, hphase₁, hdir, hproc⟩ :=
    save_before (move_of_step (step_of_resumeStep he₁)) rfl hp
  rcases hrun₁.cases_tail with heq | ⟨s₀, e₀, hrun₀, he₀⟩
  · rw [← heq] at hp₁
    exact absurd hp₁ (by simp)
  obtain ⟨p₀, ω, rfl, hloop, rfl, hc, hdue⟩ :=
    epoch_before (move_of_step (step_of_resumeStep he₀)) hp₁ hphase₁
  exact ⟨s₁.dir, p₀, ω, hrun₀, hloop, hc, hdir, hproc, hdue⟩

/-- **The best model that is lost.** Every process resumes from the checkpoint, and one of them is
killed between the checkpoint of an epoch and the copy of it. The copy was due exactly where the
epoch was better than the best one of that process in front of it, and then it would have been the
best model. Whatever the processes after it do, the best file is never the one of that epoch. -/
theorem killed_before_copy {p : Proc W B}
    (h : Driven t.resumeStep ⟨ModelDir.empty, none⟩ ⟨dir, some p⟩)
    (hp : p.phase = .earmark c isBest) (hrun : Driven t.resumeStep ⟨dir, none⟩ s) :
    (∃ dir₀ p₀ ω, Driven t.resumeStep ⟨ModelDir.empty, none⟩ ⟨dir₀, some p₀⟩ ∧
        p₀.phase = .loop ∧ c = (t.runEpoch p₀.epoch ω p₀.net).2 ∧ dir = torchSave c dir₀ ∧
        p = { t.trained p₀ ω with phase := .earmark c isBest } ∧
        (isBest = true ↔ p₀.bestAccuracy < valAccuracy c)) ∧
      (isBest = true → 0 < valAccuracy c ∧ valAccuracy c = p.bestAccuracy) ∧
      ∀ c', s.dir.best = some c' → c'.epoch ≠ c.epoch := by
  refine ⟨front_of_earmark h hp, ?_⟩
  have hnum : Numbered ⟨dir, some p⟩ := h.inv numbered_empty fun _ _ _ hs he => numbered_step hs he
  have hinv := (sysInv_of_driven (driven_of_resume h)).proc p rfl
  obtain ⟨n, net, b, phase⟩ := p
  obtain rfl : phase = .earmark c isBest := hp
  obtain ⟨hc, hcheckpoint, hold⟩ := hnum.inStep _ rfl
  constructor
  · rintro rfl
    obtain ⟨-, ⟨hb, hacc⟩, -⟩ := hinv
    exact ⟨hacc ▸ hb, hacc⟩
  · have hlost : Lost c.epoch (⟨dir, none⟩ : Sys W B) := by
      refine ⟨⟨hnum.best_lt, fun p hp => absurd hp (by simp)⟩, ?_, fun c' hc' => ?_,
        fun p hp => absurd hp (by simp)⟩
      · rw [nextEpoch_of_checkpoint hcheckpoint]
        exact Nat.lt_succ_self _
      · rw [hc]
        exact (hold c' hc').ne
    exact (hrun.inv hlost fun _ _ _ hs he => lost_step hs he).not_best

/-- An epoch with a hit, up to its checkpoint. -/
def dueRun : List (Event ℕ) := [.launch (some .checkpoint), .epoch 1, .write]

/-- Behind the kill, an epoch that is no better and is saved as the best one. -/
def nextRun : List (Event ℕ) := [.launch (some .checkpoint), .epoch 2, .write, .write]

theorem killed_before_copy_parrot :
    ∃ dir p c s c',
      afterEvents parrot.resumeStep dueRun ⟨ModelDir.empty, none⟩ = some ⟨dir, some p⟩ ∧
      p.phase = .earmark c true ∧
      (∃ dir₀ p₀ ω, Driven parrot.resumeStep ⟨ModelDir.empty, none⟩ ⟨dir₀, some p₀⟩ ∧
        p₀.phase = .loop ∧ c = (parrot.runEpoch p₀.epoch ω p₀.net).2 ∧ dir = torchSave c dir₀ ∧
        p = { parrot.trained p₀ ω with phase := .earmark c true } ∧
        p₀.bestAccuracy < valAccuracy c) ∧
      afterEvents parrot.resumeStep nextRun ⟨dir, none⟩ = some s ∧
      s.dir.best = some c' ∧ valAccuracy c' = 50 ∧ valAccuracy c = 50 ∧ c'.epoch ≠ c.epoch := by
  obtain ⟨dir, p, c, isBest, hfirst, hphase⟩ : ∃ dir p c isBest,
      afterEvents parrot.resumeStep dueRun ⟨ModelDir.empty, none⟩ = some ⟨dir, some p⟩ ∧
        p.phase = .earmark c isBest := ⟨_, _, _, _, rfl, rfl⟩
  have hsaved : ((afterEvents parrot.resumeStep dueRun ⟨ModelDir.empty, none⟩).bind
      fun s => s.proc.bind fun p =>
        match p.phase with
        | .earmark c isBest => some (isBest, valAccuracy c)
        | _ => none) = some (true, 50) := by decide +kernel
  have hnext : ((afterEvents parrot.resumeStep dueRun ⟨ModelDir.empty, none⟩).bind
      fun s => (afterEvents parrot.resumeStep nextRun ⟨s.dir, none⟩).bind
        fun s => s.dir.best.map valAccuracy) = some 50 := by decide +kernel
  rw [hfirst, Option.bind_some] at hsaved hnext
  rw [Option.bind_some, hphase, Option.some.injEq, Prod.mk.injEq] at hsaved
  obtain ⟨rfl, hacc⟩ := hsaved
  obtain ⟨s, hs, hbest⟩ := Option.bind_eq_some_iff.mp hnext
  obtain ⟨c', hc', hacc'⟩ := Option.map_eq_some_iff.mp hbest
  obtain ⟨⟨dir₀, p₀, ω, hrun, hloop, hc, hdir, hproc, hdue⟩, -, hlost⟩ :=
    killed_before_copy (Driven.of_events hfirst) hphase (Driven.of_events hs)
  exact ⟨dir, p, c, s, c', hfirst, hphase, ⟨dir₀, p₀, ω, hrun, hloop, hc, hdir, hproc, hdue.mp rfl⟩,
    hs, hc', hacc', hacc, hlost c' hc'⟩

end Trainer
end StockCharts
