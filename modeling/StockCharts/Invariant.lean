import StockCharts.Machine
import StockCharts.Paths

/-!
# The invariant of a run

What ties the counters, the files, the labels and the names together at every point of a run, for
any downloads, shuffles and renders. `Sound` is the part about the state: every counter is the
number of its images, no file name was used twice, and every image is of a window that was
enumerated for its ticker and got that label. `SoundAt` adds what a transition needs to know about
the work that is left, and that is that **none of the names still to come is taken**: the indices
in front of the run are distinct, the tickers in front of it are distinct, and `ticker_i` gives
both back.

All of that holds for tickers that are any strings. `run_invariant` restates it for paths, and
there a ticker must not contain a `/` (`exists_not_runInvariant_slash`).
-/

set_option autoImplicit false

namespace StockCharts

open Control

/-! ## The invariant on images -/

def DrawnFor (cfg : Config) (jobs : List Job) (img : Image) : Prop :=
  ∃ job ∈ jobs, ∃ df indices i, tickerWindows cfg job = some (df, indices) ∧ i ∈ indices ∧
    labelAt cfg df i = .ok img.label ∧ img = job.image img.label i

structure Sound (cfg : Config) (jobs : List Job) (st : St) : Prop where
  counts_eq : ∀ s l, st.counts (s, l) =
    st.kept.countP fun img => decide (img.split = s ∧ img.label = l)
  counts_le : ∀ s l, st.counts (s, l) ≤ cfg.targetImagesPerClass
  names_nodup : (st.kept.map Image.filename).Nodup
  drawn : ∀ img ∈ st.kept, DrawnFor cfg jobs img

def Unused (st : St) (name : String) : Prop := name ∉ st.kept.map Image.filename

def Untouched (rest : List Job) (st : St) : Prop :=
  ∀ job ∈ rest, ∀ i, Unused st (filename job.ticker i)

/-- `Sound`, and what the work in front of the run needs. -/
def SoundAt (cfg : Config) (jobs : List Job) : Control → Prop
  | tickers rest st => Sound cfg jobs st ∧ rest <:+ jobs ∧ Untouched rest st
  | windows job df indices rest st => Sound cfg jobs st ∧ job :: rest <:+ jobs ∧
      Untouched rest st ∧ (∀ i ∈ indices, Unused st (filename job.ticker i)) ∧
      ∃ all, tickerWindows cfg job = some (df, all) ∧ indices <:+ all
  | done st => Sound cfg jobs st

variable {cfg : Config} {job : Job} {jobs rest : List Job} {df : DataFrame} {indices : List ℕ}
  {i : ℕ} {st : St} {c c' : Control} {l : Label}

theorem SoundAt.sound (h : SoundAt cfg jobs c) : Sound cfg jobs c.st := by
  cases c with
  | tickers rest st => exact h.1
  | windows job df indices rest st => exact h.1
  | done st => exact h

/-- In front of the loops nothing is kept. -/
theorem soundAt_start (cfg : Config) (jobs : List Job) : SoundAt cfg jobs (start jobs) := by
  refine ⟨⟨?_, ?_, ?_, ?_⟩, List.suffix_rfl, ?_⟩
  · intro s l
    rfl
  · intro s l
    exact Nat.zero_le _
  · exact List.nodup_nil
  · intro img himg
    exact absurd himg List.not_mem_nil
  · intro job _ i himg
    exact absurd himg List.not_mem_nil

/-- **Drawing a window preserves it**, where no image of that name is kept. -/
theorem Sound.keep (h : Sound cfg jobs st) (hjob : job ∈ jobs)
    (hw : tickerWindows cfg job = some (df, indices)) (hi : i ∈ indices)
    (hl : labelAt cfg df i = .ok l) (hroom : st.counts (job.split, l) < cfg.targetImagesPerClass)
    (hname : Unused st (filename job.ticker i)) :
    Sound cfg jobs (st.keep (job.split, l) (job.image l i)) := by
  refine ⟨?_, ?_, ?_, ?_⟩
  · intro s m
    rw [Store.keep_counts, Store.keep_kept, List.countP_append, h.counts_eq s m,
      List.countP_singleton]
    congr 1
    by_cases hk : job.split = s ∧ l = m
    · obtain ⟨rfl, rfl⟩ := hk
      simp
    · have hk' : (s, m) ≠ (job.split, l) := by
        rintro ⟨⟩
        exact hk ⟨rfl, rfl⟩
      simp [hk, hk']
  · intro s m
    rw [Store.keep_counts]
    by_cases hk : (s, m) = (job.split, l)
    · rw [if_pos hk, hk]
      omega
    · rw [if_neg hk, Nat.add_zero]
      exact h.counts_le s m
  · rw [Store.keep_kept, List.map_append, List.map_singleton, ← List.concat_eq_append,
      List.nodup_concat]
    exact ⟨hname, h.names_nodup⟩
  · intro img himg
    rw [Store.keep_kept, List.mem_append, List.mem_singleton] at himg
    rcases himg with himg | rfl
    · exact h.drawn img himg
    · exact ⟨job, hjob, df, indices, i, hw, hi, hl, rfl⟩

/-- A name stays unused behind an image of another name. -/
theorem Unused.keep {name : String} {k : Split × Label} (h : Unused st name)
    (hne : name ≠ filename job.ticker i) : Unused (st.keep k (job.image l i)) name := by
  intro hmem
  rw [Store.keep_kept, List.map_append, List.map_singleton, List.mem_append,
    List.mem_singleton] at hmem
  rcases hmem with hmem | heq
  · exact h hmem
  · exact hne heq

/-- **One transition keeps the invariant.** Only `draw` changes the state, and the name it takes
was reserved for it: the other names in front of the run are of other windows, because
`filename` is injective. -/
theorem SoundAt.step (hd : (jobs.map Job.ticker).Nodup) (h : SoundAt cfg jobs c)
    (hs : step cfg c = some c') : SoundAt cfg jobs c' := by
  cases move_of_step hs with
  | finish => exact h.1
  | leave _ => exact h.1
  | skip =>
    obtain ⟨hst, hsuf, hun⟩ := h
    refine ⟨hst, (List.suffix_cons _ _).trans hsuf, ?_⟩
    intro job hj
    exact hun job (List.mem_cons_of_mem _ hj)
  | enter hw =>
    obtain ⟨hst, hsuf, hun⟩ := h
    refine ⟨hst, hsuf, ?_, ?_, _, hw, List.suffix_rfl⟩
    · intro job hj
      exact hun job (List.mem_cons_of_mem _ hj)
    · intro i _
      exact hun _ List.mem_cons_self i
  | exhausted =>
    obtain ⟨hst, hsuf, hun, -⟩ := h
    exact ⟨hst, (List.suffix_cons _ _).trans hsuf, hun⟩
  | stop =>
    obtain ⟨hst, hsuf, hun, -⟩ := h
    exact ⟨hst, (List.suffix_cons _ _).trans hsuf, hun⟩
  | pass =>
    obtain ⟨hst, hsuf, hun, hin, all, hw, hall⟩ := h
    refine ⟨hst, hsuf, hun, ?_, all, hw, (List.suffix_cons _ _).trans hall⟩
    intro i hi
    exact hin i (List.mem_cons_of_mem _ hi)
  | @draw job df i indices rest st l hl hroom _ =>
    obtain ⟨hst, hsuf, hun, hin, all, hw, hall⟩ := h
    have hjob : job ∈ jobs := hsuf.subset List.mem_cons_self
    have hnd : (i :: indices).Nodup := (nodup_tickerWindows hw).sublist hall.sublist
    have htickers : ((job :: rest).map Job.ticker).Nodup :=
      hd.sublist (hsuf.sublist.map Job.ticker)
    rw [List.nodup_cons] at hnd
    rw [List.map_cons, List.nodup_cons] at htickers
    refine ⟨hst.keep hjob hw (hall.subset List.mem_cons_self) hl hroom
        (hin i List.mem_cons_self), hsuf, ?_, ?_, all, hw, (List.suffix_cons _ _).trans hall⟩
    · intro other hother j
      apply (hun other hother j).keep
      intro heq
      exact htickers.1 (List.mem_map.mpr ⟨other, hother, (filename_inj heq).1⟩)
    · intro j hj
      apply (hin j (List.mem_cons_of_mem _ hj)).keep
      intro heq
      exact hnd.1 ((filename_inj heq).2 ▸ hj)

/-- **Every reachable state is sound**, whatever the tickers are, as long as they are distinct. -/
theorem sound_of_reaches (hd : (jobs.map Job.ticker).Nodup)
    (hr : Reaches (step cfg) (start jobs) c) : Sound cfg jobs c.st :=
  (hr.inv (soundAt_start cfg jobs) fun _ _ h hs => h.step hd hs).sound

/-! ## The invariant on paths -/

def writtenPaths (cfg : Config) (st : St) : List String := st.kept.map (Image.filepath cfg)

structure RunInvariant (cfg : Config) (jobs : List Job) (st : St) : Prop where
  counts_eq : ∀ s l, st.counts (s, l) = (filesIn cfg s (.label l) st.kept).ncard
  counts_le : ∀ s l, st.counts (s, l) ≤ cfg.targetImagesPerClass
  named : ∀ s l, ∀ p ∈ filesIn cfg s (.label l) st.kept, ∃ job ∈ jobs, job.split = s ∧
    ∃ df indices i, tickerWindows cfg job = some (df, indices) ∧ i ∈ indices ∧
      labelAt cfg df i = .ok l ∧ p = dirPath cfg s (.label l) ++ "/" ++ filename job.ticker i
  one_label : ∀ job ∈ jobs, ∀ i s s' l l', windowPath cfg s l job.ticker i ∈ writtenPaths cfg st →
    windowPath cfg s' l' job.ticker i ∈ writtenPaths cfg st → l = l'
  one_split : ∀ job ∈ jobs, ∀ i i' s s' l l',
    windowPath cfg s l job.ticker i ∈ writtenPaths cfg st →
      windowPath cfg s' l' job.ticker i' ∈ writtenPaths cfg st → s = s'

section Paths

variable (hplain : ∀ job ∈ jobs, '/' ∉ job.ticker.toList)
include hplain

theorem Sound.plain (h : Sound cfg jobs st) : ∀ img ∈ st.kept, '/' ∉ img.filename.toList := by
  intro img himg
  obtain ⟨job, hjob, df, indices, i, -, -, -, heq⟩ := h.drawn img himg
  rw [heq]
  exact slash_notMem_filename (hplain job hjob) i

theorem Sound.mem_of_windowPath (h : Sound cfg jobs st) (hjob : job ∈ jobs) {s : Split}
    (hp : windowPath cfg s l job.ticker i ∈ writtenPaths cfg st) :
    (⟨s, l, filename job.ticker i⟩ : Image) ∈ st.kept := by
  obtain ⟨img, himg, heq⟩ := List.mem_map.mp hp
  rw [← eq_of_filepath_eq_windowPath (hplain job hjob) (h.plain hplain img himg) heq]
  exact himg

/-- For distinct tickers it says what the files of the state are. -/
theorem Sound.runInvariant (hd : (jobs.map Job.ticker).Nodup) (h : Sound cfg jobs st) :
    RunInvariant cfg jobs st := by
  refine ⟨?_, h.counts_le, ?_, ?_, ?_⟩
  · intro s l
    rw [h.counts_eq s l, ncard_filesIn (List.Nodup.of_map _ h.names_nodup) (h.plain hplain)]
  · intro s l p hmem
    obtain ⟨hp, hin⟩ := hmem
    obtain ⟨img, himg, rfl⟩ := List.mem_map.mp hp
    have himg' := h.plain hplain img himg
    rw [inDir_filepath_iff himg', Cls.label.injEq] at hin
    obtain ⟨rfl, rfl⟩ := hin
    obtain ⟨job, hjob, df, indices, i, hw, hi, hl, heq⟩ := h.drawn img himg
    have hsplit : img.split = job.split := congrArg Image.split heq
    have hname : img.filename = filename job.ticker i := congrArg Image.filename heq
    refine ⟨job, hjob, hsplit.symm, df, indices, i, hw, hi, hl, ?_⟩
    rw [filepath_eq himg', hname]
  · intro job hjob i s s' l l' hp hp'
    have himg := h.mem_of_windowPath hplain hjob hp
    have himg' := h.mem_of_windowPath hplain hjob hp'
    exact congrArg Image.label (List.inj_on_of_nodup_map h.names_nodup himg himg' rfl)
  · intro job hjob i i' s s' l l' hp hp'
    -- both images were drawn for jobs with this ticker, and there is one such job
    obtain ⟨j, hj, -, -, k, -, -, -, heq⟩ := h.drawn _ (h.mem_of_windowPath hplain hjob hp)
    obtain ⟨j', hj', -, -, k', -, -, -, heq'⟩ := h.drawn _ (h.mem_of_windowPath hplain hjob hp')
    have hticker := (filename_inj (congrArg Image.filename heq)).1
    have hticker' := (filename_inj (congrArg Image.filename heq')).1
    have hjj : j = j' :=
      List.inj_on_of_nodup_map hd hj hj' (hticker.symm.trans hticker')
    calc s = j.split := congrArg Image.split heq
      _ = j'.split := by rw [hjj]
      _ = s' := (congrArg Image.split heq').symm

/-- **The invariant of a run.** For distinct tickers with no `/` in them, and any quota, downloads,
shuffles and renders, in every reachable state: a counter is the number of distinct files in its
directory and is at most the quota; each of these files is named after a window of a ticker of the
split that has that label; no window has files under two labels, and no ticker in both splits. -/
theorem run_invariant (hd : (jobs.map Job.ticker).Nodup)
    (hr : Reaches (step cfg) (start jobs) c) : RunInvariant cfg jobs c.st :=
  (sound_of_reaches hd hr).runInvariant hplain hd

end Paths

theorem run_invariant_underscore :
    RunInvariant (Config.quota 1) [threeWindowsJob "A" .train, threeWindowsJob "A_1" .val]
      (fetchAndGenerateCandlesticks (Config.quota 1)
        [threeWindowsJob "A" .train, threeWindowsJob "A_1" .val]) :=
  run_invariant (by decide) (by decide)
    (reaches_done (Config.quota 1) [threeWindowsJob "A" .train, threeWindowsJob "A_1" .val]
      Store.empty)

/-- A ticker that starts with `/` is counted and written somewhere else: its three files are
`/x_0.png` and so on, and every directory stays empty. -/
theorem exists_not_runInvariant_slash :
    ∃ c, Reaches (step (Config.quota 1)) (start [threeWindowsJob "/x" .train]) c ∧
      ¬ RunInvariant (Config.quota 1) [threeWindowsJob "/x" .train] c.st := by
  refine ⟨_, reaches_done (Config.quota 1) [threeWindowsJob "/x" .train] Store.empty, ?_⟩
  intro hinv
  have hcount : (tickerLoop (Config.quota 1) [threeWindowsJob "/x" .train] Store.empty).counts
      (.train, .buy) = 1 := by decide +kernel
  have hshort : ∀ p ∈ writtenPaths (Config.quota 1)
      (tickerLoop (Config.quota 1) [threeWindowsJob "/x" .train] Store.empty),
      p.length < (dirPath (Config.quota 1) .train (.label .buy)).length := by decide +kernel
  have hcard := hinv.counts_eq .train .buy
  rw [st_done, hcount] at hcard
  obtain ⟨p, hp, name, -, rfl⟩ := Set.nonempty_of_ncard_ne_zero (by rw [← hcard]; exact one_ne_zero)
  -- a path in the directory is longer than the directory's
  have hlong := hshort _ hp
  rw [String.length_append, String.length_append] at hlong
  omega

end StockCharts
