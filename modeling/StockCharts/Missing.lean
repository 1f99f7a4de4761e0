import StockCharts.Invariant

/-!
# Missing prices

A comparison with a missing price is false, and so is a comparison with anything computed from one.
The labeller asks two questions and answers `hold` when both are false, so **a window about which
nothing is known is a `hold`**: a window without its last close, or one whose five future highs or
five future lows are all missing. None of these raises on the way to the renderer.

Whether such a window becomes an image then depends on the renderer and on the room left under
`hold` alone (`missing_never_drawn`). An earlier version of the script dropped the incomplete rows
of a frame before it read any window off it.
-/

set_option autoImplicit false

namespace StockCharts

open Control

/-- The window's last close is missing, or the five highs behind it are, or the five lows. -/
def Missing (cfg : Config) (df : DataFrame) (i : ℕ) : Prop :=
  (∃ row, (window cfg df i).getLast? = some row ∧ row .Close = .nan) ∨
    (∀ x ∈ column (futureWindow cfg df i) .High, x = .nan) ∨
    (∀ x ∈ column (futureWindow cfg df i) .Low, x = .nan)

def Draws (cfg : Config) (c : Control) (job : Job) (df : DataFrame) (i : ℕ) (l : Label) : Prop :=
  ∃ indices rest st, c = windows job df (i :: indices) rest st ∧
    step cfg c = some (windows job df indices rest (st.keep (job.split, l) (job.image l i)))

def NoMissingDrawn (cfg : Config) (c : Control) : Prop :=
  ∀ job df i l, Draws cfg c job df i l → ¬ Missing cfg df i

/-- A window with missing prices meets a full `hold`, or a renderer that raises. -/
def MissingStopped (cfg : Config) : Control → Prop
  | windows job df (i :: _) _ st => Missing cfg df i →
      cfg.targetImagesPerClass ≤ st.counts (job.split, .hold) ∨ renders cfg job df i = false
  | _ => True

variable {cfg : Config} {job : Job} {jobs : List Job} {df : DataFrame} {i : ℕ} {c : Control}
  {l : Label}

/-! ## The label of a window with missing prices -/

theorem labelOfMoves_nan_gain (loss : Price) : labelOfMoves .nan loss = .hold := by
  rw [labelOfMoves, if_neg, if_neg]
  · intro h
    exact Flt.not_nan_lt _ h.2
  · intro h
    exact Flt.not_lt_nan _ h.1

theorem labelOfMoves_nan_loss (gain : Price) : labelOfMoves gain .nan = .hold := by
  rw [labelOfMoves, if_neg, if_neg]
  · intro h
    exact Flt.not_nan_lt _ h.1
  · intro h
    rw [Flt.abs_nan] at h
    exact Flt.not_nan_lt _ h.2

/-- **Nothing known means `hold`.** -/
theorem label_of_missing (h : Missing cfg df i) (hl : labelAt cfg df i = .ok l) : l = .hold := by
  unfold labelAt at hl
  cases hrow : (window cfg df i).getLast? with
  | none => rw [hrow] at hl; exact absurd hl (by simp)
  | some row =>
    rw [hrow] at hl
    simp only [Except.ok.injEq] at hl
    rw [← hl]
    unfold labelOf
    rcases h with ⟨row', hrow', hclose⟩ | hhigh | hlow
    · rw [hrow, Option.some.injEq] at hrow'
      rw [hrow', hclose]
      simp only [Flt.sub_nan, Flt.nan_div]
      exact labelOfMoves_nan_gain _
    · rw [Flt.max_of_all_nan hhigh]
      simp only [Flt.nan_sub, Flt.nan_div]
      exact labelOfMoves_nan_gain _
    · rw [Flt.min_of_all_nan hlow]
      simp only [Flt.nan_sub, Flt.nan_div]
      exact labelOfMoves_nan_loss _

/-! ## Which of them are drawn -/

/-- A window is drawn under its own label, when that has room and the chart renders. -/
theorem Draws.cases (h : Draws cfg c job df i l) : ∃ indices rest st,
    c = windows job df (i :: indices) rest st ∧ labelAt cfg df i = .ok l ∧
      st.counts (job.split, l) < cfg.targetImagesPerClass ∧ job.Renders cfg df i l := by
  obtain ⟨indices, rest, st, rfl, hs⟩ := h
  refine ⟨indices, rest, st, rfl, ?_⟩
  generalize hst' : st.keep (job.split, l) (job.image l i) = st' at hs
  have hm := move_of_step hs
  cases hm with
  | pass =>
    have hcount := congrArg (fun s : St => s.counts (job.split, l)) hst'
    rw [Store.keep_counts_self] at hcount
    omega
  | @draw _ _ _ _ _ _ l' hl hroom hr =>
    have hkept := congrArg (fun s : St => s.kept) hst'
    have himg : job.image l i = job.image l' i := by simpa using hkept
    obtain rfl : l = l' := congrArg Image.label himg
    exact ⟨hl, hroom, hr⟩

/-- At one point of a run, the two conditions are the same. -/
theorem noMissingDrawn_iff (c : Control) : NoMissingDrawn cfg c ↔ MissingStopped cfg c := by
  constructor
  · intro h
    cases c with
    | tickers rest st => trivial
    | done st => trivial
    | windows job df indices rest st =>
      cases indices with
      | nil => trivial
      | cons i indices =>
        intro hmiss
        by_contra hopen
        rw [not_or, not_le, Bool.not_eq_false] at hopen
        obtain ⟨hroom, hr⟩ := hopen
        cases hl : labelAt cfg df i with
        | error e => rw [renders, hl] at hr; exact absurd hr (by simp)
        | ok l =>
          obtain rfl := label_of_missing hmiss hl
          exact h job df i .hold
            ⟨indices, rest, st, rfl, step_draw hl hroom ((renders_iff hl).mp hr)⟩ hmiss
  · intro h job df i l hdraw hmiss
    obtain ⟨indices, rest, st, rfl, hl, hroom, hr⟩ := hdraw.cases
    obtain rfl := label_of_missing hmiss hl
    rcases h hmiss with hfull | hraise
    · exact absurd hroom (not_lt.mpr hfull)
    · rw [(renders_iff hl).mpr hr] at hraise
      exact absurd hraise (by simp)

def Shuffle.front (i : ℕ) : Shuffle where
  order l := if i ∈ l then i :: l.erase i else l
  perm l := by
    split
    · rename_i hi
      exact (List.perm_cons_erase hi).symm
    · exact List.Perm.refl l

def Job.withShuffle (job : Job) (σ : Shuffle) : Job := { job with shuffle := σ }

theorem mem_of_reaches_windows {indices : List ℕ} {job' : Job} {rest : List Job} {st : St}
    (hr : Reaches (step cfg) (start [job]) (windows job' df (i :: indices) rest st)) :
    job' = job ∧ job.history = .ok df ∧ ∃ is, tickerIndices cfg df = some is ∧ i ∈ is := by
  have hinv := hr.inv (soundAt_start cfg [job])
    fun _ _ h hs => h.step (List.nodup_singleton _) hs
  obtain ⟨-, hsuf, -, -, all, hw, hall⟩ := hinv
  obtain rfl : job' = job := List.mem_singleton.mp (hsuf.subset List.mem_cons_self)
  obtain ⟨hh, is, his, rfl⟩ := tickerWindows_eq_some hw
  exact ⟨rfl, hh, is, his, job'.shuffle.mem_order.mp (hall.subset List.mem_cons_self)⟩

def RaisesAtMissing (cfg : Config) (job : Job) : Prop :=
  ∀ df is, job.history = .ok df → tickerIndices cfg df = some is →
    ∀ i ∈ is, Missing cfg df i → renders cfg job df i = false

/-- Under every shuffle means under the one that starts with a window it matters for. -/
theorem missingStopped_every_shuffle (cfg : Config) (job : Job) :
    (∀ σ, Always (step cfg) (MissingStopped cfg) (start [job.withShuffle σ])) ↔
      (cfg.targetImagesPerClass = 0 ∨ RaisesAtMissing cfg job) := by
  constructor
  · intro h
    rw [or_iff_not_imp_left]
    intro hT df is hh his i hi hmiss
    have hfront : (Shuffle.front i).order is = i :: is.erase i := if_pos hi
    have hh' : (job.withShuffle (Shuffle.front i)).history = .ok df := hh
    have hw := tickerWindows_of_history hh' his
    rw [show (job.withShuffle (Shuffle.front i)).shuffle = Shuffle.front i from rfl, hfront] at hw
    have hroom : (Store.empty : St).counts (job.split, .hold) < cfg.targetImagesPerClass :=
      Nat.pos_of_ne_zero hT
    have hreach : Reaches (step cfg) (start [job.withShuffle (Shuffle.front i)])
        (windows (job.withShuffle (Shuffle.front i)) df (i :: is.erase i) [] Store.empty) :=
      Reaches.head (step_enter (allFull_eq_false hroom) hw) (Reaches.refl _)
    rcases h (Shuffle.front i) _ hreach hmiss with hfull | hraise
    · exact absurd (Nat.le_zero.mp hfull) hT
    · exact hraise
  · intro h σ c hr
    cases c with
    | tickers rest st => trivial
    | done st => trivial
    | windows job' df indices rest st =>
      cases indices with
      | nil => trivial
      | cons i indices =>
        intro hmiss
        obtain ⟨rfl, hh, is, his, hi⟩ := mem_of_reaches_windows hr
        rcases h with hT | h
        · exact Or.inl (by rw [hT]; exact Nat.zero_le _)
        · exact Or.inr (h df is hh his i hi hmiss)

/-- **When a window with missing prices stays out of the dataset.** In any run: exactly when each
that comes up finds `hold` full or a renderer that raises. And for a single ticker under every
shuffle: exactly when there is no quota to fill, or the renderer raises at every such window its
frame has. -/
theorem missing_never_drawn (cfg : Config) :
    (∀ jobs, Always (step cfg) (NoMissingDrawn cfg) (start jobs) ↔
      Always (step cfg) (MissingStopped cfg) (start jobs)) ∧
    ∀ job : Job, (∀ σ, Always (step cfg) (NoMissingDrawn cfg)
        (start [job.withShuffle σ])) ↔
      (cfg.targetImagesPerClass = 0 ∨ RaisesAtMissing cfg job) := by
  have hpoint : ∀ a, Always (step cfg) (NoMissingDrawn cfg) a ↔
      Always (step cfg) (MissingStopped cfg) a := by
    intro a
    exact forall₂_congr fun b _ => noMissingDrawn_iff b
  refine ⟨fun jobs => hpoint (start jobs), fun job => ?_⟩
  rw [← missingStopped_every_shuffle]
  exact forall_congr' fun σ => hpoint _

/-- `threeWindows` with no high on the five days behind its first window, whose own 30 days are
complete. -/
def highsMissing : DataFrame where
  columns := requiredCols
  rows := threeWindows.rows.take 30 ++
    (threeWindows.rows.drop 30).mapIdx fun n r => if n < 5 then Function.update r .High .nan else r

def highsMissingJob : Job := { threeWindowsJob "AAPL" .train with history := .ok highsMissing }

/-- That window is drawn as a `hold`. -/
theorem not_noMissingDrawn_highs :
    ¬ Always (step (Config.quota 50)) (NoMissingDrawn (Config.quota 50))
      (start [highsMissingJob]) := by
  intro h
  have hw : tickerWindows (Config.quota 50) highsMissingJob = some (highsMissing, [0, 1, 2]) := rfl
  have hl : labelAt (Config.quota 50) highsMissing 0 = .ok .hold := by decide +kernel
  have hmiss : Missing (Config.quota 50) highsMissing 0 := by
    right
    left
    decide +kernel
  have hroom : (Store.empty : St).counts (highsMissingJob.split, .hold) <
    (Config.quota 50).targetImagesPerClass := by decide
  have hreach : Reaches (step (Config.quota 50)) (start [highsMissingJob])
      (windows highsMissingJob highsMissing [0, 1, 2] [] Store.empty) :=
    Reaches.head (step_enter (allFull_eq_false hroom) hw) (Reaches.refl _)
  exact h _ hreach highsMissingJob highsMissing 0 .hold
    ⟨[1, 2], [], Store.empty, rfl, step_draw hl hroom rfl⟩ hmiss

end StockCharts
