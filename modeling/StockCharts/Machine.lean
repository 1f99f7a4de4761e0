import StockCharts.Fetch

/-!
# The run of the loops, one iteration at a time

`Fetch.lean` says what the loops compute; a claim about *every reachable state* needs the states
in between. A `Control` is a point of the run with what is left to do there: in front of the
ticker loop, in front of the window loop of one ticker, or behind both. `step` is one iteration of
whichever loop the run stands in, with every exit of the source: both breaks, both `continue`s
of the guards, and the handler.

**The machine and the functions are one program.** `reaches_done` runs the machine to the state
the functions return. Going the other way, `always_cons` says which points a run over
`job :: rest` visits: those of the one ticker, and those of the run over `rest` from the state
`tickerBody` returns. The conditions of the later modules that are asked at each point of a run
become recursions along it.
-/

set_option autoImplicit false

namespace StockCharts

inductive Control where
  /-- In front of `for ticker, split in all_tickers`, with the entries to come. -/
  | tickers (rest : List Job) (st : St)
  /-- In front of `for i in indices`, with the indices of this ticker and the entries to come. -/
  | windows (job : Job) (df : DataFrame) (indices : List ℕ) (rest : List Job) (st : St)
  /-- Behind both loops. -/
  | done (st : St)

namespace Control

def st : Control → St
  | tickers _ st => st
  | windows _ _ _ _ st => st
  | done st => st

@[simp] theorem st_tickers (rest : List Job) (st : St) : (tickers rest st).st = st := rfl

@[simp] theorem st_windows (job : Job) (df : DataFrame) (indices : List ℕ) (rest : List Job)
    (st : St) : (windows job df indices rest st).st = st := rfl

@[simp] theorem st_done (st : St) : (done st).st = st := rfl

end Control

open Control

def start (jobs : List Job) : Control := tickers jobs Store.empty

/-- One iteration. -/
def step (cfg : Config) : Control → Option Control
  | tickers [] st => some (done st)
  | tickers (job :: rest) st =>
    if allFull cfg job.split st then some (done st)
    else
      match tickerWindows cfg job with
      | none => some (tickers rest st)
      | some (df, indices) => some (windows job df indices rest st)
  | windows _ _ [] rest st => some (tickers rest st)
  | windows job df (i :: indices) rest st =>
    if allFull cfg job.split st then some (tickers rest st)
    else
      match windowBody cfg job df i st with
      | .ok st' => some (windows job df indices rest st')
      | .error _ => some (tickers rest st)
  | done _ => none

/-- Everything one transition can be. -/
inductive Move (cfg : Config) : Control → Control → Prop where
  | finish {st} : Move cfg (tickers [] st) (done st)
  | leave {job rest st} : allFull cfg job.split st = true →
      Move cfg (tickers (job :: rest) st) (done st)
  | skip {job rest st} : Move cfg (tickers (job :: rest) st) (tickers rest st)
  | enter {job df indices rest st} : tickerWindows cfg job = some (df, indices) →
      Move cfg (tickers (job :: rest) st) (windows job df indices rest st)
  | exhausted {job df rest st} : Move cfg (windows job df [] rest st) (tickers rest st)
  | stop {job df i indices rest st} :
      Move cfg (windows job df (i :: indices) rest st) (tickers rest st)
  | pass {job df i indices rest st} :
      Move cfg (windows job df (i :: indices) rest st) (windows job df indices rest st)
  | draw {job df i indices rest st l} : labelAt cfg df i = .ok l →
      st.counts (job.split, l) < cfg.targetImagesPerClass → job.Renders cfg df i l →
      Move cfg (windows job df (i :: indices) rest st)
        (windows job df indices rest (st.keep (job.split, l) (job.image l i)))

variable {cfg : Config} {job : Job} {jobs rest : List Job} {df : DataFrame} {indices : List ℕ}
  {i : ℕ} {st st' : St} {c c' : Control}

/-! ## One transition -/

theorem step_finish : step cfg (tickers [] st) = some (done st) := rfl

/-- The `break` of the ticker loop. -/
theorem step_full (h : allFull cfg job.split st = true) :
    step cfg (tickers (job :: rest) st) = some (done st) := by simp [step, h]

/-- A `continue` of the guards, or a download that raises. -/
theorem step_skip (h : allFull cfg job.split st = false) (hw : tickerWindows cfg job = none) :
    step cfg (tickers (job :: rest) st) = some (tickers rest st) := by simp [step, h, hw]

theorem step_enter (h : allFull cfg job.split st = false)
    (hw : tickerWindows cfg job = some (df, indices)) :
    step cfg (tickers (job :: rest) st) = some (windows job df indices rest st) := by
  simp [step, h, hw]

theorem step_exhausted :
    step cfg (windows job df [] rest st) = some (tickers rest st) := rfl

/-- The `break` of the window loop. -/
theorem step_break (h : allFull cfg job.split st = true) :
    step cfg (windows job df (i :: indices) rest st) = some (tickers rest st) := by simp [step, h]

theorem step_ok (h : allFull cfg job.split st = false)
    (hb : windowBody cfg job df i st = .ok st') :
    step cfg (windows job df (i :: indices) rest st) = some (windows job df indices rest st') := by
  simp [step, h, hb]

/-- The handler: the rest of the ticker is gone. -/
theorem step_error {e : PyError} (h : allFull cfg job.split st = false)
    (hb : windowBody cfg job df i st = .error e) :
    step cfg (windows job df (i :: indices) rest st) = some (tickers rest st) := by
  simp [step, h, hb]

/-- **The inversion of a step.** An invariant is preserved by one case for each `Move`, and no proof
about a run unfolds `step` again. -/
theorem move_of_step (h : step cfg c = some c') : Move cfg c c' := by
  cases c with
  | done st => exact absurd h (by simp [step])
  | tickers rest st =>
    cases rest with
    | nil => rw [step_finish, Option.some.injEq] at h; subst h; exact .finish
    | cons job rest =>
      cases hf : allFull cfg job.split st with
      | true => rw [step_full hf, Option.some.injEq] at h; subst h; exact .leave hf
      | false =>
        cases hw : tickerWindows cfg job with
        | none => rw [step_skip hf hw, Option.some.injEq] at h; subst h; exact .skip
        | some w => rw [step_enter hf hw, Option.some.injEq] at h; subst h; exact .enter hw
  | windows job df indices rest st =>
    cases indices with
    | nil => rw [step_exhausted, Option.some.injEq] at h; subst h; exact .exhausted
    | cons i indices =>
      cases hf : allFull cfg job.split st with
      | true => rw [step_break hf, Option.some.injEq] at h; subst h; exact .stop
      | false =>
        cases hb : windowBody cfg job df i st with
        | error e => rw [step_error hf hb, Option.some.injEq] at h; subst h; exact .stop
        | ok st' =>
          rw [step_ok hf hb, Option.some.injEq] at h
          subst h
          obtain ⟨l, hl, ⟨-, rfl⟩ | ⟨hroom, hr, rfl⟩⟩ := windowBody_cases hb
          · exact .pass
          · exact .draw hl hroom hr

theorem allFull_eq_false {split : Split} {l : Label}
    (h : st.counts (split, l) < cfg.targetImagesPerClass) : allFull cfg split st = false := by
  rw [allFull_eq_full]
  exact full_eq_false (mem_splitKeys split l) h

/-- The one step that changes the state. -/
theorem step_draw {l : Label} (hl : labelAt cfg df i = .ok l)
    (hroom : st.counts (job.split, l) < cfg.targetImagesPerClass) (hr : job.Renders cfg df i l) :
    step cfg (windows job df (i :: indices) rest st) =
      some (windows job df indices rest (st.keep (job.split, l) (job.image l i))) := by
  apply step_ok (allFull_eq_false hroom)
  rw [windowBody_open hl hroom, show job.plot (job.image l i) _ = .ok () from hr]
  rfl

/-! ## The machine and the functions -/

/-- From inside a ticker the machine runs to where `windowLoop` returns, by whichever exit. -/
theorem reaches_windowLoop (cfg : Config) (job : Job) (df : DataFrame) (indices : List ℕ)
    (rest : List Job) (st : St) :
    Reaches (step cfg) (windows job df indices rest st)
      (tickers rest (windowLoop cfg job df indices st)) := by
  induction indices generalizing st with
  | nil => exact Reaches.head step_exhausted (Reaches.refl _)
  | cons i indices ih =>
    cases hf : allFull cfg job.split st with
    | true =>
      rw [windowLoop_break hf]
      exact Reaches.head (step_break hf) (Reaches.refl _)
    | false =>
      cases hb : windowBody cfg job df i st with
      | error e =>
        rw [windowLoop_error hf hb]
        exact Reaches.head (step_error hf hb) (Reaches.refl _)
      | ok st' =>
        rw [windowLoop_ok hf hb]
        exact Reaches.head (step_ok hf hb) (ih st')

/-- A ticker that is entered runs to where `tickerBody` returns. -/
theorem reaches_tickerBody (hf : allFull cfg job.split st = false) :
    Reaches (step cfg) (tickers (job :: rest) st) (tickers rest (tickerBody cfg job st)) := by
  cases hw : tickerWindows cfg job with
  | none =>
    rw [tickerBody_skip hw]
    exact Reaches.head (step_skip hf hw) (Reaches.refl _)
  | some w =>
    rw [tickerBody_enter hw]
    exact Reaches.head (step_enter hf hw) (reaches_windowLoop cfg job w.1 w.2 rest st)

/-- **The machine computes what the functions return.** -/
theorem reaches_done (cfg : Config) (jobs : List Job) (st : St) :
    Reaches (step cfg) (tickers jobs st) (done (tickerLoop cfg jobs st)) := by
  induction jobs generalizing st with
  | nil => exact Reaches.head step_finish (Reaches.refl _)
  | cons job rest ih =>
    cases hf : allFull cfg job.split st with
    | true =>
      rw [tickerLoop_full hf]
      exact Reaches.head (step_full hf) (Reaches.refl _)
    | false =>
      rw [tickerLoop_cons hf]
      exact (reaches_tickerBody hf).trans (ih _)

section Always

variable {P : Control → Prop}

theorem always_done (st : St) : Always (step cfg) P (done st) ↔ P (done st) :=
  Always.stuck_iff rfl

theorem always_nil (st : St) :
    Always (step cfg) P (tickers [] st) ↔ P (tickers [] st) ∧ P (done st) := by
  rw [Always.step_iff step_finish, always_done]

theorem always_full (h : allFull cfg job.split st = true) :
    Always (step cfg) P (tickers (job :: rest) st) ↔
      P (tickers (job :: rest) st) ∧ P (done st) := by
  rw [Always.step_iff (step_full h), always_done]

/-- The points inside one ticker's window loop: in front of each of the indices it gets to. -/
def AlongWindows (cfg : Config) (P : Control → Prop) (job : Job) (df : DataFrame)
    (rest : List Job) : List ℕ → St → Prop
  | [], st => P (windows job df [] rest st)
  | i :: indices, st => P (windows job df (i :: indices) rest st) ∧
      (allFull cfg job.split st = false → ∀ st', windowBody cfg job df i st = .ok st' →
        AlongWindows cfg P job df rest indices st')

/-- **The points of a run from inside a ticker**: those of its window loop, and those of the run
over the entries to come. -/
theorem always_windows (indices : List ℕ) (st : St) :
    Always (step cfg) P (windows job df indices rest st) ↔
      AlongWindows cfg P job df rest indices st ∧
        Always (step cfg) P (tickers rest (windowLoop cfg job df indices st)) := by
  induction indices generalizing st with
  | nil => exact Always.step_iff step_exhausted
  | cons i indices ih =>
    rw [AlongWindows]
    cases hf : allFull cfg job.split st with
    | true => rw [Always.step_iff (step_break hf), windowLoop_break hf]; simp
    | false =>
      cases hb : windowBody cfg job df i st with
      | error e => rw [Always.step_iff (step_error hf hb), windowLoop_error hf hb]; simp
      | ok st' =>
        rw [Always.step_iff (step_ok hf hb), windowLoop_ok hf hb, ih]
        simp [and_assoc]

/-- **The points of a run over `job :: rest`**, when the run enters the ticker: this one, those
inside the ticker, and those of the run over `rest`. -/
theorem always_cons (hf : allFull cfg job.split st = false) :
    Always (step cfg) P (tickers (job :: rest) st) ↔
      P (tickers (job :: rest) st) ∧
        (∀ df indices, tickerWindows cfg job = some (df, indices) →
          AlongWindows cfg P job df rest indices st) ∧
        Always (step cfg) P (tickers rest (tickerBody cfg job st)) := by
  cases hw : tickerWindows cfg job with
  | none => rw [Always.step_iff (step_skip hf hw), tickerBody_skip hw]; simp
  | some w =>
    rw [Always.step_iff (step_enter hf hw), tickerBody_enter hw, always_windows,
      forall_windows_some]

theorem alongWindows_of_forall (h : ∀ is s, P (windows job df is rest s)) (indices : List ℕ)
    (st : St) : AlongWindows cfg P job df rest indices st := by
  induction indices generalizing st with
  | nil => exact h _ _
  | cons i indices ih => exact ⟨h _ _, fun _ st' _ => ih st'⟩

end Always
end StockCharts
