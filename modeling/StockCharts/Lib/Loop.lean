import Mathlib.Logic.Relation
import Mathlib.Data.List.Basic

/-!
# Loops that break and raise, and runs of a machine

The control structures of a script, apart from any script.

`forLoop stop body` is the loop

    for x in xs:
        if stop: break
        body

whose body may raise, under an exception handler that stands **outside** the loop: what a raise
costs is the whole rest of the list, and the state is the one the last completed iteration left.
A body changes the state only by completing, so the state of a raising iteration is the state it
started from.

`Reaches step` is the other view of a program, one transition at a time, which is where a
statement about *every state of a run* lives. The two rules of this file are the ones everything
above is an instance of: an invariant of one iteration is an invariant of the loop
(`forLoop_inv`), and an invariant of one transition is an invariant of the run
(`Reaches.inv`, and `Driven.inv` where an event decides which transition is taken). Where a
condition on a whole run is to be compared with a recursion, `Always.step_iff` peels off one
transition at a time.
-/

set_option autoImplicit false

namespace StockCharts

variable {α β σ ε : Type}

/-! ## `forLoop` -/

/-- `for x in xs: if stop: break; body`, under a handler outside the loop. -/
def forLoop (stop : α → σ → Bool) (body : α → σ → Except ε σ) : List α → σ → σ
  | [], st => st
  | x :: xs, st =>
    if stop x st then st
    else
      match body x st with
      | .ok st' => forLoop stop body xs st'
      | .error _ => st

section ForLoop

variable {stop : α → σ → Bool} {body : α → σ → Except ε σ} {x : α} {xs : List α} {st st' : σ}

@[simp] theorem forLoop_nil : forLoop stop body [] st = st := rfl

theorem forLoop_stop (h : stop x st = true) : forLoop stop body (x :: xs) st = st := by
  rw [forLoop, if_pos h]

theorem forLoop_ok (hs : stop x st = false) (hb : body x st = .ok st') :
    forLoop stop body (x :: xs) st = forLoop stop body xs st' := by
  rw [forLoop, hs, hb]
  simp

theorem forLoop_error {e : ε} (hs : stop x st = false) (hb : body x st = .error e) :
    forLoop stop body (x :: xs) st = st := by
  rw [forLoop, hs, hb]
  simp

/-- **The loop rule.** What every completed iteration preserves, the loop preserves; the
iteration may be assumed to have passed the break test. -/
theorem forLoop_inv {P : σ → Prop} (h0 : P st)
    (hstep : ∀ y ∈ xs, ∀ s s', stop y s = false → body y s = .ok s' → P s → P s') :
    P (forLoop stop body xs st) := by
  induction xs generalizing st with
  | nil => exact h0
  | cons y ys ih =>
    cases hs : stop y st with
    | true => rw [forLoop_stop hs]; exact h0
    | false =>
      cases hb : body y st with
      | error e => rw [forLoop_error hs hb]; exact h0
      | ok s' =>
        rw [forLoop_ok hs hb]
        exact ih (hstep y List.mem_cons_self st s' hs hb h0)
          fun z hz => hstep z (List.mem_cons_of_mem _ hz)

/-- The body does nothing at this state: it completes with the state unchanged, or raises. -/
def Idle (body : α → σ → Except ε σ) (x : α) (st : σ) : Prop :=
  ∀ st', body x st = .ok st' → st' = st

/-- A loop whose iterations change nothing changes nothing. -/
theorem forLoop_idle (h : ∀ y ∈ xs, Idle body y st) : forLoop stop body xs st = st := by
  induction xs with
  | nil => rfl
  | cons y ys ih =>
    cases hs : stop y st with
    | true => exact forLoop_stop hs
    | false =>
      cases hb : body y st with
      | error e => exact forLoop_error hs hb
      | ok s' =>
        have hs' : s' = st := h y List.mem_cons_self s' hb
        rw [forLoop_ok hs hb, hs']
        exact ih fun z hz => h z (List.mem_cons_of_mem _ hz)

/-- **A break is a pure optimisation when it only skips idle iterations.** The premise is asked
of every state at which the break test holds, since the loop decides at run time which of them
it meets. -/
theorem forLoop_break_free
    (h : ∀ y ∈ xs, ∀ s, stop y s = true → ∀ z ∈ xs, Idle body z s) :
    forLoop stop body xs st = forLoop (fun _ _ => false) body xs st := by
  induction xs generalizing st with
  | nil => rfl
  | cons y ys ih =>
    have htail : ∀ s, forLoop stop body ys s = forLoop (fun _ _ => false) body ys s :=
      fun s => ih fun z hz s' hs' w hw =>
        h z (List.mem_cons_of_mem _ hz) s' hs' w (List.mem_cons_of_mem _ hw)
    cases hs : stop y st with
    | true =>
      rw [forLoop_stop hs]
      exact (forLoop_idle fun z hz => h y List.mem_cons_self st hs z hz).symm
    | false =>
      cases hb : body y st with
      | error e => rw [forLoop_error hs hb, forLoop_error rfl hb]
      | ok s' => rw [forLoop_ok hs hb, forLoop_ok rfl hb, htail]

theorem forLoop_congr {body' : α → σ → Except ε σ} (h : ∀ y ∈ xs, ∀ s, body y s = body' y s) :
    forLoop stop body xs st = forLoop stop body' xs st := by
  induction xs generalizing st with
  | nil => rfl
  | cons y ys ih =>
    rw [forLoop, forLoop, h y List.mem_cons_self st]
    have htail : ∀ s, forLoop stop body ys s = forLoop stop body' ys s :=
      fun s => ih fun z hz => h z (List.mem_cons_of_mem _ hz)
    simp only [htail]

/-- A loop over a mapped list. -/
theorem forLoop_map (f : β → α) (ys : List β) :
    forLoop stop body (ys.map f) st =
      forLoop (fun y => stop (f y)) (fun y => body (f y)) ys st := by
  induction ys generalizing st with
  | nil => rfl
  | cons y ys ih => simp only [List.map_cons, forLoop, ih]

end ForLoop

/-! ### The results up to the first raise -/

def okPrefix (f : α → Except ε β) : List α → List β
  | [] => []
  | x :: xs =>
    match f x with
    | .ok y => y :: okPrefix f xs
    | .error _ => []

section OkPrefix

variable {f : α → Except ε β} {xs : List α}

/-- A loop whose body raises apart from its state folds those results. -/
theorem forLoop_map_eq (g : σ → β → σ) (xs : List α) (st : σ) :
    forLoop (fun _ _ => false) (fun x st => (f x).map (g st)) xs st =
      (okPrefix f xs).foldl g st := by
  induction xs generalizing st with
  | nil => rfl
  | cons x xs ih =>
    cases hf : f x with
    | error e => rw [forLoop_error (e := e) rfl (by rw [hf]; rfl), okPrefix, hf, List.foldl_nil]
    | ok y =>
      have hb : (f x).map (g st) = .ok (g st y) := by
        rw [hf]
        rfl
      rw [forLoop_ok rfl hb, okPrefix, hf, List.foldl_cons, ih]

/-- The results are those of the first elements, one each. -/
theorem getElem?_okPrefix {k : ℕ} {y : β} (h : (okPrefix f xs)[k]? = some y) :
    ∃ x, xs[k]? = some x ∧ f x = .ok y := by
  induction xs generalizing k with
  | nil => exact absurd h (by simp [okPrefix])
  | cons x xs ih =>
    cases hf : f x with
    | error e => exact absurd h (by simp [okPrefix, hf])
    | ok y' =>
      rw [okPrefix, hf] at h
      cases k with
      | zero =>
        rw [List.getElem?_cons_zero, Option.some.injEq] at h
        exact ⟨x, rfl, h ▸ hf⟩
      | succ k =>
        rw [List.getElem?_cons_succ] at h
        exact ih h

end OkPrefix

/-! ## Runs of a machine -/

def Reaches (step : σ → Option σ) : σ → σ → Prop :=
  Relation.ReflTransGen fun a b => step a = some b

namespace Reaches

variable {step : σ → Option σ} {a b c : σ}

theorem refl (a : σ) : Reaches step a a := Relation.ReflTransGen.refl

theorem trans (h : Reaches step a b) (h' : Reaches step b c) : Reaches step a c :=
  Relation.ReflTransGen.trans h h'

theorem head (h : step a = some b) (h' : Reaches step b c) : Reaches step a c :=
  Relation.ReflTransGen.head h h'

/-- **The run rule.** What every transition preserves, every run preserves. -/
theorem inv {P : σ → Prop} (h : Reaches step a b) (h0 : P a)
    (hstep : ∀ s s', P s → step s = some s' → P s') : P b := by
  induction h with
  | refl => exact h0
  | tail _ hs ih => exact hstep _ _ ih hs

theorem cases_head (h : Reaches step a c) : a = c ∨ ∃ b, step a = some b ∧ Reaches step b c :=
  Relation.ReflTransGen.cases_head h

end Reaches

def Always (step : σ → Option σ) (P : σ → Prop) (a : σ) : Prop := ∀ b, Reaches step a b → P b

namespace Always

variable {step : σ → Option σ} {P : σ → Prop} {a b : σ}

/-- **A run unfolds along its machine**, which has one transition at most. -/
theorem step_iff (hs : step a = some b) : Always step P a ↔ P a ∧ Always step P b := by
  constructor
  · exact fun h => ⟨h a (Reaches.refl a), fun c hc => h c (Reaches.head hs hc)⟩
  · intro h c hc
    obtain ⟨ha, hb⟩ := h
    rcases hc.cases_head with rfl | ⟨b', hs', hc'⟩
    · exact ha
    · rw [hs, Option.some.injEq] at hs'
      subst hs'
      exact hb c hc'

theorem stuck_iff (hs : step a = none) : Always step P a ↔ P a := by
  constructor
  · exact fun h => h a (Reaches.refl a)
  · intro ha c hc
    rcases hc.cases_head with rfl | ⟨b, hs', -⟩
    · exact ha
    · rw [hs] at hs'; exact absurd hs' (by simp)

end Always

/-! ## Machines driven by events -/

/-- Some sequence of events takes `a` to `b`: a run in which anything may happen next. -/
def Driven (step : ε → σ → Option σ) : σ → σ → Prop :=
  Relation.ReflTransGen fun a b => ∃ e, step e a = some b

/-- The state behind a list of events, if each of them can happen. -/
def afterEvents (step : ε → σ → Option σ) : List ε → σ → Option σ
  | [], a => some a
  | e :: es, a => (step e a).bind (afterEvents step es)

namespace Driven

variable {step : ε → σ → Option σ} {a b c : σ} {e : ε}

theorem refl (a : σ) : Driven step a a := Relation.ReflTransGen.refl

theorem trans (h : Driven step a b) (h' : Driven step b c) : Driven step a c :=
  Relation.ReflTransGen.trans h h'

theorem head (h : step e a = some b) (h' : Driven step b c) : Driven step a c :=
  Relation.ReflTransGen.head ⟨e, h⟩ h'

theorem single (h : step e a = some b) : Driven step a b := head h (refl b)

/-- The last event of a run. -/
theorem cases_tail (h : Driven step a c) : a = c ∨ ∃ b e, Driven step a b ∧ step e b = some c := by
  rcases Relation.ReflTransGen.cases_tail h with heq | ⟨b, hrun, e, he⟩
  · exact Or.inl heq.symm
  · exact Or.inr ⟨b, e, hrun, he⟩

/-- A list of events that can all happen is a run. -/
theorem of_events {es : List ε} (h : afterEvents step es a = some b) : Driven step a b := by
  induction es generalizing a with
  | nil =>
    obtain rfl := Option.some.inj h
    exact refl a
  | cons e es ih =>
    obtain ⟨s, hs, hrest⟩ := Option.bind_eq_some_iff.mp h
    exact head hs (ih hrest)

/-- **The run rule**, under every event. -/
theorem inv {P : σ → Prop} (h : Driven step a b) (h0 : P a)
    (hstep : ∀ e s s', P s → step e s = some s' → P s') : P b := by
  induction h with
  | refl => exact h0
  | tail _ hs ih =>
    obtain ⟨e, he⟩ := hs
    exact hstep e _ _ ih he

end Driven

end StockCharts
