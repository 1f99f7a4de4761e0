import Mathlib.Algebra.Order.Field.Basic
import Mathlib.Algebra.Order.Group.Abs
import Mathlib.Order.Bounds.Image

/-!
# `Flt` — floating-point arithmetic over an exact field

The values a numerical script computes with: the numbers of an ordered field, the two
infinities and *not a number*. Rounding is idealised away (`fin x + fin y` would be the exact
sum), and everything else is kept: a division by zero does not stop a program but answers an
infinity or `nan`, every comparison with `nan` is false, and the extremes of a column **skip**
`nan` and answer it only when there is nothing else. The zero is unsigned.

Two families of facts are what a proof above this file uses:

* the `fin` lemmas, which say that on numbers the operations are the field's own;
* the `nan` lemmas, which say how a missing value travels.
-/

set_option autoImplicit false

namespace StockCharts

/-- A number of the field `K`, an infinity, or not a number. -/
inductive Flt (K : Type) where
  | nan
  | negInf
  | fin (x : K)
  | posInf
  deriving DecidableEq, Repr

namespace Flt

variable {K : Type}

/-! ## Operations -/

section Operations

variable [Field K]

def sub : Flt K → Flt K → Flt K
  | .fin x, .fin y => .fin (x - y)
  | .posInf, .fin _ | .posInf, .negInf | .fin _, .negInf => .posInf
  | .negInf, .fin _ | .negInf, .posInf | .fin _, .posInf => .negInf
  | _, _ => .nan

instance : Sub (Flt K) := ⟨sub⟩

variable [LinearOrder K]

/-- The infinity of a number's sign, and `nan` for zero. -/
def infOfSign (x : K) : Flt K :=
  if x = 0 then .nan else if 0 < x then .posInf else .negInf

def mul : Flt K → Flt K → Flt K
  | .fin x, .fin y => .fin (x * y)
  | .posInf, .fin y | .fin y, .posInf => infOfSign y
  | .negInf, .fin y | .fin y, .negInf => infOfSign (-y)
  | .posInf, .posInf | .negInf, .negInf => .posInf
  | .posInf, .negInf | .negInf, .posInf => .negInf
  | _, _ => .nan

/-- Division. A number over zero is the infinity of its sign, and zero over zero is `nan`. -/
def div : Flt K → Flt K → Flt K
  | .fin x, .fin y => if y = 0 then infOfSign x else .fin (x / y)
  | .fin _, .posInf | .fin _, .negInf => .fin 0
  | .posInf, .fin y => if y < 0 then .negInf else .posInf
  | .negInf, .fin y => if y < 0 then .posInf else .negInf
  | _, _ => .nan

def abs : Flt K → Flt K
  | .nan => .nan
  | .fin x => .fin |x|
  | .negInf | .posInf => .posInf

instance : Mul (Flt K) := ⟨mul⟩
instance : Div (Flt K) := ⟨div⟩

/-! ### On numbers they are the field's own -/

omit [LinearOrder K] in
@[simp] theorem fin_sub_fin (x y : K) : (fin x - fin y : Flt K) = fin (x - y) := rfl

@[simp] theorem fin_mul_fin (x y : K) : (fin x * fin y : Flt K) = fin (x * y) := rfl

@[simp] theorem fin_div_fin {x y : K} (hy : y ≠ 0) : (fin x / fin y : Flt K) = fin (x / y) :=
  if_neg hy

@[simp] theorem abs_fin (x : K) : abs (fin x : Flt K) = fin |x| := rfl

/-! ### A missing operand makes a missing result -/

omit [LinearOrder K] in
@[simp] theorem nan_sub (a : Flt K) : (nan - a : Flt K) = nan := by cases a <;> rfl

omit [LinearOrder K] in
@[simp] theorem sub_nan (a : Flt K) : (a - nan : Flt K) = nan := by cases a <;> rfl

@[simp] theorem nan_div (a : Flt K) : (nan / a : Flt K) = nan := by cases a <;> rfl

@[simp] theorem div_nan (a : Flt K) : (a / nan : Flt K) = nan := by cases a <;> rfl

@[simp] theorem abs_nan : abs (nan : Flt K) = nan := rfl

end Operations

/-! ## Order

Both comparisons are false as soon as one side is `nan`, so `≤` is not reflexive and the two
do not make an order; only on numbers do they. -/

section Order

variable [LinearOrder K]

def lt : Flt K → Flt K → Prop
  | .fin x, .fin y => x < y
  | .negInf, .fin _ | .negInf, .posInf | .fin _, .posInf => True
  | _, _ => False

def le : Flt K → Flt K → Prop
  | .fin x, .fin y => x ≤ y
  | .negInf, .negInf | .negInf, .fin _ | .negInf, .posInf => True
  | .fin _, .posInf | .posInf, .posInf => True
  | _, _ => False

instance : LT (Flt K) := ⟨lt⟩
instance : LE (Flt K) := ⟨le⟩

instance decLt : ∀ a b : Flt K, Decidable (a < b)
  | .fin x, .fin y => inferInstanceAs (Decidable (x < y))
  | .negInf, .fin _ | .negInf, .posInf | .fin _, .posInf => isTrue trivial
  | .nan, _ | .posInf, .nan | .posInf, .negInf | .posInf, .fin _ | .posInf, .posInf
  | .negInf, .nan | .negInf, .negInf | .fin _, .nan | .fin _, .negInf => isFalse id

instance decLe : ∀ a b : Flt K, Decidable (a ≤ b)
  | .fin x, .fin y => inferInstanceAs (Decidable (x ≤ y))
  | .negInf, .negInf | .negInf, .fin _ | .negInf, .posInf => isTrue trivial
  | .fin _, .posInf | .posInf, .posInf => isTrue trivial
  | .nan, _ | .posInf, .nan | .posInf, .negInf | .posInf, .fin _
  | .negInf, .nan | .fin _, .nan | .fin _, .negInf => isFalse id

@[simp] theorem fin_lt_fin {x y : K} : (fin x : Flt K) < fin y ↔ x < y := Iff.rfl

@[simp] theorem fin_le_fin {x y : K} : (fin x : Flt K) ≤ fin y ↔ x ≤ y := Iff.rfl

@[simp] theorem not_nan_lt (a : Flt K) : ¬ (nan : Flt K) < a := by cases a <;> exact id

@[simp] theorem not_lt_nan (a : Flt K) : ¬ a < (nan : Flt K) := by cases a <;> exact id

/-! ## The extremes of a column

`max` and `min` are one fold at the two strict comparisons, and what is proved of the fold is
proved of both. -/

/-- The better of two cells, `nan` counting as absent; the first one on a tie. -/
def pickSkip (better : Flt K → Flt K → Prop) [DecidableRel better] : Flt K → Flt K → Flt K
  | .nan, b => b
  | a, .nan => a
  | a, b => if better b a then b else a

/-- The best cell of a column that is not `nan`, and `nan` when there is none. -/
def best (better : Flt K → Flt K → Prop) [DecidableRel better] (xs : List (Flt K)) : Flt K :=
  xs.foldr (pickSkip better) nan

def max (xs : List (Flt K)) : Flt K := best (fun b a => a < b) xs

def min (xs : List (Flt K)) : Flt K := best (fun b a => b < a) xs

omit [LinearOrder K] in
theorem best_of_all_nan (better : Flt K → Flt K → Prop) [DecidableRel better]
    {xs : List (Flt K)} (h : ∀ x ∈ xs, x = nan) : best better xs = nan := by
  induction xs with
  | nil => rfl
  | cons x xs ih =>
    have hx : x = nan := h x List.mem_cons_self
    have hxs : best better xs = nan := ih fun y hy => h y (List.mem_cons_of_mem _ hy)
    rw [hx]
    exact hxs

theorem max_of_all_nan {xs : List (Flt K)} (h : ∀ x ∈ xs, x = nan) : max xs = nan :=
  best_of_all_nan _ h

theorem min_of_all_nan {xs : List (Flt K)} (h : ∀ x ∈ xs, x = nan) : min xs = nan :=
  best_of_all_nan _ h

omit [LinearOrder K] in
/-- On a nonempty column of numbers the fold answers one of them, and none of them is better.
The induction is on the column; the two hypotheses are what a strict order gives, in the form
the two branches of `pickSkip` spend them. -/
theorem exists_best_fin (better : Flt K → Flt K → Prop) [DecidableRel better]
    (hasymm : ∀ x y : K, better (fin x) (fin y) → ¬ better (fin y) (fin x))
    (htrans : ∀ x y z : K, ¬ better (fin x) (fin y) → ¬ better (fin y) (fin z) →
      ¬ better (fin x) (fin z)) :
    ∀ xs : List K, xs ≠ [] →
      ∃ m ∈ xs, best better (xs.map fin) = fin m ∧ ∀ x ∈ xs, ¬ better (fin x) (fin m)
  | [], hne => absurd rfl hne
  | [x], _ => ⟨x, by simp, rfl, by simpa using fun h => hasymm x x h h⟩
  | x :: y :: ys, _ => by
    obtain ⟨m, hmem, hm, hall⟩ := exists_best_fin better hasymm htrans (y :: ys) (by simp)
    have hstep : best better ((x :: y :: ys).map fin) =
        if better (fin m) (fin x) then fin m else fin x := by
      show pickSkip better (fin x) (best better ((y :: ys).map fin)) = _
      rw [hm]
      rfl
    by_cases hb : better (fin m) (fin x)
    · refine ⟨m, List.mem_cons_of_mem _ hmem, by rw [hstep, if_pos hb], fun z hz => ?_⟩
      rcases List.mem_cons.mp hz with rfl | hz
      · exact hasymm _ _ hb
      · exact hall z hz
    · refine ⟨x, List.mem_cons_self, by rw [hstep, if_neg hb], fun z hz => ?_⟩
      rcases List.mem_cons.mp hz with rfl | hz
      · exact fun h => hasymm _ _ h h
      · exact htrans _ _ _ (hall z hz) hb

theorem exists_max_fin (xs : List K) (hne : xs ≠ []) :
    ∃ m, max (xs.map fin) = fin m ∧ IsGreatest {x | x ∈ xs} m := by
  obtain ⟨m, hmem, hm, hall⟩ := exists_best_fin (fun b a : Flt K => a < b)
    (fun _ _ => lt_asymm) (fun _ _ _ h1 h2 => not_lt.mpr ((not_lt.mp h1).trans (not_lt.mp h2)))
    xs hne
  exact ⟨m, hm, hmem, fun x hx => not_lt.mp (hall x hx)⟩

theorem exists_min_fin (xs : List K) (hne : xs ≠ []) :
    ∃ m, min (xs.map fin) = fin m ∧ IsLeast {x | x ∈ xs} m := by
  obtain ⟨m, hmem, hm, hall⟩ := exists_best_fin (fun b a : Flt K => b < a)
    (fun _ _ => lt_asymm) (fun _ _ _ h1 h2 => not_lt.mpr ((not_lt.mp h2).trans (not_lt.mp h1)))
    xs hne
  exact ⟨m, hm, hmem, fun x hx => not_lt.mp (hall x hx)⟩

/-- **`max` of a column of numbers, read off its order.** `IsGreatest` determines the value, so
this is the form a scaling argument transports. -/
theorem max_fin {xs : List K} {m : K} (h : IsGreatest {x | x ∈ xs} m) :
    max (xs.map fin) = fin m := by
  obtain ⟨m', hm', hg⟩ := exists_max_fin xs (List.ne_nil_of_mem h.1)
  rw [hm', hg.unique h]

theorem min_fin {xs : List K} {m : K} (h : IsLeast {x | x ∈ xs} m) :
    min (xs.map fin) = fin m := by
  obtain ⟨m', hm', hl⟩ := exists_min_fin xs (List.ne_nil_of_mem h.1)
  rw [hm', hl.unique h]

theorem exists_extremes (xs : List K) (hne : xs ≠ []) :
    ∃ m M, IsLeast {x | x ∈ xs} m ∧ IsGreatest {x | x ∈ xs} M := by
  obtain ⟨m, -, hm⟩ := exists_min_fin xs hne
  obtain ⟨M, -, hM⟩ := exists_max_fin xs hne
  exact ⟨m, M, hm, hM⟩

/-! ### Extremes under a monotone map -/

omit [LinearOrder K] in
theorem setOf_mem_map (f : K → K) (xs : List K) :
    {x | x ∈ xs.map f} = f '' {x | x ∈ xs} := Set.ext fun _ => List.mem_map

omit [LinearOrder K] in
theorem isGreatest_map [Preorder K] {f : K → K} (hf : Monotone f) {xs : List K} {m : K}
    (h : IsGreatest {x | x ∈ xs} m) : IsGreatest {x | x ∈ xs.map f} (f m) := by
  rw [setOf_mem_map]
  exact hf.map_isGreatest h

omit [LinearOrder K] in
theorem isLeast_map [Preorder K] {f : K → K} (hf : Monotone f) {xs : List K} {m : K}
    (h : IsLeast {x | x ∈ xs} m) : IsLeast {x | x ∈ xs.map f} (f m) := by
  rw [setOf_mem_map]
  exact hf.map_isLeast h

end Order

end Flt
end StockCharts
