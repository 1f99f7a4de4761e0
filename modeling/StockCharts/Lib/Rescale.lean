import Mathlib.Algebra.Order.Field.Basic
import Mathlib.Tactic.Ring

/-!
# Columns up to unit and origin

A column of numbers can be read in another unit and counted from another origin: `x ↦ a * x + b`
with `a > 0`, one map for all its entries. `Rescaled` relates the two columns. It is an equivalence,
and what it leaves alone is the *shape* of the column.

A function that brings columns to a standard scale is right when it is a **canonical form** of that
equivalence: what it answers is a rescaling of what it is given, and rescalings of each other get
one answer. Nothing else has to be proved of it. That it changes nothing the second time
(`CanonicalOn.idem`) and that it tells apart all columns of different shape (`CanonicalOn.eq_iff`)
both follow, and they follow for any equivalence. The values a program computes with may be more
than the numbers, so `CanonicalOn` is asked only of those an embedding `e` reaches.
-/

set_option autoImplicit false

namespace StockCharts

/-! ## Canonical forms -/

section Canonical

variable {α β : Type} {r : α → α → Prop} {e : α → β} {F : β → β} {x y : α}

/-- On the values that `e` embeds, `F` answers with one member of each class of `r`. -/
structure CanonicalOn (r : α → α → Prop) (e : α → β) (F : β → β) : Prop where
  rel : ∀ x, ∃ y, F (e x) = e y ∧ r x y
  congr : ∀ {x y}, r x y → F (e x) = F (e y)

/-- A canonical form is its own. -/
theorem CanonicalOn.idem (h : CanonicalOn r e F) (x : α) : F (F (e x)) = F (e x) := by
  obtain ⟨y, hy, hxy⟩ := h.rel x
  calc F (F (e x)) = F (e y) := by rw [hy]
    _ = F (e x) := (h.congr hxy).symm

/-- Two have one canonical form exactly when they are related. -/
theorem CanonicalOn.eq_iff (h : CanonicalOn r e F) (hr : Equivalence r)
    (he : Function.Injective e) : F (e x) = F (e y) ↔ r x y := by
  constructor
  · intro heq
    obtain ⟨x', hx', hxx'⟩ := h.rel x
    obtain ⟨y', hy', hyy'⟩ := h.rel y
    have hsame : x' = y' := he (by rw [← hx', ← hy', heq])
    subst hsame
    exact hr.trans hxx' (hr.symm hyy')
  · exact h.congr

end Canonical

/-! ## Rescalings -/

section Rescale

variable {K : Type} [Field K] [LinearOrder K] [IsStrictOrderedRing K] {xs ys zs : List K}

/-- `ys` is `xs` in another unit and from another origin. -/
def Rescaled (xs ys : List K) : Prop :=
  ∃ a b : K, 0 < a ∧ ys = xs.map fun x => a * x + b

namespace Rescaled

theorem refl (xs : List K) : Rescaled xs xs := ⟨1, 0, one_pos, by simp⟩

theorem symm (h : Rescaled xs ys) : Rescaled ys xs := by
  obtain ⟨a, b, ha, rfl⟩ := h
  refine ⟨a⁻¹, -(a⁻¹ * b), inv_pos.mpr ha, ?_⟩
  have hback : ∀ x : K, a⁻¹ * (a * x + b) + -(a⁻¹ * b) = x := fun x => by
    rw [mul_add, inv_mul_cancel_left₀ ha.ne', add_neg_cancel_right]
  simp [Function.comp_def, hback]

theorem trans (h : Rescaled xs ys) (h' : Rescaled ys zs) : Rescaled xs zs := by
  obtain ⟨a, b, ha, rfl⟩ := h
  obtain ⟨a', b', ha', rfl⟩ := h'
  refine ⟨a' * a, a' * b + b', mul_pos ha' ha, ?_⟩
  rw [List.map_map]
  refine List.map_congr_left fun x _ => ?_
  show a' * (a * x + b) + b' = a' * a * x + (a' * b + b')
  ring

theorem equivalence : Equivalence (Rescaled : List K → List K → Prop) := ⟨refl, symm, trans⟩

end Rescaled

end Rescale
end StockCharts
