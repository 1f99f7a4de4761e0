import Mathlib.Tactic.Positivity
import StockCharts.Lib.Rescale
import StockCharts.Normalize

/-!
# The normalised column is a canonical form

Each iteration of the normalisation loop reads one column and writes it back. `normColumn` is that
iteration on the column alone, and the one fact about it is that it is a canonical form of
`Rescaled`: it changes the unit and the origin of a column and nothing else, and it comes out the
same whatever unit and origin the column was in. A column that does not vary has no unit to
change, and is moved to `50`.

For the whole window the same holds with one rescaling for each column. So a chart shows the shape
of the four columns, each by itself, and no relation between them (`normalise_eq_iff`).
-/

set_option autoImplicit false

namespace StockCharts

open Flt (fin)

/-- The new `window[col]`. -/
def normColumn (col : List Price) : List Price := col.map (normCell col)

theorem column_normaliseCol (w : List Row) (col : Col) :
    column (normaliseCol w col) col = normColumn (column w col) := by
  simp [column, normaliseCol, normColumn]

theorem column_normalise (w : List Row) (c : Col) :
    column (normalise w) c = normColumn (column w c) := by
  rw [normalise_eq_map]
  simp [column, normColumn]

/-! ## A column of numbers -/

def Constant (xs : List ℚ) : Prop := ∀ x ∈ xs, ∀ y ∈ xs, x = y

section Column

variable {xs : List ℚ} {m M : ℚ}

theorem constant_iff (hm : IsLeast {x | x ∈ xs} m) (hM : IsGreatest {x | x ∈ xs} M) :
    Constant xs ↔ m = M := by
  constructor
  · intro h
    exact h m hm.1 M hM.1
  · intro h x hx y hy
    subst h
    have hpoint : ∀ z ∈ xs, z = m := fun z hz => le_antisymm (hM.2 hz) (hm.2 hz)
    rw [hpoint x hx, hpoint y hy]

theorem lt_of_not_constant (hm : IsLeast {x | x ∈ xs} m) (hM : IsGreatest {x | x ∈ xs} M)
    (h : ¬ Constant xs) : m < M :=
  lt_of_le_of_ne (hm.2 hM.1) fun heq => h ((constant_iff hm hM).mpr heq)

theorem normColumn_fin (hm : IsLeast {x | x ∈ xs} m) (hM : IsGreatest {x | x ∈ xs} M) :
    normColumn (xs.map fin) = (xs.map (normQ m M)).map fin := by
  rw [normColumn, List.map_map, List.map_map]
  exact List.map_congr_left fun x _ => normCell_fin hm hM x

theorem exists_of_mem_normColumn (hm : IsLeast {x | x ∈ xs} m) (hM : IsGreatest {x | x ∈ xs} M)
    {y : Price} (hy : y ∈ normColumn (xs.map fin)) : ∃ x ∈ xs, y = fin (normQ m M x) := by
  rw [normColumn_fin hm hM, List.map_map] at hy
  obtain ⟨x, hx, rfl⟩ := List.mem_map.mp hy
  exact ⟨x, hx, rfl⟩

theorem normColumn_affine {a : ℚ} (ha : 0 < a) (b : ℚ) (xs : List ℚ) :
    normColumn ((xs.map fun x => a * x + b).map fin) = normColumn (xs.map fin) := by
  by_cases hne : xs = []
  · rw [hne]
    rfl
  have hcell := normCell_affine ha b xs hne
  simp only [normColumn, List.map_map] at hcell ⊢
  exact List.map_congr_left fun x _ => hcell x

/-- Normalising is a rescaling. A column that varies is stretched onto `0 … 100`; one that does not
keeps its unit, and `50` becomes its only value. -/
theorem exists_rescaling (xs : List ℚ) : ∃ a b : ℚ, 0 < a ∧
    normColumn (xs.map fin) = (xs.map fun x => a * x + b).map fin := by
  by_cases hne : xs = []
  · exact ⟨1, 0, one_pos, by rw [hne]; rfl⟩
  obtain ⟨m, M, hm, hM⟩ := Flt.exists_extremes xs hne
  rw [normColumn_fin hm hM]
  rcases (hm.2 hM.1).lt_or_eq with hlt | heq
  · have hrange : 0 < M - m := sub_pos.mpr hlt
    refine ⟨100 / (M - m), -(m * (100 / (M - m))), by positivity, ?_⟩
    congr 1
    refine List.map_congr_left fun x _ => ?_
    rw [normQ_of_lt hlt]
    ring
  · subst heq
    refine ⟨1, 50 - m, one_pos, ?_⟩
    congr 1
    refine List.map_congr_left fun x hx => ?_
    have hx' : x = m := le_antisymm (hM.2 hx) (hm.2 hx)
    rw [normQ_const, hx']
    ring

theorem normColumn_canonicalOn : CanonicalOn Rescaled (List.map fin) normColumn where
  rel xs := by
    obtain ⟨a, b, ha, heq⟩ := exists_rescaling xs
    exact ⟨_, heq, a, b, ha, rfl⟩
  congr := by
    rintro xs _ ⟨a, b, ha, rfl⟩
    exact (normColumn_affine ha b xs).symm

/-- What the loop makes of a column is on a scale of its own, `0 … 100`, in the order the column was
in, and on the same one for every column of that shape. Each cell goes to its `normCell`, and
`normColumn` of them is what stands in the column behind its iteration, and behind the loop. -/
structure CanonicalColumn (xs : List ℚ) : Prop where
  cells : normColumn (xs.map fin) = xs.map fun x => normCell (xs.map fin) (fin x)
  iteration : ∀ (w : List Row) (c : Col), column w c = xs.map fin →
    column (normaliseCol w c) c = normColumn (xs.map fin)
  loop : ∀ (w : List Row) (c : Col), column w c = xs.map fin →
    column (normalise w) c = normColumn (xs.map fin)
  in_range : ∀ y ∈ normColumn (xs.map fin), fin 0 ≤ y ∧ y ≤ fin 100
  ends : ¬ Constant xs → ∃ m M, IsLeast {x | x ∈ xs} m ∧ IsGreatest {x | x ∈ xs} M ∧
    normCell (xs.map fin) (fin m) = fin 0 ∧ normCell (xs.map fin) (fin M) = fin 100
  order : ¬ Constant xs → ∀ x ∈ xs, ∀ y ∈ xs,
    (x < y ↔ normCell (xs.map fin) (fin x) < normCell (xs.map fin) (fin y))
  level : Constant xs → ∀ y ∈ normColumn (xs.map fin), y = fin 50
  idem : normColumn (normColumn (xs.map fin)) = normColumn (xs.map fin)
  again : ∀ (w : List Row) (c : Col), column w c = xs.map fin →
    column (normaliseCol (normaliseCol w c) c) c = column (normaliseCol w c) c
  affine : ∀ a b : ℚ, 0 < a →
    normColumn ((xs.map fun x => a * x + b).map fin) = normColumn (xs.map fin)

/-- **Normalising a column of numbers gives it a canonical form.** -/
theorem canonicalColumn (xs : List ℚ) (hne : xs ≠ []) : CanonicalColumn xs := by
  obtain ⟨m, M, hm, hM⟩ := Flt.exists_extremes xs hne
  have hcell := normCell_fin hm hM
  constructor
  case cells => rw [normColumn, List.map_map]; rfl
  case iteration =>
    intro w c hw
    rw [column_normaliseCol, hw]
  case loop =>
    intro w c hw
    rw [column_normalise, hw]
  case in_range =>
    intro y hy
    obtain ⟨x, hx, rfl⟩ := exists_of_mem_normColumn hm hM hy
    exact normQ_mem_range (hm.2 hx) (hM.2 hx)
  case ends =>
    intro hvar
    have hlt := lt_of_not_constant hm hM hvar
    refine ⟨m, M, hm, hM, ?_, ?_⟩
    · rw [hcell, normQ_min hlt]
    · rw [hcell, normQ_max hlt]
  case order =>
    intro hvar x _ y _
    have hlt := lt_of_not_constant hm hM hvar
    rw [hcell, hcell, Flt.fin_lt_fin, normQ_lt_normQ_iff hlt]
  case level =>
    intro hconst y hy
    obtain ⟨x, -, rfl⟩ := exists_of_mem_normColumn hm hM hy
    rw [(constant_iff hm hM).mp hconst, normQ_const]
  case idem => exact normColumn_canonicalOn.idem xs
  case again =>
    intro w c hw
    rw [column_normaliseCol, column_normaliseCol, hw]
    exact normColumn_canonicalOn.idem xs
  case affine => exact fun a b ha => normColumn_affine ha b xs

theorem canonicalColumn_three : CanonicalColumn [3, 1, 2] :=
  canonicalColumn [3, 1, 2] (List.cons_ne_nil 3 [1, 2])

end Column

/-! ## The whole window -/

/-- Each column of the one window is a rescaling of the same column of the other. -/
def SameShape (w w' : List (Col → ℚ)) : Prop :=
  ∀ c, Rescaled (w.map fun r => r c) (w'.map fun r => r c)

theorem SameShape.equivalence : Equivalence SameShape :=
  ⟨fun _ _ => .refl _, fun h c => (h c).symm, fun h h' c => (h c).trans (h' c)⟩

theorem ratRow_injective : Function.Injective ratRow := by
  intro r r' h
  funext c
  exact Flt.fin.inj (congrFun h c)

/-- A window is its four columns. -/
theorem ext_column : ∀ {w w' : List Row}, (∀ c, column w c = column w' c) → w = w'
  | [], [], _ => rfl
  | [], _ :: _, h => by simpa [column] using h .Open
  | _ :: _, [], h => by simpa [column] using h .Open
  | r :: w, r' :: w', h => by
    have hcells : ∀ c, r c = r' c ∧ column w c = column w' c := fun c => List.cons.inj (h c)
    have hrow : r = r' := funext fun c => (hcells c).1
    rw [hrow, ext_column fun c => (hcells c).2]

theorem normalise_canonicalOn : CanonicalOn SameShape (List.map ratRow) normalise where
  rel w := by
    choose a b ha hcol using fun c => exists_rescaling (w.map fun r => r c)
    refine ⟨w.map fun r c => a c * r c + b c, ext_column fun c => ?_, fun c => ?_⟩
    · rw [column_normalise, column_ratRow, column_ratRow, hcol]
      simp [Function.comp_def]
    · exact ⟨a c, b c, ha c, by simp [Function.comp_def]⟩
  congr := by
    intro w w' h
    refine ext_column fun c => ?_
    rw [column_normalise, column_normalise, column_ratRow, column_ratRow]
    exact normColumn_canonicalOn.congr (h c)

theorem normalise_scale {k : ℚ} (hk : 0 < k) (w : List (Col → ℚ)) :
    normalise (w.map fun r => ratRow fun c => k * r c) = normalise (w.map ratRow) := by
  have hshape : SameShape w (w.map fun r c => k * r c) := fun c =>
    ⟨k, 0, hk, by simp [Function.comp_def]⟩
  rw [normalise_canonicalOn.congr hshape, List.map_map]
  rfl

/-- **Two windows come out as one chart exactly when they have the same shape**: the same prices are
drawn if and only if each column of the one is a rescaling of that column of the other. How the
columns stand to each other is lost. -/
theorem normalise_eq_iff (w w' : List (Col → ℚ)) :
    normalise (w.map ratRow) = normalise (w'.map ratRow) ↔ SameShape w w' :=
  normalise_canonicalOn.eq_iff SameShape.equivalence (List.map_injective_iff.mpr ratRow_injective)

end StockCharts
