import Mathlib.Data.List.Perm.Basic

/-!
# A shuffled list cut in two

`order.take k` and `order.drop k`, for some order of a list. The one question is which orders there
are: **some order keeps one kind of element out of the first part and another kind out of the
second** exactly when each kind fits into the part that is left to it (`exists_cut_iff`).
-/

set_option autoImplicit false

namespace StockCharts

variable {α : Type} {l order : List α} {p q : α → Bool} {k : ℕ}

theorem countP_le_of_take (h : ∀ x ∈ order.take k, p x = false) :
    order.countP p ≤ order.length - k := by
  have hnone : (order.take k).countP p = 0 := by
    rw [List.countP_eq_zero]
    intro x hx
    rw [h x hx]
    exact Bool.false_ne_true
  rw [← List.take_append_drop k order, List.countP_append, hnone, Nat.zero_add,
    List.take_append_drop, ← List.length_drop]
  exact List.countP_le_length

theorem countP_le_of_drop (h : ∀ x ∈ order.drop k, q x = false) : order.countP q ≤ k := by
  have hnone : (order.drop k).countP q = 0 := by
    rw [List.countP_eq_zero]
    intro x hx
    rw [h x hx]
    exact Bool.false_ne_true
  rw [← List.take_append_drop k order, List.countP_append, hnone, Nat.add_zero]
  exact Nat.le_trans List.countP_le_length (List.length_take_le k order)

/-- The elements of one kind first, those of the other last. -/
def endsFirst (p q : α → Bool) (l : List α) : List α :=
  l.filter q ++ ((l.filter fun x => !q x).filter (fun x => !p x) ++
    (l.filter fun x => !q x).filter p)

theorem perm_endsFirst (p q : α → Bool) (l : List α) : (endsFirst p q l).Perm l :=
  (List.Perm.append_left _ (List.perm_append_comm.trans (List.filter_append_perm p _))).trans
    (List.filter_append_perm q l)

/-- **Some order of the list keeps `p` out of the first part and `q` out of the second** exactly
when each fits into the other part. -/
theorem exists_cut_iff (hpq : ∀ x ∈ l, p x = true → q x = false) (hk : k ≤ l.length) :
    (∃ order : List α, order.Perm l ∧ (∀ x ∈ order.take k, p x = false) ∧
        ∀ x ∈ order.drop k, q x = false) ↔
      l.countP p ≤ l.length - k ∧ l.countP q ≤ k := by
  constructor
  · rintro ⟨order, hperm, htake, hdrop⟩
    rw [← hperm.countP_eq p, ← hperm.countP_eq q, ← hperm.length_eq]
    exact ⟨countP_le_of_take htake, countP_le_of_drop hdrop⟩
  · rintro ⟨hp, hq⟩
    refine ⟨endsFirst p q l, perm_endsFirst p q l, ?_, ?_⟩
    · -- the first part stops in front of the elements of `p`
      have hlen : ((l.filter fun x => !q x).filter p).length = l.countP p := by
        rw [List.filter_filter, ← List.countP_eq_length_filter]
        refine List.countP_congr fun x hx => ?_
        by_cases hpx : p x = true
        · simp [hpx, hpq x hx hpx]
        · simp [hpx]
      have hfront : k ≤ (l.filter q ++ (l.filter fun x => !q x).filter fun x => !p x).length := by
        have hall := (perm_endsFirst p q l).length_eq
        rw [endsFirst, ← List.append_assoc, List.length_append, hlen] at hall
        omega
      intro x hx
      rw [endsFirst, ← List.append_assoc, List.take_append_of_le_length hfront] at hx
      rcases List.mem_append.mp (List.mem_of_mem_take hx) with hx | hx
      · have hqx := (List.mem_filter.mp hx).2
        by_contra hpx
        rw [hpq x (List.mem_of_mem_filter hx) (eq_true_of_ne_false hpx)] at hqx
        exact Bool.false_ne_true hqx
      · simpa using (List.mem_filter.mp hx).2
    · -- the second part starts behind the elements of `q`
      have hback : (l.filter q).length ≤ k := by
        rwa [← List.countP_eq_length_filter]
      intro x hx
      rw [endsFirst, List.drop_append, List.drop_eq_nil_of_le hback, List.nil_append] at hx
      have hrest : ∀ y ∈ (l.filter fun x => !q x), q y = false := by
        intro y hy
        simpa using (List.mem_filter.mp hy).2
      rcases List.mem_append.mp (List.mem_of_mem_drop hx) with hx | hx
      · exact hrest x (List.mem_of_mem_filter hx)
      · exact hrest x (List.mem_of_mem_filter hx)

end StockCharts
