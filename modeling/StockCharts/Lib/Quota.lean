import Mathlib.Algebra.Order.BigOperators.Group.List
import Mathlib.Data.List.Count
import Mathlib.Tactic.Common
import StockCharts.Lib.Loop

/-!
# Filling quotas from a stream of offers

A **store** has one counter per class and the list of items it kept. An **offer** is an item with
its class and the outcome of the attempt to keep it, which may raise. `take` is one attempt under
a quota `T`: an offer of a class that has its quota is passed over, any other is attempted, and an
attempt that lands counts and keeps the item.

Offers come in **batches**: inside a batch a raise costs the rest of the batch, and a batch is left
as soon as all of *its* classes are full. This file is about one batch; `Lib/Batches.lean` runs a
list of them.

A proof about `fill` is an induction on the offers with one case per way `take` can go, and those
are `fill_closed`, `fill_keep` and `fill_raise`.
-/

set_option autoImplicit false

namespace StockCharts

/-- Counters by class, and the items kept so far, oldest first. -/
structure Store (κ ι : Type) where
  counts : κ → ℕ
  kept : List ι

structure Offer (κ ι ε : Type) where
  cls : κ
  item : ι
  outcome : Except ε Unit

/-- The offers made together, all of them of the batch's own classes. -/
structure Batch (κ ι ε : Type) where
  classes : List κ
  offers : List (Offer κ ι ε)
  cls_mem : ∀ o ∈ offers, o.cls ∈ classes

variable {κ ι ε : Type}

namespace Store

def empty : Store κ ι := ⟨fun _ => 0, []⟩

variable [DecidableEq κ]

def keep (s : Store κ ι) (k : κ) (x : ι) : Store κ ι :=
  { counts := Function.update s.counts k (s.counts k + 1), kept := s.kept ++ [x] }

@[simp] theorem keep_kept (s : Store κ ι) (k : κ) (x : ι) : (s.keep k x).kept = s.kept ++ [x] :=
  rfl

/-- Keeping an item counts it for its class and for no other. -/
theorem keep_counts (s : Store κ ι) (k k' : κ) (x : ι) :
    (s.keep k x).counts k' = s.counts k' + if k' = k then 1 else 0 := by
  by_cases h : k' = k
  · subst h; simp [keep]
  · simp [keep, h]

@[simp] theorem keep_counts_self (s : Store κ ι) (k : κ) (x : ι) :
    (s.keep k x).counts k = s.counts k + 1 := by simp [keep]

end Store

namespace Offer

def lands (o : Offer κ ι ε) : Bool :=
  match o.outcome with
  | .ok _ => true
  | .error _ => false

variable [DecidableEq κ]

def take (T : ℕ) (o : Offer κ ι ε) (s : Store κ ι) : Except ε (Store κ ι) :=
  if T ≤ s.counts o.cls then .ok s else o.outcome.map fun _ => s.keep o.cls o.item

variable {T : ℕ} {o : Offer κ ι ε} {s s' : Store κ ι}

theorem take_closed (h : T ≤ s.counts o.cls) : o.take T s = .ok s := if_pos h

theorem take_lands (h : s.counts o.cls < T) (hl : o.lands = true) :
    o.take T s = .ok (s.keep o.cls o.item) := by
  rw [take, if_neg (not_le.mpr h)]
  unfold lands at hl
  split at hl
  · rename_i ho; rw [ho]; rfl
  · exact absurd hl (by simp)

/-- An attempt that raises has no store to go on with. -/
theorem take_raises (h : s.counts o.cls < T) (hl : o.lands = false) :
    ∃ e, o.take T s = .error e := by
  rw [take, if_neg (not_le.mpr h)]
  unfold lands at hl
  split at hl
  · exact absurd hl (by simp)
  · rename_i e ho; rw [ho]; exact ⟨e, rfl⟩

/-- **The ways an attempt completes.** An invariant of `fill` has these two cases to preserve. -/
theorem take_cases (h : o.take T s = .ok s') :
    (T ≤ s.counts o.cls ∧ s' = s) ∨
      (s.counts o.cls < T ∧ o.lands = true ∧ s' = s.keep o.cls o.item) := by
  by_cases hc : T ≤ s.counts o.cls
  · rw [take_closed hc, Except.ok.injEq] at h
    exact Or.inl ⟨hc, h.symm⟩
  · cases hl : o.lands with
    | true =>
      rw [take_lands (not_le.mp hc) hl, Except.ok.injEq] at h
      exact Or.inr ⟨not_le.mp hc, rfl, h.symm⟩
    | false =>
      obtain ⟨e, he⟩ := take_raises (not_le.mp hc) hl
      rw [he] at h
      exact absurd h (by simp)

end Offer

variable [DecidableEq κ] {T : ℕ} {cs : List κ} {o : Offer κ ι ε} {os : List (Offer κ ι ε)}
  {b : Batch κ ι ε} {bs : List (Batch κ ι ε)} {s s' : Store κ ι} {k : κ}

/-! ## One batch -/

def full (T : ℕ) (cs : List κ) (s : Store κ ι) : Bool := cs.all fun k => decide (T ≤ s.counts k)

omit [DecidableEq κ] in
theorem full_iff : full T cs s = true ↔ ∀ k ∈ cs, T ≤ s.counts k := by simp [full]

/-- A batch's loop: leave when all the classes are full, otherwise attempt the next offer. -/
def fill (T : ℕ) (cs : List κ) (os : List (Offer κ ι ε)) (s : Store κ ι) : Store κ ι :=
  forLoop (fun _ s => full T cs s) (Offer.take T) os s

@[simp] theorem fill_nil : fill T cs ([] : List (Offer κ ι ε)) s = s := rfl

/-- A batch whose classes are full is left at once. -/
theorem fill_of_full (h : full T cs s = true) : fill T cs os s = s := by
  cases os with
  | nil => rfl
  | cons o os => exact forLoop_stop h

/-- An offer of a full class is passed over. -/
theorem fill_closed (h : T ≤ s.counts o.cls) : fill T cs (o :: os) s = fill T cs os s := by
  cases hf : full T cs s with
  | true => rw [fill_of_full hf, fill_of_full hf]
  | false => exact forLoop_ok hf (Offer.take_closed h)

omit [DecidableEq κ] in
theorem full_eq_false (hmem : k ∈ cs) (h : s.counts k < T) : full T cs s = false := by
  by_contra hf
  exact absurd (full_iff.mp (eq_true_of_ne_false hf) k hmem) (not_le.mpr h)

/-- An offer that lands is kept, and the batch goes on. -/
theorem fill_keep (hmem : o.cls ∈ cs) (h : s.counts o.cls < T) (hl : o.lands = true) :
    fill T cs (o :: os) s = fill T cs os (s.keep o.cls o.item) :=
  forLoop_ok (full_eq_false hmem h) (Offer.take_lands h hl)

/-- An offer that raises ends the batch with the store in front of it. -/
theorem fill_raise (h : s.counts o.cls < T) (hl : o.lands = false) :
    fill T cs (o :: os) s = s := by
  cases hf : full T cs s with
  | true => exact fill_of_full hf
  | false =>
    obtain ⟨e, he⟩ := Offer.take_raises h hl
    exact forLoop_error hf he

/-! ### A store only grows -/

namespace Store

def Grows (s s' : Store κ ι) : Prop := (∀ k, s.counts k ≤ s'.counts k) ∧ s.kept <+: s'.kept

omit [DecidableEq κ] in
theorem Grows.refl (s : Store κ ι) : Grows s s := ⟨fun _ => le_rfl, List.prefix_rfl⟩

omit [DecidableEq κ] in
theorem Grows.trans {s₁ s₂ s₃ : Store κ ι} (h : Grows s₁ s₂) (h' : Grows s₂ s₃) :
    Grows s₁ s₃ := ⟨fun k => (h.1 k).trans (h'.1 k), h.2.trans h'.2⟩

theorem Grows.keep (s : Store κ ι) (k : κ) (x : ι) : Grows s (s.keep k x) :=
  ⟨fun k' => by rw [keep_counts]; omega, List.prefix_append _ _⟩

omit [DecidableEq κ] in
theorem Grows.mem {s s' : Store κ ι} (h : Grows s s') {x : ι} (hx : x ∈ s.kept) : x ∈ s'.kept :=
  h.2.subset hx

end Store

open Store (Grows)

/-- One attempt only adds. -/
theorem Offer.take_grows (h : o.take T s = .ok s') : Grows s s' := by
  rcases Offer.take_cases h with ⟨_, rfl⟩ | ⟨_, _, rfl⟩
  · exact Grows.refl _
  · exact Grows.keep _ _ _

/-- So does a batch: no counter falls, and no item is lost. -/
theorem fill_grows : Grows s (fill T cs os s) :=
  forLoop_inv (Grows.refl s) fun _ _ _ _ _ hb h => h.trans (Offer.take_grows hb)

/-! ### When a batch adds nothing -/

/-- The first offer of a class with room raises, or there is none: the batch keeps nothing. -/
def Blocked (T : ℕ) (os : List (Offer κ ι ε)) (s : Store κ ι) : Prop :=
  ∀ o, os.find? (fun o => decide (s.counts o.cls < T)) = some o → o.lands = false

omit [DecidableEq κ] in
theorem blocked_cons_closed (h : T ≤ s.counts o.cls) :
    Blocked T (o :: os) s ↔ Blocked T os s := by
  simp [Blocked, not_lt.mpr h]

omit [DecidableEq κ] in
theorem blocked_cons_open (h : s.counts o.cls < T) :
    Blocked T (o :: os) s ↔ o.lands = false := by
  simp [Blocked, h]

/-- A blocked batch keeps nothing. -/
theorem fill_of_blocked (h : Blocked T os s) : fill T cs os s = s := by
  induction os with
  | nil => rfl
  | cons o os ih =>
    by_cases hc : T ≤ s.counts o.cls
    · rw [fill_closed hc]
      exact ih ((blocked_cons_closed hc).mp h)
    · exact fill_raise (not_le.mp hc) ((blocked_cons_open (not_le.mp hc)).mp h)

/-- Any other batch counts something, so a batch that adds nothing is a blocked one. -/
theorem exists_counts_lt (hmem : ∀ o ∈ os, o.cls ∈ cs) (h : ¬ Blocked T os s) :
    ∃ k, s.counts k < (fill T cs os s).counts k := by
  induction os with
  | nil => exact absurd (fun o ho => by simp at ho) h
  | cons o os ih =>
    by_cases hc : T ≤ s.counts o.cls
    · rw [fill_closed hc]
      exact ih (fun p hp => hmem p (List.mem_cons_of_mem _ hp))
        fun hb => h ((blocked_cons_closed hc).mpr hb)
    · have hl : o.lands = true := by
        by_contra hf
        exact h ((blocked_cons_open (not_le.mp hc)).mpr (eq_false_of_ne_true hf))
      rw [fill_keep (hmem o List.mem_cons_self) (not_le.mp hc) hl]
      have hgrow := (@fill_grows κ ι ε _ T cs os (s.keep o.cls o.item)).1 o.cls
      rw [Store.keep_counts_self] at hgrow
      exact ⟨o.cls, by omega⟩

/-! ### What a batch that never raises fills to -/

/-- **Greedy filling is the minimum of the quota and the supply**, class by class, whatever the
order of the offers. -/
theorem fill_counts (hmem : ∀ o ∈ os, o.cls ∈ cs) (hl : ∀ o ∈ os, o.lands = true)
    (hle : s.counts k ≤ T) :
    (fill T cs os s).counts k = min T (s.counts k + os.countP fun o => decide (o.cls = k)) := by
  induction os generalizing s with
  | nil => simp [hle]
  | cons o os ih =>
    have ih' := fun (s : Store κ ι) (hs : s.counts k ≤ T) =>
      ih (s := s) (fun p hp => hmem p (List.mem_cons_of_mem _ hp))
        (fun p hp => hl p (List.mem_cons_of_mem _ hp)) hs
    rw [List.countP_cons]
    by_cases hc : T ≤ s.counts o.cls
    · rw [fill_closed hc, ih' s hle]
      by_cases hk : o.cls = k
      · -- the class is full, so what the offer would add is cut off by the quota
        subst hk
        omega
      · simp [hk]
    · have hlt := not_le.mp hc
      rw [fill_keep (hmem o List.mem_cons_self) hlt (hl o List.mem_cons_self)]
      by_cases hk : o.cls = k
      · subst hk
        rw [ih' _ (by rw [Store.keep_counts_self]; omega), Store.keep_counts_self]
        simp only [decide_true, if_true]
        omega
      · have hcount : (s.keep o.cls o.item).counts k = s.counts k := by
          rw [Store.keep_counts, if_neg fun h => hk h.symm, Nat.add_zero]
        rw [ih' _ (by rw [hcount]; exact hle), hcount]
        simp [hk]

/-- A batch of one class, none of which raises, keeps its first offers up to the quota. -/
theorem fill_kept (hk : k ∈ cs) (hcls : ∀ o ∈ os, o.cls = k) (hl : ∀ o ∈ os, o.lands = true) :
    (fill T cs os s).kept = s.kept ++ (os.take (T - s.counts k)).map Offer.item := by
  induction os generalizing s with
  | nil => simp
  | cons o os ih =>
    obtain rfl : o.cls = k := hcls o List.mem_cons_self
    have ih' := fun (s : Store κ ι) => ih (s := s) (fun p hp => hcls p (List.mem_cons_of_mem _ hp))
      fun p hp => hl p (List.mem_cons_of_mem _ hp)
    by_cases hc : T ≤ s.counts o.cls
    · rw [fill_closed hc, ih', Nat.sub_eq_zero_of_le hc]
      simp
    · obtain ⟨n, hn⟩ : ∃ n, T - s.counts o.cls = n + 1 := ⟨T - s.counts o.cls - 1, by omega⟩
      have hn' : T - (s.keep o.cls o.item).counts o.cls = n := by
        rw [Store.keep_counts_self]
        omega
      rw [fill_keep hk (not_le.mp hc) (hl o List.mem_cons_self), ih', hn, hn']
      simp

end StockCharts
