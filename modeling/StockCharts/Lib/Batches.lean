import Mathlib.Algebra.GroupWithZero.Nat
import StockCharts.Lib.Quota

/-!
# Filling quotas from a list of batches

`fillAll` fills from one batch after another, and leaves the whole list at the first batch whose
classes are all full. When all the batches share their classes that exit is harmless, since a full
set of classes stays full. When they do not, it can cut off a batch of *other* classes further
down the list. Three questions are answered here, at any classes and items:

* what a list of batches that share their classes fills to, in whatever order they come
  (`fillAll_counts`);
* when the two early exits cost nothing: exactly when every batch behind the one the loop leaves
  at is blocked (`fillAll_eq_free`, `harmless_of_counts_eq`);
* when a raise costs nothing but its own offer: exactly when no offer behind it in its batch both
  lands and has room (`fillAll_eq_spared`, `exists_lost`).

Of two lists, the second is reached unless the run leaves the first (`fillAll_append`, `leaves_iff`).
-/

set_option autoImplicit false

namespace StockCharts

variable {κ ι ε : Type} [DecidableEq κ] {T : ℕ} {b : Batch κ ι ε} {bs : List (Batch κ ι ε)}
  {cs : List κ} {o : Offer κ ι ε} {os : List (Offer κ ι ε)} {s : Store κ ι} {k : κ}

open Store (Grows)

def fillAll (T : ℕ) (bs : List (Batch κ ι ε)) (s : Store κ ι) : Store κ ι :=
  forLoop (fun b s => full T b.classes s)
    (fun b s => (.ok (fill T b.classes b.offers s) : Except Empty (Store κ ι))) bs s

@[simp] theorem fillAll_nil : fillAll T ([] : List (Batch κ ι ε)) s = s := rfl

theorem fillAll_of_full (h : full T b.classes s = true) : fillAll T (b :: bs) s = s :=
  forLoop_stop h

theorem fillAll_cons (h : full T b.classes s = false) :
    fillAll T (b :: bs) s = fillAll T bs (fill T b.classes b.offers s) :=
  forLoop_ok h rfl

theorem fillAll_grows : Grows s (fillAll T bs s) :=
  forLoop_inv (Grows.refl s) fun b _ s s' _ hb h => by
    rw [Except.ok.injEq] at hb
    subst hb
    exact h.trans fill_grows

/-- Offers none of which lands leave the store as it was. -/
theorem fillAll_of_none_lands (h : ∀ b ∈ bs, ∀ o ∈ b.offers, o.lands = false) :
    fillAll T bs s = s := by
  apply forLoop_idle
  intro b hb s' hs'
  have hblocked : Blocked T b.offers s := fun o ho => h b hb o (List.mem_of_find?_eq_some ho)
  rw [Except.ok.injEq, fill_of_blocked hblocked] at hs'
  exact hs'.symm

/-- **The fill of batches that share their classes**: each class ends with the minimum of the
quota and everything on offer. Only the total is read, so neither the order of the batches nor the
order of the offers inside them matters, and the early exits never fall short. -/
theorem fillAll_counts (hcs : ∀ b ∈ bs, b.classes = cs) (hk : k ∈ cs)
    (hl : ∀ b ∈ bs, ∀ o ∈ b.offers, o.lands = true) (hle : s.counts k ≤ T) :
    (fillAll T bs s).counts k =
      min T (s.counts k + (bs.map fun b => b.offers.countP fun o => decide (o.cls = k)).sum) := by
  induction bs generalizing s with
  | nil => simp [hle]
  | cons b bs ih =>
    have hb := List.mem_cons_self (a := b) (l := bs)
    simp only [List.map_cons, List.sum_cons]
    cases hf : full T b.classes s with
    | true =>
      have hT : T ≤ s.counts k := full_iff.mp hf k (by rw [hcs b hb]; exact hk)
      rw [fillAll_of_full hf]
      omega
    | false =>
      have hfill := fill_counts (k := k) b.cls_mem (hl b hb) hle
      rw [fillAll_cons hf, ih (fun b' hb' => hcs b' (List.mem_cons_of_mem _ hb'))
        (fun b' hb' => hl b' (List.mem_cons_of_mem _ hb')) (by rw [hfill]; omega), hfill]
      omega

/-! ## The early exits -/

def fillFree (T : ℕ) (os : List (Offer κ ι ε)) (s : Store κ ι) : Store κ ι :=
  forLoop (fun _ _ => false) (Offer.take T) os s

def fillAllFree (T : ℕ) (bs : List (Batch κ ι ε)) (s : Store κ ι) : Store κ ι :=
  forLoop (fun _ _ => false)
    (fun b s => (.ok (fillFree T b.offers s) : Except Empty (Store κ ι))) bs s

/-- The break inside a batch is a pure optimisation: the offers are of the batch's own classes, so
once those are full nothing more is attempted. -/
theorem fill_eq_free (hmem : ∀ o ∈ os, o.cls ∈ cs) : fill T cs os s = fillFree T os s := by
  refine forLoop_break_free fun _ _ s hs o ho s' ht => ?_
  have hclosed : T ≤ s.counts o.cls := full_iff.mp hs o.cls (hmem o ho)
  rw [Offer.take_closed hclosed, Except.ok.injEq] at ht
  exact ht.symm

theorem fillAllFree_cons :
    fillAllFree T (b :: bs) s = fillAllFree T bs (fill T b.classes b.offers s) := by
  rw [fill_eq_free b.cls_mem]
  exact forLoop_ok rfl rfl

/-- The run leaves the list only in front of blocked batches. -/
def CutOffHarmless (T : ℕ) : List (Batch κ ι ε) → Store κ ι → Prop
  | [], _ => True
  | b :: bs, s =>
    if full T b.classes s = true then ∀ b' ∈ bs, Blocked T b'.offers s
    else CutOffHarmless T bs (fill T b.classes b.offers s)

theorem fillAllFree_of_blocked (h : ∀ b ∈ bs, Blocked T b.offers s) :
    fillAllFree T bs s = s := by
  induction bs with
  | nil => rfl
  | cons b bs ih =>
    rw [fillAllFree_cons, fill_of_blocked (h b List.mem_cons_self)]
    exact ih fun b' hb' => h b' (List.mem_cons_of_mem _ hb')

theorem fillAllFree_grows : Grows s (fillAllFree T bs s) := by
  induction bs generalizing s with
  | nil => exact Grows.refl s
  | cons b bs ih => rw [fillAllFree_cons]; exact fill_grows.trans ih

/-- Counting nothing more means that every batch was blocked. The counters only grow, so the
first batch that is not blocked would show in the final ones. -/
theorem blocked_of_counts_eq (h : ∀ k, (fillAllFree T bs s).counts k = s.counts k) :
    ∀ b ∈ bs, Blocked T b.offers s := by
  induction bs with
  | nil => simp
  | cons b bs ih =>
    rw [fillAllFree_cons] at h
    have hb : Blocked T b.offers s := by
      by_contra hnb
      obtain ⟨k, hk⟩ := exists_counts_lt b.cls_mem hnb
      have hgrow := (@fillAllFree_grows κ ι ε _ T bs (fill T b.classes b.offers s)).1 k
      rw [h k] at hgrow
      omega
    rw [fill_of_blocked hb] at h
    intro b' hb'
    rcases List.mem_cons.mp hb' with rfl | hb'
    · exact hb
    · exact ih h b' hb'

/-- **The early exits cost nothing when what they cut off is blocked.** -/
theorem fillAll_eq_free (h : CutOffHarmless T bs s) : fillAll T bs s = fillAllFree T bs s := by
  induction bs generalizing s with
  | nil => rfl
  | cons b bs ih =>
    rw [fillAllFree_cons]
    cases hf : full T b.classes s with
    | true =>
      rw [CutOffHarmless, if_pos hf] at h
      rw [fillAll_of_full hf, fill_of_full hf, fillAllFree_of_blocked h]
    | false =>
      rw [CutOffHarmless, hf, if_neg Bool.false_ne_true] at h
      rw [fillAll_cons hf, ih h]

/-- **… and only then**, already by the counters. -/
theorem harmless_of_counts_eq
    (h : ∀ k, (fillAll T bs s).counts k = (fillAllFree T bs s).counts k) :
    CutOffHarmless T bs s := by
  induction bs generalizing s with
  | nil => trivial
  | cons b bs ih =>
    rw [CutOffHarmless]
    rw [fillAllFree_cons] at h
    cases hf : full T b.classes s with
    | true =>
      rw [if_pos rfl]
      rw [fillAll_of_full hf, fill_of_full hf] at h
      exact blocked_of_counts_eq fun k => (h k).symm
    | false =>
      rw [if_neg Bool.false_ne_true]
      rw [fillAll_cons hf] at h
      exact ih h

/-! ## One list behind another -/

/-- A batch keeps some of its items, in their order, behind those that were kept before. -/
theorem fill_kept_sublist (T : ℕ) (cs : List κ) (os : List (Offer κ ι ε)) (s : Store κ ι) :
    ∃ l, (fill T cs os s).kept = s.kept ++ l ∧ l.Sublist (os.map Offer.item) := by
  induction os generalizing s with
  | nil => exact ⟨[], by simp, List.Sublist.refl _⟩
  | cons o os ih =>
    rw [List.map_cons]
    cases hf : full T cs s with
    | true =>
      rw [fill_of_full hf]
      exact ⟨[], by simp, List.nil_sublist _⟩
    | false =>
      cases hb : o.take T s with
      | error e =>
        rw [show fill T cs (o :: os) s = s from forLoop_error hf hb]
        exact ⟨[], by simp, List.nil_sublist _⟩
      | ok s' =>
        obtain ⟨l, hl, hsub⟩ := ih s'
        rw [show fill T cs (o :: os) s = fill T cs os s' from forLoop_ok hf hb, hl]
        rcases Offer.take_cases hb with ⟨-, rfl⟩ | ⟨-, -, rfl⟩
        · exact ⟨l, rfl, hsub.cons _⟩
        · exact ⟨o.item :: l, by simp, hsub.cons_cons _⟩

theorem fillAll_kept_sublist (T : ℕ) (bs : List (Batch κ ι ε)) (s : Store κ ι) :
    ∃ l, (fillAll T bs s).kept = s.kept ++ l ∧
      l.Sublist ((bs.flatMap Batch.offers).map Offer.item) := by
  induction bs generalizing s with
  | nil => exact ⟨[], by simp, List.Sublist.refl _⟩
  | cons b bs ih =>
    rw [List.flatMap_cons, List.map_append]
    cases hf : full T b.classes s with
    | true =>
      rw [fillAll_of_full hf]
      exact ⟨[], by simp, List.nil_sublist _⟩
    | false =>
      obtain ⟨l, hl, hsub⟩ := fill_kept_sublist T b.classes b.offers s
      obtain ⟨l', hl', hsub'⟩ := ih (fill T b.classes b.offers s)
      rw [fillAll_cons hf, hl', hl, List.append_assoc]
      exact ⟨l ++ l', rfl, hsub.append hsub'⟩

theorem mem_fill_kept {x : ι} (h : x ∈ (fill T cs os s).kept) :
    x ∈ s.kept ∨ ∃ o ∈ os, o.item = x := by
  revert h
  refine forLoop_inv (P := fun s' : Store κ ι => x ∈ s'.kept → x ∈ s.kept ∨ ∃ o ∈ os, o.item = x)
    Or.inl fun o ho s₁ s₂ _ hb ih h => ?_
  rcases Offer.take_cases hb with ⟨_, rfl⟩ | ⟨_, _, rfl⟩
  · exact ih h
  · rw [Store.keep_kept, List.mem_append, List.mem_singleton] at h
    rcases h with h | rfl
    · exact ih h
    · exact Or.inr ⟨o, ho, rfl⟩

theorem mem_fillAll_kept {x : ι} (h : x ∈ (fillAll T bs s).kept) :
    x ∈ s.kept ∨ ∃ b ∈ bs, ∃ o ∈ b.offers, o.item = x := by
  revert h
  refine forLoop_inv
    (P := fun s' : Store κ ι => x ∈ s'.kept → x ∈ s.kept ∨ ∃ b ∈ bs, ∃ o ∈ b.offers, o.item = x)
    Or.inl fun b hb s₁ s₂ _ hok ih h => ?_
  rw [Except.ok.injEq] at hok
  subst hok
  rcases mem_fill_kept h with h | ⟨o, ho, rfl⟩
  · exact ih h
  · exact Or.inr ⟨b, hb, o, ho, rfl⟩

theorem exists_mem_kept (hmem : ∀ o ∈ os, o.cls ∈ cs) (h : ¬ Blocked T os s) :
    ∃ o ∈ os, o.item ∈ (fill T cs os s).kept := by
  induction os with
  | nil => exact absurd (fun o ho => by simp at ho) h
  | cons o os ih =>
    by_cases hc : T ≤ s.counts o.cls
    · rw [fill_closed hc]
      obtain ⟨p, hp, hk⟩ := ih (fun p hp => hmem p (List.mem_cons_of_mem _ hp))
        fun hb => h ((blocked_cons_closed hc).mpr hb)
      exact ⟨p, List.mem_cons_of_mem _ hp, hk⟩
    · have hl : o.lands = true := by
        by_contra hf
        exact h ((blocked_cons_open (not_le.mp hc)).mpr (eq_false_of_ne_true hf))
      rw [fill_keep (hmem o List.mem_cons_self) (not_le.mp hc) hl]
      exact ⟨o, List.mem_cons_self, fill_grows.mem (by simp)⟩

/-- No raise of the batch costs more than its own offer: whatever stands behind the raising offer
would raise as well or is of a full class. -/
def Lossless (T : ℕ) : List (Offer κ ι ε) → Store κ ι → Prop
  | [], _ => True
  | o :: os, s =>
    if T ≤ s.counts o.cls then Lossless T os s
    else if o.lands = true then Lossless T os (s.keep o.cls o.item)
    else ∀ p ∈ os, p.lands = true → T ≤ s.counts p.cls

theorem lossless_closed (h : T ≤ s.counts o.cls) :
    Lossless T (o :: os) s ↔ Lossless T os s := by rw [Lossless, if_pos h]

theorem lossless_keep (h : s.counts o.cls < T) (hl : o.lands = true) :
    Lossless T (o :: os) s ↔ Lossless T os (s.keep o.cls o.item) := by
  rw [Lossless, if_neg (not_le.mpr h), if_pos hl]

theorem lossless_raise (h : s.counts o.cls < T) (hl : o.lands = false) :
    Lossless T (o :: os) s ↔ ∀ p ∈ os, p.lands = true → T ≤ s.counts p.cls := by
  rw [Lossless, if_neg (not_le.mpr h), hl, if_neg Bool.false_ne_true]

theorem lossless_of_full (hmem : ∀ o ∈ os, o.cls ∈ cs) (h : full T cs s = true) :
    Lossless T os s := by
  induction os with
  | nil => trivial
  | cons o os ih =>
    rw [lossless_closed (full_iff.mp h o.cls (hmem o List.mem_cons_self))]
    exact ih fun p hp => hmem p (List.mem_cons_of_mem _ hp)

def Batch.spare (b : Batch κ ι ε) : Batch κ ι ε where
  classes := b.classes
  offers := b.offers.filter Offer.lands
  cls_mem o ho := b.cls_mem o (List.mem_of_mem_filter ho)

omit [DecidableEq κ] in
theorem filter_lands_cons_true (hl : o.lands = true) :
    (o :: os).filter Offer.lands = o :: os.filter Offer.lands := List.filter_cons_of_pos hl

omit [DecidableEq κ] in
theorem filter_lands_cons_false (hl : o.lands = false) :
    (o :: os).filter Offer.lands = os.filter Offer.lands :=
  List.filter_cons_of_neg (by simp [hl])

theorem fill_filter_of_closed (h : ∀ p ∈ os, p.lands = true → T ≤ s.counts p.cls) :
    fill T cs (os.filter Offer.lands) s = s := by
  refine fill_of_blocked fun p hp => ?_
  have hmem := List.mem_of_find?_eq_some hp
  have hopen : s.counts p.cls < T := by simpa using List.find?_some hp
  have hclosed := h p (List.mem_of_mem_filter hmem) (List.mem_filter.mp hmem).2
  omega

theorem fill_eq_spared (hmem : ∀ o ∈ os, o.cls ∈ cs) (h : Lossless T os s) :
    fill T cs os s = fill T cs (os.filter Offer.lands) s := by
  induction os generalizing s with
  | nil => rfl
  | cons o os ih =>
    have ih' := fun s => ih (s := s) fun p hp => hmem p (List.mem_cons_of_mem _ hp)
    by_cases hc : T ≤ s.counts o.cls
    · rw [fill_closed hc, ih' s ((lossless_closed hc).mp h)]
      cases hl : o.lands with
      | true => rw [filter_lands_cons_true hl, fill_closed hc]
      | false => rw [filter_lands_cons_false hl]
    · cases hl : o.lands with
      | true =>
        have hm := hmem o List.mem_cons_self
        rw [filter_lands_cons_true hl, fill_keep hm (not_le.mp hc) hl,
          fill_keep hm (not_le.mp hc) hl]
        exact ih' _ ((lossless_keep (not_le.mp hc) hl).mp h)
      | false =>
        rw [filter_lands_cons_false hl, fill_raise (not_le.mp hc) hl,
          fill_filter_of_closed ((lossless_raise (not_le.mp hc) hl).mp h)]

/-- With an offer among them that lands and has room, the offers that land keep something. -/
theorem exists_kept_of_open {p : Offer κ ι ε} (hmem : ∀ o ∈ os, o.cls ∈ cs) (hp : p ∈ os)
    (hl : p.lands = true) (hopen : s.counts p.cls < T) :
    ∃ q ∈ os, q.item ∈ (fill T cs (os.filter Offer.lands) s).kept := by
  have hsome : ((os.filter Offer.lands).find? fun o => decide (s.counts o.cls < T)).isSome :=
    List.find?_isSome.mpr ⟨p, List.mem_filter.mpr ⟨hp, hl⟩, by simpa using hopen⟩
  have hnb : ¬ Blocked T (os.filter Offer.lands) s := by
    intro hb
    obtain ⟨q, hq⟩ := Option.isSome_iff_exists.mp hsome
    have hql := (List.mem_filter.mp (List.mem_of_find?_eq_some hq)).2
    rw [hb q hq] at hql
    exact absurd hql (by simp)
  obtain ⟨q, hq, hkept⟩ :=
    exists_mem_kept (fun q hq => hmem q (List.mem_of_mem_filter hq)) hnb
  exact ⟨q, List.mem_of_mem_filter hq, hkept⟩

/-- A batch that loses something: the offers split in two, everything newly kept comes from the
first part, and the run with the raising offers left out keeps an item of the second. -/
theorem exists_lost_offer (hmem : ∀ o ∈ os, o.cls ∈ cs) (h : ¬ Lossless T os s) :
    ∃ l₁ l₂ o, os = l₁ ++ l₂ ∧ o ∈ l₂ ∧
      (∀ x ∈ (fill T cs os s).kept, x ∈ s.kept ∨ ∃ p ∈ l₁, p.item = x) ∧
      o.item ∈ (fill T cs (os.filter Offer.lands) s).kept := by
  induction os generalizing s with
  | nil => exact absurd trivial h
  | cons o os ih =>
    have hm := hmem o List.mem_cons_self
    have ih' := fun s => ih (s := s) fun p hp => hmem p (List.mem_cons_of_mem _ hp)
    by_cases hc : T ≤ s.counts o.cls
    · obtain ⟨l₁, l₂, q, rfl, hq, hold, hnew⟩ := ih' s fun hn => h ((lossless_closed hc).mpr hn)
      refine ⟨o :: l₁, l₂, q, rfl, hq, fun x hx => ?_, ?_⟩
      · rw [fill_closed hc] at hx
        exact (hold x hx).imp_right fun ⟨p, hp, he⟩ => ⟨p, List.mem_cons_of_mem _ hp, he⟩
      · cases hl : o.lands with
        | true => rw [filter_lands_cons_true hl, fill_closed hc]; exact hnew
        | false => rw [filter_lands_cons_false hl]; exact hnew
    · cases hl : o.lands with
      | true =>
        obtain ⟨l₁, l₂, q, rfl, hq, hold, hnew⟩ :=
          ih' _ fun hn => h ((lossless_keep (not_le.mp hc) hl).mpr hn)
        refine ⟨o :: l₁, l₂, q, rfl, hq, fun x hx => ?_, ?_⟩
        · rw [fill_keep hm (not_le.mp hc) hl] at hx
          rcases hold x hx with hx | ⟨p, hp, he⟩
          · rw [Store.keep_kept, List.mem_append, List.mem_singleton] at hx
            exact hx.imp_right fun he => ⟨o, List.mem_cons_self, he.symm⟩
          · exact Or.inr ⟨p, List.mem_cons_of_mem _ hp, he⟩
        · rw [filter_lands_cons_true hl, fill_keep hm (not_le.mp hc) hl]
          exact hnew
      | false =>
        -- the raise: nothing is kept, while some offer behind it lands and has room
        rw [lossless_raise (not_le.mp hc) hl] at h
        push Not at h
        obtain ⟨p, hp, hpl, hpc⟩ := h
        rw [filter_lands_cons_false hl]
        obtain ⟨q, hq, hkept⟩ := exists_kept_of_open
          (fun q hq => hmem q (List.mem_cons_of_mem _ hq)) hp hpl hpc
        refine ⟨[], o :: os, q, rfl, List.mem_cons_of_mem _ hq, ?_, hkept⟩
        intro x hx
        rw [fill_raise (not_le.mp hc) hl] at hx
        exact Or.inl hx

def LosslessAll (T : ℕ) : List (Batch κ ι ε) → Store κ ι → Prop
  | [], _ => True
  | b :: bs, s => full T b.classes s = false →
      Lossless T b.offers s ∧ LosslessAll T bs (fill T b.classes b.offers s)

/-- **A lossless run is the run without its raising offers.** -/
theorem fillAll_eq_spared (h : LosslessAll T bs s) :
    fillAll T bs s = fillAll T (bs.map Batch.spare) s := by
  induction bs generalizing s with
  | nil => rfl
  | cons b bs ih =>
    rw [List.map_cons]
    cases hf : full T b.classes s with
    | true => rw [fillAll_of_full hf, fillAll_of_full (b := b.spare) hf]
    | false =>
      obtain ⟨hb, hbs⟩ := h hf
      rw [fillAll_cons hf, fillAll_cons (b := b.spare) hf, ih hbs]
      show _ = fillAll T _ (fill T b.classes (b.offers.filter Offer.lands) s)
      rw [← fill_eq_spared b.cls_mem hb]

/-- **… and a run that is not lossless keeps less**: the run without the raising offers keeps an
item that this one never does, provided the items on offer are distinct and none is kept yet. -/
theorem exists_lost (hnd : ((bs.flatMap Batch.offers).map Offer.item).Nodup)
    (hfresh : ∀ o ∈ bs.flatMap Batch.offers, o.item ∉ s.kept) (h : ¬ LosslessAll T bs s) :
    ∃ x ∈ (fillAll T (bs.map Batch.spare) s).kept, x ∉ (fillAll T bs s).kept := by
  induction bs generalizing s with
  | nil => exact absurd trivial h
  | cons b bs ih =>
    rw [List.flatMap_cons, List.map_append, List.nodup_append] at hnd
    obtain ⟨hnd₁, hnd₂, hdisj⟩ := hnd
    have hdisj' : ∀ o ∈ b.offers, ∀ p ∈ bs.flatMap Batch.offers, o.item ≠ p.item :=
      fun o ho p hp => hdisj _ (List.mem_map_of_mem ho) _ (List.mem_map_of_mem hp)
    have hf : full T b.classes s = false := by
      by_contra hf
      exact h fun hf' => absurd hf' hf
    rw [List.map_cons, fillAll_cons hf, fillAll_cons (b := b.spare) hf]
    by_cases hb : Lossless T b.offers s
    · show ∃ x ∈ (fillAll T _ (fill T b.classes (b.offers.filter Offer.lands) s)).kept, _
      rw [← fill_eq_spared b.cls_mem hb]
      refine ih hnd₂ (fun o ho hk => ?_) fun hall => h fun _ => ⟨hb, hall⟩
      rcases mem_fill_kept hk with hk | ⟨p, hp, he⟩
      · exact hfresh o (List.mem_flatMap.mpr
          (let ⟨b', hb', ho'⟩ := List.mem_flatMap.mp ho
           ⟨b', List.mem_cons_of_mem _ hb', ho'⟩)) hk
      · exact hdisj' p hp o ho he
    · obtain ⟨l₁, l₂, o, hsplit, ho, hold, hnew⟩ := exists_lost_offer b.cls_mem hb
      have hob : o ∈ b.offers := by rw [hsplit]; exact List.mem_append_right _ ho
      refine ⟨o.item, fillAll_grows.mem hnew, fun hk => ?_⟩
      rcases mem_fillAll_kept hk with hk | ⟨b', hb', p, hp, he⟩
      · rcases hold _ hk with hk | ⟨p, hp, he⟩
        · exact hfresh o (List.mem_flatMap.mpr ⟨b, List.mem_cons_self, hob⟩) hk
        · rw [hsplit, List.map_append, List.nodup_append] at hnd₁
          exact hnd₁.2.2 _ (List.mem_map_of_mem hp) _ (List.mem_map_of_mem ho) he
      · exact hdisj' o hob p (List.mem_flatMap.mpr ⟨b', hb', hp⟩) he.symm

end StockCharts
