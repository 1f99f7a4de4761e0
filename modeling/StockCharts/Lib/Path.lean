import Mathlib.Data.List.Basic
import Mathlib.Logic.Function.Basic

/-!
# Names and POSIX paths

`os.path.join` as the POSIX library computes it, on strings: a component that starts with `/`
**replaces** everything before it. A file is *in* a directory when its path is the directory's,
a `/`, and a name that has no `/` in it; read from the right, that name and that directory are
unique (`inDir_unique`), so distinct directories hold distinct files.

The same cut from the right reads numbered names back: `stem_n.ext` names one stem and one number,
whatever the stem (`numbered_inj`).
-/

set_option autoImplicit false

namespace StockCharts

/-! ## Cutting at the last separator -/

/-- Two words cut at a separator that the right parts do not have are cut at the same place. -/
theorem append_sep_inj {α : Type} {a : α} {l₁ l₂ m₁ m₂ : List α}
    (h : l₁ ++ a :: m₁ = l₂ ++ a :: m₂) (h₁ : a ∉ m₁) (h₂ : a ∉ m₂) : l₁ = l₂ ∧ m₁ = m₂ := by
  rcases List.append_eq_append_iff.mp h with ⟨c, rfl, hc⟩ | ⟨c, rfl, hc⟩
  · cases c with
    | nil => simpa using hc
    | cons x c' =>
      rw [List.cons_append, List.cons.injEq] at hc
      exact absurd (by rw [hc.2]; simp) h₁
  · cases c with
    | nil => simpa using hc.symm
    | cons x c' =>
      rw [List.cons_append, List.cons.injEq] at hc
      exact absurd (by rw [hc.2]; simp) h₂

/-! ## Numbered names -/

def numbered (ext : String) (stem : String) (n : ℕ) : String := s!"{stem}_{n}{ext}"

theorem numbered_toList (ext stem : String) (n : ℕ) :
    (numbered ext stem n).toList = stem.toList ++ '_' :: (Nat.toDigits 10 n ++ ext.toList) := by
  simp [numbered, toString]

/-- **A numbered name determines its stem and its number**, for every stem: the digits and the
extension have no underscore, so the last one is the one that was put there. -/
theorem numbered_inj {ext stem stem' : String} {n n' : ℕ} (hext : '_' ∉ ext.toList)
    (h : numbered ext stem n = numbered ext stem' n') : stem = stem' ∧ n = n' := by
  have hl := congrArg String.toList h
  rw [numbered_toList, numbered_toList] at hl
  obtain ⟨hstem, hrest⟩ := append_sep_inj hl (by simp [hext]) (by simp [hext])
  have hdigits : Nat.toDigits 10 n = Nat.toDigits 10 n' := List.append_cancel_right hrest
  refine ⟨String.toList_inj.mp hstem, ?_⟩
  simpa using congrArg (fun ds => Nat.ofDigitChars 10 ds 0) hdigits

theorem slash_notMem_numbered {ext stem : String} {n : ℕ} (hext : '/' ∉ ext.toList)
    (hstem : '/' ∉ stem.toList) : '/' ∉ (numbered ext stem n).toList := by
  rw [numbered_toList]
  simp only [List.mem_append, List.mem_cons, not_or]
  refine ⟨hstem, by decide, fun hd => ?_, hext⟩
  have := Nat.isDigit_of_mem_toDigits (by decide) (by decide) hd
  exact absurd this (by decide)

/-! ## `os.path.join` -/

def joinStep (path b : String) : String :=
  if b.toList.head? = some '/' then b
  else if path = "" ∨ path.toList.getLast? = some '/' then path ++ b
  else path ++ "/" ++ b

def pathJoin (a : String) (p : List String) : String :=
  -- `os.path.join(a, *p)`.
  p.foldl joinStep a

/-- The file is in the directory, under some name. -/
def InDir (dir path : String) : Prop := ∃ name, '/' ∉ name.toList ∧ path = dir ++ "/" ++ name

/-- The last slash of a path is where its directory ends. -/
theorem inDir_unique {dir dir' name name' : String} (hn : '/' ∉ name.toList)
    (hn' : '/' ∉ name'.toList) (h : dir ++ "/" ++ name = dir' ++ "/" ++ name') :
    dir = dir' ∧ name = name' := by
  have hl := congrArg String.toList h
  simp only [String.toList_append, List.append_assoc] at hl
  obtain ⟨hd, hname⟩ := append_sep_inj (a := '/') hl hn hn'
  exact ⟨String.toList_inj.mp hd, String.toList_inj.mp hname⟩

structure IsName (b : String) : Prop where
  ne_empty : b ≠ ""
  slash_free : '/' ∉ b.toList

def pathRoot (a : String) : String :=
  if a = "" ∨ a.toList.getLast? = some '/' then a else a ++ "/"

variable {a b c : String}

theorem joinStep_of_slashFree (hb : '/' ∉ b.toList) : joinStep a b = pathRoot a ++ b := by
  have hhead : b.toList.head? ≠ some '/' := by
    intro h
    exact hb (List.mem_of_mem_head? h)
  rw [joinStep, if_neg hhead, pathRoot]
  split
  · rfl
  · rfl

theorem pathRoot_append_name (hb : IsName b) : pathRoot (a ++ b) = a ++ b ++ "/" := by
  have hb' : b.toList ≠ [] := by
    intro h
    exact hb.ne_empty (String.toList_inj.mp h)
  rw [pathRoot, if_neg]
  rintro (h | h)
  · have htl := congrArg String.toList h
    rw [String.toList_append] at htl
    exact hb' (List.append_eq_nil_iff.mp htl).2
  · rw [String.toList_append, List.getLast?_append_of_ne_nil _ hb'] at h
    exact hb.slash_free (List.mem_of_getLast? h)

theorem pathJoin_pair (hb : IsName b) (hc : '/' ∉ c.toList) :
    pathJoin a [b, c] = pathRoot a ++ b ++ "/" ++ c := by
  rw [pathJoin, List.foldl_cons, List.foldl_cons, List.foldl_nil, joinStep_of_slashFree hb.slash_free,
    joinStep_of_slashFree hc, pathRoot_append_name hb]

theorem pathJoin_triple {d : String} (hb : IsName b) (hc : IsName c) (hd : '/' ∉ d.toList) :
    pathJoin a [b, c, d] = pathJoin a [b, c] ++ "/" ++ d := by
  rw [show pathJoin a [b, c, d] = joinStep (pathJoin a [b, c]) d from rfl,
    joinStep_of_slashFree hd, pathJoin_pair hb hc.slash_free, pathRoot_append_name hc]

/-- Joining names to a directory loses none of them. -/
theorem pathJoin_pair_inj {b' c' : String} (hb : IsName b) (hb' : IsName b') (hc : IsName c)
    (hc' : IsName c') (h : pathJoin a [b, c] = pathJoin a [b', c']) : b = b' ∧ c = c' := by
  rw [pathJoin_pair hb hc.slash_free, pathJoin_pair hb' hc'.slash_free] at h
  obtain ⟨hroot, rfl⟩ := inDir_unique hc.slash_free hc'.slash_free h
  have hl := congrArg String.toList hroot
  rw [String.toList_append, String.toList_append] at hl
  exact ⟨String.toList_inj.mp (List.append_cancel_left hl), rfl⟩

end StockCharts
