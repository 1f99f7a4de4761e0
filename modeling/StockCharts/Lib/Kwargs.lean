import Mathlib.Data.List.Basic
import Mathlib.Tactic.Common

/-!
# Keyword arguments checked against a table

A function that takes *any* keywords (`**kwargs`) cannot be misspelt at compile time; it checks what
it was given against a table when it is called. For each keyword the table has a default and a
validator, which accepts a value, refuses it, or raises itself. The keywords are checked one after
another, in the order of the call, and **the first one that fails decides the outcome**, whatever
stands behind it.

`processKwargs_ok_iff` says which calls go through.
-/

set_option autoImplicit false

namespace StockCharts

variable {V ε : Type}

structure Keyword (V ε : Type) where
  key : String
  default : V
  validator : V → Except ε Bool

inductive KwargError (ε : Type) where
  /-- The keyword is not in the table. -/
  | unrecognized (key : String)
  /-- The validator answers `False`. -/
  | refused (key : String)
  /-- The validator raises. -/
  | raised (key : String) (e : ε)
  deriving DecidableEq, Repr

def setConfig (key : String) (value : V) (config : List (String × V)) : List (String × V) :=
  config.map fun kv => if kv.1 = key then (key, value) else kv

/-- The loop over the keywords of the call. -/
def substituteKwargs (vkwargs : List (Keyword V ε)) :
    List (String × V) → List (String × V) → Except (KwargError ε) (List (String × V))
  | config, [] => .ok config
  | config, (key, value) :: kwargs =>
    match vkwargs.find? fun k => k.key = key with
    | none => .error (.unrecognized key)
    | some k =>
      match k.validator value with
      | .error e => .error (.raised key e)
      | .ok false => .error (.refused key)
      | .ok true => substituteKwargs vkwargs (setConfig key value config) kwargs

def processKwargs (kwargs : List (String × V)) (vkwargs : List (Keyword V ε)) :
    Except (KwargError ε) (List (String × V)) :=
  substituteKwargs vkwargs (vkwargs.map fun k => (k.key, k.default)) kwargs

/-- The keyword is in the table, and the value passes its validator. -/
def Accepts (vkwargs : List (Keyword V ε)) (kv : String × V) : Prop :=
  ∃ k, vkwargs.find? (fun k => k.key = kv.1) = some k ∧ k.validator kv.2 = .ok true

variable {vkwargs : List (Keyword V ε)} {kwargs config : List (String × V)} {key : String}
  {value : V}

theorem substituteKwargs_accepted (h : Accepts vkwargs (key, value)) :
    substituteKwargs vkwargs config ((key, value) :: kwargs) =
      substituteKwargs vkwargs (setConfig key value config) kwargs := by
  obtain ⟨k, hk, hv⟩ := h
  simp only at hk hv
  rw [substituteKwargs, hk]
  simp only [hv]

theorem exists_error_of_not_accepts (h : ¬ Accepts vkwargs (key, value)) :
    ∃ e, ∀ config rest, substituteKwargs vkwargs config ((key, value) :: rest) = .error e := by
  cases hk : vkwargs.find? fun k => k.key = key with
  | none => exact ⟨.unrecognized key, fun config rest => by rw [substituteKwargs, hk]⟩
  | some k =>
    cases hv : k.validator value with
    | error e =>
      refine ⟨.raised key e, fun config rest => ?_⟩
      rw [substituteKwargs, hk]
      simp only [hv]
    | ok b =>
      cases b with
      | true => exact absurd ⟨k, hk, hv⟩ h
      | false =>
        refine ⟨.refused key, fun config rest => ?_⟩
        rw [substituteKwargs, hk]
        simp only [hv]

/-- **A call goes through exactly when every keyword of it is accepted.** -/
theorem substituteKwargs_ok_iff :
    (∃ config', substituteKwargs vkwargs config kwargs = .ok config') ↔
      ∀ kv ∈ kwargs, Accepts vkwargs kv := by
  induction kwargs generalizing config with
  | nil => simp [substituteKwargs]
  | cons kv kwargs ih =>
    by_cases hkv : Accepts vkwargs kv
    · rw [substituteKwargs_accepted hkv, ih, List.forall_mem_cons]
      simp [hkv]
    · obtain ⟨e, he⟩ := exists_error_of_not_accepts hkv
      constructor
      · rintro ⟨config', h⟩
        rw [he] at h
        cases h
      · intro h
        exact absurd (h kv List.mem_cons_self) hkv

theorem processKwargs_ok_iff :
    (∃ config, processKwargs kwargs vkwargs = .ok config) ↔ ∀ kv ∈ kwargs, Accepts vkwargs kv :=
  substituteKwargs_ok_iff

end StockCharts
