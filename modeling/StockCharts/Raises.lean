import Mathlib.Data.List.Nodup
import StockCharts.Machine

/-!
# The price of a render that raises

The `try` of the script stands around a whole ticker. A chart that cannot be drawn takes with it
every window behind it in the shuffled order, and nothing shows it later: the next tickers fill the
quotas, or the quotas stay short. Earlier versions of the script guarded each render and
continued with the next window.

`tickerLoopSpared` is the run that has only those windows missing whose own render raises.
`raise_costs_one_window` compares the two: they agree when no raise has a window behind it that
would still have been drawn, and for distinct tickers they agree only then.
-/

set_option autoImplicit false

namespace StockCharts

open Control

/-! ## The run without the raising windows -/

/-- The indices of a ticker, those left out whose render raises. -/
def tickerWindowsSpared (cfg : Config) (job : Job) : Option (DataFrame × List ℕ) :=
  (tickerWindows cfg job).map fun (df, indices) => (df, indices.filter (renders cfg job df))

def tickerBodySpared (cfg : Config) (job : Job) (st : St) : St :=
  match tickerWindowsSpared cfg job with
  | none => st
  | some (df, indices) => windowLoop cfg job df indices st

def tickerLoopSpared (cfg : Config) (jobs : List Job) (st : St) : St :=
  forLoop (fun job st => allFull cfg job.split st)
    (fun job st => (.ok (tickerBodySpared cfg job st) : Except Empty St)) jobs st

variable {cfg : Config} {job : Job} {jobs rest : List Job} {df : DataFrame} {indices : List ℕ}
  {st : St}

theorem tickerBodySpared_eq_fill (cfg : Config) (job : Job) (st : St) :
    tickerBodySpared cfg job st = fill cfg.targetImagesPerClass (splitKeys job.split)
      ((offers cfg job).filter Offer.lands) st := by
  unfold tickerBodySpared tickerWindowsSpared
  cases hw : tickerWindows cfg job with
  | none => rw [offers_skip hw]; rfl
  | some w =>
    obtain ⟨df, indices⟩ := w
    have hfilter : (indices.map (offer cfg job df)).filter Offer.lands =
        (indices.filter (renders cfg job df)).map (offer cfg job df) := by
      rw [List.filter_map]
      congr 2
      funext i
      exact (renders_eq_lands cfg job df i).symm
    rw [offers_enter hw, hfilter]
    refine windowLoop_eq_fill ?_ st
    intro i hi
    exact labelAt_of_tickerWindows hw (List.mem_of_mem_filter hi)

/-- A run whose raises cost one window is one over the offers that land. -/
theorem tickerLoopSpared_eq_fillAll (cfg : Config) (jobs : List Job) (st : St) :
    tickerLoopSpared cfg jobs st =
      fillAll cfg.targetImagesPerClass ((jobs.map (batch cfg)).map Batch.spare) st := by
  rw [List.map_map, fillAll, forLoop_map, tickerLoopSpared]
  simp only [allFull_eq_full, tickerBodySpared_eq_fill]
  rfl

/-! ## Raises with nothing behind them -/

/-- Where the render of a window raises, whatever stands behind the window in the shuffled order
has a full label or would raise as well. -/
def HarmlessRaise (cfg : Config) : Control → Prop
  | windows job df (i :: indices) _ st =>
    hasRoom cfg job.split df st i = true → renders cfg job df i = false →
      ∀ j ∈ indices, renders cfg job df j = true → hasRoom cfg job.split df st j = false
  | _ => True

theorem harmlessRaise_iff (hlab : ∀ j ∈ indices, ∃ l, labelAt cfg df j = .ok l) :
    (∀ j ∈ indices, renders cfg job df j = true → hasRoom cfg job.split df st j = false) ↔
      ∀ p ∈ indices.map (offer cfg job df), p.lands = true →
        cfg.targetImagesPerClass ≤ st.counts p.cls := by
  rw [List.forall_mem_map]
  refine forall₂_congr fun j hj => ?_
  obtain ⟨l, hl⟩ := hlab j hj
  rw [renders_eq_lands, hasRoom_eq hl, decide_eq_false_iff_not, not_lt]

/-- The library's condition on a batch, at the points of its window loop. -/
theorem lossless_iff_alongWindows (hlab : ∀ i ∈ indices, ∃ l, labelAt cfg df i = .ok l) (st : St) :
    Lossless cfg.targetImagesPerClass (indices.map (offer cfg job df)) st ↔
      AlongWindows cfg (HarmlessRaise cfg) job df rest indices st := by
  induction indices generalizing st with
  | nil => exact Iff.rfl
  | cons i indices ih =>
    have hlab' : ∀ j ∈ indices, ∃ l, labelAt cfg df j = .ok l := by
      intro j hj
      exact hlab j (List.mem_cons_of_mem _ hj)
    obtain ⟨l, hl⟩ := hlab i List.mem_cons_self
    have hcls : (offer cfg job df i).cls = (job.split, l) := by rw [offer_of_labelAt hl]
    rw [AlongWindows, List.map_cons]
    by_cases hroom : st.counts (job.split, l) < cfg.targetImagesPerClass
    · have hhas : hasRoom cfg job.split df st i = true := (hasRoom_iff hl).mpr hroom
      have hf := allFull_eq_false hroom
      rw [← hcls] at hroom
      cases hr : renders cfg job df i with
      | true =>
        have hlands := (renders_eq_lands cfg job df i).symm.trans hr
        have hb : windowBody cfg job df i st =
            .ok (st.keep (offer cfg job df i).cls (offer cfg job df i).item) := by
          rw [windowBody_eq_take hl, Offer.take_lands hroom hlands]
        rw [lossless_keep hroom hlands, ih hlab']
        simp [HarmlessRaise, hr, hf, hb]
      | false =>
        have hlands := (renders_eq_lands cfg job df i).symm.trans hr
        obtain ⟨e, he⟩ := Offer.take_raises hroom hlands
        have hb : windowBody cfg job df i st = .error e := (windowBody_eq_take hl st).trans he
        rw [lossless_raise hroom hlands, ← harmlessRaise_iff hlab']
        simp [HarmlessRaise, hhas, hr, hb]
    · have hhas : hasRoom cfg job.split df st i = false := by
        rw [hasRoom_eq hl, hcls]
        exact decide_eq_false hroom
      have hb : windowBody cfg job df i st = .ok st := windowBody_closed hl (not_lt.mp hroom)
      cases hf : allFull cfg job.split st with
      | false =>
        rw [lossless_closed (by rw [hcls]; exact not_lt.mp hroom), ih hlab']
        simp [HarmlessRaise, hhas, hb]
      | true =>
        -- the window loop breaks here, and all the offers are of full labels
        refine iff_of_true ?_ ⟨by simp [HarmlessRaise, hhas], by simp⟩
        rw [← List.map_cons]
        refine lossless_of_full ?_ ((allFull_eq_full job.split st).symm.trans hf)
        rw [List.forall_mem_map]
        intro j _
        exact offer_cls_mem cfg job df j

/-- And on a list of batches, at the points of the run. -/
theorem losslessAll_iff (cfg : Config) (jobs : List Job) (st : St) :
    LosslessAll cfg.targetImagesPerClass (jobs.map (batch cfg)) st ↔
      Always (step cfg) (HarmlessRaise cfg) (tickers jobs st) := by
  induction jobs generalizing st with
  | nil => simp [LosslessAll, always_nil, HarmlessRaise]
  | cons job rest ih =>
    rw [List.map_cons, LosslessAll,
      show full _ (batch cfg job).classes st = allFull cfg job.split st from
        (allFull_eq_full job.split st).symm]
    cases hf : allFull cfg job.split st with
    | true => simp [always_full hf, HarmlessRaise]
    | false =>
      have hin : Lossless cfg.targetImagesPerClass (batch cfg job).offers st ↔
          ∀ df indices, tickerWindows cfg job = some (df, indices) →
            AlongWindows cfg (HarmlessRaise cfg) job df rest indices st := by
        show Lossless _ (offers cfg job) st ↔ _
        cases hw : tickerWindows cfg job with
        | none => simp [offers_skip hw, Lossless]
        | some w =>
          have hlab : ∀ i ∈ w.2, ∃ l, labelAt cfg w.1 i = .ok l := by
            intro i hi
            exact labelAt_of_tickerWindows hw hi
          rw [offers_enter hw, lossless_iff_alongWindows hlab, forall_windows_some]
      rw [always_cons hf, tickerBody_eq_fill, ← ih, ← hin]
      simp only [HarmlessRaise, true_and, forall_true_left]
      rfl

/-! ## Distinct tickers offer distinct files -/

theorem offer_filename (cfg : Config) (job : Job) (df : DataFrame) (i : ℕ) :
    (offer cfg job df i).item.filename = filename job.ticker i := by
  unfold offer
  split
  · rfl
  · rfl

theorem exists_filename (cfg : Config) (job : Job) :
    ∀ o ∈ offers cfg job, ∃ i, o.item.filename = filename job.ticker i := by
  rw [forall_mem_offers]
  intro df indices _ i _
  exact ⟨i, offer_filename cfg job df i⟩

theorem nodup_filenames_offers (cfg : Config) (job : Job) :
    ((offers cfg job).map fun o => o.item.filename).Nodup := by
  cases hw : tickerWindows cfg job with
  | none => rw [offers_skip hw]; exact List.nodup_nil
  | some w =>
    rw [offers_enter hw, List.map_map]
    refine List.Nodup.map_on ?_ (nodup_tickerWindows hw)
    intro i _ j _ heq
    simp only [Function.comp_apply, offer_filename] at heq
    exact (filename_inj heq).2

/-- For distinct tickers no name is offered twice. -/
theorem nodup_filenames (hd : (jobs.map Job.ticker).Nodup) :
    (((jobs.map (batch cfg)).flatMap Batch.offers).map fun o => o.item.filename).Nodup := by
  induction jobs with
  | nil => exact List.nodup_nil
  | cons job rest ih =>
    rw [List.map_cons, List.nodup_cons] at hd
    rw [List.map_cons, List.flatMap_cons, List.map_append, List.nodup_append]
    refine ⟨nodup_filenames_offers cfg job, ih hd.2, ?_⟩
    intro a ha b hb hab
    obtain ⟨o, ho, rfl⟩ := List.mem_map.mp ha
    obtain ⟨p, hp, rfl⟩ := List.mem_map.mp hb
    obtain ⟨b', hb', hp'⟩ := List.mem_flatMap.mp hp
    obtain ⟨other, hother, rfl⟩ := List.mem_map.mp hb'
    obtain ⟨i, hi⟩ := exists_filename cfg job o ho
    obtain ⟨j, hj⟩ := exists_filename cfg other p hp'
    refine hd.1 (List.mem_map.mpr ⟨other, hother, ?_⟩)
    exact (filename_inj (hj.symm.trans (hab.symm.trans hi))).1

/-- **When a raise costs only its own window.** If wherever a render raises no window behind it
would still have been drawn, the counts and the files are those of the run without the raising
windows. For distinct tickers this is the only case in which they are. -/
theorem raise_costs_one_window (cfg : Config) (jobs : List Job) :
    (Always (step cfg) (HarmlessRaise cfg) (start jobs) →
      SameDataset (fetchAndGenerateCandlesticks cfg jobs)
        (tickerLoopSpared cfg jobs Store.empty)) ∧
    ((jobs.map Job.ticker).Nodup →
      SameDataset (fetchAndGenerateCandlesticks cfg jobs)
        (tickerLoopSpared cfg jobs Store.empty) →
      Always (step cfg) (HarmlessRaise cfg) (start jobs)) := by
  rw [start, ← losslessAll_iff, fetchAndGenerateCandlesticks, tickerLoop_eq_fillAll,
    tickerLoopSpared_eq_fillAll]
  constructor
  · intro h
    rw [fillAll_eq_spared h]
    exact ⟨fun _ => rfl, fun _ => Iff.rfl⟩
  · intro hd hsame
    by_contra hlossy
    have hnd : (((jobs.map (batch cfg)).flatMap Batch.offers).map Offer.item).Nodup := by
      apply List.Nodup.of_map Image.filename
      rw [List.map_map]
      exact nodup_filenames hd
    obtain ⟨img, hspared, hlost⟩ := exists_lost hnd (fun _ _ => List.not_mem_nil) hlossy
    exact hlost ((hsame.2 img).mpr hspared)

def firstRaisesJob : Job := { threeWindowsJob "AAPL" .train with
  plot := fun img _ => if img.filename = filename "AAPL" 0 then .error (.other "plot") else .ok () }

/-- The first of three charts raises, and the other two are lost with it. -/
theorem not_sameDataset_firstRaises :
    ¬ SameDataset (fetchAndGenerateCandlesticks (Config.quota 50) [firstRaisesJob])
      (tickerLoopSpared (Config.quota 50) [firstRaisesJob] Store.empty) := by
  decide +kernel

end StockCharts
