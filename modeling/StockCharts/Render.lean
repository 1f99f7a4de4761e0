import StockCharts.Disk

/-!
# Collected windows, and what is drawn of them

The other versions of the generator label first and draw last. The windows are collected by split
and label, each as an item that is ready to be drawn, and then all of them are drawn, **each under a
handler of its own**: the files of a split and a label are the items whose chart did not raise
(`chartsOf_renderAll`).
-/

set_option autoImplicit false

namespace StockCharts
namespace Render

/-- A window to draw. -/
structure Item where
  window : List Row
  ticker : String
  windowId : ℕ

abbrev Results := Split → Label → List Item

def Results.empty : Results := fun _ _ => []

def Results.add (r : Results) (split : Split) (label : Label) (x : Item) : Results :=
  fun s l => if s = split ∧ l = label then r s l ++ [x] else r s l

def itemAt (cfg : Config) (ticker : String) (df : DataFrame) (i : ℕ) : Item :=
  ⟨normalise (window cfg df i), ticker, i⟩

/-- The windows of the label among the indices, as items. -/
def labelled (labelAt : ℕ → Except PyError Label) (itemAt : ℕ → Item) (l : Label)
    (indices : List ℕ) : List Item :=
  (indices.filter fun i => decide (labelAt i = .ok l)).map itemAt

/-- To add the item of an index is to have it among the indices. -/
theorem add_append_labelled {labelAt : ℕ → Except PyError Label} {itemAt : ℕ → Item} {i : ℕ}
    {m : Label} (h : labelAt i = .ok m) (r : Results) (split s : Split) (l : Label)
    (indices : List ℕ) :
    r.add split m (itemAt i) s l ++ (if s = split then labelled labelAt itemAt l indices else []) =
      r s l ++ if s = split then labelled labelAt itemAt l (i :: indices) else [] := by
  rw [Results.add]
  by_cases hs : s = split
  · by_cases hlm : m = l
    · simp [hs, hlm, labelled, h]
    · have hno : ¬ l = m := fun hml => hlm hml.symm
      simp [hs, hlm, hno, labelled, h]
  · simp [hs]

/-- `all_tickers`, for the two lists of tickers. -/
def allEntries (train val : List String) : List (String × Split) :=
  train.map (·, .train) ++ val.map (·, .val)

/-! ## The second half of `fetch_and_generate_candlesticks` -/

/-- `mpf.plot`, with the two calls that make its style. -/
abbrev Plot := Image → List Row → Except PyError Unit

def renderItem (plot : Plot) (s : Split) (l : Label) (files : List Image) (x : Item) : List Image :=
  let img : Image := ⟨s, l, filename x.ticker x.windowId⟩
  match plot img x.window with
  | .error _ => files
  | .ok _ => files ++ [img]

def renderAll (plot : Plot) (items : Results) : List Image :=
  splits.foldl (fun files s =>
    labels.foldl (fun files l => (items s l).foldl (renderItem plot s l) files) files) []

/-! ## What is drawn -/

/-- The calls to `mpf.plot` for a split and a label: the chart, and the window it shows. -/
def calls (s : Split) (l : Label) (xs : List Item) : List (Image × List Row) :=
  xs.map fun x => (⟨s, l, filename x.ticker x.windowId⟩, x.window)

def plotted (plot : Plot) (call : Image × List Row) : Bool := (plot call.1 call.2).isOk

variable {plot : Plot} {items : Results} {xs : List Item} {s s' : Split} {l l' : Label}

/-- One list of items adds the images whose plot answers. -/
theorem foldl_renderItem (xs : List Item) (files : List Image) :
    xs.foldl (renderItem plot s l) files =
      files ++ ((calls s l xs).filter (plotted plot)).map Prod.fst := by
  induction xs generalizing files with
  | nil => simp [calls]
  | cons x xs ih =>
    have hcalls : calls s l (x :: xs) =
        (⟨s, l, filename x.ticker x.windowId⟩, x.window) :: calls s l xs := rfl
    rw [List.foldl_cons, ih, hcalls, renderItem]
    cases hp : plot ⟨s, l, filename x.ticker x.windowId⟩ x.window with
    | error e => rw [List.filter_cons_of_neg (by simp [plotted, hp, Except.isOk, Except.toBool])]
    | ok u =>
      rw [List.filter_cons_of_pos (by simp [plotted, hp, Except.isOk, Except.toBool]), List.map_cons,
        List.append_assoc]
      rfl

def rendered (plot : Plot) (s : Split) (l : Label) (xs : List Item) : List Image :=
  ((calls s l xs).filter (plotted plot)).map Prod.fst

theorem renderAll_eq (plot : Plot) (items : Results) :
    renderAll plot items =
      splits.flatMap fun s => labels.flatMap fun l => rendered plot s l (items s l) := by
  simp only [renderAll, foldl_renderItem, List.flatMap_eq_foldl, splits, labels, List.foldl_cons,
    List.foldl_nil, List.nil_append, List.append_assoc]
  rfl

/-- The charts of a split and a label. -/
def chartsOf (s : Split) (l : Label) (files : List Image) : List Image :=
  files.filter fun img => decide (img.split = s ∧ img.label = l)

def imagesIn (s : Split) (l : Label) (files : List Image) : ℕ :=
  files.countP fun img => decide (img.split = s ∧ img.label = l)

theorem chartsOf_rendered (xs : List Item) :
    chartsOf s l (rendered plot s' l' xs) =
      if s' = s ∧ l' = l then rendered plot s' l' xs else [] := by
  have hkey : ∀ img ∈ rendered plot s' l' xs, img.split = s' ∧ img.label = l' := by
    intro img himg
    obtain ⟨call, hcall, rfl⟩ := List.mem_map.mp himg
    obtain ⟨x, -, rfl⟩ := List.mem_map.mp (List.mem_of_mem_filter hcall)
    exact ⟨rfl, rfl⟩
  by_cases h : s' = s ∧ l' = l
  · obtain ⟨rfl, rfl⟩ := h
    rw [if_pos ⟨rfl, rfl⟩, chartsOf, List.filter_eq_self]
    exact fun img himg => decide_eq_true (hkey img himg)
  · rw [if_neg h, chartsOf, List.filter_eq_nil_iff]
    intro img himg
    rw [decide_eq_true_eq, (hkey img himg).1, (hkey img himg).2]
    exact h

/-- **The files of a split and a label are its items, but for those whose chart raised.** -/
theorem chartsOf_renderAll (plot : Plot) (items : Results) (s : Split) (l : Label) :
    chartsOf s l (renderAll plot items) = rendered plot s l (items s l) := by
  have hrun : chartsOf s l (renderAll plot items) =
      splits.flatMap fun s' => labels.flatMap fun l' =>
        chartsOf s l (rendered plot s' l' (items s' l')) := by
    simp only [renderAll_eq, chartsOf, List.filter_flatMap]
  rw [hrun]
  simp only [chartsOf_rendered, splits, labels, List.flatMap_cons, List.flatMap_nil]
  cases s <;> cases l <;> simp

theorem imagesIn_renderAll (plot : Plot) (items : Results) (s : Split) (l : Label) :
    imagesIn s l (renderAll plot items) = (calls s l (items s l)).countP (plotted plot) := by
  have hlen : imagesIn s l (renderAll plot items) = (chartsOf s l (renderAll plot items)).length :=
    List.countP_eq_length_filter
  rw [hlen, chartsOf_renderAll, rendered, List.length_map, List.countP_eq_length_filter]

end Render
end StockCharts
