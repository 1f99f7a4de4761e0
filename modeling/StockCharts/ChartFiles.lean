import StockCharts.Disk

/-!
# Charts below a directory that is cleared

Two generators remove what an earlier run left before they write: one removes its output directory,
the other the class directories below it. Both write a chart as `out/split/class/name`. What is the
same for the two is here: the paths, and **what a class directory holds** once charts were written
to a disk that had nothing there (`filesIn_writeCharts`, `ncard_filesIn_writeCharts`).
-/

set_option autoImplicit false

namespace StockCharts

/-- A file of the dataset, by the components of its path below the output directory. -/
structure Chart where
  split : Split
  cls : Cls
  filename : String
  deriving DecidableEq, Repr

def classDir (out : String) (s : Split) (c : Cls) : String := pathJoin out [s.name, c.name]

def Chart.path (out : String) (chart : Chart) : String :=
  pathJoin out [chart.split.name, chart.cls.name, chart.filename]

/-- The path is somewhere below the directory. -/
def Under (dir p : String) : Prop := (dir ++ "/").toList <+: p.toList

instance (dir p : String) : Decidable (Under dir p) := inferInstanceAs (Decidable (_ <+: _))

def Disk.rmtree (d : Disk) (path : String) : Disk where
  dirs := d.dirs.filter fun p => ¬ (p = path ∨ Under path p)
  files := d.files.filter fun p => ¬ Under path p

def writeCharts (out : String) (charts : List Chart) (d : Disk) : Disk :=
  charts.foldl (fun d chart => d.write (chart.path out)) d

variable {out p : String} {s : Split} {c : Cls} {chart : Chart} {charts : List Chart} {d : Disk}

theorem mem_rmtree {path : String} :
    p ∈ (d.rmtree path).files ↔ p ∈ d.files ∧ ¬ Under path p := Finset.mem_filter

/-! ## Paths -/

theorem chartPath_eq (h : '/' ∉ chart.filename.toList) :
    chart.path out = classDir out chart.split chart.cls ++ "/" ++ chart.filename :=
  pathJoin_triple chart.split.isName chart.cls.isName h

theorem classDir_inj {s' : Split} {c' : Cls} (h : classDir out s c = classDir out s' c') :
    s = s' ∧ c = c' := by
  obtain ⟨hs, hc⟩ := pathJoin_pair_inj s.isName s'.isName c.isName c'.isName h
  exact ⟨Split.name_inj hs, Cls.name_inj hc⟩

theorem inDir_chartPath_iff (h : '/' ∉ chart.filename.toList) :
    InDir (classDir out s c) (chart.path out) ↔ chart.split = s ∧ chart.cls = c := by
  rw [chartPath_eq h]
  constructor
  · rintro ⟨name, hname, heq⟩
    exact classDir_inj (inDir_unique h hname heq).1
  · rintro ⟨rfl, rfl⟩
    exact ⟨chart.filename, h, rfl⟩

/-- Charts of different names, splits or classes are different files. -/
theorem chartPath_inj {chart' : Chart} (h : '/' ∉ chart.filename.toList)
    (h' : '/' ∉ chart'.filename.toList) (heq : chart.path out = chart'.path out) :
    chart = chart' := by
  rw [chartPath_eq h, chartPath_eq h'] at heq
  obtain ⟨hdir, hname⟩ := inDir_unique h h' heq
  obtain ⟨hs, hc⟩ := classDir_inj hdir
  cases chart
  cases chart'
  simp only [Chart.mk.injEq]
  exact ⟨hs, hc, hname⟩

theorem under_of_inDir {dir : String} (h : InDir dir p) : Under dir p := by
  obtain ⟨name, -, rfl⟩ := h
  exact ⟨name.toList, String.toList_append.symm⟩

/-- What is below a class directory is below the output directory. -/
theorem under_of_classDir (hout : IsName out) (h : Under (classDir out s c) p) : Under out p := by
  have hroot : pathRoot out = out ++ "/" := by
    simpa using pathRoot_append_name (a := "") hout
  refine List.IsPrefix.trans ?_ h
  rw [classDir, pathJoin_pair s.isName c.isName.slash_free, hroot]
  simp only [String.toList_append, List.append_assoc]
  rw [← List.append_assoc]
  exact List.prefix_append _ _

/-! ## What a class directory holds -/

def chartsIn (s : Split) (c : Cls) (charts : List Chart) : List Chart :=
  charts.filter fun chart => decide (chart.split = s ∧ chart.cls = c)

theorem mem_chartsIn : chart ∈ chartsIn s c charts ↔
    chart ∈ charts ∧ chart.split = s ∧ chart.cls = c := by
  rw [chartsIn, List.mem_filter, decide_eq_true_eq]

theorem length_chartsIn (s : Split) (c : Cls) (charts : List Chart) :
    (chartsIn s c charts).length =
      charts.countP fun chart => decide (chart.split = s ∧ chart.cls = c) :=
  List.countP_eq_length_filter.symm

theorem countP_splits (charts : List Chart) (c : Cls) :
    charts.countP (fun chart => decide (chart.cls = c)) =
      charts.countP (fun chart => decide (chart.split = .train ∧ chart.cls = c)) +
        charts.countP (fun chart => decide (chart.split = .val ∧ chart.cls = c)) := by
  induction charts with
  | nil => rfl
  | cons chart charts ih =>
    rw [List.countP_cons, List.countP_cons, List.countP_cons, ih]
    cases chart.split
    · simp
      omega
    · simp
      omega

/-- Written to a class directory that was empty, the charts of the class are all it holds. -/
theorem filesIn_writeCharts (hempty : ∀ p ∈ d.files, ¬ Under (classDir out s c) p)
    (hplain : ∀ chart ∈ charts, '/' ∉ chart.filename.toList) :
    (writeCharts out charts d).filesIn (classDir out s c) =
      (((chartsIn s c charts).map (Chart.path out)).toFinset : Finset String) := by
  ext p
  show (p ∈ (writeCharts out charts d).files ∧ InDir _ p) ↔ p ∈ ((_ : Finset String) : Set String)
  rw [writeCharts, mem_foldl_write, List.coe_toFinset, Set.mem_ofPred_eq, List.mem_map]
  constructor
  · rintro ⟨hp | ⟨chart, hchart, rfl⟩, hin⟩
    · exact absurd (under_of_inDir hin) (hempty p hp)
    · have hkey := (inDir_chartPath_iff (hplain chart hchart)).mp hin
      exact ⟨chart, mem_chartsIn.mpr ⟨hchart, hkey⟩, rfl⟩
  · rintro ⟨chart, hchart, rfl⟩
    obtain ⟨hmem, hkey⟩ := mem_chartsIn.mp hchart
    exact ⟨Or.inr ⟨chart, hmem, rfl⟩, (inDir_chartPath_iff (hplain chart hmem)).mpr hkey⟩

/-- As many files as charts of the class, where no chart is written twice. -/
theorem ncard_filesIn_writeCharts (hempty : ∀ p ∈ d.files, ¬ Under (classDir out s c) p)
    (hplain : ∀ chart ∈ charts, '/' ∉ chart.filename.toList) (hnd : charts.Nodup) :
    ((writeCharts out charts d).filesIn (classDir out s c)).ncard =
      charts.countP fun chart => decide (chart.split = s ∧ chart.cls = c) := by
  have hpaths : ((chartsIn s c charts).map (Chart.path out)).Nodup := by
    apply List.Nodup.map_on _ (hnd.filter _)
    intro x hx y hy hpath
    exact chartPath_inj (hplain x (List.mem_of_mem_filter hx))
      (hplain y (List.mem_of_mem_filter hy)) hpath
  rw [filesIn_writeCharts hempty hplain, Set.ncard_coe_finset, List.toFinset_card_of_nodup hpaths,
    List.length_map, length_chartsIn]

end StockCharts
