import ProfHalide.Report.Regions

/-!
# The report adds up

The row of totals is the sum of the counters of all regions, and each region that was measured has one
row that its own sum can be read from, as long as these rows fit into the line buffer.
-/

namespace ProfHalide

variable {φ : Type}

/-! ### What is asked of a report -/

/-- The row of totals, and rows that the sums of the regions can be read from. -/
structure AddsUp (printer : Printer φ) (snapshot : Snapshot) (p : Ptr) (stats : PipelineStats) :
    Prop where
  /-- The rows of counters are those of the regions. -/
  rows : (reportPipeline printer.numbers snapshot p stats).filter (·.stage?.isSome) =
    (regionRecords snapshot p stats).flatMap (·.rows printer.numbers snapshot)
  /-- There is one row of totals, with the sums over all regions. -/
  total : let row : Print φ := .total (columns snapshot (grandTotal snapshot p stats))
    (reportPipeline printer.numbers snapshot p stats).filter Print.isTotal = [row] ∧
      printer.Whole row
  /-- A region with several threads has one row for all of them. -/
  several : ∀ R ∈ regionRecords snapshot p stats, 1 < R.used.length →
    let row : Print φ := .counters R.totalLabel (columns snapshot R.sum)
    (R.rows printer.numbers snapshot).filter (·.stage? = some R.totalLabel) = [row] ∧
      printer.Whole row
  /-- A region with one thread has one row, which has the name of a thread. -/
  single : ∀ R ∈ regionRecords snapshot p stats, R.used.length = 1 →
    ∃ k, let row : Print φ := .counters (R.threadLabel k) (columns snapshot R.sum)
      R.rows printer.numbers snapshot = [row] ∧ printer.Whole row
  /-- What nobody measured of a func has no rows. -/
  unused : ∀ R ∈ regionRecords snapshot p stats, R.isLoop = false → R.used = [] →
    R.rows printer.numbers snapshot = []
  /-- The sums of the regions that were measured add up to the totals. -/
  recovered : ∀ e, (((regionRecords snapshot p stats).filter (·.used ≠ [])).map (·.sum e)).sum =
    grandTotal snapshot p stats e

namespace RegionRecord

/-- The row that the sum of a region is read from: of the only thread, which goes by the number 0 where
threads are not shown, or of all threads. -/
def sumRow (R : RegionRecord) (snapshot : Snapshot) : Print φ :=
  match R.used with
  | [th] =>
      .counters (R.threadLabel (if R.showThreads then th.val else 0)) (columns snapshot R.sum)
  | _ => .counters R.totalLabel (columns snapshot R.sum)

end RegionRecord

/-- The row of totals and the rows that the sums of the regions are read from fit into the buffer. -/
structure SumsFit (printer : Printer φ) (snapshot : Snapshot) (p : Ptr) (stats : PipelineStats) :
    Prop where
  total : printer.Fits (.total (columns snapshot (grandTotal snapshot p stats)))
  regions : ∀ R ∈ regionRecords snapshot p stats, R.used ≠ [] → printer.Fits (R.sumRow snapshot)

/-! ### The rows of a region -/

namespace RegionRecord

variable {R : RegionRecord} {snapshot : Snapshot} (printer : Printer φ)

theorem sumRow_of_single {th : ThreadIndex} (h : R.used = [th]) :
    (R.sumRow snapshot : Print φ) =
      .counters (R.threadLabel (if R.showThreads then th.val else 0)) (columns snapshot R.sum) := by
  rw [sumRow, h]

theorem sumRow_of_several (h : 1 < R.used.length) :
    (R.sumRow snapshot : Print φ) = .counters R.totalLabel (columns snapshot R.sum) := by
  rw [sumRow]
  split
  · rename_i th hth
    rw [hth] at h
    exact absurd h (lt_irrefl 1)
  · rfl

/-- One thread has one row, its own or that of all threads together. -/
theorem Exact.rows_of_single (hR : R.Exact snapshot) {th : ThreadIndex} (h : R.used = [th]) :
    R.rows printer.numbers snapshot = [R.sumRow snapshot] := by
  rw [hR.rows_eq printer, sumRow_of_single h, threadRows, summaryRow, h, R.sum_of_single h]
  cases hshow : R.showThreads <;> cases hloop : R.isLoop <;>
    simp [summary, funcSummary, hshow, hloop]

/-- Of the rows of several threads one is named as the row of all. -/
theorem Exact.rows_of_several (hR : R.Exact snapshot) (h : 1 < R.used.length) :
    (R.rows printer.numbers snapshot).filter (·.stage? = some R.totalLabel) =
      [R.sumRow snapshot] := by
  have hthreads : (R.threadRows snapshot : List (Print φ)).filter
      (·.stage? = some R.totalLabel) = [] := by
    apply List.filter_eq_nil_iff.mpr
    intro row hrow
    obtain ⟨_, th, _, rfl⟩ := mem_threadRows.mp hrow
    simpa [Print.stage?] using threadLabel_ne_totalLabel th.val
  have hsummary : (R.summaryRow snapshot : List (Print φ)) = [R.sumRow snapshot] := by
    rw [sumRow_of_several h]
    rcases R.summaryRow_cases snapshot with ⟨_, hrow⟩ | ⟨hunnamed, _⟩ | ⟨hfew, _, _⟩
    · exact hrow
    · exact absurd h hunnamed.not_several
    · exact absurd h hfew
  rw [hR.rows_eq printer, List.filter_append, hthreads, hsummary, sumRow_of_several h]
  simp [Print.stage?]

theorem Exact.rows_of_unused (hR : R.Exact snapshot) (hfunc : R.isLoop = false) (h : R.used = []) :
    R.rows printer.numbers snapshot = [] := by
  rw [hR.rows_eq printer, threadRows, summaryRow, h]
  simp [summary, funcSummary, hfunc]

end RegionRecord

/-! ### The report -/

section Report

variable (printer : Printer φ) {snapshot : Snapshot} {p : Ptr} {stats : PipelineStats}

theorem Reportable.filter_total (h : Reportable snapshot p stats) :
    (reportPipeline printer.numbers snapshot p stats).filter Print.isTotal =
      [.total (columns snapshot (grandTotal snapshot p stats))] := by
  obtain ⟨times, htimes, hreport⟩ := h.reportPipeline_eq printer
  have hnone : times.filter Print.isTotal = [] := by
    apply List.filter_eq_nil_iff.mpr
    intro row hrow
    simp [(htimes row hrow).1]
  have hregions : ((regionRecords snapshot p stats).flatMap
      (·.rows printer.numbers snapshot)).filter Print.isTotal = [] := by
    apply List.filter_eq_nil_iff.mpr
    intro row hrow
    obtain ⟨R, hR, hrow⟩ := List.mem_flatMap.mp hrow
    have hstage := (h.exact R hR).stage_isSome printer row hrow
    cases row with
    | counters stage events => exact Bool.false_ne_true
    | _ => cases hstage
  rw [hreport, List.filter_append, List.filter_append, hnone, hregions]
  rfl

/-- Regions that nobody measured have nothing to add. -/
theorem sum_measured (regions : List RegionRecord) (e : Nat) :
    ((regions.filter (·.used ≠ [])).map (·.sum e)).sum = (regions.map (·.sum e)).sum := by
  induction regions with
  | nil => rfl
  | cons R regions ih =>
    by_cases h : R.used = []
    · rw [List.filter_cons_of_neg (by simp [h]), ih, List.map_cons, List.sum_cons,
        R.sum_of_unused h, zero_add]
    · rw [List.filter_cons_of_pos (by simp [h]), List.map_cons, List.sum_cons, ih, List.map_cons,
        List.sum_cons]

theorem SumsFit.of_addsUp (h : Reportable snapshot p stats) (hsums : AddsUp printer snapshot p stats) :
    SumsFit printer snapshot p stats where
  total := (printer.whole_iff_fits _).mp hsums.total.2
  regions := by
    intro R hR hused
    apply (printer.whole_iff_fits _).mp
    rcases Nat.lt_or_ge 1 R.used.length with hseveral | hone
    · rw [RegionRecord.sumRow_of_several hseveral]
      exact (hsums.several R hR hseveral).2
    · have hlength : R.used.length = 1 := le_antisymm hone (List.length_pos_of_ne_nil hused)
      obtain ⟨th, hth⟩ := List.length_eq_one_iff.mp hlength
      obtain ⟨k, hrows, hwhole⟩ := hsums.single R hR hlength
      rw [(h.exact R hR).rows_of_single printer hth] at hrows
      rw [List.singleton_inj.mp hrows]
      exact hwhole

theorem SumsFit.addsUp (h : Reportable snapshot p stats) (hfit : SumsFit printer snapshot p stats) :
    AddsUp printer snapshot p stats where
  rows := h.filter_rows printer
  total := ⟨h.filter_total printer, (printer.whole_iff_fits _).mpr hfit.total⟩
  several := by
    intro R hR hseveral
    have hwhole := (printer.whole_iff_fits _).mpr
      (hfit.regions R hR (List.length_pos_iff.mp (lt_trans Nat.one_pos hseveral)))
    have hrows := (h.exact R hR).rows_of_several printer hseveral
    rw [RegionRecord.sumRow_of_several hseveral] at hwhole hrows
    exact ⟨hrows, hwhole⟩
  single := by
    intro R hR hlength
    obtain ⟨th, hth⟩ := List.length_eq_one_iff.mp hlength
    have hwhole := (printer.whole_iff_fits _).mpr (hfit.regions R hR (by simp [hth]))
    have hrows := (h.exact R hR).rows_of_single printer hth
    rw [RegionRecord.sumRow_of_single hth] at hwhole hrows
    exact ⟨_, hrows, hwhole⟩
  unused := fun R hR hfunc hused => (h.exact R hR).rows_of_unused printer hfunc hused
  recovered := sum_measured _

/-- A report adds up exactly if the rows with the sums fit into the line buffer. -/
theorem addsUp_iff (h : Reportable snapshot p stats) :
    AddsUp printer snapshot p stats ↔ SumsFit printer snapshot p stats :=
  ⟨SumsFit.of_addsUp printer h, SumsFit.addsUp printer h⟩

end Report

theorem reportable_blur : Reportable blurReport.snapshot 1 blurStats := by
  refine ⟨reported_blur, ?_⟩
  simp only [grandTotal, RegionRecord.sum_eq]
  decide

/-- Two threads measure the production of a func, and nobody its loop. -/
theorem addsUp_iff_blur : AddsUp decimalPrinter blurReport.snapshot 1 blurStats ↔
    SumsFit decimalPrinter blurReport.snapshot 1 blurStats :=
  addsUp_iff decimalPrinter reportable_blur

/-! ### Many events -/

def wideSnapshot : Snapshot where
  numberOfEvents := 128
  string := fun p => if p = 4 then "blur.s0.y" else "overhead"
  events := fun _ _ _ _ => 100000000

/-- One loop that one thread measured. -/
def wideStats : PipelineStats :=
  { blurStats with
    funcs := [⟨0, 2, 0, 1, false, false, .zero, .zero, .zero⟩]
    loops := [⟨4, false, { Counters.zero.markUsed 0 with iterations := 1 }⟩]
    numFuncs := 1 }

theorem grandTotal_wide : grandTotal wideSnapshot 1 wideStats = fun _ => 100000000 := by
  funext e
  rw [grandTotal]
  simp only [RegionRecord.sum_eq]
  rfl

theorem reportable_wide : Reportable wideSnapshot 1 wideStats := by
  refine ⟨.of_events (fun _ _ => rfl) (by decide) (by decide) (by decide) ?_, ?_⟩
  · intro _ _ _
    show |(100000000 : Int)| < 2 ^ 53
    decide
  · intro e _
    rw [grandTotal_wide]
    show -2 ^ 63 ≤ (100000000 : Int) ∧ (100000000 : Int) < 2 ^ 63
    decide

/-- With as many events as there may be, the line buffer is too short for numbers of nine digits. -/
theorem not_addsUp_wide : Reportable wideSnapshot 1 wideStats ∧
    ¬ AddsUp decimalPrinter wideSnapshot 1 wideStats := by
  refine ⟨reportable_wide, fun h => ?_⟩
  have hwhole := h.total.2
  rw [grandTotal_wide, decimalPrinter.whole_iff_fits, Printer.Fits] at hwhole
  revert hwhole
  decide +kernel

end ProfHalide
