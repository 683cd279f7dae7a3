import ProfHalide.Report.Regions

/-!
# The names of rows

A row that is named after a thread should be that thread's. The row for all threads of a region goes by
the name of the thread with index 0 unless there are several, whichever thread it was and also if there
was none.
-/

namespace ProfHalide

variable {φ : Type}

/-- What is asked of the names of the rows that a report prints for its regions. -/
structure LabelsTruthful (printer : Printer φ) (snapshot : Snapshot) (p : Ptr)
    (stats : PipelineStats) : Prop where
  /-- The rows of counters are those of the regions. -/
  rows : (reportPipeline printer.numbers snapshot p stats).filter (·.stage?.isSome) =
    (regionRecords snapshot p stats).flatMap (·.rows printer.numbers snapshot)
  /-- A row with the name of a thread has all the counters of that thread, which measured the region. -/
  truthful : ∀ R ∈ regionRecords snapshot p stats, ∀ row ∈ R.rows printer.numbers snapshot, ∀ k,
    row.stage? = some (R.threadLabel k) →
      ∃ th : ThreadIndex, th.val = k ∧ R.counters.used.get th = true ∧
        row = .counters (R.threadLabel k) (columns snapshot (R.events th)) ∧ printer.Whole row
  distinct : ∀ R ∈ regionRecords snapshot p stats,
    ((R.rows printer.numbers snapshot).map Print.stage?).Nodup

/-- The row that goes by the name of the thread with index 0 is that thread's, and the rows of threads
fit into the line buffer. -/
structure LabelsFit (printer : Printer φ) (snapshot : Snapshot) (p : Ptr) (stats : PipelineStats) :
    Prop where
  single : ∀ R ∈ regionRecords snapshot p stats, R.showThreads = false → R.used.length = 1 →
    R.used = [0]
  loops : ∀ R ∈ regionRecords snapshot p stats, R.showThreads = false → R.isLoop = true →
    R.used ≠ []
  shown : ∀ R ∈ regionRecords snapshot p stats, R.showThreads = true → ∀ th ∈ R.used,
    printer.Fits (.counters (R.threadLabel th.val) (columns snapshot (R.events th)))
  hidden : ∀ R ∈ regionRecords snapshot p stats, R.showThreads = false → R.used = [0] →
    printer.Fits (.counters (R.threadLabel 0) (columns snapshot (R.events 0)))

/-! ### The rows of a region -/

namespace RegionRecord

variable {R : RegionRecord} {snapshot : Snapshot} (printer : Printer φ)

/-- The rows that have the name of a thread. -/
theorem Exact.named_cases (hR : R.Exact snapshot) {row : Print φ} {k : Nat}
    (hrow : row ∈ R.rows printer.numbers snapshot) (hname : row.stage? = some (R.threadLabel k)) :
    (R.showThreads = true ∧ ∃ th ∈ R.used, th.val = k ∧
        row = .counters (R.threadLabel k) (columns snapshot (R.events th))) ∨
      R.Unnamed ∧ k = 0 ∧ row = .counters (R.threadLabel 0) (columns snapshot R.sum) := by
  rw [hR.rows_eq printer, List.mem_append, mem_threadRows] at hrow
  rcases hrow with ⟨hshow, th, hth, rfl⟩ | hrow
  · have hk := threadLabel_inj.mp (Option.some.inj hname)
    subst hk
    exact Or.inl ⟨hshow, th, hth, rfl, rfl⟩
  · rcases R.summaryRow_cases snapshot with ⟨_, h⟩ | ⟨hunnamed, h⟩ | ⟨_, _, h⟩ <;> rw [h] at hrow
    · rw [List.mem_singleton.mp hrow] at hname
      exact absurd (Option.some.inj hname).symm (threadLabel_ne_totalLabel k)
    · rw [List.mem_singleton.mp hrow] at hname ⊢
      exact Or.inr ⟨hunnamed, (threadLabel_inj.mp (Option.some.inj hname)).symm, rfl⟩
    · cases hrow

theorem Exact.shown_mem (hR : R.Exact snapshot) (hshow : R.showThreads = true) {th : ThreadIndex}
    (hth : th ∈ R.used) :
    .counters (R.threadLabel th.val) (columns snapshot (R.events th)) ∈
      R.rows printer.numbers snapshot := by
  rw [hR.rows_eq printer, List.mem_append, mem_threadRows]
  exact Or.inl ⟨hshow, th, hth, rfl⟩

theorem Exact.unnamed_mem (hR : R.Exact snapshot) (hunnamed : R.Unnamed) :
    .counters (R.threadLabel 0) (columns snapshot R.sum) ∈ R.rows printer.numbers snapshot := by
  rw [hR.rows_eq printer, List.mem_append]
  right
  rcases R.summaryRow_cases snapshot with ⟨hseveral, _⟩ | ⟨_, h⟩ | ⟨_, hnot, _⟩
  · exact absurd hseveral hunnamed.not_several
  · rw [h]
    exact List.mem_singleton_self _
  · exact absurd hunnamed hnot

/-- No two rows of a region have the same name. -/
theorem Exact.nodup_stages (hR : R.Exact snapshot) :
    ((R.rows printer.numbers snapshot).map Print.stage?).Nodup := by
  have hthreads : ((R.threadRows snapshot : List (Print φ)).map Print.stage?).Nodup := by
    rw [threadRows]
    split
    · rw [List.map_map]
      apply List.Nodup.map _ ((List.nodup_finRange _).filter _)
      intro th th' h
      exact Fin.ext (threadLabel_inj.mp (Option.some.inj h))
    · exact List.nodup_nil
  rw [hR.rows_eq printer, List.map_append]
  rcases R.summaryRow_cases snapshot with ⟨_, h⟩ | ⟨hunnamed, h⟩ | ⟨_, _, h⟩ <;> rw [h]
  · apply List.nodup_append.mpr
    refine ⟨hthreads, List.nodup_singleton _, ?_⟩
    intro stage hstage total htotal heq
    obtain ⟨row, hrow, rfl⟩ := List.mem_map.mp hstage
    obtain ⟨_, th, _, rfl⟩ := mem_threadRows.mp hrow
    rw [List.mem_singleton.mp htotal] at heq
    exact threadLabel_ne_totalLabel th.val (Option.some.inj heq)
  · have hnone : (R.threadRows snapshot : List (Print φ)) = [] := by
      rw [threadRows, if_neg (by simp [hunnamed.1])]
    rw [hnone]
    exact List.nodup_singleton _
  · rw [List.map_nil, List.append_nil]
    exact hthreads

end RegionRecord

/-! ### The report -/

section Report

variable (printer : Printer φ) {snapshot : Snapshot} {p : Ptr} {stats : PipelineStats}

theorem LabelsFit.of_truthful (h : Reported snapshot p stats)
    (hlabels : LabelsTruthful printer snapshot p stats) : LabelsFit printer snapshot p stats := by
  -- A row for all threads that has the name of a thread makes thread 0 one of the region's.
  have hunnamed : ∀ R ∈ regionRecords snapshot p stats, R.Unnamed → 0 ∈ R.used ∧
      printer.Fits (.counters (R.threadLabel 0) (columns snapshot R.sum)) := by
    intro R hR hunnamed
    have hrow := (h.exact R hR).unnamed_mem printer hunnamed
    obtain ⟨th, hzero, hused, _, hwhole⟩ := hlabels.truthful R hR _ hrow 0 rfl
    have hth : th = 0 := Fin.ext hzero
    rw [hth] at hused
    exact ⟨RegionRecord.mem_used.mpr hused, (printer.whole_iff_fits _).mp hwhole⟩
  refine ⟨?_, ?_, ?_, ?_⟩
  · intro R hR hshow hone
    obtain ⟨th, hth⟩ := List.length_eq_one_iff.mp hone
    have hmem := (hunnamed R hR ⟨hshow, Or.inl hone⟩).1
    rw [hth, List.mem_singleton] at hmem
    rw [hth, hmem]
  · intro R hR hshow hloop hused
    have hmem := (hunnamed R hR ⟨hshow, Or.inr ⟨hloop, hused⟩⟩).1
    rw [hused] at hmem
    cases hmem
  · intro R hR hshow th hth
    have hrow := (h.exact R hR).shown_mem printer hshow hth
    obtain ⟨_, _, _, _, hwhole⟩ := hlabels.truthful R hR _ hrow th.val rfl
    exact (printer.whole_iff_fits _).mp hwhole
  · intro R hR hshow hused
    rw [← R.sum_of_single hused]
    exact (hunnamed R hR ⟨hshow, Or.inl (by rw [hused]; rfl)⟩).2

theorem LabelsFit.truthful (h : Reported snapshot p stats)
    (hfit : LabelsFit printer snapshot p stats) : LabelsTruthful printer snapshot p stats where
  rows := h.filter_rows printer
  distinct R hR := (h.exact R hR).nodup_stages printer
  truthful := by
    intro R hR row hrow k hname
    rcases (h.exact R hR).named_cases printer hrow hname with
      ⟨hshow, th, hth, rfl, rfl⟩ | ⟨hunnamed, rfl, rfl⟩
    · exact ⟨th, rfl, RegionRecord.mem_used.mp hth, rfl,
        (printer.whole_iff_fits _).mpr (hfit.shown R hR hshow th hth)⟩
    · have hused : R.used = [0] := by
        rcases hunnamed.2 with hone | ⟨hloop, hnone⟩
        · exact hfit.single R hR hunnamed.1 hone
        · exact absurd hnone (hfit.loops R hR hunnamed.1 hloop)
      have hmem : (0 : ThreadIndex) ∈ R.used := by
        rw [hused]
        exact List.mem_singleton_self _
      rw [R.sum_of_single hused]
      exact ⟨0, rfl, RegionRecord.mem_used.mp hmem, rfl,
        (printer.whole_iff_fits _).mpr (hfit.hidden R hR hunnamed.1 hused)⟩

/-- The names of threads are right exactly if a row that goes by the name of thread 0 is that thread's,
and the rows of threads fit into the line buffer. -/
theorem labelsTruthful_iff (h : Reported snapshot p stats) :
    LabelsTruthful printer snapshot p stats ↔ LabelsFit printer snapshot p stats :=
  ⟨LabelsFit.of_truthful printer h, LabelsFit.truthful printer h⟩

end Report

/-- Two threads measure the production of a func, and nobody its loop. -/
theorem labelsTruthful_iff_blur :
    LabelsTruthful decimalPrinter blurReport.snapshot 1 blurStats ↔
      LabelsFit decimalPrinter blurReport.snapshot 1 blurStats :=
  labelsTruthful_iff decimalPrinter reported_blur

/-! ### Another thread -/

/-- One loop that only the thread with index 1 measured. -/
def otherThreadStats : PipelineStats :=
  { blurStats with
    funcs := [⟨0, 2, 0, 1, false, false, .zero, .zero, .zero⟩]
    loops := [⟨4, false, { Counters.zero.markUsed 1 with iterations := 1 }⟩]
    numFuncs := 1 }

theorem reported_otherThread : Reported blurReport.snapshot 1 otherThreadStats :=
  .of_events (fun _ _ => rfl) (by decide) (by decide) (by decide) (by decide)

/-- Its row has the name of the thread with index 0. -/
theorem not_labelsTruthful_otherThread : Reported blurReport.snapshot 1 otherThreadStats ∧
    ¬ LabelsTruthful decimalPrinter blurReport.snapshot 1 otherThreadStats := by
  refine ⟨reported_otherThread, fun h => ?_⟩
  have hloop := (LabelsFit.of_truthful decimalPrinter reported_otherThread h).single _
    (List.mem_singleton_self _) rfl rfl
  revert hloop
  decide

end ProfHalide
