import ProfHalide.Report.Agreement
import ProfHalide.Lib.Rounding

/-!
# The regions of a report

The functions that report the overhead, the production and the consumption of a func and those of a loop
differ in the label of their rows and in when they add a row for all threads together. A report of a
pipeline is the rows of its regions one after the other, between the times and the totals. Each row is
put together in a buffer of fixed size before it is printed.
-/

namespace ProfHalide

variable {φ : Type}

/-! ### Printing -/

def MAX_PAPI_EVENTS : Nat := 128

/-- `sizeof(line_buf)`. -/
def LINE_BUF : Nat := 1024

/-- A value of type `double`: subnormal and infinite numbers do not come up. -/
def double (x : ℚ) : ℚ := Rounding.toBits 53 x

/-- `(long long)(counter * (PROFILE_GRANULARITY + ratio))`, rounded after each operation. -/
def scaledDouble (counter : Int) (iterations : Nat) : Int :=
  let ratio := double (double ((iterations % PROFILE_GRANULARITY : Nat) : Int) / double (iterations : Int))
  Rounding.towardZero (double (double counter * double (double (PROFILE_GRANULARITY : Int) + ratio)))

/-- What a report computes and prints with, where the numbers are doubles and decimals, and the
`Printer`, which comes from outside the repository, on its line buffer. -/
structure Printer (φ : Type) where
  numbers : Numbers φ
  scaled_eq : numbers.scaled = scaledDouble
  printInt_eq : ∀ n, numbers.printInt n = n.repr
  /-- How many characters of a row there is room for, besides the one that ends the string. -/
  capacity : Nat
  capacity_lt : capacity < LINE_BUF
  /-- What the buffer holds once a row was written to it. -/
  kept : List Char → List Char
  kept_eq : ∀ row, row.length ≤ capacity → kept row = row
  kept_length : ∀ row, (kept row).length ≤ capacity

theorem double_intCast {n : Int} (h : |n| < 2 ^ 53) : double n = n := Rounding.toBits_intCast h

/-- Every iteration is measured, so the fraction that is left is zero. -/
theorem scaledDouble_eq {counter : Int} (h : |counter| < 2 ^ 53) (iterations : Nat) :
    scaledDouble counter iterations = counter := by
  have hzero : double ((0 : Int) : ℚ) = 0 := by simpa using double_intCast (n := 0) (by norm_num)
  have hone : double ((1 : Int) : ℚ) = 1 := by simpa using double_intCast (n := 1) (by norm_num)
  have hratio : double (double ((iterations % PROFILE_GRANULARITY : Nat) : Int) /
      double (iterations : Int)) = 0 := by
    rw [PROFILE_GRANULARITY, Nat.mod_one]
    rw [Nat.cast_zero, hzero, zero_div]
    simpa using hzero
  have hfactor : double (double (PROFILE_GRANULARITY : Int) + 0) = 1 := by
    rw [PROFILE_GRANULARITY, Nat.cast_one, hone, add_zero]
    simpa using hone
  unfold scaledDouble
  dsimp only
  rw [hratio, hfactor, mul_one, double_intCast h, double_intCast h, Rounding.towardZero_intCast]

namespace Printer

variable (printer : Printer φ)

/-- The row fits into the line buffer. -/
def Fits (row : Print φ) : Prop := (printer.numbers.text row).length ≤ printer.capacity

/-- The row is printed with all of its characters. -/
def Whole (row : Print φ) : Prop :=
  printer.kept (printer.numbers.text row) = printer.numbers.text row

theorem whole_iff_fits (row : Print φ) : printer.Whole row ↔ printer.Fits row := by
  constructor
  · intro h
    have hlength := printer.kept_length (printer.numbers.text row)
    rwa [h] at hlength
  · exact printer.kept_eq _

end Printer

/-! ### Rows -/

namespace Print

def isTotal : Print φ → Bool
  | .total _ => true
  | _ => false

/-- The name of a row of counters. -/
def stage? : Print φ → Option String
  | .counters stage _ => some stage
  | _ => none

end Print

/-! ### Regions -/

/-- What the report of a region is about. -/
structure RegionRecord where
  /-- What the names of its rows begin with. -/
  label : String
  showThreads : Bool
  isLoop : Bool
  counters : Counters
  events : ThreadIndex → Nat → Int

namespace RegionRecord

section Sources

variable (snapshot : Snapshot) (p : Ptr) (i : Nat)

def funcOverhead (fs : FuncStats) : RegionRecord where
  label := snapshot.string fs.name ++ "_overhead"
  showThreads := fs.showThreadsProd
  isLoop := false
  counters := fs.overhead
  events := snapshot.events p (.overhead i)

def funcProdCons (fs : FuncStats) (isProd : Bool) : RegionRecord where
  label := snapshot.string fs.name ++ if isProd then "_prod" else "_cons"
  showThreads := if isProd then fs.showThreadsProd else fs.showThreadsCons
  isLoop := false
  counters := if isProd then fs.production else fs.consumption
  events := snapshot.events p (.func i isProd)

def loop (ls : LoopStats) : RegionRecord where
  label := snapshot.string ls.name
  showThreads := ls.showThreads
  isLoop := true
  counters := ls.counters
  events := snapshot.events p (.loop i)

end Sources

variable (R : RegionRecord)

def used : List ThreadIndex := usedThreads R.counters

/-- Whether there is a row for all threads together, given how many there are. -/
def summary (activeThreads : Nat) : Bool :=
  if R.isLoop then !R.showThreads || activeThreads > 1 else funcSummary R.showThreads activeThreads

def report (numbers : Numbers φ) (snapshot : Snapshot) (tot : List Int) : List (Print φ) × List Int :=
  reportRegion numbers snapshot R.label R.showThreads R.summary R.counters R.events tot

/-- The rows of a region; they do not depend on the totals so far. -/
def rows (numbers : Numbers φ) (snapshot : Snapshot) : List (Print φ) :=
  (R.report numbers snapshot []).1

/-- The counter of an event, over the threads that measured the region. -/
def sum (e : Nat) : Int := ∑ th : ThreadIndex with R.counters.used.get th, R.events th e

end RegionRecord

/-- The regions of a report in its order: three for each func but the one with index 0, then the
loops. -/
def regionRecords (snapshot : Snapshot) (p : Ptr) (stats : PipelineStats) : List RegionRecord :=
  (stats.funcs.zipIdx.drop 1).flatMap (fun (fs, i) =>
    [RegionRecord.funcOverhead snapshot p i fs, RegionRecord.funcProdCons snapshot p i fs true,
      RegionRecord.funcProdCons snapshot p i fs false]) ++
  stats.loops.zipIdx.map fun (ls, i) => RegionRecord.loop snapshot p i ls

theorem regionReports_eq (numbers : Numbers φ) (snapshot : Snapshot) (p : Ptr)
    (stats : PipelineStats) :
    regionReports numbers snapshot p stats =
      (regionRecords snapshot p stats).map (·.report numbers snapshot) := by
  rw [regionReports, regionRecords, List.map_append, List.map_flatMap, List.map_map]
  rfl

/-! ### What is measured -/

/-- The columns of a row. -/
def columns (snapshot : Snapshot) (counters : Nat → Int) : List Int :=
  (List.range snapshot.numberOfEvents).map counters

/-- The counter of an event over all regions of a report. -/
def grandTotal (snapshot : Snapshot) (p : Ptr) (stats : PipelineStats) (e : Nat) : Int :=
  ((regionRecords snapshot p stats).map (·.sum e)).sum

/-- The counters of a region are exact as doubles, and a region that was measured was left. -/
structure RegionRecord.Exact (R : RegionRecord) (snapshot : Snapshot) : Prop where
  left : R.used ≠ [] → 0 < R.counters.iterations
  exact : ∀ th, ∀ e < snapshot.numberOfEvents, |R.events th e| < 2 ^ 53

/-- A record that is reported: its counters are exact. -/
structure Reported (snapshot : Snapshot) (p : Ptr) (stats : PipelineStats) : Prop where
  runs : 0 < stats.runs
  events : 1 ≤ snapshot.numberOfEvents ∧ snapshot.numberOfEvents ≤ MAX_PAPI_EVENTS
  exact : ∀ R ∈ regionRecords snapshot p stats, R.Exact snapshot

/-- The totals are 64-bit numbers. -/
structure Reportable (snapshot : Snapshot) (p : Ptr) (stats : PipelineStats) : Prop
    extends Reported snapshot p stats where
  sums : ∀ e < snapshot.numberOfEvents,
    -2 ^ 63 ≤ grandTotal snapshot p stats e ∧ grandTotal snapshot p stats e < 2 ^ 63

/-! ### Sums of columns -/

section Columns

variable (snapshot : Snapshot)

theorem addEvents_columns (a b : Nat → Int) :
    addEvents (columns snapshot a) (columns snapshot b) = columns snapshot fun e => a e + b e := by
  rw [addEvents, columns, columns, columns, List.zipWith_map, List.zipWith_self]

theorem foldl_columns (rows : List (Nat → Int)) (a : Nat → Int) :
    (rows.map (columns snapshot)).foldl addEvents (columns snapshot a) =
      columns snapshot fun e => a e + (rows.map (· e)).sum := by
  induction rows generalizing a with
  | nil => simp
  | cons row rows ih =>
    rw [List.map_cons, List.foldl_cons, addEvents_columns, ih]
    congr 1
    funext e
    rw [List.map_cons, List.sum_cons, add_assoc]

theorem columns_zero : List.replicate snapshot.numberOfEvents 0 = columns snapshot fun _ => 0 := by
  rw [columns, List.map_const', List.length_range]

end Columns

namespace RegionRecord

variable (R : RegionRecord)

theorem sum_eq (e : Nat) : R.sum e = ((R.used.map R.events).map (· e)).sum := by
  have hset : (Finset.univ.filter fun th : ThreadIndex => R.counters.used.get th) = R.used.toFinset := by
    ext th
    simp [used, usedThreads]
  have hnodup : R.used.Nodup := (List.nodup_finRange _).filter _
  rw [sum, hset, List.sum_toFinset _ hnodup, List.map_map]
  rfl

theorem sum_of_unused (h : R.used = []) (e : Nat) : R.sum e = 0 := by
  rw [sum_eq, h]
  rfl

theorem sum_of_single {th : ThreadIndex} (h : R.used = [th]) : R.sum = R.events th := by
  funext e
  rw [sum_eq, h]
  simp

end RegionRecord

/-! ### The rows of a region -/

namespace RegionRecord

/-- The name of a thread's row. -/
def threadLabel (R : RegionRecord) (k : Nat) : String := R.label ++ "_t" ++ k.repr

def totalLabel (R : RegionRecord) : String := R.label ++ "_total"

variable {R : RegionRecord} {snapshot : Snapshot} (printer : Printer φ)

theorem mem_used {th : ThreadIndex} : th ∈ R.used ↔ R.counters.used.get th = true := by
  simp [used, usedThreads]

theorem threadLabel_inj {j k : Nat} : R.threadLabel j = R.threadLabel k ↔ j = k := by
  rw [threadLabel, threadLabel, String.append_right_inj, Nat.repr_inj]

theorem threadLabel_ne_totalLabel (k : Nat) : R.threadLabel k ≠ R.totalLabel := by
  have hsplit : "_total" = "_t" ++ "otal" := by decide
  rw [threadLabel, totalLabel, hsplit, ← String.append_assoc, Ne, String.append_right_inj]
  intro hdigits
  have hmem : 'o' ∈ (k : Int).repr.toList := by
    show 'o' ∈ k.repr.toList
    rw [hdigits]
    decide
  rcases repr_digits k 'o' hmem with h | h <;> exact absurd h (by decide)

/-- What is printed for a thread is what it counted. -/
theorem Exact.estimEvents (h : R.Exact snapshot) {th : ThreadIndex} (hth : th ∈ R.used) :
    estimEvents printer.numbers snapshot R.counters (R.events th) =
      columns snapshot (R.events th) := by
  have hleft := h.left (List.ne_nil_of_mem hth)
  apply List.map_congr_left
  intro e he
  rw [if_pos (show PROFILE_GRANULARITY ≤ R.counters.iterations from hleft), printer.scaled_eq]
  exact scaledDouble_eq (h.exact th e (List.mem_range.mp he)) _

theorem Exact.map_estimEvents (h : R.Exact snapshot) :
    R.used.map (fun th => ProfHalide.estimEvents printer.numbers snapshot R.counters (R.events th)) =
      (R.used.map R.events).map (columns snapshot) := by
  rw [List.map_map]
  exact List.map_congr_left fun th hth => h.estimEvents printer hth

/-- A region adds its counters to the totals. -/
theorem Exact.report_snd (h : R.Exact snapshot) (tot : Nat → Int) :
    (R.report printer.numbers snapshot (columns snapshot tot)).2 =
      columns snapshot fun e => tot e + R.sum e := by
  show (R.used.map fun th => _).foldl addEvents _ = _
  rw [h.map_estimEvents printer, foldl_columns]
  simp only [sum_eq]

/-- The rows of the threads, if they are shown. -/
def threadRows (R : RegionRecord) (snapshot : Snapshot) : List (Print φ) :=
  if R.showThreads then
    R.used.map fun th => .counters (R.threadLabel th.val) (columns snapshot (R.events th))
  else []

/-- The row of all threads, which takes the name of a thread unless there are several. -/
def summaryRow (R : RegionRecord) (snapshot : Snapshot) : List (Print φ) :=
  if R.summary R.used.length then
    [.counters (if R.used.length > 1 then R.totalLabel else R.threadLabel 0)
      (columns snapshot R.sum)]
  else []

theorem Exact.rows_eq (h : R.Exact snapshot) :
    R.rows printer.numbers snapshot = R.threadRows snapshot ++ R.summaryRow snapshot := by
  have hthreads : (if R.showThreads then R.used.map fun th =>
        (Print.counters (R.label ++ "_t" ++ printer.numbers.printInt th.val)
          (ProfHalide.estimEvents printer.numbers snapshot R.counters (R.events th)) : Print φ)
      else []) = R.threadRows snapshot := by
    rw [threadRows]
    split
    · apply List.map_congr_left
      intro th hth
      rw [h.estimEvents printer hth, printer.printInt_eq]
      rfl
    · rfl
  have htotal : (R.used.map fun th => ProfHalide.estimEvents printer.numbers snapshot R.counters
        (R.events th)).foldl addEvents (List.replicate snapshot.numberOfEvents 0) =
      columns snapshot R.sum := by
    rw [h.map_estimEvents printer, columns_zero, foldl_columns]
    congr 1
    funext e
    rw [zero_add, sum_eq]
  have hlabel : R.label ++ "_" ++ (if R.used.length > 1 then "total" else "t0") =
      if R.used.length > 1 then R.totalLabel else R.threadLabel 0 := by
    split
    · rw [String.append_assoc]
      rfl
    · rw [threadLabel, String.append_assoc, String.append_assoc]
      rfl
  show _ ++ _ = _
  rw [← hthreads, summaryRow, ← hlabel, ← htotal]
  rfl

/-- Where threads are not shown, a region without several threads can have one row. -/
def Unnamed (R : RegionRecord) : Prop :=
  R.showThreads = false ∧ (R.used.length = 1 ∨ R.isLoop = true ∧ R.used = [])

theorem Unnamed.not_several (h : R.Unnamed) : ¬ 1 < R.used.length := by
  rcases h.2 with hone | ⟨_, hnone⟩
  · rw [hone]
    decide
  · rw [hnone]
    decide

theorem mem_threadRows {row : Print φ} : row ∈ R.threadRows snapshot ↔
    R.showThreads = true ∧ ∃ th ∈ R.used,
      .counters (R.threadLabel th.val) (columns snapshot (R.events th)) = row := by
  rw [threadRows]
  split
  · rename_i hshow
    rw [List.mem_map]
    exact (and_iff_right hshow).symm
  · rename_i hshow
    constructor
    · intro h
      cases h
    · intro h
      exact absurd h.1 hshow

/-- The row of all threads is that of several, or it has the name of a thread. -/
theorem summaryRow_cases (R : RegionRecord) (snapshot : Snapshot) :
    1 < R.used.length ∧
        (R.summaryRow snapshot : List (Print φ)) =
          [.counters R.totalLabel (columns snapshot R.sum)] ∨
      R.Unnamed ∧
        (R.summaryRow snapshot : List (Print φ)) =
          [.counters (R.threadLabel 0) (columns snapshot R.sum)] ∨
      ¬ 1 < R.used.length ∧ ¬ R.Unnamed ∧ (R.summaryRow snapshot : List (Print φ)) = [] := by
  rw [summaryRow]
  by_cases hseveral : 1 < R.used.length
  · have hsummary : R.summary R.used.length = true := by
      rw [summary, funcSummary]
      split <;> simp [hseveral]
    left
    rw [if_pos hsummary, if_pos hseveral]
    exact ⟨hseveral, rfl⟩
  · have hiff : R.summary R.used.length = true ↔ R.Unnamed := by
      have hfew : R.used.length = 1 ∨ R.used = [] := by
        rw [← List.length_eq_zero_iff]
        omega
      rw [summary, funcSummary, Unnamed]
      cases R.isLoop
      · simp [hseveral]
      · simp [hseveral, hfew]
    right
    by_cases hunnamed : R.Unnamed
    · left
      rw [if_pos (hiff.mpr hunnamed), if_neg hseveral]
      exact ⟨hunnamed, rfl⟩
    · right
      rw [if_neg fun h => hunnamed (hiff.mp h)]
      exact ⟨hseveral, hunnamed, rfl⟩

/-- The rows of a region are rows of counters. -/
theorem Exact.stage_isSome (hR : R.Exact snapshot) :
    ∀ row ∈ R.rows printer.numbers snapshot, row.stage?.isSome = true := by
  intro row hrow
  rw [hR.rows_eq printer, List.mem_append, mem_threadRows] at hrow
  rcases hrow with ⟨_, _, _, rfl⟩ | hrow
  · rfl
  · rcases R.summaryRow_cases snapshot with ⟨_, h⟩ | ⟨_, h⟩ | ⟨_, _, h⟩ <;> rw [h] at hrow
    · rw [List.mem_singleton.mp hrow]
      rfl
    · rw [List.mem_singleton.mp hrow]
      rfl
    · cases hrow

end RegionRecord

/-! ### The report of a pipeline -/

section Pipeline

variable (printer : Printer φ) {snapshot : Snapshot} {p : Ptr} {stats : PipelineStats}

theorem reportAll_regions {regions : List RegionRecord} (hexact : ∀ R ∈ regions, R.Exact snapshot)
    (tot : Nat → Int) :
    reportAll (regions.map (·.report printer.numbers snapshot)) (columns snapshot tot) =
      (regions.flatMap (·.rows printer.numbers snapshot),
        columns snapshot fun e => tot e + (regions.map (·.sum e)).sum) := by
  induction regions generalizing tot with
  | nil => simp [reportAll]
  | cons R regions ih =>
    have hhead := (hexact R List.mem_cons_self).report_snd printer tot
    have htail := ih (fun R' hR' => hexact R' (List.mem_cons_of_mem _ hR'))
      fun e => tot e + R.sum e
    rw [List.map_cons, reportAll]
    dsimp only
    have hsum : (fun e => tot e + R.sum e + (regions.map (·.sum e)).sum) =
        fun e => tot e + ((R :: regions).map (·.sum e)).sum := by
      funext e
      rw [List.map_cons, List.sum_cons, add_assoc]
    rw [hhead, htail, hsum, List.flatMap_cons]
    rfl

/-- The times, the rows of the regions and the totals of a report. -/
theorem Reported.reportPipeline_eq (h : Reported snapshot p stats) :
    ∃ times : List (Print φ), (∀ row ∈ times, row.isTotal = false ∧ row.stage? = none) ∧
      reportPipeline printer.numbers snapshot p stats =
        times ++ ((regionRecords snapshot p stats).flatMap (·.rows printer.numbers snapshot) ++
          [.total (columns snapshot (grandTotal snapshot p stats))]) := by
  have hregions := reportAll_regions printer h.exact fun _ => 0
  simp only [zero_add] at hregions
  let all : Print φ := .times "all" (printer.numbers.seconds stats.time)
    (printer.numbers.average stats.activeThreadsNumerator stats.activeThreadsDenominator)
  let funcs : List (Print φ) := (stats.funcs.drop 1).map fun fs =>
    .times (snapshot.string fs.name) (printer.numbers.perRun fs.time stats.runs)
      (printer.numbers.average fs.activeThreadsNumerator fs.activeThreadsDenominator)
  refine ⟨all :: funcs ++ [.endTimes], ?_, ?_⟩
  · intro row hrow
    rcases List.mem_append.mp hrow with hrow | hrow
    · rcases List.mem_cons.mp hrow with rfl | hrow
      · exact ⟨rfl, rfl⟩
      · obtain ⟨_, _, rfl⟩ := List.mem_map.mp hrow
        exact ⟨rfl, rfl⟩
    · rw [List.mem_singleton.mp hrow]
      exact ⟨rfl, rfl⟩
  · rw [reportPipeline, regionReports_eq, columns_zero, hregions]
    simp only [List.cons_append, List.append_assoc, List.nil_append]
    rfl

/-- The rows of counters in a report are those of its regions. -/
theorem Reported.filter_rows (h : Reported snapshot p stats) :
    (reportPipeline printer.numbers snapshot p stats).filter (·.stage?.isSome) =
      (regionRecords snapshot p stats).flatMap (·.rows printer.numbers snapshot) := by
  obtain ⟨times, htimes, hreport⟩ := h.reportPipeline_eq printer
  have hnone : times.filter (·.stage?.isSome) = [] := by
    apply List.filter_eq_nil_iff.mpr
    intro row hrow
    simp [(htimes row hrow).2]
  have hall : ((regionRecords snapshot p stats).flatMap
      (·.rows printer.numbers snapshot)).filter (·.stage?.isSome) =
      (regionRecords snapshot p stats).flatMap (·.rows printer.numbers snapshot) := by
    apply List.filter_eq_self.mpr
    intro row hrow
    obtain ⟨R, hR, hrow⟩ := List.mem_flatMap.mp hrow
    exact (h.exact R hR).stage_isSome printer row hrow
  rw [hreport, List.filter_append, List.filter_append, hnone, hall]
  simp [Print.stage?]

end Pipeline

/-! ### A printer -/

/-- A row that is too long loses its end. -/
def decimalPrinter : Printer Int where
  numbers := { wholeNumbers with scaled := scaledDouble }
  scaled_eq := rfl
  printInt_eq _ := rfl
  capacity := LINE_BUF - 2
  capacity_lt := by decide
  kept row := row.take (LINE_BUF - 2)
  kept_eq _ h := List.take_of_length_le h
  kept_length row := List.length_take_le ..

/-- Where all regions have the same counters, it is enough to look at these. -/
theorem Reported.of_events {snapshot : Snapshot} {p : Ptr} {stats : PipelineStats}
    {counters : ThreadIndex → Nat → Int} (hcounters : ∀ q r, snapshot.events q r = counters)
    (hruns : 0 < stats.runs)
    (hevents : 1 ≤ snapshot.numberOfEvents ∧ snapshot.numberOfEvents ≤ MAX_PAPI_EVENTS)
    (hleft : ∀ R ∈ regionRecords snapshot p stats, R.used ≠ [] → 0 < R.counters.iterations)
    (hexact : ∀ th, ∀ e < snapshot.numberOfEvents, |counters th e| < 2 ^ 53) :
    Reported snapshot p stats where
  runs := hruns
  events := hevents
  exact := by
    intro R hR
    have hsame : R.events = counters := by
      simp only [regionRecords, List.mem_append, List.mem_flatMap, List.mem_map, List.mem_cons,
        List.not_mem_nil, or_false] at hR
      rcases hR with ⟨_, _, rfl | rfl | rfl⟩ | ⟨_, _, rfl⟩ <;> exact hcounters _ _
    exact ⟨hleft R hR, by rwa [hsame]⟩

theorem reported_blur : Reported blurReport.snapshot 1 blurStats :=
  .of_events (fun _ _ => rfl) (by decide) (by decide) (by decide) (by decide)

end ProfHalide
