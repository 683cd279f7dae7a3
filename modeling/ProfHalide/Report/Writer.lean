import ProfHalide.Runtime.Calls

/-!
# What a report prints

Each pipeline that was run prints its times, one row for itself and one for each func, an empty line, a
row of event counters for every region that was measured, a row of their totals, and another empty line.
The arithmetic of floats and the printing of numbers come from outside the repository, and so does the
buffer that each row is put together in, which may not hold all of it.
-/

namespace ProfHalide

/-! ### Rows -/

/-- One call of `halide_print` by a report. -/
inductive Print (φ : Type) where
  | times (stage : String) (time threads : φ)
  | endTimes
  | counters (stage : String) (events : List Int)
  /-- The totals of a pipeline, with the empty line that ends it. -/
  | total (events : List Int)
  deriving DecidableEq, Repr

/-- What a report computes and prints numbers with. -/
structure Numbers (φ : Type) where
  /-- `time / 1000000.0f` -/
  seconds : UInt64 → φ
  /-- `time / (runs * 1000000.0f)` -/
  perRun : UInt64 → Nat → φ
  /-- `active_threads_numerator / (active_threads_denominator + 1e-10)` -/
  average : UInt64 → UInt64 → φ
  /-- A counter times `PROFILE_GRANULARITY` and the fraction that the iterations leave. -/
  scaled : Int → Nat → Int
  printFloat : φ → String
  printInt : Int → String

variable {φ : Type}

namespace Numbers

variable (numbers : Numbers φ)

/-- A row of counters: each is followed by a comma, and the last comma is erased. -/
def eventLine (stage : String) (events : List Int) : List Char :=
  (stage.toList ++ [','] ++ events.flatMap fun n => (numbers.printInt n).toList ++ [',']).dropLast

/-- The characters that a call prints. -/
def text : Print φ → List Char
  | .times stage time threads =>
      stage.toList ++ [','] ++ (numbers.printFloat time).toList ++ [','] ++
        (numbers.printFloat threads).toList ++ ['\n']
  | .endTimes => ['\n']
  | .counters stage events => numbers.eventLine stage events ++ ['\n']
  | .total events => numbers.eventLine "total" events ++ ['\n', '\n']

end Numbers

/-! ### The report of a pipeline -/

/-- What a report finds besides the profiler's state. -/
structure Snapshot where
  /-- `papi_halide_number_of_events()` -/
  numberOfEvents : Nat
  /-- The string that a name points to. -/
  string : Ptr → String
  /-- The event counters of a region of a record, by thread and event. -/
  events : Ptr → Region → ThreadIndex → Nat → Int

section Pipeline

variable (numbers : Numbers φ) (snapshot : Snapshot)

def usedThreads (c : Counters) : List ThreadIndex :=
  (List.finRange MAX_PAPI_THREADS).filter c.used.get

/-- The events of a thread, counted once for every `PROFILE_GRANULARITY` iterations, for all of them. -/
def estimEvents (c : Counters) (counters : Nat → Int) : List Int :=
  (List.range snapshot.numberOfEvents).map fun e =>
    if PROFILE_GRANULARITY ≤ c.iterations then numbers.scaled (counters e) c.iterations
    else counters e * c.iterations

def addEvents (total estim : List Int) : List Int := List.zipWith (· + ·) total estim

/-- The rows of a region and the totals after them: a row for each thread that measured it if threads
are shown, then one row for all threads together if there is to be one. -/
def reportRegion (label : String) (showThreads : Bool) (summary : Nat → Bool) (c : Counters)
    (counters : ThreadIndex → Nat → Int) (tot : List Int) : List (Print φ) × List Int :=
  let threads := usedThreads c
  let estim := fun th => estimEvents numbers snapshot c (counters th)
  let rows := if showThreads then
      threads.map fun th => .counters (label ++ "_t" ++ numbers.printInt th.val) (estim th)
    else []
  let total := (threads.map estim).foldl addEvents (List.replicate snapshot.numberOfEvents 0)
  let last := if summary threads.length then
      [.counters (label ++ "_" ++ if threads.length > 1 then "total" else "t0") total]
    else []
  (rows ++ last, (threads.map estim).foldl addEvents tot)

/-- A func has the row of all threads if there are several, or one that is not shown by itself. -/
def funcSummary (showThreads : Bool) (activeThreads : Nat) : Bool :=
  (!showThreads && activeThreads = 1) || activeThreads > 1

/-- `halide_papi_report_func_prod_cons` for the func with index `i` of the record at `p`. -/
def reportFuncProdCons (p : Ptr) (i : Nat) (fs : FuncStats) (isProd : Bool) (tot : List Int) :
    List (Print φ) × List Int :=
  let showThreads := if isProd then fs.showThreadsProd else fs.showThreadsCons
  reportRegion numbers snapshot (snapshot.string fs.name ++ if isProd then "_prod" else "_cons")
    showThreads (funcSummary showThreads) (if isProd then fs.production else fs.consumption)
    (snapshot.events p (.func i isProd)) tot

/-- `halide_papi_report_func_overhead`. -/
def reportFuncOverhead (p : Ptr) (i : Nat) (fs : FuncStats) (tot : List Int) :
    List (Print φ) × List Int :=
  reportRegion numbers snapshot (snapshot.string fs.name ++ "_overhead") fs.showThreadsProd
    (funcSummary fs.showThreadsProd) fs.overhead (snapshot.events p (.overhead i)) tot

/-- `halide_papi_report_loop`: without shown threads, a loop has its row even if no thread measured
it. -/
def reportLoop (p : Ptr) (i : Nat) (ls : LoopStats) (tot : List Int) : List (Print φ) × List Int :=
  reportRegion numbers snapshot (snapshot.string ls.name) ls.showThreads
    (fun activeThreads => !ls.showThreads || activeThreads > 1) ls.counters
    (snapshot.events p (.loop i)) tot

/-- Parts of a report one after the other, with the totals handed on. -/
def reportAll : List (List Int → List (Print φ) × List Int) → List Int → List (Print φ) × List Int
  | [], tot => ([], tot)
  | part :: parts, tot =>
      let (rows, tot) := part tot
      let (rest, tot) := reportAll parts tot
      (rows ++ rest, tot)

/-- The regions of a pipeline in the order of its report: the func with index 0 is left out. -/
def regionReports (p : Ptr) (stats : PipelineStats) :
    List (List Int → List (Print φ) × List Int) :=
  (stats.funcs.zipIdx.drop 1).flatMap (fun (fs, i) =>
    [reportFuncOverhead numbers snapshot p i fs, reportFuncProdCons numbers snapshot p i fs true,
      reportFuncProdCons numbers snapshot p i fs false]) ++
  stats.loops.zipIdx.map fun (ls, i) => reportLoop numbers snapshot p i ls

/-- The body of the loop of `halide_papi_report_unlocked` for a pipeline that was run. -/
def reportPipeline (p : Ptr) (stats : PipelineStats) : List (Print φ) :=
  let times := (stats.funcs.drop 1).map fun fs =>
    .times (snapshot.string fs.name) (numbers.perRun fs.time stats.runs)
      (numbers.average fs.activeThreadsNumerator fs.activeThreadsDenominator)
  let (rows, tot) := reportAll (regionReports numbers snapshot p stats)
    (List.replicate snapshot.numberOfEvents 0)
  .times "all" (numbers.seconds stats.time)
      (numbers.average stats.activeThreadsNumerator stats.activeThreadsDenominator) ::
    (times ++ .endTimes :: (rows ++ [.total tot]))

/-- What an effect of a call prints. -/
def Effect.prints : Effect → List (Print φ)
  | .report p stats => reportPipeline numbers snapshot p stats
  | _ => []

end Pipeline

/-- A call of `halide_papi_report_unlocked` that returns. -/
structure Report where
  snapshot : Snapshot
  state : PapiState
  answer : Answer
  returns : state.reportUnlocked = some answer

namespace Report

variable (numbers : Numbers φ) (r : Report)

def prints : List (Print φ) := r.answer.effects.flatMap (Effect.prints numbers r.snapshot)

/-- What several reports print after each other. -/
def output (reports : List Report) : List Char :=
  (reports.flatMap (prints numbers)).flatMap numbers.text

end Report

end ProfHalide
