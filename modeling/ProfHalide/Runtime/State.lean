import ProfHalide.Papi
import ProfHalide.Lib.Chain
import Mathlib

/-!
# The state of the profiler's runtime

One record for each started pipeline, linked in a list, and the globals that say which record is
measured and which counters a measurement goes to. The arrays of a record live and die with it, so they
are part of it here; what the counters hold is the counter library's, and a measurement is known by
where it goes. A pointer into the arrays of a record says which counters it points at, or that the
record was given new arrays, or that the arrays were freed.
-/

namespace ProfHalide

open Std

abbrev Ptr := Nat

def MAX_PAPI_THREADS : Nat := 32
def PROFILE_GRANULARITY : Nat := 1

def outsideOfHalide : Int := -1
def pleaseStop : Int := -2

/-- What the counter library numbers threads with. -/
abbrev ThreadIndex := Fin MAX_PAPI_THREADS

instance : NeZero MAX_PAPI_THREADS := ⟨by decide⟩

/-- The event counters of one measured region. The iterations are counted up one by one, and are taken not to
reach 2^64. -/
structure Counters where
  iterations : Nat
  used : Vector Bool MAX_PAPI_THREADS
  deriving DecidableEq, Repr

def Counters.zero : Counters := ⟨0, Vector.replicate _ false⟩

structure FuncStats where
  time : UInt64
  name : Ptr
  activeThreadsNumerator : UInt64
  activeThreadsDenominator : UInt64
  showThreadsProd : Bool
  showThreadsCons : Bool
  production : Counters
  consumption : Counters
  overhead : Counters
  deriving DecidableEq, Repr

structure LoopStats where
  name : Ptr
  showThreads : Bool
  counters : Counters
  deriving DecidableEq, Repr

structure PipelineStats where
  time : UInt64
  activeThreadsNumerator : UInt64
  activeThreadsDenominator : UInt64
  /-- The address of the name, which is how names are compared. -/
  name : Ptr
  funcs : List FuncStats
  loops : List LoopStats
  next : Option Ptr
  numFuncs : Int
  numLoops : Int
  firstFuncId : Int
  runs : Nat
  samples : Int32
  deriving DecidableEq, Repr

/-- A pointer to the counters of a region. -/
inductive CountersPtr where
  | of (p : Ptr) (r : Region)
  /-- Into arrays that no record owns any more and nobody freed. -/
  | leaked
  | freed
  deriving DecidableEq, Repr

structure PapiState where
  sleepTime : Nat
  firstFreeId : Int
  currentFunc : Int
  activeThreads : Int
  pipelines : Option Ptr
  samplingThread : Bool
  currentPipelineStats : Option Ptr
  lastCounters : Option CountersPtr
  lastCountersUsed : Option CountersPtr
  /-- The allocated records. -/
  records : TreeMap Ptr PipelineStats

/-- What a call does besides changing the state. -/
inductive Effect where
  | papiHalideInitialize | papiHalideShutdown
  | markerStart
  | markerStop (counters : CountersPtr) (thread : ThreadIndex)
  | startThread | stopThread
  | enterParallelRegion | leaveParallelRegion
  /-- The statistics of a pipeline are printed. -/
  | report (p : Ptr) (stats : PipelineStats)
  /-- A record is freed with its arrays. -/
  | free (p : Ptr)
  deriving DecidableEq, Repr

/-- What a call returns, and what it does. -/
structure Answer where
  ret : Int
  state : PapiState
  effects : List Effect

/-- An element of an array; `none` outside. -/
def element {α : Type} (l : List α) (i : Int) : Option α := if 0 ≤ i then l[i.toNat]? else none

namespace PipelineStats

variable (stats : PipelineStats)

/-- The counters of a region, if it is one of this pipeline's. -/
def counters : Region → Option Counters
  | .func t isProducer =>
      (element stats.funcs t).map fun fs => if isProducer then fs.production else fs.consumption
  | .overhead t => (element stats.funcs t).map (·.overhead)
  | .loop id => (element stats.loops id).map (·.counters)

def modifyCounters (r : Region) (f : Counters → Counters) : PipelineStats :=
  match r with
  | .func t true =>
      { stats with funcs := stats.funcs.modify t.toNat fun fs => { fs with production := f fs.production } }
  | .func t false =>
      { stats with funcs := stats.funcs.modify t.toNat fun fs => { fs with consumption := f fs.consumption } }
  | .overhead t =>
      { stats with funcs := stats.funcs.modify t.toNat fun fs => { fs with overhead := f fs.overhead } }
  | .loop id =>
      { stats with loops := stats.loops.modify id.toNat fun ls => { ls with counters := f ls.counters } }

def containsFunc (funcId : Int) : Bool :=
  stats.firstFuncId ≤ funcId && funcId < stats.firstFuncId + stats.numFuncs

/-- One sample for a func of this pipeline. A negative number of threads is converted to `uint64_t`, and the
sums wrap around. -/
def bill (funcId : Int) (time : UInt64) (activeThreads : Int) : PipelineStats :=
  { stats with
    funcs := stats.funcs.modify (funcId - stats.firstFuncId).toNat fun fs =>
      { fs with
        time := fs.time + time
        activeThreadsNumerator := fs.activeThreadsNumerator + UInt64.ofInt activeThreads
        activeThreadsDenominator := fs.activeThreadsDenominator + 1 }
    time := stats.time + time
    samples := stats.samples + 1
    activeThreadsNumerator := stats.activeThreadsNumerator + UInt64.ofInt activeThreads
    activeThreadsDenominator := stats.activeThreadsDenominator + 1 }

end PipelineStats

/-- Where a pointer leads after the record at `p` has lost the arrays it had. -/
def CountersPtr.redirect (p : Ptr) (target : CountersPtr) : CountersPtr → CountersPtr
  | .of p' r => if p' = p then target else .of p' r
  | q => q

def Counters.markUsed (c : Counters) (thread : ThreadIndex) : Counters :=
  { c with used := c.used.set thread true }

namespace PapiState

def initial : PapiState where
  sleepTime := 1
  firstFreeId := 0
  currentFunc := 0
  activeThreads := 0
  pipelines := none
  samplingThread := false
  currentPipelineStats := none
  lastCounters := none
  lastCountersUsed := none
  records := ∅

variable (s : PapiState)

/-- The links of the allocated records. -/
def next (p : Ptr) : Option (Option Ptr) := s.records[p]?.map (·.next)

/-- A write to a record. -/
def write (p : Ptr) (stats : PipelineStats) : PapiState :=
  { s with records := s.records.insert p stats }

def redirect (p : Ptr) (target : CountersPtr) : PapiState :=
  { s with
    lastCounters := s.lastCounters.map (.redirect p target)
    lastCountersUsed := s.lastCountersUsed.map (.redirect p target) }

end PapiState

end ProfHalide
