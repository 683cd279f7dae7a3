import ProfHalide.Runtime.State
import ProfHalide.Lib.Machine

/-!
# The calls of the profiler's runtime

Each call as a function of the state, atomic as the callers see it: `none` is a loop that never ends or
an access to memory that is not there. A loop along the list is given as many rounds as there are
records, and one that has not met null by then never does. The answers of the allocator, of the counter
library and of the clock are arguments.
-/

namespace ProfHalide

open Std Chain

/-- The arguments of a start: the tables, read at each index, give the names of funcs and loops and
whether their threads are shown. -/
structure StartArgs where
  pipelineName : Ptr
  numFuncs : Int
  numLoops : Int
  funcNames : Nat → Ptr
  loopNames : Nat → Ptr
  funcShowThreadsProd : Nat → Bool
  funcShowThreadsCons : Nat → Bool
  loopShowThreads : Nat → Bool

/-- What the allocator has for a start: an address for the record, and whether there is memory for the
arrays of funcs and of loops. -/
structure Mallocs where
  record : Option Ptr
  funcs : Bool
  loops : Bool

namespace StartArgs

variable (a : StartArgs)

/-- The record that a start looks for. -/
def names (stats : PipelineStats) : Bool :=
  stats.name == a.pipelineName && stats.numFuncs == a.numFuncs

def funcStats (i : Nat) : FuncStats where
  time := 0
  name := a.funcNames i
  activeThreadsNumerator := 0
  activeThreadsDenominator := 0
  showThreadsProd := a.funcShowThreadsProd i
  showThreadsCons := a.funcShowThreadsCons i
  production := .zero
  consumption := .zero
  overhead := .zero

def loopStats (i : Nat) : LoopStats where
  name := a.loopNames i
  showThreads := a.loopShowThreads i
  counters := .zero

/-- The record as a start fills it in, and counts the run that begins. -/
def pipelineStats (next : Option Ptr) (firstFuncId : Int) : PipelineStats where
  time := 0
  activeThreadsNumerator := 0
  activeThreadsDenominator := 0
  name := a.pipelineName
  funcs := (List.range a.numFuncs.toNat).map a.funcStats
  loops := (List.range a.numLoops.toNat).map a.loopStats
  next := next
  numFuncs := a.numFuncs
  numLoops := a.numLoops
  firstFuncId := firstFuncId
  runs := 1
  samples := 0

end StartArgs

/-- Whether the arrays of a record can be allocated; none is needed for no loops. -/
def Mallocs.arrays (m : Mallocs) (numLoops : Int) : Bool := m.funcs && (m.loops || numLoops ≤ 0)

namespace PapiState

variable (s : PapiState)

/-- The record at an address, tested. -/
def test (p : Ptr) (hit : PipelineStats → Bool) : Bool := s.records[p]?.any hit

/-- A loop along the list, up to a record that satisfies `hit`; with the record before it. -/
def find (hit : PipelineStats → Bool) : Option (Option (Option Ptr × Ptr)) :=
  search s.next (s.test · hit) s.records.size none s.pipelines

/-- Memory for a record, at an address that is not in use. -/
def malloc (m : Mallocs) : Option Ptr := m.record.filter fun p => !s.records.contains p

/-! ### Starting and sampling -/

/-- The record at `p`, new or found, is filled in and put in front; the arrays it may have had are not
freed. -/
def install (a : StartArgs) (p : Ptr) : PapiState :=
  { (s.redirect p .leaked).write p (a.pipelineStats s.pipelines s.firstFreeId) with
    firstFreeId := s.firstFreeId + a.numFuncs
    pipelines := some p
    samplingThread := true
    currentPipelineStats := some p }

def pipelineStart (a : StartArgs) (m : Mallocs) : Option Answer := do
  let found ← s.find a.names
  match (found.map Prod.snd).or (s.malloc m) with
  | none => return { ret := -1, state := s, effects := [] }
  | some p =>
      if m.arrays a.numLoops then
        return { ret := s.firstFreeId, state := s.install a p, effects := [.papiHalideInitialize] }
      else
        let freed := { s.redirect p .leaked with records := s.records.erase p }
        return { ret := -1, state := freed, effects := [.free p] }

/-- A record with one before it becomes the first. -/
def bubble (prev : Option Ptr) (p : Ptr) : Option PapiState :=
  match prev with
  | none => some s
  | some prev => do
      let before ← s.records[prev]?
      let stats ← s.records[p]?
      return { (s.write prev { before with next := stats.next }).write p
        { stats with next := s.pipelines } with pipelines := some p }

def billFunc (funcId : Int) (time : UInt64) (activeThreads : Int) : Option Answer := do
  match ← s.find (·.containsFunc funcId) with
  | none => return { ret := 0, state := s, effects := [] }
  | some (prev, p) =>
      let s' ← s.bubble prev p
      let stats ← s'.records[p]?
      return { ret := 0, state := s'.write p (stats.bill funcId time activeThreads), effects := [] }

/-! ### Reporting and ending -/

/-- A record is printed if its pipeline was ever run. -/
def report (p : Ptr) : Option Effect :=
  s.records[p]?.bind fun stats => if stats.runs = 0 then none else some (.report p stats)

def reportUnlocked : Option Answer := do
  let l ← follow s.next s.records.size s.pipelines
  return { ret := 0, state := s, effects := l.filterMap s.report }

/-- The first record is taken off the list and freed. -/
def pop (p : Ptr) (stats : PipelineStats) : PapiState :=
  { s.redirect p .freed with pipelines := stats.next, records := s.records.erase p }

def popAll : Nat → PapiState → Option (PapiState × List Effect)
  | 0, s => if s.pipelines = none then some (s, []) else none
  | rounds + 1, s =>
    match s.pipelines with
    | none => some (s, [])
    | some p => do
        let stats ← s.records[p]?
        let (s', effects) ← popAll rounds (s.pop p stats)
        return (s', .free p :: effects)

def resetUnlocked : Option Answer := do
  let (s', effects) ← popAll s.records.size s
  return { ret := 0, state := { s' with firstFreeId := 0 }, effects := effects }

/-- The sampling thread is told to stop and waited for. -/
def joinSamplingThread : PapiState :=
  { s with samplingThread := false, currentFunc := outsideOfHalide }

def shutdown : Option Answer :=
  if s.samplingThread then do
    let reported ← s.joinSamplingThread.reportUnlocked
    let reset ← reported.state.resetUnlocked
    return { reset with effects := .papiHalideShutdown :: reported.effects ++ reset.effects }
  else some { ret := 0, state := s, effects := [] }

def pipelineEnd : Option Answer := do
  let answer ← { s with currentFunc := outsideOfHalide }.shutdown
  return { answer with state := { answer.state with currentPipelineStats := none } }

/-! ### Markers -/

def setCurrentFunc (tok t : Int) : Answer where
  ret := 0
  state := { s with currentFunc := tok + t }
  effects := []

/-- The counters of a region of the current pipeline. -/
def currentCounters (r : Region) : Option (Ptr × PipelineStats × Counters) := do
  let p ← s.currentPipelineStats
  let stats ← s.records[p]?
  let c ← stats.counters r
  return (p, stats, c)

def enter (r : Region) : Option Answer := do
  let (p, _, c) ← s.currentCounters r
  if c.iterations % PROFILE_GRANULARITY = 0 then
    let counters := CountersPtr.of p r
    return { ret := 0,
             state := { s with lastCounters := some counters, lastCountersUsed := some counters },
             effects := [.markerStart] }
  else return { ret := 0, state := s, effects := [] }

def leave (r : Region) (thread : ThreadIndex) : Option Answer := do
  let (p, stats, c) ← s.currentCounters r
  if c.iterations % PROFILE_GRANULARITY = 0 then
    let stats := stats.modifyCounters r fun c => { c.markUsed thread with iterations := c.iterations + 1 }
    return { ret := 0,
             state := { s.write p stats with lastCounters := none },
             effects := [.markerStop (.of p r) thread] }
  else
    let stats := stats.modifyCounters r fun c => { c with iterations := c.iterations + 1 }
    return { ret := 0, state := s.write p stats, effects := [] }

def enterCurrentFunc (t : Int) (isProducer : Bool) := s.enter (.func t isProducer)
def leaveCurrentFunc (t : Int) (isProducer : Bool) := s.leave (.func t isProducer)
def enterLoop (id : Int) := s.enter (.loop id)
def leaveLoop (id : Int) := s.leave (.loop id)
def enterOverheadRegion (t : Int) := s.enter (.overhead t)
def leaveOverheadRegion (t : Int) := s.leave (.overhead t)

/-! ### Threads -/

def incrActiveThreads : Answer where
  ret := s.activeThreads
  state := { s with activeThreads := s.activeThreads + 1 }
  effects := [.startThread]

/-- A thread index is noted at the counters a pointer leads to. -/
def markUsed (counters : CountersPtr) (thread : ThreadIndex) : Option PapiState :=
  match counters with
  | .of p r => do
      let stats ← s.records[p]?
      let _ ← stats.counters r
      return s.write p (stats.modifyCounters r (·.markUsed thread))
  | .leaked => some s
  | .freed => none

def decrActiveThreads (thread : ThreadIndex) : Option Answer := do
  let counted := { s with activeThreads := s.activeThreads - 1 }
  match s.lastCounters with
  | none => return { ret := s.activeThreads, state := counted, effects := [.stopThread] }
  | some counters =>
      let used ← s.lastCountersUsed
      let marked ← counted.markUsed used thread
      return { ret := s.activeThreads, state := marked,
               effects := [.markerStop counters thread, .stopThread] }

end PapiState

/-! ### All calls -/

/-- A call, with what its surroundings have for it. -/
inductive Op where
  | pipelineStart (a : StartArgs) (m : Mallocs)
  | pipelineEnd
  | setCurrentFunc (tok t : Int)
  | enterCurrentFunc (t : Int) (isProducer : Bool)
  | leaveCurrentFunc (t : Int) (isProducer : Bool) (thread : ThreadIndex)
  | enterOverheadRegion (t : Int)
  | leaveOverheadRegion (t : Int) (thread : ThreadIndex)
  | enterLoop (id : Int)
  | leaveLoop (id : Int) (thread : ThreadIndex)
  | incrActiveThreads
  | decrActiveThreads (thread : ThreadIndex)
  | enterParallelRegion
  | leaveParallelRegion
  | billFunc (funcId : Int) (time : UInt64) (activeThreads : Int)
  | report
  | reset
  | shutdown

namespace PapiState

def answer (s : PapiState) : Op → Option Answer
  | .pipelineStart a m => s.pipelineStart a m
  | .pipelineEnd => s.pipelineEnd
  | .setCurrentFunc tok t => some (s.setCurrentFunc tok t)
  | .enterCurrentFunc t isProducer => s.enterCurrentFunc t isProducer
  | .leaveCurrentFunc t isProducer thread => s.leaveCurrentFunc t isProducer thread
  | .enterOverheadRegion t => s.enterOverheadRegion t
  | .leaveOverheadRegion t thread => s.leaveOverheadRegion t thread
  | .enterLoop id => s.enterLoop id
  | .leaveLoop id thread => s.leaveLoop id thread
  | .incrActiveThreads => some s.incrActiveThreads
  | .decrActiveThreads thread => s.decrActiveThreads thread
  | .enterParallelRegion => some { ret := 0, state := s, effects := [.enterParallelRegion] }
  | .leaveParallelRegion => some { ret := 0, state := s, effects := [.leaveParallelRegion] }
  | .billFunc funcId time activeThreads => s.billFunc funcId time activeThreads
  | .report => s.reportUnlocked
  | .reset => s.resetUnlocked
  | .shutdown => s.shutdown

def step (s : PapiState) (op : Op) : Option (PapiState × List Effect) :=
  (s.answer op).map fun answer => (answer.state, answer.effects)

end PapiState

end ProfHalide
