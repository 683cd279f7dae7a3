import ProfHalide.Pass.Nesting
import ProfHalide.Runtime.Idle
import ProfHalide.Runtime.Repeats
import ProfHalide.Lib.Transducer

/-!
# What the counters add up

The counter library counts what a thread does between a start and a stop, and the runtime passes it the
counters of the region that is left. On one thread, with samples taken in between, the counters of every
region hold at the end what was done while the region was being measured, and nothing else.
-/

namespace ProfHalide

open Std Machine Behaviour

/-! ### The counter library -/

/-- The counter library on one thread. -/
structure CounterLibrary (σ : Type) where
  /-- The thread does something that costs so much of every counted event. -/
  work : (Nat → Int) → σ → σ
  /-- `papi_halide_marker_start()` -/
  markerStart : σ → σ
  /-- `papi_halide_marker_stop(values, 1)`, with what it adds to the values. -/
  markerStop : σ → (Nat → Int) × σ
  /-- Calls that count nothing. -/
  other : Effect → σ → σ

namespace CounterLibrary

variable {σ : Type} (lib : CounterLibrary σ)

def workAll (costs : List (Nat → Int)) (l : σ) : σ := costs.foldl (fun l cost => lib.work cost l) l

/-- What is done between a start and a stop is counted. -/
def Counts : Prop := ∀ (l : σ) (costs : List (Nat → Int)) (n : Nat),
  (lib.markerStop (lib.workAll costs (lib.markerStart l))).1 n = (costs.map (· n)).sum

end CounterLibrary

/-! ### Metered runs -/

/-- The runtime with the counter library, and the event counters in the arrays of the records. -/
structure Metered (σ : Type) where
  host : HostRun
  library : σ
  events : Ptr → Region → ThreadIndex → Nat → Int

/-- An event of the program, on a thread, with what it costs; or a sample. -/
inductive MeteredEvent where
  | event (e : Event PapiFn) (thread : ThreadIndex) (cost : Nat → Int)
  | sample (funcId : Int) (time : UInt64) (activeThreads : Int)

namespace Metered

variable {σ : Type} (lib : CounterLibrary σ)

/-- The counters that a pointer leads to, with something added. -/
def addTo (events : Ptr → Region → ThreadIndex → Nat → Int) (counters : CountersPtr)
    (thread : ThreadIndex) (values : Nat → Int) : Ptr → Region → ThreadIndex → Nat → Int :=
  match counters with
  | .of p r => fun p' r' thread' n =>
      events p' r' thread' n + if p' = p ∧ r' = r ∧ thread' = thread then values n else 0
  | .leaked | .freed => events

/-- What an effect does to the library and the counters. A start has given its record new arrays. -/
def absorb (c : Metered σ) : Effect → Metered σ
  | .papiHalideInitialize =>
      { c with
        library := lib.other .papiHalideInitialize c.library
        events := fun p r thread n =>
          if c.host.state.currentPipelineStats = some p then 0 else c.events p r thread n }
  | .markerStart => { c with library := lib.markerStart c.library }
  | .markerStop counters thread =>
      let (values, library) := lib.markerStop c.library
      { c with library := library, events := addTo c.events counters thread values }
  | .report _ _ | .free _ => c
  | effect => { c with library := lib.other effect c.library }

/-- A step of the runtime. -/
def hostStep (env : Surroundings) (c : Metered σ) (event : HostEvent) :
    Option (Metered σ × List Effect) :=
  (c.host.step env event).map fun r => (r.2.foldl (absorb lib) { c with host := r.1 }, r.2)

def work (c : Metered σ) (cost : Nat → Int) : Metered σ :=
  { c with library := lib.work cost c.library }

/-- A call costs what it costs before it takes effect. -/
def step (env : Surroundings) (c : Metered σ) : MeteredEvent → Option (Metered σ × List Effect)
  | .sample funcId time activeThreads => c.hostStep lib env (.sample funcId time activeThreads)
  | .event e thread cost =>
    match e.papiCall with
    | none => some (c.work lib cost, [])
    | some call => (c.work lib cost).hostStep lib env (.call call thread)

end Metered

/-! ### What is spent where -/

/-- An event of the program, what it costs, and the region that is being measured. -/
structure Spent where
  event : Event PapiFn
  cost : Nat → Int
  region : Option Region

/-- What is spent on counted event `n` in a region. -/
def spentIn (r : Region) (spent : List Spent) (n : Nat) : Int :=
  ((spent.filter fun s => s.region = some r).map fun s => s.cost n).sum

/-- Whether a call is about threads. -/
def PapiCall.isThread : PapiCall → Bool
  | .incrActiveThreads | .decrActiveThreads | .enterParallelRegion | .leaveParallelRegion => true
  | _ => false

/-- The region being measured, as long as no threads start or stop meanwhile. -/
def measureAlone (q : Option Region) (c : PapiCall) : Option (Option Region) :=
  if c.isThread && q.isSome then none else measure q c

namespace MeteredEvent

def papiCall : MeteredEvent → Option PapiCall
  | .event e _ _ => e.papiCall
  | .sample _ _ _ => none

/-- The region being measured, as the events go by. -/
def measure (q : Option Region) (event : MeteredEvent) : Option (Option Region) :=
  event.papiCall.elim (some q) (measureAlone q)

def spent (q : Option Region) : MeteredEvent → Option Spent
  | .event e _ cost => some ⟨e, cost, q⟩
  | .sample _ _ _ => none

end MeteredEvent

/-- What the events of a run spend. -/
def spentBy (q : Option Region) (events : List MeteredEvent) : List Spent :=
  written MeteredEvent.measure MeteredEvent.spent q events

section Spent

variable {r : Region} {q : Option Region} {spent : List Spent} {e : Event PapiFn} {cost : Nat → Int}

theorem spentIn_append (spent spent' : List Spent) (n : Nat) :
    spentIn r (spent ++ spent') n = spentIn r spent n + spentIn r spent' n := by
  rw [spentIn, List.filter_append, List.map_append, List.sum_append]
  rfl

theorem spentIn_snoc (spent : List Spent) (e : Event PapiFn) (cost : Nat → Int) (q : Option Region)
    (n : Nat) :
    spentIn r (spent ++ [⟨e, cost, q⟩]) n = spentIn r spent n + if q = some r then cost n else 0 := by
  rw [spentIn_append]
  congr 1
  by_cases h : q = some r <;> simp [spentIn, h]

theorem spentIn_of_region (h : ∀ s ∈ spent, s.region = none) (n : Nat) : spentIn r spent n = 0 := by
  have hnone : spent.filter (fun s => s.region = some r) = [] := by
    apply List.filter_eq_nil_iff.mpr
    intro s hs
    simp [h s hs]
  rw [spentIn, hnone]
  rfl

end Spent

/-! ### One event -/

namespace PipelineStats

/-- The names of the funcs and loops of a record, with the flags to show their threads. -/
def labels (stats : PipelineStats) : List (Ptr × Bool × Bool) × List (Ptr × Bool) :=
  (stats.funcs.map fun fs => (fs.name, fs.showThreadsProd, fs.showThreadsCons),
    stats.loops.map fun ls => (ls.name, ls.showThreads))

theorem map_modify_of_eq {α β : Type} (l : List α) (i : Nat) {f : α → β} {g : α → α}
    (h : ∀ x, f (g x) = f x) : (l.modify i g).map f = l.map f := by
  apply List.ext_getElem?
  intro j
  rw [List.getElem?_map, List.getElem?_map, map_getElem?_modify l i j h]

theorem labels_modifyCounters (stats : PipelineStats) (r : Region) (f : Counters → Counters) :
    (stats.modifyCounters r f).labels = stats.labels := by
  cases r with
  | func t isProducer =>
    cases isProducer <;> exact congrArg (·, _) (map_modify_of_eq _ _ fun _ => rfl)
  | overhead t => exact congrArg (·, _) (map_modify_of_eq _ _ fun _ => rfl)
  | loop id => exact congrArg (_, ·) (map_modify_of_eq _ _ fun _ => rfl)

theorem labels_bill (stats : PipelineStats) (funcId : Int) (time : UInt64) (activeThreads : Int) :
    (stats.bill funcId time activeThreads).labels = stats.labels :=
  congrArg (·, _) (map_modify_of_eq _ _ fun _ => rfl)

end PipelineStats

/-- The labels that a start hands over. -/
def StartArgs.labels (a : StartArgs) : List (Ptr × Bool × Bool) × List (Ptr × Bool) :=
  ((List.range a.numFuncs.toNat).map fun i =>
      (a.funcNames i, a.funcShowThreadsProd i, a.funcShowThreadsCons i),
    (List.range a.numLoops.toNat).map fun i => (a.loopNames i, a.loopShowThreads i))

theorem StartArgs.labels_pipelineStats (a : StartArgs) (next : Option Ptr) (firstFuncId : Int) :
    (a.pipelineStats next firstFuncId).labels = a.labels := by
  simp only [PipelineStats.labels, StartArgs.pipelineStats, StartArgs.labels, List.map_map]
  rfl

namespace PapiState

/-- What samples leave alone of the record at `p`. -/
def measuresOf (s : PapiState) (p : Ptr) :
    Option (Nat × (List (Ptr × Bool × Bool) × List (Ptr × Bool)) × (Region → Option Counters)) :=
  s.records[p]?.map fun stats => (stats.runs, stats.labels, stats.counters)

variable {s s' : PapiState} {p : Ptr}

theorem measuresOf_eq (s : PapiState) (p : Ptr) :
    s.measuresOf p = (s.content p).map fun stats => (stats.runs, stats.labels, stats.counters) := by
  rw [measuresOf, content, Option.map_map]
  rfl

theorem measuresOf_billFunc {funcId : Int} {time : UInt64} {activeThreads : Int}
    (h : (s' = s ∧ ∀ p stats, s.content p = some stats → stats.containsFunc funcId = false) ∨
      ∃ p stats, s.content p = some stats ∧ stats.containsFunc funcId = true ∧
        ∀ q, s'.content q
          = if p = q then some (stats.bill funcId time activeThreads) else s.content q) :
    s'.measuresOf p = s.measuresOf p := by
  rcases h with ⟨rfl, _⟩ | ⟨p', stats, hstats, _, hcontent⟩
  · rfl
  · rw [measuresOf_eq, measuresOf_eq, hcontent]
    split
    · next heq =>
      have hcounters : (stats.bill funcId time activeThreads).counters = stats.counters :=
        funext (stats.counters_bill funcId time activeThreads)
      rw [← heq, hstats, Option.map_some, Option.map_some, hcounters, stats.labels_bill]
      rfl
    · rfl

/-- The record of the current pipeline is written back with the counters of a region changed. -/
theorem measuresOf_modifyCounters (s : PapiState) {stats : PipelineStats} {r : Region}
    (hr : r.InRange stats.numFuncs stats.numLoops) (f : Counters → Counters)
    (hrecords : s'.records = (s.write p (stats.modifyCounters r f)).records) :
    s'.measuresOf p = some (stats.runs, stats.labels, fun r' =>
      (stats.counters r').map fun counters => if r = r' then f counters else counters) := by
  rw [measuresOf, hrecords, getElem?_write, if_pos rfl, Option.map_some,
    (stats.sameShape_modifyCounters r f).runs, stats.labels_modifyCounters]
  exact congrArg (fun counters => some (stats.runs, stats.labels, counters))
    (funext (stats.counters_modifyCounters hr f))

end PapiState

namespace HostRun

variable {c : HostRun} {p : Ptr} {numFuncs numLoops : Int} {last : Option Region}

/-- A call of a running pipeline that is answered, and what it leaves. -/
theorem Ongoing.answered (h : c.Ongoing p numFuncs numLoops last) (env : Surroundings) {call : PapiCall}
    (hstarts : call.starts = false) (hrange : call.InRange numFuncs numLoops) (thread : ThreadIndex)
    {answer : Answer} (hanswer : c.state.call env (c.token.getD 0) thread call = some answer) :
    c.step env (.call call thread) = some ({ c with state := answer.state }, answer.effects) ∧
      ({ c with state := answer.state } : HostRun).Ongoing p numFuncs numLoops (call.lastEntered last) := by
  have hstep := step_call hstarts hanswer
  refine ⟨hstep, ?_⟩
  rcases h.call env hstarts thread with ⟨_, host, out, hstep', hongoing, _⟩ | ⟨hout, _⟩
  · rw [hstep] at hstep'
    cases hstep'
    exact hongoing
  · exact absurd hrange hout

/-- A sample of a running pipeline. -/
theorem Ongoing.sampled (h : c.Ongoing p numFuncs numLoops last) (env : Surroundings) (funcId : Int)
    (time : UInt64) (activeThreads : Int) :
    ∃ c', c.step env (.sample funcId time activeThreads) = some (c', []) ∧
      c'.Ongoing p numFuncs numLoops last ∧ c'.state.measuresOf p = c.state.measuresOf p := by
  obtain ⟨c', effects, hstep, hongoing, _⟩ := h.sample env funcId time activeThreads
  obtain ⟨s', l', hbill, _, _, _, hcontent⟩ := h.linked.billFunc funcId time activeThreads
  have hbilled : c.step env (.sample funcId time activeThreads) = some ({ c with state := s' }, []) := by
    rw [step, hbill]
    rfl
  rw [hbilled] at hstep
  cases hstep
  exact ⟨_, hbilled, hongoing, PapiState.measuresOf_billFunc hcontent⟩

/-- The end of a running pipeline prints its report, and leaves the profiler quiet. -/
theorem Ongoing.ends (h : c.Ongoing p numFuncs numLoops none) (env : Surroundings) {stats : PipelineStats}
    (hrecord : c.state.records[p]? = some stats) (hruns : stats.runs ≠ 0) :
    ∃ answer, c.state.pipelineEnd = some answer ∧ answer.state.Quiet ∧
      answer.effects = [.papiHalideShutdown, .report p stats, .free p] := by
  obtain ⟨s', hend, _⟩ := h.linked.pipelineEnd h.samplingThread
  have hends : EndsIdle env c.state c [] := h.endsIdle_nil.mpr ⟨rfl, rfl⟩
  obtain ⟨_, _, answer, hnil, hend', hidle⟩ := hends
  cases hnil
  rw [hend] at hend'
  cases hend'
  refine ⟨_, hend, hidle.quiet, ?_⟩
  have hreport : c.state.report p = some (.report p stats) := by
    rw [PapiState.report, hrecord, Option.bind_some, if_neg hruns]
  simp [hreport]

/-- A start with memory for its record, on a quiet profiler: the record has new counters. -/
theorem quiet_starts {env : Surroundings} (hquiet : c.state.Quiet) (name : String) (numFuncs : Int)
    {numLoops : Int} (hrecord : env.mallocs.record = some p) (harrays : env.mallocs.arrays numLoops = true)
    (thread : ThreadIndex) :
    ∃ c' counters, c.step env (.call (.pipelineStart name numFuncs numLoops) thread) =
        some (c', [.papiHalideInitialize]) ∧ c'.Ongoing p numFuncs numLoops none ∧
      c'.state.measuresOf p = some (1, (env.startArgs name numFuncs numLoops).labels, counters) ∧
      ∀ r c, counters r = some c → c = Counters.zero := by
  have hlinked := quiet_linked hquiet
  let a := env.startArgs name numFuncs numLoops
  have hmalloc : c.state.malloc env.mallocs = some p := by
    rw [PapiState.malloc, hrecord]
    have hfree : c.state.records.contains p = false := by
      rw [← Bool.not_eq_true]
      exact hquiet.records p
    simp [hfree]
  have hstart := hlinked.pipelineStart (hlinked.not_names a) env.mallocs
  rw [hmalloc] at hstart
  have harrays' : env.mallocs.arrays a.numLoops = true := harrays
  dsimp only at hstart
  rw [if_pos harrays'] at hstart
  have hstep : c.step env (.call (.pipelineStart name numFuncs numLoops) thread) =
      some (⟨c.state.install a p, some c.state.firstFreeId⟩, [.papiHalideInitialize]) := by
    rw [step, PapiState.call, hstart]
    rfl
  have hcurrent := PapiState.current_install c.state a p
  have hlast : (c.state.install a p).lastCounters = none := by
    show c.state.lastCounters.map _ = none
    rw [hquiet.lastCounters]
    rfl
  have hsized := PipelineStats.sized_pipelineStats a c.state.pipelines c.state.firstFreeId
  refine ⟨_, (a.pipelineStats c.state.pipelines c.state.firstFreeId).counters, hstep,
    ⟨⟨⟨_, hcurrent, rfl, rfl⟩, by simp, fun _ => hlast⟩,
      hlinked.install a (PapiState.malloc_eq_some hmalloc), rfl⟩, ?_, fun r counters hcounters => ?_⟩
  · show (c.state.install a p).records[p]?.map _ = _
    rw [hcurrent.record, Option.map_some, a.labels_pipelineStats]
    rfl
  · have hrange : r.InRange a.numFuncs a.numLoops := by
      apply hsized.counters_isSome_iff.mp
      rw [hcounters]
      rfl
    rw [PipelineStats.counters_pipelineStats a _ _ hrange] at hcounters
    exact (Option.some.inj hcounters).symm

end HostRun

/-- Where a program that calls the runtime starts its pipeline. -/
theorem exists_start {ε : Type} {f : ε → Option PapiCall} {events : List ε} {name : String}
    {numFuncs numLoops : Int} {rest : List PapiCall}
    (hcalls : events.filterMap f = .registerDestructor :: .pipelineStart name numFuncs numLoops :: rest) :
    ∃ before start after, events = before ++ start :: after ∧
      (∀ call ∈ before.filterMap f, call = .registerDestructor) ∧
      f start = some (.pipelineStart name numFuncs numLoops) ∧ after.filterMap f = rest := by
  obtain ⟨pre, register, events₁, rfl, hpre, hregister, hcalls₁⟩ := List.filterMap_eq_cons_iff.mp hcalls
  obtain ⟨mid, start, after, rfl, hmid, hstart, hafter⟩ := List.filterMap_eq_cons_iff.mp hcalls₁
  refine ⟨pre ++ register :: mid, start, after, by simp, ?_, hstart, hafter⟩
  rw [List.filterMap_append, List.filterMap_cons, hregister,
    List.filterMap_eq_nil_iff.mpr hpre, List.filterMap_eq_nil_iff.mpr hmid]
  simp

namespace Metered

variable {σ : Type} {lib : CounterLibrary σ} {env : Surroundings} {c : Metered σ} {p : Ptr}
  {a : StartArgs} {q q' : Option Region} {spent : List Spent}

/-- The library has counted `costs` since the region that is being measured was entered. -/
def Counting (lib : CounterLibrary σ) (q : Option Region) (costs : List (Nat → Int)) (l : σ) : Prop :=
  match q with
  | none => costs = []
  | some _ => ∃ l₀, l = lib.workAll costs (lib.markerStart l₀)

/-- A record that was run, with the counters of its regions: only threads that are noted have counted, and
a region that a thread is noted for has been left. -/
structure Noted (events : Region → ThreadIndex → Nat → Int) (runs : Nat)
    (counters : Region → Option Counters) : Prop where
  runs : 0 < runs
  unused : ∀ r c, counters r = some c → ∀ thread, c.used.get thread = false →
    ∀ n, events r thread n = 0
  left : ∀ r c, counters r = some c → ∀ thread, c.used.get thread = true → 0 < c.iterations

/-- The pipeline runs with its record at `p`, and the counters of every region add up what has been spent
in it, but for what the library has still to hand over. -/
structure Sums (lib : CounterLibrary σ) (p : Ptr) (a : StartArgs) (c : Metered σ)
    (q : Option Region) (spent : List Spent) : Prop where
  ongoing : c.host.Ongoing p a.numFuncs a.numLoops q
  summed : ∃ costs, Counting lib q costs c.library ∧ ∀ r n,
    (∑ thread, c.events p r thread n) + (if q = some r then (costs.map (· n)).sum else 0) =
      spentIn r spent n
  noted : ∃ runs counters, c.host.state.measuresOf p = some (runs, a.labels, counters) ∧
    Noted (c.events p) runs counters

theorem Sums.work (h : Sums lib p a c q spent) (e : Event PapiFn) (cost : Nat → Int) :
    Sums lib p a (c.work lib cost) q (spent ++ [⟨e, cost, q⟩]) where
  ongoing := h.ongoing
  summed := by
    obtain ⟨costs, hcounting, hsum⟩ := h.summed
    cases q with
    | none =>
      refine ⟨costs, hcounting, fun r n => ?_⟩
      rw [spentIn_snoc, ← hsum]
      simp [Metered.work]
    | some r =>
      obtain ⟨l₀, hl⟩ := hcounting
      refine ⟨costs ++ [cost], ⟨l₀, ?_⟩, fun r' n => ?_⟩
      · show lib.work cost c.library = _
        rw [hl, CounterLibrary.workAll, CounterLibrary.workAll, List.foldl_append]
        rfl
      · rw [spentIn_snoc, ← hsum, List.map_append, List.sum_append]
        show (∑ thread, c.events p r' thread n) + _ = _
        split <;> simp [add_assoc]
  noted := h.noted

/-- A step of the runtime that leaves the counters of regions alone. -/
theorem Sums.keep (h : Sums lib p a c q spent) {host : HostRun} {library : σ}
    (hongoing : host.Ongoing p a.numFuncs a.numLoops q')
    (hmeasures : host.state.measuresOf p = c.host.state.measuresOf p)
    (hlibrary : (q' = q ∧ library = c.library) ∨
      (q = none ∧ (q' = none ∨ ∃ l₀, library = lib.markerStart l₀))) :
    Sums lib p a ⟨host, library, c.events⟩ q' spent where
  ongoing := hongoing
  summed := by
    obtain ⟨costs, hcounting, hsum⟩ := h.summed
    rcases hlibrary with ⟨rfl, rfl⟩ | ⟨rfl, hnext⟩
    · exact ⟨costs, hcounting, hsum⟩
    · refine ⟨[], ?_, fun r n => ?_⟩
      · rcases hnext with rfl | ⟨l₀, rfl⟩
        · rfl
        · cases q' with
          | none => rfl
          | some r => exact ⟨l₀, rfl⟩
      · rw [← hsum]
        simp
  noted := by
    rw [hmeasures]
    exact h.noted

theorem hostStep_eq {event : HostEvent} {host : HostRun} {effects : List Effect}
    (h : c.host.step env event = some (host, effects)) :
    c.hostStep lib env event = some (effects.foldl (absorb lib) { c with host := host }, effects) := by
  rw [hostStep, h]
  rfl

theorem sum_addTo (events : Ptr → Region → ThreadIndex → Nat → Int) (p : Ptr) (r : Region)
    (thread : ThreadIndex) (values : Nat → Int) (r' : Region) (n : Nat) :
    ∑ thread', addTo events (.of p r) thread values p r' thread' n =
      (∑ thread', events p r' thread' n) + if r' = r then values n else 0 := by
  simp only [addTo, Finset.sum_add_distrib, true_and]
  by_cases heq : r' = r <;> simp [heq]

/-- A sample bills time and changes no counters. -/
theorem Sums.sample (h : Sums lib p a c q spent) (env : Surroundings) (funcId : Int)
    (time : UInt64) (activeThreads : Int) :
    ∃ c' effects, c.step lib env (.sample funcId time activeThreads) = some (c', effects) ∧
      Sums lib p a c' q spent := by
  obtain ⟨host, hstep, hongoing, hmeasures⟩ := h.ongoing.sampled env funcId time activeThreads
  exact ⟨_, _, hostStep_eq hstep, h.keep hongoing hmeasures (Or.inl ⟨rfl, rfl⟩)⟩

/-- A call of the running pipeline, by its answer. -/
theorem Sums.answered (h : Sums lib p a c q spent) (env : Surroundings)
    (call : PapiCall) (hstarts : call.starts = false) (hrange : call.InRange a.numFuncs a.numLoops)
    (thread : ThreadIndex) {answer : Answer}
    (hanswer : c.host.state.call env (c.host.token.getD 0) thread call = some answer) :
    let host := { c.host with state := answer.state }
    c.hostStep lib env (.call call thread) =
        some (answer.effects.foldl (absorb lib) { c with host := host }, answer.effects) ∧
      host.Ongoing p a.numFuncs a.numLoops (call.lastEntered q) := by
  obtain ⟨hstep, hongoing⟩ := h.ongoing.answered env hstarts hrange thread hanswer
  exact ⟨hostStep_eq hstep, hongoing⟩

/-- A call about threads, while nothing is measured. -/
theorem Sums.thread (h : Sums lib p a c none spent) {call : PapiCall}
    (hcall : call.isThread = true) (thread : ThreadIndex) :
    ∃ c' effects, c.hostStep lib env (.call call thread) = some (c', effects) ∧
      Sums lib p a c' none spent := by
  cases call with
  | incrActiveThreads =>
    obtain ⟨hstep, hongoing⟩ := h.answered env .incrActiveThreads rfl trivial thread rfl
    exact ⟨_, _, hstep, h.keep hongoing rfl (Or.inr ⟨rfl, Or.inl rfl⟩)⟩
  | decrActiveThreads =>
    have hdecr := PapiState.decrActiveThreads_none (h.ongoing.follows.left rfl) thread
    obtain ⟨hstep, hongoing⟩ := h.answered env .decrActiveThreads rfl trivial thread hdecr
    exact ⟨_, _, hstep, h.keep hongoing rfl (Or.inr ⟨rfl, Or.inl rfl⟩)⟩
  | enterParallelRegion =>
    obtain ⟨hstep, hongoing⟩ := h.answered env .enterParallelRegion rfl trivial thread rfl
    exact ⟨_, _, hstep, h.keep hongoing rfl (Or.inr ⟨rfl, Or.inl rfl⟩)⟩
  | leaveParallelRegion =>
    obtain ⟨hstep, hongoing⟩ := h.answered env .leaveParallelRegion rfl trivial thread rfl
    exact ⟨_, _, hstep, h.keep hongoing rfl (Or.inr ⟨rfl, Or.inl rfl⟩)⟩
  | _ => cases hcall

theorem Sums.enter (h : Sums lib p a c none spent) {r : Region}
    (hr : r.InRange a.numFuncs a.numLoops) (thread : ThreadIndex) :
    ∃ c' effects, c.hostStep lib env (.call (.enter r) thread) = some (c', effects) ∧
      Sums lib p a c' (some r) spent := by
  obtain ⟨stats, hcurrent, hfuncs, hloops⟩ := h.ongoing.follows.current
  have hr' : r.InRange stats.numFuncs stats.numLoops := by rwa [hfuncs, hloops]
  obtain ⟨hstep, hongoing⟩ := h.answered env (.enter r) rfl hr thread (hcurrent.enter hr')
  exact ⟨_, _, hstep, h.keep hongoing rfl (Or.inr ⟨rfl, Or.inr ⟨c.library, rfl⟩⟩)⟩

theorem Sums.leave (hlib : lib.Counts) {r : Region} (h : Sums lib p a c (some r) spent)
    (hr : r.InRange a.numFuncs a.numLoops) (thread : ThreadIndex) :
    ∃ c' effects, c.hostStep lib env (.call (.leave r) thread) = some (c', effects) ∧
      Sums lib p a c' none spent := by
  obtain ⟨stats, hcurrent, hfuncs, hloops⟩ := h.ongoing.follows.current
  rw [← hfuncs, ← hloops] at hr
  obtain ⟨hstep, hongoing⟩ := h.answered env (.leave r) rfl (by rwa [← hfuncs, ← hloops]) thread
    (hcurrent.leave_eq hr thread)
  obtain ⟨costs, ⟨l₀, hl⟩, hsum⟩ := h.summed
  have hvalues : ∀ n, (lib.markerStop c.library).1 n = (costs.map (· n)).sum := by
    intro n
    rw [hl, hlib]
  have hmeasures : ({ c.host.state.write p (stats.modifyCounters r (Counters.left thread)) with
      lastCounters := none } : PapiState).measuresOf p = _ :=
    PapiState.measuresOf_modifyCounters c.host.state hr (Counters.left thread) rfl
  obtain ⟨runs, before, hbefore, hnoted⟩ := h.noted
  rw [PapiState.measuresOf, hcurrent.record, Option.map_some, Option.some.injEq, Prod.mk.injEq,
    Prod.mk.injEq] at hbefore
  obtain ⟨rfl, hlabels, rfl⟩ := hbefore
  rw [hlabels] at hmeasures
  refine ⟨_, _, hstep, hongoing, ⟨[], rfl, fun r' n => ?_⟩, _, _, hmeasures, hnoted.runs, ?_, ?_⟩
  · show (∑ thread', addTo c.events (.of p r) thread (lib.markerStop c.library).1 p r' thread' n) + _ = _
    rw [← hsum, sum_addTo, hvalues]
    by_cases heq : r' = r
    · simp [heq]
    · simp [heq, Ne.symm heq]
  · intro r' counters hcounters thread' hunused n
    obtain ⟨counters, hbefore, rfl⟩ := Option.map_eq_some_iff.mp hcounters
    have hunused' : counters.used.get thread' = false ∧ ¬ (r' = r ∧ thread' = thread) := by
      split at hunused
      · rw [← Bool.not_eq_true, Counters.used_left] at hunused
        grind
      · next hne => exact ⟨hunused, fun heq => hne heq.1.symm⟩
    show c.events p r' thread' n + (if p = p ∧ r' = r ∧ thread' = thread then _ else _) = 0
    rw [if_neg fun heq => hunused'.2 heq.2, add_zero]
    exact hnoted.unused r' counters hbefore thread' hunused'.1 n
  · intro r' counters hcounters thread' hused
    obtain ⟨counters, hbefore, rfl⟩ := Option.map_eq_some_iff.mp hcounters
    by_cases heq : r = r'
    · rw [if_pos heq]
      exact Nat.succ_pos _
    · rw [if_neg heq] at hused ⊢
      exact hnoted.left r' counters hbefore thread' hused

/-- A call that neither marks nor is about threads. -/
theorem Sums.quiet (h : Sums lib p a c q spent) {call : PapiCall}
    (hstarts : call.starts = false) (hmark : call.isMark = false) (hthread : call.isThread = false)
    (thread : ThreadIndex) :
    ∃ c' effects, c.hostStep lib env (.call call thread) = some (c', effects) ∧
      Sums lib p a c' q spent := by
  cases call with
  | setCurrentFunc t =>
    obtain ⟨hstep, hongoing⟩ := h.answered env (.setCurrentFunc t) rfl trivial thread rfl
    exact ⟨_, _, hstep, h.keep hongoing rfl (Or.inl ⟨rfl, rfl⟩)⟩
  | getState =>
    obtain ⟨hstep, hongoing⟩ := h.answered env .getState rfl trivial thread rfl
    exact ⟨_, _, hstep, h.keep hongoing rfl (Or.inl ⟨rfl, rfl⟩)⟩
  | getPipelineState =>
    obtain ⟨hstep, hongoing⟩ := h.answered env .getPipelineState rfl trivial thread rfl
    exact ⟨_, _, hstep, h.keep hongoing rfl (Or.inl ⟨rfl, rfl⟩)⟩
  | pipelineStart name numFuncs numLoops => cases hstarts
  | registerDestructor => cases hstarts
  | enter r => cases hmark
  | leave r => cases hmark
  | _ => cases hthread

/-- A call that is met while `q` is being measured, as long as the calls nest. -/
theorem Sums.call (hlib : lib.Counts) (h : Sums lib p a c q spent) {call : PapiCall}
    (hstarts : call.starts = false) (hrange : call.InRange a.numFuncs a.numLoops)
    (hnext : measureAlone q call = some q')
    (thread : ThreadIndex) :
    ∃ c' effects, c.hostStep lib env (.call call thread) = some (c', effects) ∧
      Sums lib p a c' q' spent := by
  unfold measureAlone at hnext
  split at hnext
  · cases hnext
  next hquiet =>
    cases hmark : call.isMark with
    | false =>
      rw [measure_of_not_isMark hmark] at hnext
      cases hnext
      cases hthread : call.isThread with
      | false => exact h.quiet hstarts hmark hthread thread
      | true =>
        rw [hthread, Bool.true_and, Bool.not_eq_true, Option.isSome_eq_false_iff,
          Option.isNone_iff_eq_none] at hquiet
        rw [hquiet] at h ⊢
        exact h.thread hthread thread
    | true =>
      cases call with
      | enter r =>
        cases q with
        | none =>
          cases hnext
          exact h.enter hrange thread
        | some r' => cases hnext
      | leave r =>
        cases q with
        | none => cases hnext
        | some r' =>
          rw [measure] at hnext
          split at hnext
          · next heq =>
            cases hnext
            rw [heq] at h
            exact h.leave hlib hrange thread
          · cases hnext
      | _ => cases hmark

/-- One event, as long as the calls nest. -/
theorem Sums.step (env : Surroundings) (hlib : lib.Counts)
    (h : Sums lib p a c q spent) (event : MeteredEvent)
    (hcall : ∀ call ∈ event.papiCall, call.starts = false ∧ call.InRange a.numFuncs a.numLoops)
    (hnext : event.measure q = some q') :
    ∃ c' effects, c.step lib env event = some (c', effects) ∧
      Sums lib p a c' q' (spent ++ (event.spent q).toList) := by
  cases event with
  | sample funcId time activeThreads =>
    cases hnext
    obtain ⟨c', effects, hstep, hsums⟩ := h.sample env funcId time activeThreads
    exact ⟨c', effects, hstep, by rwa [MeteredEvent.spent, Option.toList_none, List.append_nil]⟩
  | event e thread cost =>
    have hwork := h.work e cost
    rw [MeteredEvent.measure, MeteredEvent.papiCall] at hnext
    rw [MeteredEvent.papiCall] at hcall
    rw [Metered.step, MeteredEvent.spent, Option.toList_some]
    cases hpapi : e.papiCall with
    | none =>
      rw [hpapi] at hnext
      cases hnext
      exact ⟨_, _, rfl, hwork⟩
    | some call =>
      rw [hpapi, Option.elim_some] at hnext
      obtain ⟨hstarts, hrange⟩ := hcall call hpapi
      exact hwork.call hlib hstarts hrange hnext thread

/-- A run of the pipeline. -/
theorem Sums.run (env : Surroundings) (hlib : lib.Counts)
    (h : Sums lib p a c q spent) {events : List MeteredEvent}
    (hcalls : ∀ call ∈ events.filterMap MeteredEvent.papiCall,
      call.starts = false ∧ call.InRange a.numFuncs a.numLoops)
    (hauto : runAuto MeteredEvent.measure q events = some q') :
    ∃ c' effects, Machine.run (Metered.step lib env) c events = some (c', effects) ∧
      Sums lib p a c' q' (spent ++ spentBy q events) := by
  induction events generalizing c q spent with
  | nil =>
    cases hauto
    exact ⟨c, [], rfl, by rwa [spentBy, written, List.append_nil]⟩
  | cons event events ih =>
    obtain ⟨q₁, hnext, hrest⟩ := Option.bind_eq_some_iff.mp hauto
    have hcall : ∀ call ∈ event.papiCall, call.starts = false ∧ call.InRange a.numFuncs a.numLoops :=
      fun call hcall => hcalls call (List.mem_filterMap.mpr ⟨event, List.mem_cons_self, hcall⟩)
    have hlater : ∀ call ∈ events.filterMap MeteredEvent.papiCall,
        call.starts = false ∧ call.InRange a.numFuncs a.numLoops := by
      intro call hcall
      obtain ⟨event', hevent', heq⟩ := List.mem_filterMap.mp hcall
      exact hcalls call (List.mem_filterMap.mpr ⟨event', List.mem_cons_of_mem _ hevent', heq⟩)
    obtain ⟨c₁, effects₁, hstep, hsums₁⟩ := h.step env hlib event hcall hnext
    obtain ⟨c', effects, hrun, hsums⟩ := ih hsums₁ hlater hrest
    refine ⟨c', effects₁ ++ effects, by rw [run_cons hstep, hrun]; rfl, ?_⟩
    rw [spentBy, written, hnext, Option.elim_some, ← List.append_assoc]
    exact hsums

/-! ### From the start to the end -/

/-- Before the start there is nothing to count for. -/
theorem quiet_step (lib : CounterLibrary σ) (env : Surroundings) (hquiet : c.host.state.Quiet)
    {event : MeteredEvent} (hcall : ∀ call ∈ event.papiCall, call = .registerDestructor) :
    ∃ library, c.step lib env event = some ({ c with library := library }, []) ∧
      event.measure none = some none := by
  cases event with
  | sample funcId time activeThreads =>
    exact ⟨c.library, hostStep_eq (HostRun.quiet_sample hquiet funcId time activeThreads), rfl⟩
  | event e thread cost =>
    rw [MeteredEvent.papiCall] at hcall
    rw [Metered.step, MeteredEvent.measure, MeteredEvent.papiCall]
    cases hpapi : e.papiCall with
    | none => exact ⟨lib.work cost c.library, rfl, rfl⟩
    | some call =>
      rw [hcall call hpapi]
      exact ⟨lib.work cost c.library, rfl, rfl⟩

theorem quiet_run (lib : CounterLibrary σ) (env : Surroundings) (hquiet : c.host.state.Quiet)
    {events : List MeteredEvent}
    (hcalls : ∀ call ∈ events.filterMap MeteredEvent.papiCall, call = .registerDestructor) :
    ∃ library, Machine.run (Metered.step lib env) c events =
      some ({ c with library := library }, []) ∧
      runAuto MeteredEvent.measure none events = some none ∧
      ∀ spent ∈ spentBy none events, spent.region = none := by
  induction events generalizing c with
  | nil => exact ⟨c.library, rfl, rfl, nofun⟩
  | cons event events ih =>
    have hcall : ∀ call ∈ event.papiCall, call = .registerDestructor :=
      fun call hcall => hcalls call (List.mem_filterMap.mpr ⟨event, List.mem_cons_self, hcall⟩)
    have hlater : ∀ call ∈ events.filterMap MeteredEvent.papiCall, call = .registerDestructor := by
      intro call hcall
      obtain ⟨event', hevent', heq⟩ := List.mem_filterMap.mp hcall
      exact hcalls call (List.mem_filterMap.mpr ⟨event', List.mem_cons_of_mem _ hevent', heq⟩)
    obtain ⟨library₁, hstep, hnext⟩ := quiet_step lib env hquiet hcall
    obtain ⟨library, hrun, hauto, hspent⟩ := ih (c := { c with library := library₁ }) hquiet hlater
    refine ⟨library, by rw [run_cons hstep, hrun]; rfl, by rw [runAuto, hnext]; exact hauto, ?_⟩
    rw [spentBy, written, hnext, Option.elim_some]
    intro spent hmem
    rcases List.mem_append.mp hmem with hmem | hmem
    · cases event with
      | sample funcId time activeThreads => cases hmem
      | event e thread cost =>
        rw [List.mem_singleton.mp hmem]
    · exact hspent spent hmem

/-- A start with memory for its record gives every region new counters. -/
theorem quiet_start (lib : CounterLibrary σ) (hquiet : c.host.state.Quiet) (name : String)
    (numFuncs : Int) {numLoops : Int} (hrecord : env.mallocs.record = some p)
    (harrays : env.mallocs.arrays numLoops = true) (hspent : ∀ s ∈ spent, s.region = none)
    (thread : ThreadIndex) :
    ∃ c' effects, c.hostStep lib env (.call (.pipelineStart name numFuncs numLoops) thread) =
        some (c', effects) ∧
      Sums lib p (env.startArgs name numFuncs numLoops) c' none spent := by
  obtain ⟨host, counters, hstep, hongoing, hmeasures, hzero⟩ :=
    HostRun.quiet_starts hquiet name numFuncs hrecord harrays thread
  obtain ⟨stats, hcurrent, _, _⟩ := hongoing.follows.current
  refine ⟨_, _, hostStep_eq hstep, hongoing, ⟨[], rfl, fun r n => ?_⟩, 1, counters, hmeasures,
    Nat.one_pos, fun r c' hc' thread' _ n => if_pos hcurrent.current, fun r c' hc' thread' hused => ?_⟩
  · show (∑ thread', if host.state.currentPipelineStats = some p then (0 : Int) else _) +
      (if none = some r then _ else 0) = _
    rw [spentIn_of_region hspent, hcurrent.current]
    simp
  · rw [hzero r c' hc'] at hused
    simp [Counters.zero] at hused

/-- What the end of the pipeline prints: one report, in which the threads that have measured a region have
counted what was spent in it. -/
structure Reports (c : Metered σ) (p : Ptr) (a : StartArgs) (spent : List Spent)
    (stats : PipelineStats) : Prop where
  ends : ∃ answer, c.host.state.pipelineEnd = some answer ∧ answer.state.Quiet ∧
    answer.effects = [.papiHalideShutdown, .report p stats, .free p]
  labels : stats.labels = a.labels
  noted : Noted (c.events p) stats.runs stats.counters
  summed : ∀ r, r.InRange a.numFuncs a.numLoops → ∃ counters, stats.counters r = some counters ∧
    ∀ n, ∑ thread with counters.used.get thread, c.events p r thread n = spentIn r spent n

theorem Sums.reports (h : Sums lib p a c none spent) (env : Surroundings) :
    ∃ stats, Reports c p a spent stats := by
  obtain ⟨stats, hcurrent, hfuncs, hloops⟩ := h.ongoing.follows.current
  obtain ⟨runs, counters, hmeasures, hnoted⟩ := h.noted
  rw [PapiState.measuresOf, hcurrent.record, Option.map_some, Option.some.injEq, Prod.mk.injEq,
    Prod.mk.injEq] at hmeasures
  obtain ⟨rfl, hlabels, rfl⟩ := hmeasures
  refine ⟨stats, h.ongoing.ends env hcurrent.record hnoted.runs.ne', hlabels, hnoted, fun r hr => ?_⟩
  rw [← hfuncs, ← hloops] at hr
  obtain ⟨counters, hcounters⟩ :=
    Option.isSome_iff_exists.mp (hcurrent.sized.counters_isSome_iff.mpr hr)
  refine ⟨counters, hcounters, fun n => ?_⟩
  obtain ⟨costs, rfl, hsum⟩ := h.summed
  rw [← hsum, if_neg nofun, add_zero]
  apply Finset.sum_filter_of_ne
  intro thread _ hne
  by_contra hunused
  exact hne (hnoted.unused r counters hcounters thread (by simpa using hunused) n)

/-- A pipeline alone, from its start to its end, with samples taken at any time: the report says of every
region what was spent in it. -/
theorem run_metered (hlib : lib.Counts) (hquiet : c.host.state.Quiet)
    (hrecord : env.mallocs.record = some p) {numFuncs numLoops : Int}
    (harrays : env.mallocs.arrays numLoops = true) {events : List MeteredEvent} {name : String}
    {rest : List PapiCall}
    (hcalls : events.filterMap MeteredEvent.papiCall =
      .registerDestructor :: .pipelineStart name numFuncs numLoops :: rest)
    (hrest : ∀ call ∈ rest, call.starts = false ∧ call.InRange numFuncs numLoops)
    (hauto : runAuto MeteredEvent.measure none events = some none) :
    ∃ c' effects stats, Machine.run (Metered.step lib env) c events = some (c', effects) ∧
      Reports c' p (env.startArgs name numFuncs numLoops) (spentBy none events) stats := by
  obtain ⟨before, start, after, rfl, hbefore, hstart, hafter⟩ := exists_start hcalls
  obtain ⟨library, hrun₁, hauto₁, hspent₁⟩ := quiet_run lib env hquiet hbefore
  cases start with
  | sample funcId time activeThreads => cases hstart
  | event e thread cost =>
    rw [MeteredEvent.papiCall] at hstart
    let c₁ : Metered σ := { c with library := library }
    have hspent : ∀ s ∈ spentBy none before ++ [⟨e, cost, none⟩], s.region = none := by
      intro s hs
      rcases List.mem_append.mp hs with hs | hs
      · exact hspent₁ s hs
      · rw [List.mem_singleton.mp hs]
    obtain ⟨c₂, effects₂, hstep, hsums⟩ := quiet_start (c := c₁.work lib cost) lib hquiet name
      numFuncs hrecord harrays hspent thread
    have hmeasured : (MeteredEvent.event e thread cost).measure none = some none := by
      rw [MeteredEvent.measure, MeteredEvent.papiCall, hstart]
      rfl
    have hstep' : c₁.step lib env (.event e thread cost) = some (c₂, effects₂) := by
      rw [Metered.step, hstart]
      exact hstep
    rw [runAuto_append, hauto₁, Option.bind_some, runAuto, hmeasured] at hauto
    obtain ⟨c', effects, hrun, hsums'⟩ := hsums.run env hlib (by rw [hafter]; exact hrest) hauto
    obtain ⟨stats, hreports⟩ := hsums'.reports env
    refine ⟨c', effects₂ ++ effects, stats, ?_, ?_⟩
    · rw [run_append, hrun₁, Option.bind_some, run_cons hstep', hrun]
      rfl
    · rw [spentBy, written_append hauto₁, written, hmeasured, Option.elim_some, ← List.append_assoc]
      exact hreports

end Metered

/-! ### Counting by addition -/

/-- A library that adds up what is done. -/
def addingLibrary : CounterLibrary (Nat → Int) where
  work cost total := fun n => total n + cost n
  markerStart _ := fun _ => 0
  markerStop total := (total, total)
  other _ total := total

theorem workAll_addingLibrary (costs : List (Nat → Int)) (total : Nat → Int) (n : Nat) :
    addingLibrary.workAll costs total n = total n + (costs.map (· n)).sum := by
  induction costs generalizing total with
  | nil => simp [CounterLibrary.workAll]
  | cons cost costs ih =>
    show addingLibrary.workAll costs _ n = _
    rw [ih, List.map_cons, List.sum_cons]
    exact add_assoc (total n) _ _

theorem addingLibrary_counts : addingLibrary.Counts :=
  fun _ costs n => (workAll_addingLibrary costs _ n).trans (zero_add _)

end ProfHalide
