import ProfHalide.Runtime.Pool
import ProfHalide.Report.Rows

/-!
# The rows of a report, thread by thread

A report shows what the threads have counted for a region, each under its own number. When the threads of
a pipeline count as their calls fit together, these are the numbers of what every thread has spent there.
-/

namespace ProfHalide

open Behaviour

/-- What a record of the report has for a thread. -/
def RegionRecord.countOn (R : RegionRecord) (thread : ThreadIndex) (n : Nat) : Int :=
  if R.counters.used.get thread then R.events thread n else 0

namespace Pool

variable {σ : Type} {lib : CounterLibrary σ} {env : Surroundings} {c : Pool σ} {p : Ptr} {a : StartArgs}
  {m : Meter} {spent : List ThreadSpent} {stats : PipelineStats}

/-- What the report finds. -/
def snapshot (c : Pool σ) (numberOfEvents : Nat) (string : Ptr → String) : Snapshot where
  numberOfEvents := numberOfEvents
  string := string
  events := c.events

namespace Reports

/-- What the record of a region has for each thread. -/
theorem countOn_eq (h : Reports c p a spent stats) {snapshot : Snapshot} {R : RegionRecord} {r : Region}
    (habout : R.About a snapshot p stats r) (hevents : snapshot.events = c.events) :
    R.countOn = fun thread => spentOn thread r spent := by
  obtain ⟨counters, hcounters, hsum⟩ := h.summed r habout.inRange
  rw [habout.counters] at hcounters
  cases hcounters
  funext thread n
  rw [RegionRecord.countOn, habout.events, hevents]
  exact hsum thread n

theorem rows_eq (h : Reports c p a spent stats) (numberOfEvents : Nat) (string : Ptr → String) :
    (regionRecords (c.snapshot numberOfEvents string) p stats).map (fun R => (R.label, R.countOn)) =
      (listedRegions a.numFuncs a.numLoops).map
        fun r => (Metered.label a string r, fun thread => spentOn thread r spent) :=
  map_regionRecords h.labels fun _ _ habout => Prod.ext_iff.mpr
    ⟨habout.label, h.countOn_eq habout rfl⟩

end Reports

/-- A pipeline alone, from its start to its end, on threads whose calls fit together, with samples taken at
any time: the report says of every region and every thread what that thread has spent there. -/
theorem run_thread_rows (hlib : lib.Counts) (hthreads : lib.CountsThreads) (hquiet : c.host.state.Quiet)
    (hrecord : env.mallocs.record = some p) {numFuncs numLoops : Int}
    (harrays : env.mallocs.arrays numLoops = true) {events : List PoolEvent} {name : String}
    {rest : List PapiCall}
    (hcalls : events.filterMap PoolEvent.papiCall =
      .registerDestructor :: .pipelineStart name numFuncs numLoops :: rest)
    (hrest : ∀ call ∈ rest, call.starts = false ∧ call.InRange numFuncs numLoops)
    (hauto : runAuto PoolEvent.measure .idle events = some m) (hregion : m.region = none)
    (numberOfEvents : Nat) (string : Ptr → String) :
    let a := env.startArgs name numFuncs numLoops
    ∃ c' effects stats, Machine.run (Pool.step lib env) c events = some (c', effects) ∧
      Reports c' p a (spentBy .idle events) stats ∧
      (regionRecords (c'.snapshot numberOfEvents string) p stats).map (fun R => (R.label, R.countOn)) =
        (listedRegions numFuncs numLoops).map fun r =>
          (Metered.label a string r, fun thread => spentOn thread r (spentBy .idle events)) := by
  obtain ⟨c', effects, stats, hrun, hreports⟩ :=
    run_metered hlib hthreads hquiet hrecord harrays hcalls hrest hauto hregion
  exact ⟨c', effects, stats, hrun, hreports, hreports.rows_eq numberOfEvents string⟩

/-- A func is entered, and two workers count for it while the thread that has entered it waits. -/
def twoWorkers : List PoolEvent :=
  [.call .registerDestructor 0, .call (.pipelineStart "p" 2 0) 0, .call .incrActiveThreads 0,
    .call (.enter (.func 1 true)) 0, .work 0 fun _ => 5, .call .decrActiveThreads 0,
    .call .enterParallelRegion 0, .work 0 fun _ => 90, .call .incrActiveThreads 1,
    .call .incrActiveThreads 2, .work 2 fun _ => 7, .work 1 fun _ => 3, .sample 1 100 2,
    .call .decrActiveThreads 2, .work 1 fun _ => 4, .call .decrActiveThreads 1,
    .call .leaveParallelRegion 0, .call .incrActiveThreads 0, .work 0 fun _ => 1,
    .call (.leave (.func 1 true)) 0, .work 0 fun _ => 90, .call .decrActiveThreads 0]

theorem run_thread_rows_twoWorkers : ∃ c' effects stats,
    Machine.run (Pool.step threadLibrary HostRun.oneRecord)
        ⟨⟨.initial, none⟩, fun _ _ => 0, fun _ _ _ _ => 0⟩ twoWorkers = some (c', effects) ∧
      Reports c' 1 (HostRun.oneRecord.startArgs "p" 2 0) (spentBy .idle twoWorkers) stats ∧
      (regionRecords (c'.snapshot 1 fun _ => "f") 1 stats).map (fun R => (R.label, R.countOn)) =
        (listedRegions 2 0).map fun r => (Metered.label (HostRun.oneRecord.startArgs "p" 2 0) (fun _ => "f") r,
          fun thread => spentOn thread r (spentBy .idle twoWorkers)) := by
  have hcalls : twoWorkers.filterMap PoolEvent.papiCall = .registerDestructor :: .pipelineStart "p" 2 0 ::
      [.incrActiveThreads, .enter (.func 1 true), .decrActiveThreads, .enterParallelRegion,
        .incrActiveThreads, .incrActiveThreads, .decrActiveThreads, .decrActiveThreads,
        .leaveParallelRegion, .incrActiveThreads, .leave (.func 1 true), .decrActiveThreads] := rfl
  refine run_thread_rows threadLibrary_counts.1 threadLibrary_counts.2 HostRun.quiet_initial rfl rfl hcalls ?_
    rfl rfl 1 fun _ => "f"
  simp [PapiCall.starts, PapiCall.InRange, Region.InRange]

example : (spentOn 0 (.func 1 true) (spentBy .idle twoWorkers) 0,
    spentOn 1 (.func 1 true) (spentBy .idle twoWorkers) 0,
    spentOn 2 (.func 1 true) (spentBy .idle twoWorkers) 0) = (6, 7, 7) := by decide

end Pool

end ProfHalide
