import ProfHalide.Report.Spending

/-!
# One program after another

The end of a pipeline prints its report, frees its record and leaves the profiler as it was before the
start, but for the library of counters. So programs that run one after the other are each reported on their
own, whatever their names are and however often the same one runs.
-/

namespace ProfHalide

open InjectPAPIProfiling Behaviour

/-- A program with what is registered for it, and a run of it. -/
structure Program where
  defs : List ProfilerDef
  loopDefs : List ProfilerLoop
  source : Stmt Empty
  pipelineName : String
  env : Surroundings
  record : Ptr
  events : List MeteredEvent

namespace Program

/-- The mutator when it is done with the source. -/
def mutated (job : Program) : InjectPAPIProfiling := (mutate job.defs job.loopDefs job.source init).2

def startArgs (job : Program) : StartArgs :=
  job.env.startArgs job.pipelineName job.mutated.indices.size job.mutated.loops.size

/-- The program is serial, the schedule nests no regions in it, the runtime gets its memory, and the run
comes to its end. -/
structure Completes (job : Program) : Prop where
  clean : job.source.Clean
  serial : job.source.serial = true
  nests : neverNests job.defs job.loopDefs none .idle job.source = true
  loops : (profiledLoops job.loopDefs job.source).Nodup
  record : job.env.mallocs.record = some job.record
  arrays : job.env.mallocs.arrays job.mutated.loops.size = true
  completes : (injectPapiProfiling job.defs job.loopDefs job.source job.pipelineName).exec
    (job.events.filterMap MeteredEvent.event?) true

/-- What the program prints in the end, and the counters then. -/
structure Printed (σ : Type) where
  counted : Metered σ
  effects : List Effect

/-- The report is about this run of the program and about nothing else. -/
def Reported {σ : Type} (job : Program) (printed : Printed σ) : Prop :=
  ∃ stats, printed.effects = [.papiHalideShutdown, .report job.record stats, .free job.record] ∧
    (∀ numberOfEvents string,
      (regionRecords (printed.counted.snapshot numberOfEvents string) job.record stats).map
          (fun R => (R.label, R.sum)) =
        (listedRegions job.startArgs.numFuncs job.startArgs.numLoops).map
          fun r => (Metered.label job.startArgs string r, spentIn r (spentBy none job.events))) ∧
    attributed job.defs job.loopDefs (·.region job.mutated.indices job.mutated.loops) none none
      job.source ((spentBy none job.events).filterMap Spent.credit) true

variable {σ : Type} (lib : CounterLibrary σ)

/-- `halide_papi_pipeline_end`, which the program has registered. The next program has a token of its
own. -/
def finish (c : Metered σ) : Option (Metered σ × List Effect) :=
  c.host.state.pipelineEnd.map fun answer =>
    (answer.effects.foldl (Metered.absorb lib) { c with host := ⟨answer.state, none⟩ }, answer.effects)

/-- A program from its start to its end. -/
def step (c : Metered σ) (job : Program) : Option (Metered σ × List (Printed σ)) := do
  let (counted, _) ← Machine.run (Metered.step lib job.env) c job.events
  let (c, effects) ← finish lib counted
  return (c, [⟨counted, effects⟩])

variable {lib} {c : Metered σ}

@[simp] theorem host_absorb (effect : Effect) : (c.absorb lib effect).host = c.host := by
  cases effect <;> rfl

@[simp] theorem host_foldl_absorb (effects : List Effect) :
    (effects.foldl (Metered.absorb lib) c).host = c.host := by
  induction effects generalizing c with
  | nil => rfl
  | cons effect effects ih =>
    show (effects.foldl (Metered.absorb lib) (c.absorb lib effect)).host = c.host
    rw [ih, host_absorb]

/-- A program that completes is reported, and leaves a quiet profiler to the next. -/
theorem Completes.step {job : Program} (h : job.Completes) (hlib : lib.Counts)
    (hquiet : c.host.state.Quiet) :
    ∃ c' printed, Program.step lib c job = some (c', [printed]) ∧ c'.host.state.Quiet ∧
      job.Reported printed := by
  obtain ⟨counted, effects, stats, hrun, hreports⟩ := inject_metered hlib hquiet h.record h.clean h.serial
    h.nests h.loops h.arrays h.completes
  obtain ⟨answer, hend, hidle, heffects⟩ := hreports.ends
  let next := answer.effects.foldl (Metered.absorb lib) { counted with host := ⟨answer.state, none⟩ }
  refine ⟨next, ⟨counted, answer.effects⟩, ?_, ?_, stats, heffects, hreports.rows_eq,
    inject_attributed h.clean h.serial h.nests h.loops h.completes⟩
  · have hfinish : finish lib counted = some (next, answer.effects) := by
      rw [finish, hend]
      rfl
    rw [Program.step, hrun]
    exact congrArg (Option.bind · _) hfinish
  · rw [host_foldl_absorb]
    exact hidle

/-- Programs that run one after the other are each reported on their own. -/
theorem run_reported (hlib : lib.Counts) {jobs : List Program} (hjobs : ∀ job ∈ jobs, job.Completes)
    (hquiet : c.host.state.Quiet) :
    ∃ c' printed, Machine.run (step lib) c jobs = some (c', printed) ∧ c'.host.state.Quiet ∧
      List.Forall₂ Reported jobs printed := by
  induction jobs generalizing c with
  | nil => exact ⟨c, [], rfl, hquiet, .nil⟩
  | cons job jobs ih =>
    rw [List.forall_mem_cons] at hjobs
    obtain ⟨c₁, printed₁, hstep, hquiet₁, hreported⟩ := hjobs.1.step hlib hquiet
    obtain ⟨c', printed, hrun, hquiet', hall⟩ := ih hjobs.2 hquiet₁
    refine ⟨c', printed₁ :: printed, ?_, hquiet', .cons hreported hall⟩
    rw [Machine.run_cons hstep, hrun]
    rfl

/-- The three regions. -/
def measured : Program where
  defs := threeRegionsDefs
  loopDefs := [⟨"h", "x", false⟩]
  source := threeRegions
  pipelineName := "p"
  env := threeRegionsTables
  record := 1
  events := threeRegionsRun

/-- The same program with nothing registered. -/
def plain : Program where
  defs := []
  loopDefs := []
  source := threeRegions
  pipelineName := "p"
  env := threeRegionsTables
  record := 1
  events := priced ((injectPapiProfiling [] [] threeRegions "p").rounds 2)

theorem completes_measured : measured.Completes where
  clean := by
    unfold Stmt.Clean
    decide
  serial := by decide
  nests := by decide
  loops := by decide
  record := rfl
  arrays := rfl
  completes := exec_threeRegionsRun

theorem completes_plain : plain.Completes where
  clean := by
    unfold Stmt.Clean
    decide
  serial := by decide
  nests := by decide
  loops := by decide
  record := rfl
  arrays := rfl
  completes := by
    rw [plain, filterMap_event?_priced]
    exact Stmt.exec_rounds 2 _

theorem run_reported_twice : ∃ c' printed,
    Machine.run (step addingLibrary) ⟨⟨.initial, none⟩, fun _ => 0, fun _ _ _ _ => 0⟩
        [measured, plain, measured] = some (c', printed) ∧ c'.host.state.Quiet ∧
      List.Forall₂ Reported [measured, plain, measured] printed :=
  run_reported addingLibrary_counts
    (by simp [completes_measured, completes_plain]) HostRun.quiet_initial

end Program

end ProfHalide
