import ProfHalide.Pass.SerialCalls
import ProfHalide.Pass.Attribution
import ProfHalide.Report.Rows

/-!
# What a report says about the source

A statement that runs on one thread is instrumented, runs to its end while samples are taken, and the
pipeline is reported. The counters of a region are then what was spent on the events of the source that
the schedule has measured as that region, and on the calls of the profiler among them.
-/

namespace ProfHalide

open InjectPAPIProfiling Numbering Behaviour

/-! ### The calls of a run on one thread -/

theorem measureAlone_of_not_isThread {c : PapiCall} (h : c.isThread = false) (q : Option Region) :
    measureAlone q c = measure q c := by
  rw [measureAlone, h]
  rfl

theorem PapiCall.isThread_of_isMarker {c : PapiCall} (h : c.isMarker = true) : c.isThread = false := by
  cases c with
  | enter r => rfl
  | leave r => rfl
  | setCurrentFunc t => rfl
  | _ => cases h

theorem runAuto_measureAlone {calls : List PapiCall} (h : ∀ c ∈ calls, c.isThread = false)
    (q : Option Region) : runAuto measureAlone q calls = runAuto measure q calls := by
  induction calls generalizing q with
  | nil => rfl
  | cons c calls ih =>
    rw [List.forall_mem_cons] at h
    rw [runAuto, runAuto, measureAlone_of_not_isThread h.1]
    exact congrArg (Option.bind (measure q c)) (funext (ih h.2))

/-- Between the calls that count the thread in and out there are markers only, so that none of the two
comes while a region is being measured. -/
theorem runAuto_measureAlone_prologue {pipelineName : String} {numFuncs numLoops : Int}
    {body : List PapiCall} (hbody : ∀ c ∈ body, c.isMarker = true)
    (h : runAuto measure none (prologue pipelineName numFuncs numLoops ++
      (body ++ [.decrActiveThreads])) = some none) :
    runAuto measureAlone none (prologue pipelineName numFuncs numLoops ++
      (body ++ [.decrActiveThreads])) = some none := by
  have hprologue : runAuto measure none (prologue pipelineName numFuncs numLoops) = some none := rfl
  have hprologue' : runAuto measureAlone none (prologue pipelineName numFuncs numLoops) = some none :=
    rfl
  rw [runAuto_append, hprologue, Option.bind_some, runAuto_append] at h
  rw [runAuto_append, hprologue', Option.bind_some, runAuto_append,
    runAuto_measureAlone fun c hc => PapiCall.isThread_of_isMarker (hbody c hc)]
  obtain ⟨q, hq, hlast⟩ := Option.bind_eq_some_iff.mp h
  rw [runAuto, measure_of_not_isMark rfl] at hlast
  cases hlast
  rw [hq]
  rfl

/-! ### What is spent on the source -/

def MeteredEvent.event? : MeteredEvent → Option (Event PapiFn)
  | .event e _ _ => some e
  | .sample _ _ _ => none

/-- What is noted of something spent. -/
def Spent.credit (s : Spent) : Option (Event PapiFn × Option Region) := s.event.credit s.region

theorem filterMap_papiCall_event? (events : List MeteredEvent) :
    (events.filterMap MeteredEvent.event?).filterMap Event.papiCall =
      events.filterMap MeteredEvent.papiCall := by
  rw [List.filterMap_filterMap]
  congr 1
  funext event
  cases event <;> rfl

/-- As long as the calls nest, what is spent is spent in the regions that the events are measured in. -/
theorem filterMap_credit_spentBy {q q' : Option Region} {events : List MeteredEvent}
    (h : runAuto MeteredEvent.measure q events = some q') :
    (spentBy q events).filterMap Spent.credit =
      written Event.measure Event.credit q (events.filterMap MeteredEvent.event?) := by
  induction events generalizing q with
  | nil => rfl
  | cons event events ih =>
    obtain ⟨q₁, hnext, hrest⟩ := Option.bind_eq_some_iff.mp h
    rw [spentBy, written, hnext, Option.elim_some, List.filterMap_append]
    cases event with
    | sample funcId time activeThreads =>
      cases hnext
      exact ih hrest
    | event e thread cost =>
      have hmeasure : e.measure q = some q₁ := by
        rw [MeteredEvent.measure, MeteredEvent.papiCall] at hnext
        rw [Event.measure]
        cases hcall : e.papiCall with
        | none =>
          rw [hcall] at hnext
          exact hnext
        | some c =>
          rw [hcall, Option.elim_some, measureAlone] at hnext
          split at hnext
          · cases hnext
          · exact hnext
      rw [List.filterMap_cons, MeteredEvent.event?, written, hmeasure, Option.elim_some, ← ih hrest]
      congr 1

theorem eq_or_enter_of_measure {q : Option Region} {c : PapiCall} {r : Region}
    (h : measure q c = some (some r)) : q = some r ∨ c = .enter r := by
  cases c with
  | enter r' =>
    cases q with
    | none =>
      cases h
      exact Or.inr rfl
    | some r₀ => cases h
  | leave r' =>
    cases q with
    | none => cases h
    | some r₀ =>
      rw [measure] at h
      split at h <;> cases h
  | _ =>
    rw [measure_of_not_isMark rfl] at h
    exact Or.inl (Option.some.inj h)

/-- What is being measured was entered by a call. -/
theorem region_of_mem_spentBy {q : Option Region} {events : List MeteredEvent} {s : Spent}
    (hs : s ∈ spentBy q events) {r : Region} (hr : s.region = some r) :
    q = some r ∨ .enter r ∈ events.filterMap MeteredEvent.papiCall := by
  induction events generalizing q with
  | nil => cases hs
  | cons event events ih =>
    rw [spentBy, written] at hs
    cases hnext : event.measure q with
    | none =>
      rw [hnext] at hs
      cases hs
    | some q₁ =>
      rw [hnext, Option.elim_some, List.mem_append] at hs
      have hafter : .enter r ∈ events.filterMap MeteredEvent.papiCall →
          .enter r ∈ (event :: events).filterMap MeteredEvent.papiCall := by
        intro hmem
        rw [List.filterMap_cons]
        cases event.papiCall with
        | none => exact hmem
        | some c => exact List.mem_cons_of_mem _ hmem
      rcases hs with hs | hs
      · cases event with
        | sample funcId time activeThreads => cases hs
        | event e thread cost =>
          rw [MeteredEvent.spent, Option.toList_some, List.mem_singleton] at hs
          exact Or.inl (by rw [← hr, hs])
      · rcases ih hs with rfl | hmem
        · rw [MeteredEvent.measure] at hnext
          cases hcall : event.papiCall with
          | none =>
            rw [hcall] at hnext
            exact Or.inl (Option.some.inj hnext)
          | some c =>
            rw [hcall, Option.elim_some, measureAlone] at hnext
            split at hnext
            · cases hnext
            · refine (eq_or_enter_of_measure hnext).imp_right fun henter => ?_
              rw [List.filterMap_cons, hcall, henter]
              exact List.mem_cons_self
        · exact Or.inr (hafter hmem)

/-! ### The names of the source in the report -/

namespace RegionName

/-- What the rows of a region are called. -/
def rowLabel : RegionName → String
  | .func f isProducer => f ++ if isProducer then "_prod" else "_cons"
  | .overhead f => f ++ "_overhead"
  | .loop name => name

/-- The func or loop has a number of its own. -/
def Known (ids loops : Std.TreeMap String Nat) : RegionName → Prop
  | .func f _ | .overhead f => f ≠ "overhead" ∧ f ∈ ids
  | .loop name => name ∈ loops

end RegionName

/-- Where the start reads the names, the program has stored them. -/
structure ReadsTables (env : Surroundings) (string : Ptr → String) (r : Stmt PapiFn) : Prop where
  funcs : ∀ (i : Nat) name, r.tableEntry "profiling_func_names" i = some name →
    string (env.funcNames i) = name
  loops : ∀ (i : Nat) name, r.tableEntry "profiling_loop_names" i = some name →
    string (env.loopNames i) = name

/-- A known region is listed, under its name. -/
theorem RegionName.Known.listed {env : Surroundings} {string : Ptr → String} {defs : List ProfilerDef}
    {loopDefs : List ProfilerLoop} {s : Stmt Empty} {pipelineName : String}
    (hloops : (profiledLoops loopDefs s).Nodup)
    (hreads : ReadsTables env string (injectPapiProfiling defs loopDefs s pipelineName))
    {region : RegionName} (hknown : region.Known (mutate defs loopDefs s init).2.indices
      (mutate defs loopDefs s init).2.loops) :
    region.region (mutate defs loopDefs s init).2.indices (mutate defs loopDefs s init).2.loops ∈
        listedRegions (mutate defs loopDefs s init).2.indices.size
          (mutate defs loopDefs s init).2.loops.size ∧
      Metered.label (env.startArgs pipelineName (mutate defs loopDefs s init).2.indices.size
          (mutate defs loopDefs s init).2.loops.size) string
        (region.region (mutate defs loopDefs s init).2.indices (mutate defs loopDefs s init).2.loops) =
        region.rowLabel := by
  have hnumbered := numbered_indices defs loopDefs s
  have htop : (mutate defs loopDefs s init).2.indices["overhead"]? = some 0 :=
    (mutate_frame defs loopDefs s init).known Std.TreeMap.getElem?_insert_self
  have hfunc : ∀ f, f ≠ "overhead" ∧ f ∈ (mutate defs loopDefs s init).2.indices →
      ∃ i : Nat, (mutate defs loopDefs s init).2.indices[f]?.getD 0 = i ∧ 1 ≤ i ∧
        i < (mutate defs loopDefs s init).2.indices.size ∧ string (env.funcNames i) = f := by
    rintro f ⟨hne, hmem⟩
    obtain ⟨i, hi⟩ := Option.isSome_iff_exists.mp (Std.TreeMap.isSome_getElem?_iff_mem.mpr hmem)
    refine ⟨i, by rw [hi]; rfl, ?_, hnumbered.lt _ _ hi, hreads.funcs i f ?_⟩
    · rw [Nat.one_le_iff_ne_zero]
      rintro rfl
      exact hne (hnumbered.inj _ _ _ hi htop)
    · exact Stmt.tableEntry_of_getElem? (inject_funcNames defs loopDefs s pipelineName) hnumbered hi
  cases region with
  | func f isProducer =>
    obtain ⟨i, hi, hpos, hlt, hname⟩ := hfunc f hknown
    rw [RegionName.region, hi]
    refine ⟨mem_listedRegions.mpr ⟨⟨by omega, by omega⟩, ?_⟩, ?_⟩
    · exact Int.ofNat_le.mpr hpos
    · show string (env.funcNames i) ++ _ = _
      rw [hname]
      rfl
  | overhead f =>
    obtain ⟨i, hi, hpos, hlt, hname⟩ := hfunc f hknown
    rw [RegionName.region, hi]
    refine ⟨mem_listedRegions.mpr ⟨⟨by omega, by omega⟩, ?_⟩, ?_⟩
    · exact Int.ofNat_le.mpr hpos
    · show string (env.funcNames i) ++ _ = _
      rw [hname]
      rfl
  | loop name =>
    have hempty : Numbered init.loops := numbered_empty
    have hnumbered := hempty.register ((fresh_init_iff loopDefs s).mpr hloops)
    have hmem : name ∈ (mutate defs loopDefs s init).2.loops := hknown
    obtain ⟨i, hi⟩ := Option.isSome_iff_exists.mp (Std.TreeMap.isSome_getElem?_iff_mem.mpr hmem)
    have hentry : string (env.loopNames i) = name :=
      hreads.loops i name (tableEntry_of_getElem? defs loopDefs s pipelineName hnumbered
        (by rwa [mutate_loops] at hi))
    have hlt : i < (mutate defs loopDefs s init).2.loops.size := by
      rw [mutate_loops] at hi ⊢
      exact hnumbered.lt _ _ hi
    rw [RegionName.region, hi, Option.getD_some]
    exact ⟨mem_listedRegions.mpr ⟨⟨by omega, by omega⟩, trivial⟩, hentry⟩

/-! ### From the source to the report -/

section Inject

variable {σ : Type} {lib : CounterLibrary σ} {env : Surroundings} {c : Metered σ} {p : Ptr}
  {defs : List ProfilerDef} {loopDefs : List ProfilerLoop} {s : Stmt Empty} {pipelineName : String}
  {events : List MeteredEvent}

/-- The calls of a completed run of an instrumented serial statement: markers between those that start
the pipeline and the one that ends it. -/
theorem inject_marks (hserial : s.serial = true) (hloops : (profiledLoops loopDefs s).Nodup)
    (hrun : (injectPapiProfiling defs loopDefs s pipelineName).exec
      (events.filterMap MeteredEvent.event?) true) :
    ∃ body, events.filterMap MeteredEvent.papiCall =
        prologue pipelineName (mutate defs loopDefs s init).2.indices.size
          (mutate defs loopDefs s init).2.loops.size ++ (body ++ [.decrActiveThreads]) ∧
      (mutate defs loopDefs s init).1.papiTrace body true ∧
      ∀ call ∈ body, call.isMarker = true ∧ call.InRange (mutate defs loopDefs s init).2.indices.size
        (mutate defs loopDefs s init).2.loops.size := by
  obtain ⟨body, hbody, hcalls⟩ := calls_inject hrun
  rw [filterMap_papiCall_event?] at hcalls
  exact ⟨body, hcalls, hbody, fun call hcall =>
    ⟨(mutate_marksOnly defs loopDefs s hserial init).papiTrace body true hbody call hcall,
      (mutate_inRange defs hloops).papiTrace body true hbody call hcall⟩⟩

/-- The calls nest all along such a run. -/
theorem inject_measured (hs : s.Clean) (hserial : s.serial = true)
    (hnests : neverNests defs loopDefs none .idle s = true) (hloops : (profiledLoops loopDefs s).Nodup)
    (hrun : (injectPapiProfiling defs loopDefs s pipelineName).exec
      (events.filterMap MeteredEvent.event?) true) :
    runAuto MeteredEvent.measure none events = some none := by
  obtain ⟨body, hcalls, _, hmarks⟩ := inject_marks hserial hloops hrun
  obtain ⟨q, hq, hend⟩ := (attributes_inject hs (Stmt.onHost_of_serial hserial) hnests hloops
    pipelineName).leads _ true hrun
  rw [hend rfl] at hq
  have hmeasured : runAuto measure none (events.filterMap MeteredEvent.papiCall) = some none := by
    rw [← filterMap_papiCall_event?, ← runAuto_filterMap]
    exact hq
  rw [hcalls] at hmeasured
  have halone := runAuto_measureAlone_prologue (fun call hcall => (hmarks call hcall).1) hmeasured
  rw [← hcalls, ← runAuto_filterMap] at halone
  exact halone

/-- Such a run is reported by what it has spent in each region. -/
theorem inject_metered (hlib : lib.Counts) (hquiet : c.host.state.Quiet)
    (hrecord : env.mallocs.record = some p) (hs : s.Clean) (hserial : s.serial = true)
    (hnests : neverNests defs loopDefs none .idle s = true) (hloops : (profiledLoops loopDefs s).Nodup)
    (harrays : env.mallocs.arrays (mutate defs loopDefs s init).2.loops.size = true)
    (hrun : (injectPapiProfiling defs loopDefs s pipelineName).exec
      (events.filterMap MeteredEvent.event?) true) :
    ∃ c' effects stats, Machine.run (Metered.step lib env) c events = some (c', effects) ∧
      Metered.Reports c' p (env.startArgs pipelineName (mutate defs loopDefs s init).2.indices.size
        (mutate defs loopDefs s init).2.loops.size) (spentBy none events) stats := by
  obtain ⟨body, hcalls, _, hmarks⟩ := inject_marks hserial hloops hrun
  refine Metered.run_metered hlib hquiet hrecord harrays hcalls ?_
    (inject_measured hs hserial hnests hloops hrun)
  intro call hcall
  change call ∈ [.getState, .getPipelineState, .incrActiveThreads] ++ (body ++ [.decrActiveThreads])
    at hcall
  rw [List.mem_append, List.mem_append] at hcall
  rcases hcall with hcall | hcall | hcall
  · simp only [List.mem_cons, List.not_mem_nil, or_false] at hcall
    rcases hcall with rfl | rfl | rfl <;> exact ⟨rfl, trivial⟩
  · exact ⟨PapiCall.starts_of_isMarker (hmarks call hcall).1, (hmarks call hcall).2⟩
  · rw [List.mem_singleton.mp hcall]
    exact ⟨rfl, trivial⟩

/-- Nothing is measured but regions that the report lists, unless a func has the name of the reserved
entry. -/
theorem inject_listed (hserial : s.serial = true) (hloops : (profiledLoops loopDefs s).Nodup)
    (hnames : "overhead" ∉ (visitedNodes s).map Prod.fst)
    (hrun : (injectPapiProfiling defs loopDefs s pipelineName).exec
      (events.filterMap MeteredEvent.event?) true) :
    ∀ spent ∈ spentBy none events, ∀ r, spent.region = some r →
      r.InRange (mutate defs loopDefs s init).2.indices.size (mutate defs loopDefs s init).2.loops.size ∧
        r.Listed := by
  obtain ⟨body, hcalls, hbody, hmarks⟩ := inject_marks hserial hloops hrun
  intro spent hspent r hr
  have henter : .enter r ∈ events.filterMap MeteredEvent.papiCall :=
    (region_of_mem_spentBy hspent hr).resolve_left nofun
  have hmem : .enter r ∈ body := by
    rw [hcalls] at henter
    simpa [prologue] using henter
  have hlisted := mutate_marksListed defs loopDefs s numbered_init Std.TreeMap.getElem?_insert_self
    (fun hne => absurd rfl hne) hnames
  exact ⟨(hmarks _ hmem).2, hlisted.papiTrace body true hbody _ hmem⟩

/-- The events of such a run are measured as the schedule says. -/
theorem inject_attributed (hs : s.Clean) (hserial : s.serial = true)
    (hnests : neverNests defs loopDefs none .idle s = true) (hloops : (profiledLoops loopDefs s).Nodup)
    (hrun : (injectPapiProfiling defs loopDefs s pipelineName).exec
      (events.filterMap MeteredEvent.event?) true) :
    attributed defs loopDefs (·.region (mutate defs loopDefs s init).2.indices
        (mutate defs loopDefs s init).2.loops) none none s
      ((spentBy none events).filterMap Spent.credit) true := by
  have hwritten := (attributes_inject hs (Stmt.onHost_of_serial hserial) hnests hloops
    pipelineName).of_written hrun
  rw [← filterMap_credit_spentBy (inject_measured hs hserial hnests hloops hrun)] at hwritten
  rcases hwritten with hwritten | ⟨_, hfalse⟩
  · exact hwritten
  · cases hfalse

/-- A serial statement, instrumented and run to its end with samples taken at any time, is reported by
what was spent: in every region what the counter library has counted while that region was being measured,
where the source's own events are measured as the schedule says. -/
theorem inject_reports (hlib : lib.Counts) (hquiet : c.host.state.Quiet)
    (hrecord : env.mallocs.record = some p) (hs : s.Clean) (hserial : s.serial = true)
    (hnests : neverNests defs loopDefs none .idle s = true) (hloops : (profiledLoops loopDefs s).Nodup)
    (harrays : env.mallocs.arrays (mutate defs loopDefs s init).2.loops.size = true)
    (hrun : (injectPapiProfiling defs loopDefs s pipelineName).exec
      (events.filterMap MeteredEvent.event?) true) :
    let mutated := (mutate defs loopDefs s init).2
    ∃ c' effects stats, Machine.run (Metered.step lib env) c events = some (c', effects) ∧
      Metered.Reports c' p (env.startArgs pipelineName mutated.indices.size mutated.loops.size)
        (spentBy none events) stats ∧
      attributed defs loopDefs (·.region mutated.indices mutated.loops) none none s
        ((spentBy none events).filterMap Spent.credit) true := by
  obtain ⟨c', effects, stats, hruns, hreports⟩ :=
    inject_metered hlib hquiet hrecord hs hserial hnests hloops harrays hrun
  exact ⟨c', effects, stats, hruns, hreports, inject_attributed hs hserial hnests hloops hrun⟩

/-- The report of such a run has a row for every func and loop that the program has numbered, under its
name and with what was spent in it, and unless a func has the name of the overhead, the rows together are
all that was spent in regions. -/
theorem inject_rows (hlib : lib.Counts) (hquiet : c.host.state.Quiet)
    (hrecord : env.mallocs.record = some p) (hs : s.Clean) (hserial : s.serial = true)
    (hnests : neverNests defs loopDefs none .idle s = true) (hloops : (profiledLoops loopDefs s).Nodup)
    (harrays : env.mallocs.arrays (mutate defs loopDefs s init).2.loops.size = true)
    {string : Ptr → String}
    (hreads : ReadsTables env string (injectPapiProfiling defs loopDefs s pipelineName))
    (hrun : (injectPapiProfiling defs loopDefs s pipelineName).exec
      (events.filterMap MeteredEvent.event?) true) (numberOfEvents : Nat) :
    let mutated := (mutate defs loopDefs s init).2
    ∃ c' effects stats, Machine.run (Metered.step lib env) c events = some (c', effects) ∧
      (∃ answer, c'.host.state.pipelineEnd = some answer ∧ .report p stats ∈ answer.effects) ∧
      (∀ region : RegionName, region.Known mutated.indices mutated.loops →
        ∃ R ∈ regionRecords (c'.snapshot numberOfEvents string) p stats, R.label = region.rowLabel ∧
          R.sum = spentIn (region.region mutated.indices mutated.loops) (spentBy none events)) ∧
      ("overhead" ∉ (visitedNodes s).map Prod.fst →
        ∀ n, grandTotal (c'.snapshot numberOfEvents string) p stats n =
          (((spentBy none events).filter (·.region.isSome)).map (·.cost n)).sum) := by
  obtain ⟨c', effects, stats, hruns, hreports⟩ :=
    inject_metered hlib hquiet hrecord hs hserial hnests hloops harrays hrun
  refine ⟨c', effects, stats, hruns, ?_, fun region hknown => ?_, fun hnames n => ?_⟩
  · obtain ⟨answer, hend, _, heffects⟩ := hreports.ends
    exact ⟨answer, hend, by simp [heffects]⟩
  · obtain ⟨hlisted, hlabel⟩ := hknown.listed hloops hreads
    obtain ⟨R, hR, hrow⟩ := hreports.exists_row numberOfEvents string hlisted
    rw [Metered.Row, Prod.mk.injEq] at hrow
    exact ⟨R, hR, hrow.1.trans hlabel, hrow.2⟩
  · exact hreports.sum_rows numberOfEvents string (inject_listed hserial hloops hnames hrun) n

end Inject

/-! ### A run of the three regions -/

section Rounds

variable {κ : Type}

def Leaf.events : Leaf κ → List (Event κ)
  | .evaluate (.call fn args) => [.call fn args]
  | l => [.exec l]

/-- The execution that takes every branch and repeats every loop `n` times. -/
def Stmt.rounds (n : Nat) : Stmt κ → List (Event κ)
  | .leaf l => l.events
  | .scope h body => h.events ++ body.rounds n
  | .producerConsumer _ _ body => body.rounds n
  | .for_ x min extent _ _ body => .loop x min extent n :: (List.replicate n (body.rounds n)).flatten
  | .block a b | .fork a b => a.rounds n ++ b.rounds n
  | .ifThen c t | .ifThenElse c t _ => .branch c true :: t.rounds n

theorem Stmt.exec_rounds (n : Nat) (s : Stmt κ) : s.exec (s.rounds n) true := by
  induction s with
  | leaf l =>
    cases l with
    | evaluate e => cases e <;> exact ⟨rfl, rfl⟩
    | assertStmt c m => exact Or.inl ⟨rfl, rfl⟩
    | _ => exact ⟨rfl, rfl⟩
  | scope h body ih => exact seq_done_of _ ih
  | producerConsumer _ _ body ih => exact ih
  | for_ x min extent _ _ body ih => exact ⟨n, seq_done_of _ (iter_replicate ih n)⟩
  | block a b iha ihb | fork a b iha ihb => exact seq_of iha ihb
  | ifThen c t ih => exact Or.inl (seq_done_of [_] ih)
  | ifThenElse c t e iht ihe => exact Or.inl (seq_done_of [_] iht)

end Rounds

/-- Each event of an execution on one thread, at a price of one. -/
def priced (t : List (Event PapiFn)) : List MeteredEvent := t.map (.event · 0 fun _ => 1)

theorem filterMap_event?_priced (t : List (Event PapiFn)) :
    (priced t).filterMap MeteredEvent.event? = t := by
  rw [priced, List.filterMap_map]
  exact List.filterMap_some

def threeRegionsRun : List MeteredEvent :=
  priced ((injectPapiProfiling threeRegionsDefs [⟨"h", "x", false⟩] threeRegions "p").rounds 3)

theorem exec_threeRegionsRun :
    (injectPapiProfiling threeRegionsDefs [⟨"h", "x", false⟩] threeRegions "p").exec
      (threeRegionsRun.filterMap MeteredEvent.event?) true := by
  rw [threeRegionsRun, filterMap_event?_priced]
  exact Stmt.exec_rounds 3 _

def threeRegionsNames (p : Ptr) : String :=
  if p = 100 then "h.s0.x" else ["overhead", "h", "f", "g"].getD p ""

def threeRegionsTables : Surroundings :=
  { HostRun.oneRecord with funcNames := id, loopNames := fun i => 100 + i }

theorem readsTables_threeRegions : ReadsTables threeRegionsTables threeRegionsNames
    (injectPapiProfiling threeRegionsDefs [⟨"h", "x", false⟩] threeRegions "p") where
  funcs i name h := by
    have hmem := Std.TreeMap.mem_toList_iff_getElem?_eq_some.mpr
      (Stmt.getElem?_of_tableEntry (inject_funcNames _ _ _ _) h)
    have hlist : (mutate threeRegionsDefs [⟨"h", "x", false⟩] threeRegions init).2.indices.toList =
        [("f", 2), ("g", 3), ("h", 1), ("overhead", 0)] := by decide
    rw [hlist] at hmem
    simp only [List.mem_cons, Prod.mk.injEq, List.not_mem_nil, or_false] at hmem
    rcases hmem with ⟨rfl, rfl⟩ | ⟨rfl, rfl⟩ | ⟨rfl, rfl⟩ | ⟨rfl, rfl⟩ <;> rfl
  loops i name h := by
    have hmem := Std.TreeMap.mem_toList_iff_getElem?_eq_some.mpr
      (getElem?_finalLoops_of_tableEntry _ _ _ _ h)
    have hlist : (finalLoops [⟨"h", "x", false⟩] threeRegions).toList = [("h.s0.x", 0)] := by decide
    rw [hlist] at hmem
    simp only [List.mem_cons, Prod.mk.injEq, List.not_mem_nil, or_false] at hmem
    obtain ⟨rfl, rfl⟩ := hmem
    rfl

theorem inject_reports_threeRegions :
    let mutated := (mutate threeRegionsDefs [⟨"h", "x", false⟩] threeRegions init).2
    ∃ c' effects stats, Machine.run (Metered.step addingLibrary threeRegionsTables)
        ⟨⟨.initial, none⟩, fun _ => 0, fun _ _ _ _ => 0⟩ threeRegionsRun = some (c', effects) ∧
      Metered.Reports c' 1
        (threeRegionsTables.startArgs "p" mutated.indices.size mutated.loops.size)
        (spentBy none threeRegionsRun) stats ∧
      attributed threeRegionsDefs [⟨"h", "x", false⟩] (·.region mutated.indices mutated.loops) none none
        threeRegions ((spentBy none threeRegionsRun).filterMap Spent.credit) true :=
  @inject_reports _ _ threeRegionsTables _ 1 threeRegionsDefs [⟨"h", "x", false⟩] threeRegions "p"
    threeRegionsRun addingLibrary_counts HostRun.quiet_initial rfl (by unfold Stmt.Clean; decide)
    (by decide) (by decide) (by decide) rfl exec_threeRegionsRun

example : spentIn (.loop 0) (spentBy none threeRegionsRun) 0 = 5 := by decide

theorem inject_rows_threeRegions :
    let mutated := (mutate threeRegionsDefs [⟨"h", "x", false⟩] threeRegions init).2
    ∃ c' effects stats, Machine.run (Metered.step addingLibrary threeRegionsTables)
        ⟨⟨.initial, none⟩, fun _ => 0, fun _ _ _ _ => 0⟩ threeRegionsRun = some (c', effects) ∧
      (∃ answer, c'.host.state.pipelineEnd = some answer ∧ .report 1 stats ∈ answer.effects) ∧
      (∀ region : RegionName, region.Known mutated.indices mutated.loops →
        ∃ R ∈ regionRecords (c'.snapshot 1 threeRegionsNames) 1 stats, R.label = region.rowLabel ∧
          R.sum = spentIn (region.region mutated.indices mutated.loops) (spentBy none threeRegionsRun)) ∧
      ∀ n, grandTotal (c'.snapshot 1 threeRegionsNames) 1 stats n =
        (((spentBy none threeRegionsRun).filter (·.region.isSome)).map (·.cost n)).sum := by
  obtain ⟨c', effects, stats, hruns, hreports, hrows, htotal⟩ :=
    @inject_rows _ addingLibrary threeRegionsTables ⟨⟨.initial, none⟩, fun _ => 0, fun _ _ _ _ => 0⟩ 1
      threeRegionsDefs [⟨"h", "x", false⟩] threeRegions "p" threeRegionsRun addingLibrary_counts
      HostRun.quiet_initial rfl (by unfold Stmt.Clean; decide) (by decide) (by decide) (by decide) rfl _ readsTables_threeRegions exec_threeRegionsRun 1
  exact ⟨c', effects, stats, hruns, hreports, hrows, htotal (by decide)⟩

end ProfHalide
