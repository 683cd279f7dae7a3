import ProfHalide.Pass.SerialCalls
import ProfHalide.Runtime.Metering
import ProfHalide.Report.Regions

/-!
# The rows of a report as sums

A report lists the overhead, the production and the consumption of every func but the first, then the
loops. For a pipeline that ran alone, the counters of each add up to what was spent while that region was
being measured, under the name that the program has given it, and all together to what was spent while
anything was measured.
-/

namespace ProfHalide

open InjectPAPIProfiling Numbering Behaviour

/-! ### The regions that are listed -/

/-- The regions that a report lists, in its order. -/
def listedRegions (numFuncs numLoops : Int) : List Region :=
  (List.range' 1 (numFuncs.toNat - 1)).flatMap (fun i : Nat => [.overhead i, .func i true, .func i false]) ++
  (List.range numLoops.toNat).map fun i : Nat => .loop i

theorem mem_listedRegions {numFuncs numLoops : Int} {r : Region} :
    r ∈ listedRegions numFuncs numLoops ↔ r.InRange numFuncs numLoops ∧ r.Listed := by
  simp only [listedRegions, List.mem_append, List.mem_flatMap, List.mem_range'_1, List.mem_map,
    List.mem_range, List.mem_cons, List.not_mem_nil, or_false]
  cases r with
  | func t isProducer =>
    simp only [Region.InRange, Region.Listed]
    constructor
    · grind
    · intro h
      refine Or.inl ⟨t.toNat, by omega, ?_⟩
      cases isProducer <;> simp <;> omega
  | overhead t =>
    simp only [Region.InRange, Region.Listed]
    constructor
    · grind
    · intro h
      refine Or.inl ⟨t.toNat, by omega, ?_⟩
      simp
      omega
  | loop id =>
    simp only [Region.InRange, Region.Listed]
    constructor
    · grind
    · intro h
      refine Or.inr ⟨id.toNat, by omega, ?_⟩
      simp
      omega

theorem nodup_listedRegions (numFuncs numLoops : Int) : (listedRegions numFuncs numLoops).Nodup := by
  rw [listedRegions, List.nodup_append]
  refine ⟨?_, ?_, ?_⟩
  · rw [List.nodup_flatMap]
    refine ⟨fun i _ => by simp, List.Pairwise.imp (fun hne r hr hr' => ?_) (List.nodup_range' ..)⟩
    simp at hr hr'
    grind
  · exact List.nodup_range.map fun i j h => by simpa using h
  · intro r hr r' hr'
    simp only [List.mem_flatMap, List.mem_map] at hr hr'
    grind

theorem spentIn_cons (r : Region) (s : Spent) (spent : List Spent) (n : Nat) :
    spentIn r (s :: spent) n = (if s.region = some r then s.cost n else 0) + spentIn r spent n := by
  rw [spentIn, List.filter_cons]
  by_cases h : s.region = some r <;> simp [h, spentIn]

/-- What is spent in all regions of a list is what is spent while one of them is measured. -/
theorem sum_spentIn {regions : List Region} (hnodup : regions.Nodup) {spent : List Spent}
    (hspent : ∀ s ∈ spent, ∀ r, s.region = some r → r ∈ regions) (n : Nat) :
    (regions.map (spentIn · spent n)).sum =
      ((spent.filter (·.region.isSome)).map (·.cost n)).sum := by
  have hone : ∀ s : Spent, (∀ r, s.region = some r → r ∈ regions) →
      (regions.map fun r => if s.region = some r then s.cost n else 0).sum =
        if s.region.isSome then s.cost n else 0 := by
    intro s hs
    cases hregion : s.region with
    | none => simp
    | some r =>
      rw [List.sum_map_eq_nsmul_single r, List.count_eq_one_of_mem hnodup (hs r hregion)]
      · simp
      · intro r' hne _
        simp [Ne.symm hne]
  induction spent with
  | nil => simp [spentIn]
  | cons s spent ih =>
    rw [List.forall_mem_cons] at hspent
    simp only [spentIn_cons, List.sum_map_add, ih hspent.2, hone s hspent.1, List.filter_cons]
    split <;> simp

namespace Metered

variable {σ : Type}

/-- What the report finds. -/
def snapshot (c : Metered σ) (numberOfEvents : Nat) (string : Ptr → String) : Snapshot where
  numberOfEvents := numberOfEvents
  string := string
  events := c.events

/-- What the names of the rows of a region begin with. -/
def label (a : StartArgs) (string : Ptr → String) : Region → String
  | .func t isProducer => string (a.funcNames t.toNat) ++ if isProducer then "_prod" else "_cons"
  | .overhead t => string (a.funcNames t.toNat) ++ "_overhead"
  | .loop id => string (a.loopNames id.toNat)

/-- A record of the report has the name of a region and the sum of what was spent in it. -/
def Row (a : StartArgs) (string : Ptr → String) (spent : List Spent) (R : RegionRecord)
    (r : Region) : Prop :=
  (R.label, R.sum) = (label a string r, spentIn r spent)

end Metered

/-! ### The records of a report -/

section Records

variable {a : StartArgs} {stats : PipelineStats}

theorem element_natCast {α : Type} (l : List α) (i : Nat) : element l (i : Int) = l[i]? :=
  if_pos (Int.natCast_nonneg i)

namespace PipelineStats

/-- The lengths of the arrays of a record that was labelled by a start. -/
theorem length_of_labels (h : stats.labels = a.labels) :
    stats.funcs.length = a.numFuncs.toNat ∧ stats.loops.length = a.numLoops.toNat := by
  have hfuncs := congrArg (fun labels => labels.1.length) h
  have hloops := congrArg (fun labels => labels.2.length) h
  simp only [labels, StartArgs.labels, List.length_map, List.length_range] at hfuncs hloops
  exact ⟨hfuncs, hloops⟩

/-- A func of the record has the name that the start has read in the table. -/
theorem funcName_of_labels (h : stats.labels = a.labels) {i : Nat} {fs : FuncStats}
    (hfs : stats.funcs[i]? = some fs) : i < a.numFuncs.toNat ∧ fs.name = a.funcNames i := by
  have hi : i < a.numFuncs.toNat := by
    rw [← (length_of_labels h).1]
    exact (List.getElem?_eq_some_iff.mp hfs).1
  have hlabels := congrArg (fun labels => labels.1[i]?) h
  simp only [labels, StartArgs.labels, List.getElem?_map, hfs, List.getElem?_range hi,
    Option.map_some, Option.some.injEq, Prod.mk.injEq] at hlabels
  exact ⟨hi, hlabels.1⟩

theorem loopName_of_labels (h : stats.labels = a.labels) {i : Nat} {ls : LoopStats}
    (hls : stats.loops[i]? = some ls) : i < a.numLoops.toNat ∧ ls.name = a.loopNames i := by
  have hi : i < a.numLoops.toNat := by
    rw [← (length_of_labels h).2]
    exact (List.getElem?_eq_some_iff.mp hls).1
  have hlabels := congrArg (fun labels => labels.2[i]?) h
  simp only [labels, StartArgs.labels, List.getElem?_map, hls, List.getElem?_range hi,
    Option.map_some, Option.some.injEq, Prod.mk.injEq] at hlabels
  exact ⟨hi, hlabels.1⟩

end PipelineStats

/-- A record of the report is about a region of the pipeline, and has its name. -/
structure RegionRecord.About (R : RegionRecord) (a : StartArgs) (snapshot : Snapshot) (p : Ptr)
    (stats : PipelineStats) (r : Region) : Prop where
  inRange : r.InRange a.numFuncs a.numLoops
  counters : stats.counters r = some R.counters
  events : R.events = snapshot.events p r
  label : R.label = Metered.label a snapshot.string r

variable {snapshot : Snapshot} {p : Ptr}

theorem RegionRecord.about_func (h : stats.labels = a.labels) {i : Nat} {fs : FuncStats}
    (hfs : stats.funcs[i]? = some fs) :
    (RegionRecord.funcOverhead snapshot p i fs).About a snapshot p stats (.overhead i) ∧
      ∀ isProducer, (RegionRecord.funcProdCons snapshot p i fs isProducer).About a snapshot p stats
        (.func i isProducer) := by
  obtain ⟨hi, hname⟩ := PipelineStats.funcName_of_labels h hfs
  refine ⟨⟨⟨by omega, by omega⟩, ?_, rfl, ?_⟩, fun isProducer => ⟨⟨by omega, by omega⟩, ?_, rfl, ?_⟩⟩
  · rw [PipelineStats.counters, element_natCast, hfs]
    rfl
  · show snapshot.string fs.name ++ _ = _
    rw [hname]
    rfl
  · rw [PipelineStats.counters, element_natCast, hfs]
    rfl
  · show snapshot.string fs.name ++ _ = _
    rw [hname]
    rfl

theorem RegionRecord.about_loop (h : stats.labels = a.labels) {i : Nat} {ls : LoopStats}
    (hls : stats.loops[i]? = some ls) :
    (RegionRecord.loop snapshot p i ls).About a snapshot p stats (.loop i) := by
  obtain ⟨hi, hname⟩ := PipelineStats.loopName_of_labels h hls
  refine ⟨⟨by omega, by omega⟩, ?_, rfl, ?_⟩
  · rw [PipelineStats.counters, element_natCast, hls]
    rfl
  · show snapshot.string ls.name = _
    rw [hname]
    rfl

/-- The records of a report, one after the other, are about the regions that it lists. -/
theorem map_regionRecords (h : stats.labels = a.labels) {α : Type} {f : RegionRecord → α}
    {g : Region → α} (hrow : ∀ (R : RegionRecord) r, R.About a snapshot p stats r → f R = g r) :
    (regionRecords snapshot p stats).map f = (listedRegions a.numFuncs a.numLoops).map g := by
  rw [regionRecords, listedRegions, List.map_append, List.map_append]
  congr 1
  · have hindices : (stats.funcs.zipIdx.drop 1).map Prod.snd = List.range' 1 (a.numFuncs.toNat - 1) := by
      rw [List.map_drop, List.zipIdx_map_snd, List.drop_range',
        (PipelineStats.length_of_labels h).1]
    rw [← hindices, List.flatMap_map, List.map_flatMap, List.map_flatMap]
    refine List.flatMap_congr fun x hx => ?_
    obtain ⟨fs, i⟩ := x
    have hfs := List.mem_zipIdx_iff_getElem?.mp (List.mem_of_mem_drop hx)
    obtain ⟨hoverhead, hfunc⟩ := RegionRecord.about_func h hfs
    rw [List.map_cons, List.map_cons, List.map_cons, List.map_nil, hrow _ _ hoverhead,
      hrow _ _ (hfunc true), hrow _ _ (hfunc false)]
    rfl
  · have hindices : stats.loops.zipIdx.map Prod.snd = List.range a.numLoops.toNat := by
      rw [List.zipIdx_map_snd, (PipelineStats.length_of_labels h).2, List.range_eq_range']
    rw [← hindices, List.map_map, List.map_map, List.map_map]
    refine List.map_congr_left fun x hx => ?_
    obtain ⟨ls, i⟩ := x
    exact hrow _ _ (RegionRecord.about_loop h (List.mem_zipIdx_iff_getElem?.mp hx))

end Records

namespace Metered

variable {σ : Type} {c : Metered σ} {p : Ptr} {a : StartArgs} {spent : List Spent} {stats : PipelineStats}

namespace Reports

/-- The counters of a region in the report add up to what was spent in it. -/
theorem sum_eq (h : Reports c p a spent stats) {r : Region} (hr : r.InRange a.numFuncs a.numLoops)
    {R : RegionRecord} (hcounters : stats.counters r = some R.counters) (hevents : R.events = c.events p r)
    (n : Nat) : R.sum n = spentIn r spent n := by
  obtain ⟨counters, hcounters', hsum⟩ := h.summed r hr
  rw [hcounters] at hcounters'
  cases hcounters'
  rw [RegionRecord.sum, hevents, hsum]

/-- The rows of a report, one after the other. -/
theorem rows_eq (h : Reports c p a spent stats) (numberOfEvents : Nat) (string : Ptr → String) :
    (regionRecords (c.snapshot numberOfEvents string) p stats).map (fun R => (R.label, R.sum)) =
      (listedRegions a.numFuncs a.numLoops).map
        fun r => (label a string r, spentIn r spent) :=
  map_regionRecords h.labels fun _ _ habout => Prod.ext_iff.mpr
    ⟨habout.label, funext (h.sum_eq habout.inRange habout.counters habout.events)⟩

theorem exists_row (h : Reports c p a spent stats) (numberOfEvents : Nat) (string : Ptr → String)
    {r : Region} (hr : r ∈ listedRegions a.numFuncs a.numLoops) :
    ∃ R ∈ regionRecords (c.snapshot numberOfEvents string) p stats, Row a string spent R r := by
  have hrow := List.mem_map_of_mem (f := fun r => (label a string r, spentIn r spent)) hr
  rw [← h.rows_eq numberOfEvents string] at hrow
  exact List.mem_map.mp hrow

/-- What is spent in the regions that are listed is what is spent while anything is measured. -/
theorem sum_rows (h : Reports c p a spent stats) (numberOfEvents : Nat) (string : Ptr → String)
    (hlisted : ∀ s ∈ spent, ∀ r, s.region = some r → r.InRange a.numFuncs a.numLoops ∧ r.Listed)
    (n : Nat) : grandTotal (c.snapshot numberOfEvents string) p stats n =
      ((spent.filter (·.region.isSome)).map (·.cost n)).sum := by
  have hsums := congrArg (List.map (·.2 n)) (h.rows_eq numberOfEvents string)
  rw [List.map_map, List.map_map] at hsums
  rw [grandTotal, ← sum_spentIn (nodup_listedRegions a.numFuncs a.numLoops) ?_ n]
  · exact congrArg List.sum hsums
  · intro s hs r hr
    obtain ⟨hrange, hlist⟩ := hlisted s hs r hr
    exact mem_listedRegions.mpr ⟨hrange, hlist⟩

end Reports

/-! ### From a run to its report -/

variable {lib : CounterLibrary σ} {env : Surroundings}

/-- A pipeline alone, from its start to its end, with samples taken at any time: the report says of every
region, under its name, what was spent in it. -/
theorem run_reports (hlib : lib.Counts) (hquiet : c.host.state.Quiet)
    (hrecord : env.mallocs.record = some p) {numFuncs numLoops : Int}
    (harrays : env.mallocs.arrays numLoops = true) {events : List MeteredEvent} {name : String}
    {rest : List PapiCall}
    (hcalls : events.filterMap MeteredEvent.papiCall =
      .registerDestructor :: .pipelineStart name numFuncs numLoops :: rest)
    (hrest : ∀ call ∈ rest, call.starts = false ∧ call.InRange numFuncs numLoops)
    (hauto : runAuto MeteredEvent.measure none events = some none) (numberOfEvents : Nat)
    (string : Ptr → String) :
    let a := env.startArgs name numFuncs numLoops
    ∃ c' effects stats, Machine.run (Metered.step lib env) c events = some (c', effects) ∧
      Reports c' p a (spentBy none events) stats ∧
      (regionRecords (c'.snapshot numberOfEvents string) p stats).map (fun R => (R.label, R.sum)) =
        (listedRegions numFuncs numLoops).map
          fun r => (label a string r, spentIn r (spentBy none events)) := by
  obtain ⟨c', effects, stats, hrun, hreports⟩ :=
    run_metered hlib hquiet hrecord harrays hcalls hrest hauto
  exact ⟨c', effects, stats, hrun, hreports, hreports.rows_eq numberOfEvents string⟩

/-- A func that is entered, does something and is left, with a sample meanwhile. -/
def oneFunc : List MeteredEvent :=
  [.event (.call .registerDestructor []) 0 fun _ => 9,
    .event (.call .pipelineStart [.stringImm "p", .intImm 2, .intImm 0]) 0 fun _ => 9,
    .event (.call .incrActiveThreads []) 0 fun _ => 9,
    .event (.call .enterCurrentFunc [.intImm 0, .intImm 0, .intImm 1, .intImm 1]) 0 fun _ => 9,
    .event (.exec (.free "f")) 0 fun _ => 5,
    .sample 1 100 1,
    .event (.exec (.free "f")) 0 fun _ => 7,
    .event (.call .leaveCurrentFunc [.intImm 0, .intImm 0, .intImm 1, .intImm 1]) 0 fun _ => 1,
    .event (.call .decrActiveThreads []) 0 fun _ => 9]

theorem run_reports_oneFunc : ∃ c' effects stats,
    Machine.run (Metered.step addingLibrary HostRun.oneRecord)
        ⟨⟨.initial, none⟩, fun _ => 0, fun _ _ _ _ => 0⟩ oneFunc = some (c', effects) ∧
      Reports c' 1 (HostRun.oneRecord.startArgs "p" 2 0) (spentBy none oneFunc) stats ∧
      (regionRecords (c'.snapshot 1 fun _ => "f") 1 stats).map (fun R => (R.label, R.sum)) =
        (listedRegions 2 0).map fun r => (label (HostRun.oneRecord.startArgs "p" 2 0) (fun _ => "f") r,
          spentIn r (spentBy none oneFunc)) := by
  have hcalls : oneFunc.filterMap MeteredEvent.papiCall =
      [.registerDestructor, .pipelineStart "p" 2 0, .incrActiveThreads, .enter (.func 1 true),
        .leave (.func 1 true), .decrActiveThreads] := rfl
  refine run_reports addingLibrary_counts HostRun.quiet_initial rfl rfl hcalls ?_ rfl 1 fun _ => "f"
  simp [PapiCall.starts, PapiCall.InRange, Region.InRange]

example : spentIn (.func 1 true) (spentBy none oneFunc) 0 = 13 := by decide

end Metered

end ProfHalide
