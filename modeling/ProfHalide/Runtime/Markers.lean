import ProfHalide.Runtime.PipelineList

/-!
# Markers

While a record is current, the markers of its funcs and loops always return. They note a measurement at
the counters of their own region and touch no other record; where a measurement would go that a thread
stops without a marker is left by the last marker of all.
-/

namespace ProfHalide

open Std

/-- Whether a pipeline with so many funcs and loops has a region. -/
def Region.InRange (numFuncs numLoops : Int) : Region → Prop
  | .func t _ | .overhead t => 0 ≤ t ∧ t < numFuncs
  | .loop id => 0 ≤ id ∧ id < numLoops

instance (numFuncs numLoops : Int) (r : Region) : Decidable (r.InRange numFuncs numLoops) := by
  cases r <;> exact inferInstanceAs (Decidable (_ ∧ _))

theorem element_isSome_iff {α : Type} {l : List α} {i n : Int} (hn : l.length = n.toNat) :
    (element l i).isSome ↔ 0 ≤ i ∧ i < n := by
  rw [element]
  split
  · rw [isSome_getElem?]
    omega
  · simp
    omega

/-- A measurement that ends: the thread is noted, and one more iteration. -/
def Counters.left (thread : ThreadIndex) (c : Counters) : Counters :=
  { c.markUsed thread with iterations := c.iterations + 1 }

namespace PipelineStats

/-- The arrays of a record have the lengths it says. -/
structure Sized (stats : PipelineStats) : Prop where
  funcs : stats.funcs.length = stats.numFuncs.toNat
  loops : stats.loops.length = stats.numLoops.toNat

/-- What measurements and samples leave of a record. -/
structure SameShape (stats stats' : PipelineStats) : Prop where
  runs : stats'.runs = stats.runs
  numFuncs : stats'.numFuncs = stats.numFuncs
  numLoops : stats'.numLoops = stats.numLoops
  funcs : stats'.funcs.length = stats.funcs.length
  loops : stats'.loops.length = stats.loops.length

variable {stats stats' : PipelineStats}

theorem Sized.of_sameShape (h : stats.Sized) (hshape : SameShape stats stats') : stats'.Sized where
  funcs := by rw [hshape.funcs, hshape.numFuncs, h.funcs]
  loops := by rw [hshape.loops, hshape.numLoops, h.loops]

theorem Sized.counters_isSome_iff (h : stats.Sized) {r : Region} :
    (stats.counters r).isSome ↔ r.InRange stats.numFuncs stats.numLoops := by
  cases r with
  | func t isProducer =>
    rw [counters, Option.isSome_map]
    exact element_isSome_iff h.funcs
  | overhead t =>
    rw [counters, Option.isSome_map]
    exact element_isSome_iff h.funcs
  | loop id =>
    rw [counters, Option.isSome_map]
    exact element_isSome_iff h.loops

theorem sameShape_modifyCounters (stats : PipelineStats) (r : Region) (f : Counters → Counters) :
    SameShape stats (stats.modifyCounters r f) := by
  cases r with
  | func t isProducer =>
    cases isProducer <;> exact ⟨rfl, rfl, rfl, List.length_modify .., rfl⟩
  | overhead t => exact ⟨rfl, rfl, rfl, List.length_modify .., rfl⟩
  | loop id => exact ⟨rfl, rfl, rfl, rfl, List.length_modify ..⟩

@[simp] theorem next_modifyCounters (stats : PipelineStats) (r : Region) (f : Counters → Counters) :
    (stats.modifyCounters r f).next = stats.next := by
  cases r with
  | func t isProducer => cases isProducer <;> rfl
  | overhead t => rfl
  | loop id => rfl

/-- Two changes to the counters of one region are one. -/
theorem modifyCounters_modifyCounters (stats : PipelineStats) (r : Region) (f g : Counters → Counters) :
    (stats.modifyCounters r f).modifyCounters r g = stats.modifyCounters r (g ∘ f) := by
  cases r with
  | func t isProducer =>
    cases isProducer <;> simp only [modifyCounters, List.modify_modify_eq] <;> rfl
  | overhead t =>
    simp only [modifyCounters, List.modify_modify_eq]
    rfl
  | loop id =>
    simp only [modifyCounters, List.modify_modify_eq]
    rfl

theorem sized_pipelineStats (a : StartArgs) (next : Option Ptr) (firstFuncId : Int) :
    (a.pipelineStats next firstFuncId).Sized where
  funcs := by simp [StartArgs.pipelineStats]
  loops := by simp [StartArgs.pipelineStats]

end PipelineStats

/-! ### The markers by region -/

def Op.enter : Region → Op
  | .func t isProducer => .enterCurrentFunc t isProducer
  | .overhead t => .enterOverheadRegion t
  | .loop id => .enterLoop id

def Op.leave (r : Region) (thread : ThreadIndex) : Op :=
  match r with
  | .func t isProducer => .leaveCurrentFunc t isProducer thread
  | .overhead t => .leaveOverheadRegion t thread
  | .loop id => .leaveLoop id thread

namespace PapiState

variable {s : PapiState} {p : Ptr} {stats : PipelineStats} {r : Region}

@[simp] theorem answer_enter (s : PapiState) (r : Region) : s.answer (.enter r) = s.enter r := by
  cases r <;> rfl

@[simp] theorem answer_leave (s : PapiState) (r : Region) (thread : ThreadIndex) :
    s.answer (.leave r thread) = s.leave r thread := by
  cases r <;> rfl

/-! ### What a marker has done if it returns -/

theorem currentCounters_eq_some {c : Counters} (h : s.currentCounters r = some (p, stats, c)) :
    s.currentPipelineStats = some p ∧ s.records[p]? = some stats := by
  obtain ⟨p', hp, h⟩ := Option.bind_eq_some_iff.mp h
  obtain ⟨stats', hstats, h⟩ := Option.bind_eq_some_iff.mp h
  obtain ⟨_, _, h⟩ := Option.bind_eq_some_iff.mp h
  cases h
  exact ⟨hp, hstats⟩

/-- The state after entering a region. -/
def entered (s : PapiState) (p : Ptr) (r : Region) : PapiState :=
  { s with lastCounters := some (.of p r), lastCountersUsed := some (.of p r) }

theorem enter_eq_some {answer : Answer} (h : s.enter r = some answer) :
    ∃ p, answer = ⟨0, s.entered p r, [.markerStart]⟩ := by
  obtain ⟨⟨p, _, c⟩, _, h⟩ := Option.bind_eq_some_iff.mp h
  have hmeasured : c.iterations % PROFILE_GRANULARITY = 0 := Nat.mod_one c.iterations
  dsimp only at h
  rw [if_pos hmeasured] at h
  cases h
  exact ⟨p, rfl⟩

theorem leave_eq_some {thread : ThreadIndex} {answer : Answer} (h : s.leave r thread = some answer) :
    ∃ p stats, s.records[p]? = some stats ∧ answer = ⟨0,
      { s.write p (stats.modifyCounters r (Counters.left thread)) with lastCounters := none },
      [.markerStop (.of p r) thread]⟩ := by
  obtain ⟨⟨p, stats, c⟩, hc, h⟩ := Option.bind_eq_some_iff.mp h
  have hmeasured : c.iterations % PROFILE_GRANULARITY = 0 := Nat.mod_one c.iterations
  dsimp only at h
  rw [if_pos hmeasured] at h
  cases h
  exact ⟨p, stats, (currentCounters_eq_some hc).2, rfl⟩

theorem markUsed_eq_some {counters : CountersPtr} {thread : ThreadIndex} {s' : PapiState}
    (h : s.markUsed counters thread = some s') :
    s' = s ∨ ∃ p r stats, s.records[p]? = some stats ∧
      s' = s.write p (stats.modifyCounters r (·.markUsed thread)) := by
  cases counters with
  | of p r =>
    obtain ⟨stats, hstats, h⟩ := Option.bind_eq_some_iff.mp h
    obtain ⟨_, _, h⟩ := Option.bind_eq_some_iff.mp h
    cases h
    exact Or.inr ⟨p, r, stats, hstats, rfl⟩
  | leaked =>
    cases h
    exact Or.inl rfl
  | freed => cases h

theorem decrActiveThreads_eq_some {thread : ThreadIndex} {answer : Answer}
    (h : s.decrActiveThreads thread = some answer) :
    answer.state = { s with activeThreads := s.activeThreads - 1 } ∨
    ∃ (p : Ptr) (r : Region) (stats : PipelineStats), s.records[p]? = some stats ∧ answer.state =
      { s with activeThreads := s.activeThreads - 1 }.write p
        (stats.modifyCounters r (·.markUsed thread)) := by
  unfold decrActiveThreads at h
  dsimp only at h
  split at h
  · cases h
    exact Or.inl rfl
  · obtain ⟨used, _, h⟩ := Option.bind_eq_some_iff.mp h
    obtain ⟨marked, hmarked, h⟩ := Option.bind_eq_some_iff.mp h
    cases h
    exact markUsed_eq_some hmarked

/-! ### Markers of the current record -/

/-- The record at `p` is the current one, and allocated. -/
structure Current (s : PapiState) (p : Ptr) (stats : PipelineStats) : Prop where
  current : s.currentPipelineStats = some p
  record : s.records[p]? = some stats
  sized : stats.Sized

theorem current_install (s : PapiState) (a : StartArgs) (p : Ptr) :
    (s.install a p).Current p (a.pipelineStats s.pipelines s.firstFreeId) where
  current := rfl
  record := (getElem?_write (s := s.redirect p .leaked) p p _).trans (if_pos rfl)
  sized := PipelineStats.sized_pipelineStats ..

theorem Current.congr (h : s.Current p stats) {s' : PapiState}
    (hcurrent : s'.currentPipelineStats = s.currentPipelineStats) (hrecords : s'.records = s.records) :
    s'.Current p stats where
  current := hcurrent.trans h.current
  record := by rw [hrecords, h.record]
  sized := h.sized

theorem Current.currentCounters (h : s.Current p stats)
    (hr : r.InRange stats.numFuncs stats.numLoops) :
    ∃ c, s.currentCounters r = some (p, stats, c) := by
  obtain ⟨c, hc⟩ := Option.isSome_iff_exists.mp (h.sized.counters_isSome_iff.mpr hr)
  refine ⟨c, ?_⟩
  simp [PapiState.currentCounters, h.current, h.record, hc]

/-- A marker of a region that the pipeline has not got reads outside the arrays. -/
theorem Current.currentCounters_eq_none (h : s.Current p stats)
    (hr : ¬ r.InRange stats.numFuncs stats.numLoops) : s.currentCounters r = none := by
  have hnone : stats.counters r = none := by
    rw [← Option.not_isSome_iff_eq_none, h.sized.counters_isSome_iff]
    exact hr
  simp [PapiState.currentCounters, h.current, h.record, hnone]

theorem Current.enter (h : s.Current p stats) (hr : r.InRange stats.numFuncs stats.numLoops) :
    s.enter r = some ⟨0, s.entered p r, [.markerStart]⟩ := by
  obtain ⟨c, hc⟩ := h.currentCounters hr
  simp [PapiState.enter, hc, PROFILE_GRANULARITY, Nat.mod_one, entered]

theorem Current.leave_eq (h : s.Current p stats) (hr : r.InRange stats.numFuncs stats.numLoops)
    (thread : ThreadIndex) :
    s.leave r thread = some ⟨0,
      { s.write p (stats.modifyCounters r (Counters.left thread)) with lastCounters := none },
      [.markerStop (.of p r) thread]⟩ := by
  obtain ⟨c, hc⟩ := h.currentCounters hr
  rw [PapiState.leave, hc]
  simp only [Option.bind_eq_bind, Option.bind_some, PROFILE_GRANULARITY, Nat.mod_one, if_true]
  rfl

theorem Current.leave (h : s.Current p stats) (hr : r.InRange stats.numFuncs stats.numLoops)
    (thread : ThreadIndex) :
    ∃ stats', PipelineStats.SameShape stats stats' ∧ stats'.next = stats.next ∧
      s.leave r thread = some ⟨0, { s.write p stats' with lastCounters := none },
        [.markerStop (.of p r) thread]⟩ :=
  ⟨_, stats.sameShape_modifyCounters r (Counters.left thread), PipelineStats.next_modifyCounters ..,
    h.leave_eq hr thread⟩

theorem Current.write (h : s.Current p stats) {stats' : PipelineStats}
    (hshape : PipelineStats.SameShape stats stats') : (s.write p stats').Current p stats' where
  current := h.current
  record := by rw [getElem?_write, if_pos rfl]
  sized := h.sized.of_sameShape hshape

/-- A sample leaves the current record where it is. -/
theorem Current.billFunc {l : List Ptr} (h : s.Current p stats) (hlinked : s.Linked l) (funcId : Int)
    (time : UInt64) (activeThreads : Int) :
    ∃ s' l' stats', s.billFunc funcId time activeThreads = some ⟨0, s', []⟩ ∧
      s' = { s with pipelines := s'.pipelines, records := s'.records } ∧
      s'.Linked l' ∧ l'.Perm l ∧ s'.Current p stats' ∧ PipelineStats.SameShape stats stats' := by
  obtain ⟨s', l', hbill, hlinked', hperm, hglobals, hcontent⟩ :=
    hlinked.billFunc funcId time activeThreads
  have hold : s.content p = some { stats with next := none } := content_of_getElem? h.record
  obtain ⟨c, hc, hshape⟩ : ∃ c, s'.content p = some c ∧ PipelineStats.SameShape stats c := by
    rcases hcontent with ⟨rfl, _⟩ | ⟨p', old, hp', _, hall⟩
    · exact ⟨_, hold, ⟨rfl, rfl, rfl, rfl, rfl⟩⟩
    · rw [hall]
      split
      · next heq =>
        rw [heq, hold] at hp'
        cases hp'
        exact ⟨_, rfl, ⟨rfl, rfl, rfl, List.length_modify .., rfl⟩⟩
      · exact ⟨_, hold, ⟨rfl, rfl, rfl, rfl, rfl⟩⟩
  obtain ⟨stats', hrecord, rfl⟩ := Option.map_eq_some_iff.mp hc
  have hshape' : PipelineStats.SameShape stats stats' :=
    ⟨hshape.runs, hshape.numFuncs, hshape.numLoops, hshape.funcs, hshape.loops⟩
  refine ⟨s', l', stats', hbill, hglobals, hlinked', hperm,
    ⟨?_, hrecord, h.sized.of_sameShape hshape'⟩, hshape'⟩
  rw [hglobals]
  exact h.current

/-! ### Threads that stop -/

theorem decrActiveThreads_none (h : s.lastCounters = none) (thread : ThreadIndex) :
    s.decrActiveThreads thread = some ⟨s.activeThreads,
      { s with activeThreads := s.activeThreads - 1 }, [.stopThread]⟩ := by
  simp [decrActiveThreads, h]

theorem Current.decrActiveThreads_eq (h : s.Current p stats)
    (haims : s.lastCounters = some (.of p r) ∧ s.lastCountersUsed = some (.of p r))
    (hr : r.InRange stats.numFuncs stats.numLoops) (thread : ThreadIndex) :
    s.decrActiveThreads thread = some ⟨s.activeThreads,
      { s.write p (stats.modifyCounters r (·.markUsed thread)) with
        activeThreads := s.activeThreads - 1 },
      [.markerStop (.of p r) thread, .stopThread]⟩ := by
  obtain ⟨c, hc⟩ := Option.isSome_iff_exists.mp (h.sized.counters_isSome_iff.mpr hr)
  simp [PapiState.decrActiveThreads, haims.1, haims.2, markUsed, h.record, hc, PapiState.write]

theorem Current.decrActiveThreads (h : s.Current p stats)
    (haims : s.lastCounters = some (.of p r) ∧ s.lastCountersUsed = some (.of p r))
    (hr : r.InRange stats.numFuncs stats.numLoops) (thread : ThreadIndex) :
    ∃ stats', PipelineStats.SameShape stats stats' ∧ stats'.next = stats.next ∧
      s.decrActiveThreads thread = some ⟨s.activeThreads,
        { s.write p stats' with activeThreads := s.activeThreads - 1 },
        [.markerStop (.of p r) thread, .stopThread]⟩ :=
  ⟨_, stats.sameShape_modifyCounters r (·.markUsed thread), PipelineStats.next_modifyCounters ..,
    h.decrActiveThreads_eq haims hr thread⟩

/-! ### The last marker

The region entered last and not left since is where the globals point, whoever entered it. -/

/-- The globals follow the last marker: `last` is the region it entered, if it entered one. -/
structure Follows (s : PapiState) (p : Ptr) (numFuncs numLoops : Int) (last : Option Region) : Prop where
  current : ∃ stats, s.Current p stats ∧ stats.numFuncs = numFuncs ∧ stats.numLoops = numLoops
  entered : ∀ r, last = some r →
    (s.lastCounters = some (.of p r) ∧ s.lastCountersUsed = some (.of p r)) ∧
      r.InRange numFuncs numLoops
  left : last = none → s.lastCounters = none

/-- What calls of running threads keep of the state. -/
structure Kept (s s' : PapiState) : Prop where
  linked : ∀ l, s.Linked l → s'.Linked l
  samplingThread : s'.samplingThread = s.samplingThread

variable {numFuncs numLoops : Int} {last : Option Region} {s' : PapiState}

theorem Follows.congr (h : s.Follows p numFuncs numLoops last)
    (hcurrent : s'.currentPipelineStats = s.currentPipelineStats) (hrecords : s'.records = s.records)
    (hcounters : s'.lastCounters = s.lastCounters)
    (hused : s'.lastCountersUsed = s.lastCountersUsed) : s'.Follows p numFuncs numLoops last := by
  obtain ⟨stats, hstats, hfuncs, hloops⟩ := h.current
  refine ⟨⟨stats, hstats.congr hcurrent hrecords, hfuncs, hloops⟩, fun r hr => ?_, fun hlast => ?_⟩
  · rw [hcounters, hused]
    exact h.entered r hr
  · rw [hcounters]
    exact h.left hlast

theorem Follows.enter (h : s.Follows p numFuncs numLoops last) (hr : r.InRange numFuncs numLoops) :
    ∃ s', s.enter r = some ⟨0, s', [.markerStart]⟩ ∧ s'.Follows p numFuncs numLoops (some r) ∧
      s.Kept s' ∧ s'.activeThreads = s.activeThreads := by
  obtain ⟨stats, hcurrent, rfl, rfl⟩ := h.current
  refine ⟨s.entered p r, hcurrent.enter hr, ⟨⟨stats, hcurrent.congr rfl rfl, rfl, rfl⟩, ?_, nofun⟩,
    ⟨fun l hl => ⟨hl.chain, hl.mem⟩, rfl⟩, rfl⟩
  intro r' heq
  cases heq
  exact ⟨⟨rfl, rfl⟩, hr⟩

theorem Follows.leave (h : s.Follows p numFuncs numLoops last) (hr : r.InRange numFuncs numLoops)
    (thread : ThreadIndex) :
    ∃ s', s.leave r thread = some ⟨0, s', [.markerStop (.of p r) thread]⟩ ∧
      s'.Follows p numFuncs numLoops none ∧ s.Kept s' ∧ s'.activeThreads = s.activeThreads := by
  obtain ⟨stats, hcurrent, rfl, rfl⟩ := h.current
  obtain ⟨stats', hshape, hnext, hleave⟩ := hcurrent.leave hr thread
  refine ⟨_, hleave, ⟨⟨stats', (hcurrent.write hshape).congr rfl rfl, hshape.numFuncs,
    hshape.numLoops⟩, nofun, fun _ => rfl⟩, ⟨fun l hl => ?_, rfl⟩, rfl⟩
  have hwritten := hl.write hcurrent.record hnext
  exact ⟨hwritten.chain, hwritten.mem⟩

theorem Follows.marker_eq_none (h : s.Follows p numFuncs numLoops last)
    (hr : ¬ r.InRange numFuncs numLoops) (thread : ThreadIndex) :
    s.enter r = none ∧ s.leave r thread = none := by
  obtain ⟨stats, hcurrent, rfl, rfl⟩ := h.current
  have hnone := hcurrent.currentCounters_eq_none hr
  exact ⟨by simp [PapiState.enter, hnone], by simp [PapiState.leave, hnone]⟩

/-- A thread that stops is noted where the last marker entered, and is not noted if it left. -/
theorem Follows.decrActiveThreads (h : s.Follows p numFuncs numLoops last) (thread : ThreadIndex) :
    ∃ s', s.decrActiveThreads thread = some ⟨s.activeThreads, s',
        (last.map fun r => Effect.markerStop (.of p r) thread).toList ++ [.stopThread]⟩ ∧
      s'.Follows p numFuncs numLoops last ∧ s.Kept s' ∧
      s'.activeThreads = s.activeThreads - 1 := by
  cases last with
  | none =>
    exact ⟨_, decrActiveThreads_none (h.left rfl) thread, h.congr rfl rfl rfl rfl,
      ⟨fun l hl => ⟨hl.chain, hl.mem⟩, rfl⟩, rfl⟩
  | some r =>
    obtain ⟨haims, hr⟩ := h.entered r rfl
    obtain ⟨stats, hcurrent, rfl, rfl⟩ := h.current
    obtain ⟨stats', hshape, hnext, hdecr⟩ := hcurrent.decrActiveThreads haims hr thread
    refine ⟨_, hdecr, ⟨⟨stats', (hcurrent.write hshape).congr rfl rfl, hshape.numFuncs,
      hshape.numLoops⟩, fun r' heq => ?_, nofun⟩, ⟨fun l hl => ?_, rfl⟩, rfl⟩
    · cases heq
      exact ⟨⟨haims.1, haims.2⟩, hr⟩
    · have hwritten := hl.write hcurrent.record hnext
      exact ⟨hwritten.chain, hwritten.mem⟩

end PapiState

end ProfHalide
