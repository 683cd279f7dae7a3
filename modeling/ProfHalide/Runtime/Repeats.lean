import ProfHalide.Runtime.Billing
import ProfHalide.Runtime.Markers

/-!
# Repeated starts

What the record of a pipeline holds is compared with what the calls since its first start add up to. A
start that finds the record fills it in anew, so the totals are right as long as the pipeline is started
once.
-/

namespace ProfHalide

open Std Chain Machine

/-- A call that concerns the records: a start, a sample, or a marker of the current pipeline. -/
inductive PipelineEvent where
  | start (a : StartArgs) (m : Mallocs)
  | sample (c : Sample)
  | enter (r : Region)
  | leave (r : Region) (thread : ThreadIndex)

namespace PipelineEvent

def op : PipelineEvent → Op
  | .start a m => .pipelineStart a m
  | .sample c => .billFunc c.funcId c.time c.activeThreads
  | .enter r => .enter r
  | .leave r thread => .leave r thread

def isStart : PipelineEvent → Bool
  | .start _ _ => true
  | _ => false

def sample? : PipelineEvent → Option Sample
  | .sample c => some c
  | _ => none

def left? : PipelineEvent → Option (Region × ThreadIndex)
  | .leave r thread => some (r, thread)
  | _ => none

end PipelineEvent

/-- The measurements that have ended. -/
def leavesOf (events : List PipelineEvent) : List (Region × ThreadIndex) :=
  events.filterMap PipelineEvent.left?

/-- The samples of the func ids with `p`. -/
def samplesOf (events : List PipelineEvent) (p : Int → Bool) : List Sample :=
  (events.filterMap PipelineEvent.sample?).filter fun c => p c.funcId

/-- The counters of the current record have added up the measurements since the last start, which has given
the record new arrays. -/
def Effect.hold (held : List (CountersPtr × ThreadIndex)) : Effect → List (CountersPtr × ThreadIndex)
  | .papiHalideInitialize => []
  | .markerStop counters thread => held ++ [(counters, thread)]
  | _ => held

/-- A record holds what the events add up to, for a pipeline with func ids from `first` on; each sum is one of
the field's own arithmetic. -/
structure TotalsOf (first : Int) (events : List PipelineEvent) (stats : PipelineStats) : Prop where
  firstFuncId : stats.firstFuncId = first
  runs : stats.runs = events.countP (·.isStart)
  billed : stats.amounts = ((samplesOf events stats.containsFunc).map Sample.pipelineAmounts).sum
  funcs : ∀ i < stats.funcs.length, stats.funcs[i]?.map FuncStats.amounts =
    some ((samplesOf events (· == first + i)).map Sample.funcAmounts).sum
  counters : ∀ r, r.InRange stats.numFuncs stats.numLoops → ∃ c, stats.counters r = some c ∧
    c.iterations = (leavesOf events).countP (·.1 == r) ∧
    ∀ thread : ThreadIndex, c.used.get thread = true ↔ (r, thread) ∈ leavesOf events

namespace PapiState

def stepEvent (s : PapiState) (event : PipelineEvent) : Option (PapiState × List Effect) :=
  s.step event.op

/-- The events return, and then the list has one record of the pipeline, which holds what they add up to. -/
def Accumulates (s : PapiState) (a : StartArgs) (events : List PipelineEvent) : Prop :=
  ∃ s' effects, run stepEvent s events = some (s', effects) ∧
    ∃ l p stats, IsChain s'.next s'.pipelines l ∧ l.filter (s'.test · a.names) = [p] ∧
      s'.records[p]? = some stats ∧ TotalsOf s.firstFreeId events stats ∧
      effects.foldl Effect.hold [] = (leavesOf events).map fun m => (.of p m.1, m.2)

/-- Successful starts of a pipeline, samples, and markers of the regions it has. -/
def Continues (a : StartArgs) (s : PapiState) : PipelineEvent → Prop
  | .start a' m => a'.pipelineName = a.pipelineName ∧ a'.numFuncs = a.numFuncs ∧
      ∃ answer, s.pipelineStart a' m = some answer ∧ 0 ≤ answer.ret
  | .sample _ => True
  | .enter r | .leave r _ => ∃ p stats, s.Current p stats ∧ r.InRange stats.numFuncs stats.numLoops

end PapiState

/-! ### What changes a record -/

theorem element_modify {α : Type} (l : List α) {i : Int} (hi : 0 ≤ i) (j : Int) (g : α → α) :
    element (l.modify i.toNat g) j = (element l j).map fun x => if i = j then g x else x := by
  rw [element, element]
  split
  · have htoNat : i.toNat = j.toNat ↔ i = j := by omega
    rw [List.getElem?_modify]
    simp only [htoNat]
    rfl
  · rfl

/-- What a change to an element leaves as it is cannot be told apart. -/
theorem map_getElem?_modify {α β : Type} (l : List α) (n i : Nat) {g : α → α} {h : α → β}
    (hg : ∀ x, h (g x) = h x) : (l.modify n g)[i]?.map h = l[i]?.map h := by
  rw [List.getElem?_modify]
  cases l[i]? with
  | none => rfl
  | some x =>
    dsimp only [Option.map_some, Option.map_eq_map]
    split
    · rw [hg]
    · rfl

namespace PipelineStats

/-- What happens to the counters of one region happens to no others. -/
theorem counters_modifyCounters (stats : PipelineStats) {r : Region} {numFuncs numLoops : Int}
    (hr : r.InRange numFuncs numLoops) (f : Counters → Counters) (r' : Region) :
    (stats.modifyCounters r f).counters r' =
      (stats.counters r').map fun c => if r = r' then f c else c := by
  cases r with
  | func t isProducer =>
    cases r' with
    | func t' isProducer' =>
      cases isProducer <;> cases isProducer' <;>
        simp only [modifyCounters, counters, element_modify _ hr.1, Option.map_map] <;>
        congr 1 <;> funext fs <;> by_cases ht : t = t' <;> simp [ht]
    | overhead t' =>
      cases isProducer <;>
        simp only [modifyCounters, counters, element_modify _ hr.1, Option.map_map] <;>
        congr 1 <;> funext fs <;> by_cases ht : t = t' <;> simp [ht]
    | loop id => cases isProducer <;> simp [modifyCounters, counters, Function.comp_def]
  | overhead t =>
    cases r' with
    | func t' isProducer' =>
      simp only [modifyCounters, counters, element_modify _ hr.1, Option.map_map]
      congr 1
      funext fs
      by_cases ht : t = t' <;> simp [ht]
    | overhead t' =>
      simp only [modifyCounters, counters, element_modify _ hr.1, Option.map_map]
      congr 1
      funext fs
      by_cases ht : t = t' <;> simp [ht]
    | loop id => simp [modifyCounters, counters, Function.comp_def]
  | loop id =>
    cases r' with
    | func t' isProducer' => simp [modifyCounters, counters, Function.comp_def]
    | overhead t' => simp [modifyCounters, counters, Function.comp_def]
    | loop id' =>
      simp only [modifyCounters, counters, element_modify _ hr.1, Option.map_map]
      congr 1
      funext ls
      by_cases ht : id = id' <;> simp [ht]

theorem name_modifyCounters (stats : PipelineStats) (r : Region) (f : Counters → Counters) :
    (stats.modifyCounters r f).name = stats.name := by
  cases r with
  | func t isProducer => cases isProducer <;> rfl
  | overhead t => rfl
  | loop id => rfl

theorem counters_bill (stats : PipelineStats) (funcId : Int) (time : UInt64) (activeThreads : Int)
    (r : Region) : (stats.bill funcId time activeThreads).counters r = stats.counters r := by
  have helement : ∀ {α : Type} (t : Int) (g : FuncStats → FuncStats) (h : FuncStats → α),
      (∀ fs, h (g fs) = h fs) →
      (element (stats.funcs.modify (funcId - stats.firstFuncId).toNat g) t).map h =
        (element stats.funcs t).map h := by
    intro α t g h hg
    rw [element, element]
    split
    · exact map_getElem?_modify _ _ _ hg
    · rfl
  cases r with
  | func t isProducer => exact helement t _ _ fun _ => rfl
  | overhead t => exact helement t _ _ fun _ => rfl
  | loop id => rfl

theorem amounts_modifyCounters (stats : PipelineStats) (r : Region) (f : Counters → Counters) :
    (stats.modifyCounters r f).amounts = stats.amounts ∧
    ∀ i : Nat, (stats.modifyCounters r f).funcs[i]?.map FuncStats.amounts =
      stats.funcs[i]?.map FuncStats.amounts := by
  cases r with
  | func t isProducer =>
    cases isProducer <;> exact ⟨rfl, fun i => map_getElem?_modify _ _ i fun _ => rfl⟩
  | overhead t => exact ⟨rfl, fun i => map_getElem?_modify _ _ i fun _ => rfl⟩
  | loop id => exact ⟨rfl, fun _ => rfl⟩

/-- A record that is filled in has nothing counted. -/
theorem counters_pipelineStats (a : StartArgs) (next : Option Ptr) (firstFuncId : Int) {r : Region}
    (hr : r.InRange a.numFuncs a.numLoops) :
    (a.pipelineStats next firstFuncId).counters r = some .zero := by
  have helement : ∀ {α : Type} (g : Nat → α) {i n : Int}, 0 ≤ i → i < n →
      element ((List.range n.toNat).map g) i = some (g i.toNat) := by
    intro α g i n hi hn
    rw [element, if_pos hi, List.getElem?_map, List.getElem?_range (by omega)]
    rfl
  cases r with
  | func t isProducer =>
    rw [counters, StartArgs.pipelineStats, helement a.funcStats hr.1 hr.2]
    cases isProducer <;> rfl
  | overhead t =>
    rw [counters, StartArgs.pipelineStats, helement a.funcStats hr.1 hr.2]
    rfl
  | loop id =>
    rw [counters, StartArgs.pipelineStats, helement a.loopStats hr.1 hr.2]
    rfl

end PipelineStats

/-! ### One more event -/

section Totals

variable {first : Int} {events : List PipelineEvent} {stats : PipelineStats}

theorem Counters.used_left (c : Counters) (thread thread' : ThreadIndex) :
    (c.left thread).used.get thread' = true ↔ c.used.get thread' = true ∨ thread' = thread := by
  simp only [Counters.left, Counters.markUsed, Vector.get_eq_getElem, Vector.getElem_set, Fin.ext_iff]
  grind

theorem leavesOf_snoc (events : List PipelineEvent) (event : PipelineEvent) :
    leavesOf (events ++ [event]) = leavesOf events ++ event.left?.toList := by
  rw [leavesOf, List.filterMap_append]
  cases event <;> rfl

theorem samplesOf_snoc (events : List PipelineEvent) (event : PipelineEvent) (p : Int → Bool) :
    samplesOf (events ++ [event]) p =
      samplesOf events p ++ event.sample?.toList.filter fun c => p c.funcId := by
  rw [samplesOf, List.filterMap_append, List.filter_append]
  cases event <;> rfl

theorem samplesOf_snoc_of_none (events : List PipelineEvent) {event : PipelineEvent}
    (h : event.sample? = none) (p : Int → Bool) :
    samplesOf (events ++ [event]) p = samplesOf events p := by
  rw [samplesOf_snoc, h]
  exact List.append_nil _

theorem TotalsOf.start (a : StartArgs) (m : Mallocs) (next : Option Ptr) (first : Int) :
    TotalsOf first [.start a m] (a.pipelineStats next first) where
  firstFuncId := rfl
  runs := rfl
  billed := rfl
  funcs i hi := by
    rw [StartArgs.pipelineStats, List.length_map, List.length_range] at hi
    rw [StartArgs.pipelineStats, List.getElem?_map, List.getElem?_range hi]
    rfl
  counters r hr := by
    refine ⟨.zero, PipelineStats.counters_pipelineStats a next first hr, rfl, fun thread => ?_⟩
    simp [Counters.zero, leavesOf, PipelineEvent.left?]

theorem TotalsOf.enter (h : TotalsOf first events stats) (r : Region) :
    TotalsOf first (events ++ [.enter r]) stats where
  firstFuncId := h.firstFuncId
  runs := by
    rw [h.runs, List.countP_append]
    rfl
  billed := by
    rw [h.billed, samplesOf_snoc_of_none _ rfl]
  funcs i hi := by
    rw [h.funcs i hi, samplesOf_snoc_of_none _ rfl]
  counters r' hr' := by
    have hleaves : leavesOf (events ++ [.enter r]) = leavesOf events :=
      (leavesOf_snoc _ _).trans (List.append_nil _)
    rw [hleaves]
    exact h.counters r' hr'

theorem TotalsOf.leave (h : TotalsOf first events stats) {r : Region}
    (hr : r.InRange stats.numFuncs stats.numLoops) (thread : ThreadIndex) :
    TotalsOf first (events ++ [.leave r thread])
      (stats.modifyCounters r (Counters.left thread)) := by
  have hshape := stats.sameShape_modifyCounters r (Counters.left thread)
  obtain ⟨hamounts, hfuncs⟩ := stats.amounts_modifyCounters r (Counters.left thread)
  have hfirst : (stats.modifyCounters r (Counters.left thread)).firstFuncId = stats.firstFuncId := by
    cases r with
    | func t isProducer => cases isProducer <;> rfl
    | overhead t => rfl
    | loop id => rfl
  have hcontains : (stats.modifyCounters r (Counters.left thread)).containsFunc = stats.containsFunc := by
    funext funcId
    rw [PipelineStats.containsFunc, hfirst, hshape.numFuncs, PipelineStats.containsFunc]
  constructor
  case firstFuncId => exact hfirst.trans h.firstFuncId
  case runs =>
    rw [hshape.runs, h.runs, List.countP_append]
    rfl
  case billed =>
    rw [hamounts, hcontains, h.billed, samplesOf_snoc_of_none _ rfl]
  case funcs =>
    intro i hi
    rw [hshape.funcs] at hi
    rw [hfuncs, h.funcs i hi, samplesOf_snoc_of_none _ rfl]
  case counters =>
    intro r' hr'
    rw [hshape.numFuncs, hshape.numLoops] at hr'
    obtain ⟨c, hc, hiterations, hused⟩ := h.counters r' hr'
    have hleaves : leavesOf (events ++ [.leave r thread]) = leavesOf events ++ [(r, thread)] :=
      leavesOf_snoc _ _
    refine ⟨if r = r' then Counters.left thread c else c, ?_, ?_, fun thread' => ?_⟩
    · rw [stats.counters_modifyCounters hr, hc]
      rfl
    · rw [hleaves, List.countP_append, ← hiterations]
      by_cases heq : r = r'
      · simp [heq, Counters.left]
      · simp [heq]
    · rw [hleaves, List.mem_append, ← hused, List.mem_singleton, Prod.mk.injEq]
      by_cases heq : r = r'
      · simp only [heq, if_true, true_and]
        exact Counters.used_left c thread thread'
      · simp [heq, Ne.symm heq]

theorem TotalsOf.sample (h : TotalsOf first events stats) (c : Sample)
    (hsized : stats.funcs.length = stats.numFuncs.toNat) :
    TotalsOf first (events ++ [.sample c])
      (if stats.containsFunc c.funcId then stats.bill c.funcId c.time c.activeThreads else stats) := by
  have hruns : stats.runs = (events ++ [PipelineEvent.sample c]).countP (·.isStart) := by
    rw [h.runs, List.countP_append]
    rfl
  have hleaves : leavesOf (events ++ [.sample c]) = leavesOf events :=
    (leavesOf_snoc _ _).trans (List.append_nil _)
  have hcounters : ∀ r, r.InRange stats.numFuncs stats.numLoops → ∃ counters : Counters,
      stats.counters r = some counters ∧
      counters.iterations = (leavesOf (events ++ [.sample c])).countP (·.1 == r) ∧
      ∀ thread : ThreadIndex, counters.used.get thread = true ↔
        (r, thread) ∈ leavesOf (events ++ [.sample c]) := by
    rw [hleaves]
    exact h.counters
  have hsamples : ∀ p, samplesOf (events ++ [.sample c]) p =
      samplesOf events p ++ (if p c.funcId then [c] else []) := by
    intro p
    rw [samplesOf_snoc, PipelineEvent.sample?, Option.toList_some, List.filter_singleton]
    cases p c.funcId <;> rfl
  have hfirst := h.firstFuncId
  split
  · next hcontains =>
    have hrange := hcontains
    rw [PipelineStats.containsFunc, Bool.and_eq_true, decide_eq_true_eq, decide_eq_true_eq] at hrange
    constructor
    case firstFuncId => exact h.firstFuncId
    case runs => exact hruns
    case billed =>
      have hsame : (stats.bill c.funcId c.time c.activeThreads).containsFunc = stats.containsFunc := rfl
      rw [hsame, hsamples, if_pos hcontains, List.map_append, List.sum_append, ← h.billed]
      simp [PipelineStats.amounts_bill]
    case funcs =>
      intro i hi
      have hi : i < stats.funcs.length := by
        rwa [PipelineStats.bill, List.length_modify] at hi
      have hindex : (c.funcId - stats.firstFuncId).toNat = i ↔ (c.funcId == first + i) = true := by
        rw [beq_iff_eq]
        omega
      obtain ⟨fs, hfs⟩ : ∃ fs, stats.funcs[i]? = some fs := ⟨_, List.getElem?_eq_getElem hi⟩
      have hbilled := h.funcs i hi
      rw [hfs, Option.map_some, Option.some.injEq] at hbilled
      rw [PipelineStats.getElem?_funcs_bill, hfs, Option.map_some, hsamples, List.map_append,
        List.sum_append, ← hbilled]
      simp only [hindex]
      split <;> simp
    case counters =>
      intro r hr
      rw [PipelineStats.counters_bill]
      exact hcounters r hr
  · next hmiss =>
    constructor
    case firstFuncId => exact h.firstFuncId
    case runs => exact hruns
    case billed =>
      rw [hsamples, if_neg hmiss, List.append_nil]
      exact h.billed
    case funcs =>
      intro i hi
      have hother : (c.funcId == first + i) = false := by
        rw [beq_eq_false_iff_ne]
        intro heq
        apply hmiss
        rw [PipelineStats.containsFunc, Bool.and_eq_true, decide_eq_true_eq, decide_eq_true_eq]
        omega
      rw [hsamples, hother, if_neg Bool.false_ne_true, List.append_nil]
      exact h.funcs i hi
    case counters => exact hcounters

/-- The link of a record counts for nothing. -/
theorem TotalsOf.of_content (h : TotalsOf first events { stats with next := none }) :
    TotalsOf first events stats :=
  ⟨h.firstFuncId, h.runs, h.billed, h.funcs, h.counters⟩

end Totals

namespace PapiState

/-! ### A pipeline that is started once -/

/-- The record at `p` is the only one of the pipeline, and the current one; it holds what the events add up
to, and so do its counters. -/
structure Keeps (a : StartArgs) (first : Int) (p : Ptr) (events : List PipelineEvent) (s : PapiState)
    (held : List (CountersPtr × ThreadIndex)) : Prop where
  linkedApart : s.LinkedApart
  record : ∃ stats, s.Current p stats ∧ a.names stats = true ∧ TotalsOf first events stats
  others : ∀ q stats, q ≠ p → s.content q = some stats → a.names stats = false
  held : held = (leavesOf events).map fun m => (.of p m.1, m.2)

section

variable {a : StartArgs} {first : Int} {p : Ptr} {events : List PipelineEvent} {s : PapiState}
  {held : List (CountersPtr × ThreadIndex)}

theorem keeps_install {l : List Ptr} (hlinked : s.Linked l) (hapart : s.Apart) (hfuncs : 0 ≤ a.numFuncs)
    (hnew : ∀ q stats, s.content q = some stats → a.names stats = false) {m : Mallocs}
    (hp : s.malloc m = some p) : Keeps a s.firstFreeId p [.start a m] (s.install a p) [] where
  linkedApart := ⟨p :: l, hlinked.install a (malloc_eq_some hp), hapart.install hfuncs p⟩
  record := ⟨_, current_install s a p, by simp [StartArgs.names, StartArgs.pipelineStats],
    TotalsOf.start a m _ _⟩
  others q stats hne hstats := by
    rw [content_install, if_neg (Ne.symm hne)] at hstats
    exact hnew q stats hstats
  held := rfl

theorem Keeps.sample (h : Keeps a first p events s held) (c : Sample) :
    ∃ s', s.stepEvent (.sample c) = some (s', []) ∧ Keeps a first p (events ++ [.sample c]) s' held := by
  obtain ⟨s', hbill, hlinkedApart, hglobals, hcontent⟩ :=
    h.linkedApart.billFunc c.funcId c.time c.activeThreads
  obtain ⟨stats, hcurrent, hnames, htotals⟩ := h.record
  have hold := content_of_getElem? hcurrent.record
  obtain ⟨_, _, hapart⟩ := h.linkedApart
  have howner : s.owner c.funcId = some p ↔ stats.containsFunc c.funcId = true := by
    rw [hapart.owner_eq_some_iff, hold]
    constructor
    · rintro ⟨_, heq, hcontains⟩
      cases heq
      exact hcontains
    · exact fun hcontains => ⟨_, rfl, hcontains⟩
  let billed := if stats.containsFunc c.funcId then stats.bill c.funcId c.time c.activeThreads else stats
  have hbilled : s'.content p = some { billed with next := none } := by
    rw [hcontent, hold]
    by_cases hcontains : stats.containsFunc c.funcId = true
    · rw [if_pos (howner.mpr hcontains)]
      simp only [billed, if_pos hcontains]
      rfl
    · rw [if_neg (howner.not.mpr hcontains)]
      simp only [billed, if_neg hcontains]
  have hshape : billed.name = stats.name ∧ billed.numFuncs = stats.numFuncs ∧ billed.Sized := by
    dsimp only [billed]
    split
    · exact ⟨rfl, rfl, (List.length_modify ..).trans hcurrent.sized.funcs, hcurrent.sized.loops⟩
    · exact ⟨rfl, rfl, hcurrent.sized⟩
  obtain ⟨stats', hrecord, heq⟩ := Option.map_eq_some_iff.mp hbilled
  have heq' : stats' = { billed with next := stats'.next } :=
    congrArg (fun stats : PipelineStats => { stats with next := stats'.next }) heq
  have htotals' : TotalsOf first (events ++ [.sample c]) stats' := by
    have hsample := htotals.sample c hcurrent.sized.funcs
    rw [heq']
    exact TotalsOf.of_content ⟨hsample.firstFuncId, hsample.runs, hsample.billed, hsample.funcs,
      hsample.counters⟩
  refine ⟨s', ?_, hlinkedApart, ⟨stats', ⟨?_, hrecord, ?_⟩, ?_, htotals'⟩, fun q statsQ hne hq => ?_, ?_⟩
  · rw [stepEvent, PapiState.step, PipelineEvent.op, answer, hbill]
    rfl
  · rw [hglobals]
    exact hcurrent.current
  · rw [heq']
    exact ⟨hshape.2.2.funcs, hshape.2.2.loops⟩
  · rw [heq', StartArgs.names, hshape.1, hshape.2.1]
    exact hnames
  · rw [hcontent] at hq
    split at hq
    · obtain ⟨old, holdQ, rfl⟩ := Option.map_eq_some_iff.mp hq
      exact h.others q old hne holdQ
    · exact h.others q statsQ hne hq
  · have hleaves : leavesOf (events ++ [.sample c]) = leavesOf events :=
      (leavesOf_snoc _ _).trans (List.append_nil _)
    rw [hleaves]
    exact h.held

/-- The current record has the region that a marker is for. -/
theorem Current.inRange {stats : PipelineStats} (h : s.Current p stats) {r : Region}
    (hr : ∃ p stats, s.Current p stats ∧ r.InRange stats.numFuncs stats.numLoops) :
    r.InRange stats.numFuncs stats.numLoops := by
  obtain ⟨p', stats', hcurrent, hrange⟩ := hr
  have hp : p' = p := Option.some.inj (hcurrent.current.symm.trans h.current)
  have hstats := hcurrent.record
  rw [hp, h.record] at hstats
  cases hstats
  exact hrange

theorem Keeps.enter (h : Keeps a first p events s held) {r : Region} (hr : Continues a s (.enter r)) :
    ∃ s', s.stepEvent (.enter r) = some (s', [.markerStart]) ∧
      Keeps a first p (events ++ [.enter r]) s' held := by
  obtain ⟨stats, hcurrent, hnames, htotals⟩ := h.record
  obtain ⟨l, hlinked, hapart⟩ := h.linkedApart
  refine ⟨s.entered p r, ?_, ⟨l, ⟨hlinked.chain, hlinked.mem⟩, hapart.of_content rfl ?_⟩,
    ⟨stats, hcurrent.congr rfl rfl, hnames, htotals.enter r⟩, h.others, ?_⟩
  · rw [stepEvent, PapiState.step, PipelineEvent.op, answer_enter, hcurrent.enter (hcurrent.inRange hr)]
    rfl
  · exact fun q stats' hq => ⟨stats', hq, rfl, rfl⟩
  · have hleaves : leavesOf (events ++ [.enter r]) = leavesOf events :=
      (leavesOf_snoc _ _).trans (List.append_nil _)
    rw [hleaves]
    exact h.held

theorem Keeps.leave (h : Keeps a first p events s held) {r : Region} {thread : ThreadIndex}
    (hr : Continues a s (.leave r thread)) :
    ∃ s', s.stepEvent (.leave r thread) = some (s', [.markerStop (.of p r) thread]) ∧
      Keeps a first p (events ++ [.leave r thread]) s' (held ++ [(.of p r, thread)]) := by
  obtain ⟨stats, hcurrent, hnames, htotals⟩ := h.record
  obtain ⟨l, hlinked, hapart⟩ := h.linkedApart
  have hrange := hcurrent.inRange hr
  have hleave := hcurrent.leave_eq hrange thread
  let stats' := stats.modifyCounters r (Counters.left thread)
  have hshape : PipelineStats.SameShape stats stats' := stats.sameShape_modifyCounters _ _
  have hfirst : stats'.firstFuncId = stats.firstFuncId :=
    (htotals.leave hrange thread).firstFuncId.trans htotals.firstFuncId.symm
  have hname : stats'.name = stats.name := stats.name_modifyCounters r _
  have hwritten : ∀ q, (s.write p stats').content q =
      if p = q then some { stats' with next := none } else s.content q := fun q => content_write p q stats'
  have hlinked' : (s.write p stats').Linked l :=
    hlinked.write hcurrent.record (PipelineStats.next_modifyCounters ..)
  refine ⟨{ s.write p stats' with lastCounters := none }, ?_, ⟨l, ⟨hlinked'.chain, hlinked'.mem⟩,
    hapart.of_content rfl fun q statsQ hq => ?_⟩,
    ⟨stats', (hcurrent.write hshape).congr rfl rfl, ?_, htotals.leave hrange thread⟩,
    fun q statsQ hne hq => ?_, ?_⟩
  · rw [stepEvent, PapiState.step, PipelineEvent.op, answer_leave, hleave]
    rfl
  · have hq := (hwritten q).symm.trans hq
    split at hq
    · next heq =>
      cases hq
      exact ⟨{ stats with next := none }, heq ▸ content_of_getElem? hcurrent.record, hfirst,
        hshape.numFuncs⟩
    · exact ⟨statsQ, hq, rfl, rfl⟩
  · rw [StartArgs.names, hname, hshape.numFuncs]
    exact hnames
  · have hq := (hwritten q).symm.trans hq
    rw [if_neg (Ne.symm hne)] at hq
    exact h.others q statsQ hne hq
  · have hleaves : leavesOf (events ++ [.leave r thread]) = leavesOf events ++ [(r, thread)] :=
      leavesOf_snoc _ _
    rw [hleaves, List.map_append, ← h.held]
    rfl

/-- One event that is no start. -/
theorem Keeps.step (h : Keeps a first p events s held) {event : PipelineEvent}
    (hevent : Continues a s event) (hstart : event.isStart = false) :
    ∃ s' out, s.stepEvent event = some (s', out) ∧
      Keeps a first p (events ++ [event]) s' (out.foldl Effect.hold held) := by
  cases event with
  | start a' m => cases hstart
  | sample c =>
    obtain ⟨s', hstep, hs'⟩ := h.sample c
    exact ⟨s', _, hstep, hs'⟩
  | enter r =>
    obtain ⟨s', hstep, hs'⟩ := h.enter hevent
    exact ⟨s', _, hstep, hs'⟩
  | leave r thread =>
    obtain ⟨s', hstep, hs'⟩ := h.leave hevent
    exact ⟨s', _, hstep, hs'⟩

theorem Keeps.run (h : Keeps a first p events s held) {rest : List PipelineEvent}
    (hrest : Admits stepEvent (Continues a) s rest) (hstarts : ∀ event ∈ rest, event.isStart = false) :
    ∃ s' out, Machine.run stepEvent s rest = some (s', out) ∧
      Keeps a first p (events ++ rest) s' (out.foldl Effect.hold held) := by
  induction rest generalizing s events held with
  | nil =>
    rw [List.append_nil]
    exact ⟨s, [], rfl, h⟩
  | cons event rest ih =>
    obtain ⟨s₁, out₁, hstep, hs₁⟩ := h.step hrest.1 (hstarts event List.mem_cons_self)
    obtain ⟨s', out, hrun, hs'⟩ := ih hs₁ (hrest.2 s₁ out₁ hstep)
      fun event hevent => hstarts event (List.mem_cons_of_mem _ hevent)
    refine ⟨s', out₁ ++ out, ?_, ?_⟩
    · rw [run_cons hstep, hrun]
      rfl
    · rwa [List.append_assoc, List.singleton_append, ← List.foldl_append] at hs'

end

/-! ### A pipeline that is started again -/

section

variable {a : StartArgs} {s : PapiState}

/-- A record of the pipeline has counted one run at most. -/
def OneRun (a : StartArgs) (s : PapiState) : Prop :=
  ∀ (p : Ptr) (stats : PipelineStats), s.records[p]? = some stats → a.names stats = true → stats.runs ≤ 1

theorem OneRun.write (h : s.OneRun a) {p : Ptr} {old stats : PipelineStats}
    (hold : s.records[p]? = some old) (hname : stats.name = old.name)
    (hfuncs : stats.numFuncs = old.numFuncs) (hruns : stats.runs = old.runs) :
    (s.write p stats).OneRun a := by
  intro q statsQ hq hnames
  rw [getElem?_write] at hq
  split at hq
  · cases hq
    rw [StartArgs.names, hname, hfuncs] at hnames
    rw [hruns]
    exact h p old hold hnames
  · exact h q statsQ hq hnames

/-- A start fills a record in with one run. -/
theorem OneRun.pipelineStart (h : s.OneRun a) {a' : StartArgs} {m : Mallocs} {answer : Answer}
    (hanswer : s.pipelineStart a' m = some answer) : answer.state.OneRun a := by
  obtain ⟨found, _, hanswer⟩ := Option.bind_eq_some_iff.mp hanswer
  dsimp only at hanswer
  split at hanswer
  · cases hanswer
    exact h
  · next p _ =>
    split at hanswer
    · cases hanswer
      intro q stats hq hnames
      have hq := (getElem?_write (s := s.redirect p .leaked) p q _).symm.trans hq
      split at hq
      · cases hq
        exact le_rfl
      · exact h q stats hq hnames
    · cases hanswer
      intro q stats hq hnames
      have hq : (s.records.erase p)[q]? = some stats := hq
      rw [TreeMap.getElem?_erase] at hq
      split at hq
      · cases hq
      · exact h q stats hq hnames

theorem OneRun.billFunc (h : s.OneRun a) {funcId : Int} {time : UInt64} {activeThreads : Int}
    {answer : Answer} (hanswer : s.billFunc funcId time activeThreads = some answer) :
    answer.state.OneRun a := by
  obtain ⟨found, _, hanswer⟩ := Option.bind_eq_some_iff.mp hanswer
  cases found with
  | none =>
    cases hanswer
    exact h
  | some r =>
    obtain ⟨prev, p⟩ := r
    obtain ⟨s₁, hbubble, hanswer⟩ := Option.bind_eq_some_iff.mp hanswer
    obtain ⟨stats, hstats, hanswer⟩ := Option.bind_eq_some_iff.mp hanswer
    cases hanswer
    have hmoved : s₁.OneRun a := by
      cases prev with
      | none =>
        cases hbubble
        exact h
      | some prev =>
        obtain ⟨before, hbefore, hbubble⟩ := Option.bind_eq_some_iff.mp hbubble
        obtain ⟨old, hold, hbubble⟩ := Option.bind_eq_some_iff.mp hbubble
        cases hbubble
        have hlinked : (s.write prev { before with next := old.next }).OneRun a :=
          h.write hbefore rfl rfl rfl
        have hstats := getElem?_write (s := s) prev p { before with next := old.next }
        by_cases heq : prev = p
        · rw [heq, hold] at hbefore
          cases hbefore
          rw [if_pos heq] at hstats
          exact hlinked.write hstats rfl rfl rfl
        · rw [if_neg heq, hold] at hstats
          exact hlinked.write hstats rfl rfl rfl
    exact hmoved.write hstats rfl rfl rfl

theorem OneRun.stepEvent (h : s.OneRun a) {event : PipelineEvent} {s' : PapiState} {out : List Effect}
    (hstep : s.stepEvent event = some (s', out)) : s'.OneRun a := by
  obtain ⟨answer, hanswer, heq⟩ := Option.map_eq_some_iff.mp hstep
  cases heq
  cases event with
  | start a' m => exact h.pipelineStart hanswer
  | sample c => exact h.billFunc hanswer
  | enter r =>
    rw [PipelineEvent.op, answer_enter] at hanswer
    obtain ⟨_, rfl⟩ := enter_eq_some hanswer
    exact h
  | leave r thread =>
    rw [PipelineEvent.op, answer_leave] at hanswer
    obtain ⟨p, stats, hstats, rfl⟩ := leave_eq_some hanswer
    exact h.write hstats (stats.name_modifyCounters r _) (stats.sameShape_modifyCounters r _).numFuncs
      (stats.sameShape_modifyCounters r _).runs

/-- With the runs counted anew by each start, more than one start is too many. -/
theorem Accumulates.countP_start_le (hnew : ∀ p stats, s.content p = some stats → a.names stats = false)
    {events : List PipelineEvent} (h : s.Accumulates a events) : events.countP (·.isStart) ≤ 1 := by
  obtain ⟨s', effects, hrun, l, p, stats, _, hfilter, hstats, htotals, _⟩ := h
  have hfirst : s.OneRun a := by
    intro q old hold hnames
    have hother := hnew q _ (content_of_getElem? hold)
    change a.names old = false at hother
    rw [hother] at hnames
    cases hnames
  have hlast : s'.OneRun a :=
    run_keeps (fun s event s' out hs (_ : True) hstep => hs.stepEvent hstep) (fun _ _ => trivial) hfirst hrun
  have htest : s'.test p a.names = true := by
    have hmem : p ∈ l.filter (s'.test · a.names) := by rw [hfilter]; exact List.mem_singleton_self p
    exact (List.mem_filter.mp hmem).2
  rw [test, hstats] at htest
  rw [← htotals.runs]
  exact hlast p stats hstats htest

/-- A start that succeeds, of a pipeline without a record. -/
theorem exists_malloc_of_start {l : List Ptr} (hlinked : s.Linked l)
    (hnew : ∀ p stats, s.content p = some stats → a.names stats = false) {m : Mallocs}
    (h : Continues a s (.start a m)) : ∃ p, s.malloc m = some p ∧
      s.stepEvent (.start a m) = some (s.install a p, [.papiHalideInitialize]) := by
  obtain ⟨_, _, answer, hanswer, hret⟩ := h
  have hneg : ¬ (0 : Int) ≤ -1 := by decide
  rw [hlinked.pipelineStart hnew m] at hanswer
  have hstep : s.stepEvent (.start a m) =
      (s.pipelineStart a m).map fun answer => (answer.state, answer.effects) := rfl
  rw [hlinked.pipelineStart hnew m] at hstep
  cases hmalloc : s.malloc m with
  | none =>
    rw [hmalloc] at hanswer
    cases hanswer
    exact absurd hret hneg
  | some p =>
    rw [hmalloc] at hanswer hstep
    dsimp only at hanswer hstep
    split at hanswer
    · next harrays =>
      rw [if_pos harrays] at hstep
      exact ⟨p, rfl, hstep⟩
    · cases hanswer
      exact absurd hret hneg

/-- A pipeline that is started once: what is kept is what the totals are compared with. -/
theorem accumulates_of_once {l : List Ptr} (hlinked : s.Linked l) (hapart : s.Apart)
    (hfuncs : 0 ≤ a.numFuncs)
    (hnew : ∀ p stats, s.content p = some stats → a.names stats = false) {m : Mallocs}
    {rest : List PipelineEvent} (hcontinues : Admits stepEvent (Continues a) s (.start a m :: rest))
    (honce : ∀ event ∈ rest, event.isStart = false) : s.Accumulates a (.start a m :: rest) := by
  obtain ⟨p, hmalloc, hstep⟩ := exists_malloc_of_start hlinked hnew hcontinues.1
  have hkeeps := keeps_install hlinked hapart hfuncs hnew hmalloc
  obtain ⟨s', out, hrun, hs'⟩ := hkeeps.run (hcontinues.2 _ _ hstep) honce
  obtain ⟨l', hlinked', _⟩ := hs'.linkedApart
  obtain ⟨stats, hcurrent, hnames, htotals⟩ := hs'.record
  refine ⟨s', [.papiHalideInitialize] ++ out, ?_, l', p, stats, hlinked'.chain, ?_, hcurrent.record,
    htotals, hs'.held⟩
  · rw [run_cons hstep, hrun]
    rfl
  · have honly : ∀ q ∈ l', s'.test q a.names = true ↔ q = p := by
      intro q hq
      obtain ⟨statsQ, hstatsQ⟩ := mem_iff_getElem?.mp ((hlinked'.mem q).mp hq)
      rw [test, hstatsQ, Option.any_some]
      constructor
      · intro hnamesQ
        by_contra hne
        have hother := hs'.others q _ hne (content_of_getElem? hstatsQ)
        change a.names statsQ = false at hother
        rw [hother] at hnamesQ
        cases hnamesQ
      · rintro rfl
        rw [hcurrent.record] at hstatsQ
        cases hstatsQ
        exact hnames
    have hp : p ∈ l' := (hlinked'.mem p).mpr (mem_iff_getElem?.mpr ⟨stats, hcurrent.record⟩)
    have heq : l'.filter (s'.test · a.names) = l'.filter (· == p) := by
      refine List.filter_congr fun q hq => ?_
      rw [Bool.eq_iff_iff, honly q hq, beq_iff_eq]
    rw [heq, List.filter_beq, hlinked'.chain.nodup.count, if_pos hp]
    rfl

/-- The totals are those since the first start exactly if that is the only start. -/
theorem accumulates_iff {l : List Ptr} (hlinked : s.Linked l) (hapart : s.Apart)
    (hfuncs : 0 ≤ a.numFuncs)
    (hnew : ∀ p stats, s.content p = some stats → a.names stats = false) {m : Mallocs}
    {rest : List PipelineEvent} (hcontinues : Admits stepEvent (Continues a) s (.start a m :: rest)) :
    s.Accumulates a (.start a m :: rest) ↔ rest.countP (·.isStart) = 0 := by
  constructor
  · intro h
    have hle := h.countP_start_le hnew
    rw [List.countP_cons_of_pos rfl] at hle
    omega
  · intro honce
    refine accumulates_of_once hlinked hapart hfuncs hnew hcontinues fun event hevent => ?_
    exact Bool.eq_false_iff.mpr (List.countP_eq_zero.mp honce event hevent)

end

/-- The first start of the pipeline `oneFunc 7`. -/
def firstStart : PipelineEvent := .start (oneFunc 7) ⟨some 1, true, true⟩

theorem stepEvent_firstStart : initial.stepEvent firstStart =
    some (initial.install (oneFunc 7) 1, [.papiHalideInitialize]) := rfl

theorem accumulates_iff_once :
    initial.Accumulates (oneFunc 7) [firstStart, .enter (.func 0 true), .sample ⟨0, 5, 2⟩] ↔
      [PipelineEvent.enter (.func 0 true), .sample ⟨0, 5, 2⟩].countP (·.isStart) = 0 := by
  refine accumulates_iff linked_initial (emptied_initial.apart le_rfl) (by decide)
    (linked_initial.not_names _) ⟨⟨rfl, rfl, _, rfl, le_rfl⟩, fun s out hstart => ?_⟩
  have hinstalled := hstart.symm.trans stepEvent_firstStart
  cases hinstalled
  exact ⟨⟨1, _, current_install .., by decide⟩, fun _ _ _ => ⟨trivial, fun _ _ _ => trivial⟩⟩

/-- Two starts, and the record counts one run. -/
theorem not_accumulates_twice :
    ¬ ∀ (s : PapiState) (l : List Ptr) (a : StartArgs) (m : Mallocs) (rest : List PipelineEvent),
      s.Linked l → s.Apart → 0 ≤ a.numFuncs →
      (∀ p stats, s.content p = some stats → a.names stats = false) →
      Admits stepEvent (Continues a) s (.start a m :: rest) → s.Accumulates a (.start a m :: rest) := by
  intro h
  have hnew := linked_initial.not_names (oneFunc 7)
  have haccumulates := h initial [] (oneFunc 7) ⟨some 1, true, true⟩
    [.start (oneFunc 7) ⟨some 2, true, true⟩] linked_initial (emptied_initial.apart le_rfl) (by decide) hnew
    ⟨⟨rfl, rfl, _, rfl, le_rfl⟩, fun s out hstart => by
      have hinstalled := hstart.symm.trans stepEvent_firstStart
      cases hinstalled
      exact ⟨⟨rfl, rfl, _, rfl, by decide⟩, fun _ _ _ => trivial⟩⟩
  exact absurd (haccumulates.countP_start_le hnew) (by decide)

end PapiState

end ProfHalide
