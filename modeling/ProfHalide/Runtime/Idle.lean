import ProfHalide.Pass.Balance
import ProfHalide.Runtime.Markers

/-!
# The profiler after a run

An instrumented pipeline runs alone: its threads call the runtime, samples are taken in between, and
when it is over, completed or cut short, the destructor it registered ends the pipeline. The end frees
the record and stops the sampling thread, but counts no thread down and clears no pointer to counters,
so the profiler is idle again exactly if the calls of the run have seen to that.
-/

namespace ProfHalide

open Std Machine Behaviour Strands

/-! ### Calls of a program -/

/-- What a started program hands to the runtime, and what the runtime gets from the allocator. -/
structure Surroundings where
  /-- Where a name is stored. -/
  address : String → Ptr
  funcNames : Nat → Ptr
  loopNames : Nat → Ptr
  funcShowThreadsProd : Nat → Bool
  funcShowThreadsCons : Nat → Bool
  loopShowThreads : Nat → Bool
  mallocs : Mallocs

def Surroundings.startArgs (env : Surroundings) (name : String) (numFuncs numLoops : Int) :
    StartArgs where
  pipelineName := env.address name
  numFuncs := numFuncs
  numLoops := numLoops
  funcNames := env.funcNames
  loopNames := env.loopNames
  funcShowThreadsProd := env.funcShowThreadsProd
  funcShowThreadsCons := env.funcShowThreadsCons
  loopShowThreads := env.loopShowThreads

/-- The runtime's answer to a call of the program, on a thread. -/
def PapiState.call (s : PapiState) (env : Surroundings) (tok : Int) (thread : ThreadIndex) :
    PapiCall → Option Answer
  | .pipelineStart name numFuncs numLoops =>
      s.pipelineStart (env.startArgs name numFuncs numLoops) env.mallocs
  | .getState | .getPipelineState | .registerDestructor => some ⟨0, s, []⟩
  | .setCurrentFunc t => some (s.setCurrentFunc tok t)
  | .enter r => s.enter r
  | .leave r => s.leave r thread
  | .incrActiveThreads => some s.incrActiveThreads
  | .decrActiveThreads => s.decrActiveThreads thread
  | .enterParallelRegion => some ⟨0, s, [.enterParallelRegion]⟩
  | .leaveParallelRegion => some ⟨0, s, [.leaveParallelRegion]⟩

/-- A call of the program, or a sample. -/
inductive HostEvent where
  | call (c : PapiCall) (thread : ThreadIndex)
  | sample (funcId : Int) (time : UInt64) (activeThreads : Int)

def HostEvent.call? : HostEvent → Option PapiCall
  | .call c _ => some c
  | .sample _ _ _ => none

/-- The runtime's state, and the program's token once the pipeline is started. -/
structure HostRun where
  state : PapiState
  token : Option Int

namespace HostRun

def step (env : Surroundings) (c : HostRun) : HostEvent → Option (HostRun × List Effect)
  | .call call thread =>
      (c.state.call env (c.token.getD 0) thread call).map fun answer =>
        ({ state := answer.state
           token := match call with
            | .pipelineStart _ _ _ => some answer.ret
            | _ => c.token }, answer.effects)
  | .sample funcId time activeThreads =>
      (c.state.billFunc funcId time activeThreads).map fun answer =>
        ({ c with state := answer.state }, answer.effects)

/-- Past its start, the program has asserted that its token is no error code. -/
def TokenChecked (c : HostRun) : HostEvent → Prop
  | .call call _ => call.starts = false → ∃ tok, c.token = some tok ∧ 0 ≤ tok
  | .sample _ _ _ => True

end HostRun

/-! ### The idle state -/

namespace PapiState

/-- No record, nothing measured, no sampling thread. -/
structure Quiet (s : PapiState) : Prop where
  pipelines : s.pipelines = none
  records : ∀ p, p ∉ s.records
  firstFreeId : s.firstFreeId = 0
  samplingThread : s.samplingThread = false
  currentPipelineStats : s.currentPipelineStats = none
  lastCounters : s.lastCounters = none

/-- Quiet, outside of any pipeline, and with as many active threads as before. -/
structure IdleAfter (before s : PapiState) : Prop where
  quiet : s.Quiet
  currentFunc : s.currentFunc = outsideOfHalide
  activeThreads : s.activeThreads = before.activeThreads

end PapiState

namespace HostRun

/-- The run returns, and so does the end of the pipeline after it, which leaves the profiler idle. -/
def EndsIdle (env : Surroundings) (before : PapiState) (c : HostRun) (events : List HostEvent) : Prop :=
  ∃ c' effects answer, run (step env) c events = some (c', effects) ∧
    c'.state.pipelineEnd = some answer ∧ PapiState.IdleAfter before answer.state

end HostRun

namespace PapiCall

/-- What a call does to the number of active threads. -/
def delta : PapiCall → Int
  | .incrActiveThreads => 1
  | .decrActiveThreads => -1
  | _ => 0

theorem delta_of_starts {c : PapiCall} (h : c.starts = true) : c.delta = 0 := by
  cases c with
  | incrActiveThreads => cases h
  | decrActiveThreads => cases h
  | _ => rfl

/-- The region entered by the last marker of all, if that was an entry. -/
def lastEntered (last : Option Region) : PapiCall → Option Region
  | .enter r => some r
  | .leave _ => none
  | _ => last

/-- A marker is for a func or loop of the pipeline. -/
def InRange (numFuncs numLoops : Int) : PapiCall → Prop
  | .enter r | .leave r => r.InRange numFuncs numLoops
  | _ => True

end PapiCall

/-- The markers of a run are for funcs and loops that its start announced, as many threads were counted
down as up, and the last marker left a region, if there was any. -/
structure Tidy (calls : List PapiCall) : Prop where
  inRange : ∀ name numFuncs numLoops, .pipelineStart name numFuncs numLoops ∈ calls →
    ∀ c ∈ calls, c.InRange numFuncs numLoops
  balanced : calls.count .incrActiveThreads = calls.count .decrActiveThreads
  left : calls.foldl PapiCall.lastEntered none = none

namespace HostRun

variable {env : Surroundings} {before : PapiState} {c c' : HostRun} {events events' : List HostEvent}

theorem endsIdle_append {effects : List Effect} (h : run (step env) c events = some (c', effects)) :
    EndsIdle env before c (events ++ events') ↔ EndsIdle env before c' events' := by
  rw [EndsIdle, EndsIdle, run_append, h, Option.bind_some]
  constructor
  · intro hends
    obtain ⟨c₁, effects₁, answer, hrun, hend, hidle⟩ := hends
    obtain ⟨r, hr, heq⟩ := Option.map_eq_some_iff.mp hrun
    cases heq
    exact ⟨r.1, r.2, answer, hr, hend, hidle⟩
  · intro hends
    obtain ⟨c₁, effects₁, answer, hrun, hend, hidle⟩ := hends
    exact ⟨c₁, effects ++ effects₁, answer, by rw [hrun]; rfl, hend, hidle⟩

theorem endsIdle_cons {event : HostEvent} {effects : List Effect}
    (h : step env c event = some (c', effects)) :
    EndsIdle env before c (event :: events') ↔ EndsIdle env before c' events' := by
  have hrun : run (step env) c [event] = some (c', effects) := by
    rw [run_cons h, run]
    simp
  exact endsIdle_append hrun

theorem not_endsIdle_cons {event : HostEvent} (h : step env c event = none) :
    ¬ EndsIdle env before c (event :: events') := by
  intro hends
  obtain ⟨_, _, _, hrun, _⟩ := hends
  rw [run, h] at hrun
  cases hrun

/-! ### While the pipeline runs -/

/-- The pipeline runs, with the only record at `p`; the globals follow the last marker. -/
structure Ongoing (c : HostRun) (p : Ptr) (numFuncs numLoops : Int) (last : Option Region) : Prop where
  follows : c.state.Follows p numFuncs numLoops last
  linked : c.state.Linked [p]
  samplingThread : c.state.samplingThread = true

variable {p : Ptr} {numFuncs numLoops : Int} {last : Option Region}

/-- The end of the pipeline leaves the number of active threads, and a null pointer to counters if it
finds one. -/
theorem Ongoing.endsIdle_nil (h : c.Ongoing p numFuncs numLoops last) :
    EndsIdle env before c [] ↔
      c.state.activeThreads = before.activeThreads ∧ last = none := by
  obtain ⟨s', hend, hemptied⟩ := h.linked.pipelineEnd h.samplingThread
  have hactive : s'.activeThreads = c.state.activeThreads := by
    rw [hemptied.others]
    rfl
  have hcounters : s'.lastCounters = none ↔ last = none := by
    apply hemptied.lastCounters.trans
    change c.state.lastCounters = none ↔ _
    cases last with
    | none => exact iff_of_true (h.follows.left rfl) rfl
    | some r =>
      rw [(h.follows.entered r rfl).1.1]
      exact iff_of_false nofun nofun
  constructor
  · intro hends
    obtain ⟨c', effects, answer, hrun, hend', hidle⟩ := hends
    cases hrun
    rw [hend] at hend'
    cases hend'
    exact ⟨hactive.symm.trans hidle.activeThreads, hcounters.mp hidle.quiet.lastCounters⟩
  · intro htidy
    obtain ⟨hthreads, hlast⟩ := htidy
    refine ⟨c, [], _, rfl, hend, ⟨?_, hemptied.records, ?_, ?_, ?_, hcounters.mpr hlast⟩, ?_, ?_⟩
    · rw [hemptied.others]
    · rw [hemptied.others]
    · rw [hemptied.others]
      rfl
    · rw [hemptied.others]
    · rw [hemptied.others]
      rfl
    · exact hactive.trans hthreads

theorem step_call {call : PapiCall} {thread : ThreadIndex} {answer : Answer}
    (hstarts : call.starts = false)
    (h : c.state.call env (c.token.getD 0) thread call = some answer) :
    step env c (.call call thread) = some ({ c with state := answer.state }, answer.effects) := by
  rw [step, h]
  cases call <;> first | rfl | cases hstarts

/-- A call while the pipeline runs: answered, unless it marks what the pipeline has not got. -/
theorem Ongoing.call (h : c.Ongoing p numFuncs numLoops last) (env : Surroundings)
    {call : PapiCall} (hstarts : call.starts = false) (thread : ThreadIndex) :
    (call.InRange numFuncs numLoops ∧ ∃ c' out, step env c (.call call thread) = some (c', out) ∧
      c'.Ongoing p numFuncs numLoops (call.lastEntered last) ∧
      c'.state.activeThreads = c.state.activeThreads + call.delta) ∨
    (¬ call.InRange numFuncs numLoops ∧ step env c (.call call thread) = none) := by
  have hkept : ∀ s', c.state.Kept s' → s'.Linked [p] ∧ s'.samplingThread = true :=
    fun s' hkept => ⟨hkept.linked [p] h.linked, hkept.samplingThread.trans h.samplingThread⟩
  cases call with
  | pipelineStart name numFuncs numLoops => cases hstarts
  | registerDestructor => cases hstarts
  | enter r =>
    by_cases hr : r.InRange numFuncs numLoops
    · obtain ⟨s', henter, hfollows, hkept', hactive⟩ := h.follows.enter hr
      obtain ⟨hlinked, hthread⟩ := hkept s' hkept'
      exact Or.inl ⟨hr, _, _, step_call rfl henter, ⟨hfollows, hlinked, hthread⟩,
        hactive.trans (add_zero _).symm⟩
    · refine Or.inr ⟨hr, ?_⟩
      rw [step, PapiState.call, (h.follows.marker_eq_none hr thread).1]
      rfl
  | leave r =>
    by_cases hr : r.InRange numFuncs numLoops
    · obtain ⟨s', hleave, hfollows, hkept', hactive⟩ := h.follows.leave hr thread
      obtain ⟨hlinked, hthread⟩ := hkept s' hkept'
      exact Or.inl ⟨hr, _, _, step_call rfl hleave, ⟨hfollows, hlinked, hthread⟩,
        hactive.trans (add_zero _).symm⟩
    · refine Or.inr ⟨hr, ?_⟩
      rw [step, PapiState.call, (h.follows.marker_eq_none hr thread).2]
      rfl
  | decrActiveThreads =>
    obtain ⟨s', hdecr, hfollows, hkept', hactive⟩ := h.follows.decrActiveThreads thread
    obtain ⟨hlinked, hthread⟩ := hkept s' hkept'
    exact Or.inl ⟨trivial, _, _, step_call rfl hdecr, ⟨hfollows, hlinked, hthread⟩, hactive⟩
  | incrActiveThreads =>
    exact Or.inl ⟨trivial, _, _, step_call rfl rfl, ⟨h.follows.congr rfl rfl rfl rfl,
      ⟨h.linked.chain, h.linked.mem⟩, h.samplingThread⟩, rfl⟩
  | setCurrentFunc t =>
    exact Or.inl ⟨trivial, _, _, step_call rfl rfl, ⟨h.follows.congr rfl rfl rfl rfl,
      ⟨h.linked.chain, h.linked.mem⟩, h.samplingThread⟩, (add_zero _).symm⟩
  | _ => exact Or.inl ⟨trivial, _, _, step_call rfl rfl, h, (add_zero _).symm⟩

theorem Ongoing.sample (h : c.Ongoing p numFuncs numLoops last) (env : Surroundings)
    (funcId : Int) (time : UInt64) (activeThreads : Int) :
    ∃ c' out, step env c (.sample funcId time activeThreads) = some (c', out) ∧
      c'.Ongoing p numFuncs numLoops last ∧ c'.state.activeThreads = c.state.activeThreads := by
  obtain ⟨stats, hcurrent, hfuncs, hloops⟩ := h.follows.current
  obtain ⟨s', l', stats', hbill, hglobals, hlinked, hperm, hcurrent', hshape⟩ :=
    hcurrent.billFunc h.linked funcId time activeThreads
  rw [List.perm_singleton] at hperm
  refine ⟨{ c with state := s' }, [], by rw [step, hbill]; rfl, ⟨⟨⟨stats', hcurrent', ?_, ?_⟩, ?_, ?_⟩,
    hperm ▸ hlinked, ?_⟩, ?_⟩
  · rw [hshape.numFuncs, hfuncs]
  · rw [hshape.numLoops, hloops]
  · rw [hglobals]
    exact h.follows.entered
  · rw [hglobals]
    exact h.follows.left
  · rw [hglobals]
    exact h.samplingThread
  · rw [hglobals]

/-- What a running pipeline has to do yet, for the profiler to be idle after it. -/
theorem Ongoing.endsIdle_iff (h : c.Ongoing p numFuncs numLoops last)
    (hstarts : ∀ call ∈ events.filterMap HostEvent.call?, call.starts = false) :
    EndsIdle env before c events ↔
      (∀ call ∈ events.filterMap HostEvent.call?, call.InRange numFuncs numLoops) ∧
      c.state.activeThreads + ((events.filterMap HostEvent.call?).map PapiCall.delta).sum
        = before.activeThreads ∧
      (events.filterMap HostEvent.call?).foldl PapiCall.lastEntered last = none := by
  induction events generalizing c last with
  | nil =>
    rw [h.endsIdle_nil]
    simp
  | cons event events ih =>
    cases event with
    | sample funcId time activeThreads =>
      obtain ⟨c', out, hstep, hongoing, hactive⟩ := h.sample env funcId time activeThreads
      rw [endsIdle_cons hstep, ih hongoing hstarts, hactive]
      rfl
    | call call thread =>
      have hcalls : (HostEvent.call call thread :: events).filterMap HostEvent.call?
          = call :: events.filterMap HostEvent.call? := rfl
      rw [hcalls] at hstarts ⊢
      rw [List.forall_mem_cons] at hstarts
      rcases h.call env hstarts.1 thread with
        ⟨hr, c', out, hstep, hongoing, hactive⟩ | ⟨hr, hnone⟩
      · rw [endsIdle_cons hstep, ih hongoing hstarts.2, hactive, List.forall_mem_cons, List.map_cons,
          List.sum_cons, List.foldl_cons, add_assoc, and_iff_right hr]
      · refine iff_of_false (not_endsIdle_cons hnone) fun htidy => hr ?_
        exact htidy.1 call List.mem_cons_self

/-! ### Before the pipeline runs -/

theorem quiet_sample (h : c.state.Quiet) (funcId : Int) (time : UInt64) (activeThreads : Int) :
    step env c (.sample funcId time activeThreads) = some (c, []) := by
  have hfind : c.state.find (·.containsFunc funcId) = some none := by
    rw [PapiState.find, h.pipelines]
    cases c.state.records.size <;> rfl
  rw [step, PapiState.billFunc, hfind]
  rfl

theorem quiet_run (h : c.state.Quiet) (hsamples : ∀ event ∈ events, event.call? = none) :
    run (step env) c events = some (c, []) := by
  induction events with
  | nil => rfl
  | cons event events ih =>
    rw [List.forall_mem_cons] at hsamples
    cases event with
    | call call thread => cases hsamples.1
    | sample funcId time activeThreads =>
      rw [run_cons (quiet_sample h funcId time activeThreads), ih hsamples.2]
      rfl

/-- The end of a pipeline that never started. -/
theorem quiet_endsIdle (h : c.state.Quiet) (hactive : c.state.activeThreads = before.activeThreads)
    (hsamples : ∀ event ∈ events, event.call? = none) : EndsIdle env before c events := by
  have hend : c.state.pipelineEnd = some ⟨0, { c.state with
      currentFunc := outsideOfHalide, currentPipelineStats := none }, []⟩ := by
    rw [PapiState.pipelineEnd, PapiState.shutdown, if_neg (by simp [h.samplingThread])]
    rfl
  exact ⟨c, [], _, quiet_run h hsamples, hend,
    ⟨h.pipelines, h.records, h.firstFreeId, h.samplingThread, rfl, h.lastCounters⟩, rfl, hactive⟩

theorem quiet_linked {s : PapiState} (h : s.Quiet) : s.Linked [] where
  chain := by
    rw [h.pipelines]
    exact .nil
  mem p := iff_of_false List.not_mem_nil (h.records p)

/-- A start of the only pipeline: it runs, or nothing has changed and the token is an error code. -/
theorem quiet_start (env : Surroundings) (h : c.state.Quiet) (name : String) (numFuncs numLoops : Int)
    (thread : ThreadIndex) :
    ∃ c' out, step env c (.call (.pipelineStart name numFuncs numLoops) thread) = some (c', out) ∧
      c'.state.activeThreads = c.state.activeThreads ∧
      ((∃ p, c'.Ongoing p numFuncs numLoops none) ∨ c'.state.Quiet ∧ c'.token = some (-1)) := by
  have hlinked := quiet_linked h
  have hstart := hlinked.pipelineStart
    (hlinked.not_names (env.startArgs name numFuncs numLoops)) env.mallocs
  cases hmalloc : c.state.malloc env.mallocs with
  | none =>
    rw [hmalloc] at hstart
    refine ⟨⟨c.state, some (-1)⟩, [], ?_, rfl, Or.inr ⟨h, rfl⟩⟩
    rw [step, PapiState.call, hstart]
    rfl
  | some p =>
    rw [hmalloc] at hstart
    cases harrays : env.mallocs.arrays (env.startArgs name numFuncs numLoops).numLoops with
    | false =>
      rw [harrays] at hstart
      refine ⟨⟨{ c.state.redirect p .leaked with records := c.state.records.erase p }, some (-1)⟩,
        [.free p], ?_, rfl, Or.inr ⟨⟨h.pipelines, fun q hq => ?_, h.firstFreeId, h.samplingThread,
          h.currentPipelineStats, ?_⟩, rfl⟩⟩
      · rw [step, PapiState.call, hstart]
        rfl
      · exact h.records q (TreeMap.mem_of_mem_erase hq)
      · change c.state.lastCounters.map _ = none
        rw [h.lastCounters]
        rfl
    | true =>
      rw [harrays] at hstart
      have hcurrent := PapiState.current_install c.state (env.startArgs name numFuncs numLoops) p
      have hlast : (c.state.install (env.startArgs name numFuncs numLoops) p).lastCounters = none := by
        change c.state.lastCounters.map _ = none
        rw [h.lastCounters]
        rfl
      refine ⟨⟨c.state.install (env.startArgs name numFuncs numLoops) p, some c.state.firstFreeId⟩,
        [.papiHalideInitialize], ?_, rfl,
        Or.inl ⟨p, ⟨⟨_, hcurrent, rfl, rfl⟩, nofun, fun _ => hlast⟩, ?_, rfl⟩⟩
      · rw [step, PapiState.call, hstart]
        rfl
      · exact hlinked.install _ (PapiState.malloc_eq_some hmalloc)

/-! ### The whole run -/

theorem endsIdle_samples (hsamples : ∀ event ∈ events, event.call? = none) (h : c.state.Quiet) :
    EndsIdle env before c (events ++ events') ↔ EndsIdle env before c events' :=
  endsIdle_append (quiet_run h hsamples)

/-- After a start that failed nothing is called. -/
theorem calls_eq_nil (htoken : c.token = some (-1)) (h : c.state.Quiet)
    (hstarts : ∀ call ∈ events.filterMap HostEvent.call?, call.starts = false)
    (hchecked : Admits (step env) TokenChecked c events) : events.filterMap HostEvent.call? = [] := by
  induction events with
  | nil => rfl
  | cons event events ih =>
    cases event with
    | sample funcId time activeThreads =>
      exact ih hstarts (hchecked.2 _ _ (quiet_sample h funcId time activeThreads))
    | call call thread =>
      have hcall : call.starts = false := hstarts call List.mem_cons_self
      obtain ⟨tok, htok, hnonneg⟩ := hchecked.1 hcall
      rw [htoken] at htok
      cases htok
      exact absurd hnonneg (by decide)

theorem sum_delta (calls : List PapiCall) :
    (calls.map PapiCall.delta).sum
      = (calls.count .incrActiveThreads : Int) - calls.count .decrActiveThreads := by
  induction calls with
  | nil => rfl
  | cons call calls ih =>
    rw [List.map_cons, List.sum_cons, ih]
    cases call <;> simp [PapiCall.delta] <;> omega

theorem tidy_iff {name : String} {rest : List PapiCall}
    (hstarts : ∀ call ∈ rest, call.starts = false) :
    Tidy (.registerDestructor :: .pipelineStart name numFuncs numLoops :: rest) ↔
      (∀ call ∈ rest, call.InRange numFuncs numLoops) ∧ (rest.map PapiCall.delta).sum = 0 ∧
      rest.foldl PapiCall.lastEntered none = none := by
  have hsum := sum_delta (.registerDestructor :: .pipelineStart name numFuncs numLoops :: rest)
  rw [List.map_cons, List.map_cons, List.sum_cons, List.sum_cons, PapiCall.delta_of_starts rfl,
    PapiCall.delta_of_starts rfl, zero_add, zero_add] at hsum
  constructor
  · intro htidy
    have hrange := htidy.inRange name numFuncs numLoops (List.mem_cons_of_mem _ List.mem_cons_self)
    have hbalanced := htidy.balanced
    rw [List.forall_mem_cons, List.forall_mem_cons] at hrange
    exact ⟨hrange.2.2, by omega, htidy.left⟩
  · intro hrest
    obtain ⟨hrange, hzero, hlast⟩ := hrest
    refine ⟨fun name' numFuncs' numLoops' hmem => ?_, by omega, hlast⟩
    rw [List.mem_cons, List.mem_cons, or_iff_right nofun, PapiCall.pipelineStart.injEq] at hmem
    rcases hmem with ⟨_, rfl, rfl⟩ | hmem
    · rw [List.forall_mem_cons, List.forall_mem_cons]
      exact ⟨trivial, trivial, hrange⟩
    · cases hstarts _ hmem

/-- One pipeline alone, from its start to its end, with samples taken at any time. -/
theorem endsIdle_iff_tidy (hquiet : before.Quiet) {name : String} {rest : List PapiCall}
    (hcalls : events.filterMap HostEvent.call?
      = .registerDestructor :: .pipelineStart name numFuncs numLoops :: rest)
    (hstarts : ∀ call ∈ rest, call.starts = false)
    (hchecked : Admits (step env) TokenChecked ⟨before, none⟩ events) :
    EndsIdle env before ⟨before, none⟩ events ↔
      Tidy (.registerDestructor :: .pipelineStart name numFuncs numLoops :: rest) := by
  rw [tidy_iff hstarts]
  obtain ⟨samples₁, register, events₁, rfl, hsamples₁, hregister, hcalls₁⟩ :=
    List.filterMap_eq_cons_iff.mp hcalls
  obtain ⟨samples₂, start, events₂, rfl, hsamples₂, hstart, hcalls₂⟩ :=
    List.filterMap_eq_cons_iff.mp hcalls₁
  cases register with
  | sample funcId time activeThreads => cases hregister
  | call call₁ thread₁ =>
    cases hregister
    cases start with
    | sample funcId time activeThreads => cases hstart
    | call call₂ thread₂ =>
      cases hstart
      have hregistered : step env ⟨before, none⟩ (.call .registerDestructor thread₁)
          = some (⟨before, none⟩, []) := rfl
      obtain ⟨c', out, hstarted, hactive, hnow⟩ :=
        quiet_start env (c := ⟨before, none⟩) hquiet name numFuncs numLoops thread₂
      rw [endsIdle_samples hsamples₁ hquiet, endsIdle_cons hregistered, endsIdle_samples hsamples₂ hquiet,
        endsIdle_cons hstarted]
      have hchecked' : Admits (step env) TokenChecked c' events₂ := by
        have hafter₁ := hchecked.append.2 _ _ (quiet_run hquiet hsamples₁)
        have hafter₂ := (hafter₁.2 _ _ hregistered).append.2 _ _ (quiet_run hquiet hsamples₂)
        exact hafter₂.2 _ _ hstarted
      rw [← hcalls₂] at hstarts ⊢
      rcases hnow with ⟨p, hongoing⟩ | ⟨hquiet', htoken⟩
      · rw [hongoing.endsIdle_iff hstarts, hactive, add_eq_left]
      · have hnil := calls_eq_nil htoken hquiet' hstarts hchecked'
        have hsamples : ∀ event ∈ events₂, event.call? = none := List.filterMap_eq_nil_iff.mp hnil
        rw [hnil]
        exact iff_of_true (quiet_endsIdle hquiet' hactive hsamples) ⟨nofun, rfl, rfl⟩

/-- An instrumented statement, completed or cut short. -/
theorem inject_endsIdle_iff (hquiet : before.Quiet) {defs : List ProfilerDef}
    {loopDefs : List ProfilerLoop} {s : Stmt Empty} {pipelineName : String}
    {t : List (Tagged Step Act)} {ok : Bool}
    (ht : (injectPapiProfiling defs loopDefs s pipelineName).threads t ok)
    (hcalls : events.filterMap HostEvent.call? = hostCalls t)
    (hchecked : Admits (step env) TokenChecked ⟨before, none⟩ events) :
    EndsIdle env before ⟨before, none⟩ events ↔ Tidy (hostCalls t) := by
  obtain ⟨numFuncs, numLoops, rest, heq, hstarts⟩ := hostCalls_inject ht
  rw [heq] at hcalls ⊢
  exact endsIdle_iff_tidy hquiet hcalls hstarts hchecked

/-- A run that is not cut short leaves the number of active threads as it was; what is left to ask is
where its markers go. -/
theorem completed_endsIdle_iff (hquiet : before.Quiet) {defs : List ProfilerDef}
    {loopDefs : List ProfilerLoop} {s : Stmt Empty} {pipelineName : String} {t : List (Tagged Step Act)}
    (ht : (injectPapiProfiling defs loopDefs s pipelineName).threads t true)
    (hcalls : events.filterMap HostEvent.call? = hostCalls t)
    (hchecked : Admits (step env) TokenChecked ⟨before, none⟩ events) :
    EndsIdle env before ⟨before, none⟩ events ↔
      (∀ name numFuncs numLoops, .pipelineStart name numFuncs numLoops ∈ hostCalls t →
        ∀ c ∈ hostCalls t, c.InRange numFuncs numLoops) ∧
      (hostCalls t).foldl PapiCall.lastEntered none = none := by
  have hbalanced := count_hostCalls_inject ht
  obtain ⟨numFuncs, numLoops, rest, heq, hstarts⟩ := hostCalls_inject ht
  rw [heq] at hcalls hbalanced ⊢
  rw [endsIdle_iff_tidy hquiet hcalls hstarts hchecked]
  constructor
  · intro htidy
    exact ⟨htidy.inRange, htidy.left⟩
  · intro hmarkers
    exact ⟨hmarkers.1, hbalanced, hmarkers.2⟩

/-! ### A failing assertion -/

/-- One record can be allocated. -/
def oneRecord : Surroundings :=
  ⟨fun _ => 7, fun _ => 0, fun _ => 0, fun _ => false, fun _ => false, fun _ => false,
    ⟨some 1, true, true⟩⟩

theorem quiet_initial : PapiState.initial.Quiet :=
  ⟨rfl, fun _ => TreeMap.not_mem_emptyc, rfl, rfl, rfl, rfl⟩

def onFirstThread (calls : List PapiCall) : List HostEvent := calls.map (.call · 0)

theorem calls_onFirstThread (calls : List PapiCall) :
    (onFirstThread calls).filterMap HostEvent.call? = calls := by
  rw [onFirstThread, List.filterMap_map]
  exact List.filterMap_some

theorem tokenChecked_prologue {calls : List PapiCall}
    (hcalls : calls = [] ∨ calls = [.decrActiveThreads]) :
    Admits (step oneRecord) TokenChecked ⟨.initial, none⟩
      (onFirstThread (prologue "p" 1 0 ++ calls)) := by
  refine ⟨nofun, fun c₁ out₁ h₁ => ?_⟩
  cases h₁
  refine ⟨nofun, fun c₂ out₂ h₂ => ?_⟩
  cases h₂
  refine ⟨fun _ => ⟨0, rfl, by decide⟩, fun c₃ out₃ h₃ => ?_⟩
  cases h₃
  refine ⟨fun _ => ⟨0, rfl, by decide⟩, fun c₄ out₄ h₄ => ?_⟩
  cases h₄
  refine ⟨fun _ => ⟨0, rfl, by decide⟩, fun c₅ out₅ h₅ => ?_⟩
  cases h₅
  rcases hcalls with rfl | rfl
  · trivial
  · exact ⟨fun _ => ⟨0, rfl, by decide⟩, fun _ _ _ => trivial⟩

/-- A program that asserts something and does nothing else. -/
def assertion : Stmt Empty := .leaf (.assertStmt (.intImm 0) (.intImm 0))

theorem assertion_runs (ok : Bool) :
    (injectPapiProfiling [] [] assertion "p").threads
      (own ((prologue "p" 1 0).map .call) ++
        if ok then own [.call .decrActiveThreads] else own [.fails]) ok := by
  apply runs_prologue [] [] assertion "p"
  cases ok with
  | true =>
    exact seq_of (P := either (done []) (cut (own [Act.fails]))) (Or.inl ⟨rfl, rfl⟩) ⟨rfl, rfl⟩
  | false => exact Or.inr ⟨Or.inr ⟨rfl, rfl⟩, rfl⟩

theorem tidy_prologue : Tidy (prologue "p" 1 0 ++ [.decrActiveThreads]) := by
  refine (tidy_iff (by decide)).mpr ⟨?_, by decide, rfl⟩
  intro call hcall
  cases call with
  | enter r => simp at hcall
  | leave r => simp at hcall
  | _ => trivial

theorem inject_endsIdle_iff_assertion :
    EndsIdle oneRecord .initial ⟨.initial, none⟩
      (onFirstThread (prologue "p" 1 0 ++ [.decrActiveThreads])) :=
  (inject_endsIdle_iff quiet_initial (assertion_runs true) (calls_onFirstThread _)
    (tokenChecked_prologue (Or.inr rfl))).mpr tidy_prologue

/-- A failing assertion keeps its thread counted in. -/
theorem not_endsIdle_assertion :
    ¬ ∀ (env : Surroundings) (before : PapiState), before.Quiet →
      ∀ (defs : List ProfilerDef) (loopDefs : List ProfilerLoop) (s : Stmt Empty)
        (pipelineName : String) (t : List (Tagged Step Act)) (ok : Bool),
      (injectPapiProfiling defs loopDefs s pipelineName).threads t ok →
      ∀ events, events.filterMap HostEvent.call? = hostCalls t →
        Admits (step env) TokenChecked ⟨before, none⟩ events →
        EndsIdle env before ⟨before, none⟩ events := by
  intro h
  have hends := h oneRecord .initial quiet_initial [] [] assertion "p" _ false (assertion_runs false)
    (onFirstThread (prologue "p" 1 0 ++ [])) (calls_onFirstThread _)
    (tokenChecked_prologue (Or.inl rfl))
  have htidy := (endsIdle_iff_tidy quiet_initial (calls_onFirstThread _) (by decide)
    (tokenChecked_prologue (Or.inl rfl))).mp hends
  exact absurd htidy.balanced (by decide)

end HostRun

end ProfHalide
