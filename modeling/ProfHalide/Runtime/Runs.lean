import ProfHalide.Runtime.Markers
import Mathlib.Data.Prod.Basic

/-!
# Runs of pipelines

A run starts its pipeline, marks what it measures and ends; the calls of several runs come in any order,
with samples among them. Runs that do not overlap keep to their own records, and each is reported once,
when it ends.
-/

namespace ProfHalide

open Std Machine

abbrev RunId := Nat

/-- A run in progress: what its start returned, the record it installed, and the regions it may mark. -/
structure Running where
  token : Int
  record : Ptr
  numFuncs : Int
  numLoops : Int

inductive RunEvent where
  | start (run : RunId) (a : StartArgs) (m : Mallocs)
  | setCurrentFunc (run : RunId) (tok t : Int)
  | enter (run : RunId) (r : Region)
  | leave (run : RunId) (r : Region) (thread : ThreadIndex)
  | finish (run : RunId)
  /-- The sampling thread bills a func. -/
  | sample (funcId : Int) (time : UInt64) (activeThreads : Int)

def RunEvent.op : RunEvent → Op
  | .start _ a m => .pipelineStart a m
  | .setCurrentFunc _ tok t => .setCurrentFunc tok t
  | .enter _ r => .enter r
  | .leave _ r thread => .leave r thread
  | .finish _ => .pipelineEnd
  | .sample funcId time activeThreads => .billFunc funcId time activeThreads

structure Runs where
  state : PapiState
  running : RunId → Option Running
  ended : List RunId
  /-- The run that a record's statistics are of, the last to have started with it. -/
  owner : Ptr → Option RunId

namespace Runs

variable (c : Runs)

def initial : Runs := ⟨.initial, fun _ => none, [], fun _ => none⟩

/-- The runs whose statistics are printed. -/
def printed (effects : List Effect) : List RunId :=
  effects.filterMap fun
    | .report p _ => c.owner p
    | _ => none

/-- A run has started if there is a token. -/
def begin (run : RunId) (a : StartArgs) (answer : Answer) : Runs :=
  match answer.state.currentPipelineStats with
  | some p =>
      if 0 ≤ answer.ret then
        { c with
          state := answer.state
          running := Function.update c.running run (some ⟨answer.ret, p, a.numFuncs, a.numLoops⟩)
          owner := Function.update c.owner p (some run) }
      else { c with state := answer.state }
  | none => { c with state := answer.state }

def after (event : RunEvent) (answer : Answer) : Runs :=
  match event with
  | .start run a _ => c.begin run a answer
  | .finish run =>
      { c with
        state := answer.state
        running := Function.update c.running run none
        ended := run :: c.ended }
  | _ => { c with state := answer.state }

def step (event : RunEvent) : Option (Runs × List RunId) :=
  (c.state.answer event.op).map fun answer => (c.after event answer, c.printed answer.effects)

/-- Each run is one successful start, then calls for regions of its own, then the end. -/
def WellFormed : RunEvent → Prop
  | .start run a m => c.running run = none ∧ run ∉ c.ended ∧
      ∀ answer, c.state.pipelineStart a m = some answer → 0 ≤ answer.ret
  | .setCurrentFunc run tok t =>
      ∃ running, c.running run = some running ∧ tok = running.token ∧ 0 ≤ t ∧ t < running.numFuncs
  | .enter run r | .leave run r _ =>
      ∃ running, c.running run = some running ∧ r.InRange running.numFuncs running.numLoops
  | .finish run => ∃ running, c.running run = some running
  | .sample _ _ _ => True

/-- No run starts while another is in progress. -/
def StartsAlone : RunEvent → Prop
  | .start _ _ _ => ∀ run, c.running run = none
  | _ => True

/-- A marker goes to the record that the start of its own run installed, which is still allocated, and
changes no other. -/
def MarksOwnRecord (c : Runs) (event : RunEvent) (c' : Runs) (_ : List RunId) : Prop :=
  match event with
  | .enter run _ | .leave run _ _ => ∀ running, c.running run = some running →
      c.state.currentPipelineStats = some running.record ∧ running.record ∈ c.state.records ∧
      ∀ p, p ≠ running.record → c'.state.records[p]? = c.state.records[p]?
  | _ => True

/-- Every call returns, every marker keeps to its run's record, and at any time the runs that have ended
are those that have been printed, once each. -/
def Undisturbed (events : List RunEvent) : Prop :=
  Along step MarksOwnRecord initial events ∧
    ∀ before, before <+: events → ∃ c printed, run step initial before = some (c, printed) ∧
      ∀ run, printed.count run = if run ∈ c.ended then 1 else 0

/-! ### One run at a time -/

/-- The only run in progress, and its record, the only one. -/
structure Only (c : Runs) (run : RunId) (own : Running) (stats : PipelineStats) : Prop where
  running : c.running = Function.update (fun _ => none) run (some own)
  linked : c.state.Linked [own.record]
  current : c.state.Current own.record stats
  numFuncs : stats.numFuncs = own.numFuncs
  numLoops : stats.numLoops = own.numLoops
  runs : stats.runs ≠ 0
  samplingThread : c.state.samplingThread = true
  owner : c.owner own.record = some run
  unended : run ∉ c.ended

/-- No run is in progress, and there is no record. -/
structure Idle (c : Runs) : Prop where
  running : ∀ run, c.running run = none
  linked : c.state.Linked []

structure Inv (c : Runs) (printed : List RunId) : Prop where
  count : ∀ run, printed.count run = if run ∈ c.ended then 1 else 0
  alone : c.Idle ∨ ∃ run own stats, c.Only run own stats

variable {c : Runs} {printed : List RunId} {run : RunId} {own : Running} {stats : PipelineStats}

theorem Only.eq (h : c.Only run own stats) {run' : RunId} {own' : Running}
    (hrunning : c.running run' = some own') : run' = run ∧ own' = own := by
  rw [h.running, Function.update_apply] at hrunning
  split at hrunning
  · next heq =>
    cases hrunning
    exact ⟨heq, rfl⟩
  · cases hrunning

theorem Inv.only (h : c.Inv printed) {run' : RunId} {own' : Running}
    (hrunning : c.running run' = some own') : ∃ stats, c.Only run' own' stats := by
  rcases h.alone with hidle | ⟨run, own, stats, honly⟩
  · rw [hidle.running run'] at hrunning
    cases hrunning
  · obtain ⟨rfl, rfl⟩ := honly.eq hrunning
    exact ⟨stats, honly⟩

/-- What a call that neither starts nor ends a run needs to keep. -/
theorem Only.keep (h : c.Only run own stats) {s' : PapiState} {stats' : PipelineStats}
    (hlinked : s'.Linked [own.record]) (hcurrent : s'.Current own.record stats')
    (hshape : PipelineStats.SameShape stats stats')
    (hthread : s'.samplingThread = c.state.samplingThread) :
    Only { c with state := s' } run own stats' where
  running := h.running
  linked := hlinked
  current := hcurrent
  numFuncs := hshape.numFuncs.trans h.numFuncs
  numLoops := hshape.numLoops.trans h.numLoops
  runs := hshape.runs ▸ h.runs
  samplingThread := hthread.trans h.samplingThread
  owner := h.owner
  unended := h.unended

theorem step_eq {event : RunEvent} {answer : Answer} (h : c.state.answer event.op = some answer) :
    c.step event = some (c.after event answer, c.printed answer.effects) := by
  rw [step, h]
  rfl

/-- A start that succeeds while no run is in progress installs the only record. -/
theorem Idle.start (h : c.Idle) {a : StartArgs} {m : Mallocs} (hended : run ∉ c.ended)
    (hsucceeds : ∀ answer, c.state.pipelineStart a m = some answer → 0 ≤ answer.ret) :
    ∃ c', c.step (.start run a m) = some (c', []) ∧ c'.ended = c.ended ∧
      ∃ own stats, c'.Only run own stats := by
  have hstart := h.linked.pipelineStart (h.linked.not_names a) m
  cases hmalloc : c.state.malloc m with
  | none =>
    rw [hmalloc] at hstart
    exact absurd (hsucceeds _ hstart) (by simp)
  | some p =>
    rw [hmalloc] at hstart
    cases harrays : m.arrays a.numLoops with
    | false =>
      rw [harrays] at hstart
      exact absurd (hsucceeds _ hstart) (by simp)
    | true =>
      rw [harrays] at hstart
      have hret : 0 ≤ c.state.firstFreeId := hsucceeds _ hstart
      have hbegin : c.begin run a ⟨c.state.firstFreeId, c.state.install a p, [.papiHalideInitialize]⟩
          = { c with
              state := c.state.install a p
              running := Function.update c.running run
                (some ⟨c.state.firstFreeId, p, a.numFuncs, a.numLoops⟩)
              owner := Function.update c.owner p (some run) } := by
        simp [begin, PapiState.install, hret]
      have hrunning : c.running = fun _ => none := funext h.running
      have hanswer : c.state.answer (RunEvent.start run a m).op
          = some ⟨c.state.firstFreeId, c.state.install a p, [.papiHalideInitialize]⟩ := hstart
      refine ⟨_, step_eq hanswer, ?_⟩
      rw [after, hbegin, hrunning]
      refine ⟨rfl, _, _, rfl, ?_, PapiState.current_install c.state a p, rfl, rfl,
        Nat.one_ne_zero, rfl, Function.update_self .., hended⟩
      exact h.linked.install a (PapiState.malloc_eq_some hmalloc)

/-- The end of the only run prints its statistics and frees its record. -/
theorem Only.finish (h : c.Only run own stats) :
    ∃ c', c.step (.finish run) = some (c', [run]) ∧ c'.ended = run :: c.ended ∧ c'.Idle := by
  obtain ⟨s', hend, hemptied⟩ := h.linked.pipelineEnd h.samplingThread
  have hreport : c.state.report own.record = some (.report own.record stats) := by
    rw [PapiState.report, h.current.record]
    exact if_neg h.runs
  obtain ⟨effects, hanswer, hprinted⟩ : ∃ effects,
      c.state.answer (RunEvent.finish run).op = some ⟨0, s', effects⟩ ∧ c.printed effects = [run] :=
    ⟨_, hend, by simp [printed, hreport, h.owner]⟩
  refine ⟨c.after (.finish run) ⟨0, s', effects⟩, (step_eq hanswer).trans ?_, rfl, fun run' => ?_,
    hemptied.linked⟩
  · rw [hprinted]
  · rw [after, h.running, Function.update_idem]
    exact congrFun (Function.update_eq_self run (fun _ => none)) run'

/-- An answer that leaves the only run in progress and prints nothing. -/
theorem Inv.continue (h : c.Inv printed) {event : RunEvent} {answer : Answer}
    (hanswer : c.state.answer event.op = some answer) (hprints : c.printed answer.effects = [])
    (hafter : c.after event answer = { c with state := answer.state })
    (hown : c.MarksOwnRecord event { c with state := answer.state } [])
    (halone : ({ c with state := answer.state } : Runs).Idle ∨
      ∃ run own stats, ({ c with state := answer.state } : Runs).Only run own stats) :
    ∃ c' out, c.step event = some (c', out) ∧ c.MarksOwnRecord event c' out ∧
      c'.Inv (printed ++ out) := by
  refine ⟨{ c with state := answer.state }, [], (step_eq hanswer).trans ?_, hown, ?_⟩
  · rw [hprints, hafter]
  · rw [List.append_nil]
    exact ⟨h.count, halone⟩

/-- Only the record of the run is written. -/
theorem Only.marksOwnRecord (h : c.Only run own stats) {s' : PapiState}
    (hwrites : ∀ p, p ≠ own.record → s'.records[p]? = c.state.records[p]?) {own' : Running}
    (hrunning : c.running run = some own') :
    c.state.currentPipelineStats = some own'.record ∧ own'.record ∈ c.state.records ∧
      ∀ p, p ≠ own'.record → s'.records[p]? = c.state.records[p]? := by
  obtain ⟨_, rfl⟩ := h.eq hrunning
  exact ⟨h.current.current, PapiState.mem_iff_getElem?.mpr ⟨stats, h.current.record⟩, hwrites⟩

/-- One call of an interleaving without overlap. -/
theorem Inv.step (h : c.Inv printed) {event : RunEvent} (hwell : c.WellFormed event)
    (halone : c.StartsAlone event) :
    ∃ c' out, c.step event = some (c', out) ∧ c.MarksOwnRecord event c' out ∧
      c'.Inv (printed ++ out) := by
  cases event with
  | start run a m =>
    obtain ⟨_, hended, hsucceeds⟩ := hwell
    have hidle : c.Idle := by
      rcases h.alone with hidle | ⟨run', own, stats, honly⟩
      · exact hidle
      · have hsome : c.running run' = some own := by
          rw [honly.running, Function.update_self]
        rw [halone run'] at hsome
        cases hsome
    obtain ⟨c', hstep, hended', hnow⟩ := hidle.start hended hsucceeds
    obtain ⟨own, stats, honly⟩ := hnow
    refine ⟨c', [], hstep, trivial, ?_, Or.inr ⟨run, own, stats, honly⟩⟩
    rw [List.append_nil, hended']
    exact h.count
  | setCurrentFunc run tok t =>
    obtain ⟨own, hrunning, _⟩ := hwell
    obtain ⟨stats, honly⟩ := h.only hrunning
    refine h.continue rfl rfl rfl trivial (Or.inr ⟨run, own, stats, ?_⟩)
    exact honly.keep ⟨honly.linked.chain, honly.linked.mem⟩
      (honly.current.congr rfl rfl) ⟨rfl, rfl, rfl, rfl, rfl⟩ rfl
  | enter run r =>
    obtain ⟨own, hrunning, hr⟩ := hwell
    obtain ⟨stats, honly⟩ := h.only hrunning
    rw [← honly.numFuncs, ← honly.numLoops] at hr
    have hanswer := (PapiState.answer_enter c.state r).trans (honly.current.enter hr)
    refine h.continue hanswer rfl rfl (fun own' hown' => ?_) (Or.inr ⟨run, own, stats, ?_⟩)
    · exact honly.marksOwnRecord (fun _ _ => rfl) hown'
    · exact honly.keep ⟨honly.linked.chain, honly.linked.mem⟩
        (honly.current.congr rfl rfl) ⟨rfl, rfl, rfl, rfl, rfl⟩ rfl
  | leave run r thread =>
    obtain ⟨own, hrunning, hr⟩ := hwell
    obtain ⟨stats, honly⟩ := h.only hrunning
    rw [← honly.numFuncs, ← honly.numLoops] at hr
    obtain ⟨stats', hshape, hnext, hleave⟩ := honly.current.leave hr thread
    have hanswer := (PapiState.answer_leave c.state r thread).trans hleave
    refine h.continue hanswer rfl rfl (fun own' hown' => ?_) (Or.inr ⟨run, own, stats', ?_⟩)
    · refine honly.marksOwnRecord (fun p hne => ?_) hown'
      exact (PapiState.getElem?_write own.record p stats').trans (if_neg (Ne.symm hne))
    · have hlinked := honly.linked.write honly.current.record hnext
      exact honly.keep ⟨hlinked.chain, hlinked.mem⟩ ((honly.current.write hshape).congr rfl rfl)
        hshape rfl
  | finish run =>
    obtain ⟨own, hrunning⟩ := hwell
    obtain ⟨stats, honly⟩ := h.only hrunning
    obtain ⟨c', hstep, hended, hidle⟩ := honly.finish
    refine ⟨c', [run], hstep, trivial, fun run' => ?_, Or.inl hidle⟩
    rw [List.count_append, h.count, hended, List.count_singleton]
    by_cases heq : run = run'
    · rw [← heq, if_neg honly.unended]
      simp
    · simp [heq, Ne.symm heq]
  | sample funcId time activeThreads =>
    rcases h.alone with hidle | ⟨run, own, stats, honly⟩
    · obtain ⟨s', l', hbill, hlinked', hperm, _⟩ :=
        hidle.linked.billFunc funcId time activeThreads
      rw [List.perm_nil] at hperm
      exact h.continue hbill rfl rfl trivial (Or.inl ⟨hidle.running, hperm ▸ hlinked'⟩)
    · obtain ⟨s', l', stats', hbill, hglobals, hlinked', hperm, hcurrent, hshape⟩ :=
        honly.current.billFunc honly.linked funcId time activeThreads
      rw [List.perm_singleton] at hperm
      refine h.continue hbill rfl rfl trivial (Or.inr ⟨run, own, stats', ?_⟩)
      apply honly.keep (hperm ▸ hlinked') hcurrent hshape
      rw [hglobals]

theorem inv_initial : initial.Inv [] :=
  ⟨fun _ => rfl, Or.inl ⟨fun _ => rfl, PapiState.linked_initial⟩⟩

/-- Runs that do not overlap do not disturb each other. -/
theorem undisturbed_of_startsAlone {events : List RunEvent}
    (hwell : Admits step WellFormed initial events) (halone : Admits step StartsAlone initial events) :
    Undisturbed events := by
  have hboth := hwell.and halone
  have hstep : ∀ (c : Runs) printed event, c.Inv printed → c.WellFormed event ∧ c.StartsAlone event →
      ∃ c' out, c.step event = some (c', out) ∧ c.MarksOwnRecord event c' out ∧
        c'.Inv (printed ++ out) :=
    fun c printed event hinv hallowed => hinv.step hallowed.1 hallowed.2
  constructor
  · have halong := hboth.along (P := MarksOwnRecord) (fun c => ∃ printed, c.Inv printed)
      (fun c event hc hallowed => by
        obtain ⟨printed, hinv⟩ := hc
        obtain ⟨c', out, hanswer, hmarks, hinv'⟩ := hstep c printed event hinv hallowed
        exact ⟨c', out, hanswer, hmarks, _, hinv'⟩) ⟨[], inv_initial⟩
    exact halong.mono fun _ _ _ _ hp => hp.1
  · intro before hbefore
    obtain ⟨rest, rfl⟩ := hbefore
    obtain ⟨c, printed, hrun, hinv⟩ := hboth.append.1.run Inv
      (fun c printed event hinv hallowed => by
        obtain ⟨c', out, hanswer, _, hinv'⟩ := hstep c printed event hinv hallowed
        exact ⟨c', out, hanswer, hinv'⟩) inv_initial
    exact ⟨c, printed, hrun, hinv.count⟩

def startAt (run : RunId) (pipelineName p : Ptr) : RunEvent :=
  .start run (PapiState.oneFunc pipelineName) ⟨some p, true, true⟩

/-- Two runs of different pipelines, with a sample in the second. -/
def oneAfterTheOther : List RunEvent :=
  [startAt 1 7 1, .enter 1 (.func 0 true), .leave 1 (.func 0 true) 0, .finish 1,
    startAt 2 8 2, .sample 0 5 1, .enter 2 (.func 0 true), .leave 2 (.func 0 true) 3, .finish 2]

theorem undisturbed_oneAfterTheOther : Undisturbed oneAfterTheOther := by
  refine undisturbed_of_startsAlone ?_ ?_
  · refine .cons ⟨rfl, by decide, fun answer hanswer => ?_⟩ rfl ?_
    · cases hanswer
      decide
    refine .cons ⟨_, rfl, by decide⟩ rfl ?_
    refine .cons ⟨_, rfl, by decide⟩ rfl ?_
    refine .cons ⟨_, rfl⟩ rfl ?_
    refine .cons ⟨rfl, by decide, fun answer hanswer => ?_⟩ rfl ?_
    · cases hanswer
      decide
    refine .cons trivial rfl ?_
    refine .cons ⟨_, rfl, by decide⟩ rfl ?_
    refine .cons ⟨_, rfl, by decide⟩ rfl ?_
    exact .cons ⟨_, rfl⟩ rfl trivial
  · refine .cons (fun _ => rfl) rfl ?_
    refine .cons trivial rfl (.cons trivial rfl (.cons trivial rfl ?_))
    refine .cons (fun run => ?_) rfl ?_
    · by_cases hfirst : run = 1
      · rw [hfirst]
        rfl
      · refine (Function.update_of_ne hfirst _ _ : Function.update _ _ _ run = _).trans ?_
        exact Function.update_of_ne hfirst _ _
    exact .cons trivial rfl (.cons trivial rfl (.cons trivial rfl (.cons trivial rfl trivial)))

/-- Of two runs that overlap, the first is marked in the record of the second. -/
theorem not_undisturbed_overlap :
    ¬ ∀ events, Admits step WellFormed initial events → Undisturbed events := by
  intro h
  have hwell : Admits step WellFormed initial
      [startAt 1 7 1, startAt 2 8 2, .enter 1 (.func 0 true)] := by
    refine ⟨⟨rfl, by decide, ?_⟩, fun c₁ out₁ h₁ => ?_⟩
    · intro answer hanswer
      cases hanswer
      decide
    · cases h₁
      refine ⟨⟨rfl, by decide, ?_⟩, fun c₂ out₂ h₂ => ?_⟩
      · intro answer hanswer
        cases hanswer
        decide
      · cases h₂
        exact ⟨⟨_, rfl, by decide⟩, fun _ _ _ => trivial⟩
  obtain ⟨c₁, out₁, h₁, _, c₂, out₂, h₂, _, c₃, out₃, h₃, hmarks, _⟩ := (h _ hwell).1
  cases h₁
  cases h₂
  cases (hmarks _ rfl).1

end Runs

end ProfHalide
