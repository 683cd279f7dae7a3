import ProfHalide.Runtime.Markers
import Mathlib.Data.Prod.Basic

/-!
# Workers of a parallel loop

The thread that measures a region pauses and launches workers, which take part in the measurement from
their first call to their last and may step aside to measure regions of their own. What a worker
measures is its own affair, but where its last call notes it is read from globals that every marker of
every worker sets: the note goes to the worker's region exactly if the last marker of all was an entry
of that region.
-/

namespace ProfHalide

open Std Machine

inductive WorkerCall where
  | incrActiveThreads
  | enter (r : Region)
  | leave (r : Region)
  | decrActiveThreads
  deriving DecidableEq, Repr

def WorkerCall.op (thread : ThreadIndex) : WorkerCall → Op
  | .incrActiveThreads => .incrActiveThreads
  | .enter r => .enter r
  | .leave r => .leave r thread
  | .decrActiveThreads => .decrActiveThreads thread

/-- How far a worker is with its calls. -/
inductive WorkerStatus where
  | ready
  /-- It measures the region that the loop runs in. -/
  | outer
  /-- It has left that region for one of its own. -/
  | aside
  | inner (r : Region)
  /-- It has left its own region. -/
  | back
  | finished
  deriving DecidableEq, Repr

namespace WorkerStatus

/-- The calls of a worker, in the order in which it may make them. -/
def next (outerRegion : Region) : WorkerStatus → WorkerCall → Option WorkerStatus
  | .ready, .incrActiveThreads => some .outer
  | .outer, .leave r => if r = outerRegion then some .aside else none
  | .aside, .enter r => some (.inner r)
  | .inner r, .leave r' => if r' = r then some .back else none
  | .back, .enter r => if r = outerRegion then some .outer else none
  | .outer, .decrActiveThreads => some .finished
  | _, _ => none

/-- The region that a worker is in. -/
def region (outerRegion : Region) : WorkerStatus → Option Region
  | .outer => some outerRegion
  | .inner r => some r
  | _ => none

end WorkerStatus

/-- The workers `W`, and what they share. -/
structure Workers (W : Type) where
  state : PapiState
  status : W → WorkerStatus

namespace Workers

variable {W : Type} [DecidableEq W]

def after (outerRegion : Region) (c : Workers W) (e : W × WorkerCall) (state : PapiState) :
    Workers W where
  state := state
  status := Function.update c.status e.1
    (((c.status e.1).next outerRegion e.2).getD (c.status e.1))

/-- One call of one worker. -/
def step (thread : W → ThreadIndex) (outerRegion : Region) (c : Workers W) (e : W × WorkerCall) :
    Option (Workers W × List Effect) :=
  (c.state.answer (e.2.op (thread e.1))).map fun answer =>
    (c.after outerRegion e answer.state, answer.effects)

/-- A call that is the worker's turn to make, for a region of the pipeline. -/
def WellFormed (outerRegion : Region) (numFuncs numLoops : Int) (c : Workers W)
    (e : W × WorkerCall) : Prop :=
  ((c.status e.1).next outerRegion e.2).isSome ∧
    ∀ r, e.2 = .enter r ∨ e.2 = .leave r → r.InRange numFuncs numLoops

/-- The last call of a worker stops its measurement, for the region the worker is in, at its own thread
index. -/
def StopsOwnRegion (thread : W → ThreadIndex) (outerRegion : Region) (p : Ptr) (c : Workers W)
    (e : W × WorkerCall) (_ : Workers W) (out : List Effect) : Prop :=
  e.2 = .decrActiveThreads → ∃ r, (c.status e.1).region outerRegion = some r ∧
    out = [.markerStop (.of p r) (thread e.1), .stopThread]

/-- The region entered by the last marker of all, if that was an entry. -/
def lastEntered (last : Option Region) : WorkerCall → Option Region
  | .enter r => some r
  | .leave _ => none
  | _ => last

/-- Whenever a worker makes its last call, the last marker of all was an entry of this region. -/
def StopsWhileEntered (outerRegion : Region) : Option Region → List (W × WorkerCall) → Prop
  | _, [] => True
  | last, (_, call) :: rest =>
      (call = .decrActiveThreads → last = some outerRegion) ∧
      StopsWhileEntered outerRegion (lastEntered last call) rest

/-- The thread that launches the workers measures the region, and pauses. -/
def launch (s : PapiState) (outerRegion : Region) (main : ThreadIndex) :
    Option (PapiState × List Effect) :=
  run PapiState.step s [.enter outerRegion, .decrActiveThreads main, .enterParallelRegion]

variable {s : PapiState} {p : Ptr} {numFuncs numLoops : Int} {last : Option Region}

theorem step_eq (thread : W → ThreadIndex) {outerRegion : Region} {c : Workers W} {e : W × WorkerCall}
    {answer : Answer} (h : c.state.answer (e.2.op (thread e.1)) = some answer) :
    step thread outerRegion c e
      = some (c.after outerRegion e answer.state, answer.effects) := by
  rw [step, h]
  rfl

/-- One call of a worker: always answered, and noted as it should be if it is a last call while the
outer region was entered last. -/
theorem step_spec (thread : W → ThreadIndex) {outerRegion : Region} {c : Workers W}
    (h : c.state.Follows p numFuncs numLoops last) {e : W × WorkerCall}
    (hwell : c.WellFormed outerRegion numFuncs numLoops e) :
    ∃ c' out, step thread outerRegion c e = some (c', out) ∧
      c'.state.Follows p numFuncs numLoops (lastEntered last e.2) ∧
      (StopsOwnRegion thread outerRegion p c e c' out ↔
        (e.2 = .decrActiveThreads → last = some outerRegion)) := by
  obtain ⟨w, call⟩ := e
  obtain ⟨hturn, hrange⟩ := hwell
  cases call with
  | incrActiveThreads =>
    exact ⟨_, _, step_eq thread rfl, h.congr rfl rfl rfl rfl, ⟨fun _ => nofun, fun _ => nofun⟩⟩
  | enter r =>
    obtain ⟨s', henter, hfollows, _⟩ := h.enter (hrange r (Or.inl rfl))
    have hanswer := (PapiState.answer_enter c.state r).trans henter
    exact ⟨_, _, step_eq thread hanswer, hfollows, ⟨fun _ => nofun, fun _ => nofun⟩⟩
  | leave r =>
    obtain ⟨s', hleave, hfollows, _⟩ := h.leave (hrange r (Or.inr rfl)) (thread w)
    have hanswer := (PapiState.answer_leave c.state r (thread w)).trans hleave
    exact ⟨_, _, step_eq thread hanswer, hfollows, ⟨fun _ => nofun, fun _ => nofun⟩⟩
  | decrActiveThreads =>
    obtain ⟨s', hdecr, hfollows, _⟩ := h.decrActiveThreads (thread w)
    have hregion : (c.status w).region outerRegion = some outerRegion := by
      cases hstatus : c.status w with
      | outer => rfl
      | _ =>
        rw [hstatus] at hturn
        cases hturn
    refine ⟨_, _, step_eq thread hdecr, hfollows, fun hstops _ => ?_, fun hlast _ => ?_⟩
    · obtain ⟨r, hr, hout⟩ := hstops rfl
      rw [hregion] at hr
      cases hr
      cases last with
      | none => cases hout
      | some r =>
        cases hout
        rfl
    · refine ⟨outerRegion, hregion, ?_⟩
      rw [hlast rfl]
      rfl

theorem along_iff (thread : W → ThreadIndex) {outerRegion : Region} {c : Workers W}
    (h : c.state.Follows p numFuncs numLoops last) {events : List (W × WorkerCall)}
    (hevents : Admits (step thread outerRegion) (WellFormed outerRegion numFuncs numLoops) c events) :
    Along (step thread outerRegion) (StopsOwnRegion thread outerRegion p) c events ↔
      StopsWhileEntered outerRegion last events := by
  induction events generalizing c last with
  | nil => exact Iff.rfl
  | cons e events ih =>
    obtain ⟨hwell, hrest⟩ := hevents
    obtain ⟨c', out, hstep, hfollows, hstops⟩ := step_spec thread h hwell
    have hlater := ih hfollows (hrest c' out hstep)
    constructor
    · intro halong
      obtain ⟨c₁, out₁, hstep₁, hstops₁, halong₁⟩ := halong
      rw [hstep] at hstep₁
      cases hstep₁
      exact ⟨hstops.mp hstops₁, hlater.mp halong₁⟩
    · intro hentered
      exact ⟨c', out, hstep, hstops.mpr hentered.1, hlater.mpr hentered.2⟩

/-- The thread that launches the workers leaves the globals at its region. -/
theorem launch_follows {stats : PipelineStats} (hcurrent : s.Current p stats) {outerRegion : Region}
    (hregion : outerRegion.InRange stats.numFuncs stats.numLoops) (main : ThreadIndex) :
    ∃ s' effects, launch s outerRegion main = some (s', effects) ∧
      s'.Follows p stats.numFuncs stats.numLoops (some outerRegion) := by
  have hentered : (s.entered p outerRegion).Follows p stats.numFuncs stats.numLoops
      (some outerRegion) := by
    refine ⟨⟨stats, hcurrent.congr rfl rfl, rfl, rfl⟩, fun r heq => ?_, nofun⟩
    cases heq
    exact ⟨⟨rfl, rfl⟩, hregion⟩
  obtain ⟨s', hdecr, hfollows, _⟩ := hentered.decrActiveThreads main
  have henter : s.step (.enter outerRegion) = some (s.entered p outerRegion, [.markerStart]) := by
    rw [PapiState.step, PapiState.answer_enter, hcurrent.enter hregion]
    rfl
  have hpause : (s.entered p outerRegion).step (.decrActiveThreads main)
      = some (s', [.markerStop (.of p outerRegion) main, .stopThread]) := by
    rw [PapiState.step, PapiState.answer, hdecr]
    rfl
  refine ⟨s', [.markerStart, .markerStop (.of p outerRegion) main, .stopThread, .enterParallelRegion],
    ?_, hfollows⟩
  rw [launch, run_cons henter, run_cons hpause]
  rfl

/-- Every worker that stops is noted for its own region exactly if, whenever one does, the last marker of
all workers was an entry of that region. -/
theorem stopsOwnRegion_iff {stats : PipelineStats} (hcurrent : s.Current p stats)
    {outerRegion : Region} (hregion : outerRegion.InRange stats.numFuncs stats.numLoops)
    {main : ThreadIndex} {s' : PapiState} {effects : List Effect}
    (hlaunch : launch s outerRegion main = some (s', effects)) (thread : W → ThreadIndex)
    {events : List (W × WorkerCall)}
    (hevents : Admits (step thread outerRegion)
      (WellFormed outerRegion stats.numFuncs stats.numLoops) ⟨s', fun _ => .ready⟩ events) :
    Along (step thread outerRegion) (StopsOwnRegion thread outerRegion p) ⟨s', fun _ => .ready⟩ events ↔
      StopsWhileEntered outerRegion (some outerRegion) events := by
  obtain ⟨s₁, effects₁, hlaunch₁, hfollows⟩ := launch_follows hcurrent hregion main
  rw [hlaunch] at hlaunch₁
  cases hlaunch₁
  exact along_iff thread hfollows hevents

/-- A pipeline of one func, about to measure it. -/
def oneFuncStarted : PapiState := PapiState.initial.install (PapiState.oneFunc 7) 1

theorem oneFuncStarted_current :
    oneFuncStarted.Current 1 ((PapiState.oneFunc 7).pipelineStats none 0) :=
  PapiState.current_install _ _ _

omit [DecidableEq W] in
theorem wellFormed_enter {outerRegion r : Region} {numFuncs numLoops : Int} {c : Workers W} {worker : W}
    (hnext : ((c.status worker).next outerRegion (.enter r)).isSome) (hr : r.InRange numFuncs numLoops) :
    WellFormed outerRegion numFuncs numLoops c (worker, .enter r) := by
  refine ⟨hnext, fun r' hr' => ?_⟩
  rcases hr' with hr' | hr' <;> cases hr'
  exact hr

omit [DecidableEq W] in
theorem wellFormed_leave {outerRegion r : Region} {numFuncs numLoops : Int} {c : Workers W} {worker : W}
    (hnext : ((c.status worker).next outerRegion (.leave r)).isSome) (hr : r.InRange numFuncs numLoops) :
    WellFormed outerRegion numFuncs numLoops c (worker, .leave r) := by
  refine ⟨hnext, fun r' hr' => ?_⟩
  rcases hr' with hr' | hr' <;> cases hr'
  exact hr

def twoThreads (worker : Bool) : ThreadIndex := if worker then 1 else 2

/-- One worker measures a region of its own and comes back, before the other stops. -/
def turns : List (Bool × WorkerCall) :=
  [(true, .incrActiveThreads), (false, .incrActiveThreads), (true, .leave (.overhead 0)),
    (true, .enter (.func 0 true)), (true, .leave (.func 0 true)), (true, .enter (.overhead 0)),
    (false, .decrActiveThreads), (true, .decrActiveThreads)]

theorem stopsOwnRegion_iff_turns : ∃ s' effects,
    launch oneFuncStarted (.overhead 0) 0 = some (s', effects) ∧
      (Along (step twoThreads (.overhead 0)) (StopsOwnRegion twoThreads (.overhead 0) 1)
        ⟨s', fun _ => .ready⟩ turns ↔
      StopsWhileEntered (.overhead 0) (some (.overhead 0)) turns) := by
  refine ⟨_, _, rfl, stopsOwnRegion_iff oneFuncStarted_current (by decide) rfl _ ?_⟩
  refine .cons ⟨rfl, nofun⟩ rfl (.cons ⟨rfl, nofun⟩ rfl ?_)
  refine .cons (wellFormed_leave rfl (by decide)) rfl (.cons (wellFormed_enter rfl (by decide)) rfl ?_)
  refine .cons (wellFormed_leave rfl (by decide)) rfl (.cons (wellFormed_enter rfl (by decide)) rfl ?_)
  exact .cons ⟨rfl, nofun⟩ rfl (.cons ⟨rfl, nofun⟩ rfl trivial)

/-- One worker steps aside, and the other stops. -/
def lostStop : List (Bool × WorkerCall) :=
  [(true, .incrActiveThreads), (false, .incrActiveThreads), (false, .leave (.overhead 0)),
    (true, .decrActiveThreads)]

theorem not_stopsOwnRegion_lostStop :
    ¬ ∀ s' effects events, launch oneFuncStarted (.overhead 0) 0 = some (s', effects) →
      Admits (step twoThreads (.overhead 0)) (WellFormed (.overhead 0) 1 0) ⟨s', fun _ => .ready⟩
        events →
      Along (step twoThreads (.overhead 0)) (StopsOwnRegion twoThreads (.overhead 0) 1)
        ⟨s', fun _ => .ready⟩ events := by
  intro h
  obtain ⟨c₁, out₁, h₁, _, c₂, out₂, h₂, _, c₃, out₃, h₃, _, c₄, out₄, h₄, hstops, _⟩ :=
    h _ _ lostStop rfl (by
      refine .cons ⟨rfl, nofun⟩ rfl (.cons ⟨rfl, nofun⟩ rfl ?_)
      exact .cons (wellFormed_leave rfl (by decide)) rfl (.cons ⟨rfl, nofun⟩ rfl trivial))
  cases h₁
  cases h₂
  cases h₃
  cases h₄
  obtain ⟨r, _, hout⟩ := hstops rfl
  cases hout

end Workers

end ProfHalide
