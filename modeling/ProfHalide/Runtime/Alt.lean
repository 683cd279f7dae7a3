import ProfHalide.Runtime.Workers

/-!
# The alternative runtime

`papi_profiler_alt.cpp` stops a measurement at the counters that the last marker of all entered, where
the runtime stops it at those of the region that is left. All other calls are the same. The two measure
the same exactly if a thread never leaves a region but the one that was entered last.
-/

namespace ProfHalide

open Std Machine

namespace PapiState

section

variable (s : PapiState)

/-- Leaving a region. `current_counters` and `current_counter_used` point at the same arrays as
`last_counters` and `last_counters_used`, whose place they take. -/
def leaveAlt (r : Region) (thread : ThreadIndex) : Option Answer := do
  let (p, stats, c) ← s.currentCounters r
  if c.iterations % PROFILE_GRANULARITY = 0 then
    -- With no pointer, the measurement stops at memory that is not there.
    let counters ← s.lastCounters
    let used ← s.lastCountersUsed
    let marked ← s.markUsed used thread
    let stats ← marked.records[p]?
    let stats := stats.modifyCounters r fun c => { c with iterations := c.iterations + 1 }
    return { ret := 0,
             state := { marked.write p stats with lastCounters := none },
             effects := [.markerStop counters thread] }
  else
    let stats := stats.modifyCounters r fun c => { c with iterations := c.iterations + 1 }
    return { ret := 0, state := s.write p stats, effects := [] }

def leaveCurrentFuncAlt (t : Int) (isProducer : Bool) := s.leaveAlt (.func t isProducer)
def leaveLoopAlt (id : Int) := s.leaveAlt (.loop id)
def leaveOverheadRegionAlt (t : Int) := s.leaveAlt (.overhead t)

def answerAlt : Op → Option Answer
  | .leaveCurrentFunc t isProducer thread => s.leaveCurrentFuncAlt t isProducer thread
  | .leaveOverheadRegion t thread => s.leaveOverheadRegionAlt t thread
  | .leaveLoop id thread => s.leaveLoopAlt id thread
  | op => s.answer op

def stepAlt (op : Op) : Option (PapiState × List Effect) :=
  (s.answerAlt op).map fun answer => (answer.state, answer.effects)

end

/-- Both runtimes carry out the calls, start and stop the same measurements at the same counters, and
leave the same records. -/
def SameMeasurements (s t : PapiState) (ops : List Op) : Prop :=
  ∃ s' t' out, run step s ops = some (s', out) ∧ run stepAlt t ops = some (t', out) ∧
    ∀ p : Ptr, t'.records[p]? = s'.records[p]?

variable {W : Type} {s t : PapiState} {p : Ptr} {numFuncs numLoops : Int} {last : Option Region}
  {r : Region}

/-- Whenever a thread leaves a region, that region was entered last, and not left since. -/
def LeavesEntered : Option Region → List (W × WorkerCall) → Prop
  | _, [] => True
  | last, (_, call) :: rest =>
      (∀ r, call = .leave r → last = some r) ∧ LeavesEntered (Workers.lastEntered last call) rest

/-- The calls of a thread: regions one after the other, and any counting of threads. -/
def Flat : Option Region → List WorkerCall → Prop
  | _, [] => True
  | none, .enter r :: calls => Flat (some r) calls
  | some r, .leave r' :: calls => r' = r ∧ Flat none calls
  | measured, .incrActiveThreads :: calls | measured, .decrActiveThreads :: calls => Flat measured calls
  | _, _ => False

/-! ### One call -/

@[simp] theorem answerAlt_enter (s : PapiState) (r : Region) : s.answerAlt (.enter r) = s.enter r := by
  cases r <;> rfl

@[simp] theorem answerAlt_leave (s : PapiState) (r : Region) (thread : ThreadIndex) :
    s.answerAlt (.leave r thread) = s.leaveAlt r thread := by
  cases r <;> rfl

theorem Current.leaveAlt_none {stats : PipelineStats} (h : s.Current p stats)
    (hr : r.InRange stats.numFuncs stats.numLoops) (hnone : s.lastCounters = none)
    (thread : ThreadIndex) : s.leaveAlt r thread = none := by
  obtain ⟨c, hc⟩ := h.currentCounters hr
  rw [leaveAlt, hc]
  simp [PROFILE_GRANULARITY, Nat.mod_one, hnone]

/-- Where the region that is left was entered last, the two do the same. -/
theorem Current.leaveAlt_eq {stats : PipelineStats} (h : s.Current p stats)
    (haims : s.lastCounters = some (.of p r) ∧ s.lastCountersUsed = some (.of p r))
    (hr : r.InRange stats.numFuncs stats.numLoops) (thread : ThreadIndex) :
    ∃ s', s.leaveAlt r thread = some ⟨0, s', [.markerStop (.of p r) thread]⟩ ∧
      s' = { s with records := s'.records, lastCounters := none } ∧
      ∀ q : Ptr, s'.records[q]?
        = (s.write p (stats.modifyCounters r (Counters.left thread))).records[q]? := by
  obtain ⟨c, hc⟩ := h.currentCounters hr
  have hcounters : stats.counters r ≠ none := by
    rw [← Option.isSome_iff_ne_none, h.sized.counters_isSome_iff]
    exact hr
  obtain ⟨c', hc'⟩ := Option.ne_none_iff_exists'.mp hcounters
  let marked := stats.modifyCounters r (·.markUsed thread)
  let stats' := marked.modifyCounters r fun c => { c with iterations := c.iterations + 1 }
  have hmarked : (s.write p marked).records[p]? = some marked :=
    (getElem?_write p p marked).trans (if_pos rfl)
  have hmark : s.markUsed (.of p r) thread = some (s.write p marked) := by
    rw [markUsed, h.record]
    simp [hc', marked]
  refine ⟨{ (s.write p marked).write p stats' with lastCounters := none }, ?_, rfl, fun q => ?_⟩
  · rw [leaveAlt, hc]
    simp only [Option.bind_eq_bind, Option.bind_some, PROFILE_GRANULARITY, Nat.mod_one, if_true,
      haims.1, haims.2, hmark, hmarked]
    rfl
  · have hboth : stats' = stats.modifyCounters r (Counters.left thread) :=
      stats.modifyCounters_modifyCounters r _ _
    apply (getElem?_write (s := s.write p marked) p q stats').trans
    rw [getElem?_write, getElem?_write, hboth]
    split <;> rfl

/-- A region that was not entered last is left at the counters of another one, or at none. -/
theorem Follows.leaveAlt_ne (h : s.Follows p numFuncs numLoops last) (hr : r.InRange numFuncs numLoops)
    (hne : last ≠ some r) {thread : ThreadIndex} {answer : Answer}
    (hleave : s.leaveAlt r thread = some answer) :
    ∃ r', r' ≠ r ∧ answer.effects = [.markerStop (.of p r') thread] := by
  obtain ⟨stats, hcurrent, rfl, rfl⟩ := h.current
  cases last with
  | none =>
    rw [hcurrent.leaveAlt_none hr (h.left rfl)] at hleave
    cases hleave
  | some r' =>
    obtain ⟨c, hc⟩ := hcurrent.currentCounters hr
    obtain ⟨⟨hcounters, hused⟩, _⟩ := h.entered r' rfl
    refine ⟨r', fun heq => hne (congrArg some heq), ?_⟩
    rw [leaveAlt, hc] at hleave
    simp only [Option.bind_eq_bind, Option.bind_some, PROFILE_GRANULARITY, Nat.mod_one, if_true,
      hcounters, hused] at hleave
    obtain ⟨marked, _, hrest⟩ := Option.bind_eq_some_iff.mp hleave
    obtain ⟨_, _, heq⟩ := Option.bind_eq_some_iff.mp hrest
    cases heq
    rfl

/-- The same globals, and the same records at every address. -/
structure Twin (s t : PapiState) : Prop where
  globals : t = { s with records := t.records }
  records : ∀ p : Ptr, t.records[p]? = s.records[p]?

theorem Twin.refl (s : PapiState) : Twin s s := ⟨rfl, fun _ => rfl⟩

theorem Twin.current (h : Twin s t) {stats : PipelineStats} (hs : s.Current p stats) :
    t.Current p stats := by
  refine ⟨?_, (h.records p).trans hs.record, hs.sized⟩
  rw [h.globals]
  exact hs.current

theorem Twin.lastCounters (h : Twin s t) :
    t.lastCounters = s.lastCounters ∧ t.lastCountersUsed = s.lastCountersUsed := by
  rw [h.globals]
  exact ⟨rfl, rfl⟩

/-- A change to the globals. -/
theorem Twin.map (h : Twin s t) (f : PapiState → PapiState)
    (hf : ∀ (s : PapiState) records, f { s with records := records } = { f s with records := records }) :
    Twin (f s) (f t) := by
  have hkeeps : ∀ s : PapiState, (f s).records = s.records := by
    intro s
    have heq := hf s s.records
    rw [heq]
  refine ⟨?_, fun p => ?_⟩
  · conv_lhs => rw [h.globals]
    rw [hf, hkeeps]
  · rw [hkeeps, hkeeps]
    exact h.records p

theorem Twin.write (h : Twin s t) (p : Ptr) (stats : PipelineStats) :
    Twin (s.write p stats) (t.write p stats) := by
  refine ⟨?_, fun q => ?_⟩
  · rw [h.globals]
    rfl
  · rw [getElem?_write, getElem?_write, h.records]

/-- What becomes of two states that are alike when a thread makes a call. -/
structure StepsAlike (s t : PapiState) (op : Op) (s' : PapiState) (out : List Effect) : Prop where
  step : s.step op = some (s', out)
  alt : ∃ t', t.stepAlt op = some (t', out) ∧ Twin s' t'

theorem Twin.enter (h : Twin s t) (hs : s.Follows p numFuncs numLoops last)
    (hr : r.InRange numFuncs numLoops) :
    ∃ s' out, StepsAlike s t (.enter r) s' out ∧ s'.Follows p numFuncs numLoops (some r) := by
  obtain ⟨stats, hcurrent, rfl, rfl⟩ := hs.current
  obtain ⟨s', henter, hfollows, _⟩ := hs.enter hr
  have heq := hcurrent.enter hr
  rw [henter] at heq
  cases heq
  refine ⟨s.entered p r, [.markerStart], ⟨?_, t.entered p r, ?_, ?_⟩, hfollows⟩
  · rw [PapiState.step, answer_enter, henter]
    rfl
  · rw [stepAlt, answerAlt_enter, (h.current hcurrent).enter hr]
    rfl
  · exact h.map (·.entered p r) fun _ _ => rfl

theorem Twin.leave (h : Twin s t) (hs : s.Follows p numFuncs numLoops (some r))
    (hr : r.InRange numFuncs numLoops) (thread : ThreadIndex) :
    ∃ s' out, StepsAlike s t (.leave r thread) s' out ∧ s'.Follows p numFuncs numLoops none := by
  obtain ⟨stats, hcurrent, rfl, rfl⟩ := hs.current
  obtain ⟨s', hleave, hfollows, _⟩ := hs.leave hr thread
  have heq := hcurrent.leave_eq hr thread
  rw [hleave] at heq
  cases heq
  have haims := (hs.entered r rfl).1
  rw [← h.lastCounters.1, ← h.lastCounters.2] at haims
  obtain ⟨t', halt, hglobals, hrecords⟩ := (h.current hcurrent).leaveAlt_eq haims hr thread
  have hwritten := h.write p (stats.modifyCounters r (Counters.left thread))
  refine ⟨_, [.markerStop (.of p r) thread], ⟨?_, t', ?_, ?_, fun q => ?_⟩, hfollows⟩
  · rw [PapiState.step, answer_leave, hleave]
    rfl
  · rw [stepAlt, answerAlt_leave, halt]
    rfl
  · rw [hglobals, h.globals]
    rfl
  · exact (hrecords q).trans (hwritten.records q)

theorem Twin.decrActiveThreads (h : Twin s t) (hs : s.Follows p numFuncs numLoops last)
    (thread : ThreadIndex) :
    ∃ s' out, StepsAlike s t (.decrActiveThreads thread) s' out ∧
      s'.Follows p numFuncs numLoops last := by
  obtain ⟨s', hdecr, hfollows, _⟩ := hs.decrActiveThreads thread
  have hactive : t.activeThreads = s.activeThreads := by rw [h.globals]
  have hanswer : t.answerAlt (.decrActiveThreads thread) = t.decrActiveThreads thread := rfl
  cases last with
  | none =>
    have hnone := hs.left rfl
    have heq := decrActiveThreads_none hnone thread
    rw [hdecr] at heq
    cases heq
    rw [← h.lastCounters.1] at hnone
    refine ⟨_, [.stopThread], ⟨?_, { t with activeThreads := s.activeThreads - 1 }, ?_, ?_⟩, hfollows⟩
    · rw [PapiState.step, answer, hdecr]
      rfl
    · rw [stepAlt, hanswer, decrActiveThreads_none hnone, hactive]
      rfl
    · exact h.map (fun u => { u with activeThreads := s.activeThreads - 1 }) fun _ _ => rfl
  | some r =>
    obtain ⟨haims, hr⟩ := hs.entered r rfl
    obtain ⟨stats, hcurrent, rfl, rfl⟩ := hs.current
    have heq := hcurrent.decrActiveThreads_eq haims hr thread
    rw [hdecr] at heq
    cases heq
    rw [← h.lastCounters.1, ← h.lastCounters.2] at haims
    let stats' := stats.modifyCounters r (·.markUsed thread)
    refine ⟨_, [.markerStop (.of p r) thread, .stopThread],
      ⟨?_, { t.write p stats' with activeThreads := s.activeThreads - 1 }, ?_, ?_⟩, hfollows⟩
    · rw [PapiState.step, answer, hdecr]
      rfl
    · rw [stepAlt, hanswer, (h.current hcurrent).decrActiveThreads_eq haims hr, hactive]
      rfl
    · exact (h.write p stats').map (fun u => { u with activeThreads := s.activeThreads - 1 })
        fun _ _ => rfl

theorem Twin.incrActiveThreads (h : Twin s t) (hs : s.Follows p numFuncs numLoops last) :
    ∃ s' out, StepsAlike s t .incrActiveThreads s' out ∧ s'.Follows p numFuncs numLoops last := by
  have hactive : t.activeThreads = s.activeThreads := by rw [h.globals]
  refine ⟨{ s with activeThreads := s.activeThreads + 1 }, [.startThread],
    ⟨rfl, { t with activeThreads := s.activeThreads + 1 }, ?_, ?_⟩, hs.congr rfl rfl rfl rfl⟩
  · rw [← hactive]
    rfl
  · exact h.map (fun u => { u with activeThreads := s.activeThreads + 1 }) fun _ _ => rfl

/-! ### All calls -/

/-- A call that leaves no region but the one entered last. -/
theorem Twin.call (h : Twin s t) (hs : s.Follows p numFuncs numLoops last) (call : WorkerCall)
    (hrange : ∀ r, call = .enter r ∨ call = .leave r → r.InRange numFuncs numLoops)
    (hentered : ∀ r, call = .leave r → last = some r) (thread : ThreadIndex) :
    ∃ s' out, StepsAlike s t (call.op thread) s' out ∧
      s'.Follows p numFuncs numLoops (Workers.lastEntered last call) := by
  cases call with
  | incrActiveThreads => exact h.incrActiveThreads hs
  | enter r => exact h.enter hs (hrange r (Or.inl rfl))
  | leave r =>
    rw [hentered r rfl] at hs
    exact h.leave hs (hrange r (Or.inr rfl)) thread
  | decrActiveThreads => exact h.decrActiveThreads hs thread

theorem sameMeasurements_cons_iff {op : Op} {s' t' : PapiState} {out : List Effect}
    (hs : s.step op = some (s', out)) (ht : t.stepAlt op = some (t', out)) (ops : List Op) :
    SameMeasurements s t (op :: ops) ↔ SameMeasurements s' t' ops := by
  constructor
  · intro h
    obtain ⟨s₂, t₂, out₂, hrun, halt, hrecords⟩ := h
    obtain ⟨s₁, out₁, out₃, hstep, hrest, rfl⟩ := run_cons_eq_some hrun
    obtain ⟨t₁, out₁', out₃', hstep', hrest', heq⟩ := run_cons_eq_some halt
    rw [hs] at hstep
    cases hstep
    rw [ht] at hstep'
    cases hstep'
    have hout := List.append_cancel_left heq
    exact ⟨s₂, t₂, out₃, hrest, hout ▸ hrest', hrecords⟩
  · intro h
    obtain ⟨s₂, t₂, out₂, hrun, halt, hrecords⟩ := h
    refine ⟨s₂, t₂, out ++ out₂, ?_, ?_, hrecords⟩
    · rw [run_cons hs, hrun]
      rfl
    · rw [run_cons ht, halt]
      rfl

/-- A region that was not entered last is left at different counters. -/
theorem Follows.not_sameMeasurements (hs : s.Follows p numFuncs numLoops last)
    (ht : t.Follows p numFuncs numLoops last) (hr : r.InRange numFuncs numLoops)
    (hne : last ≠ some r) (thread : ThreadIndex) (ops : List Op) :
    ¬ SameMeasurements s t (.leave r thread :: ops) := by
  intro h
  obtain ⟨s₂, t₂, out₂, hrun, halt, _⟩ := h
  obtain ⟨s₁, out₁, out₃, hstep, _, rfl⟩ := run_cons_eq_some hrun
  obtain ⟨t₁, out₁', out₃', hstep', _, heq⟩ := run_cons_eq_some halt
  obtain ⟨s', hleave, _⟩ := hs.leave hr thread
  rw [PapiState.step, answer_leave, hleave] at hstep
  cases hstep
  rw [stepAlt, answerAlt_leave] at hstep'
  obtain ⟨answer, hanswer, heq'⟩ := Option.map_eq_some_iff.mp hstep'
  obtain ⟨r', hr', heffects⟩ := ht.leaveAlt_ne hr hne hanswer
  cases heq'
  rw [heffects] at heq
  cases heq
  exact hr' rfl

theorem Twin.follows (h : Twin s t) (hs : s.Follows p numFuncs numLoops last) :
    t.Follows p numFuncs numLoops last := by
  obtain ⟨stats, hcurrent, hfuncs, hloops⟩ := hs.current
  obtain ⟨hcounters, hused⟩ := h.lastCounters
  refine ⟨⟨stats, h.current hcurrent, hfuncs, hloops⟩, fun r hr => ?_, fun hlast => ?_⟩
  · rw [hcounters, hused]
    exact hs.entered r hr
  · rw [hcounters]
    exact hs.left hlast

theorem Twin.sameMeasurements_iff_leavesEntered (h : Twin s t) (hs : s.Follows p numFuncs numLoops last)
    (thread : W → ThreadIndex) {events : List (W × WorkerCall)}
    (hrange : ∀ e ∈ events, ∀ r, e.2 = .enter r ∨ e.2 = .leave r → r.InRange numFuncs numLoops) :
    SameMeasurements s t (events.map fun e => e.2.op (thread e.1)) ↔ LeavesEntered last events := by
  induction events generalizing s t last with
  | nil =>
    refine ⟨fun _ => trivial, fun _ => ⟨s, t, [], rfl, rfl, h.records⟩⟩
  | cons e events ih =>
    obtain ⟨w, call⟩ := e
    have hfirst := hrange (w, call) (List.mem_cons_self ..)
    have hlater := fun e he => hrange e (List.mem_cons_of_mem _ he)
    by_cases hentered : ∀ r, call = .leave r → last = some r
    · obtain ⟨s', out, ⟨hstep, t', halt, htwin⟩, hfollows⟩ :=
        h.call hs call hfirst hentered (thread w)
      have hrest := ih htwin hfollows hlater
      rw [List.map_cons, sameMeasurements_cons_iff hstep halt, hrest]
      exact ⟨fun hle => ⟨hentered, hle⟩, fun hle => hle.2⟩
    · refine ⟨fun hsame => absurd hsame ?_, fun hle => absurd hle.1 hentered⟩
      push Not at hentered
      obtain ⟨r, rfl, hne⟩ := hentered
      exact hs.not_sameMeasurements (h.follows hs) (hfirst r (Or.inr rfl)) hne _ _

/-- From one state, both runtimes measure the same exactly if no thread leaves a region but the one that
was entered last. -/
theorem sameMeasurements_iff {stats : PipelineStats} (h : s.Current p stats)
    (hfresh : s.lastCounters = none) (thread : W → ThreadIndex) {events : List (W × WorkerCall)}
    (hrange : ∀ e ∈ events, ∀ r, e.2 = .enter r ∨ e.2 = .leave r →
      r.InRange stats.numFuncs stats.numLoops) :
    SameMeasurements s s (events.map fun e => e.2.op (thread e.1)) ↔ LeavesEntered none events :=
  (Twin.refl s).sameMeasurements_iff_leavesEntered ⟨⟨stats, h, rfl, rfl⟩, (fun _ heq => by cases heq), fun _ => hfresh⟩
    thread hrange

/-- Two threads in regions of their own, one after the other. -/
def oneByOne : List (Bool × WorkerCall) :=
  [(true, .enter (.overhead 0)), (true, .leave (.overhead 0)), (false, .enter (.func 0 true)),
    (true, .decrActiveThreads), (false, .leave (.func 0 true))]

open Workers in
theorem sameMeasurements_iff_oneByOne :
    SameMeasurements oneFuncStarted oneFuncStarted
        (oneByOne.map fun e => e.2.op (twoThreads e.1)) ↔ LeavesEntered none oneByOne :=
  sameMeasurements_iff oneFuncStarted_current rfl twoThreads (by
    intro e he r hr
    simp only [oneByOne, List.mem_cons, List.not_mem_nil, or_false] at he
    rcases he with rfl | rfl | rfl | rfl | rfl <;> rcases hr with hr | hr <;> cases hr <;> decide)

/-- Two threads in regions of their own, one of which was entered while the other was measured. -/
def overlapping : List (Bool × WorkerCall) :=
  [(true, .enter (.overhead 0)), (false, .enter (.func 0 true)), (true, .leave (.overhead 0)),
    (false, .leave (.func 0 true))]

open Workers in
theorem not_sameMeasurements_overlapping :
    ¬ ∀ events : List (Bool × WorkerCall),
      (∀ w, Flat none ((events.filter fun e => e.1 == w).map Prod.snd)) →
      (∀ e ∈ events, ∀ r, e.2 = .enter r ∨ e.2 = .leave r → r.InRange 1 0) →
      SameMeasurements oneFuncStarted oneFuncStarted
        (events.map fun e => e.2.op (twoThreads e.1)) := by
  intro h
  have hflat : ∀ w, Flat none ((overlapping.filter fun e => e.1 == w).map Prod.snd) := by
    intro w
    cases w <;> exact ⟨rfl, trivial⟩
  have hrange : ∀ e ∈ overlapping, ∀ r, e.2 = .enter r ∨ e.2 = .leave r → r.InRange 1 0 := by
    intro e he r hr
    simp only [overlapping, List.mem_cons, List.not_mem_nil, or_false] at he
    rcases he with rfl | rfl | rfl | rfl <;> rcases hr with hr | hr <;> cases hr <;> decide
  obtain ⟨s', t', out, hrun, halt, _⟩ := h overlapping hflat hrange
  cases hrun
  cases halt

end PapiState

end ProfHalide
