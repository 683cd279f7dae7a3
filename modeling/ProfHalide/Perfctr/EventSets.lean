import ProfHalide.Perfctr.PapiApi

/-!
# Event sets when PAPI fails

What PAPI keeps for a thread, as its calls for event sets leave it, and the calls for the markers of a
thread that has a place, with any of the calls to PAPI failing.
-/

namespace ProfHalide

namespace PapiApi

/-- What the hardware counters have counted for each event. -/
abbrev Counted := Int → Int

def Counted.zero : Counted := fun _ => 0

structure EventSet where
  events : List Int
  /-- The counters when the set began to count. -/
  since : Counted
  /-- The counters when it was stopped, unless it runs. -/
  stopped : Option Counted

def EventSet.count (e : EventSet) (now : Counted) (event : Int) : Int :=
  e.stopped.getD now event - e.since event

/-- What PAPI keeps for a thread. -/
structure Papi where
  registered : Bool
  /-- The event sets, by their handles. -/
  sets : Int → Option EventSet

namespace Papi

variable (p : Papi)

def initial : Papi := ⟨false, fun _ => none⟩

def put (handle : Int) (e : Option EventSet) : Papi :=
  { p with sets := Function.update p.sets handle e }

/-! A call that fails has no result; `ok` tells whether PAPI lets it succeed. -/

def registerThread (ok : Bool) : Option Papi := if ok then some { p with registered := true } else none

/-- The handle has to be null, and is set to one that is not in use. -/
def createEventset (ok : Bool) (handle : Int) (created : Nat) : Option Papi :=
  if ok && handle = PAPI_NULL && (p.sets created).isNone then
    some (p.put created (some ⟨[], .zero, some .zero⟩))
  else none

/-- A call for a set that does not run. -/
def changeStopped (ok : Bool) (handle : Int) (change : EventSet → Option (Option EventSet)) : Option Papi :=
  if ok then
    (p.sets handle).bind fun e =>
      if e.stopped.isSome then (change e).map (p.put handle) else none
  else none

def addEvent (ok : Bool) (handle event : Int) : Option Papi :=
  p.changeStopped ok handle fun e => some (some { e with events := e.events ++ [event] })

def start (ok : Bool) (handle : Int) (now : Counted) : Option Papi :=
  p.changeStopped ok handle fun e => some (some { e with since := now, stopped := none })

def removeEvent (ok : Bool) (handle event : Int) : Option Papi :=
  p.changeStopped ok handle fun e =>
    if event ∈ e.events then some (some { e with events := e.events.erase event }) else none

/-- The set has to be empty. -/
def destroyEventset (ok : Bool) (handle : Int) : Option Papi :=
  p.changeStopped ok handle fun e => if e.events = [] then some none else none

def stop (ok : Bool) (handle : Int) (now : Counted) : Option Papi :=
  if ok then
    (p.sets handle).bind fun e =>
      if e.stopped.isNone then some (p.put handle (some { e with stopped := some now })) else none
  else none

def reset (ok : Bool) (handle : Int) (now : Counted) : Option Papi :=
  if ok then
    (p.sets handle).map fun e => p.put handle (some { e with since := e.stopped.getD now })
  else none

/-- What is added for each event of the set. -/
def accum (ok : Bool) (handle : Int) (now : Counted) : Option ((Fin MAX_EVENTS_PER_THREAD → Int) × Papi) :=
  if ok then
    (p.sets handle).map fun e => (fun k => (e.events[k.val]?).elim 0 (e.count now),
      p.put handle (some { e with since := e.stopped.getD now }))
  else none

def unregisterThread (ok : Bool) : Option Papi := if ok then some { p with registered := false } else none

/-- A loop over the events, as far as the first call that fails. -/
def each (call : Nat → Int → Papi → Option Papi) : Nat → List Int → Papi → Bool × Papi
  | _, [], p => (true, p)
  | k, event :: events, p =>
    match call k event p with
    | none => (false, p)
    | some p => each call (k + 1) events p

end Papi

/-- The library, and what PAPI keeps for a thread. -/
structure Thread where
  api : State
  papi : Papi

/-- Which calls to PAPI succeed when a marker is started. -/
structure StartFaults where
  registerThread : Bool
  createEventset : Bool
  /-- The handle of the set that is created. -/
  eventSet : Nat
  /-- By the position of the event. -/
  addEvent : Nat → Bool
  start : Bool
  reset : Bool
  atStart : Counted
  atReset : Counted
  /-- What lies before `threadsInfo`, where the set to reset is looked for after a start that fails. -/
  before : Int

/-- Which calls to PAPI succeed when a marker is stopped. -/
structure StopFaults where
  accum : Bool
  stop : Bool
  removeEvent : Nat → Bool
  destroyEventset : Bool
  unregisterThread : Bool
  atAccum : Counted
  atStop : Counted

namespace Thread

variable (s : Thread) (i : Fin MAX_THREADS)

/-- `threadsInfo[i].event_set`. -/
def eventSet : Int := (s.api.table.threadsInfo i).rest

/-- `start_thread` for a thread with the place `i`. -/
def startThread (f : StartFaults) : Int × Thread :=
  match s.papi.registerThread f.registerThread with
  | none => (-1, s)
  | some papi =>
    match papi.createEventset f.createEventset (s.eventSet i) f.eventSet with
    | none => (-1, { s with papi := papi })
    | some papi =>
      let api := s.api.setEventSet (some i) f.eventSet
      let (added, papi) :=
        papi.each (fun k event p => p.addEvent (f.addEvent k) f.eventSet event) 0 api.eventArray
      if !added then (-1, ⟨api, papi⟩)
      else
        match papi.start f.start f.eventSet f.atStart with
        | none => (-1, ⟨api, papi⟩)
        | some papi => (i.val, ⟨api, papi⟩)

/-- `perfctr_halide_marker_start`, with what `start_thread` returns. -/
def markerStart (f : StartFaults) : Int × Thread :=
  let (threadIdx, s) := s.startThread i f
  let handle := if threadIdx = -1 then f.before else s.eventSet i
  (threadIdx, { s with papi := (s.papi.reset f.reset handle f.atReset).getD s.papi })

def stopThread (f : StopFaults) : Int × Thread :=
  let handle := s.eventSet i
  match s.papi.stop f.stop handle f.atStop with
  | none => (-1, s)
  | some papi =>
    let (removed, papi) :=
      papi.each (fun k event p => p.removeEvent (f.removeEvent k) handle event) 0 s.api.eventArray
    if !removed then (-1, { s with papi := papi })
    else
      match papi.destroyEventset f.destroyEventset handle with
      | none => (-1, { s with papi := papi })
      | some papi =>
        let api := s.api.setEventSet (some i) PAPI_NULL
        match papi.unregisterThread f.unregisterThread with
        | none => (-1, ⟨api, papi⟩)
        | some papi => (0, ⟨api, papi⟩)

/-- `perfctr_halide_marker_stop`, with what `stop_thread` returns. -/
def markerStop (m : Marker) (f : StopFaults) : Int × Thread :=
  let (added, papi) := (s.papi.accum f.accum (s.eventSet i) f.atAccum).getD (fun _ => 0, s.papi)
  stopThread ⟨s.api.accumulate (some i) m added, papi⟩ i f

def Running : Prop := ∃ handle e, s.papi.sets handle = some e ∧ e.stopped = none

/-- With no measurement running, nothing is left of one. -/
def Settled : Prop := ¬ s.Running → s.eventSet i = PAPI_NULL ∧ s.papi.registered = false

end Thread

def StartFaults.Succeeds (f : StartFaults) (n : Nat) : Prop :=
  f.registerThread = true ∧ f.createEventset = true ∧ (∀ k < n, f.addEvent k = true) ∧ f.start = true

def StopFaults.Succeeds (f : StopFaults) (n : Nat) : Prop :=
  f.stop = true ∧ (∀ k < n, f.removeEvent k = true) ∧ f.destroyEventset = true ∧ f.unregisterThread = true

/-- What is counted from one reading to another, for each of the events. -/
def interval (events : List Int) (start stop : Counted) (k : Fin MAX_EVENTS_PER_THREAD) : Int :=
  (events[k.val]?).elim 0 fun event => stop event - start event

/-- A start and a stop with no call failing add what is counted in between, and succeed. -/
def Thread.Recovers (s : Thread) (i : Fin MAX_THREADS) : Prop :=
  ∀ (m : Marker) (f : StartFaults) (g : StopFaults), s.papi.sets f.eventSet = none →
    f.Succeeds s.api.eventArray.length → f.reset = true → g.Succeeds s.api.eventArray.length →
    g.accum = true →
      let started := s.markerStart i f
      let stopped := started.2.markerStop i m g
      started.1 = i.val ∧ stopped.1 = 0 ∧
        stopped.2.api.counters = (s.api.accumulate (some i) m
          (interval s.api.eventArray f.atReset g.atAccum)).counters

inductive MarkerCall where
  | start (f : StartFaults)
  | stop (m : Marker) (f : StopFaults)

def Thread.call (i : Fin MAX_THREADS) (s : Thread) : MarkerCall → Thread
  | .start f => (s.markerStart i f).2
  | .stop m f => (s.markerStop i m f).2

/-- The calls alternate, from a start on. -/
def Alternate : List MarkerCall → Prop
  | [] => True
  | [.start _] => True
  | .start _ :: .stop _ _ :: calls => Alternate calls
  | _ => False

/-- Whatever has been called, nothing is left of a measurement that is not running, and a start and a stop
measure what they should. -/
def Unpoisoned (s : Thread) (i : Fin MAX_THREADS) (calls : List MarkerCall) : Prop :=
  ∀ pre, pre <+: calls → (pre.foldl (Thread.call i) s).Settled i ∧
    (pre.length % 2 = 0 → (pre.foldl (Thread.call i) s).Recovers i)

/-- A start that gets past `PAPI_register_thread` succeeds, and so does the stop after it. -/
def Unbroken (n : Nat) : List MarkerCall → Prop
  | .start f :: .stop _ g :: calls =>
      (f.registerThread = true → f.Succeeds n ∧ g.Succeeds n) ∧ Unbroken n calls
  | [.start f] => f.registerThread = true → f.Succeeds n
  | _ => True

/-- The place is the thread's own, and PAPI knows nothing of the thread. -/
def Thread.Idle (s : Thread) (i : Fin MAX_THREADS) : Prop := s.eventSet i = PAPI_NULL ∧ s.papi = .initial

/-! ### Calls to PAPI -/

namespace Papi

variable {p : Papi} {handle : Int} {e : EventSet} {ok : Nat → Bool}

@[simp] theorem sets_put (p : Papi) (handle : Int) (e : Option EventSet) : (p.put handle e).sets handle = e :=
  Function.update_self ..

@[simp] theorem put_put (p : Papi) (handle : Int) (e e' : Option EventSet) :
    (p.put handle e).put handle e' = p.put handle e' := by
  rw [put, put, put, Function.update_idem]

theorem changeStopped_put (he : e.stopped.isSome) (change : EventSet → Option (Option EventSet)) :
    (p.put handle (some e)).changeStopped true handle change = (change e).map (p.put handle) := by
  rw [changeStopped, if_pos rfl, sets_put, Option.bind_some, if_pos he]
  exact congrArg (Option.map · (change e)) (funext fun e' => put_put p handle (some e) e')

theorem changeStopped_eq_some {ok : Bool} {change : EventSet → Option (Option EventSet)} {p' : Papi}
    (h : (p.put handle (some e)).changeStopped ok handle change = some p') :
    ok = true ∧ ∃ e', change e = some e' ∧ p' = p.put handle e' := by
  rw [changeStopped] at h
  split at h
  · next hok =>
    rw [sets_put, Option.bind_some] at h
    split at h
    · obtain ⟨e', hchange, rfl⟩ := Option.map_eq_some_iff.mp h
      exact ⟨hok, e', hchange, put_put ..⟩
    · cases h
  · cases h

/-- A loop changes the events of its set, and gets through only if no call fails. -/
theorem each_changeStopped {change : Int → EventSet → Option (Option EventSet)}
    (hchange : ∀ event e e', change event e = some e' → ∃ es, e' = some { e with events := es })
    (p : Papi) (handle : Int) (e : EventSet) (ok : Nat → Bool) (k : Nat) (events : List Int) :
    ∃ through es, each (fun k event p => p.changeStopped (ok k) handle (change event)) k events
        (p.put handle (some e)) = (through, p.put handle (some { e with events := es })) ∧
      (through = true → ∀ j < events.length, ok (k + j) = true) := by
  induction events generalizing k e with
  | nil => exact ⟨true, e.events, rfl, fun _ => nofun⟩
  | cons event events ih =>
    rw [each]
    cases hnext : (p.put handle (some e)).changeStopped (ok k) handle (change event) with
    | none => exact ⟨false, e.events, rfl, nofun⟩
    | some p' =>
      obtain ⟨hok, e', heq, rfl⟩ := changeStopped_eq_some hnext
      obtain ⟨es, rfl⟩ := hchange event e e' heq
      obtain ⟨through, es', heach, hall⟩ := ih { e with events := es } (k + 1)
      refine ⟨through, es', heach, fun hthrough j hj => ?_⟩
      exact (forall_lt_succ_add fun k => ok k = true).mpr ⟨hok, hall hthrough⟩ j hj

theorem each_addEvent_spec (p : Papi) (handle : Int) (e : EventSet) (ok : Nat → Bool)
    (events : List Int) :
    ∃ through es, each (fun k event p => p.addEvent (ok k) handle event) 0 events
        (p.put handle (some e)) = (through, p.put handle (some { e with events := es })) ∧
      (through = true → ∀ k < events.length, ok k = true) := by
  have hchange : ∀ (event : Int) (e : EventSet) (e' : Option EventSet),
      some (some { e with events := e.events ++ [event] }) = some e' →
      ∃ es, e' = some { e with events := es } := by
    intro event e e' heq
    cases heq
    exact ⟨_, rfl⟩
  have hspec := each_changeStopped hchange p handle e ok 0 events
  simp only [Nat.zero_add] at hspec
  exact hspec

theorem each_removeEvent_spec (p : Papi) (handle : Int) (e : EventSet) (ok : Nat → Bool)
    (events : List Int) :
    ∃ through es, each (fun k event p => p.removeEvent (ok k) handle event) 0 events
        (p.put handle (some e)) = (through, p.put handle (some { e with events := es })) ∧
      (through = true → ∀ k < events.length, ok k = true) := by
  have hchange : ∀ (event : Int) (e : EventSet) (e' : Option EventSet),
      (if event ∈ e.events then some (some { e with events := e.events.erase event }) else none) = some e' →
      ∃ es, e' = some { e with events := es } := by
    intro event e e' heq
    split at heq
    · cases heq
      exact ⟨_, rfl⟩
    · cases heq
  have hspec := each_changeStopped hchange p handle e ok 0 events
  simp only [Nat.zero_add] at hspec
  exact hspec

theorem each_addEvent (p : Papi) (handle : Int) (he : e.stopped.isSome) {k : Nat} {events : List Int}
    (hok : ∀ j < events.length, ok (k + j) = true) :
    each (fun k event p => p.addEvent (ok k) handle event) k events (p.put handle (some e))
      = (true, p.put handle (some { e with events := e.events ++ events })) := by
  induction events generalizing k e with
  | nil =>
    rw [List.append_nil]
    rfl
  | cons event events ih =>
    obtain ⟨hfirst, hrest⟩ := (forall_lt_succ_add fun k => ok k = true).mp hok
    rw [each, hfirst, addEvent, changeStopped_put he]
    dsimp only [Option.map_some]
    rw [ih (e := { e with events := e.events ++ [event] }) he hrest, List.append_assoc]
    rfl

/-- The first event of the set is the next to be removed. -/
theorem each_removeEvent (p : Papi) (handle : Int) {events : List Int} (since now : Counted) {k : Nat}
    (hok : ∀ j < events.length, ok (k + j) = true) :
    each (fun k event p => p.removeEvent (ok k) handle event) k events
        (p.put handle (some ⟨events, since, some now⟩))
      = (true, p.put handle (some ⟨[], since, some now⟩)) := by
  induction events generalizing k with
  | nil => rfl
  | cons event events ih =>
    obtain ⟨hfirst, hrest⟩ := (forall_lt_succ_add fun k => ok k = true).mp hok
    rw [each, hfirst, removeEvent, changeStopped_put rfl, if_pos List.mem_cons_self, List.erase_cons_head]
    exact ih hrest

theorem addEvents_eq (p : Papi) (handle : Int) {events : List Int} (h : ∀ k < events.length, ok k = true) :
    each (fun k event p => p.addEvent (ok k) handle event) 0 events
        (p.put handle (some ⟨[], .zero, some .zero⟩))
      = (true, p.put handle (some ⟨events, .zero, some .zero⟩)) := by
  refine each_addEvent p handle rfl fun k hk => ?_
  rw [Nat.zero_add]
  exact h k hk

theorem removeEvents_eq (p : Papi) (handle : Int) {events : List Int} (since now : Counted)
    (h : ∀ k < events.length, ok k = true) :
    each (fun k event p => p.removeEvent (ok k) handle event) 0 events
        (p.put handle (some ⟨events, since, some now⟩))
      = (true, p.put handle (some ⟨[], since, some now⟩)) := by
  refine each_removeEvent p handle since now fun k hk => ?_
  rw [Nat.zero_add]
  exact h k hk

theorem destroyEventset_put (p : Papi) (handle : Int) (since now : Counted) :
    (p.put handle (some ⟨[], since, some now⟩)).destroyEventset true handle = some (p.put handle none) := by
  rw [destroyEventset, changeStopped_put rfl]
  rfl

/-- Registered, with no set that runs. -/
def Stuck (p : Papi) : Prop := p.registered = true ∧ ∀ handle e, p.sets handle = some e → e.stopped.isSome

theorem Stuck.put (h : p.Stuck) {e : Option EventSet} (he : ∀ e' ∈ e, e'.stopped.isSome) (handle : Int) :
    (p.put handle e).Stuck := by
  refine ⟨h.1, fun handle' e' hsets => ?_⟩
  have hsets : Function.update p.sets handle e handle' = some e' := hsets
  rw [Function.update_apply] at hsets
  split at hsets
  · exact he e' hsets
  · exact h.2 handle' e' hsets

theorem Stuck.reset (h : p.Stuck) (ok : Bool) (handle : Int) (now : Counted) :
    ((p.reset ok handle now).getD p).Stuck := by
  cases hreset : p.reset ok handle now with
  | none => exact h
  | some p' =>
    rw [Papi.reset] at hreset
    split at hreset
    · obtain ⟨e, hsets, rfl⟩ := Option.map_eq_some_iff.mp hreset
      exact h.put (fun e' he => by cases he; exact h.2 handle e hsets) handle
    · cases hreset

/-- PAPI has registered the thread. -/
def known : Papi := { initial with registered := true }

theorem stuck_known : known.Stuck := ⟨rfl, nofun⟩

theorem createEventset_known (handle : Nat) : known.createEventset true PAPI_NULL handle
    = some (known.put handle (some ⟨[], .zero, some .zero⟩)) := rfl

end Papi

/-! ### One marker call -/

namespace Thread

variable {s : Thread} {i : Fin MAX_THREADS}

theorem not_settled_of_stuck (h : s.papi.Stuck) : ¬ s.Settled i := by
  intro hsettled
  have hidle : ¬ s.Running := by
    rintro ⟨handle, e, hsets, hstopped⟩
    have hsome := h.2 handle e hsets
    rw [hstopped] at hsome
    cases hsome
  have hregistered := (hsettled hidle).2
  rw [h.1] at hregistered
  cases hregistered

theorem settled_of_idle (h : s.Idle i) : s.Settled i := fun _ => ⟨h.1, by rw [h.2]; rfl⟩

@[simp] theorem eventSet_setEventSet (api : State) (papi : Papi) (eventSet : Int) :
    Thread.eventSet ⟨api.setEventSet (some i) eventSet, papi⟩ i = eventSet := by
  simp [Thread.eventSet, State.setEventSet, ThreadTable.setRest]

/-- The set of the place counts all events, from a reading on. -/
def Counting (s : Thread) (i : Fin MAX_THREADS) (since : Counted) : Prop :=
  ∃ handle : Nat, s.eventSet i = handle ∧
    s.papi = Papi.known.put handle (some ⟨s.api.eventArray, since, none⟩)

theorem settled_of_counting {since : Counted} (h : s.Counting i since) : s.Settled i := by
  obtain ⟨handle, _, hpapi⟩ := h
  have hrunning : s.Running := ⟨handle, ⟨s.api.eventArray, since, none⟩, by rw [hpapi, Papi.sets_put], rfl⟩
  exact fun hidle => absurd hrunning hidle

/-! ### Starts -/

theorem startThread_of_idle (h : s.Idle i) {f : StartFaults} (hf : f.Succeeds s.api.eventArray.length) :
    ∃ s', s.startThread i f = ((i.val : Int), s') ∧ s'.Counting i f.atStart ∧
      s'.api = s.api.setEventSet (some i) f.eventSet := by
  obtain ⟨hregister, hcreate, hadd, hstart⟩ := hf
  have hregistered : s.papi.registerThread f.registerThread = some Papi.known := by
    rw [h.2, hregister]
    rfl
  have hadded := Papi.addEvents_eq Papi.known f.eventSet hadd
  have hstarted : (Papi.known.put f.eventSet (some ⟨s.api.eventArray, .zero, some .zero⟩)).start f.start
      f.eventSet f.atStart = some (Papi.known.put f.eventSet (some ⟨s.api.eventArray, f.atStart, none⟩)) := by
    rw [hstart, Papi.start, Papi.changeStopped_put rfl]
    rfl
  refine ⟨⟨s.api.setEventSet (some i) f.eventSet,
    Papi.known.put f.eventSet (some ⟨s.api.eventArray, f.atStart, none⟩)⟩, ?_,
    ⟨f.eventSet, by simp, by simp⟩, rfl⟩
  simp only [startThread, hregistered, h.1, hcreate, Papi.createEventset_known,
    State.eventArray_setEventSet, hadded, hstarted]
  rfl

/-- A start that gets past `PAPI_register_thread` and fails leaves the thread registered. -/
theorem startThread_fails (h : s.Idle i) {f : StartFaults} (hregister : f.registerThread = true)
    (hf : ¬ f.Succeeds s.api.eventArray.length) :
    ∃ s', s.startThread i f = (-1, s') ∧ s'.papi.Stuck := by
  have hregistered : s.papi.registerThread f.registerThread = some Papi.known := by
    rw [h.2, hregister]
    rfl
  cases hcreate : f.createEventset with
  | false =>
    refine ⟨{ s with papi := Papi.known }, ?_, Papi.stuck_known⟩
    simp only [startThread, hregistered, hcreate]
    rfl
  | true =>
    obtain ⟨through, es, hadded, hall⟩ :=
      Papi.each_addEvent_spec Papi.known f.eventSet ⟨[], .zero, some .zero⟩ f.addEvent s.api.eventArray
    have hstuck : (Papi.known.put f.eventSet (some ⟨es, .zero, some .zero⟩)).Stuck :=
      Papi.stuck_known.put (fun e he => by cases he; rfl) _
    refine ⟨⟨s.api.setEventSet (some i) f.eventSet,
      Papi.known.put f.eventSet (some ⟨es, .zero, some .zero⟩)⟩, ?_, hstuck⟩
    simp only [startThread, hregistered, h.1, hcreate, Papi.createEventset_known,
      State.eventArray_setEventSet, hadded]
    cases through with
    | false => rfl
    | true =>
      have hstart : f.start = false := by
        by_contra hstart
        exact hf ⟨hregister, hcreate, hall rfl, by simpa using hstart⟩
      rw [hstart]
      rfl

theorem markerStart_not_registered (h : s.Idle i) {f : StartFaults} (hregister : f.registerThread = false) :
    s.markerStart i f = (-1, s) := by
  have hfails : s.papi.registerThread f.registerThread = none := by rw [hregister]; rfl
  have hreset : s.papi.reset f.reset f.before f.atReset = none := by
    rw [h.2, Papi.reset]
    split <;> rfl
  simp only [markerStart, startThread, hfails, hreset, if_true]
  rfl

theorem markerStart_fails (h : s.Idle i) {f : StartFaults} (hregister : f.registerThread = true)
    (hf : ¬ f.Succeeds s.api.eventArray.length) :
    ∃ s', s.markerStart i f = (-1, s') ∧ s'.papi.Stuck := by
  obtain ⟨s', hstart, hstuck⟩ := startThread_fails h hregister hf
  simp only [markerStart, hstart, if_true]
  exact ⟨_, rfl, hstuck.reset ..⟩

theorem markerStart_succeeds (h : s.Idle i) {f : StartFaults} (hf : f.Succeeds s.api.eventArray.length) :
    ∃ s', s.markerStart i f = ((i.val : Int), s') ∧
      s'.Counting i (if f.reset then f.atReset else f.atStart) ∧
      s'.api = s.api.setEventSet (some i) f.eventSet := by
  obtain ⟨s', hstart, ⟨handle, hset, hpapi⟩, hapi⟩ := startThread_of_idle h hf
  have hidx : ((i.val : Int) = -1) = False := by
    simp only [eq_iff_iff, iff_false]
    omega
  have hreset : (s'.papi.reset f.reset (s'.eventSet i) f.atReset).getD s'.papi = Papi.known.put handle
      (some ⟨s'.api.eventArray, if f.reset then f.atReset else f.atStart, none⟩) := by
    rw [hpapi, hset, Papi.reset, Papi.sets_put]
    cases f.reset with
    | false => rfl
    | true => exact Papi.put_put ..
  simp only [markerStart, hstart, hidx, if_false, hreset]
  exact ⟨_, rfl, ⟨handle, hset, rfl⟩, hapi⟩

/-! ### Stops -/

theorem markerStop_of_idle (h : s.Idle i) (m : Marker) (g : StopFaults) :
    (s.markerStop i m g).2.Idle i ∧ (s.markerStop i m g).2.api.eventArray = s.api.eventArray := by
  have haccum : s.papi.accum g.accum (s.eventSet i) g.atAccum = none := by
    rw [h.2, Papi.accum]
    split <;> rfl
  have hset : Thread.eventSet ⟨s.api.accumulate (some i) m fun _ => 0, s.papi⟩ i = s.eventSet i := rfl
  have hstop : s.papi.stop g.stop (s.eventSet i) g.atStop = none := by
    rw [h.2, Papi.stop]
    split <;> rfl
  simp only [markerStop, haccum, Option.getD_none, stopThread, hset, hstop]
  exact ⟨h, rfl⟩

/-- What a stop finds when the set counts: it counts on. -/
theorem accum_of_counting {since : Counted} (h : s.Counting i since) (m : Marker) (g : StopFaults) :
    ∃ added papi since',
      (s.papi.accum g.accum (s.eventSet i) g.atAccum).getD (fun _ => 0, s.papi) = (added, papi) ∧
      (g.accum = true → added = interval s.api.eventArray since g.atAccum) ∧
      Counting ⟨s.api.accumulate (some i) m added, papi⟩ i since' := by
  obtain ⟨handle, hset, hpapi⟩ := h
  cases haccum : g.accum with
  | false => exact ⟨fun _ => 0, s.papi, since, rfl, nofun, handle, hset, hpapi⟩
  | true =>
    refine ⟨interval s.api.eventArray since g.atAccum,
      Papi.known.put handle (some ⟨s.api.eventArray, g.atAccum, none⟩), g.atAccum, ?_, fun _ => rfl,
      handle, hset, rfl⟩
    rw [hpapi, hset, Papi.accum, if_pos rfl, Papi.sets_put, Option.map_some, Papi.put_put]
    rfl

theorem stop_of_counting {handle : Nat} {since : Counted} {g : StopFaults}
    (hpapi : s.papi = Papi.known.put handle (some ⟨s.api.eventArray, since, none⟩)) (hstop : g.stop = true) :
    s.papi.stop g.stop handle g.atStop
      = some (Papi.known.put handle (some ⟨s.api.eventArray, since, some g.atStop⟩)) := by
  rw [hpapi, hstop, Papi.stop, if_pos rfl, Papi.sets_put]
  exact congrArg some (Papi.put_put ..)

theorem stopThread_succeeds {since : Counted} (h : s.Counting i since) {g : StopFaults}
    (hg : g.Succeeds s.api.eventArray.length) :
    s.stopThread i g = (0, ⟨s.api.setEventSet (some i) PAPI_NULL, .initial⟩) := by
  obtain ⟨handle, hset, hpapi⟩ := h
  obtain ⟨hstop, hremove, hdestroy, hunregister⟩ := hg
  have hstopped := stop_of_counting hpapi hstop
  have hremoved := Papi.removeEvents_eq Papi.known handle since g.atStop hremove
  have hunregistered : (Papi.known.put handle none).unregisterThread g.unregisterThread = some .initial := by
    rw [hunregister]
    refine congrArg some (congrArg (Papi.mk false) ?_)
    exact Function.update_eq_self (handle : Int) (fun _ => none)
  simp only [stopThread, hset, hstopped, hremoved, hdestroy, Papi.destroyEventset_put, hunregistered]
  rfl

/-- A stop that gets past `PAPI_stop` and fails leaves the thread registered. -/
theorem stopThread_fails {since : Counted} (h : s.Counting i since) {g : StopFaults} (hstop : g.stop = true)
    (hg : ¬ g.Succeeds s.api.eventArray.length) :
    ∃ s', s.stopThread i g = (-1, s') ∧ s'.papi.Stuck := by
  obtain ⟨handle, hset, hpapi⟩ := h
  have hstopped := stop_of_counting hpapi hstop
  by_cases hremove : ∀ k < s.api.eventArray.length, g.removeEvent k = true
  · have hremoved := Papi.removeEvents_eq Papi.known handle since g.atStop hremove
    simp only [stopThread, hset, hstopped, hremoved]
    cases hdestroy : g.destroyEventset with
    | false => exact ⟨_, rfl, Papi.stuck_known.put (fun e he => by cases he; rfl) _⟩
    | true =>
      have hunregister : g.unregisterThread = false := by
        by_contra hunregister
        exact hg ⟨hstop, hremove, hdestroy, by simpa using hunregister⟩
      simp only [Papi.destroyEventset_put, hunregister]
      exact ⟨_, rfl, Papi.stuck_known.put (fun _ he => by cases he) _⟩
  · obtain ⟨through, es, hremoved, hall⟩ := Papi.each_removeEvent_spec Papi.known handle
      ⟨s.api.eventArray, since, some g.atStop⟩ g.removeEvent s.api.eventArray
    have hthrough : through = false := by
      by_contra hthrough
      exact hremove (hall (by simpa using hthrough))
    simp only [stopThread, hset, hstopped, hremoved, hthrough]
    exact ⟨_, rfl, Papi.stuck_known.put (fun e he => by cases he; rfl) _⟩

/-- A set that goes on counting is in the way of the next start. -/
theorem not_recovers_of_counting {since : Counted} (h : s.Counting i since) : ¬ s.Recovers i := by
  obtain ⟨handle, hset, hpapi⟩ := h
  intro hrecovers
  let f : StartFaults := ⟨true, true, handle + 1, fun _ => true, true, true, .zero, .zero, 0⟩
  let g : StopFaults := ⟨true, true, fun _ => true, true, true, .zero, .zero⟩
  have hfree : s.papi.sets f.eventSet = none := by
    have hne : (f.eventSet : Int) ≠ handle := by
      show ((handle + 1 : Nat) : Int) ≠ handle
      omega
    rw [hpapi]
    exact Function.update_of_ne hne _ _
  have hstarted := (hrecovers ⟨0, 0⟩ f g hfree ⟨rfl, rfl, fun _ _ => rfl, rfl⟩ rfl
    ⟨rfl, fun _ _ => rfl, rfl, rfl⟩ rfl).1
  have hnull : s.eventSet i ≠ PAPI_NULL := by
    rw [hset, PAPI_NULL]
    omega
  have hregister : s.papi.registerThread f.registerThread = some { s.papi with registered := true } := rfl
  have hcreate : ({ s.papi with registered := true } : Papi).createEventset f.createEventset (s.eventSet i)
      f.eventSet = none := by
    simp [Papi.createEventset, hnull]
  have hfails : (s.markerStart i f).1 = -1 := by
    simp only [markerStart, startThread, hregister, hcreate]
  rw [hfails] at hstarted
  omega

theorem markerStop_succeeds {since : Counted} (h : s.Counting i since) (m : Marker) {g : StopFaults}
    (hg : g.Succeeds s.api.eventArray.length) :
    ∃ s', s.markerStop i m g = (0, s') ∧ s'.Idle i ∧ s'.api.eventArray = s.api.eventArray ∧
      (g.accum = true → s'.api.counters
        = (s.api.accumulate (some i) m (interval s.api.eventArray since g.atAccum)).counters) := by
  obtain ⟨added, papi, since', haccum, hadded, hcounting⟩ := accum_of_counting h m g
  refine ⟨⟨(s.api.accumulate (some i) m added).setEventSet (some i) PAPI_NULL, .initial⟩, ?_,
    ⟨by simp, rfl⟩, rfl, ?_⟩
  · simp only [markerStop, haccum]
    exact stopThread_succeeds hcounting hg
  · intro hok
    rw [hadded hok]
    rfl

theorem markerStop_not_stopped {since : Counted} (h : s.Counting i since) (m : Marker) {g : StopFaults}
    (hstop : g.stop = false) : ∃ s' since', s.markerStop i m g = (-1, s') ∧ s'.Counting i since' := by
  obtain ⟨added, papi, since', haccum, _, hcounting⟩ := accum_of_counting h m g
  refine ⟨_, since', ?_, hcounting⟩
  have hfails : ∀ handle, papi.stop g.stop handle g.atStop = none := by
    intro handle
    rw [hstop]
    rfl
  simp only [markerStop, haccum, stopThread, hfails]

theorem markerStop_fails {since : Counted} (h : s.Counting i since) (m : Marker) {g : StopFaults}
    (hstop : g.stop = true) (hg : ¬ g.Succeeds s.api.eventArray.length) :
    ∃ s', s.markerStop i m g = (-1, s') ∧ s'.papi.Stuck := by
  obtain ⟨added, papi, since', haccum, _, hcounting⟩ := accum_of_counting h m g
  simp only [markerStop, haccum]
  exact stopThread_fails hcounting hstop hg

theorem recovers_of_idle (h : s.Idle i) : s.Recovers i := by
  intro m f g _ hf hreset hg haccum
  obtain ⟨s₁, hstart, hcounting, hapi⟩ := markerStart_succeeds h hf
  have hevents : s₁.api.eventArray = s.api.eventArray := by rw [hapi, State.eventArray_setEventSet]
  rw [← hevents] at hg
  obtain ⟨s₂, hstop, _, _, hcounters⟩ := markerStop_succeeds hcounting m hg
  rw [hstart]
  dsimp only
  rw [hstop]
  refine ⟨rfl, rfl, (hcounters haccum).trans ?_⟩
  rw [hreset, hevents, hapi]
  rfl

/-- After a start nothing is left of one that failed, or the set counts. -/
theorem started_iff (h : s.Idle i) (f : StartFaults) : (s.markerStart i f).2.Settled i ↔
    (f.registerThread = true → f.Succeeds s.api.eventArray.length) := by
  cases hregister : f.registerThread with
  | false =>
    rw [markerStart_not_registered h hregister]
    exact iff_of_true (settled_of_idle h) nofun
  | true =>
    by_cases hf : f.Succeeds s.api.eventArray.length
    · obtain ⟨s', hstart, hcounting, _⟩ := markerStart_succeeds h hf
      rw [hstart]
      exact iff_of_true (settled_of_counting hcounting) fun _ => hf
    · obtain ⟨s', hstart, hstuck⟩ := markerStart_fails h hregister hf
      rw [hstart]
      exact iff_of_false (not_settled_of_stuck hstuck) fun hall => hf (hall rfl)

/-! ### Runs -/

variable {n : Nat} {calls : List MarkerCall}

theorem unpoisoned_nil : Unpoisoned s i [] ↔ s.Settled i ∧ s.Recovers i := by
  simp [Unpoisoned]

theorem unpoisoned_start (f : StartFaults) : Unpoisoned s i [.start f] ↔
    (s.Settled i ∧ s.Recovers i) ∧ (s.markerStart i f).2.Settled i := by
  constructor
  · intro h
    exact ⟨(h [] (List.nil_prefix)).imp_right (· rfl), (h [.start f] List.prefix_rfl).1⟩
  · rintro ⟨hfirst, hstarted⟩ pre hpre
    rcases List.prefix_cons_iff.mp hpre with rfl | ⟨rest, rfl, hnil⟩
    · exact ⟨hfirst.1, fun _ => hfirst.2⟩
    · rw [List.prefix_nil.mp hnil]
      exact ⟨hstarted, nofun⟩

theorem unpoisoned_start_stop (f : StartFaults) (m : Marker) (g : StopFaults) :
    Unpoisoned s i (.start f :: .stop m g :: calls) ↔
      (s.Settled i ∧ s.Recovers i) ∧ (s.markerStart i f).2.Settled i ∧
        Unpoisoned ((s.markerStart i f).2.markerStop i m g).2 i calls := by
  constructor
  · intro h
    refine ⟨(h [] (List.nil_prefix)).imp_right (· rfl),
      (h [.start f] (List.cons_prefix_cons.mpr ⟨rfl, List.nil_prefix⟩)).1, fun pre hpre => ?_⟩
    have hmore := h (.start f :: .stop m g :: pre)
      (List.cons_prefix_cons.mpr ⟨rfl, List.cons_prefix_cons.mpr ⟨rfl, hpre⟩⟩)
    exact hmore.imp_right fun hrecovers heven => hrecovers (by simp only [List.length_cons]; omega)
  · rintro ⟨hfirst, hstarted, hrest⟩ pre hpre
    rcases List.prefix_cons_iff.mp hpre with rfl | ⟨rest, rfl, hpre'⟩
    · exact ⟨hfirst.1, fun _ => hfirst.2⟩
    rcases List.prefix_cons_iff.mp hpre' with rfl | ⟨later, rfl, hlater⟩
    · exact ⟨hstarted, nofun⟩
    · refine (hrest later hlater).imp_right fun hrecovers heven => hrecovers ?_
      simp only [List.length_cons] at heven
      omega

end Thread

theorem unpoisoned_iff {s : Thread} {i : Fin MAX_THREADS} {calls : List MarkerCall} (h : s.Idle i)
    (halternate : Alternate calls) : Unpoisoned s i calls ↔ Unbroken s.api.eventArray.length calls := by
  induction calls using Alternate.induct generalizing s with
  | case1 =>
    have hempty := Thread.unpoisoned_nil.mpr ⟨Thread.settled_of_idle h, Thread.recovers_of_idle h⟩
    exact iff_of_true hempty trivial
  | case2 f =>
    rw [Thread.unpoisoned_start, and_iff_right ⟨Thread.settled_of_idle h, Thread.recovers_of_idle h⟩]
    exact Thread.started_iff h f
  | case3 f m g calls ih =>
    rw [Thread.unpoisoned_start_stop, and_iff_right ⟨Thread.settled_of_idle h, Thread.recovers_of_idle h⟩,
      Thread.started_iff h, Unbroken]
    cases hregister : f.registerThread with
    | false =>
      obtain ⟨hidle, hevents⟩ := Thread.markerStop_of_idle h m g
      rw [Thread.markerStart_not_registered h hregister, ih hidle halternate, hevents]
      simp
    | true =>
      simp only [forall_const]
      rw [and_assoc]
      refine and_congr_right fun hf => ?_
      obtain ⟨s₁, hstart, hcounting, hapi⟩ := Thread.markerStart_succeeds h hf
      have hevents : s₁.api.eventArray = s.api.eventArray := by rw [hapi, State.eventArray_setEventSet]
      rw [hstart, ← hevents]
      by_cases hg : g.Succeeds s₁.api.eventArray.length
      · obtain ⟨s₂, hstop, hidle, hevents', _⟩ := Thread.markerStop_succeeds hcounting m hg
        rw [hstop, ih hidle halternate, hevents', and_iff_right hg]
      · refine iff_of_false (fun hall => ?_) fun hall => hg hall.1
        have hend := hall [] List.nil_prefix
        cases hstopped : g.stop with
        | false =>
          obtain ⟨s₂, since, hstop, hcounting'⟩ := Thread.markerStop_not_stopped hcounting m hstopped
          rw [hstop] at hend
          exact Thread.not_recovers_of_counting hcounting' (hend.2 rfl)
        | true =>
          obtain ⟨s₂, hstop, hstuck⟩ := Thread.markerStop_fails hcounting m hstopped hg
          rw [hstop] at hend
          exact Thread.not_settled_of_stuck hstuck hend.1
  | case4 calls hnil hone hmore =>
    -- Calls of no other form alternate.
    rw [Alternate] at halternate
    · exact halternate.elim
    · exact hnil
    · exact hone
    · exact hmore

/-- A thread with a place, as it is set for it, and one event to measure. -/
def placed : Thread where
  api := { State.initial with
    table := State.initial.table.place (fun _ => PAPI_NULL) 0 1
    eventArray := [7] }
  papi := .initial

theorem idle_placed : placed.Idle 0 := ⟨rfl, rfl⟩

def lastMarker : Marker := ⟨Fin.last 127, Fin.last 3⟩

/-- `PAPI_register_thread` fails in a first start; then come a start and a stop with no call failing. -/
def recovering : List MarkerCall := [
  .start ⟨false, true, 0, fun _ => true, true, true, .zero, .zero, 0⟩,
  .stop lastMarker ⟨true, true, fun _ => true, true, true, .zero, .zero⟩,
  .start ⟨true, true, 0, fun _ => true, true, true, .zero, .zero, 0⟩,
  .stop lastMarker ⟨true, true, fun _ => true, true, true, fun _ => 4, fun _ => 4⟩]

theorem alternate_recovering : Alternate recovering := trivial

theorem unpoisoned_iff_recovering : Unpoisoned placed 0 recovering :=
  (unpoisoned_iff idle_placed alternate_recovering).mpr
    ⟨nofun, fun _ => ⟨⟨rfl, rfl, fun _ _ => rfl, rfl⟩, rfl, fun _ _ => rfl, rfl, rfl⟩, trivial⟩

/-- An event that PAPI does not add leaves its set behind. -/
theorem not_unpoisoned_addEvent : ¬ ∀ (s : Thread) (i : Fin MAX_THREADS) (calls : List MarkerCall), s.Idle i →
    Alternate calls → Unpoisoned s i calls := by
  intro h
  let f : StartFaults := ⟨true, true, 0, fun _ => false, true, true, .zero, .zero, 0⟩
  have halternate : Alternate [.start f] := trivial
  have hall := (unpoisoned_iff idle_placed halternate).mp (h placed 0 [.start f] idle_placed halternate)
  exact absurd ((hall rfl).2.2.1 0 (by decide)) (by decide)

end PapiApi

end ProfHalide
