import ProfHalide.Perfctr.EventSets
import ProfHalide.Perfctr.Exhaustion

/-!
# The library on top of PAPI

What PAPI answers to a marker call follows from what it keeps and from which of its calls fail. With these
answers, the calls of the library are those of the threads that have a place, one for each thread.
-/

namespace ProfHalide

namespace PapiApi

def PAPI_EINVAL : Int := -1

theorem PAPI_EINVAL_ne : PAPI_EINVAL ≠ PAPI_OK := by decide

namespace Papi

variable (p : Papi)

/-- What is returned to the calls of a loop over the events, by the position of the event. -/
def answers (call : Nat → Int → Papi → Option Papi) (events : List Int) (k : Nat) : Int :=
  if (each call 0 (events.take (k + 1)) p).1 then PAPI_OK else PAPI_EINVAL

/-- The calls of `start_thread`, for a place that holds `eventSet`. -/
def startThread (eventSet : Int) (events : List Int) (f : StartFaults) : StartAnswers × Papi :=
  let failed : StartAnswers := ⟨PAPI_EINVAL, PAPI_EINVAL, f.eventSet, fun _ => PAPI_EINVAL, PAPI_EINVAL⟩
  match p.registerThread f.registerThread with
  | none => (failed, p)
  | some p =>
    let failed := { failed with registerThread := PAPI_OK }
    match p.createEventset f.createEventset eventSet f.eventSet with
    | none => (failed, p)
    | some p =>
      let addEvent := fun k event (p : Papi) => p.addEvent (f.addEvent k) f.eventSet event
      let failed := { failed with
        createEventset := PAPI_OK
        addEvent := p.answers addEvent events }
      let (added, p) := p.each addEvent 0 events
      if !added then (failed, p)
      else
        match p.start f.start f.eventSet f.atStart with
        | none => (failed, p)
        | some p => ({ failed with start := PAPI_OK }, p)

/-- The calls of `perfctr_halide_marker_start`. The set that is reset is that of the index which
`start_thread` has returned; with no place found, this is the one it has used. -/
def markerStart (idx : Option (Fin MAX_THREADS)) (eventSet : Int) (events : List Int) (f : StartFaults) :
    StartAnswers × Papi :=
  let (papi, p) := p.startThread eventSet events f
  let created := papi.createEventset = PAPI_OK
  let handle : Int := if created ∧ (idx.isNone ∨ papi.start = PAPI_OK) then f.eventSet else f.before
  (papi, (p.reset f.reset handle f.atReset).getD p)

/-- The calls of `stop_thread`. -/
def stopThread (eventSet : Int) (events : List Int) (added : Fin MAX_EVENTS_PER_THREAD → Int)
    (f : StopFaults) : StopAnswers × Papi :=
  let failed : StopAnswers := ⟨added, PAPI_EINVAL, fun _ => PAPI_EINVAL, PAPI_EINVAL, PAPI_EINVAL⟩
  match p.stop f.stop eventSet f.atStop with
  | none => (failed, p)
  | some p =>
    let removeEvent := fun k event (p : Papi) => p.removeEvent (f.removeEvent k) eventSet event
    let failed := { failed with
      stop := PAPI_OK
      removeEvent := p.answers removeEvent events }
    let (removed, p) := p.each removeEvent 0 events
    if !removed then (failed, p)
    else
      match p.destroyEventset f.destroyEventset eventSet with
      | none => (failed, p)
      | some p =>
        let failed := { failed with destroyEventset := PAPI_OK }
        match p.unregisterThread f.unregisterThread with
        | none => (failed, p)
        | some p => ({ failed with unregisterThread := PAPI_OK }, p)

/-- The calls of `perfctr_halide_marker_stop`. -/
def markerStop (eventSet : Int) (events : List Int) (f : StopFaults) : StopAnswers × Papi :=
  let (added, p) := (p.accum f.accum eventSet f.atAccum).getD (fun _ => 0, p)
  p.stopThread eventSet events added f

end Papi

/-- The library, and what PAPI keeps: which threads are registered, and the event sets of all of them. -/
structure Library where
  api : State
  registered : Pthread → Bool
  sets : Int → Option EventSet

namespace Library

inductive Call where
  | register (m : Marker)
  | start (m : Marker) (f : StartFaults)
  /-- `before` is what lies before `threadsInfo`, for a thread that finds no place. -/
  | stop (m : Marker) (f : StopFaults) (before : Int)

variable (s : Library)

/-- What PAPI keeps for a thread. -/
def papi (self : Pthread) : Papi := ⟨s.registered self, s.sets⟩

/-- The state after a call of a thread. -/
def after (self : Pthread) (api : State) (papi : Papi) : Library where
  api := api
  registered := Function.update s.registered self papi.registered
  sets := papi.sets

/-- The set of the place that is found. -/
def eventSet (table : ThreadTable Int) (before : Int) : Option (Fin MAX_THREADS) → Int
  | none => before
  | some i => (table.threadsInfo i).rest

/-- The call with the answers that PAPI gives to it, and what PAPI keeps then. -/
def answered (self : Pthread) : Call → Option (PapiApi.Call × Papi)
  | .register m => some (.register m, s.papi self)
  | .start m f =>
    (s.api.table.findOrInsertThread (fun _ => PAPI_NULL) self).map fun (found, table) =>
      let handle := eventSet table f.before found.idx
      let (papi, p) := (s.papi self).markerStart found.idx handle s.api.eventArray f
      (.start m papi, p)
  | .stop m f before =>
    (s.api.table.findOrInsertThread (fun _ => PAPI_NULL) self).map fun (found, table) =>
      let handle := eventSet table before found.idx
      let (papi, p) := (s.papi self).markerStop handle s.api.eventArray f
      (.stop m papi, p)

/-- A call of a thread. -/
def step (e : Pthread × Call) : Option (Library × List Returned) :=
  (s.answered e.1 e.2).bind fun (call, papi) =>
    (PapiApi.step s.api (e.1, call)).map fun (api, returned) => (s.after e.1 api papi, returned)

end Library

/-! ### The calls of a thread that has a place -/

theorem ret_forEvents_each {call : Nat → Int → Papi → Option Papi} {papi : Nat → Int} (i : Int) {k : Nat}
    {events : List Int} {p : Papi} (h : ∀ j < events.length,
      papi (k + j) = if (Papi.each call k (events.take (j + 1)) p).1 then PAPI_OK else PAPI_EINVAL) :
    (State.forEvents papi i k events).ret = if (Papi.each call k events p).1 then 0 else -1 := by
  induction events generalizing k p with
  | nil => rfl
  | cons event events ih =>
    have hfirst := h 0 (Nat.succ_pos _)
    rw [Nat.add_zero, Nat.zero_add, List.take_succ_cons, List.take_zero, Papi.each] at hfirst
    rw [State.forEvents, Papi.each]
    cases hcall : call k event p with
    | none =>
      simp only [hcall] at hfirst
      rw [if_pos (hfirst ▸ PAPI_EINVAL_ne)]
      rfl
    | some p' =>
      simp only [hcall] at hfirst
      have hok : papi k = PAPI_OK := hfirst
      have hrest : ∀ j < events.length, papi (k + 1 + j)
          = if (Papi.each call (k + 1) (events.take (j + 1)) p').1 then PAPI_OK else PAPI_EINVAL := by
        intro j hj
        have hnext := h (j + 1) (Nat.succ_lt_succ hj)
        rw [List.take_succ_cons, Papi.each, hcall] at hnext
        rw [Nat.add_assoc, Nat.add_comm 1]
        exact hnext
      rw [if_neg (not_not.mpr hok)]
      exact ih hrest

namespace Papi

/-- A loop of the library gets through exactly if that of PAPI does. -/
theorem ret_forEvents_answers (call : Nat → Int → Papi → Option Papi) (i : Int) (events : List Int)
    (p : Papi) : (State.forEvents (p.answers call events) i 0 events).ret
      = if (p.each call 0 events).1 then 0 else -1 :=
  ret_forEvents_each i fun j _ => by
    rw [Nat.zero_add]
    rfl

theorem answers_eq_ok {call : Nat → Int → Papi → Option Papi} {events : List Int} {p : Papi}
    (h : (p.each call 0 events).1 = true) : ∀ k < events.length, p.answers call events k = PAPI_OK := by
  have hloop := ret_forEvents_answers call 0 events p
  rw [if_pos h, State.ret_forEvents_eq_zero_iff] at hloop
  intro k hk
  have hcall := hloop k hk
  rwa [Nat.zero_add] at hcall

/-- The last call of a start is made only if the others have succeeded. -/
theorem startThread_ok {p : Papi} {eventSet : Int} {events : List Int} {f : StartFaults}
    (h : (p.startThread eventSet events f).1.start = PAPI_OK) :
    (p.startThread eventSet events f).1.Ok events.length := by
  revert h
  rw [startThread]
  split
  · exact fun h => absurd h PAPI_EINVAL_ne
  split
  · exact fun h => absurd h PAPI_EINVAL_ne
  dsimp only
  split
  · exact fun h => absurd h PAPI_EINVAL_ne
  next hadded =>
    split
    · exact fun h => absurd h PAPI_EINVAL_ne
    · exact fun _ => ⟨rfl, rfl, answers_eq_ok (by simpa using hadded), rfl⟩

theorem accum_stopThread (p : Papi) (eventSet : Int) (events : List Int)
    (added : Fin MAX_EVENTS_PER_THREAD → Int) (f : StopFaults) :
    (p.stopThread eventSet events added f).1.accum = added := by
  rw [stopThread]
  split
  · rfl
  dsimp only
  split
  · rfl
  split
  · rfl
  split <;> rfl

theorem eventSet_startThread (p : Papi) (eventSet : Int) (events : List Int) (f : StartFaults) :
    (p.startThread eventSet events f).1.eventSet = f.eventSet := by
  rw [startThread]
  split
  · rfl
  split
  · rfl
  dsimp only
  split
  · rfl
  split <;> rfl

end Papi

namespace Thread

/-- `start_thread` makes the calls to PAPI that the library makes with the answers to them. -/
theorem startThread_eq (s : Thread) (i : Fin MAX_THREADS) (inserted : Option Bool) (f : StartFaults) :
    let answered := s.papi.startThread (s.eventSet i) s.api.eventArray f
    let started := s.api.startFound ⟨some i, inserted⟩ answered.1
    s.startThread i f = (started.1.ret, ⟨started.2, answered.2⟩) := by
  rw [Thread.startThread, Papi.startThread]
  cases hregister : s.papi.registerThread f.registerThread with
  | none => rfl
  | some p =>
    dsimp only
    cases hcreate : p.createEventset f.createEventset (s.eventSet i) f.eventSet with
    | none => rfl
    | some p =>
      have hadded := Papi.ret_forEvents_answers
        (fun k event p => p.addEvent (f.addEvent k) f.eventSet event) (i.val : Int) s.api.eventArray p
      simp only [State.eventArray_setEventSet]
      cases heach : p.each (fun k event p => p.addEvent (f.addEvent k) f.eventSet event) 0 s.api.eventArray with
      | mk through p' =>
        rw [heach] at hadded
        cases through with
        | false => simp [State.startFound, Found.threadIdx, hadded]
        | true =>
          cases hstart : p'.start f.start f.eventSet f.atStart with
          | none => simp [State.startFound, Found.threadIdx, hadded, PAPI_EINVAL_ne]
          | some p'' => simp [State.startFound, Found.threadIdx, hadded]

/-- What a start does to the state is what the library does, given PAPI's answers, and to PAPI what its
calls do. -/
theorem markerStart_eq (s : Thread) (i : Fin MAX_THREADS) (inserted : Option Bool) (f : StartFaults) :
    let answered := s.papi.markerStart (some i) (s.eventSet i) s.api.eventArray f
    let started := s.api.startFound ⟨some i, inserted⟩ answered.1
    s.markerStart i f = (started.1.ret, ⟨started.2, answered.2⟩) := by
  have hthread := s.startThread_eq i inserted f
  dsimp only at hthread ⊢
  rw [markerStart, hthread, Papi.markerStart]
  dsimp only
  by_cases hstart : (s.papi.startThread (s.eventSet i) s.api.eventArray f).1.start = PAPI_OK
  · have hok := Papi.startThread_ok hstart
    obtain ⟨hret, hstate⟩ := State.startFound_ok (s := s.api) ⟨some i, inserted⟩ hok
    have hidx : ((i.val : Int) = -1) = False := by
      simp only [eq_iff_iff, iff_false]
      omega
    have hset := Papi.eventSet_startThread s.papi (s.eventSet i) s.api.eventArray f
    simp [hret, hstate, hstart, hok.2.1, hset, Found.threadIdx, hidx]
  · have hfails : ¬ (s.papi.startThread (s.eventSet i) s.api.eventArray f).1.Ok s.api.eventArray.length :=
      fun hok => hstart hok.2.2.2
    have hret := State.startFound_error (s := s.api) ⟨some i, inserted⟩ hfails
    simp [hret, hstart]

/-- `stop_thread` makes the calls to PAPI that the library makes with the answers to them. -/
theorem stopThread_eq (s : Thread) (i : Fin MAX_THREADS) (inserted : Option Bool)
    (added : Fin MAX_EVENTS_PER_THREAD → Int) (f : StopFaults) :
    let answered := s.papi.stopThread (s.eventSet i) s.api.eventArray added f
    let stopped := s.api.stopThread ⟨some i, inserted⟩ answered.1
    s.stopThread i f = (stopped.1.ret, ⟨stopped.2, answered.2⟩) := by
  rw [Thread.stopThread, Papi.stopThread]
  cases hstop : s.papi.stop f.stop (s.eventSet i) f.atStop with
  | none => simp [State.stopThread, PAPI_EINVAL_ne]
  | some p =>
    dsimp only
    have hremoved := Papi.ret_forEvents_answers
      (fun k event p => p.removeEvent (f.removeEvent k) (s.eventSet i) event) (i.val : Int) s.api.eventArray p
    cases heach : p.each (fun k event p => p.removeEvent (f.removeEvent k) (s.eventSet i) event) 0
        s.api.eventArray with
    | mk through p' =>
      rw [heach] at hremoved
      cases through with
      | false => simp [State.stopThread, Found.threadIdx, hremoved]
      | true =>
        cases hdestroy : p'.destroyEventset f.destroyEventset (s.eventSet i) with
        | none => simp [State.stopThread, Found.threadIdx, hremoved, PAPI_EINVAL_ne]
        | some p'' =>
          cases hunregister : p''.unregisterThread f.unregisterThread <;>
            simp [State.stopThread, Found.threadIdx, hremoved, hunregister, PAPI_EINVAL_ne]

theorem markerStop_eq (s : Thread) (i : Fin MAX_THREADS) (inserted : Option Bool) (m : Marker)
    (f : StopFaults) :
    let answered := s.papi.markerStop (s.eventSet i) s.api.eventArray f
    (s.markerStop i m f).2 = ⟨(s.api.stopFound ⟨some i, inserted⟩ m answered.1).2, answered.2⟩ := by
  cases haccum : (s.papi.accum f.accum (s.eventSet i) f.atAccum).getD (fun _ => 0, s.papi) with
  | mk added p =>
    have hthread := Thread.stopThread_eq ⟨s.api.accumulate (some i) m added, p⟩ i inserted added f
    dsimp only
    rw [markerStop, Papi.markerStop, haccum]
    dsimp only
    rw [hthread, State.stopFound, Papi.accum_stopThread]
    rfl

end Thread

namespace Library

variable {s : Library} {self : Pthread} {i : Fin MAX_THREADS}

/-- For a thread that has a place, the library and PAPI do what is done to them as the thread's own. -/
theorem step_start_of_scan (h : s.api.table.scan self.thid = some i) (m : Marker) (f : StartFaults) :
    ∃ out, s.step (self, .start m f) =
      some (s.after self (Thread.markerStart ⟨s.api, s.papi self⟩ i f).2.api
        (Thread.markerStart ⟨s.api, s.papi self⟩ i f).2.papi, out) := by
  have hfound : s.api.table.findOrInsertThread (fun _ => PAPI_NULL) self
      = some (⟨some i, some false⟩, s.api.table) := by
    rw [ThreadTable.findOrInsertThread, h]
  rw [Thread.markerStart_eq _ i (some false)]
  simp only [step, answered, hfound, Option.map_some, Option.bind_some, PapiApi.step_start hfound]
  exact ⟨_, rfl⟩

theorem step_stop_of_scan (h : s.api.table.scan self.thid = some i) (m : Marker) (f : StopFaults)
    (before : Int) : ∃ out, s.step (self, .stop m f before) =
      some (s.after self (Thread.markerStop ⟨s.api, s.papi self⟩ i m f).2.api
        (Thread.markerStop ⟨s.api, s.papi self⟩ i m f).2.papi, out) := by
  have hfound : s.api.table.findOrInsertThread (fun _ => PAPI_NULL) self
      = some (⟨some i, some false⟩, s.api.table) := by
    rw [ThreadTable.findOrInsertThread, h]
  rw [Thread.markerStop_eq _ i (some false)]
  simp only [step, answered, hfound, Option.map_some, Option.bind_some, PapiApi.step_stop hfound]
  exact ⟨_, rfl⟩

end Library

end PapiApi

end ProfHalide
