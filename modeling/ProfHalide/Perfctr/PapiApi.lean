import ProfHalide.Perfctr.Threads

/-!
# The PAPI library

`papi_api.c` runs an event set for each thread between the calls that start and stop a marker, and adds up
the counters by marker and thread. What PAPI itself answers to its calls is part of the input.
-/

namespace ProfHalide

namespace PapiApi

abbrev NUM_MARKER_TYPES : Nat := 4
abbrev MAX_MARKERS_PER_TYPE : Nat := 128
abbrev MAX_EVENTS_PER_THREAD : Nat := 16

def PAPI_OK : Int := 0
def PAPI_NULL : Int := -1

/-- The id and the type of a marker, which index the tables. -/
structure Marker where
  id : Fin MAX_MARKERS_PER_TYPE
  type : Fin NUM_MARKER_TYPES
  deriving DecidableEq, Repr

/-- The position of `counters_set_flag[i][j][k]`. -/
def flagIndex (i j k : Nat) : Nat := (i * NUM_MARKER_TYPES + j) * MAX_THREADS + k

structure State where
  /-- `rest` is `event_set`. -/
  table : ThreadTable Int
  /-- The first `num_events` elements of `event_array`. -/
  eventArray : List Int
  counters : Marker → Fin MAX_THREADS → Fin MAX_EVENTS_PER_THREAD → Int
  /-- `counters_set_flag`, by position. -/
  countersSetFlag : Nat → Bool

/-- The globals of a process that starts. -/
def State.initial : State where
  table := .initial 0
  eventArray := []
  counters _ _ _ := 0
  countersSetFlag _ := false

/-- What is returned to the calls of `perfctr_halide_initialize`. -/
structure InitAnswers where
  mutexInit : Int
  allocated : Bool
  /-- `PAPI_library_init` returns the version asked for. -/
  version : Bool
  /-- The events of the configuration that PAPI knows. -/
  events : List Int
  threadInit : Int

/-- What PAPI answers to the calls of `start_thread`. -/
structure StartAnswers where
  registerThread : Int
  createEventset : Int
  /-- The event set that is created. -/
  eventSet : Int
  /-- By the position of the event. -/
  addEvent : Nat → Int
  start : Int

/-- No call fails; so many events are added. -/
def StartAnswers.Ok (papi : StartAnswers) (numEvents : Nat) : Prop :=
  papi.registerThread = PAPI_OK ∧ papi.createEventset = PAPI_OK ∧
    (∀ k < numEvents, papi.addEvent k = PAPI_OK) ∧ papi.start = PAPI_OK

/-- What PAPI answers to the calls of `perfctr_halide_marker_stop`. -/
structure StopAnswers where
  /-- What `PAPI_accum` adds to the counters. -/
  accum : Fin MAX_EVENTS_PER_THREAD → Int
  stop : Int
  removeEvent : Nat → Int
  destroyEventset : Int
  unregisterThread : Int

/-- The calls that a loop makes from the `k`-th on all succeed. -/
theorem forall_lt_succ_add (ok : Nat → Prop) {k n : Nat} :
    (∀ j < n + 1, ok (k + j)) ↔ ok k ∧ ∀ j < n, ok (k + 1 + j) := by
  simp only [Nat.forall_lt_succ_left, Nat.add_zero, Nat.add_assoc, Nat.add_comm 1]

namespace State

variable (s : State)

def findOrInsertThread (self : Pthread) : Option (Found × State) :=
  (s.table.findOrInsertThread (fun _ => PAPI_NULL) self).map fun (found, table) =>
    (found, { s with table := table })

/-! ### Starting up and shutting down -/

/-- The positions that the loops of `perfctr_halide_initialize` store to, in their order: they run over
`counters_set_flag[t][m][th]`, with `th` up to `MAX_MARKERS_PER_TYPE`. -/
def clearedFlags : List Nat :=
  (List.range NUM_MARKER_TYPES).flatMap fun t =>
    (List.range MAX_MARKERS_PER_TYPE).flatMap fun m =>
      (List.range MAX_MARKERS_PER_TYPE).map fun th => flagIndex t m th

/-- `perfctr_halide_initialize`. -/
def init (papi : InitAnswers) : Int × State :=
  if papi.mutexInit ≠ 0 then (-1, s)
  else
    let s := { s with table := { s.table with locked := false } }
    if !papi.allocated || !papi.version then (-1, s)
    else
      let s := { s with
        eventArray := papi.events
        countersSetFlag :=
          clearedFlags.foldl (fun flags p => Function.update flags p false) s.countersSetFlag }
      if papi.threadInit ≠ PAPI_OK then (-1, s) else (0, s)

/-- What a start that succeeds leaves. -/
theorem init_eq {s : State} {papi : InitAnswers} (h : (s.init papi).1 = 0) :
    (s.init papi).2 = { s with
      table := { s.table with locked := false }
      eventArray := papi.events
      countersSetFlag :=
        clearedFlags.foldl (fun flags p => Function.update flags p false) s.countersSetFlag } := by
  simp only [init] at h ⊢
  split_ifs at h ⊢ with hmutex hversion hthreads
  · cases h
  · cases h
  · cases h
  · rfl

/-- `perfctr_halide_shutdown`, which frees the state that holds the events. -/
def shutdown : State := { s with eventArray := [] }

/-! ### Markers -/

def setEventSet (idx : Option (Fin MAX_THREADS)) (eventSet : Int) : State :=
  match idx with
  | none => s
  | some i => { s with table := s.table.setRest i eventSet }

/-- The loop over the events from the `k`-th on, as far as the first that PAPI returns an error for. -/
def forEvents (papi : Nat → Int) (i : Int) : Nat → List Int → Returned
  | _, [] => ⟨0, []⟩
  | k, _ :: events =>
    if papi k ≠ PAPI_OK then ⟨-1, [i]⟩
    else
      let rest := forEvents papi i (k + 1) events
      ⟨rest.ret, i :: rest.indices⟩

/-- `start_thread` with the place it has found. -/
def startFound (found : Found) (papi : StartAnswers) : Returned × State :=
  let i := found.threadIdx
  if papi.registerThread ≠ PAPI_OK then (⟨-1, []⟩, s)
  else if papi.createEventset ≠ PAPI_OK then (⟨-1, [i]⟩, s)
  else
    let s := s.setEventSet found.idx papi.eventSet
    let added := forEvents papi.addEvent i 0 s.eventArray
    if added.ret ≠ 0 then (⟨-1, i :: added.indices⟩, s)
    else if papi.start ≠ PAPI_OK then (⟨-1, i :: added.indices ++ [i]⟩, s)
    else (⟨i, i :: added.indices ++ [i]⟩, s)

def startThread (self : Pthread) (papi : StartAnswers) : Option (Returned × State) :=
  (s.findOrInsertThread self).map fun (found, s) => s.startFound found papi

def stopThread (found : Found) (papi : StopAnswers) : Returned × State :=
  let i := found.threadIdx
  if papi.stop ≠ PAPI_OK then (⟨-1, [i]⟩, s)
  else
    let removed := forEvents papi.removeEvent i 0 s.eventArray
    if removed.ret ≠ 0 then (⟨-1, i :: removed.indices⟩, s)
    else if papi.destroyEventset ≠ PAPI_OK then (⟨-1, i :: removed.indices ++ [i]⟩, s)
    else
      let s := s.setEventSet found.idx PAPI_NULL
      if papi.unregisterThread ≠ PAPI_OK then (⟨-1, i :: removed.indices ++ [i]⟩, s)
      else (⟨0, i :: removed.indices ++ [i]⟩, s)

def markerRegister : Returned × State := (⟨0, []⟩, s)

def markerStart (self : Pthread) (papi : StartAnswers) : Option (Returned × State) :=
  -- `PAPI_reset(threadsInfo[thread_idx].event_set)`, whatever `start_thread` returned.
  (s.startThread self papi).map fun (started, s) => (⟨0, started.indices ++ [started.ret]⟩, s)

/-- `PAPI_accum`, and the flag. -/
def accumulate (idx : Option (Fin MAX_THREADS)) (m : Marker)
    (values : Fin MAX_EVENTS_PER_THREAD → Int) : State :=
  match idx with
  | none => s
  | some i => { s with
      counters := Function.update s.counters m (Function.update (s.counters m) i fun e =>
        s.counters m i e + values e)
      countersSetFlag := Function.update s.countersSetFlag (flagIndex m.id m.type i) true }

/-- `perfctr_halide_marker_stop` with the place it has found. -/
def stopFound (found : Found) (m : Marker) (papi : StopAnswers) : Returned × State :=
  let i := found.threadIdx
  let (stopped, s) := (s.accumulate found.idx m papi.accum).stopThread found papi
  (⟨0, [i, i, i] ++ stopped.indices⟩, s)

def markerStop (self : Pthread) (m : Marker) (papi : StopAnswers) : Option (Returned × State) :=
  (s.findOrInsertThread self).map fun (found, s) => s.stopFound found m papi

theorem ret_forEvents_eq_zero_iff {papi : Nat → Int} {i : Int} {k : Nat} {events : List Int} :
    (forEvents papi i k events).ret = 0 ↔ ∀ j < events.length, papi (k + j) = PAPI_OK := by
  induction events generalizing k with
  | nil => exact iff_of_true rfl nofun
  | cons event events ih =>
    rw [List.length_cons, forall_lt_succ_add fun k => papi k = PAPI_OK, ← ih, forEvents]
    split
    · next herror => exact iff_of_false (by simp) fun h => herror h.1
    · next hok => exact (and_iff_right (not_not.mp hok)).symm

theorem eq_of_mem_forEvents {papi : Nat → Int} {i j : Int} {k : Nat} {events : List Int}
    (h : j ∈ (forEvents papi i k events).indices) : j = i := by
  induction events generalizing k with
  | nil => cases h
  | cons event events ih =>
    rw [forEvents] at h
    split at h
    · exact List.mem_singleton.mp h
    · exact (List.mem_cons.mp h).elim id ih

section

variable {s : State}

@[simp] theorem locked_setEventSet (idx : Option (Fin MAX_THREADS)) (eventSet : Int) :
    (s.setEventSet idx eventSet).table.locked = s.table.locked := by
  cases idx <;> rfl

@[simp] theorem owners_setEventSet (idx : Option (Fin MAX_THREADS)) (eventSet : Int) :
    (s.setEventSet idx eventSet).table.owners = s.table.owners := by
  cases idx with
  | none => rfl
  | some i => exact ThreadTable.owners_setRest ..

@[simp] theorem table_accumulate (idx : Option (Fin MAX_THREADS)) (m : Marker)
    (values : Fin MAX_EVENTS_PER_THREAD → Int) : (s.accumulate idx m values).table = s.table := by
  cases idx <;> rfl

@[simp] theorem eventArray_setEventSet (idx : Option (Fin MAX_THREADS)) (eventSet : Int) :
    (s.setEventSet idx eventSet).eventArray = s.eventArray := by
  cases idx <;> rfl

end

end State

/-! ### Calls -/

inductive Call where
  | register (m : Marker)
  | start (m : Marker) (papi : StartAnswers)
  | stop (m : Marker) (papi : StopAnswers)

def answer (s : State) (self : Pthread) : Call → Option (Returned × State)
  | .register _ => some s.markerRegister
  | .start _ papi => s.markerStart self papi
  | .stop m papi => s.markerStop self m papi

/-- A call of a thread. -/
def step (s : State) (e : Pthread × Call) : Option (State × List Returned) :=
  (answer s e.1 e.2).map fun (returned, s) => (s, [returned])

section

variable {s : State} {self : Pthread} {found : Found} {table : ThreadTable Int}

theorem step_start (h : s.table.findOrInsertThread (fun _ => PAPI_NULL) self = some (found, table))
    (m : Marker) (papi : StartAnswers) :
    let r := { s with table := table }.startFound found papi
    step s (self, .start m papi) = some (r.2, [⟨0, r.1.indices ++ [r.1.ret]⟩]) := by
  simp only [step, answer, State.markerStart, State.startThread, State.findOrInsertThread, h,
    Option.map_some]

theorem step_stop (h : s.table.findOrInsertThread (fun _ => PAPI_NULL) self = some (found, table))
    (m : Marker) (papi : StopAnswers) :
    let r := { s with table := table }.stopFound found m papi
    step s (self, .stop m papi) = some (r.2, [r.1]) := by
  simp only [step, answer, State.markerStop, State.findOrInsertThread, h, Option.map_some]

end

end PapiApi

end ProfHalide
