import ProfHalide.Perfctr.Events

/-!
# Starting the PAPI library

`perfctr_halide_initialize` sets the globals one after the other, and returns in between if a call fails.
The calls for the markers and `perfctr_halide_shutdown` use them without a check.
-/

namespace ProfHalide

namespace PapiApi

open CString Chain

/-- A pointer of the globals, and what it points to. -/
inductive Global (α : Type) where
  | null
  | live (value : α)
  | freed
  deriving DecidableEq, Repr

/-- Why a call does not return. -/
inductive Stop where
  /-- It waits for a lock that is not given back. -/
  | blocked
  | nullPointer
  /-- It reads a field that is not set, or freed. -/
  | noValue
  /-- It accesses an array outside. -/
  | outside
  deriving DecidableEq, Repr

namespace Global

variable {α β : Type}

/-- A read of a field. -/
def read (g : Global α) (field : α → Option β) : Except Stop β :=
  match g with
  | null => .error .nullPointer
  | live value =>
    match field value with
    | none => .error .noValue
    | some b => .ok b
  | freed => .error .noValue

def free : Global α → Except Stop (Global α)
  | null => .ok null
  | live _ => .ok freed
  | freed => .error .noValue

end Global

/-- The globals of the library: what is behind `global_state` and `global_config`, and the others. -/
structure Process where
  state : Global GlobalState
  config : Global Config
  heap : Heap
  api : State

def Process.initial : Process where
  state := .null
  config := .null
  heap := ⟨[], 0, []⟩
  api := .initial

/-- What is returned to the calls of `perfctr_halide_initialize`, and what lies in the memory it gets. -/
structure Startup where
  mutexInit : Int
  /-- There is memory for `global_state`. -/
  allocated : Bool
  /-- `PAPI_library_init` returns the version asked for. -/
  version : Bool
  /-- The lines of the file, if it can be opened. -/
  file : Option (List Line)
  configLine : Buffer Char MAX_CONFIG_LINE
  /-- The memory for `global_config`, if there is any. -/
  memory : Option Config
  /-- Which calls of `malloc` for an event succeed. -/
  gives : Nat → Bool
  eventNameToCode : List Char → Option Int
  threadInit : Int

/-- The fields of a state that is allocated. -/
def GlobalState.unset : GlobalState where
  eventArray := List.Vector.replicate MAX_EVENTS_PER_THREAD none
  eventSet := none
  numEvents := none
  events := none

/-- The state that `build_events` is called for. -/
def GlobalState.cleared : GlobalState := { unset with eventSet := some (-1), events := some none }

namespace Process

variable (p : Process)

/-- The globals with what `build_events` leaves, and the flags cleared. -/
def fill (built : Build) : Process where
  state := .live { built.state with numEvents := some built.counter }
  config := .live ⟨built.chars⟩
  heap := built.heap
  api := { p.api with
    eventArray := (built.state.eventArray.toList.take built.counter).reduceOption
    countersSetFlag := State.clearedFlags.foldl (fun flags p => Function.update flags p false)
      p.api.countersSetFlag }

/-- `perfctr_halide_initialize`. -/
def init (a : Startup) : Except Stop (Int × Process) :=
  if a.mutexInit ≠ 0 then .ok (-1, p)
  else
    let p := { p with api := { p.api with table := { p.api.table with locked := false } } }
    if !a.allocated then .ok (-1, { p with state := .null })
    else if !a.version then .ok (-1, { p with state := .live .unset })
    else
      match getPapiApiConfig a.file a.configLine a.memory with
      | none => .error .outside
      -- `build_events` reads `config->events`.
      | some none => .error .nullPointer
      | some (some config) =>
        match buildEvents a.eventNameToCode a.gives .cleared p.heap config with
        | none => .error .outside
        | some built => if a.threadInit ≠ PAPI_OK then .ok (-1, p.fill built) else .ok (0, p.fill built)

/-- The rest of a loop over the events, as far as the first that PAPI returns an error for. -/
def forEventsFrom (papi : Nat → Int) (state : Global GlobalState) : List Nat → Except Stop Int
  | [] => .ok 0
  | i :: is => do
      let _ ← state.read fun s => s.eventArray.toList[i]?.join
      if papi i ≠ PAPI_OK then return -1 else forEventsFrom papi state is

def forEvents (papi : Nat → Int) (state : Global GlobalState) : Except Stop Int := do
  let numEvents ← state.read GlobalState.numEvents
  forEventsFrom papi state (List.range numEvents)

/-- `perfctr_halide_marker_start`. -/
def markerStart (self : Pthread) (papi : StartAnswers) : Except Stop Process :=
  match p.api.findOrInsertThread self with
  | none => .error .blocked
  | some (found, api) =>
    if papi.registerThread ≠ PAPI_OK then .ok { p with api := api }
    else if papi.createEventset ≠ PAPI_OK then .ok { p with api := api }
    else do
      let _ ← forEvents papi.addEvent p.state
      return { p with api := api.setEventSet found.idx papi.eventSet }

/-- `perfctr_halide_marker_stop`. -/
def markerStop (self : Pthread) (m : Marker) (papi : StopAnswers) : Except Stop Process :=
  match p.api.findOrInsertThread self with
  | none => .error .blocked
  | some (found, api) =>
    let api := api.accumulate found.idx m papi.accum
    if papi.stop ≠ PAPI_OK then .ok { p with api := api }
    else do
      let removed ← forEvents papi.removeEvent p.state
      if removed ≠ 0 then return { p with api := api }
      else if papi.destroyEventset ≠ PAPI_OK then return { p with api := api }
      else return { p with api := api.setEventSet found.idx PAPI_NULL }

/-- `perfctr_halide_shutdown`. -/
def shutdown : Except Stop Process := do
  let events ← p.state.read GlobalState.events
  match p.heap.freeEvents events with
  | none => .error .noValue
  | some heap =>
    let config ← p.config.free
    let state ← p.state.free
    return { p with state := state, config := config, heap := heap, api := p.api.shutdown }

end Process

/-- A call for a marker. -/
def Process.call (p : Process) (e : Pthread × Call) : Except Stop Process :=
  match e.2 with
  | .register _ => .ok p
  | .start _ papi => p.markerStart e.1 papi
  | .stop m papi => p.markerStop e.1 m papi

/-- A call after `perfctr_halide_initialize`. -/
inductive Later where
  | marker (e : Pthread × Call)
  | shutdown

def Process.later (p : Process) : Later → Except Stop Process
  | .marker e => p.call e
  | .shutdown => p.shutdown

/-- The configuration is read, and all fields of the state are set: the array and the list hold the codes
of the events it names. -/
def Process.Ready (p : Process) (a : Startup) : Prop :=
  ∃ config state events nodes,
    getPapiApiConfig a.file a.configLine a.memory = some (some config) ∧
    p.state = .live state ∧ state.numEvents = some (codes a.eventNameToCode config).length ∧
    state.eventArray.toList.take (codes a.eventNameToCode config).length
      = (codes a.eventNameToCode config).map some ∧
    state.events = some events ∧ IsChain p.heap.next events nodes ∧
    nodes.map (fun q => (p.heap.read q).map Event.eventId) = (codes a.eventNameToCode config).map some

/-- A start that returns has all set if it returns 0, and leaves nothing behind that a later call must not
use if it returns -1. -/
def StartsCleanly (a : Startup) : Prop :=
  ∃ ret p, Process.initial.init a = .ok (ret, p) ∧ (ret = 0 → p.Ready a) ∧
    (ret = -1 → ∀ (calls : List Later) (stop : Stop),
      calls.foldlM Process.later p = .error stop → stop = .blocked)

/-- Every call succeeds, every line fits, the events that are read end in their array, and not more of them
have a code than there is room for. -/
def Startup.Succeeds (a : Startup) : Prop :=
  a.mutexInit = 0 ∧ a.allocated = true ∧ a.version = true ∧ a.threadInit = PAPI_OK ∧
    ∃ lines memory, a.file = some lines ∧ a.memory = some memory ∧ (∀ line ∈ lines, line.Fits) ∧
      ((lastEvents lines).isSome ∨ NUL ∈ memory.events.toList) ∧
      let new := (words ',' (eventsRead lines memory)).filterMap a.eventNameToCode
      new.length ≤ MAX_EVENTS_PER_THREAD ∧ ∀ k < new.length, a.gives k = true

section

variable {a : Startup} {p : Process} {stop : Stop}

theorem not_startsCleanly_of_error (h : Process.initial.init a = .error stop) : ¬ StartsCleanly a := by
  rintro ⟨ret, p, hinit, _⟩
  rw [h] at hinit
  cases hinit

theorem not_startsCleanly_of_later (calls : List Later) (h : Process.initial.init a = .ok (-1, p))
    (hrun : calls.foldlM Process.later p = .error stop) (hstop : stop ≠ .blocked) : ¬ StartsCleanly a := by
  rintro ⟨ret, p', hinit, _, hlater⟩
  rw [h] at hinit
  cases hinit
  exact hstop (hlater rfl calls stop hrun)

/-- Before the configuration, a call that fails leaves a state that `perfctr_halide_shutdown` cannot read. -/
theorem startsCleanly_early (h : StartsCleanly a) :
    a.mutexInit = 0 ∧ a.allocated = true ∧ a.version = true := by
  have hmutex : a.mutexInit = 0 := by
    by_contra hmutex
    have hinit : Process.initial.init a = .ok (-1, Process.initial) := by
      rw [Process.init, if_pos hmutex]
    exact not_startsCleanly_of_later [.shutdown] hinit rfl (by decide) h
  have hallocated : a.allocated = true := by
    by_contra hallocated
    have hinit : Process.initial.init a = .ok (-1, Process.initial) := by
      rw [Process.init, if_neg (not_not_intro hmutex), if_pos (by simpa using hallocated)]
      rfl
    exact not_startsCleanly_of_later [.shutdown] hinit rfl (by decide) h
  refine ⟨hmutex, hallocated, ?_⟩
  by_contra hversion
  have hinit : Process.initial.init a = .ok (-1, { Process.initial with state := .live .unset }) := by
    rw [Process.init, if_neg (not_not_intro hmutex), if_neg (by simp [hallocated]),
      if_pos (by simpa using hversion)]
    rfl
  exact not_startsCleanly_of_later [.shutdown] hinit rfl (by decide) h

theorem init_eq (hmutex : a.mutexInit = 0) (hallocated : a.allocated = true) (hversion : a.version = true) :
    Process.initial.init a = match getPapiApiConfig a.file a.configLine a.memory with
      | none => .error .outside
      | some none => .error .nullPointer
      | some (some config) =>
        match buildEvents a.eventNameToCode a.gives .cleared Process.initial.heap config with
        | none => .error .outside
        | some built =>
          if a.threadInit ≠ PAPI_OK then .ok (-1, Process.initial.fill built)
          else .ok (0, Process.initial.fill built) := by
  rw [Process.init, if_neg (not_not_intro hmutex), if_neg (by simp [hallocated]), if_neg (by simp [hversion])]
  rfl

/-- The list that `build_events` leaves is freed, and the state with it. -/
theorem shutdown_fill {heap : Heap} {new : List Int} {built : Build} (h : Built .cleared heap new built) :
    ∃ p', (p.fill built).shutdown = .ok p' ∧ p'.state = .freed := by
  obtain ⟨nodes, hevents, _, hchain, _⟩ := h.list
  obtain ⟨heap', hfree, _⟩ := Heap.freeEvents_eq hchain
  refine ⟨{ p.fill built with
    state := .freed
    config := .freed
    heap := heap'
    api := (p.fill built).api.shutdown }, ?_, rfl⟩
  have hread : (p.fill built).state.read GlobalState.events = .ok nodes.head? := by
    rw [Process.fill, Global.read]
    simp only [hevents]
  have hheap : (p.fill built).heap.freeEvents nodes.head? = some heap' := hfree
  rw [Process.shutdown, hread]
  simp only [Bind.bind, Except.bind, hheap]
  rfl

/-- Once the state is freed, it cannot be shut down. -/
theorem shutdown_freed (h : p.state = .freed) : p.shutdown = .error .noValue := by
  rw [Process.shutdown, h]
  rfl

theorem startsCleanly_config (h : StartsCleanly a) : ∃ lines memory, a.file = some lines ∧
    a.memory = some memory ∧ ∀ line ∈ lines, line.Fits := by
  obtain ⟨hmutex, hallocated, hversion⟩ := startsCleanly_early h
  have hinit := init_eq hmutex hallocated hversion
  cases hfile : a.file with
  | none =>
    rw [hfile, getPapiApiConfig] at hinit
    exact absurd h (not_startsCleanly_of_error hinit)
  | some lines =>
    cases hmemory : a.memory with
    | none =>
      rw [hfile, hmemory, getPapiApiConfig] at hinit
      exact absurd h (not_startsCleanly_of_error hinit)
    | some memory =>
      refine ⟨lines, memory, rfl, rfl, ?_⟩
      by_contra hfits
      rw [hfile, hmemory, getPapiApiConfig_of_not_fits hfits] at hinit
      exact not_startsCleanly_of_error hinit h

theorem startsCleanly_events (h : StartsCleanly a) {config : Config}
    (hread : getPapiApiConfig a.file a.configLine a.memory = some (some config)) :
    NUL ∈ config.events.toList ∧ ∃ built,
      Built .cleared Process.initial.heap (kept a.gives 0 (codes a.eventNameToCode config)) built ∧
      a.threadInit = PAPI_OK ∧ (Process.initial.fill built).Ready a := by
  obtain ⟨hmutex, hallocated, hversion⟩ := startsCleanly_early h
  have hinit := init_eq hmutex hallocated hversion
  rw [hread] at hinit
  dsimp only at hinit
  have hnul : NUL ∈ config.events.toList := by
    by_contra hnul
    rw [buildEvents_overrun hnul] at hinit
    exact not_startsCleanly_of_error hinit h
  refine ⟨hnul, ?_⟩
  have hcleared : GlobalState.cleared.events = some none := rfl
  obtain ⟨hbuild, hoverflow⟩ :=
    buildEvents_spec a.gives Process.initial.heap a.eventNameToCode hcleared hnul
  rcases Nat.lt_or_ge MAX_EVENTS_PER_THREAD (kept a.gives 0 (codes a.eventNameToCode config)).length
    with hlt | hle
  · have hnone := hoverflow hlt
    rw [hnone] at hinit
    exact absurd h (not_startsCleanly_of_error hinit)
  obtain ⟨built, hbuild, hbuilt⟩ := hbuild hle
  rw [hbuild] at hinit
  dsimp only at hinit
  have hthreads : a.threadInit = PAPI_OK := by
    by_contra hthreads
    rw [if_pos hthreads] at hinit
    obtain ⟨p', hshutdown, hfreed⟩ := shutdown_fill (p := .initial) hbuilt
    have hrun : [Later.shutdown, .shutdown].foldlM Process.later (Process.initial.fill built)
        = .error .noValue := by
      rw [List.foldlM_cons, Process.later, hshutdown]
      exact congrArg (· >>= pure) (shutdown_freed hfreed)
    exact not_startsCleanly_of_later _ hinit hrun (by decide) h
  refine ⟨built, hbuilt, hthreads, ?_⟩
  obtain ⟨ret, p, hok, hready, _⟩ := h
  rw [if_neg (not_not_intro hthreads), hok] at hinit
  cases hinit
  exact hready rfl

end

theorem startsCleanly_iff (a : Startup) : StartsCleanly a ↔ a.Succeeds := by
  constructor
  · intro h
    obtain ⟨hmutex, hallocated, hversion⟩ := startsCleanly_early h
    obtain ⟨lines, memory, hfile, hmemory, hfits⟩ := startsCleanly_config h
    obtain ⟨config, hread, hstring, hnul⟩ := getPapiApiConfig_of_fits hfits a.configLine memory
    rw [← hfile, ← hmemory] at hread
    obtain ⟨hterminated, built, hbuilt, hthreads, hready⟩ := startsCleanly_events h hread
    obtain ⟨config', state, _, _, hread', hstate, hnum, _⟩ := hready
    rw [hread] at hread'
    cases hread'
    cases hstate
    have hlength : (kept a.gives 0 (codes a.eventNameToCode config)).length
        = (codes a.eventNameToCode config).length := hbuilt.counter.symm.trans (Option.some.inj hnum)
    have hgives := gives_of_length_kept hlength
    have hroom := hbuilt.length_le
    rw [hlength] at hroom
    simp only [Nat.zero_add, codes, hstring] at hgives hroom
    exact ⟨hmutex, hallocated, hversion, hthreads, lines, memory, hfile, hmemory, hfits, hnul.mp hterminated,
      hroom, hgives⟩
  · rintro ⟨hmutex, hallocated, hversion, hthreads, lines, memory, hfile, hmemory, hfits, hnul, hroom, hgives⟩
    obtain ⟨config, hread, hstring, hnul'⟩ := getPapiApiConfig_of_fits hfits a.configLine memory
    rw [← hstring] at hroom hgives
    have hkept : kept a.gives Process.initial.heap.asked (codes a.eventNameToCode config)
        = codes a.eventNameToCode config := by
      refine kept_eq_self fun k hk => ?_
      show a.gives (0 + k) = true
      rw [Nat.zero_add]
      exact hgives k hk
    have hcleared : GlobalState.cleared.events = some none := rfl
    have hspec :=
      (buildEvents_spec a.gives Process.initial.heap a.eventNameToCode hcleared (hnul'.mpr hnul)).1
    rw [← hfile, ← hmemory] at hread
    rw [hkept] at hspec
    obtain ⟨built, hbuild, hbuilt⟩ := hspec hroom
    have hinit : Process.initial.init a = .ok (0, Process.initial.fill built) := by
      rw [init_eq hmutex hallocated hversion, hread]
      dsimp only
      rw [hbuild]
      exact if_neg (not_not_intro hthreads)
    refine ⟨0, _, hinit, fun _ => ?_, fun h => absurd h (by decide)⟩
    obtain ⟨nodes, hevents, _, hchain, hids⟩ := hbuilt.list
    refine ⟨config, _, nodes.head?, nodes, hread, rfl, congrArg some hbuilt.counter, ?_, hevents, hchain,
      hids⟩
    show built.state.eventArray.toList.take _ = _
    rw [hbuilt.eventArray]
    exact List.take_left' (List.length_map _)

/-- A start without a file for the configuration. -/
def noFile : Startup where
  mutexInit := 0
  allocated := true
  version := true
  file := none
  configLine := List.Vector.replicate MAX_CONFIG_LINE NUL
  memory := some ⟨List.Vector.replicate MAX_CONFIG_LINE NUL⟩
  gives _ := true
  eventNameToCode _ := none
  threadInit := PAPI_OK

/-- The events are read through a null pointer. -/
theorem not_startsCleanly_noFile : ¬ ∀ a : Startup, StartsCleanly a := by
  intro h
  have hinit : Process.initial.init noFile = .error .nullPointer := rfl
  exact not_startsCleanly_of_error hinit (h noFile)

/-! ### After a start

Once a start has returned 0, the calls for the markers are those of a library that has its events. -/

/-- The state holds these events. -/
def Process.Holds (p : Process) (events : List Int) : Prop :=
  p.api.eventArray = events ∧ ∃ state, p.state = .live state ∧ state.numEvents = some events.length ∧
    state.eventArray.toList.take events.length = events.map some

section

variable {p : Process} {events : List Int}

theorem forEventsFrom_eq {state : GlobalState}
    (h : state.eventArray.toList.take events.length = events.map some) (papi : Nat → Int) (i : Int)
    {k m : Nat} (hk : k + m = events.length) :
    Process.forEventsFrom papi (.live state) (List.range' k m)
      = .ok (State.forEvents papi i k (events.drop k)).ret := by
  induction m generalizing k with
  | zero =>
    rw [List.drop_eq_nil_of_le (by omega)]
    rfl
  | succ m ih =>
    have hlt : k < events.length := by omega
    have hget : state.eventArray.toList[k]? = some (some events[k]) := by
      rw [← List.getElem?_take_of_lt hlt, h, List.getElem?_map, List.getElem?_eq_getElem hlt]
      rfl
    have hread : (Global.live state).read (fun s => s.eventArray.toList[k]?.join) = .ok events[k] := by
      rw [Global.read]
      simp only [hget, Option.join_some]
    rw [List.range'_succ, Process.forEventsFrom, hread, List.drop_eq_getElem_cons hlt, State.forEvents]
    simp only [Bind.bind, Except.bind]
    split
    · rfl
    · exact ih (by omega)

theorem Process.Holds.forEvents (h : p.Holds events) (papi : Nat → Int) (i : Int) :
    Process.forEvents papi p.state = .ok (State.forEvents papi i 0 p.api.eventArray).ret := by
  obtain ⟨hevents, state, hstate, hnum, harray⟩ := h
  have hread : (Global.live state).read GlobalState.numEvents = .ok events.length := by
    rw [Global.read]
    simp only [hnum]
  rw [hstate, Process.forEvents, hread, hevents]
  simp only [Bind.bind, Except.bind]
  rw [List.range_eq_range', forEventsFrom_eq harray papi i (Nat.zero_add _), List.drop_zero]

theorem eventArray_of_found {s t : State} {self : Pthread} {found : Found}
    (h : s.findOrInsertThread self = some (found, t)) : t.eventArray = s.eventArray := by
  obtain ⟨_, _, heq⟩ := Option.map_eq_some_iff.mp h
  cases heq
  rfl

theorem eventArray_accumulate (s : State) (idx : Option (Fin MAX_THREADS)) (m : Marker)
    (values : Fin MAX_EVENTS_PER_THREAD → Int) : (s.accumulate idx m values).eventArray = s.eventArray := by
  cases idx <;> rfl

theorem Process.Holds.call_eq (h : p.Holds events) (e : Pthread × Call) :
    p.call e = match step p.api e with
      | none => .error .blocked
      | some r => .ok { p with api := r.1 } := by
  obtain ⟨self, c⟩ := e
  cases c with
  | register m => rfl
  | start m papi =>
    simp only [Process.call, Process.markerStart, step, answer, State.markerStart, State.startThread]
    cases hfound : p.api.findOrInsertThread self with
    | none => rfl
    | some r =>
      obtain ⟨found, api⟩ := r
      simp only [Option.map_some, h.forEvents papi.addEvent 0, State.startFound]
      split_ifs <;> rfl
  | stop m papi =>
    simp only [Process.call, Process.markerStop, step, answer, State.markerStop]
    cases hfound : p.api.findOrInsertThread self with
    | none => rfl
    | some r =>
      obtain ⟨found, api⟩ := r
      have hevents : (api.accumulate found.idx m papi.accum).eventArray = p.api.eventArray := by
        rw [eventArray_accumulate, eventArray_of_found hfound]
      simp only [Option.map_some, h.forEvents papi.removeEvent found.threadIdx, State.stopFound,
        State.stopThread, hevents, Bind.bind, Except.bind]
      split_ifs <;> rfl

theorem eventArray_startFound (s : State) (found : Found) (papi : StartAnswers) :
    (s.startFound found papi).2.eventArray = s.eventArray := by
  simp only [State.startFound]
  split_ifs <;> simp

theorem eventArray_stopFound (s : State) (found : Found) (m : Marker) (papi : StopAnswers) :
    (s.stopFound found m papi).2.eventArray = s.eventArray := by
  simp only [State.stopFound, State.stopThread]
  split_ifs <;> simp [eventArray_accumulate]

/-- No call for a marker changes the events. -/
theorem eventArray_step {s s' : State} {e : Pthread × Call} {out : List Returned}
    (h : step s e = some (s', out)) : s'.eventArray = s.eventArray := by
  obtain ⟨self, c⟩ := e
  cases c with
  | register m =>
    cases h
    rfl
  | start m papi =>
    simp only [step, answer, State.markerStart, State.startThread] at h
    cases hfound : s.findOrInsertThread self with
    | none =>
      rw [hfound] at h
      cases h
    | some r =>
      obtain ⟨found, t⟩ := r
      rw [hfound] at h
      cases h
      exact (eventArray_startFound t found papi).trans (eventArray_of_found hfound)
  | stop m papi =>
    simp only [step, answer, State.markerStop] at h
    cases hfound : s.findOrInsertThread self with
    | none =>
      rw [hfound] at h
      cases h
    | some r =>
      obtain ⟨found, t⟩ := r
      rw [hfound] at h
      cases h
      exact (eventArray_stopFound t found m papi).trans (eventArray_of_found hfound)

theorem Process.Holds.run_eq (h : p.Holds events) (es : List (Pthread × Call)) :
    es.foldlM Process.call p = match Machine.run step p.api es with
      | none => .error .blocked
      | some r => .ok { p with api := r.1 } := by
  induction es generalizing p with
  | nil => rfl
  | cons e es ih =>
    rw [List.foldlM_cons, h.call_eq]
    cases hstep : step p.api e with
    | none =>
      rw [Machine.run, hstep]
      rfl
    | some r =>
      obtain ⟨api, out⟩ := r
      have hnext : Process.Holds { p with api := api } events :=
        ⟨(eventArray_step hstep).trans h.1, h.2⟩
      rw [Machine.run_cons hstep]
      refine (ih hnext).trans ?_
      cases Machine.run step api es <;> rfl

theorem init_eq_zero {a : Startup} (h : Process.initial.init a = .ok (0, p)) :
    a.mutexInit = 0 ∧ a.allocated = true ∧ a.version = true ∧ a.threadInit = PAPI_OK ∧
      ∃ config built, getPapiApiConfig a.file a.configLine a.memory = some (some config) ∧
        buildEvents a.eventNameToCode a.gives .cleared Process.initial.heap config = some built ∧
        p = Process.initial.fill built := by
  simp only [Process.init] at h
  split_ifs at h with hmutex hallocated hversion hthreads
  · cases h
  · cases h
  · cases h
  · split at h
    · cases h
    · cases h
    · split at h <;> cases h
  · refine ⟨not_not.mp hmutex, by simpa using hallocated, by simpa using hversion, not_not.mp hthreads, ?_⟩
    split at h
    · cases h
    · cases h
    · next config hread =>
      split at h
      · cases h
      · next built hbuild =>
        cases h
        exact ⟨config, built, hread, hbuild, rfl⟩

/-- What a start that returns 0 leaves. -/
theorem holds_of_init {a : Startup} (h : Process.initial.init a = .ok (0, p)) :
    ∃ events, p.Holds events ∧
      State.initial.init ⟨a.mutexInit, a.allocated, a.version, events, a.threadInit⟩ = (0, p.api) := by
  obtain ⟨hmutex, hallocated, hversion, hthreads, config, built, _, hbuild, rfl⟩ := init_eq_zero h
  have hbuilt := built_of_buildEvents rfl hbuild
  have htake : built.state.eventArray.toList.take built.counter
      = (kept a.gives 0 (codes a.eventNameToCode config)).map some := by
    rw [hbuilt.eventArray, hbuilt.counter]
    exact List.take_left' (List.length_map _)
  have hevents : (Process.initial.fill built).api.eventArray
      = kept a.gives 0 (codes a.eventNameToCode config) := by
    show (built.state.eventArray.toList.take built.counter).filterMap id = _
    rw [htake, List.filterMap_map]
    exact List.filterMap_some
  refine ⟨_, ⟨hevents, _, rfl, congrArg some hbuilt.counter, ?_⟩, ?_⟩
  · rw [← htake, hbuilt.counter]
    rfl
  · simp only [State.init, hmutex, hallocated, hversion, hthreads]
    rw [← hevents]
    rfl

end

end PapiApi

end ProfHalide
