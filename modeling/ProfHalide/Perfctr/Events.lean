import ProfHalide.Lib.Chain
import ProfHalide.Perfctr.Config
import ProfHalide.Perfctr.PapiApi

/-!
# The list of the events

`build_events` takes the names of the events apart with `strtok`, and puts those that PAPI has a code for
into an array and into a linked list, which `perfctr_halide_shutdown` frees.
-/

namespace ProfHalide

namespace PapiApi

open CString Chain

/-- `struct papi_api_event`, with addresses as `malloc` returns them. -/
structure Event where
  eventId : Int
  next : Option Nat
  deriving DecidableEq, Repr

/-- The events in memory. -/
structure Heap where
  /-- By address, with `none` for one that is freed. -/
  events : List (Option Event)
  /-- How often `malloc` is called. -/
  asked : Nat
  /-- What `free` is called for, in its order. -/
  freed : List Nat
  deriving DecidableEq, Repr

namespace Heap

variable (heap : Heap)

def read (p : Nat) : Option Event := heap.events[p]?.join

def next (p : Nat) : Option (Option Nat) := (heap.read p).map Event.next

/-- `new_event`, where `gives` tells which calls of `malloc` succeed. -/
def newEvent (gives : Nat → Bool) (eventId : Int) : Option Nat × Heap :=
  if gives heap.asked then
    (some heap.events.length,
      { heap with events := heap.events ++ [some ⟨eventId, none⟩], asked := heap.asked + 1 })
  else (none, { heap with asked := heap.asked + 1 })

/-- A store to `next`. -/
def link (p event : Nat) : Option Heap :=
  (heap.read p).map fun e => { heap with events := heap.events.set p (some { e with next := some event }) }

/-- The store behind the last event, if there is one. -/
def linkLast (last : Option Nat) (event : Nat) : Option Heap :=
  match last with
  | none => some heap
  | some p => heap.link p event

def free (p : Nat) : Option Heap :=
  (heap.read p).map fun _ => { heap with events := heap.events.set p none, freed := heap.freed ++ [p] }

/-- The loop of `perfctr_halide_shutdown`, of at most so many rounds, and the `free` behind it. -/
def freeFrom : Nat → Heap → Nat → Option Nat → Option Heap
  | _, heap, previous, none => heap.free previous
  | 0, _, _, some _ => none
  | rounds + 1, heap, previous, some event => do
      let heap ← heap.free previous
      let next ← heap.next event
      freeFrom rounds heap event next

/-- What `perfctr_halide_shutdown` does to the list. No list is longer than the memory. -/
def freeEvents (events : Option Nat) : Option Heap :=
  match events with
  | none => some heap
  | some previous => do
      let event ← heap.next previous
      freeFrom heap.events.length heap previous event

end Heap

/-- `struct papi_api_state`, with `none` for what is not set yet. -/
structure GlobalState where
  eventArray : Buffer (Option Int) MAX_EVENTS_PER_THREAD
  eventSet : Option Int
  numEvents : Option Nat
  events : Option (Option Nat)

/-- The variables of `build_events`, and what it changes. -/
structure Build where
  state : GlobalState
  heap : Heap
  lastEvent : Option Nat
  counter : Nat
  chars : Buffer Char MAX_CONFIG_LINE
  /-- Where `strtok` goes on. -/
  pos : Nat

/-- An event that PAPI knows. -/
def Build.add (s : Build) (gives : Nat → Bool) (eventId : Int) : Option Build :=
  match s.heap.newEvent gives eventId with
  | (none, heap) => some { s with heap := heap }
  | (some event, heap) => do
      let events ← s.state.events
      let eventArray ← store s.state.eventArray s.counter [some eventId]
      let heap ← heap.linkLast s.lastEvent event
      let events := if events = none then some event else events
      return { s with
        state := { s.state with eventArray := eventArray, events := some events }
        heap := heap
        lastEvent := some event
        counter := s.counter + 1 }

/-- The loop, of at most so many rounds; `papi` is `PAPI_event_name_to_code`. -/
def buildFrom (papi : List Char → Option Int) (gives : Nat → Bool) : Nat → Build → Option Build
  | 0, _ => none
  | rounds + 1, s => do
      let (word, chars, pos) ← strtok NUL ',' s.chars s.pos
      let s := { s with chars := chars, pos := pos }
      match word with
      | none => return s
      | some start =>
        match papi (cstring NUL (chars.toList.drop start)) with
        | none => buildFrom papi gives rounds s
        | some eventId =>
          let s ← s.add gives eventId
          buildFrom papi gives rounds s

/-- `build_events`, for the array and the list of a state. There are no more rounds than characters, and
one. -/
def buildEvents (papi : List Char → Option Int) (gives : Nat → Bool) (state : GlobalState) (heap : Heap)
    (config : Config) : Option Build :=
  buildFrom papi gives (MAX_CONFIG_LINE + 1) ⟨state, heap, none, 0, config.events, 0⟩

/-- The codes of the events that a configuration names. -/
def codes (papi : List Char → Option Int) (config : Config) : List Int :=
  (words ',' (cstring NUL config.events.toList)).filterMap papi

/-- The array and the list hold these codes, and nothing else has changed. -/
structure Built (state : GlobalState) (heap : Heap) (codes : List Int) (s : Build) : Prop where
  counter : s.counter = codes.length
  eventArray : s.state.eventArray.toList = codes.map some ++ state.eventArray.toList.drop codes.length
  eventSet : s.state.eventSet = state.eventSet
  numEvents : s.state.numEvents = state.numEvents
  freed : s.heap.freed = heap.freed
  list : ∃ nodes, s.state.events = some nodes.head? ∧ s.lastEvent = nodes.getLast? ∧
    IsChain s.heap.next nodes.head? nodes ∧
    nodes.map (fun p => (s.heap.read p).map Event.eventId) = codes.map some

/-- The array and the list hold the codes of the names that have one, and each event of the list is freed
once. -/
def EventsAgree (papi : List Char → Option Int) (config : Config) (state : GlobalState) (heap : Heap) :
    Prop :=
  ∃ s events nodes heap',
    buildEvents papi (fun _ => true) { state with events := some none } heap config = some s ∧
      s.counter ≤ MAX_EVENTS_PER_THREAD ∧ Built state heap (codes papi config) s ∧
      s.state.events = some events ∧ IsChain s.heap.next events nodes ∧
      s.heap.freeEvents events = some heap' ∧ heap'.freed = heap.freed ++ nodes ∧ nodes.Nodup

namespace Heap

variable {heap heap' : Heap} {gives : Nat → Bool} {p q : Nat} {e : Event}

theorem lt_of_read (h : heap.read p = some e) : p < heap.events.length := by
  by_contra hle
  rw [read, List.getElem?_eq_none (Nat.le_of_not_lt hle)] at h
  cases h

theorem read_append (p : Nat) :
    { heap with events := heap.events ++ [some e], asked := heap.asked + 1 }.read p =
      if p = heap.events.length then some e else heap.read p := by
  rw [read, read, List.getElem?_append]
  split
  · next hlt => rw [if_neg (Nat.ne_of_lt hlt)]
  · next hle =>
    by_cases heq : p = heap.events.length
    · simp [heq]
    · rw [if_neg heq, List.getElem?_eq_none (Nat.le_of_not_lt hle), List.getElem?_eq_none]
      rw [List.length_singleton]
      omega

theorem read_set (h : (heap.read p).isSome) (e : Option Event) (q : Nat) :
    ((heap.events.set p e)[q]?).join = if q = p then e else heap.read q := by
  obtain ⟨_, h⟩ := Option.isSome_iff_exists.mp h
  rw [read, List.getElem?_set]
  by_cases heq : p = q
  · rw [if_pos heq, if_pos (lt_of_read h), if_pos heq.symm]
    rfl
  · rw [if_neg heq, if_neg (Ne.symm heq)]

theorem link_of_read (h : heap.read p = some e) (event : Nat) : ∃ heap', heap.link p event = some heap' ∧
    (∀ q, heap'.read q = if q = p then some { e with next := some event } else heap.read q) ∧
    heap'.freed = heap.freed ∧ heap'.asked = heap.asked := by
  rw [link, h, Option.map_some]
  exact ⟨_, rfl, read_set (by rw [h]; rfl) _, rfl, rfl⟩

theorem free_of_read (h : heap.read p = some e) : ∃ heap', heap.free p = some heap' ∧
    (∀ q, heap'.read q = if q = p then none else heap.read q) ∧ heap'.freed = heap.freed ++ [p] := by
  rw [free, h, Option.map_some]
  exact ⟨_, rfl, read_set (by rw [h]; rfl) _, rfl⟩

theorem read_of_next {r : Option Nat} (h : heap.next p = some r) :
    ∃ e, heap.read p = some e ∧ e.next = r := Option.map_eq_some_iff.mp h

/-- The trailing pointer frees a list from its first event on, and reads no event behind it. -/
theorem freeFrom_eq {nodes : List Nat} {q : Option Nat} (h : IsChain heap.next (some p) (p :: nodes))
    (hq : heap.next p = some q) {rounds : Nat} (hrounds : nodes.length ≤ rounds) :
    ∃ heap', freeFrom rounds heap p q = some heap' ∧ heap'.freed = heap.freed ++ p :: nodes := by
  induction nodes generalizing heap p q rounds with
  | nil =>
    obtain ⟨q', hq', htail⟩ := h.tail
    rw [hq] at hq'
    cases hq'
    cases htail
    obtain ⟨_, hread, _⟩ := read_of_next hq
    obtain ⟨heap₁, hfree, _, hfreed⟩ := free_of_read hread
    refine ⟨heap₁, ?_, hfreed⟩
    cases rounds <;> exact hfree
  | cons event nodes ih =>
    obtain ⟨q', hq', htail⟩ := h.tail
    rw [hq] at hq'
    cases hq'
    obtain rfl : q = some event := htail.head
    obtain ⟨_, hread, _⟩ := read_of_next hq
    obtain ⟨heap₁, hfree, hreads, hfreed⟩ := free_of_read hread
    obtain ⟨rounds, rfl⟩ : ∃ k, rounds = k + 1 := Nat.exists_eq_add_one.mpr (by
      rw [List.length_cons] at hrounds
      omega)
    -- No event behind the freed one is the freed one.
    have hnext : ∀ r ∈ event :: nodes, heap₁.next r = heap.next r := by
      intro r hr
      have hne : r ≠ p := fun heq => (List.nodup_cons.mp h.nodup).1 (heq ▸ hr)
      rw [next, hreads, if_neg hne, next]
    have hrest : IsChain heap₁.next (some event) (event :: nodes) := htail.congr hnext
    obtain ⟨q', hq', _⟩ := hrest.tail
    obtain ⟨heap', hloop, hall⟩ := ih hrest hq' (Nat.le_of_succ_le_succ hrounds)
    refine ⟨heap', ?_, ?_⟩
    · rw [freeFrom, hfree]
      simp only [Option.bind_eq_bind, Option.bind_some, hq']
      exact hloop
    · rw [hall, hfreed, List.append_assoc, List.singleton_append]

/-- Each event of a list is freed, once. -/
theorem freeEvents_eq {nodes : List Nat} {q : Option Nat} (h : IsChain heap.next q nodes) :
    ∃ heap', heap.freeEvents q = some heap' ∧ heap'.freed = heap.freed ++ nodes := by
  cases h with
  | nil => exact ⟨heap, rfl, (List.append_nil _).symm⟩
  | @cons p q nodes hp hl =>
    have hsub : nodes ⊆ List.range heap.events.length := by
      intro r hr
      obtain ⟨_, hnext⟩ := Option.isSome_iff_exists.mp (hl.allocated hr)
      obtain ⟨_, hread, _⟩ := read_of_next hnext
      exact List.mem_range.mpr (lt_of_read hread)
    have hlength := (List.subperm_of_subset hl.nodup hsub).length_le
    rw [List.length_range] at hlength
    obtain ⟨heap', hfree, hfreed⟩ := freeFrom_eq (.cons hp hl) hp hlength
    refine ⟨heap', ?_, hfreed⟩
    rw [freeEvents, hp]
    exact hfree

/-- A new event is put behind the last one. -/
theorem link_last {nodes : List Nat} (h : IsChain heap.next nodes.head? nodes) (eventId : Int) :
    let heap₁ : Heap :=
      { heap with events := heap.events ++ [some ⟨eventId, none⟩], asked := heap.asked + 1 }
    ∃ heap', heap₁.linkLast nodes.getLast? heap.events.length = some heap' ∧
      IsChain heap'.next (nodes ++ [heap.events.length]).head? (nodes ++ [heap.events.length]) ∧
      (∀ p ∈ nodes, (heap'.read p).map Event.eventId = (heap.read p).map Event.eventId) ∧
      (heap'.read heap.events.length).map Event.eventId = some eventId ∧
      heap'.freed = heap.freed ∧ heap'.asked = heap.asked + 1 := by
  intro heap₁
  have hreads : ∀ p, heap₁.read p = if p = heap.events.length then some ⟨eventId, none⟩ else heap.read p :=
    read_append
  have hlt : ∀ p ∈ nodes, p ≠ heap.events.length := by
    intro p hp
    obtain ⟨_, hnext⟩ := Option.isSome_iff_exists.mp (h.allocated hp)
    obtain ⟨_, hread, _⟩ := read_of_next hnext
    exact Nat.ne_of_lt (lt_of_read hread)
  have hnew : heap₁.read heap.events.length = some ⟨eventId, none⟩ := by rw [hreads, if_pos rfl]
  rcases List.eq_nil_or_concat nodes with rfl | ⟨l, last, rfl⟩
  · refine ⟨heap₁, rfl, .cons (q := none) ?_ .nil, nofun, ?_, rfl, rfl⟩
    · rw [next, hnew]
      rfl
    · rw [hnew]
      rfl
  · rw [List.concat_eq_append] at h hlt ⊢
    have hmem : last ∈ l ++ [last] := List.mem_append_right l List.mem_cons_self
    obtain ⟨_, hnext⟩ := Option.isSome_iff_exists.mp (h.allocated hmem)
    obtain ⟨e, hread, _⟩ := read_of_next hnext
    have hlast : heap₁.read last = some e := by rw [hreads, if_neg (hlt last hmem), hread]
    obtain ⟨heap₂, hlink, hreads₂, hfreed, hasked⟩ := link_of_read hlast heap.events.length
    have hne : heap.events.length ≠ last := (hlt last hmem).symm
    have hbefore : ∀ r ∈ l, heap₂.read r = heap.read r := by
      intro r hr
      have hr' : r ≠ last := by
        rintro rfl
        exact List.disjoint_of_nodup_append h.nodup hr List.mem_cons_self
      rw [hreads₂, if_neg hr', hreads, if_neg (hlt r (List.mem_append_left _ hr))]
    have hnew₂ : heap₂.read heap.events.length = some ⟨eventId, none⟩ := by rw [hreads₂, if_neg hne, hnew]
    refine ⟨heap₂, ?_, ?_, fun p hp => ?_, ?_, hfreed, hasked⟩
    · rw [List.getLast?_concat]
      exact hlink
    · rw [List.head?_append_of_ne_nil _ (by simp), List.append_assoc]
      refine h.snoc (fun r hr => ?_) ?_ ?_
      · rw [next, hbefore r hr, next]
      · rw [next, hreads₂, if_pos rfl]
        rfl
      · rw [next, hnew₂]
        rfl
    · rcases List.mem_append.mp hp with hp | hp
      · rw [hbefore p hp]
      · rw [List.mem_singleton.mp hp, hreads₂, if_pos rfl, hread]
        rfl
    · rw [hnew₂]
      rfl

end Heap

/-! ### Building -/

/-- The codes for which `malloc` gives memory, where it has been called so often. -/
def kept (gives : Nat → Bool) : Nat → List Int → List Int
  | _, [] => []
  | asked, code :: codes =>
      if gives asked then code :: kept gives (asked + 1) codes else kept gives (asked + 1) codes

theorem length_kept_le (gives : Nat → Bool) (asked : Nat) (codes : List Int) :
    (kept gives asked codes).length ≤ codes.length := by
  induction codes generalizing asked with
  | nil => exact Nat.le_refl 0
  | cons code codes ih =>
    have hle := ih (asked + 1)
    rw [kept]
    split
    · exact Nat.succ_le_succ hle
    · exact Nat.le_succ_of_le hle

theorem kept_eq_self {gives : Nat → Bool} {asked : Nat} {codes : List Int}
    (h : ∀ k < codes.length, gives (asked + k) = true) : kept gives asked codes = codes := by
  induction codes generalizing asked with
  | nil => rfl
  | cons code codes ih =>
    obtain ⟨hfirst, hrest⟩ := (forall_lt_succ_add fun k => gives k = true).mp h
    rw [kept, if_pos hfirst, ih hrest]

theorem gives_of_length_kept {gives : Nat → Bool} {asked : Nat} {codes : List Int}
    (h : (kept gives asked codes).length = codes.length) : ∀ k < codes.length, gives (asked + k) = true := by
  induction codes generalizing asked with
  | nil => exact nofun
  | cons code codes ih =>
    have hle := length_kept_le gives (asked + 1) codes
    rw [kept] at h
    split at h
    · next hgives =>
      exact (forall_lt_succ_add fun k => gives k = true).mpr ⟨hgives, ih (Nat.succ.inj h)⟩
    · rw [List.length_cons] at h
      omega

section

variable {state : GlobalState} {heap : Heap} {done : List Int} {s : Build} {gives : Nat → Bool}
  {eventId : Int}

theorem add_of_not_gives (h : Built state heap done s) (hgives : gives s.heap.asked = false) :
    ∃ s', s.add gives eventId = some s' ∧ Built state heap done s' ∧
      s'.heap.asked = s.heap.asked + 1 := by
  refine ⟨{ s with heap := { s.heap with asked := s.heap.asked + 1 } }, ?_,
    ⟨h.counter, h.eventArray, h.eventSet, h.numEvents, h.freed, h.list⟩, rfl⟩
  rw [Build.add, Heap.newEvent, if_neg (by simp [hgives])]

theorem add_of_full (h : Built state heap done s) (hgives : gives s.heap.asked = true)
    (hfull : MAX_EVENTS_PER_THREAD ≤ done.length) : s.add gives eventId = none := by
  obtain ⟨_, hevents, _⟩ := h.list
  rw [Build.add, Heap.newEvent, if_pos hgives]
  simp only [hevents, Option.bind_eq_bind, Option.bind_some]
  rw [store_eq_none (by rw [h.counter, List.length_singleton]; omega), Option.bind_none]

theorem add_of_lt (eventId : Int) (h : Built state heap done s) (hgives : gives s.heap.asked = true)
    (hlt : done.length < MAX_EVENTS_PER_THREAD) :
    ∃ s', s.add gives eventId = some s' ∧ Built state heap (done ++ [eventId]) s' ∧
      s'.heap.asked = s.heap.asked + 1 := by
  obtain ⟨nodes, hevents, hlast, hchain, hids⟩ := h.list
  obtain ⟨heap', hlink, hchain', hkept, hnew, hfreed, hasked⟩ := Heap.link_last hchain eventId
  have hroom : s.counter + [some eventId].length ≤ MAX_EVENTS_PER_THREAD := by
    rw [h.counter, List.length_singleton]
    omega
  obtain ⟨eventArray, hstore, htoList⟩ := store_of_le s.state.eventArray hroom
  rw [← hlast] at hlink
  have hadd : s.add gives eventId = some { s with
      state := { s.state with
        eventArray := eventArray
        events := some (nodes ++ [s.heap.events.length]).head? }
      heap := heap'
      lastEvent := some s.heap.events.length
      counter := s.counter + 1 } := by
    rw [Build.add, Heap.newEvent, if_pos hgives]
    simp only [hevents, hstore, hlink, Option.bind_eq_bind, Option.bind_some]
    cases nodes <;> rfl
  refine ⟨_, hadd, ⟨?_, ?_, h.eventSet, h.numEvents, hfreed.trans h.freed, ?_⟩, hasked⟩
  · rw [List.length_append, List.length_singleton, h.counter]
  · dsimp only
    have htake : (done.map some).length = done.length := List.length_map _
    rw [htoList, h.counter, h.eventArray, List.take_left' htake, List.length_singleton, ← htake,
      List.drop_length_add_append, List.drop_drop, htake, List.length_append, List.map_append]
    rfl
  · refine ⟨nodes ++ [s.heap.events.length], rfl, ?_, hchain', ?_⟩
    · rw [List.getLast?_concat]
    · rw [List.map_append, List.map_append, ← hids, List.map_congr_left hkept, List.map_singleton, hnew]
      rfl

theorem Built.move (h : Built state heap done s) (chars : Buffer Char MAX_CONFIG_LINE) (pos : Nat) :
    Built state heap done { s with chars := chars, pos := pos } :=
  ⟨h.counter, h.eventArray, h.eventSet, h.numEvents, h.freed, h.list⟩

theorem Built.length_le (h : Built state heap done s) : done.length ≤ MAX_EVENTS_PER_THREAD := by
  have hlength := congrArg List.length h.eventArray
  rw [List.Vector.toList_length, List.length_append, List.length_map] at hlength
  omega

/-- Nothing but `strtok` changes the names. -/
theorem add_eq_some {s' : Build} (h : s.add gives eventId = some s') :
    s'.chars = s.chars ∧ s'.pos = s.pos := by
  rw [Build.add] at h
  split at h
  · cases h
    exact ⟨rfl, rfl⟩
  · simp only [Option.bind_eq_bind, Option.bind_eq_some_iff] at h
    obtain ⟨_, _, _, _, _, _, h⟩ := h
    cases h
    exact ⟨rfl, rfl⟩

/-- From any of its rounds, the loop takes up what is kept of the words ahead, if the array has room. -/
theorem buildFrom_spec (gives : Nat → Bool) (papi : List Char → Option Int) {ws : List (List Char)}
    {rounds : Nat} (h : Built state heap done s) (hnul : NUL ∈ s.chars.toList.drop s.pos)
    (hwords : words ',' (cstring NUL (s.chars.toList.drop s.pos)) = ws) (hrounds : ws.length < rounds) :
    let new := kept gives s.heap.asked (ws.filterMap papi)
    (done.length + new.length ≤ MAX_EVENTS_PER_THREAD →
        ∃ s', buildFrom papi gives rounds s = some s' ∧ Built state heap (done ++ new) s') ∧
      (MAX_EVENTS_PER_THREAD < done.length + new.length → buildFrom papi gives rounds s = none) := by
  induction ws generalizing rounds s done with
  | nil =>
    have hcomma : ',' ≠ NUL := by decide
    have hstrtok := strtok_spec hcomma hnul
    rw [hwords] at hstrtok
    obtain ⟨pos, hstrtok⟩ := hstrtok
    obtain ⟨rounds, rfl⟩ : ∃ k, rounds = k + 1 := Nat.exists_eq_add_one.mpr hrounds
    rw [buildFrom, hstrtok]
    refine ⟨fun _ => ⟨{ s with pos := pos }, rfl, ?_⟩, fun hmore => ?_⟩
    · rw [List.filterMap_nil, kept, List.append_nil]
      exact h.move s.chars pos
    · have hle := h.length_le
      rw [List.filterMap_nil, kept, List.length_nil] at hmore
      omega
  | cons w ws ih =>
    have hcomma : ',' ≠ NUL := by decide
    have hstrtok := strtok_spec hcomma hnul
    rw [hwords] at hstrtok
    obtain ⟨start, chars, pos, hstrtok, hword, hnul, hwords⟩ := hstrtok
    obtain ⟨rounds, rfl⟩ : ∃ k, rounds = k + 1 := Nat.exists_eq_add_one.mpr (Nat.zero_lt_of_lt hrounds)
    have hrounds : ws.length < rounds := Nat.lt_of_succ_lt_succ hrounds
    have hmove := h.move chars pos
    rw [buildFrom, hstrtok]
    simp only [Option.bind_eq_bind, Option.bind_some, hword]
    cases hcode : papi w with
    | none =>
      rw [List.filterMap_cons_none hcode]
      exact ih hmove hnul hwords hrounds
    | some eventId =>
      rw [List.filterMap_cons_some hcode, kept]
      dsimp only
      cases hgives : gives s.heap.asked with
      | false =>
        obtain ⟨s', hadd, hbuilt, hasked⟩ := add_of_not_gives hmove hgives
        obtain ⟨hchars, hpos⟩ := add_eq_some hadd
        rw [hadd, Option.bind_some, if_neg (by simp), ← hasked]
        exact ih hbuilt (by rwa [hchars, hpos]) (by rwa [hchars, hpos]) hrounds
      | true =>
        rw [if_pos rfl, List.length_cons]
        rcases Nat.lt_or_ge done.length MAX_EVENTS_PER_THREAD with hlt | hfull
        · obtain ⟨s', hadd, hbuilt, hasked⟩ := add_of_lt eventId hmove hgives hlt
          obtain ⟨hchars, hpos⟩ := add_eq_some hadd
          have hrest := ih hbuilt (by rwa [hchars, hpos]) (by rwa [hchars, hpos]) hrounds
          simp only [List.length_append, List.length_singleton, hasked, List.append_assoc,
            Nat.add_assoc, Nat.add_comm 1] at hrest
          rw [hadd, Option.bind_some]
          exact hrest
        · rw [add_of_full hmove hgives hfull]
          exact ⟨fun hle => by omega, fun _ => rfl⟩

/-- With no NUL in the array, the loop does not end within it. -/
theorem buildFrom_overrun {papi : List Char → Option Int} (rounds : Nat)
    (hnul : NUL ∉ s.chars.toList.drop s.pos) : buildFrom papi gives rounds s = none := by
  induction rounds generalizing s with
  | zero => rfl
  | succ rounds ih =>
    rw [buildFrom]
    cases hstrtok : strtok NUL ',' s.chars s.pos with
    | none => rfl
    | some r =>
      obtain ⟨start, chars, pos, rfl, hnul⟩ := strtok_overrun hnul hstrtok
      dsimp only [Option.bind_eq_bind, Option.bind_some]
      split
      · exact ih hnul
      · next eventId _ =>
        cases hadd : Build.add { s with chars := chars, pos := pos } gives eventId with
        | none => rfl
        | some s' =>
          obtain ⟨hchars, hpos⟩ := add_eq_some hadd
          exact ih (by rwa [hchars, hpos])

theorem buildEvents_overrun {papi : List Char → Option Int} {config : Config}
    (hnul : NUL ∉ config.events.toList) : buildEvents papi gives state heap config = none :=
  buildFrom_overrun (s := ⟨state, heap, none, 0, config.events, 0⟩) _ hnul

theorem buildEvents_spec (gives : Nat → Bool) (heap : Heap) (papi : List Char → Option Int) {config : Config}
    (hevents : state.events = some none)
    (hnul : NUL ∈ config.events.toList) :
    let new := kept gives heap.asked (codes papi config)
    (new.length ≤ MAX_EVENTS_PER_THREAD →
        ∃ s, buildEvents papi gives state heap config = some s ∧ Built state heap new s) ∧
      (MAX_EVENTS_PER_THREAD < new.length → buildEvents papi gives state heap config = none) := by
  have hbuilt : Built state heap [] ⟨state, heap, none, 0, config.events, 0⟩ :=
    ⟨rfl, rfl, rfl, rfl, rfl, [], hevents, rfl, .nil, rfl⟩
  have hrounds : (words ',' (cstring NUL config.events.toList)).length < MAX_CONFIG_LINE + 1 := by
    obtain ⟨rest, heq⟩ := cstring_append_drop hnul
    have hlength := congrArg List.length heq
    rw [List.Vector.toList_length, List.length_append, List.length_cons] at hlength
    have hwords := length_words_le ',' (cstring NUL config.events.toList)
    omega
  have hspec := buildFrom_spec gives papi hbuilt hnul rfl hrounds
  simp only [List.length_nil, Nat.zero_add, List.nil_append] at hspec
  exact hspec

theorem built_of_buildEvents {papi : List Char → Option Int} {config : Config}
    (hevents : state.events = some none) (h : buildEvents papi gives state heap config = some s) :
    Built state heap (kept gives heap.asked (codes papi config)) s := by
  have hnul : NUL ∈ config.events.toList := by
    by_contra hnul
    rw [buildEvents_overrun hnul] at h
    cases h
  obtain ⟨hroom, hoverflow⟩ := buildEvents_spec gives heap papi hevents hnul
  rcases Nat.lt_or_ge MAX_EVENTS_PER_THREAD (kept gives heap.asked (codes papi config)).length with hlt | hle
  · rw [hoverflow hlt] at h
    cases h
  · obtain ⟨s', hbuild, hbuilt⟩ := hroom hle
    rw [h] at hbuild
    cases hbuild
    exact hbuilt

end

theorem eventsAgree_iff (papi : List Char → Option Int) (config : Config) (state : GlobalState)
    (heap : Heap) : EventsAgree papi config state heap ↔
      NUL ∈ config.events.toList ∧ (codes papi config).length ≤ MAX_EVENTS_PER_THREAD := by
  constructor
  · rintro ⟨s, events, nodes, heap', hbuild, _, hbuilt, _⟩
    refine ⟨?_, hbuilt.length_le⟩
    by_contra hnul
    rw [buildEvents_overrun hnul] at hbuild
    cases hbuild
  · rintro ⟨hnul, hle⟩
    have hevents : ({ state with events := some none } : GlobalState).events = some none := rfl
    have hspec := (buildEvents_spec (fun _ => true) heap papi hevents hnul).1
    rw [kept_eq_self fun _ _ => rfl] at hspec
    obtain ⟨s, hbuild, hbuilt⟩ := hspec hle
    obtain ⟨nodes, hevents, _, hchain, _⟩ := hbuilt.list
    obtain ⟨heap', hfree, hfreed⟩ := Heap.freeEvents_eq hchain
    refine ⟨s, _, nodes, heap', hbuild, ?_, ?_, hevents, hchain, hfree, ?_, hchain.nodup⟩
    · rw [hbuilt.counter]
      exact hle
    · exact ⟨hbuilt.counter, hbuilt.eventArray, hbuilt.eventSet, hbuilt.numEvents, hbuilt.freed, hbuilt.list⟩
    · rw [hfreed, hbuilt.freed]

/-- A line that names seventeen events. -/
def seventeen : Line where
  text := EVENTS ++ '=' :: (List.replicate 17 ['A', ',']).flatten
  leftover := []
  read := List.cons_ne_nil _ _

/-- The seventeenth event is stored behind the array. -/
theorem not_eventsAgree_seventeen : ¬ ∀ (papi : List Char → Option Int) (lines : List Line)
    (configLine : Buffer Char MAX_CONFIG_LINE) (memory : Option Config) (config : Config)
    (state : GlobalState) (heap : Heap),
    getPapiApiConfig (some lines) configLine memory = some (some config) →
      EventsAgree papi config state heap := by
  intro h
  let zeros : Buffer Char MAX_CONFIG_LINE := List.Vector.replicate MAX_CONFIG_LINE NUL
  have hfits : ∀ line ∈ [seventeen], line.Fits := by
    intro line hline
    rw [List.mem_singleton.mp hline]
    exact ⟨by decide, fun _ _ => by decide⟩
  obtain ⟨config, hread, hstring, _⟩ := getPapiApiConfig_of_fits hfits zeros ⟨zeros⟩
  have hagree := h (fun _ => some 0) _ _ _ _ ⟨List.Vector.replicate _ none, none, none, none⟩ ⟨[], 0, []⟩
    hread
  have hlength := ((eventsAgree_iff _ _ _ _).mp hagree).2
  rw [codes, hstring] at hlength
  exact absurd hlength (by decide)

end PapiApi

end ProfHalide
