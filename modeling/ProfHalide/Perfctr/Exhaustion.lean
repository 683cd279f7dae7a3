import ProfHalide.Perfctr.TimeApi
import ProfHalide.Perfctr.PapiApi

/-!
# Running out of places

The marker functions of both libraries go on with the -1 that they are given when no place is left, and
return as if nothing had happened; and the lock stays taken. Those of `papi_api.c` go on with a -1 as well
when a call to PAPI fails in `start_thread`. So a run goes well exactly as long as its threads have no more
ids among them than there are places, and PAPI starts what it is asked to.
-/

namespace ProfHalide

open Machine

/-- A call between two tables: the lock is free afterwards, a thread for which there is no place is told so
and changes nothing, and a thread that has one is served, with the other places as they were. -/
structure Handled {ε : Type} (table table' : ThreadTable ε) (caller : Pthread) (out : List Returned)
    (unchanged : Prop) (works : Fin MAX_THREADS → Prop) : Prop where
  unlocked : table'.locked = false
  refused : table.scan caller.thid = none → table.firstAvailableIdx = none →
    (∀ r ∈ out, r.ret ≠ 0 ∧ -1 ∉ r.indices) ∧ table'.threadsInfo = table.threadsInfo ∧ unchanged
  owner : ∀ i, table'.owners i = some caller.thid →
    works i ∧ ∀ j ≠ i, table'.threadsInfo j = table.threadsInfo j

/-- A call returns 0 and accesses the place `i` alone. -/
def StaysAt (i : Fin MAX_THREADS) (out : List Returned) : Prop :=
  ∀ r ∈ out, r.ret = 0 ∧ ∀ j ∈ r.indices, j = i.val

/-- A call that has found or taken a place for its thread, in the table `found`, goes well if the thread is
served. -/
theorem handled_iff_works {ε : Type} {table found table' : ThreadTable ε} {self : Pthread}
    {ks : List (BitVec 32)} {i : Fin MAX_THREADS} (out : List Returned) (unchanged : Prop)
    (works : Fin MAX_THREADS → Prop) (h : Slots.OwnedBy found.owners ks) (hi : found.owners i = some self.thid)
    (hroom : ¬ (table.scan self.thid = none ∧ table.firstAvailableIdx = none))
    (hfound : ∀ j ≠ i, found.threadsInfo j = table.threadsInfo j) (hunlocked : table'.locked = false)
    (howners : table'.owners = found.owners)
    (hothers : ∀ j ≠ i, table'.threadsInfo j = found.threadsInfo j) :
    Handled table table' self out unchanged works ↔ works i := by
  constructor
  · intro hhandled
    exact (hhandled.owner i (howners ▸ hi)).1
  · intro hworks
    refine ⟨hunlocked, fun hscan hfirst => absurd ⟨hscan, hfirst⟩ hroom, fun j hj => ?_⟩
    rw [howners] at hj
    rw [h.eq_of_get hj hi]
    exact ⟨hworks, fun j hj => (hothers j hj).trans (hfound j hj)⟩

/-- A library whose calls go on with whatever `find_or_insert_thread` has returned, and serve a thread that
has a place if they are good. -/
structure GoesOn {σ ι ε : Type} (step : σ → ι → Option (σ × List Returned)) (table : σ → ThreadTable ε)
    (inv : σ → Prop) (fresh : ε → ε) (marker good : ι → Prop) (caller : ι → Pthread)
    (works : Fin MAX_THREADS → σ → ι → σ → List Returned → Prop) : Prop where
  step : ∀ s e found t, inv s → marker e →
    (table s).findOrInsertThread fresh (caller e) = some (found, t) →
    ∃ s' out, step s e = some (s', out) ∧ inv s' ∧ (table s').locked = t.locked ∧
      (table s').owners = t.owners ∧
      (∀ j, found.idx ≠ some j → (table s').threadsInfo j = t.threadsInfo j) ∧
      ∀ i, found.idx = some i → (works i s e s' out ↔ good e)

theorem GoesOn.handsOut {σ ι ε : Type} {step : σ → ι → Option (σ × List Returned)}
    {table : σ → ThreadTable ε} {inv : σ → Prop} {fresh : ε → ε} {marker good : ι → Prop}
    {caller : ι → Pthread} {works : Fin MAX_THREADS → σ → ι → σ → List Returned → Prop}
    (h : GoesOn step table inv fresh marker good caller works) (unchanged : σ → σ → Prop) :
    Slots.HandsOut step
      (fun s e s' out =>
        Handled (table s) (table s') (caller e) out (unchanged s s') fun i => works i s e s' out)
      marker good (fun e => (caller e).thid) MAX_THREADS
      fun s ks => inv s ∧ (table s).locked = false ∧ Slots.OwnedBy (table s).owners ks where
  bound s ks hs := ⟨hs.2.2.nodup, hs.2.2.length_le⟩
  old s ks e hs hmarker hmem := by
    obtain ⟨hinv, hlocked, howned⟩ := hs
    obtain ⟨i, hi, hfound⟩ := ThreadTable.findOrInsertThread_of_mem fresh howned hmem
    obtain ⟨s', out, hstep, hinv', hlocked', howners, hothers, hworks⟩ := h.step s e _ _ hinv hmarker hfound
    have hunlocked := hlocked'.trans hlocked
    have hroom : ¬ ((table s).scan (caller e).thid = none ∧ (table s).firstAvailableIdx = none) := by
      rintro ⟨hscan, _⟩
      rw [ThreadTable.scan_eq, howned.find_eq_none_iff] at hscan
      exact hscan hmem
    have hhandled := handled_iff_works out (unchanged s s') (fun i => works i s e s' out) howned hi hroom
      (fun _ _ => rfl) hunlocked howners
      fun j hj => hothers j fun heq => hj (Option.some_inj.mp heq).symm
    exact ⟨s', out, hstep, hhandled.trans (hworks i rfl), hinv', hunlocked, howners ▸ howned⟩
  new s ks e hs hmarker hk hlt := by
    obtain ⟨hinv, hlocked, howned⟩ := hs
    obtain ⟨hfound, howned'⟩ :=
      ThreadTable.findOrInsertThread_of_lt fresh howned hlocked hk hlt
    obtain ⟨s', out, hstep, hinv', hlocked', howners, hothers, hworks⟩ := h.step s e _ _ hinv hmarker hfound
    have hunlocked := hlocked'.trans hlocked
    have hi : ((table s).place fresh ⟨ks.length, hlt⟩ (caller e).thid).owners ⟨ks.length, hlt⟩
        = some (caller e).thid := by
      rw [ThreadTable.owners_place, Function.update_self]
    have hroom : ¬ ((table s).scan (caller e).thid = none ∧ (table s).firstAvailableIdx = none) := by
      rintro ⟨_, hfirst⟩
      rw [ThreadTable.firstAvailableIdx_eq, howned.firstFree_eq_none_iff] at hfirst
      omega
    have hhandled := handled_iff_works out (unchanged s s') (fun i => works i s e s' out) howned' hi hroom
      (fun j hj => Function.update_of_ne hj _ _) hunlocked howners
      fun j hj => hothers j fun heq => hj (Option.some_inj.mp heq).symm
    exact ⟨s', out, hstep, hhandled.trans (hworks _ rfl), hinv', hunlocked, howners ▸ howned'⟩
  full s ks e hs hmarker hk hfull s' out hstep := by
    obtain ⟨hinv, hlocked, howned⟩ := hs
    have hfound := ThreadTable.findOrInsertThread_of_full fresh howned hlocked hk hfull
    obtain ⟨s₁, out₁, hstep₁, _, hlocked', _⟩ := h.step s e _ _ hinv hmarker hfound
    rw [hstep] at hstep₁
    cases hstep₁
    intro hhandled
    have hunlocked := hhandled.unlocked
    rw [hlocked'] at hunlocked
    cases hunlocked

/-! ### The time library -/

namespace TimeApi

def Call.IsMarker : Call → Prop
  | .register _ _ => False
  | .start _ _ | .stop _ _ => True

/-- What a call does for a thread with the place `i`. -/
def Call.Works (i : Fin MAX_THREADS) (s s' : State) (out : List Returned) : Call → Prop
  | .register _ _ => s' = s
  | .start _ now => StaysAt i out ∧ s' = { s.setStart i now with table := s'.table }
  | .stop m now => StaysAt i out ∧ s' = { s.addTime m i now with table := s'.table }

/-- One call, dealt with. -/
def CallHandled (s : State) (e : Pthread × Call) (s' : State) (out : List Returned) : Prop :=
  Handled s.table s'.table e.1 out
    (s'.timersAccum = s.timersAccum ∧ s'.timersAccumFlag = s.timersAccumFlag)
    fun i => e.2.Works i s s' out

theorem goesOn : GoesOn step State.table (fun _ => True) id (fun e => e.2.IsMarker) (fun _ => True) Prod.fst
    fun i s e s' out => e.2.Works i s s' out where
  step s e found t _ hmarker hfound := by
    obtain ⟨self, call⟩ := e
    obtain ⟨idx, inserted⟩ := found
    cases call with
    | register marker m => exact hmarker.elim
    | start m now =>
      refine ⟨_, _, step_start hfound m now, trivial, ?_⟩
      cases idx with
      | none => exact ⟨rfl, rfl, fun _ _ => rfl, nofun⟩
      | some i =>
        refine ⟨rfl, rfl, fun _ _ => rfl, fun j hj => iff_of_true ?_ trivial⟩
        cases hj
        exact ⟨by simp [StaysAt, State.startFound], rfl⟩
    | stop m now =>
      refine ⟨_, _, step_stop hfound m now, trivial, ?_⟩
      cases idx with
      | none => exact ⟨rfl, rfl, fun _ _ => rfl, nofun⟩
      | some i =>
        refine ⟨rfl, rfl, fun _ _ => rfl, fun j hj => iff_of_true ?_ trivial⟩
        cases hj
        exact ⟨by simp [StaysAt, State.stopFound], rfl⟩

end TimeApi

/-! ### The PAPI library -/

namespace PapiApi

def Call.IsMarker : Call → Prop
  | .register _ => False
  | .start _ _ | .stop _ _ => True

/-- What a call does for a thread with the place `i`. -/
def Call.Works (i : Fin MAX_THREADS) (s s' : State) (out : List Returned) : Call → Prop
  | .register _ => s' = s
  | .start _ papi => StaysAt i out ∧ (s'.table.threadsInfo i).rest = papi.eventSet ∧
      s'.counters = s.counters ∧ s'.countersSetFlag = s.countersSetFlag
  | .stop m papi => StaysAt i out ∧ s'.counters = (s.accumulate (some i) m papi.accum).counters ∧
      s'.countersSetFlag = (s.accumulate (some i) m papi.accum).countersSetFlag

/-- PAPI answers to a start without errors. -/
def Call.Starts (numEvents : Nat) : Call → Prop
  | .start _ papi => papi.Ok numEvents
  | .register _ | .stop _ _ => True

/-- One call, dealt with. -/
def CallHandled (s : State) (e : Pthread × Call) (s' : State) (out : List Returned) : Prop :=
  Handled s.table s'.table e.1 out
    (s'.counters = s.counters ∧ s'.countersSetFlag = s.countersSetFlag)
    fun i => e.2.Works i s s' out

namespace State

variable {s : State}

theorem eq_of_mem_loop {papi : Nat → Int} {i j : Int} {k : Nat} {events : List Int}
    (h : j ∈ i :: (forEvents papi i k events).indices ++ [i]) : j = i := by
  rcases List.mem_append.mp h with h | h
  · exact (List.mem_cons.mp h).elim id eq_of_mem_forEvents
  · exact List.mem_singleton.mp h

theorem threadsInfo_setEventSet {idx : Option (Fin MAX_THREADS)} {j : Fin MAX_THREADS} (hj : idx ≠ some j)
    (eventSet : Int) : (s.setEventSet idx eventSet).table.threadsInfo j = s.table.threadsInfo j := by
  cases idx with
  | none => rfl
  | some i => exact Function.update_of_ne (fun heq => hj (congrArg some heq.symm)) _ _

/-- Whatever PAPI answers, a start stores the set that it has created, or nothing. -/
theorem startFound_spec (s : State) (found : Found) (papi : StartAnswers) :
    (s.startFound found papi).2 = s ∨
      (s.startFound found papi).2 = s.setEventSet found.idx papi.eventSet := by
  simp only [startFound]
  split_ifs <;> simp

theorem stopThread_spec (s : State) (found : Found) (papi : StopAnswers) :
    (s.stopThread found papi).2 = s ∨
      (s.stopThread found papi).2 = s.setEventSet found.idx PAPI_NULL := by
  simp only [stopThread]
  split_ifs <;> simp

/-- Neither errors nor their absence touch the lock, the owners, the places of others or the events. -/
structure Keeps (s s' : State) (idx : Option (Fin MAX_THREADS)) : Prop where
  locked : s'.table.locked = s.table.locked
  owners : s'.table.owners = s.table.owners
  others : ∀ j, idx ≠ some j → s'.table.threadsInfo j = s.table.threadsInfo j
  eventArray : s'.eventArray = s.eventArray

theorem keeps_setEventSet (s : State) (idx : Option (Fin MAX_THREADS)) (eventSet : Int) :
    Keeps s (s.setEventSet idx eventSet) idx :=
  ⟨by simp, by simp, fun _ hj => threadsInfo_setEventSet hj eventSet, by simp⟩

theorem keeps_startFound (s : State) (found : Found) (papi : StartAnswers) :
    Keeps s (s.startFound found papi).2 found.idx := by
  rcases startFound_spec s found papi with heq | heq <;> rw [heq]
  · exact ⟨rfl, rfl, fun _ _ => rfl, rfl⟩
  · exact keeps_setEventSet ..

theorem keeps_stopFound (s : State) (found : Found) (m : Marker) (papi : StopAnswers) :
    Keeps s (s.stopFound found m papi).2 found.idx := by
  have haccumulate : Keeps s (s.accumulate found.idx m papi.accum) found.idx := by
    cases found.idx <;> exact ⟨rfl, rfl, fun _ _ => rfl, rfl⟩
  rw [stopFound]
  rcases stopThread_spec (s.accumulate found.idx m papi.accum) found papi with heq | heq
  · dsimp only
    rwa [heq]
  · dsimp only
    rw [heq]
    obtain ⟨hlocked, howners, hothers, hevents⟩ := keeps_setEventSet
      (s.accumulate found.idx m papi.accum) found.idx PAPI_NULL
    exact ⟨hlocked.trans haccumulate.locked, howners.trans haccumulate.owners,
      fun j hj => (hothers j hj).trans (haccumulate.others j hj), hevents.trans haccumulate.eventArray⟩

theorem eq_of_mem_startFound {found : Found} {papi : StartAnswers} {j : Int}
    (h : j ∈ (s.startFound found papi).1.indices) : j = found.threadIdx := by
  simp only [startFound] at h
  split_ifs at h
  · cases h
  · exact List.mem_singleton.mp h
  · exact eq_of_mem_loop (List.mem_append_left _ h)
  all_goals exact eq_of_mem_loop h

theorem startFound_ok (found : Found) {papi : StartAnswers} (h : papi.Ok s.eventArray.length) :
    (s.startFound found papi).1.ret = found.threadIdx ∧
      (s.startFound found papi).2 = s.setEventSet found.idx papi.eventSet := by
  obtain ⟨hregister, hcreate, hadd, hstart⟩ := h
  have hadded : (forEvents papi.addEvent found.threadIdx 0 s.eventArray).ret = 0 :=
    ret_forEvents_eq_zero_iff.mpr fun k hk => by
      rw [Nat.zero_add]
      exact hadd k hk
  simp only [startFound, eventArray_setEventSet, hregister, hcreate, hadded, hstart, ne_eq, not_true_eq_false,
    if_false, and_self]

/-- An error is passed on. -/
theorem startFound_error (found : Found) {papi : StartAnswers} (h : ¬ papi.Ok s.eventArray.length) :
    (s.startFound found papi).1.ret = -1 := by
  simp only [startFound, eventArray_setEventSet]
  split_ifs with hregister hcreate hadd hstart
  · rfl
  · rfl
  · rfl
  · rfl
  · refine absurd ⟨not_not.mp hregister, not_not.mp hcreate, fun k hk => ?_, not_not.mp hstart⟩ h
    have hadded := ret_forEvents_eq_zero_iff.mp (not_not.mp hadd) k hk
    rwa [Nat.zero_add] at hadded

theorem eq_of_mem_stopThread {found : Found} {papi : StopAnswers} {j : Int}
    (h : j ∈ (s.stopThread found papi).1.indices) : j = found.threadIdx := by
  simp only [stopThread] at h
  split_ifs at h
  · exact List.mem_singleton.mp h
  · exact eq_of_mem_loop (List.mem_append_left _ h)
  all_goals exact eq_of_mem_loop h

/-- What a stop adds and notes is kept whatever PAPI answers to the calls that follow. -/
theorem stopFound_spec (s : State) (i : Fin MAX_THREADS) (inserted : Option Bool) (m : Marker)
    (papi : StopAnswers) :
    StaysAt i [(s.stopFound ⟨some i, inserted⟩ m papi).1] ∧
      (s.stopFound ⟨some i, inserted⟩ m papi).2.counters
        = (s.accumulate (some i) m papi.accum).counters ∧
      (s.stopFound ⟨some i, inserted⟩ m papi).2.countersSetFlag
        = (s.accumulate (some i) m papi.accum).countersSetFlag := by
  refine ⟨fun r hr => ?_, ?_⟩
  · rw [List.mem_singleton.mp hr]
    refine ⟨rfl, fun j hj => ?_⟩
    rcases List.mem_append.mp hj with hj | hj
    · simpa [Found.threadIdx] using hj
    · exact eq_of_mem_stopThread hj
  · rw [stopFound]
    rcases stopThread_spec (s.accumulate (some i) m papi.accum) ⟨some i, inserted⟩ papi with heq | heq <;>
      rw [heq] <;> exact ⟨rfl, rfl⟩

/-- A start serves a thread that has a place exactly if PAPI answers without errors: the error is used as
the index of a place. -/
theorem works_start_iff (s t : State) (i : Fin MAX_THREADS) (inserted : Option Bool) (m : Marker)
    (papi : StartAnswers) (ht : t.eventArray = s.eventArray)
    (hkept : t.counters = s.counters ∧ t.countersSetFlag = s.countersSetFlag) :
    let r := t.startFound ⟨some i, inserted⟩ papi
    (Call.start m papi).Works i s r.2 [⟨0, r.1.indices ++ [r.1.ret]⟩] ↔ papi.Ok s.eventArray.length := by
  dsimp only
  by_cases hok : papi.Ok t.eventArray.length
  · obtain ⟨hret, hstate⟩ := startFound_ok ⟨some i, inserted⟩ hok
    refine iff_of_true ⟨fun r hr => ?_, ?_⟩ (ht ▸ hok)
    · rw [List.mem_singleton.mp hr]
      refine ⟨rfl, fun j hj => ?_⟩
      rcases List.mem_append.mp hj with hj | hj
      · exact eq_of_mem_startFound hj
      · exact (List.mem_singleton.mp hj).trans hret
    · rw [hstate]
      exact ⟨by simp [setEventSet, ThreadTable.setRest], hkept⟩
  · refine iff_of_false (fun hworks => ?_) (ht ▸ hok)
    have hlast := (hworks.1 _ (List.mem_singleton_self _)).2 (-1) <| by
      rw [startFound_error ⟨some i, inserted⟩ hok]
      exact List.mem_append_right _ (List.mem_singleton_self _)
    omega

end State

open State

theorem goesOn (events : List Int) :
    GoesOn step State.table (fun s => s.eventArray = events) (fun _ => PAPI_NULL) (fun e => e.2.IsMarker)
      (fun e => e.2.Starts events.length) Prod.fst fun i s e s' out => e.2.Works i s s' out where
  step s e found t hevents hmarker hfound := by
    obtain ⟨self, call⟩ := e
    obtain ⟨idx, inserted⟩ := found
    cases call with
    | register m => exact hmarker.elim
    | start m papi =>
      obtain ⟨hlocked, howners, hothers, harray⟩ :=
        keeps_startFound { s with table := t } ⟨idx, inserted⟩ papi
      refine ⟨_, _, step_start hfound m papi, harray.trans hevents, hlocked, howners, hothers, fun i hi => ?_⟩
      cases hi
      rw [Call.Starts, ← hevents]
      exact works_start_iff s { s with table := t } i inserted m papi rfl ⟨rfl, rfl⟩
    | stop m papi =>
      obtain ⟨hlocked, howners, hothers, harray⟩ :=
        keeps_stopFound { s with table := t } ⟨idx, inserted⟩ m papi
      refine ⟨_, _, step_stop hfound m papi, harray.trans hevents, hlocked, howners, hothers, fun i hi => ?_⟩
      cases hi
      exact iff_of_true (stopFound_spec { s with table := t } i inserted m papi) trivial

end PapiApi

/-- In both libraries, all calls of a run are dealt with exactly if their threads have no more ids than
there are places and, with PAPI, no call to it fails when a marker is started. -/
theorem callsHandled_iff {timed : List (Pthread × TimeApi.Call)} (htimed : ∀ e ∈ timed, e.2.IsMarker)
    {papi : PapiApi.InitAnswers} (hinit : (PapiApi.State.initial.init papi).1 = 0)
    {counted : List (Pthread × PapiApi.Call)} (hcounted : ∀ e ∈ counted, e.2.IsMarker) :
    (Along TimeApi.step TimeApi.CallHandled (TimeApi.State.initial.init 0).2 timed ↔
      (timed.map fun e => e.1.thid).toFinset.card ≤ MAX_THREADS) ∧
    (Along PapiApi.step PapiApi.CallHandled (PapiApi.State.initial.init papi).2 counted ↔
      (counted.map fun e => e.1.thid).toFinset.card ≤ MAX_THREADS ∧
        ∀ e ∈ counted, e.2.Starts papi.events.length) := by
  constructor
  · have hhandsOut := TimeApi.goesOn.handsOut fun s s' =>
      s'.timersAccum = s.timersAccum ∧ s'.timersAccumFlag = s.timersAccumFlag
    have halong := hhandsOut.along_iff (s := (TimeApi.State.initial.init 0).2) [] timed htimed
      ⟨trivial, rfl, ThreadTable.owners_initial ()⟩
    exact halong.trans (and_iff_left fun _ _ => trivial)
  · have hs := PapiApi.State.init_eq hinit
    refine ((PapiApi.goesOn papi.events).handsOut _).along_iff [] counted hcounted ⟨?_, ?_, ?_⟩
    · rw [hs]
    · rw [hs]
    · rw [hs]
      exact ThreadTable.owners_initial 0

/-- PAPI without events, and without errors. -/
def noEvents : PapiApi.InitAnswers where
  mutexInit := 0
  allocated := true
  version := true
  events := []
  threadInit := PapiApi.PAPI_OK

def noErrors : PapiApi.StartAnswers where
  registerThread := PapiApi.PAPI_OK
  createEventset := PapiApi.PAPI_OK
  eventSet := 1
  addEvent _ := PapiApi.PAPI_OK
  start := PapiApi.PAPI_OK

theorem callsHandled_iff_twice :
    (Along TimeApi.step TimeApi.CallHandled (TimeApi.State.initial.init 0).2
        [(1, .start ⟨0, 0⟩ 3), (1, .stop ⟨0, 0⟩ 5)] ↔
      ([(1, .start ⟨0, 0⟩ 3), (1, .stop ⟨0, 0⟩ 5)].map
        fun e : Pthread × TimeApi.Call => e.1.thid).toFinset.card ≤ MAX_THREADS) ∧
    (Along PapiApi.step PapiApi.CallHandled (PapiApi.State.initial.init noEvents).2
        [(1, .start ⟨0, 0⟩ noErrors), (2, .start ⟨0, 0⟩ noErrors)] ↔
      ([(1, .start ⟨0, 0⟩ noErrors), (2, .start ⟨0, 0⟩ noErrors)].map
        fun e : Pthread × PapiApi.Call => e.1.thid).toFinset.card ≤ MAX_THREADS ∧
      ∀ e ∈ [((1, .start ⟨0, 0⟩ noErrors) : Pthread × PapiApi.Call), (2, .start ⟨0, 0⟩ noErrors)],
        e.2.Starts noEvents.events.length) := by
  refine callsHandled_iff (fun e he => ?_) rfl fun e he => ?_ <;>
    simp only [List.mem_cons, List.not_mem_nil, or_false] at he <;>
    rcases he with rfl | rfl <;> trivial

/-- More threads than there are places. -/
def crowd : List Pthread := (List.range (MAX_THREADS + 1)).map (BitVec.ofNat 64)

theorem not_callsHandled_crowd :
    ¬ (∀ events : List (Pthread × TimeApi.Call), (∀ e ∈ events, e.2.IsMarker) →
      Along TimeApi.step TimeApi.CallHandled (TimeApi.State.initial.init 0).2 events) ∧
    ¬ (∀ (papi : PapiApi.InitAnswers) (events : List (Pthread × PapiApi.Call)),
      (PapiApi.State.initial.init papi).1 = 0 → (∀ e ∈ events, e.2.IsMarker) →
      Along PapiApi.step PapiApi.CallHandled (PapiApi.State.initial.init papi).2 events) := by
  constructor
  · intro h
    let events : List (Pthread × TimeApi.Call) := crowd.map fun self => (self, .start ⟨0, 0⟩ 0)
    have hmarkers : ∀ e ∈ events, e.2.IsMarker := by
      intro e he
      obtain ⟨self, _, rfl⟩ := List.mem_map.mp he
      trivial
    have hcard := (((TimeApi.goesOn.handsOut _).along_iff [] events hmarkers
      ⟨trivial, rfl, ThreadTable.owners_initial ()⟩).mp (h events hmarkers)).1
    exact absurd hcard (by decide)
  · intro h
    let events : List (Pthread × PapiApi.Call) := crowd.map fun self => (self, .start ⟨0, 0⟩ noErrors)
    have hmarkers : ∀ e ∈ events, e.2.IsMarker := by
      intro e he
      obtain ⟨self, _, rfl⟩ := List.mem_map.mp he
      trivial
    have hcard := ((((PapiApi.goesOn []).handsOut _).along_iff [] events hmarkers
      ⟨rfl, rfl, ThreadTable.owners_initial 0⟩).mp (h noEvents events rfl hmarkers)).1
    exact absurd hcard (by decide)

end ProfHalide
