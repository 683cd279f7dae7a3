import ProfHalide.Perfctr.EventSets
import ProfHalide.Lib.Machine
import Mathlib.Data.Fintype.Card
import Mathlib.Algebra.BigOperators.Group.List.Basic
import Mathlib.Algebra.Ring.Int.Defs

/-!
# What the PAPI library counts

Threads start and stop markers in turn, in any order among each other, and no call to PAPI fails. Each of
them gets a place and an event set of its own, whose counters are read when its marker is stopped: the
counters of the library are in the end the sums of what was counted from each start to its stop.
-/

namespace ProfHalide

namespace PapiApi

open Machine

/-! ### Threads -/

/-- The library, and what PAPI keeps for each thread. -/
structure Threads (W : Type) where
  api : State
  papi : W → Papi

def Thread.answer (t : Thread) (i : Fin MAX_THREADS) : MarkerCall → Int × Thread
  | .start f => t.markerStart i f
  | .stop m g => t.markerStop i m g

variable {W : Type} [DecidableEq W]

/-- A call of a thread, with what `start_thread` or `stop_thread` returns. Without a place the tables are
accessed at -1, which is outside of them. -/
def Threads.step (pthread : W → Pthread) (s : Threads W) (e : W × MarkerCall) :
    Option (Threads W × List Int) :=
  (s.api.table.findOrInsertThread (fun _ => PAPI_NULL) (pthread e.1)).bind fun (found, table) =>
    found.idx.map fun i =>
      let (ret, t) := Thread.answer ⟨{ s.api with table := table }, s.papi e.1⟩ i e.2
      (⟨t.api, Function.update s.papi e.1 t.papi⟩, [ret])

/-- A process that has started the library. -/
def Threads.started (answers : InitAnswers) : Threads W where
  api := (State.initial.init answers).2
  papi _ := .initial

/-- No call to PAPI fails. -/
def MarkerCall.Succeeds (n : Nat) : MarkerCall → Prop
  | .start f => f.Succeeds n ∧ f.reset = true
  | .stop _ g => g.Succeeds n ∧ g.accum = true

def callsOf (events : List (W × MarkerCall)) (w : W) : List MarkerCall :=
  (events.filter fun e => e.1 = w).map Prod.snd

/-- What a thread has counted for a marker, from each start to its stop. -/
def counted (events : List Int) (m : Marker) : List MarkerCall → List (Fin MAX_EVENTS_PER_THREAD → Int)
  | .start f :: .stop m' g :: calls =>
      if m' = m then interval events f.atReset g.atAccum :: counted events m calls
      else counted events m calls
  | _ => []

/-- The sum of it for an event. -/
def countOf (events : List Int) (m : Marker) (calls : List MarkerCall) (k : Fin MAX_EVENTS_PER_THREAD) : Int :=
  ((counted events m calls).map (· k)).sum

/-! ### The calls so far -/

theorem callsOf_append_self (events : List (W × MarkerCall)) (w : W) (call : MarkerCall) :
    callsOf (events ++ [(w, call)]) w = callsOf events w ++ [call] := by
  simp [callsOf, List.filter_append]

theorem callsOf_append_of_ne {events : List (W × MarkerCall)} {w w' : W} {call : MarkerCall} (hne : w ≠ w') :
    callsOf (events ++ [(w, call)]) w' = callsOf events w' := by
  simp [callsOf, List.filter_append, hne]

theorem Alternate.of_append : ∀ (calls : List MarkerCall) (call : MarkerCall),
    Alternate (calls ++ [call]) → Alternate calls
  | [], _, _ => trivial
  | [.start _], .stop _ _, _ => trivial
  | .start _ :: .stop _ _ :: calls, call, h => Alternate.of_append calls call h

/-- After as many stops as starts a start is not the last call. -/
theorem Alternate.not_started : ∀ (calls : List MarkerCall), Alternate calls → calls.length % 2 = 0 →
    ∀ f, calls.getLast? ≠ some (.start f)
  | [], _, _, _ => by simp
  | [.start _], _, heven, _ => by simp at heven
  | .start _ :: .stop _ _ :: calls, h, heven, f => by
    rw [List.length_cons, List.length_cons, Nat.add_assoc, Nat.add_mod_right] at heven
    have hrest := Alternate.not_started calls h heven f
    rw [List.getLast?_cons, List.getLast?_cons]
    cases hlast : calls.getLast? with
    | none => simp
    | some call =>
      rw [hlast] at hrest
      exact hrest

/-- What a call adds to the counts. -/
theorem Alternate.last (events : List Int) : ∀ (calls : List MarkerCall) (call : MarkerCall),
    Alternate (calls ++ [call]) →
    (∃ f, call = .start f ∧ (∀ f', calls.getLast? ≠ some (.start f')) ∧
      ∀ m, counted events m (calls ++ [call]) = counted events m calls) ∨
    ∃ m g f, call = .stop m g ∧ calls.getLast? = some (.start f) ∧
      ∀ m', counted events m' (calls ++ [call]) =
        counted events m' calls ++ if m = m' then [interval events f.atReset g.atAccum] else []
  | [], .start f, _ => Or.inl ⟨f, rfl, by simp, fun _ => rfl⟩
  | [.start f], .stop m g, _ => by
    refine Or.inr ⟨m, g, f, rfl, rfl, fun m' => ?_⟩
    simp [counted]
  | .start f :: .stop m g :: calls, call, h => by
    have hlast : ∀ {call' : MarkerCall}, calls.getLast? = some call' →
        (MarkerCall.start f :: .stop m g :: calls).getLast? = some call' := by
      intro call' hcalls
      rw [List.getLast?_cons, List.getLast?_cons, hcalls]
      rfl
    rcases Alternate.last events calls call h with ⟨f', rfl, hnot, hsame⟩ | ⟨m', g', f', rfl, hf', hmore⟩
    · refine Or.inl ⟨f', rfl, fun f'' hf'' => ?_, fun m' => ?_⟩
      · cases hcalls : calls.getLast? with
        | none =>
          rw [List.getLast?_cons, List.getLast?_cons, hcalls] at hf''
          cases hf''
        | some call' =>
          rw [hlast hcalls] at hf''
          exact hnot f'' (hcalls.trans hf'')
      · simp only [List.cons_append, counted, hsame]
    · refine Or.inr ⟨m', g', f', rfl, hlast hf', fun m'' => ?_⟩
      simp only [List.cons_append, counted, hmore]
      split <;> rfl

/-! ### One call -/

namespace Thread

variable {t : Thread} {i : Fin MAX_THREADS}

/-- What is known of a thread with a place from its calls. -/
def Standing (t : Thread) (i : Fin MAX_THREADS) (calls : List MarkerCall) : Prop :=
  match calls.getLast? with
  | some (.start f) => t.Counting i f.atReset
  | _ => t.Idle i

/-- A stop adds what was counted, and leaves nothing of the event set. -/
theorem markerStop_counts {since : Counted} (h : t.Counting i since) (m : Marker) {g : StopFaults}
    (hg : g.Succeeds t.api.eventArray.length) (haccum : g.accum = true) :
    t.markerStop i m g = (0, ⟨(t.api.accumulate (some i) m
      (interval t.api.eventArray since g.atAccum)).setEventSet (some i) PAPI_NULL, .initial⟩) := by
  obtain ⟨added, papi, since', hread, hadded, hcounting⟩ := accum_of_counting h m g
  rw [hadded haccum] at hread hcounting
  simp only [markerStop, hread]
  exact stopThread_succeeds hcounting hg

theorem Standing.idle {calls : List MarkerCall} (h : t.Standing i calls)
    (hlast : ∀ f, calls.getLast? ≠ some (.start f)) : t.Idle i := by
  unfold Standing at h
  split at h
  · next f hf => exact absurd hf (hlast f)
  · exact h

theorem Standing.counting {calls : List MarkerCall} (h : t.Standing i calls) {f : StartFaults}
    (hlast : calls.getLast? = some (.start f)) : t.Counting i f.atReset := by
  rw [Standing, hlast] at h
  exact h

/-- What is known of a thread is about its own place, and about the events. -/
theorem Standing.congr {t' : Thread} {calls : List MarkerCall} (h : t.Standing i calls)
    (heventSet : t'.eventSet i = t.eventSet i) (hpapi : t'.papi = t.papi)
    (hevents : t'.api.eventArray = t.api.eventArray) : t'.Standing i calls := by
  unfold Standing at h ⊢
  split at h
  · obtain ⟨handle, hset, hcounts⟩ := h
    exact ⟨handle, heventSet.trans hset, by rw [hpapi, hcounts, hevents]⟩
  · exact ⟨heventSet.trans h.1, hpapi.trans h.2⟩

end Thread

/-! ### Counters -/

section Accumulate

variable {api : State} {i : Fin MAX_THREADS}

theorem counters_accumulate_of_ne {j : Fin MAX_THREADS} (hj : j ≠ i) (m' m : Marker)
    (values : Fin MAX_EVENTS_PER_THREAD → Int) :
    (api.accumulate (some i) m values).counters m' j = api.counters m' j := by
  show Function.update api.counters m _ m' j = _
  by_cases hm : m' = m
  · rw [hm, Function.update_self, Function.update_of_ne hj]
  · rw [Function.update_of_ne hm]

theorem counters_accumulate (m' m : Marker) (values : Fin MAX_EVENTS_PER_THREAD → Int)
    (k : Fin MAX_EVENTS_PER_THREAD) : (api.accumulate (some i) m values).counters m' i k =
      api.counters m' i k + if m = m' then values k else 0 := by
  show Function.update api.counters m _ m' i k = _
  by_cases hm : m = m'
  · rw [if_pos hm, ← hm, Function.update_self, Function.update_self]
  · rw [if_neg hm, Function.update_of_ne (Ne.symm hm), add_zero]

end Accumulate

/-! ### The state after the calls -/

/-- The places belong to the threads `ws`, and hold what is known of their calls. -/
structure Tracks (pthread : W → Pthread) (array : List Int) (s : Threads W) (ws : List W)
    (events : List (W × MarkerCall)) : Prop where
  unlocked : s.api.table.locked = false
  owned : Slots.OwnedBy s.api.table.owners (ws.map fun w => (pthread w).thid)
  eventArray : s.api.eventArray = array
  standing : ∀ (i : Fin MAX_THREADS) w, ws[i.val]? = some w →
    Thread.Standing ⟨s.api, s.papi w⟩ i (callsOf events w)
  counters : ∀ (i : Fin MAX_THREADS) w, ws[i.val]? = some w → ∀ m k,
    s.api.counters m i k = countOf array m (callsOf events w) k
  absent : ∀ w, w ∉ ws → callsOf events w = [] ∧ s.papi w = .initial
  free : ∀ i : Fin MAX_THREADS, ws[i.val]? = none → ∀ m k, s.api.counters m i k = 0

namespace Tracks

variable {pthread : W → Pthread} {array : List Int} {s : Threads W} {ws : List W}
  {events : List (W × MarkerCall)} {w : W} {i : Fin MAX_THREADS}

theorem eq_of_get (h : Tracks pthread array s ws events) {w' : W} {j : Fin MAX_THREADS}
    (hi : ws[i.val]? = some w) (hj : ws[j.val]? = some w') : i = j ↔ w = w' := by
  have hnodup := h.owned.nodup.of_map
  obtain ⟨hi', hw⟩ := List.getElem?_eq_some_iff.mp hi
  obtain ⟨hj', hw'⟩ := List.getElem?_eq_some_iff.mp hj
  rw [Fin.ext_iff, ← hw, ← hw', hnodup.getElem_inj_iff]

/-- A new thread gets a place that no other has used. -/
theorem place (h : Tracks pthread array s ws events) (hw : w ∉ ws) (hlt : ws.length < MAX_THREADS)
    (howned : Slots.OwnedBy (s.api.table.place (fun _ => PAPI_NULL) ⟨ws.length, hlt⟩ (pthread w).thid).owners
      (ws.map (fun w => (pthread w).thid) ++ [(pthread w).thid])) :
    Tracks pthread array ⟨{ s.api with
      table := s.api.table.place (fun _ => PAPI_NULL) ⟨ws.length, hlt⟩ (pthread w).thid }, s.papi⟩
      (ws ++ [w]) events := by
  have hcases : ∀ (j : Fin MAX_THREADS) w', (ws ++ [w])[j.val]? = some w' →
      ws[j.val]? = some w' ∧ j ≠ ⟨ws.length, hlt⟩ ∨ w' = w ∧ j = ⟨ws.length, hlt⟩ := by
    intro j w' hj
    rcases Nat.lt_or_ge j.val ws.length with hbefore | hge
    · rw [List.getElem?_append_left hbefore] at hj
      exact Or.inl ⟨hj, fun heq => absurd (congrArg Fin.val heq) (Nat.ne_of_lt hbefore)⟩
    · have hlength := (List.getElem?_eq_some_iff.mp hj).1
      rw [List.length_append, List.length_singleton] at hlength
      have heq : j.val = ws.length := by omega
      rw [heq, List.getElem?_concat_length] at hj
      exact Or.inr ⟨(Option.some.inj hj).symm, Fin.ext heq⟩
  refine ⟨h.unlocked, ?_, h.eventArray, fun j w' hj => ?_, fun j w' hj m k => ?_, fun w' hw' => ?_,
    fun j hj m k => ?_⟩
  · rw [List.map_append]
    exact howned
  · rcases hcases j w' hj with ⟨hj, hne⟩ | ⟨rfl, rfl⟩
    · refine (h.standing j w' hj).congr ?_ rfl rfl
      show (Function.update s.api.table.threadsInfo _ _ j).rest = _
      rw [Function.update_of_ne hne]
      rfl
    · rw [(h.absent w' hw).1]
      refine ⟨?_, (h.absent w' hw).2⟩
      show (Function.update s.api.table.threadsInfo _ _ _).rest = PAPI_NULL
      rw [Function.update_self]
  · rcases hcases j w' hj with ⟨hj, _⟩ | ⟨rfl, rfl⟩
    · exact h.counters j w' hj m k
    · rw [(h.absent w' hw).1]
      exact h.free _ (List.getElem?_eq_none (Nat.le_refl _)) m k
  · rw [List.mem_append, not_or] at hw'
    exact h.absent w' hw'.1
  · rw [List.getElem?_eq_none_iff, List.length_append] at hj
    exact h.free j (List.getElem?_eq_none (by omega)) m k

/-- A call finds the place of its thread, or makes one. -/
theorem locate [Fintype W] (hcard : Fintype.card W ≤ MAX_THREADS)
    (hids : Function.Injective fun w => (pthread w).thid) (h : Tracks pthread array s ws events) (w : W) :
    ∃ i inserted table ws', s.api.table.findOrInsertThread (fun _ => PAPI_NULL) (pthread w) =
        some (⟨some i, inserted⟩, table) ∧ ws'[i.val]? = some w ∧
      Tracks pthread array ⟨{ s.api with table := table }, s.papi⟩ ws' events := by
  by_cases hw : w ∈ ws
  · obtain ⟨i, hi, hfound⟩ := ThreadTable.findOrInsertThread_of_mem (fun _ => PAPI_NULL) h.owned
      (List.mem_map_of_mem hw)
    refine ⟨i, some false, s.api.table, ws, hfound, ?_, h⟩
    rw [h.owned.get, List.getElem?_map, Option.map_eq_some_iff] at hi
    obtain ⟨w', hget, hthid⟩ := hi
    rw [hget, hids hthid]
  · have hnew : (pthread w).thid ∉ ws.map fun w => (pthread w).thid := by
      intro hthid
      obtain ⟨w', hw', heq⟩ := List.mem_map.mp hthid
      exact hw (hids heq ▸ hw')
    have hnodup : (w :: ws).Nodup := List.nodup_cons.mpr ⟨hw, h.owned.nodup.of_map⟩
    have hlt : ws.length < MAX_THREADS := Nat.lt_of_lt_of_le hnodup.length_le_card hcard
    have hlt' : (ws.map fun w => (pthread w).thid).length < MAX_THREADS := by rwa [List.length_map]
    obtain ⟨hfound, howned⟩ :=
      ThreadTable.findOrInsertThread_of_lt (fun _ => PAPI_NULL) h.owned h.unlocked hnew hlt'
    simp only [List.length_map] at hfound howned
    exact ⟨_, _, _, ws ++ [w], hfound, List.getElem?_concat_length, h.place hw hlt howned⟩

/-- A call changes the event set and the counters of one place. -/
theorem put (h : Tracks pthread array s ws events) (hi : ws[i.val]? = some w) {call : MarkerCall}
    (api : State) (htable : api.table = s.api.table) (hevents : api.eventArray = s.api.eventArray)
    (hothers : ∀ j ≠ i, ∀ m, api.counters m j = s.api.counters m j) (eventSet : Int) {papi : Papi}
    (hstanding : Thread.Standing ⟨api.setEventSet (some i) eventSet, papi⟩ i (callsOf events w ++ [call]))
    (hcounters : ∀ m k, api.counters m i k = countOf array m (callsOf events w ++ [call]) k) :
    Tracks pthread array ⟨api.setEventSet (some i) eventSet, Function.update s.papi w papi⟩ ws
      (events ++ [(w, call)]) := by
  have hwho : ∀ {j : Fin MAX_THREADS} {w' : W}, ws[j.val]? = some w' →
      j = i ∧ w' = w ∨ j ≠ i ∧ w ≠ w' := by
    intro j w' hj
    by_cases heq : j = i
    · exact Or.inl ⟨heq, (h.eq_of_get hj hi).mp heq⟩
    · exact Or.inr ⟨heq, fun hw => heq ((h.eq_of_get hj hi).mpr hw.symm)⟩
  refine ⟨?_, ?_, hevents.trans h.eventArray, fun j w' hj => ?_, fun j w' hj m k => ?_, fun w' hw' => ?_,
    fun j hj m k => ?_⟩
  · rw [State.locked_setEventSet, htable]
    exact h.unlocked
  · rw [State.owners_setEventSet, htable]
    exact h.owned
  · show Thread.Standing ⟨_, Function.update s.papi w papi w'⟩ j _
    rcases hwho hj with ⟨rfl, rfl⟩ | ⟨hne, hw⟩
    · rw [callsOf_append_self, Function.update_self]
      exact hstanding
    · rw [callsOf_append_of_ne hw, Function.update_of_ne hw.symm]
      refine (h.standing j w' hj).congr ?_ rfl hevents
      show (Function.update api.table.threadsInfo i _ j).rest = _
      rw [Function.update_of_ne hne, htable]
      rfl
  · rcases hwho hj with ⟨rfl, rfl⟩ | ⟨hne, hw⟩
    · rw [callsOf_append_self]
      exact hcounters m k
    · rw [callsOf_append_of_ne hw, ← h.counters j w' hj]
      exact congrFun (hothers j hne m) k
  · have hne : w ≠ w' := by
      rintro rfl
      exact hw' (List.mem_of_getElem? hi)
    show _ ∧ Function.update s.papi w papi w' = _
    rw [callsOf_append_of_ne hne, Function.update_of_ne hne.symm]
    exact h.absent w' hw'
  · have hne : j ≠ i := by
      rintro rfl
      rw [hi] at hj
      cases hj
    rw [← h.free j hj m k]
    exact congrFun (hothers j hne m) k

/-- A call in turn returns the place of its thread, or 0. -/
theorem step [Fintype W] (hcard : Fintype.card W ≤ MAX_THREADS)
    (hids : Function.Injective fun w => (pthread w).thid) (h : Tracks pthread array s ws events)
    {call : MarkerCall} (hturn : Alternate (callsOf events w ++ [call])) (hok : call.Succeeds array.length) :
    ∃ s' ret ws', s.step pthread (w, call) = some (s', [ret]) ∧ 0 ≤ ret ∧
      Tracks pthread array s' ws' (events ++ [(w, call)]) := by
  obtain ⟨i, inserted, table, ws', hfound, hi, h'⟩ := h.locate hcard hids w
  have hstanding := h'.standing i w hi
  have hevents : ({ s.api with table := table } : State).eventArray = array := h.eventArray
  rcases Alternate.last array _ _ hturn with ⟨f, rfl, hlast, hsame⟩ | ⟨m, g, f, rfl, hlast, hmore⟩
  · obtain ⟨hsucceeds, hreset⟩ := hok
    rw [← hevents] at hsucceeds
    obtain ⟨t, hstart, hcounting, hapi⟩ := Thread.markerStart_succeeds (hstanding.idle hlast) hsucceeds
    refine ⟨⟨t.api, Function.update s.papi w t.papi⟩, i.val, ws', ?_, Int.natCast_nonneg _, ?_⟩
    · rw [Threads.step, hfound]
      simp only [Option.bind_some, Option.map_some, Thread.answer, hstart]
    · obtain ⟨api, papi⟩ := t
      dsimp only at hapi
      subst hapi
      rw [hreset, if_pos rfl] at hcounting
      refine h'.put hi _ rfl rfl (fun _ _ _ => rfl) f.eventSet ?_ fun m k => ?_
      · rw [Thread.Standing, List.getLast?_concat]
        exact hcounting
      · rw [countOf, hsame]
        exact h'.counters i w hi m k
  · obtain ⟨hsucceeds, haccum⟩ := hok
    rw [← hevents] at hsucceeds
    have hstop := Thread.markerStop_counts (hstanding.counting hlast) m hsucceeds haccum
    let api := ({ s.api with table := table } : State).accumulate (some i) m
      (interval s.api.eventArray f.atReset g.atAccum)
    refine ⟨⟨api.setEventSet (some i) PAPI_NULL, Function.update s.papi w .initial⟩, 0, ws', ?_,
      Int.le_refl 0, h'.put hi api rfl rfl (fun j hj m' => ?_) PAPI_NULL ?_ fun m' k => ?_⟩
    · rw [Threads.step, hfound]
      simp only [Option.bind_some, Option.map_some, Thread.answer, hstop]
      rfl
    · exact counters_accumulate_of_ne hj m' m _
    · rw [Thread.Standing, List.getLast?_concat]
      exact ⟨by simp, rfl⟩
    · rw [counters_accumulate, countOf, hmore, List.map_append, List.sum_append, ← countOf,
        ← h'.counters i w hi, h.eventArray]
      by_cases hm : m = m'
      · rw [if_pos hm, if_pos hm, List.map_singleton, List.sum_singleton]
      · rw [if_neg hm, if_neg hm, List.map_nil, List.sum_nil]

end Tracks

/-! ### Whole runs -/

/-- The calls of each thread come in turn, no call to PAPI fails, and the events fit into the counters. -/
structure Faultless (n : Nat) (events : List (W × MarkerCall)) : Prop where
  inTurn : ∀ w, Alternate (callsOf events w)
  succeeds : ∀ e ∈ events, e.2.Succeeds n
  few : n ≤ MAX_EVENTS_PER_THREAD

theorem Faultless.of_append {n : Nat} {events : List (W × MarkerCall)} {e : W × MarkerCall} (h : Faultless n (events ++ [e])) :
    Faultless n events where
  inTurn w := by
    have hturn := h.inTurn w
    by_cases hw : e.1 = w
    · rw [← hw, callsOf_append_self events e.1 e.2] at hturn
      exact hw ▸ Alternate.of_append _ _ hturn
    · rwa [callsOf_append_of_ne hw] at hturn
  succeeds e' he' := h.succeeds e' (List.mem_append_left _ he')
  few := h.few

section Run

variable [Fintype W] {pthread : W → Pthread} {answers : InitAnswers} {events : List (W × MarkerCall)}

theorem tracks_run (hcard : Fintype.card W ≤ MAX_THREADS)
    (hids : Function.Injective fun w => (pthread w).thid) (hinit : (State.initial.init answers).1 = 0)
    (hevents : Faultless answers.events.length events) :
    ∃ s out ws, run (Threads.step pthread) (.started answers) events = some (s, out) ∧
      (∀ ret ∈ out, 0 ≤ ret) ∧ Tracks pthread answers.events s ws events := by
  induction events using List.reverseRecOn with
  | nil =>
    refine ⟨.started answers, [], [], rfl, by simp, ?_, ?_, ?_, ?_, ?_, fun _ _ => ⟨rfl, rfl⟩, ?_⟩
    · rw [Threads.started, State.init_eq hinit]
    · rw [Threads.started, State.init_eq hinit]
      exact ThreadTable.owners_initial 0
    · rw [Threads.started, State.init_eq hinit]
    · simp
    · simp
    · intro i _ m k
      rw [Threads.started, State.init_eq hinit]
      rfl
  | append_singleton events e ih =>
    obtain ⟨w, call⟩ := e
    obtain ⟨s, out, ws, hrun, hout, htracks⟩ := ih hevents.of_append
    have hturn := hevents.inTurn w
    rw [callsOf_append_self] at hturn
    have hok := hevents.succeeds (w, call) (List.mem_append_right _ (List.mem_singleton_self _))
    obtain ⟨s', ret, ws', hstep, hret, htracks'⟩ := htracks.step hcard hids hturn hok
    refine ⟨s', out ++ [ret], ws', ?_, fun r hr => ?_, htracks'⟩
    · rw [run_append, hrun, Option.bind_some, run_cons hstep]
      rfl
    · rcases List.mem_append.mp hr with hr | hr
      · exact hout r hr
      · rw [List.mem_singleton.mp hr]
        exact hret

/-- Whatever the threads do in between, each call succeeds, the counters of a thread are the sums of what it
has counted from each start to its stop, and between its calls PAPI keeps nothing of it. -/
theorem run_counts (hcard : Fintype.card W ≤ MAX_THREADS)
    (hids : Function.Injective fun w => (pthread w).thid) (hinit : (State.initial.init answers).1 = 0)
    (hevents : Faultless answers.events.length events) :
    ∃ s out, run (Threads.step pthread) (.started answers) events = some (s, out) ∧
      (∀ ret ∈ out, 0 ≤ ret) ∧
      (∀ w, callsOf events w ≠ [] → ∃ i, s.api.table.owners i = some (pthread w).thid ∧
        ∀ m k, s.api.counters m i k = countOf answers.events m (callsOf events w) k) ∧
      (∀ i, s.api.table.owners i = none → ∀ m k, s.api.counters m i k = 0) ∧
      ∀ w, (callsOf events w).length % 2 = 0 → s.papi w = .initial := by
  obtain ⟨s, out, ws, hrun, hout, htracks⟩ := tracks_run hcard hids hinit hevents
  have hget : ∀ w ∈ ws, ∃ i : Fin MAX_THREADS, ws[i.val]? = some w := by
    intro w hw
    obtain ⟨n, hn, heq⟩ := List.mem_iff_getElem.mp hw
    have hle := htracks.owned.length_le
    rw [List.length_map] at hle
    exact ⟨⟨n, Nat.lt_of_lt_of_le hn hle⟩, by rw [List.getElem?_eq_getElem hn, heq]⟩
  refine ⟨s, out, hrun, hout, fun w hw => ?_, fun i hi m k => ?_, fun w heven => ?_⟩
  · have hmem : w ∈ ws := by
      by_contra hnot
      exact hw (htracks.absent w hnot).1
    obtain ⟨i, hi⟩ := hget w hmem
    refine ⟨i, ?_, htracks.counters i w hi⟩
    rw [htracks.owned.get, List.getElem?_map, hi]
    rfl
  · rw [htracks.owned.get, List.getElem?_map, Option.map_eq_none_iff] at hi
    exact htracks.free i hi m k
  · by_cases hmem : w ∈ ws
    · obtain ⟨i, hi⟩ := hget w hmem
      exact ((htracks.standing i w hi).idle (Alternate.not_started _ (hevents.inTurn w) heven)).2
    · exact (htracks.absent w hmem).2

end Run

/-- Two threads, one inside of the other's measurement and once more after it. -/
def overlapping : List (Bool × MarkerCall) :=
  let start (set : Nat) (at' : Int) : MarkerCall :=
    .start ⟨true, true, set, fun _ => true, true, true, .zero, fun _ => at', 0⟩
  let stop (at' : Int) : MarkerCall :=
    .stop ⟨⟨3, by decide⟩, ⟨1, by decide⟩⟩ ⟨true, true, fun _ => true, true, true, fun _ => at', .zero⟩
  [(true, start 0 5), (false, start 1 7), (false, stop 9), (true, stop 25), (false, start 0 30),
    (false, stop 31)]

def twoEvents : InitAnswers := ⟨0, true, true, [40, 41], 0⟩

theorem run_counts_overlapping :
    ∃ s out, run (Threads.step fun b : Bool => if b then 1 else 2) (.started twoEvents) overlapping =
        some (s, out) ∧
      (∀ ret ∈ out, 0 ≤ ret) ∧
      (∀ w, callsOf overlapping w ≠ [] → ∃ i,
        s.api.table.owners i = some (Pthread.thid (if w then 1 else 2)) ∧
          ∀ m k, s.api.counters m i k = countOf twoEvents.events m (callsOf overlapping w) k) ∧
      (∀ i, s.api.table.owners i = none → ∀ m k, s.api.counters m i k = 0) ∧
      ∀ w, (callsOf overlapping w).length % 2 = 0 → s.papi w = .initial := by
  refine run_counts (by decide) (by decide) rfl ⟨fun w => ?_, ?_, by decide⟩
  · cases w <;> trivial
  · simp [overlapping, MarkerCall.Succeeds, StartFaults.Succeeds, StopFaults.Succeeds]

example : countOf [40, 41] ⟨3, 1⟩ (callsOf overlapping false) 1 = 3 := by decide

end PapiApi

end ProfHalide
