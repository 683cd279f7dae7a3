import ProfHalide.Perfctr.TimeApi
import Mathlib.Data.List.Dedup
import Mathlib.Algebra.Order.Field.Rat
import Mathlib.Algebra.BigOperators.Group.List.Basic
import Mathlib.Tactic.Ring
import Mathlib.Tactic.Positivity

/-!
# What the time library reports

While the threads fit into the table under ids of their own, and each starts and stops its markers in turn,
the place of a thread holds its latest start, and the sum of its times for each marker. What is printed in
the end is read off the calls alone.
-/

namespace ProfHalide

namespace TimeApi

open Machine

def Call.now : Call → Option Int
  | .register _ _ => none
  | .start _ now | .stop _ now => some now

/-- Markers started and stopped in turn; the last one need not be stopped. -/
inductive InTurn : List Call → Prop
  | nil : InTurn []
  | started (m : Marker) (a : Int) : InTurn [.start m a]
  | stopped (m : Marker) (a b : Int) {calls : List Call} (h : InTurn calls) :
      InTurn (.start m a :: .stop m b :: calls)

/-- The times from start to stop of a marker. -/
def durations (m : Marker) : List Call → List Int
  | .start m' a :: .stop _ b :: calls =>
      if m' = m then (b - a) :: durations m calls else durations m calls
  | _ => []

section

variable (events : List (Pthread × Call))

def callsOf (self : Pthread) : List Call := (events.filter fun e => e.1 = self).map Prod.snd

/-- The threads in the order of their first calls. -/
def callers : List Pthread := (events.map Prod.fst).reverse.dedup.reverse

/-- The time that a thread has taken for a marker. -/
def timeOf (m : Marker) (self : Pthread) : ℚ :=
  ((durations m (callsOf events self)).sum : Int) / CLOCKS_PER_SEC

/-- The times of all threads that have stopped a marker. -/
def times (m : Marker) : List ℚ :=
  ((callers events).filter fun self => durations m (callsOf events self) ≠ []).map (timeOf events m)

variable (name : Marker → List Char)

/-- The line of the thread that was the `th`-th to call. -/
def threadLine (m : Marker) (th : Fin MAX_THREADS) : Option Line := do
  let self ← (callers events)[th.val]?
  if durations m (callsOf events self) ≠ [] then some (.thread (name m) th (timeOf events m self))
  else none

def markerLines (m : Marker) : List Line :=
  (List.finRange MAX_THREADS).filterMap (threadLine events name m) ++
    ((times events m).max?.map (Line.max (name m))).toList

/-- What is to be printed. -/
def report : List Line :=
  State.allMarkers.flatMap (markerLines events name) ++
    [.total (State.allMarkers.map fun m => (times events m).max?.getD 0).sum]

/-- A session with a place of its own for each thread. -/
structure Session : Prop where
  inTurn : ∀ self, InTurn (callsOf events self)
  clock : (events.filterMap fun e => e.2.now).Pairwise (· ≤ ·)
  ids : ∀ self ∈ callers events, ∀ self' ∈ callers events, self.thid = self'.thid → self = self'
  few : (callers events).length ≤ MAX_THREADS

end

/-! ### The calls so far -/

variable {events : List (Pthread × Call)} {self : Pthread} {call : Call} {m : Marker}

theorem mem_callers : self ∈ callers events ↔ self ∈ events.map Prod.fst := by
  rw [callers, List.mem_reverse, List.mem_dedup, List.mem_reverse]

theorem nodup_callers (events : List (Pthread × Call)) : (callers events).Nodup :=
  List.nodup_reverse.mpr (List.nodup_dedup _)

theorem callers_append_of_mem (call : Call) (h : self ∈ callers events) :
    callers (events ++ [(self, call)]) = callers events := by
  rw [mem_callers] at h
  simp only [callers, List.map_append, List.map_cons, List.map_nil, List.reverse_append,
    List.reverse_singleton, List.singleton_append]
  rw [List.dedup_cons_of_mem (List.mem_reverse.mpr h)]

theorem callers_append_of_not_mem (call : Call) (h : self ∉ callers events) :
    callers (events ++ [(self, call)]) = callers events ++ [self] := by
  rw [mem_callers] at h
  simp only [callers, List.map_append, List.map_cons, List.map_nil, List.reverse_append,
    List.reverse_singleton, List.singleton_append]
  rw [List.dedup_cons_of_notMem (fun hmem => h (List.mem_reverse.mp hmem)), List.reverse_cons]

theorem callsOf_append_self (events : List (Pthread × Call)) (self : Pthread) (call : Call) :
    callsOf (events ++ [(self, call)]) self = callsOf events self ++ [call] := by
  simp [callsOf, List.filter_append]

theorem callsOf_append_of_ne {self' : Pthread} (hne : self ≠ self') :
    callsOf (events ++ [(self, call)]) self' = callsOf events self' := by
  simp [callsOf, List.filter_append, hne]

theorem callsOf_eq_nil (h : self ∉ callers events) : callsOf events self = [] := by
  rw [callsOf, List.map_eq_nil_iff, List.filter_eq_nil_iff]
  intro e he heq
  rw [mem_callers] at h
  exact h (of_decide_eq_true heq ▸ List.mem_map_of_mem he)

theorem InTurn.of_append : ∀ {calls : List Call} {call : Call}, InTurn (calls ++ [call]) → InTurn calls
  | [], _, _ => .nil
  | [_], _, .stopped m a _ _ => .started m a
  | _ :: _ :: _, _, .stopped m a b h => .stopped m a b h.of_append

/-- What a call in turn adds to the durations. -/
theorem InTurn.last : ∀ {calls : List Call} {call : Call}, InTurn (calls ++ [call]) →
    (∃ m a, call = .start m a ∧ ∀ m', durations m' (calls ++ [call]) = durations m' calls) ∨
    ∃ m a b, call = .stop m b ∧ calls.getLast? = some (.start m a) ∧
      ∀ m', durations m' (calls ++ [call]) = durations m' calls ++ if m = m' then [b - a] else []
  | [], _, .started m a => Or.inl ⟨m, a, rfl, fun _ => rfl⟩
  | [_], _, .stopped m a b _ => by
    refine Or.inr ⟨m, a, b, rfl, rfl, fun m' => ?_⟩
    simp [durations]
  | _ :: _ :: calls, call, .stopped m a b h => by
    rcases h.last with ⟨m₁, a₁, rfl, hsame⟩ | ⟨m₁, a₁, b₁, rfl, hlast, hmore⟩
    · refine Or.inl ⟨m₁, a₁, rfl, fun m' => ?_⟩
      simp only [List.cons_append, durations, hsame]
    · refine Or.inr ⟨m₁, a₁, b₁, rfl, ?_, fun m' => ?_⟩
      · rw [List.getLast?_cons, List.getLast?_cons, hlast]
        rfl
      · simp only [List.cons_append, durations, hmore]
        split <;> rfl

/-! ### The state after the calls -/

/-- The places belong to the threads of `order`, and hold what is known of their calls. -/
structure Tracks (s : State) (order : List Pthread) (events : List (Pthread × Call)) : Prop where
  unlocked : s.table.locked = false
  owned : Slots.OwnedBy s.table.owners (order.map Pthread.thid)
  started : ∀ (i : Fin MAX_THREADS) self, order[i.val]? = some self → ∀ m a,
    (callsOf events self).getLast? = some (.start m a) → s.startTimes i = a
  accum : ∀ (i : Fin MAX_THREADS) self, order[i.val]? = some self → ∀ m,
    s.timersAccum m i = timeOf events m self
  flag : ∀ (i : Fin MAX_THREADS) self, order[i.val]? = some self → ∀ m,
    s.timersAccumFlag m i = true ↔ durations m (callsOf events self) ≠ []
  unused : ∀ i : Fin MAX_THREADS, order[i.val]? = none → ∀ m,
    s.timersAccum m i = 0 ∧ s.timersAccumFlag m i = false

section

variable {s : State} {order : List Pthread} {i : Fin MAX_THREADS}

theorem Tracks.eq_of_get (h : Tracks s order events) {j : Fin MAX_THREADS}
    (hi : order[i.val]? = some self) (hj : order[j.val]? = some self) : i = j := by
  have hnodup := h.owned.nodup.of_map
  obtain ⟨hi', hselfi⟩ := List.getElem?_eq_some_iff.mp hi
  obtain ⟨hj', hselfj⟩ := List.getElem?_eq_some_iff.mp hj
  exact Fin.ext (hnodup.getElem_inj_iff.mp (hselfi.trans hselfj.symm))

/-- A new thread gets a place, with nothing known of it. -/
theorem Tracks.place (h : Tracks s order events) (hcalls : callsOf events self = [])
    (hlt : (order.map Pthread.thid).length < MAX_THREADS)
    (howned : Slots.OwnedBy (s.table.place id ⟨_, hlt⟩ self.thid).owners
      (order.map Pthread.thid ++ [self.thid])) :
    Tracks { s with table := s.table.place id ⟨_, hlt⟩ self.thid } (order ++ [self]) events := by
  have hlength : order.length < MAX_THREADS := by rwa [List.length_map] at hlt
  -- A place of the longer order is one of the shorter, or the new one, which was not used.
  have hcases : ∀ (i : Fin MAX_THREADS) self', (order ++ [self])[i.val]? = some self' →
      order[i.val]? = some self' ∨ self' = self ∧ order[i.val]? = none := by
    intro i self' hi
    rcases Nat.lt_or_ge i.val order.length with hlt' | hge
    · rw [List.getElem?_append_left hlt'] at hi
      exact Or.inl hi
    · rw [List.getElem?_append_right hge] at hi
      have hmem := List.mem_singleton.mp (List.mem_of_getElem? hi)
      exact Or.inr ⟨hmem, List.getElem?_eq_none hge⟩
  refine ⟨h.unlocked, ?_, fun i self' hi m a hlast => ?_, fun i self' hi m => ?_,
    fun i self' hi m => ?_, fun i hi m => ?_⟩
  · rw [List.map_append]
    exact howned
  · rcases hcases i self' hi with hi | ⟨rfl, hi⟩
    · exact h.started i self' hi m a hlast
    · rw [hcalls] at hlast
      cases hlast
  · rcases hcases i self' hi with hi | ⟨rfl, hfree⟩
    · exact h.accum i self' hi m
    · rw [timeOf, hcalls]
      simpa [durations] using (h.unused i hfree m).1
  · rcases hcases i self' hi with hi | ⟨rfl, hfree⟩
    · exact h.flag i self' hi m
    · rw [hcalls]
      simpa [durations] using (h.unused i hfree m).2
  · rw [List.getElem?_eq_none_iff, List.length_append] at hi
    exact h.unused i (List.getElem?_eq_none (by omega)) m

theorem Tracks.start (h : Tracks s order events) (hi : order[i.val]? = some self) {a : Int}
    (hsame : ∀ m', durations m' (callsOf events self ++ [.start m a])
      = durations m' (callsOf events self)) :
    Tracks (s.setStart i a) order (events ++ [(self, .start m a)]) := by
  -- The durations of all threads are as they were.
  have hdurations : ∀ self' m', durations m' (callsOf (events ++ [(self, .start m a)]) self')
      = durations m' (callsOf events self') := by
    intro self' m'
    by_cases heq : self = self'
    · rw [← heq, callsOf_append_self, hsame]
    · rw [callsOf_append_of_ne heq]
  refine ⟨h.unlocked, h.owned, fun j self' hj m' b hlast => ?_, fun j self' hj m' => ?_,
    fun j self' hj m' => ?_, h.unused⟩
  · by_cases heq : self = self'
    · subst heq
      rw [callsOf_append_self, List.getLast?_concat] at hlast
      cases hlast
      rw [h.eq_of_get hj hi]
      exact Function.update_self ..
    · rw [callsOf_append_of_ne heq] at hlast
      have hne : j ≠ i := by
        rintro rfl
        rw [hi] at hj
        cases hj
        exact heq rfl
      exact (Function.update_of_ne hne ..).trans (h.started j self' hj m' b hlast)
  · rw [timeOf, hdurations]
    exact h.accum j self' hj m'
  · rw [hdurations]
    exact h.flag j self' hj m'

theorem Tracks.stop (h : Tracks s order events) (hi : order[i.val]? = some self) {a b : Int}
    (hlast : (callsOf events self).getLast? = some (.start m a))
    (hmore : ∀ m', durations m' (callsOf events self ++ [.stop m b])
      = durations m' (callsOf events self) ++ if m = m' then [b - a] else []) :
    Tracks (s.addTime m i b) order (events ++ [(self, .stop m b)]) := by
  have hstart := h.started i self hi m a hlast
  have hothers : ∀ self' m', ¬ (self = self' ∧ m = m') →
      durations m' (callsOf (events ++ [(self, .stop m b)]) self')
        = durations m' (callsOf events self') := by
    intro self' m' hne
    by_cases heq : self = self'
    · subst heq
      rw [callsOf_append_self, hmore, if_neg fun hm => hne ⟨rfl, hm⟩, List.append_nil]
    · rw [callsOf_append_of_ne heq]
  refine ⟨h.unlocked, h.owned, fun j self' hj m' b' hlast' => ?_, fun j self' hj m' => ?_,
    fun j self' hj m' => ?_, fun j hj m' => ?_⟩
  · by_cases heq : self = self'
    · subst heq
      rw [callsOf_append_self, List.getLast?_concat] at hlast'
      cases hlast'
    · rw [callsOf_append_of_ne heq] at hlast'
      exact h.started j self' hj m' b' hlast'
  · by_cases hself : self = self' ∧ m = m'
    · obtain ⟨rfl, rfl⟩ := hself
      rw [h.eq_of_get hj hi, (s.addTime_self m i b).1, timeOf, callsOf_append_self, hmore, if_pos rfl,
        List.sum_append, List.sum_singleton, h.accum i self hi, timeOf, hstart]
      push_cast
      ring
    · have hne : m' = m → j ≠ i := by
        rintro rfl rfl
        rw [hi] at hj
        cases hj
        exact hself ⟨rfl, rfl⟩
      rw [(s.addTime_of_ne hne b).1, h.accum j self' hj, timeOf, timeOf, hothers self' m' hself]
  · by_cases hself : self = self' ∧ m = m'
    · obtain ⟨rfl, rfl⟩ := hself
      rw [h.eq_of_get hj hi, (s.addTime_self m i b).2, callsOf_append_self, hmore, if_pos rfl]
      simp
    · have hne : m' = m → j ≠ i := by
        rintro rfl rfl
        rw [hi] at hj
        cases hj
        exact hself ⟨rfl, rfl⟩
      rw [(s.addTime_of_ne hne b).2, h.flag j self' hj, hothers self' m' hself]
  · have hne : m' = m → j ≠ i := by
      rintro _ rfl
      rw [hi] at hj
      cases hj
    obtain ⟨haccum, hflag⟩ := s.addTime_of_ne hne b
    rw [haccum, hflag]
    exact h.unused j hj m'

/-- A call finds the place of its thread, or makes one. -/
theorem Tracks.locate (h : Tracks s (callers events) events)
    (hsession : Session (events ++ [(self, call)])) :
    ∃ i inserted t, s.table.findOrInsertThread id self = some (⟨some i, inserted⟩, t) ∧
      (callers (events ++ [(self, call)]))[i.val]? = some self ∧
      Tracks { s with table := t } (callers (events ++ [(self, call)])) events := by
  by_cases hmem : self ∈ callers events
  · obtain ⟨i, hi, hfound⟩ := ThreadTable.findOrInsertThread_of_mem id h.owned
      (List.mem_map_of_mem hmem)
    refine ⟨i, some false, s.table, hfound, ?_, ?_⟩
    · rw [h.owned.get, List.getElem?_map, Option.map_eq_some_iff] at hi
      obtain ⟨self', hget, hthid⟩ := hi
      rw [callers_append_of_mem call hmem, hget]
      refine congrArg some (hsession.ids self' ?_ self ?_ hthid) <;> rw [callers_append_of_mem call hmem]
      · exact List.mem_of_getElem? hget
      · exact hmem
    · rw [callers_append_of_mem call hmem]
      exact h
  · have horder := callers_append_of_not_mem call hmem
    have hnew : self.thid ∉ (callers events).map Pthread.thid := by
      intro hthid
      obtain ⟨self', hself', heq⟩ := List.mem_map.mp hthid
      have hsame : self' = self := by
        refine hsession.ids self' ?_ self ?_ heq <;> rw [horder]
        · exact List.mem_append_left _ hself'
        · exact List.mem_append_right _ (List.mem_singleton_self self)
      exact hmem (hsame ▸ hself')
    have hlt : ((callers events).map Pthread.thid).length < MAX_THREADS := by
      have hfew := hsession.few
      rw [horder, List.length_append, List.length_singleton] at hfew
      rw [List.length_map]
      exact hfew
    obtain ⟨hfound, howned⟩ :=
      ThreadTable.findOrInsertThread_of_lt id h.owned h.unlocked hnew hlt
    refine ⟨_, _, _, hfound, ?_, ?_⟩
    · rw [horder]
      simp
    · rw [horder]
      exact h.place (callsOf_eq_nil hmem) hlt howned

theorem Session.of_append (h : Session (events ++ [(self, call)])) : Session events := by
  have hcallers : ∀ self' ∈ callers events, self' ∈ callers (events ++ [(self, call)]) := by
    intro self' hself'
    rw [mem_callers] at hself' ⊢
    rw [List.map_append]
    exact List.mem_append_left _ hself'
  refine ⟨fun self' => ?_, ?_, fun a ha b hb => h.ids a (hcallers a ha) b (hcallers b hb), ?_⟩
  · have hinTurn := h.inTurn self'
    by_cases heq : self = self'
    · subst heq
      rw [callsOf_append_self] at hinTurn
      exact hinTurn.of_append
    · rwa [callsOf_append_of_ne heq] at hinTurn
  · have hclock := h.clock
    rw [List.filterMap_append, List.pairwise_append] at hclock
    exact hclock.1
  · have hsubperm := (nodup_callers events).subperm hcallers
    exact Nat.le_trans hsubperm.length_le h.few

theorem Tracks.step (h : Tracks s (callers events) events)
    (hsession : Session (events ++ [(self, call)])) :
    ∃ s' out, TimeApi.step s (self, call) = some (s', out) ∧
      Tracks s' (callers (events ++ [(self, call)])) (events ++ [(self, call)]) ∧
      s'.markerNames = s.markerNames := by
  obtain ⟨i, inserted, t, hfound, hi, htracks⟩ := h.locate hsession
  have hinTurn := hsession.inTurn self
  rw [callsOf_append_self] at hinTurn
  rcases hinTurn.last with ⟨m, a, rfl, hsame⟩ | ⟨m, a, b, rfl, hlast, hmore⟩
  · exact ⟨_, _, step_start hfound m a, htracks.start hi hsame, rfl⟩
  · exact ⟨_, _, step_stop hfound m b, htracks.stop hi hlast hmore, rfl⟩

end

/-- A process that has started, with names that may have been registered. -/
def freshState (names : Fin NAMES_SIZE → Char) : State :=
  { (State.initial.init 0).2 with markerNames := names }

theorem tracks_run (names : Fin NAMES_SIZE → Char) (h : Session events) :
    ∃ s out, run step (freshState names) events = some (s, out) ∧ Tracks s (callers events) events ∧
      s.markerNames = names := by
  induction events using List.reverseRecOn with
  | nil =>
    exact ⟨freshState names, [], rfl, ⟨rfl, ThreadTable.owners_initial (), nofun, nofun, nofun,
      fun _ _ _ => ⟨rfl, rfl⟩⟩, rfl⟩
  | append_singleton events e ih =>
    obtain ⟨self, call⟩ := e
    obtain ⟨s, out, hrun, htracks, hnames⟩ := ih h.of_append
    obtain ⟨s', out', hstep, htracks', hnames'⟩ := htracks.step h
    refine ⟨s', out ++ out', ?_, htracks', hnames'.trans hnames⟩
    rw [run_append, hrun, Option.bind_some, run_cons hstep]
    simp [run]

/-! ### Shutting down -/

section

variable {s : State}

/-- The line, and the time, of a place that is flagged. -/
def flaggedLine (s : State) (m : Marker) (th : Fin MAX_THREADS) : Option Line :=
  if s.timersAccumFlag m th then some (.thread (s.markerName m) th (s.timersAccum m th)) else none

def flaggedTime (s : State) (m : Marker) (th : Fin MAX_THREADS) : Option ℚ :=
  if s.timersAccumFlag m th then some (s.timersAccum m th) else none

theorem foldl_slowestOf (m : Marker) (acc : State.Slowest) (ths : List (Fin MAX_THREADS)) :
    ths.foldl (s.slowestOf m) acc = {
      tmax := (ths.filterMap (flaggedTime s m)).foldl max acc.tmax
      any := acc.any || !(ths.filterMap (flaggedTime s m)).isEmpty
      lines := acc.lines ++ ths.filterMap (flaggedLine s m) } := by
  induction ths generalizing acc with
  | nil => simp
  | cons th ths ih =>
    rw [List.foldl_cons, ih, State.slowestOf]
    by_cases hflag : s.timersAccumFlag m th = true
    · have hline : flaggedLine s m th
          = some (.thread (s.markerName m) th (s.timersAccum m th)) := if_pos hflag
      have htime : flaggedTime s m th = some (s.timersAccum m th) := if_pos hflag
      rw [if_pos hflag, List.filterMap_cons_some hline, List.filterMap_cons_some htime,
        List.foldl_cons, max_def_lt]
      simp
    · have hline : flaggedLine s m th = none := if_neg hflag
      have htime : flaggedTime s m th = none := if_neg hflag
      rw [if_neg hflag, List.filterMap_cons_none hline, List.filterMap_cons_none htime]

/-- What is printed for one marker, and added to the total. -/
theorem addSlowest_eq (acc : State.Totals) (m : Marker) :
    s.addSlowest acc m =
      let all := (List.finRange MAX_THREADS).filterMap (flaggedTime s m)
      { totalTime := acc.totalTime + (if all = [] then 0 else all.foldl max 0)
        lines := acc.lines ++ ((List.finRange MAX_THREADS).filterMap (flaggedLine s m) ++
          if all = [] then [] else [.max (s.markerName m) (all.foldl max 0)]) } := by
  rw [State.addSlowest, foldl_slowestOf]
  cases (List.finRange MAX_THREADS).filterMap (flaggedTime s m) <;> simp

theorem foldl_addSlowest (acc : State.Totals) (ms : List Marker) :
    ms.foldl s.addSlowest acc = {
      totalTime := acc.totalTime + (ms.map fun m => (s.addSlowest {} m).totalTime).sum
      lines := acc.lines ++ ms.flatMap fun m => (s.addSlowest {} m).lines } := by
  induction ms generalizing acc with
  | nil => simp
  | cons m ms ih =>
    rw [List.foldl_cons, ih, addSlowest_eq acc]
    simp only [addSlowest_eq, List.map_cons, List.sum_cons, List.flatMap_cons, zero_add, add_assoc,
      List.nil_append, List.append_assoc]

end

/-! ### What is printed, from the calls -/

/-- A list read by position, with places to spare. -/
theorem filterMap_finRange {α β : Type} {n : Nat} (l : List α) (h : l.length ≤ n) (f : α → Option β) :
    ((List.finRange n).filterMap fun i => l[i.val]?.bind f) = l.filterMap f := by
  have htake : ∀ k, ((List.range k).filterMap fun i => l[i]?.bind f) = (l.take k).filterMap f := by
    intro k
    induction k with
    | zero => simp
    | succ k ih =>
      rw [List.range_succ, List.filterMap_append, ih, List.take_add_one, List.filterMap_append]
      cases hget : l[k]? <;> simp [List.filterMap_cons, hget]
  rw [← List.take_of_length_le h, ← htake, ← List.map_coe_finRange_eq_range, List.filterMap_map]
  simp only [List.take_of_length_le h]
  rfl

theorem max?_eq_foldl {l : List ℚ} (hne : l ≠ []) (hnonneg : ∀ x ∈ l, 0 ≤ x) :
    l.max? = some (l.foldl max 0) := by
  cases l with
  | nil => exact absurd rfl hne
  | cons x l =>
    rw [List.max?_cons', List.foldl_cons, max_eq_right (hnonneg x (List.mem_cons_self ..))]

theorem InTurn.durations_nonneg {calls : List Call} (h : InTurn calls)
    (hclock : (calls.filterMap Call.now).Pairwise (· ≤ ·)) :
    ∀ d ∈ durations m calls, 0 ≤ d := by
  induction h with
  | nil => simp [durations]
  | started m a => simp [durations]
  | stopped m' a b h ih =>
    simp only [List.filterMap_cons, Call.now, List.pairwise_cons] at hclock
    obtain ⟨hfirst, _, hrest⟩ := hclock
    have hle := hfirst b (List.mem_cons_self ..)
    rw [durations]
    split
    · intro d hd
      rcases List.mem_cons.mp hd with rfl | hd
      · exact Int.sub_nonneg_of_le hle
      · exact ih hrest d hd
    · exact ih hrest

theorem Session.timeOf_nonneg (h : Session events) (m : Marker) (self : Pthread) :
    0 ≤ timeOf events m self := by
  have hsublist : ((callsOf events self).filterMap Call.now).Sublist
      (events.filterMap fun e => e.2.now) := by
    rw [callsOf, List.filterMap_map]
    exact List.filter_sublist.filterMap _
  have hnonneg := (h.inTurn self).durations_nonneg (m := m) (h.clock.sublist hsublist)
  have hsum : (0 : ℚ) ≤ ((durations m (callsOf events self)).sum : Int) :=
    Int.cast_nonneg (List.sum_nonneg hnonneg)
  exact div_nonneg hsum (by norm_num [CLOCKS_PER_SEC])

section

variable {s : State}

/-- What is made of the time of a place that is flagged, from the calls of its thread. -/
theorem Tracks.flagged (h : Tracks s (callers events) events) {β : Type} (f : ℚ → β) (m : Marker)
    (th : Fin MAX_THREADS) :
    (if s.timersAccumFlag m th then some (f (s.timersAccum m th)) else none) =
      (callers events)[th.val]?.bind fun self =>
        if durations m (callsOf events self) ≠ [] then some (f (timeOf events m self)) else none := by
  cases hget : (callers events)[th.val]? with
  | none => simp [(h.unused th hget m).2]
  | some self =>
    have hflag := h.flag th self hget m
    rw [h.accum th self hget m]
    by_cases hstopped : durations m (callsOf events self) ≠ []
    · rw [if_pos (hflag.mpr hstopped), Option.bind_some, if_pos hstopped]
    · rw [if_neg fun hset => hstopped (hflag.mp hset), Option.bind_some, if_neg hstopped]

theorem Tracks.flaggedLines_eq (h : Tracks s (callers events) events) (m : Marker) :
    (List.finRange MAX_THREADS).filterMap (flaggedLine s m)
      = (List.finRange MAX_THREADS).filterMap (threadLine events s.markerName m) :=
  List.filterMap_congr fun th _ => h.flagged (Line.thread (s.markerName m) th.val) m th

theorem Tracks.flaggedTimes_eq (h : Tracks s (callers events) events)
    (hfew : (callers events).length ≤ MAX_THREADS) (m : Marker) :
    (List.finRange MAX_THREADS).filterMap (flaggedTime s m) = times events m := by
  have htime : flaggedTime s m = fun th => (callers events)[th.val]?.bind fun self =>
      if durations m (callsOf events self) ≠ [] then some (timeOf events m self) else none :=
    funext fun th => h.flagged id m th
  rw [htime, filterMap_finRange _ hfew, times, ← List.filterMap_eq_map, List.filterMap_filter]
  refine List.filterMap_congr fun self _ => ?_
  by_cases hstopped : durations m (callsOf events self) ≠ [] <;> simp [hstopped]

/-- The lines of a marker, and its part of the total. -/
theorem Tracks.addSlowest_eq (h : Tracks s (callers events) events) (hsession : Session events)
    (m : Marker) :
    s.addSlowest {} m = {
      totalTime := (times events m).max?.getD 0
      lines := markerLines events s.markerName m } := by
  have hnonneg : ∀ x ∈ times events m, 0 ≤ x := by
    intro x hx
    obtain ⟨self, _, rfl⟩ := List.mem_map.mp hx
    exact hsession.timeOf_nonneg m self
  rw [TimeApi.addSlowest_eq, h.flaggedTimes_eq hsession.few, h.flaggedLines_eq, markerLines]
  by_cases hempty : times events m = []
  · simp [hempty]
  · simp [hempty, max?_eq_foldl hempty hnonneg]

end

/-- What is printed in the end are the sums of the times of each thread for each marker that it has
stopped, the largest for each marker, and the total of these. -/
theorem shutdown_eq_report (names : Fin NAMES_SIZE → Char) (h : Session events) :
    ∃ s out, run step (freshState names) events = some (s, out) ∧
      s.shutdown = report events (freshState names).markerName := by
  obtain ⟨s, out, hrun, htracks, hnames⟩ := tracks_run names h
  have hkept : s.markerNames = (freshState names).markerNames := hnames
  have hname : s.markerName = (freshState names).markerName := by
    funext m
    rw [State.markerName, State.markerName, hkept]
  refine ⟨s, out, hrun, ?_⟩
  have hslowest : s.addSlowest {} = fun m =>
      { totalTime := (times events m).max?.getD 0, lines := markerLines events s.markerName m } :=
    funext (htracks.addSlowest_eq h)
  rw [State.shutdown, foldl_addSlowest, report, ← hname, hslowest, List.nil_append, zero_add]

/-- Two threads, one of which waits for the other. -/
def twoSessions (m m' : Marker) : List (Pthread × Call) :=
  [(7, .start m 10), (9, .start m 15), (9, .stop m 30), (7, .stop m 40), (7, .start m' 50)]

theorem shutdown_eq_report_twoSessions :
    ∃ s out, run step (freshState fun _ => 'x') (twoSessions ⟨0, 1⟩ ⟨2, 0⟩) = some (s, out) ∧
      s.shutdown = report (twoSessions ⟨0, 1⟩ ⟨2, 0⟩) (freshState fun _ => 'x').markerName := by
  have hcallers : callers (twoSessions ⟨0, 1⟩ ⟨2, 0⟩) = [7, 9] := by decide
  refine shutdown_eq_report _ ⟨fun self => ?_, by decide, ?_, ?_⟩
  · by_cases h7 : self = 7#64
    · rw [h7]
      exact .stopped _ _ _ (.started _ _)
    · by_cases h9 : self = 9#64
      · rw [h9]
        exact .stopped _ _ _ .nil
      · rw [callsOf_eq_nil (by simp [hcallers, h7, h9])]
        exact .nil
  · intro a ha b hb hthid
    rw [hcallers, List.mem_pair] at ha hb
    rcases ha with rfl | rfl <;> rcases hb with rfl | rfl
    · rfl
    · cases hthid
    · cases hthid
    · rfl
  · rw [hcallers]
    decide

end TimeApi

end ProfHalide
