import ProfHalide.Perfctr.TimeApi
import ProfHalide.Perfctr.PapiApi
import Mathlib.Data.Fintype.Card

/-!
# Threads that look for their places

Between a thread's search of the table, without the lock, and its insertion, under it, other threads may
search and insert. They cannot insert that thread, so no place is set twice for one thread; but two threads
are one to the table if their ids agree as ints, and then they share a place.
-/

namespace ProfHalide

open Machine

/-- A call of `find_or_insert_thread` that has returned. -/
structure Lookup (W : Type) where
  thread : W
  found : Found
  deriving DecidableEq, Repr

/-- The threads `W`, and which of them have searched the table in vain. -/
structure Callers (W ε : Type) where
  table : ThreadTable ε
  inserting : W → Bool

namespace Callers

variable {W ε : Type} [DecidableEq W]

def initial (rest : ε) : Callers W ε where
  table := .initial rest
  inserting _ := false

/-- The next step of a thread in its calls. -/
def step (fresh : ε → ε) (pthread : W → Pthread) (c : Callers W ε) (w : W) :
    Option (Callers W ε × List (Lookup W)) :=
  if c.inserting w then
    (c.table.insert fresh (pthread w).thid).map fun (found, table) =>
      (⟨table, Function.update c.inserting w false⟩, [⟨w, found⟩])
  else match c.table.scan (pthread w).thid with
    | some i => some (c, [⟨w, ⟨some i, some false⟩⟩])
    | none => some ({ c with inserting := Function.update c.inserting w true }, [])

/-- Every call returns a place: calls of one thread the same, calls of different threads different ones. -/
def UniquePlaces (lookups : List (Lookup W)) : Prop :=
  (∀ r ∈ lookups, r.found.idx ≠ none) ∧
    ∀ r ∈ lookups, ∀ r' ∈ lookups, r.found.idx = r'.found.idx ↔ r.thread = r'.thread

/-- `*inserted` is 1 for the first call of a thread, and for no other. -/
def InsertedFirst (lookups : List (Lookup W)) : Prop :=
  ∀ past r later, lookups = past ++ r :: later →
    (r.found.inserted = some true ↔ ∀ r' ∈ past, r'.thread ≠ r.thread)

variable {fresh : ε → ε} {pthread : W → Pthread} {c : Callers W ε} {past : List (Lookup W)} {w : W}

theorem step_found {i : Fin MAX_THREADS} (hw : c.inserting w = false)
    (h : c.table.scan (pthread w).thid = some i) :
    step fresh pthread c w = some (c, [⟨w, some i, some false⟩]) := by
  rw [step, hw, h]
  rfl

theorem step_missed (hw : c.inserting w = false) (h : c.table.scan (pthread w).thid = none) :
    step fresh pthread c w
      = some ({ c with inserting := Function.update c.inserting w true }, []) := by
  rw [step, hw, h]
  rfl

theorem step_insert {found : Found} {table : ThreadTable ε} (hw : c.inserting w = true)
    (h : c.table.insert fresh (pthread w).thid = some (found, table)) :
    step fresh pthread c w
      = some (⟨table, Function.update c.inserting w false⟩, [⟨w, found⟩]) := by
  rw [step, hw, h]
  rfl

/-- Steps that no other thread interrupts are a whole call. -/
theorem run_alone {found : Found} {table : ThreadTable ε} (hw : c.inserting w = false)
    (h : c.table.findOrInsertThread fresh (pthread w) = some (found, table)) :
    run (step fresh pthread) c [w] = some (⟨table, c.inserting⟩, [⟨w, found⟩]) ∨
      run (step fresh pthread) c [w, w] = some (⟨table, c.inserting⟩, [⟨w, found⟩]) := by
  rw [ThreadTable.findOrInsertThread] at h
  cases hscan : c.table.scan (pthread w).thid with
  | some i =>
    rw [hscan] at h
    cases h
    left
    rw [run_cons (step_found hw hscan)]
    rfl
  | none =>
    rw [hscan] at h
    have hinsert : step fresh pthread { c with inserting := Function.update c.inserting w true } w
        = some (⟨table, Function.update (Function.update c.inserting w true) w false⟩, [⟨w, found⟩]) :=
      step_insert (by simp) h
    right
    rw [run_cons (step_missed hw hscan), run_cons hinsert]
    simp only [Function.update_idem, ← hw, Function.update_eq_self]
    rfl

omit [DecidableEq W] in
theorem InsertedFirst.append_singleton {r : Lookup W} (h : InsertedFirst past)
    (hr : r.found.inserted = some true ↔ ∀ r' ∈ past, r'.thread ≠ r.thread) :
    InsertedFirst (past ++ [r]) := by
  intro before r' later heq
  rcases List.eq_nil_or_concat later with rfl | ⟨later, last, rfl⟩
  · obtain ⟨rfl, hlast⟩ := List.append_inj' heq rfl
    cases hlast
    exact hr
  · rw [List.concat_eq_append, ← List.cons_append, ← List.append_assoc] at heq
    exact h before r' later (List.append_inj_left' heq rfl)

/-- The places are those of the threads `ws`, the ones that have returned, and no thread that is about to
insert itself is one of them. -/
structure Placed (pthread : W → Pthread) (c : Callers W ε) (past : List (Lookup W)) (ws : List W) : Prop where
  locked : c.table.locked = false
  owned : Slots.OwnedBy c.table.owners (ws.map fun w => (pthread w).thid)
  returned : ∀ w, w ∈ ws ↔ ∃ r ∈ past, r.thread = w
  inserting : ∀ w, c.inserting w = true → w ∉ ws
  place : ∀ r ∈ past, ∃ i, r.found.idx = some i ∧ c.table.owners i = some (pthread r.thread).thid
  first : InsertedFirst past

omit [DecidableEq W] in
theorem placed_initial (pthread : W → Pthread) (rest : ε) :
    Placed pthread (initial rest : Callers W ε) [] [] where
  locked := rfl
  owned := ThreadTable.owners_initial rest
  returned w := by simp
  inserting w h := by cases h
  place r hr := by cases hr
  first past r later heq := by simp at heq

section

variable {ws : List W}

omit [DecidableEq W] in
theorem Placed.uniquePlaces (h : Placed pthread c past ws)
    (hids : Function.Injective fun w => (pthread w).thid) : UniquePlaces past := by
  refine ⟨fun r hr hnone => ?_, fun r hr r' hr' => ?_⟩
  · obtain ⟨i, hi, _⟩ := h.place r hr
    rw [hnone] at hi
    cases hi
  · obtain ⟨i, hi, howner⟩ := h.place r hr
    obtain ⟨i', hi', howner'⟩ := h.place r' hr'
    rw [hi, hi', Option.some_inj]
    constructor
    · rintro rfl
      rw [howner, Option.some_inj] at howner'
      exact hids howner'
    · intro heq
      rw [heq] at howner
      exact h.owned.eq_of_get howner howner'

/-- A thread that searches. -/
theorem Placed.scan (h : Placed pthread c past ws) (hids : Function.Injective fun w => (pthread w).thid)
    (hw : c.inserting w = false) :
    ∃ c' out, step fresh pthread c w = some (c', out) ∧ Placed pthread c' (past ++ out) ws := by
  cases hscan : c.table.scan (pthread w).thid with
  | some i =>
    have howner : c.table.owners i = some (pthread w).thid := by
      rw [ThreadTable.scan_eq] at hscan
      exact Slots.eq_some_of_find hscan
    have hmem : w ∈ ws := by
      have hkey := h.owned.mem_iff.mpr ⟨i, howner⟩
      exact (List.mem_map_of_injective hids).mp hkey
    refine ⟨c, _, step_found hw hscan, h.locked, h.owned, fun v => ?_, h.inserting,
      fun r hr => ?_, h.first.append_singleton ?_⟩
    · rw [h.returned]
      constructor
      · intro hv
        obtain ⟨r, hr, hthread⟩ := hv
        exact ⟨r, List.mem_append_left _ hr, hthread⟩
      · intro hv
        obtain ⟨r, hr, rfl⟩ := hv
        rcases List.mem_append.mp hr with hr | hr
        · exact ⟨r, hr, rfl⟩
        · rw [List.mem_singleton.mp hr]
          exact (h.returned w).mp hmem
    · rcases List.mem_append.mp hr with hr | hr
      · exact h.place r hr
      · rw [List.mem_singleton.mp hr]
        exact ⟨i, rfl, howner⟩
    · obtain ⟨r, hr, hthread⟩ := (h.returned w).mp hmem
      exact iff_of_false nofun fun hall => hall r hr hthread
  | none =>
    have hnot : w ∉ ws := by
      rw [ThreadTable.scan_eq, h.owned.find_eq_none_iff] at hscan
      exact fun hmem => hscan (List.mem_map_of_mem hmem)
    refine ⟨_, _, step_missed hw hscan, h.locked, h.owned, fun v => ?_, fun v hv => ?_,
      fun r hr => ?_, ?_⟩
    · rw [List.append_nil]
      exact h.returned v
    · by_cases heq : v = w
      · exact heq ▸ hnot
      · have hbefore : c.inserting v = true := by simpa [Function.update_of_ne heq] using hv
        exact h.inserting v hbefore
    · rw [List.append_nil] at hr
      exact h.place r hr
    · rw [List.append_nil]
      exact h.first

/-- A thread that inserts itself, while the threads fit. -/
theorem Placed.insert [Fintype W] (h : Placed pthread c past ws)
    (hids : Function.Injective fun w => (pthread w).thid) (hcard : Fintype.card W ≤ MAX_THREADS)
    (hw : c.inserting w = true) :
    ∃ c' out, step fresh pthread c w = some (c', out) ∧ Placed pthread c' (past ++ out) (ws ++ [w]) := by
  have hnot := h.inserting w hw
  have hkey : (pthread w).thid ∉ ws.map fun w => (pthread w).thid :=
    fun hmem => hnot ((List.mem_map_of_injective hids).mp hmem)
  have hlt : (ws.map fun w => (pthread w).thid).length < MAX_THREADS := by
    have hnodup : (w :: ws).Nodup := List.nodup_cons.mpr ⟨hnot, h.owned.nodup.of_map _⟩
    have hlength := hnodup.length_le_card
    rw [List.length_map]
    exact Nat.lt_of_lt_of_le (Nat.lt_of_succ_le hlength) hcard
  obtain ⟨hinsert, howned⟩ := ThreadTable.insert_of_lt fresh h.owned h.locked hkey hlt
  let i : Fin MAX_THREADS := ⟨_, hlt⟩
  refine ⟨_, _, step_insert hw hinsert, h.locked, ?_, fun v => ?_, fun v hv => ?_, fun r hr => ?_,
    h.first.append_singleton ?_⟩
  · rw [List.map_append]
    exact howned
  · rw [List.mem_append, h.returned, List.mem_singleton]
    constructor
    · rintro (⟨r, hr, hthread⟩ | rfl)
      · exact ⟨r, List.mem_append_left _ hr, hthread⟩
      · exact ⟨_, List.mem_append_right _ (List.mem_singleton_self _), rfl⟩
    · rintro ⟨r, hr, rfl⟩
      rcases List.mem_append.mp hr with hr | hr
      · exact Or.inl ⟨r, hr, rfl⟩
      · rw [List.mem_singleton.mp hr]
        exact Or.inr rfl
  · by_cases heq : v = w
    · simp [heq] at hv
    · have hbefore : c.inserting v = true := by simpa [Function.update_of_ne heq] using hv
      rw [List.mem_append, List.mem_singleton]
      exact not_or.mpr ⟨h.inserting v hbefore, heq⟩
  · rw [ThreadTable.owners_place]
    rcases List.mem_append.mp hr with hr | hr
    · obtain ⟨j, hj, howner⟩ := h.place r hr
      have hne : j ≠ i := by
        rintro rfl
        rw [h.owned.get, List.getElem?_eq_none (Nat.le_refl _)] at howner
        cases howner
      refine ⟨j, hj, ?_⟩
      rw [Function.update_of_ne hne]
      exact howner
    · rw [List.mem_singleton.mp hr]
      exact ⟨i, rfl, Function.update_self ..⟩
  · refine iff_of_true rfl fun r hr hthread => hnot ?_
    exact (h.returned w).mpr ⟨r, hr, hthread⟩

end

/-! ### All steps -/

theorem placed_run [Fintype W] (hcard : Fintype.card W ≤ MAX_THREADS)
    (hids : Function.Injective fun w => (pthread w).thid) (fresh : ε → ε) (rest : ε)
    (events : List W) :
    ∃ c out ws, run (step fresh pthread) (initial rest) events = some (c, out) ∧
      Placed pthread c out ws := by
  have hadmits : Admits (step fresh pthread) (fun _ _ => True) (initial rest) events :=
    Admits.of_forall (fun _ _ => trivial) _ _
  have hinitial : ∃ ws, Placed pthread (initial rest : Callers W ε) [] ws :=
    ⟨[], placed_initial pthread rest⟩
  obtain ⟨c, out, hrun, ws, hplaced⟩ :=
    hadmits.run (fun c past => ∃ ws, Placed pthread c past ws) (by
      intro c past w ⟨ws, hplaced⟩ _
      cases hw : c.inserting w with
      | false =>
        obtain ⟨c', out, hstep, hplaced'⟩ := hplaced.scan hids hw
        exact ⟨c', out, hstep, ws, hplaced'⟩
      | true =>
        obtain ⟨c', out, hstep, hplaced'⟩ := hplaced.insert hids hcard hw
        exact ⟨c', out, hstep, _, hplaced'⟩) hinitial
  exact ⟨c, out, ws, hrun, hplaced⟩

/-- Two threads whose ids agree as ints, one after the other. -/
theorem run_shared (fresh : ε → ε) (rest : ε) {w w' : W}
    (hthid : (pthread w').thid = (pthread w).thid) :
    ∃ c i, run (step fresh pthread) (initial rest) [w, w, w']
      = some (c, [⟨w, some i, some true⟩, ⟨w', some i, some false⟩]) := by
  have hempty := ThreadTable.owners_initial rest
  have hlt : ([] : List (BitVec 32)).length < MAX_THREADS := by decide
  obtain ⟨hinsert, howned⟩ := ThreadTable.insert_of_lt fresh (k := (pthread w).thid) hempty rfl
    List.not_mem_nil hlt
  have hscan : (ThreadTable.initial rest).scan (pthread w).thid = none := by
    rw [ThreadTable.scan_eq, hempty.find_eq_none_iff]
    exact List.not_mem_nil
  let i : Fin MAX_THREADS := ⟨_, hlt⟩
  let table := (ThreadTable.initial rest).place fresh i (pthread w).thid
  let inserting : W → Bool := Function.update (fun _ => false) w true
  let returned := Function.update inserting w false
  have hfound : table.scan (pthread w').thid = some i := by
    rw [hthid, ThreadTable.scan_eq, howned.find_eq_some_iff, ThreadTable.owners_place,
      Function.update_self]
  have hfirst : step fresh pthread (initial rest) w = some (⟨.initial rest, inserting⟩, []) :=
    step_missed rfl hscan
  have hsecond : step fresh pthread ⟨.initial rest, inserting⟩ w
      = some (⟨table, returned⟩, [⟨w, some i, some true⟩]) :=
    step_insert (by simp [inserting]) hinsert
  have hthird : step fresh pthread ⟨table, returned⟩ w'
      = some (⟨table, returned⟩, [⟨w', some i, some false⟩]) :=
    step_found (by simp [returned, inserting]) hfound
  refine ⟨⟨table, returned⟩, i, ?_⟩
  rw [run_cons hfirst, run_cons hsecond, run_cons hthird]
  rfl

theorem not_uniquePlaces (fresh : ε → ε) (rest : ε) {w w' : W} (hne : w' ≠ w)
    (hthid : (pthread w').thid = (pthread w).thid) :
    ¬ ∀ events, ∃ c out, run (step fresh pthread) (initial rest) events = some (c, out) ∧
      UniquePlaces out := by
  intro h
  obtain ⟨c, i, hshared⟩ := run_shared fresh rest hthid
  obtain ⟨c', out, hrun, hunique⟩ := h [w, w, w']
  rw [hshared] at hrun
  cases hrun
  have hsame := hunique.2 ⟨w', some i, some false⟩ (by simp) ⟨w, some i, some true⟩ (by simp)
  exact hne (hsame.mp rfl)

theorem insertedFirst_iff [Fintype W] (hcard : Fintype.card W ≤ MAX_THREADS) (pthread : W → Pthread)
    (fresh : ε → ε) (rest : ε) :
    (∀ events, ∃ c out, run (step fresh pthread) (initial rest) events = some (c, out) ∧
      UniquePlaces out ∧ InsertedFirst out) ↔ Function.Injective fun w => (pthread w).thid := by
  constructor
  · intro h w' w hthid
    by_contra hne
    exact not_uniquePlaces fresh rest hne hthid fun events => by
      obtain ⟨c, out, hrun, hunique, _⟩ := h events
      exact ⟨c, out, hrun, hunique⟩
  · intro hids events
    obtain ⟨c, out, ws, hrun, hplaced⟩ := placed_run hcard hids fresh rest events
    exact ⟨c, out, hrun, hplaced.uniquePlaces hids, hplaced.first⟩

end Callers

/-- The steps of the calls in `time_api.c`. -/
def TimeApi.lookupStep {W : Type} [DecidableEq W] (pthread : W → Pthread) :
    Callers W Unit → W → Option (Callers W Unit × List (Lookup W)) :=
  Callers.step id pthread

/-- The steps of the calls in `papi_api.c`. -/
def PapiApi.lookupStep {W : Type} [DecidableEq W] (pthread : W → Pthread) :
    Callers W Int → W → Option (Callers W Int × List (Lookup W)) :=
  Callers.step (fun _ => PAPI_NULL) pthread

namespace Callers

/-- In both libraries, as many threads as there are places keep places of their own through all steps
exactly if their ids differ as ints. -/
theorem uniquePlaces_iff {W : Type} [DecidableEq W] [Fintype W] (hcard : Fintype.card W ≤ MAX_THREADS)
    (pthread : W → Pthread) :
    ((∀ events, ∃ c out, run (TimeApi.lookupStep pthread) (initial ()) events = some (c, out) ∧
      UniquePlaces out) ↔ Function.Injective fun w => (pthread w).thid) ∧
    ((∀ events, ∃ c out, run (PapiApi.lookupStep pthread) (initial 0) events = some (c, out) ∧
      UniquePlaces out ∧ InsertedFirst out) ↔ Function.Injective fun w => (pthread w).thid) := by
  refine ⟨⟨fun h w' w hthid => ?_, fun hids events => ?_⟩, insertedFirst_iff hcard pthread _ 0⟩
  · by_contra hne
    exact not_uniquePlaces id () hne hthid h
  · obtain ⟨c, out, ws, hrun, hplaced⟩ := placed_run hcard hids id () events
    exact ⟨c, out, hrun, hplaced.uniquePlaces hids⟩

def threadIds (w : Fin 3) : Pthread := BitVec.ofNat 64 (w.val + 1)

theorem uniquePlaces_iff_threadIds :
    ((∀ events, ∃ c out, run (TimeApi.lookupStep threadIds) (initial ()) events = some (c, out) ∧
      UniquePlaces out) ↔ Function.Injective fun w => (threadIds w).thid) ∧
    ((∀ events, ∃ c out, run (PapiApi.lookupStep threadIds) (initial 0) events = some (c, out) ∧
      UniquePlaces out ∧ InsertedFirst out) ↔ Function.Injective fun w => (threadIds w).thid) :=
  uniquePlaces_iff (by decide) threadIds

/-- Two threads whose ids differ in the upper half only. -/
def twins (w : Bool) : Pthread := if w then 0x100000001 else 0x200000001

theorem not_uniquePlaces_twins :
    ¬ (∀ pthread : Bool → Pthread, Function.Injective pthread → ∀ events,
      ∃ c out, run (TimeApi.lookupStep pthread) (initial ()) events = some (c, out) ∧
        UniquePlaces out) ∧
    ¬ (∀ pthread : Bool → Pthread, Function.Injective pthread → ∀ events,
      ∃ c out, run (PapiApi.lookupStep pthread) (initial 0) events = some (c, out) ∧
        UniquePlaces out) := by
  have hinjective : Function.Injective twins := by decide
  have hthid : (twins true).thid = (twins false).thid := by decide
  exact ⟨fun h => not_uniquePlaces _ _ (by decide) hthid (h twins hinjective),
    fun h => not_uniquePlaces _ _ (by decide) hthid (h twins hinjective)⟩

end Callers

end ProfHalide
