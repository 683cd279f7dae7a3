import ProfHalide.Runtime.Billing

/-!
# A start among samples

A start looks for its record, reads the head of the list into the link of the new one, and writes the
head, all before it takes the lock; meanwhile the sampling thread may bring any record to the front. The
list then begins with the new record and goes on with the record that was in front when the head was
read: what has been brought in front of that one since is no longer met.
-/

namespace ProfHalide

open Std Chain Machine

/-- What the thread that starts a pipeline does next. -/
inductive StartPc where
  /-- Test whether the loop is at its end, or at the record it looks for. -/
  | test (q : Option Ptr)
  | advance (q : Ptr)
  | allocate (found : Option Ptr)
  /-- Fill the record in, its link with the head of the list. -/
  | fill (p : Ptr)
  /-- Make it the head. -/
  | push (p : Ptr)
  /-- Take the lock and count the run. -/
  | lock (p : Ptr)
  | done (p : Option Ptr)
  deriving DecidableEq, Repr

structure Starting where
  state : PapiState
  pc : StartPc

/-- A step of the start, or a sample. -/
inductive StartEvent where
  | find | allocate | fill | push | lock
  | bill (c : Sample)
  deriving DecidableEq, Repr

namespace PapiState

variable (s : PapiState)

/-- The record as it is before its run is counted. -/
def fillIn (a : StartArgs) (p : Ptr) : PapiState :=
  (s.redirect p .leaked).write p { a.pipelineStats s.pipelines s.firstFreeId with runs := 0 }

def pushOnto (a : StartArgs) (p : Ptr) : PapiState :=
  { s with firstFreeId := s.firstFreeId + a.numFuncs, pipelines := some p }

def countRun (p : Ptr) (stats : PipelineStats) : PapiState :=
  { s.write p { stats with runs := stats.runs + 1 } with
    samplingThread := true
    currentPipelineStats := some p }

variable {s}

/-- Samples do not change what a start looks for. -/
theorem test_names (a : StartArgs) (p : Ptr) :
    s.test p a.names = ((s.content p).map (·.unbilled)).any a.names := by
  rw [test, content, Option.map_map, Option.any_map]
  rfl

end PapiState

namespace Starting

def step (a : StartArgs) (m : Mallocs) (c : Starting) : StartEvent → Option (Starting × List Effect)
  | .find =>
      match c.pc with
      | .test none => some ({ c with pc := .allocate none }, [])
      | .test (some q) => (c.state.records[q]?).map fun stats =>
          ({ c with pc := if a.names stats then .allocate (some q) else .advance q }, [])
      | .advance q => (c.state.next q).map fun q' => ({ c with pc := .test q' }, [])
      | _ => none
  | .allocate =>
      match c.pc with
      | .allocate found => some
          ({ c with pc := ((found.or (c.state.malloc m)).map StartPc.fill).getD (.done none) }, [])
      | _ => none
  | .fill =>
      match c.pc with
      | .fill p =>
          if m.arrays a.numLoops then some ({ state := c.state.fillIn a p, pc := .push p }, [])
          else some ({ state := { c.state.redirect p .leaked with records := c.state.records.erase p },
                       pc := .done none }, [.free p])
      | _ => none
  | .push =>
      match c.pc with
      | .push p => some ({ state := c.state.pushOnto a p, pc := .lock p }, [])
      | _ => none
  | .lock =>
      match c.pc with
      | .lock p => (c.state.records[p]?).map fun stats =>
          ({ state := c.state.countRun p stats, pc := .done (some p) }, [.papiHalideInitialize])
      | _ => none
  | .bill smp => (c.state.billFunc smp.funcId smp.time smp.activeThreads).map fun answer =>
      ({ c with state := answer.state }, answer.effects)

def begin (s : PapiState) : Starting := ⟨s, .test s.pipelines⟩

def samples (events : List StartEvent) : List Sample :=
  events.filterMap fun
    | .bill c => some c
    | _ => none

/-- The events before the head is read. -/
def beforeFill (events : List StartEvent) : List StartEvent := events.takeWhile (· ≠ .fill)

/-- The events from there until the head is written. -/
def window (events : List StartEvent) : List StartEvent :=
  (events.dropWhile (· ≠ .fill)).takeWhile (· ≠ .push)

/-- The record in front after some samples: that of the last one that is for a record of the list. -/
def frontAfter (s : PapiState) (l : List Ptr) (front : Option Ptr) (samples : List Sample) : Option Ptr :=
  samples.foldl (fun front c => ((s.place l c.funcId).map Prod.fst).or front) front

/-- The record in front when the head is read is in front when the head is written. -/
def HeadUnmoved (s : PapiState) (l : List Ptr) (events : List StartEvent) : Prop :=
  let front := frontAfter s l l.head? (samples (beforeFill events))
  frontAfter s l front (samples (window events)) = front

/-- The list is the old records and the new one, each once, and then null. -/
def KeepsAll (l : List Ptr) (p : Ptr) (s' : PapiState) : Prop :=
  ∃ l', IsChain s'.next s'.pipelines l' ∧ l'.Perm (p :: l)

/-! ### Before the head is read -/

/-- The list is that of the beginning in another order, after some samples. -/
structure Reordered (s₀ : PapiState) (l₀ : List Ptr) (past : List Sample) (s : PapiState) (l : List Ptr) :
    Prop where
  listed : s.Listed l
  perm : l.Perm l₀
  place : s.place l = s₀.place l₀
  front : l.head? = frontAfter s₀ l₀ l₀.head? past
  ids : ∀ p ∈ l₀, (s.content p).map (·.ids) = (s₀.content p).map (·.ids)
  free : s.firstFreeId = s₀.firstFreeId

variable {s₀ s s' : PapiState} {l₀ l : List Ptr} {past : List Sample} {a : StartArgs} {m : Mallocs}
  {c c' : Starting} {out : List Effect}

theorem Reordered.refl (h : s.Listed l) : Reordered s l [] s l :=
  ⟨h, .rfl, rfl, rfl, fun _ _ => rfl, rfl⟩

theorem Reordered.bill (h : Reordered s₀ l₀ past s l) {smp : Sample} {s' : PapiState} {l' : List Ptr}
    (honce : s.BillsOnce l smp s' l') : Reordered s₀ l₀ (past ++ [smp]) s' l' where
  listed := honce.listed
  perm := honce.perm.trans h.perm
  place := honce.place.trans h.place
  front := by
    rw [honce.head, h.front, h.place, frontAfter, frontAfter, List.foldl_append]
    rfl
  ids p hp := (PapiState.map_ids_of_unbilled (honce.others p)).trans (h.ids p hp)
  free := by
    rw [honce.globals]
    exact h.free

/-- The start has not read the head yet, and looks for a record that is not there. -/
structure BeforeFill (a : StartArgs) (s₀ : PapiState) (l₀ : List Ptr) (past : List Sample) (c : Starting)
    (l : List Ptr) : Prop where
  reordered : Reordered s₀ l₀ past c.state l
  new : ∀ p ∈ l, c.state.test p a.names = false
  pc : match c.pc with
    | .test q => ∀ p, q = some p → p ∈ l
    | .advance p => p ∈ l
    | .allocate found => found = none
    | .fill p => p ∉ c.state.records
    | .done p => p = none
    | _ => False

theorem BeforeFill.bill (h : BeforeFill a s₀ l₀ past c l) {smp : Sample}
    (hstep : step a m c (.bill smp) = some (c', out)) :
    ∃ l', BeforeFill a s₀ l₀ (past ++ [smp]) c' l' := by
  obtain ⟨s', l', hbill, honce⟩ := h.reordered.listed.billFunc smp
  rw [step, hbill] at hstep
  cases hstep
  have hrecords : ∀ p, p ∈ s'.records ↔ p ∈ c.state.records := by
    intro p
    rw [PapiState.mem_iff_content, PapiState.mem_iff_content, ← Option.isSome_map, honce.others,
      Option.isSome_map]
  refine ⟨l', h.reordered.bill honce, fun p hp => ?_, ?_⟩
  · rw [PapiState.test_names, honce.others, ← PapiState.test_names]
    exact h.new p (honce.perm.mem_iff.mp hp)
  · have hpc := h.pc
    cases hat : c.pc with
    | test q => simpa [hat, honce.perm.mem_iff] using hpc
    | advance q => simpa [hat, honce.perm.mem_iff] using hpc
    | fill p => simpa [hat, hrecords] using hpc
    | push p => simp [hat] at hpc
    | lock p => simp [hat] at hpc
    | _ => simpa [hat] using hpc

/-- A step of the start that leaves the list alone. -/
theorem BeforeFill.advance (h : BeforeFill a s₀ l₀ past c l) {pc : StartPc}
    (hpc : match pc with
      | .test q => ∀ p, q = some p → p ∈ l
      | .advance p => p ∈ l
      | .allocate found => found = none
      | .fill p => p ∉ c.state.records
      | .done p => p = none
      | _ => False) : BeforeFill a s₀ l₀ past { c with pc := pc } l :=
  ⟨h.reordered, h.new, hpc⟩

theorem BeforeFill.step (h : BeforeFill a s₀ l₀ past c l) {e : StartEvent} (hfill : e ≠ .fill)
    (hstep : step a m c e = some (c', out)) :
    ∃ l', BeforeFill a s₀ l₀ (past ++ samples [e]) c' l' := by
  have hpc := h.pc
  have hchain := h.reordered.listed.chain
  cases e with
  | bill smp => exact h.bill hstep
  | fill => exact absurd rfl hfill
  | find =>
    refine ⟨l, ?_⟩
    rw [samples, List.filterMap_cons_none rfl, List.filterMap_nil, List.append_nil]
    cases hat : c.pc with
    | test q =>
      rw [hat] at hpc
      cases q with
      | none =>
        simp only [Starting.step, hat] at hstep
        cases hstep
        exact h.advance rfl
      | some q =>
        have hnew := h.new q (hpc q rfl)
        simp only [Starting.step, hat] at hstep
        obtain ⟨stats, hstats, heq⟩ := Option.map_eq_some_iff.mp hstep
        rw [PapiState.test, hstats, Option.any_some] at hnew
        rw [hnew] at heq
        cases heq
        exact h.advance (hpc q rfl)
    | advance q =>
      rw [hat] at hpc
      simp only [Starting.step, hat] at hstep
      obtain ⟨q', hq', heq⟩ := Option.map_eq_some_iff.mp hstep
      cases heq
      refine h.advance fun p hp => ?_
      rw [hp] at hq'
      exact hchain.mem_of_next hpc hq'
    | _ => simp [Starting.step, hat] at hstep
  | allocate =>
    refine ⟨l, ?_⟩
    rw [samples, List.filterMap_cons_none rfl, List.filterMap_nil, List.append_nil]
    cases hat : c.pc with
    | allocate found =>
      rw [hat] at hpc
      have hfound : found = none := hpc
      simp only [Starting.step, hat, hfound, Option.none_or] at hstep
      cases hmalloc : c.state.malloc m with
      | none =>
        rw [hmalloc] at hstep
        cases hstep
        exact h.advance rfl
      | some p =>
        rw [hmalloc] at hstep
        cases hstep
        exact h.advance (PapiState.malloc_eq_some hmalloc)
    | _ => simp [Starting.step, hat] at hstep
  | push => cases hat : c.pc <;> simp [Starting.step, hat] at hstep hpc
  | lock => cases hat : c.pc <;> simp [Starting.step, hat] at hstep hpc

theorem BeforeFill.run (h : BeforeFill a s₀ l₀ past c l) {events : List StartEvent}
    (hfill : .fill ∉ events) (hrun : run (Starting.step a m) c events = some (c', out)) :
    ∃ l', BeforeFill a s₀ l₀ (past ++ samples events) c' l' := by
  induction events generalizing c past l out with
  | nil =>
    cases hrun
    exact ⟨l, by rwa [samples, List.filterMap_nil, List.append_nil]⟩
  | cons e events ih =>
    obtain ⟨c₁, out₁, out₂, hstep, hrest, _⟩ := run_cons_eq_some hrun
    obtain ⟨l₁, h₁⟩ := h.step (fun heq => hfill (heq ▸ List.mem_cons_self)) hstep
    obtain ⟨l', h'⟩ := ih h₁ (fun hmem => hfill (List.mem_cons_of_mem _ hmem)) hrest
    refine ⟨l', ?_⟩
    rwa [List.append_assoc, samples, samples, ← List.filterMap_append] at h'

/-! ### Between reading and writing the head -/

/-- The new record is linked to what was the head, and not yet in the list. -/
structure BeforePush (a : StartArgs) (s₀ : PapiState) (l₀ : List Ptr) (p : Ptr) (front : Option Ptr)
    (past : List Sample) (c : Starting) (l : List Ptr) : Prop where
  reordered : Reordered s₀ l₀ past c.state l
  pc : c.pc = .push p
  fresh : p ∉ l
  record : ∃ stats, c.state.records[p]? = some stats ∧ stats.next = front ∧
    stats.ids = (s₀.firstFreeId, a.numFuncs, a.numFuncs.toNat)

theorem BeforeFill.fill (h : BeforeFill a s₀ l₀ past c l)
    (hstep : Starting.step a m c .fill = some (c', out)) :
    (c'.pc = .done none) ∨ ∃ p, BeforePush a s₀ l₀ p l.head? past c' l := by
  have hpc := h.pc
  cases hat : c.pc with
  | fill p =>
    rw [hat] at hpc
    simp only [Starting.step, hat] at hstep
    split at hstep
    · cases hstep
      have hlisted := h.reordered.listed
      have hout : ∀ q ∈ l, p ≠ q := by
        intro q hq heq
        exact hpc (heq ▸ PapiState.mem_of_next (hlisted.chain.allocated hq))
      have hcontent : ∀ q ∈ l, (c.state.fillIn a p).content q = c.state.content q := by
        intro q hq
        exact (PapiState.content_write p q _).trans (if_neg (hout q hq))
      have hchain : IsChain (c.state.fillIn a p).next (c.state.fillIn a p).pipelines l := by
        refine hlisted.chain.congr fun q hq => ?_
        exact (PapiState.next_write p q _).trans (if_neg (hout q hq))
      obtain ⟨hlisted', hplace⟩ := hlisted.of_ids .rfl hchain fun q hq => by rw [hcontent q hq]
      refine Or.inr ⟨p, ⟨hlisted', h.reordered.perm, hplace.trans h.reordered.place,
        h.reordered.front, fun q hq => ?_, h.reordered.free⟩, rfl, fun hp => hout p hp rfl,
        _, (PapiState.getElem?_write p p _).trans (if_pos rfl), hlisted.chain.head, ?_⟩
      · change ((c.state.fillIn a p).content q).map _ = _
        rw [hcontent q (h.reordered.perm.mem_iff.mpr hq)]
        exact h.reordered.ids q hq
      · simp [PipelineStats.ids, StartArgs.pipelineStats, h.reordered.free]
    · cases hstep
      exact Or.inl rfl
  | _ => simp [Starting.step, hat] at hstep

theorem BeforePush.run {p : Ptr} {front : Option Ptr} (h : BeforePush a s₀ l₀ p front past c l)
    {events : List StartEvent} (hpush : .push ∉ events)
    (hrun : Machine.run (Starting.step a m) c events = some (c', out)) :
    ∃ l', BeforePush a s₀ l₀ p front (past ++ samples events) c' l' := by
  induction events generalizing c past l out with
  | nil =>
    cases hrun
    exact ⟨l, by rwa [samples, List.filterMap_nil, List.append_nil]⟩
  | cons e events ih =>
    obtain ⟨c₁, out₁, out₂, hstep, hrest, _⟩ := run_cons_eq_some hrun
    cases e with
    | bill smp =>
      obtain ⟨s₁, l₁, hbill, honce⟩ := h.reordered.listed.billFunc smp
      rw [Starting.step, hbill] at hstep
      cases hstep
      obtain ⟨stats, hstats, hnext⟩ := h.record
      have h₁ : BeforePush a s₀ l₀ p front (past ++ [smp]) { c with state := s₁ } l₁ :=
        ⟨h.reordered.bill honce, h.pc, fun hp => h.fresh (honce.perm.mem_iff.mp hp), stats,
          (honce.outside p h.fresh).trans hstats, hnext⟩
      obtain ⟨l', h'⟩ := ih h₁ (fun hmem => hpush (List.mem_cons_of_mem _ hmem)) hrest
      refine ⟨l', ?_⟩
      rwa [List.append_assoc] at h'
    | push => exact absurd List.mem_cons_self hpush
    | _ => simp [Starting.step, h.pc] at hstep

/-! ### After the head is written -/

/-- From the new record, the list goes on at the record that was the head. -/
structure AfterPush (s₁ : PapiState) (l₁ : List Ptr) (p : Ptr) (c : Starting) (l : List Ptr) : Prop where
  chain : IsChain c.state.next c.state.pipelines l
  perm : l.Perm l₁
  ids : ∀ q, (c.state.content q).map (·.ids) = (s₁.content q).map (·.ids)
  free : c.state.firstFreeId = s₁.firstFreeId
  pc : c.pc = .lock p ∨ c.pc = .done (some p)

/-- The part of a list from a link on. -/
theorem exists_suffix {next : Ptr → Option (Option Ptr)} {q : Option Ptr} (h : IsChain next q l)
    {front : Option Ptr} (hfront : ∀ r, front = some r → r ∈ l) :
    ∃ pre post, l = pre ++ post ∧ IsChain next front post := by
  cases front with
  | none => exact ⟨l, [], (List.append_nil l).symm, .nil⟩
  | some r =>
    obtain ⟨pre, post, heq, hpost⟩ := h.suffix (hfront r rfl)
    exact ⟨pre, r :: post, heq, hpost⟩

theorem AfterPush.run {s₁ : PapiState} {l₁ : List Ptr} {p : Ptr} (h : AfterPush s₁ l₁ p c l)
    {events : List StartEvent} (hrun : Machine.run (Starting.step a m) c events = some (c', out)) :
    ∃ l', AfterPush s₁ l₁ p c' l' := by
  induction events generalizing c l out with
  | nil =>
    cases hrun
    exact ⟨l, h⟩
  | cons e events ih =>
    obtain ⟨c₁, out₁, out₂, hstep, hrest, _⟩ := run_cons_eq_some hrun
    cases e with
    | bill smp =>
      obtain ⟨s', l', hbill, hchain, hperm, hids, hglobals⟩ :=
        PapiState.exists_chain_billFunc h.chain smp
      rw [Starting.step, hbill] at hstep
      cases hstep
      have hnext : AfterPush s₁ l₁ p { c with state := s' } l' := by
        refine ⟨hchain, hperm.trans h.perm, fun q => (hids q).trans (h.ids q), ?_, h.pc⟩
        rw [hglobals]
        exact h.free
      exact ih hnext hrest
    | lock =>
      rcases h.pc with hpc | hpc
      · simp only [Starting.step, hpc] at hstep
        obtain ⟨stats, hstats, heq⟩ := Option.map_eq_some_iff.mp hstep
        cases heq
        have hnext : AfterPush s₁ l₁ p ⟨c.state.countRun p stats, .done (some p)⟩ l := by
          refine ⟨?_, h.perm, fun q => ?_, h.free, Or.inr rfl⟩
          · refine h.chain.congr fun q _ => ?_
            apply (PapiState.next_write p q _).trans
            split
            · next heq =>
              rw [← heq, PapiState.next, hstats]
              rfl
            · rfl
          · refine Eq.trans ?_ (h.ids q)
            apply (congrArg (Option.map _) (PapiState.content_write p q _)).trans
            split
            · next heq =>
              rw [← heq, PapiState.content_of_getElem? hstats]
              rfl
            · rfl
        exact ih hnext hrest
      · simp [Starting.step, hpc] at hstep
    | _ => rcases h.pc with hpc | hpc <;> simp [Starting.step, hpc] at hstep

/-! ### The whole start -/

/-- A list up to the first `x`, and whether there is one. -/
theorem not_mem_takeWhile {α : Type*} [DecidableEq α] (x : α) (l : List α) :
    x ∉ l.takeWhile (· ≠ x) ∧
      (l.dropWhile (· ≠ x) = [] ∨ ∃ rest, l.dropWhile (· ≠ x) = x :: rest) := by
  induction l with
  | nil => simp
  | cons y l ih =>
    by_cases heq : y = x
    · simp [heq]
    · rw [List.takeWhile_cons_of_pos (by simp [heq]), List.dropWhile_cons_of_pos (by simp [heq]),
        List.mem_cons, not_or]
      exact ⟨⟨Ne.symm heq, ih.1⟩, ih.2⟩

/-- Once the start is done, only samples come. -/
theorem pc_of_done {q : Option Ptr} (h : c.pc = .done q) {events : List StartEvent}
    (hrun : Machine.run (Starting.step a m) c events = some (c', out)) : c'.pc = .done q := by
  induction events generalizing c out with
  | nil =>
    cases hrun
    exact h
  | cons e events ih =>
    obtain ⟨c₁, out₁, out₂, hstep, hrest, _⟩ := run_cons_eq_some hrun
    cases e with
    | bill smp =>
      obtain ⟨answer, _, heq⟩ := Option.map_eq_some_iff.mp hstep
      cases heq
      exact ih (c := { c with state := answer.state }) h hrest
    | _ => simp [Starting.step, h] at hstep

theorem BeforePush.push {p : Ptr} {front : Option Ptr} (h : BeforePush a s₀ l₀ p front past c l)
    (hfront : ∀ r, front = some r → r ∈ l₀)
    (hstep : Starting.step a m c .push = some (c', out)) :
    ∃ pre post, l = pre ++ post ∧ IsChain c.state.next front post ∧
      AfterPush (c.state.pushOnto a p) (p :: post) p c' (p :: post) := by
  simp only [Starting.step, h.pc] at hstep
  cases hstep
  obtain ⟨pre, post, heq, hpost⟩ := exists_suffix h.reordered.listed.chain fun r hr =>
    h.reordered.perm.mem_iff.mpr (hfront r hr)
  obtain ⟨stats, hstats, hlink, _⟩ := h.record
  have hnext : c.state.next p = some front := PapiState.next_eq_some_iff.mpr ⟨stats, hstats, hlink⟩
  exact ⟨pre, post, heq, hpost, .cons hnext hpost, .rfl, fun _ => rfl, rfl, Or.inl rfl⟩

theorem mem_of_frontAfter (h : Reordered s₀ l₀ past s l) (r : Ptr)
    (hr : frontAfter s₀ l₀ l₀.head? past = some r) : r ∈ l₀ := by
  rw [← h.front] at hr
  exact h.perm.mem_iff.mp (List.mem_of_mem_head? hr)

/-- A start that ends with a record comes to write the head. -/
theorem exists_push (h : s.Listed l) (hnew : ∀ p ∈ l, s.test p a.names = false)
    {events : List StartEvent} {p : Ptr}
    (hrun : Machine.run (Starting.step a m) (begin s) events = some (⟨s', .done (some p)⟩, out)) :
    ∃ c l₂ rest out', BeforePush a s l p (frontAfter s l l.head? (samples (beforeFill events)))
        (samples (beforeFill events) ++ samples (window events)) c l₂ ∧
      (∀ r, frontAfter s l l.head? (samples (beforeFill events)) = some r → r ∈ l) ∧
      Machine.run (Starting.step a m) c (.push :: rest) = some (⟨s', .done (some p)⟩, out') := by
  have hbegin : BeforeFill a s l [] (begin s) l := by
    refine ⟨Reordered.refl h, hnew, fun q hq => ?_⟩
    rw [h.chain.head] at hq
    exact List.mem_of_mem_head? hq
  obtain ⟨hread, hfill⟩ := not_mem_takeWhile StartEvent.fill events
  have hsplit := hrun
  rw [← List.takeWhile_append_dropWhile (p := (· ≠ StartEvent.fill)) (l := events)] at hsplit
  obtain ⟨c₁, out₁, _, hrun₁, hrest₁, _⟩ := run_append_eq_some hsplit
  obtain ⟨l₁, h₁⟩ := hbegin.run hread hrun₁
  rw [List.nil_append] at h₁
  rcases hfill with hnone | ⟨rest, hfound⟩
  · rw [hnone] at hrest₁
    cases hrest₁
    cases h₁.pc
  rw [hfound] at hrest₁
  obtain ⟨c₂, out₂, _, hstep₂, hrun₂, _⟩ := run_cons_eq_some hrest₁
  rcases h₁.fill hstep₂ with hdone | ⟨q, h₂⟩
  · cases pc_of_done hdone hrun₂
  have hwindow : samples (window events) = samples (rest.takeWhile (· ≠ .push)) := by
    rw [window, hfound, List.takeWhile_cons_of_pos (by decide)]
    rfl
  obtain ⟨hbefore, hpush⟩ := not_mem_takeWhile StartEvent.push rest
  rw [← List.takeWhile_append_dropWhile (p := (· ≠ StartEvent.push)) (l := rest)] at hrun₂
  obtain ⟨c₃, out₃, _, hrun₃, hrest₃, _⟩ := run_append_eq_some hrun₂
  obtain ⟨l₃, h₃⟩ := h₂.run hbefore hrun₃
  rw [← hwindow, h₁.reordered.front] at h₃
  rcases hpush with hnone | ⟨rest', hfound'⟩
  · rw [hnone] at hrest₃
    cases hrest₃
    cases h₃.pc
  rw [hfound'] at hrest₃
  obtain ⟨c₄, out₄, _, hstep₄, hrun₄, _⟩ := run_cons_eq_some hrest₃
  obtain ⟨_, _, _, _, h₄⟩ := h₃.push (mem_of_frontAfter h₁.reordered) hstep₄
  obtain ⟨l', h'⟩ := h₄.run hrun₄
  rcases h'.pc with hpc | hpc
  · cases hpc
  · cases hpc
    exact ⟨c₃, l₃, rest', _, h₃, mem_of_frontAfter h₁.reordered, hrest₃⟩

/-- A start loses no record exactly if the record in front when it reads the head is in front when it
writes the head. -/
theorem keepsAll_iff (h : s.Listed l) (hnew : ∀ p ∈ l, s.test p a.names = false)
    {events : List StartEvent} {p : Ptr}
    (hrun : Machine.run (Starting.step a m) (begin s) events = some (⟨s', .done (some p)⟩, out)) :
    KeepsAll l p s' ↔ HeadUnmoved s l events := by
  obtain ⟨c, l₂, rest, out', hpush, hfront, hrest⟩ := exists_push h hnew hrun
  obtain ⟨c₁, _, _, hstep, hrun₁, _⟩ := run_cons_eq_some hrest
  obtain ⟨pre, post, heq, hpost, hafter⟩ := hpush.push hfront hstep
  obtain ⟨l', h'⟩ := hafter.run hrun₁
  have hchain := hpush.reordered.listed.chain
  have hnow : l₂.head? = frontAfter s l (frontAfter s l l.head? (samples (beforeFill events)))
      (samples (window events)) := by
    rw [hpush.reordered.front, frontAfter, List.foldl_append]
    rfl
  rw [HeadUnmoved, ← hnow]
  constructor
  · intro hkeeps
    obtain ⟨l'', hl'', hperm⟩ := hkeeps
    rw [hl''.unique h'.chain] at hperm
    have hlength := (h'.perm.symm.trans hperm).length_eq
    have hlength₂ := hpush.reordered.perm.length_eq
    rw [heq, List.length_append] at hlength₂
    rw [List.length_cons, List.length_cons] at hlength
    have hpre : pre = [] := List.eq_nil_of_length_eq_zero (by omega)
    rw [heq, hpre, List.nil_append, ← hpost.head]
  · intro hsame
    rw [← hsame, ← hchain.head] at hpost
    have hall : post = l₂ := hpost.unique hchain
    rw [hall] at h'
    exact ⟨l', h'.chain, h'.perm.trans (hpush.reordered.perm.cons p)⟩

/-- No func id of the list is beyond the first free one. -/
def Bounded (s : PapiState) (l : List Ptr) : Prop :=
  ∀ p ∈ l, ∀ stats, s.content p = some stats → stats.firstFuncId + stats.numFuncs ≤ s.firstFreeId

theorem Bounded.of_ids {l' : List Ptr} (h : Bounded s l) (hmem : ∀ p ∈ l', p ∈ l)
    (hids : ∀ p ∈ l, (s'.content p).map (·.ids) = (s.content p).map (·.ids))
    (hfree : s'.firstFreeId = s.firstFreeId) : Bounded s' l' := by
  intro p hp stats' hstats'
  have heq := hids p (hmem p hp)
  rw [hstats'] at heq
  obtain ⟨stats, hstats, heq⟩ := Option.map_eq_some_iff.mp heq.symm
  have hbound := h p (hmem p hp) stats hstats
  simp only [PipelineStats.ids, Prod.mk.injEq] at heq
  rw [hfree, ← heq.1, ← heq.2.1]
  exact hbound

/-- The new record numbers its funcs apart from those it is put in front of. -/
theorem BeforePush.listed {p : Ptr} {front : Option Ptr} {pre post : List Ptr}
    (h : BeforePush a s₀ l₀ p front past c (pre ++ post)) (hbounded : Bounded s₀ l₀)
    (hfuncs : 0 ≤ a.numFuncs)
    (hchain : IsChain (c.state.pushOnto a p).next (c.state.pushOnto a p).pipelines (p :: post)) :
    (c.state.pushOnto a p).Listed (p :: post) ∧ Bounded (c.state.pushOnto a p) (p :: post) := by
  obtain ⟨stats, hstats, _, hids⟩ := h.record
  have hnow := PapiState.content_of_getElem? hstats
  simp only [PipelineStats.ids, Prod.mk.injEq] at hids
  have hlisted := h.reordered.listed
  have hold : Bounded c.state (pre ++ post) :=
    hbounded.of_ids (fun q hq => h.reordered.perm.mem_iff.mp hq) h.reordered.ids h.reordered.free
  have hfree : c.state.firstFreeId = s₀.firstFreeId := h.reordered.free
  have hpost : ∀ q ∈ post, q ∈ pre ++ post := fun q hq => List.mem_append_right pre hq
  have hapart : ∀ q ∈ post, ∀ statsQ, c.state.content q = some statsQ → ∀ funcId,
      ¬ (stats.containsFunc funcId = true ∧ statsQ.containsFunc funcId = true) := by
    intro q hq statsQ hQ funcId hboth
    have hbound := hold q (hpost q hq) statsQ hQ
    simp only [PipelineStats.containsFunc, Bool.and_eq_true, decide_eq_true_eq, hids.1] at hboth
    omega
  refine ⟨⟨hchain, fun q hq statsQ hQ => ?_, fun q hq r hr hne statsQ statsR hQ hR funcId => ?_⟩,
    fun q hq statsQ hQ => ?_⟩
  · rcases List.mem_cons.mp hq with heq | hpostQ
    · rw [heq] at hQ
      cases hnow.symm.trans hQ
      exact hids.2.2.trans (congrArg Int.toNat hids.2.1.symm)
    · exact hlisted.sized q (hpost q hpostQ) statsQ hQ
  · rcases List.mem_cons.mp hq with heqQ | hpostQ <;> rcases List.mem_cons.mp hr with heqR | hpostR
    · exact absurd (heqQ.trans heqR.symm) hne
    · rw [heqQ] at hQ
      cases hnow.symm.trans hQ
      exact hapart r hpostR statsR hR funcId
    · rw [heqR] at hR
      cases hnow.symm.trans hR
      exact fun hboth => hapart q hpostQ statsQ hQ funcId hboth.symm
    · exact hlisted.disjoint q (hpost q hpostQ) r (hpost r hpostR) hne statsQ statsR hQ hR funcId
  · change _ ≤ c.state.firstFreeId + a.numFuncs
    rcases List.mem_cons.mp hq with heq | hpostQ
    · rw [heq] at hQ
      cases hnow.symm.trans hQ
      change stats.firstFuncId + stats.numFuncs ≤ _
      omega
    · have hbound := hold q (hpost q hpostQ) statsQ hQ
      omega

/-- Even where records are lost, what a start leaves is a list of records with their func ids apart, as
the next start and the next sample need it. -/
theorem exists_listed (h : s.Listed l) (hbounded : Bounded s l) (hfuncs : 0 ≤ a.numFuncs)
    (hnew : ∀ p ∈ l, s.test p a.names = false) {events : List StartEvent} {p : Ptr}
    (hrun : Machine.run (Starting.step a m) (begin s) events = some (⟨s', .done (some p)⟩, out)) :
    ∃ l', s'.Listed l' ∧ Bounded s' l' := by
  obtain ⟨c, l₂, rest, out', hpush, hfront, hrest⟩ := exists_push h hnew hrun
  obtain ⟨c₁, _, _, hstep, hrun₁, _⟩ := run_cons_eq_some hrest
  obtain ⟨pre, post, rfl, hpost, hafter⟩ := hpush.push hfront hstep
  have hpushed : c₁.state = c.state.pushOnto a p := by
    simp only [Starting.step, hpush.pc] at hstep
    cases hstep
    rfl
  have hchain := hafter.chain
  rw [hpushed] at hchain
  obtain ⟨hlisted, hbounded'⟩ := hpush.listed hbounded hfuncs hchain
  obtain ⟨l', h'⟩ := hafter.run hrun₁
  refine ⟨l', (hlisted.of_ids h'.perm h'.chain fun q _ => h'.ids q).1, ?_⟩
  exact hbounded'.of_ids (fun q hq => h'.perm.mem_iff.mp hq) (fun q _ => h'.ids q) h'.free

/-! ### A start by itself -/

theorem run_find {q : Option Ptr} (h : IsChain s.next q l) (hnew : ∀ p ∈ l, s.test p a.names = false)
    (events : List StartEvent) :
    Machine.run (Starting.step a m) ⟨s, .test q⟩
        (List.replicate (2 * l.length + 1) .find ++ events)
      = Machine.run (Starting.step a m) ⟨s, .allocate none⟩ events := by
  induction h with
  | nil =>
    rw [List.length_nil, List.replicate_one, List.singleton_append, run_cons rfl]
    cases Machine.run (Starting.step a m) ⟨s, .allocate none⟩ events <;> rfl
  | @cons p q l hp hl ih =>
    obtain ⟨stats, hstats, hlink⟩ := PapiState.next_eq_some_iff.mp hp
    have hmiss := hnew p List.mem_cons_self
    rw [PapiState.test, hstats, Option.any_some] at hmiss
    have htest : Starting.step a m ⟨s, .test (some p)⟩ .find = some (⟨s, .advance p⟩, []) := by
      simp [Starting.step, hstats, hmiss]
    have hadvance : Starting.step a m ⟨s, .advance p⟩ .find = some (⟨s, .test q⟩, []) := by
      simp [Starting.step, hp]
    have hlength : 2 * (p :: l).length + 1 = 2 * l.length + 1 + 1 + 1 := by
      rw [List.length_cons]
      omega
    rw [hlength, List.replicate_succ, List.replicate_succ, List.cons_append, List.cons_append,
      run_cons htest, run_cons hadvance, ih fun r hr => hnew r (List.mem_cons_of_mem p hr)]
    cases Machine.run (Starting.step a m) ⟨s, .allocate none⟩ events <;> rfl

/-- Without samples in between, the steps come to what the call does at once. -/
theorem run_alone (h : s.Listed l) (hnew : ∀ p ∈ l, s.test p a.names = false) {p : Ptr}
    (hmalloc : s.malloc m = some p) (harrays : m.arrays a.numLoops = true) :
    ∃ s', Machine.run (Starting.step a m) (begin s)
        (List.replicate (2 * l.length + 1) .find ++ [.allocate, .fill, .push, .lock])
      = some (⟨s', .done (some p)⟩, [.papiHalideInitialize]) ∧
      (∀ q : Ptr, s'.records[q]? = (s.install a p).records[q]?) ∧
      s' = { s.install a p with records := s'.records } := by
  let stats : PipelineStats := { a.pipelineStats s.pipelines s.firstFreeId with runs := 0 }
  have hwritten : ((s.fillIn a p).pushOnto a p).records[p]? = some stats :=
    (PapiState.getElem?_write p p _).trans (if_pos rfl)
  refine ⟨((s.fillIn a p).pushOnto a p).countRun p stats, ?_, fun q => ?_, ?_⟩
  · rw [begin, run_find h.chain hnew]
    simp only [Machine.run, Starting.step, Option.none_or, hmalloc, harrays, hwritten, Option.map_some,
      Option.getD_some, Option.bind_some, if_true]
    rfl
  · apply (PapiState.getElem?_write p q _).trans
    refine Eq.trans ?_ (PapiState.getElem?_write (s := s.redirect p .leaked) p q _).symm
    split
    · rfl
    · next hne =>
      exact (PapiState.getElem?_write (s := s.redirect p .leaked) p q _).trans (if_neg hne)
  · rfl

/-! ### A record that is lost -/

/-- After the head is read, this sample is billed. -/
def interrupted (c : Sample) : List StartEvent :=
  List.replicate 5 .find ++ [.allocate, .fill, .bill c, .push, .lock]

theorem twoStarted_test : ∀ p ∈ [2, 1], PapiState.twoStarted.test p (PapiState.oneFunc 9).names = false := by
  decide

/-- The sample is for the record in front. -/
theorem keepsAll_iff_interrupted : ∃ s' out,
    Machine.run (Starting.step (PapiState.oneFunc 9) ⟨some 3, true, true⟩) (begin PapiState.twoStarted)
        (interrupted ⟨1, 1, 1⟩)
      = some (⟨s', .done (some 3)⟩, out) ∧
    (KeepsAll [2, 1] 3 s' ↔ HeadUnmoved PapiState.twoStarted [2, 1] (interrupted ⟨1, 1, 1⟩)) := by
  let ran := Machine.run (Starting.step (PapiState.oneFunc 9) ⟨some 3, true, true⟩)
    (begin PapiState.twoStarted) (interrupted ⟨1, 1, 1⟩)
  have hends : ran.any (fun r => r.1.pc == .done (some 3)) = true := by decide
  obtain ⟨⟨⟨s', pc⟩, out⟩, hrun, hpc⟩ := (Option.any_eq_true _ _).mp hends
  have hdone : pc = .done (some 3) := eq_of_beq hpc
  rw [hdone] at hrun
  exact ⟨s', out, hrun, keepsAll_iff PapiState.twoStarted_listed twoStarted_test hrun⟩

/-- The sample is for the other record, which is brought to the front. -/
theorem not_keepsAll_overtaken :
    ¬ ∀ (s : PapiState) l a m events p s' out, s.Listed l → (∀ p ∈ l, s.test p a.names = false) →
      Machine.run (Starting.step a m) (begin s) events = some (⟨s', .done (some p)⟩, out) →
      KeepsAll l p s' := by
  intro h
  let ran := Machine.run (Starting.step (PapiState.oneFunc 9) ⟨some 3, true, true⟩)
    (begin PapiState.twoStarted) (interrupted ⟨0, 1, 1⟩)
  have hends : ran.any (fun r => r.1.pc == .done (some 3) &&
      follow r.1.state.next r.1.state.records.size r.1.state.pipelines == some [3, 2]) = true := by
    decide
  obtain ⟨⟨⟨s', pc⟩, out⟩, hrun, htest⟩ := (Option.any_eq_true _ _).mp hends
  obtain ⟨hpc, hfollow⟩ := (Bool.and_eq_true _ _).mp htest
  have hdone : pc = .done (some 3) := eq_of_beq hpc
  rw [hdone] at hrun
  have hchain : IsChain s'.next s'.pipelines [3, 2] := isChain_of_follow (eq_of_beq hfollow)
  obtain ⟨l', hl', hperm⟩ := h _ _ _ _ _ _ _ _ PapiState.twoStarted_listed twoStarted_test hrun
  rw [← hchain.unique hl'] at hperm
  exact absurd hperm.length_eq (by decide)

end Starting

end ProfHalide
