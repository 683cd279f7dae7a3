import ProfHalide.Runtime.Calls

/-!
# The list of pipelines

What each call does to the list of records, said once for each call: a search finds the first record it
is looking for, a sample may bring its record to the front, a start puts a new record there, and a
reset frees the records one by one.
-/

namespace ProfHalide

open Std Chain

namespace PapiState

/-- The list meets the records in this order, and no other record is allocated. -/
structure Linked (s : PapiState) (l : List Ptr) : Prop where
  chain : IsChain s.next s.pipelines l
  mem : ∀ p, p ∈ l ↔ p ∈ s.records

variable {s : PapiState} {l : List Ptr}

theorem next_eq_some_iff {p : Ptr} {q : Option Ptr} :
    s.next p = some q ↔ ∃ stats, s.records[p]? = some stats ∧ stats.next = q :=
  Option.map_eq_some_iff

theorem mem_iff_getElem? {p : Ptr} : p ∈ s.records ↔ ∃ stats, s.records[p]? = some stats := by
  rw [TreeMap.mem_iff_isSome_getElem?, Option.isSome_iff_exists]

theorem mem_of_next {p : Ptr} (h : (s.next p).isSome) : p ∈ s.records := by
  rw [TreeMap.mem_iff_isSome_getElem?]
  rwa [next, Option.isSome_map] at h

theorem follow_eq_some_iff {q : Option Ptr} :
    follow s.next s.records.size q = some l ↔ IsChain s.next q l := by
  rw [← TreeMap.length_keys]
  exact Chain.follow_eq_some_iff fun p hp => TreeMap.mem_keys.mpr (mem_of_next hp)

theorem length_le_size {q : Option Ptr} (h : IsChain s.next q l) : l.length ≤ s.records.size := by
  rw [← TreeMap.length_keys]
  exact (List.subperm_of_subset h.nodup fun p hp =>
    TreeMap.mem_keys.mpr (mem_of_next (h.allocated hp))).length_le

/-- Along the list, a search finds the first record it is looking for, or there is none. -/
theorem find_chain (h : IsChain s.next s.pipelines l) (hit : PipelineStats → Bool) :
    (s.find hit = some none ∧ ∀ p ∈ l, s.test p hit = false) ∨
    ∃ pre p post, l = pre ++ p :: post ∧ s.find hit = some (some (pre.getLast?, p)) ∧
      s.test p hit = true ∧ ∀ q ∈ pre, s.test q hit = false := by
  have hlength := length_le_size h
  cases hfind : l.find? (s.test · hit) with
  | none =>
    have hnone : ∀ p ∈ l, s.test p hit = false := by
      intro p hp
      exact Bool.eq_false_iff.mpr (List.find?_eq_none.mp hfind p hp)
    exact Or.inl ⟨h.search_none hnone hlength none, hnone⟩
  | some p =>
    obtain ⟨htest, pre, post, heq, hpre⟩ := List.find?_eq_some_iff_append.mp hfind
    have hmisses : ∀ q ∈ pre, s.test q hit = false := fun q hq => by simpa using hpre q hq
    have hrounds : pre.length < s.records.size := by
      rw [heq, List.length_append, List.length_cons] at hlength
      omega
    have hsearch := (heq ▸ h).search_some hmisses htest hrounds none
    rw [Option.or_none] at hsearch
    exact Or.inr ⟨pre, p, post, heq, hsearch, htest, hmisses⟩

theorem Linked.find (h : s.Linked l) (hit : PipelineStats → Bool) :
    (s.find hit = some none ∧ ∀ p ∈ l, s.test p hit = false) ∨
    ∃ pre p post, l = pre ++ p :: post ∧ s.find hit = some (some (pre.getLast?, p)) ∧
      s.test p hit = true := by
  rcases find_chain h.chain hit with hnone | ⟨pre, p, post, heq, hfind, htest, _⟩
  · exact Or.inl hnone
  · exact Or.inr ⟨pre, p, post, heq, hfind, htest⟩

/-! ### Writing to records -/

theorem getElem?_write (p q : Ptr) (stats : PipelineStats) :
    (s.write p stats).records[q]? = if p = q then some stats else s.records[q]? := by
  rw [write, TreeMap.getElem?_insert]
  simp

theorem next_write (p q : Ptr) (stats : PipelineStats) :
    (s.write p stats).next q = if p = q then some stats.next else s.next q := by
  rw [next, getElem?_write, next]
  split <;> rfl

theorem mem_write {p q : Ptr} {stats : PipelineStats} :
    q ∈ (s.write p stats).records ↔ p = q ∨ q ∈ s.records := by
  simp [write, TreeMap.mem_insert]

/-- A write that keeps the link of an allocated record keeps the list. -/
theorem Linked.write (h : s.Linked l) {p : Ptr} {old stats : PipelineStats}
    (hold : s.records[p]? = some old) (hnext : stats.next = old.next) : (s.write p stats).Linked l where
  chain := by
    refine h.chain.congr fun q _ => ?_
    rw [next_write]
    split
    · next heq =>
      rw [← heq, next, hold, hnext]
      rfl
    · rfl
  mem q := by
    rw [h.mem, mem_write]
    refine ⟨Or.inr, fun hq => hq.elim (fun heq => ?_) id⟩
    rw [← heq]
    exact mem_iff_getElem?.mpr ⟨old, hold⟩

/-- What a record holds besides its link. -/
def content (s : PapiState) (p : Ptr) : Option PipelineStats :=
  s.records[p]?.map fun stats => { stats with next := none }

theorem content_of_getElem? {p : Ptr} {stats : PipelineStats} (h : s.records[p]? = some stats) :
    s.content p = some { stats with next := none } := by
  rw [content, h]
  rfl

theorem content_write (p q : Ptr) (stats : PipelineStats) :
    (s.write p stats).content q
      = if p = q then some { stats with next := none } else s.content q := by
  rw [content, getElem?_write, content]
  split <;> rfl

theorem mem_iff_content {p : Ptr} : p ∈ s.records ↔ (s.content p).isSome := by
  rw [TreeMap.mem_iff_isSome_getElem?, content, Option.isSome_map]

/-! ### Sampling -/

/-- A record is moved to the front; links change and nothing else. -/
theorem bubble_chain {pre post : List Ptr} {p : Ptr}
    (h : IsChain s.next s.pipelines (pre ++ p :: post)) :
    ∃ s', s.bubble pre.getLast? p = some s' ∧ IsChain s'.next s'.pipelines (p :: (pre ++ post)) ∧
      s' = { s with pipelines := s'.pipelines, records := s'.records } ∧
      (∀ q, s'.content q = s.content q) ∧
      ∀ q ∉ pre ++ p :: post, s'.records[q]? = s.records[q]? := by
  cases hlast : pre.getLast? with
  | none =>
    rw [List.getLast?_eq_none_iff] at hlast
    rw [hlast] at h ⊢
    exact ⟨s, rfl, h, rfl, fun _ => rfl, fun _ _ => rfl⟩
  | some prev =>
    obtain ⟨pre, rfl⟩ := List.getLast?_eq_some_iff.mp hlast
    rw [List.append_assoc] at h ⊢
    have hmem : ∀ q ∈ pre ++ prev :: p :: post, ∃ stats, s.records[q]? = some stats :=
      fun q hq => mem_iff_getElem?.mp (mem_of_next (h.allocated hq))
    obtain ⟨before, hbefore⟩ := hmem prev (by simp)
    obtain ⟨stats, hstats⟩ := hmem p (by simp)
    have hnodup : (pre ++ prev :: p :: post).Nodup := h.nodup
    have hprev : prev ≠ p := by grind
    have hothers : ∀ q ∈ pre ++ post, prev ≠ q ∧ p ≠ q := by grind
    have hbubble : s.bubble (some prev) p
        = some { (s.write prev { before with next := stats.next }).write p
          { stats with next := s.pipelines } with pipelines := some p } := by
      simp [PapiState.bubble, hbefore, hstats]
    refine ⟨_, hbubble, ?_, rfl, fun q => ?_, fun q hq => ?_⟩
    · have hnext := fun q => next_write (s := s.write prev { before with next := stats.next }) p q
        { stats with next := s.pipelines }
      apply IsChain.cons ((hnext p).trans (if_pos rfl))
      refine h.unlink (fun q hq => ?_) ?_
      · apply (hnext q).trans
        rw [if_neg (hothers q hq).2, next_write, if_neg (hothers q hq).1]
      · apply (hnext prev).trans
        rw [if_neg (Ne.symm hprev), next_write, if_pos rfl]
        exact (next_eq_some_iff.mpr ⟨stats, hstats, rfl⟩).symm
    · apply (content_write (s := s.write prev { before with next := stats.next }) p q _).trans
      rw [content_write]
      split
      · next heq => rw [← heq, content_of_getElem? hstats]
      · split
        · next heq => rw [← heq, content_of_getElem? hbefore]
        · rfl
    · have hne : prev ≠ q ∧ p ≠ q := by grind
      apply (getElem?_write (s := s.write prev { before with next := stats.next }) p q _).trans
      rw [if_neg hne.2, getElem?_write, if_neg hne.1]

/-- A sample writes to records and links, and to nothing else. -/
theorem globals_billFunc {funcId : Int} {time : UInt64} {activeThreads : Int} {answer : Answer}
    (h : s.billFunc funcId time activeThreads = some answer) :
    answer.state = { s with pipelines := answer.state.pipelines, records := answer.state.records } := by
  rw [PapiState.billFunc] at h
  obtain ⟨found, _, hbilled⟩ := Option.bind_eq_some_iff.mp h
  cases found with
  | none =>
    cases hbilled
    rfl
  | some r =>
    obtain ⟨s', hbubble, hwrite⟩ := Option.bind_eq_some_iff.mp hbilled
    obtain ⟨stats, _, heq⟩ := Option.bind_eq_some_iff.mp hwrite
    cases heq
    cases hprev : r.1 with
    | none =>
      rw [hprev] at hbubble
      cases hbubble
      rfl
    | some prev =>
      rw [hprev] at hbubble
      obtain ⟨before, _, hrest⟩ := Option.bind_eq_some_iff.mp hbubble
      obtain ⟨old, _, heq⟩ := Option.bind_eq_some_iff.mp hrest
      cases heq
      rfl

/-- A sample brings the first record of the list that contains the func to the front and is billed
there; if there is none, nothing happens. -/
theorem billFunc_chain (h : IsChain s.next s.pipelines l) (funcId : Int) (time : UInt64)
    (activeThreads : Int) :
    (s.billFunc funcId time activeThreads = some { ret := 0, state := s, effects := [] } ∧
      ∀ p ∈ l, s.test p (·.containsFunc funcId) = false) ∨
    ∃ pre p post s' stats, l = pre ++ p :: post ∧
      (∀ q ∈ pre, s.test q (·.containsFunc funcId) = false) ∧
      s.billFunc funcId time activeThreads = some { ret := 0, state := s', effects := [] } ∧
      IsChain s'.next s'.pipelines (p :: (pre ++ post)) ∧
      s' = { s with pipelines := s'.pipelines, records := s'.records } ∧
      s.content p = some stats ∧ stats.containsFunc funcId = true ∧
      (∀ q, s'.content q
        = if p = q then some (stats.bill funcId time activeThreads) else s.content q) ∧
      ∀ q ∉ l, s'.records[q]? = s.records[q]? := by
  rcases find_chain h (·.containsFunc funcId) with ⟨hfind, hnone⟩ | ⟨pre, p, post, rfl, hfind, htest, hpre⟩
  · refine Or.inl ⟨?_, hnone⟩
    simp [PapiState.billFunc, hfind]
  · obtain ⟨stats, hstats⟩ := mem_iff_getElem?.mp (mem_of_next (h.allocated (p := p) (by simp)))
    have hcontains : stats.containsFunc funcId = true := by
      rwa [test, hstats] at htest
    obtain ⟨s₁, hbubble, hchain, hglobals, hcontent, houtside⟩ := bubble_chain h
    have hmoved : s₁.content p = some { stats with next := none } :=
      (hcontent p).trans (content_of_getElem? hstats)
    obtain ⟨stats₁, hstats₁, heq⟩ := Option.map_eq_some_iff.mp hmoved
    refine Or.inr ⟨pre, p, post, s₁.write p (stats₁.bill funcId time activeThreads), _, rfl, hpre, ?_,
      ?_, ?_, content_of_getElem? hstats, hcontains, fun q => ?_, fun q hq => ?_⟩
    · simp [PapiState.billFunc, hfind, hbubble, hstats₁]
    · refine hchain.congr fun q _ => ?_
      rw [next_write]
      split
      · next heq =>
        rw [← heq, next, hstats₁]
        rfl
      · rfl
    · exact congrArg (fun t : PapiState =>
        { t with records := s₁.records.insert p (stats₁.bill funcId time activeThreads) }) hglobals
    · rw [content_write, hcontent q, ← heq]
      rfl
    · rw [getElem?_write, if_neg, houtside q hq]
      intro heq
      rw [← heq] at hq
      exact hq (by simp)

/-- A sample goes to the record that contains the func, if there is one, and changes the contents of no
other. -/
theorem Linked.billFunc (h : s.Linked l) (funcId : Int) (time : UInt64) (activeThreads : Int) :
    ∃ s' l', s.billFunc funcId time activeThreads = some { ret := 0, state := s', effects := [] } ∧
      s'.Linked l' ∧ l'.Perm l ∧
      s' = { s with pipelines := s'.pipelines, records := s'.records } ∧
      ((s' = s ∧ ∀ p stats, s.content p = some stats → stats.containsFunc funcId = false) ∨
      ∃ p stats, s.content p = some stats ∧ stats.containsFunc funcId = true ∧
        ∀ q, s'.content q
          = if p = q then some (stats.bill funcId time activeThreads) else s.content q) := by
  rcases billFunc_chain h.chain funcId time activeThreads with ⟨hbill, hnone⟩ |
    ⟨pre, p, post, s', stats, rfl, _, hbill, hchain, hglobals, hstats, hcontains, hcontent, _⟩
  · refine ⟨s, l, hbill, h, .rfl, rfl, Or.inl ⟨rfl, fun p stats hcontent => ?_⟩⟩
    obtain ⟨old, hold, rfl⟩ := Option.map_eq_some_iff.mp hcontent
    have htest := hnone p ((h.mem p).mpr (mem_iff_getElem?.mpr ⟨old, hold⟩))
    rwa [test, hold] at htest
  · have hperm : (p :: (pre ++ post)).Perm (pre ++ p :: post) := List.perm_middle.symm
    refine ⟨s', p :: (pre ++ post), hbill, ⟨hchain, fun q => ?_⟩, hperm, hglobals,
      Or.inr ⟨p, stats, hstats, hcontains, hcontent⟩⟩
    rw [hperm.mem_iff, h.mem, mem_iff_content, mem_iff_content, hcontent]
    split
    · next heq => rw [← heq, hstats, Option.isSome_some, Option.isSome_some]
    · rfl

/-! ### Starting -/

theorem malloc_eq_some {m : Mallocs} {p : Ptr} (h : s.malloc m = some p) : p ∉ s.records := by
  have hfree := (Option.filter_eq_some_iff.mp h).2
  rwa [Bool.not_eq_true', ← Bool.not_eq_true, TreeMap.contains_iff_mem] at hfree

theorem content_install (a : StartArgs) (p q : Ptr) :
    (s.install a p).content q
      = if p = q then some (a.pipelineStats none s.firstFreeId) else s.content q :=
  content_write (s := s.redirect p .leaked) p q _

theorem mem_install {a : StartArgs} {p q : Ptr} :
    q ∈ (s.install a p).records ↔ p = q ∨ q ∈ s.records :=
  mem_write (s := s.redirect p .leaked)

/-- A pipeline of one func and no loops. -/
def oneFunc (pipelineName : Ptr) : StartArgs where
  pipelineName := pipelineName
  numFuncs := 1
  numLoops := 0
  funcNames _ := 0
  loopNames _ := 0
  funcShowThreadsProd _ := false
  funcShowThreadsCons _ := false
  loopShowThreads _ := false

/-- A new record in front of the list. -/
theorem Linked.install (h : s.Linked l) (a : StartArgs) {p : Ptr} (hp : p ∉ s.records) :
    (s.install a p).Linked (p :: l) where
  chain := by
    have hnext := fun q => next_write (s := s.redirect p .leaked) p q
      (a.pipelineStats s.pipelines s.firstFreeId)
    refine .cons ((hnext p).trans (if_pos rfl)) (h.chain.congr fun q hq => ?_)
    refine (hnext q).trans (if_neg fun heq => ?_)
    rw [heq] at hp
    exact hp ((h.mem q).mp hq)
  mem q := by
    rw [mem_install, ← h.mem q, List.mem_cons, eq_comm]

/-- What a start does when no record is the one it looks for. -/
theorem Linked.pipelineStart (h : s.Linked l) {a : StartArgs}
    (hnew : ∀ p stats, s.content p = some stats → a.names stats = false) (m : Mallocs) :
    s.pipelineStart a m = some (match s.malloc m with
      | none => { ret := -1, state := s, effects := [] }
      | some p =>
        if m.arrays a.numLoops then
          { ret := s.firstFreeId, state := s.install a p, effects := [.papiHalideInitialize] }
        else
          { ret := -1, state := { s.redirect p .leaked with records := s.records.erase p },
            effects := [.free p] }) := by
  have hfind : s.find a.names = some none := by
    rcases h.find a.names with ⟨hfind, _⟩ | ⟨_, p, _, _, _, htest⟩
    · exact hfind
    · obtain ⟨stats, hstats, hnames⟩ := (Option.any_eq_true _ _).mp htest
      have hold := hnew p _ (content_of_getElem? hstats)
      change a.names stats = false at hold
      rw [hold] at hnames
      cases hnames
  rw [PapiState.pipelineStart, hfind]
  cases s.malloc m with
  | none => rfl
  | some p => cases m.arrays a.numLoops <;> rfl

theorem Linked.not_names (h : s.Linked []) (a : StartArgs) (p : Ptr) (stats : PipelineStats)
    (hstats : s.content p = some stats) : a.names stats = false := by
  have hp : p ∈ s.records := by
    rw [mem_iff_content, hstats]
    rfl
  exact absurd ((h.mem p).mpr hp) List.not_mem_nil

/-! ### Reporting and ending -/

theorem Linked.reportUnlocked (h : s.Linked l) :
    s.reportUnlocked = some { ret := 0, state := s, effects := l.filterMap s.report } := by
  rw [PapiState.reportUnlocked, follow_eq_some_iff.mpr h.chain]
  rfl

/-- Every record is freed; nothing else changes but pointers into the records. -/
structure Emptied (s s' : PapiState) : Prop where
  records : ∀ p, p ∉ s'.records
  lastCounters : s'.lastCounters = none ↔ s.lastCounters = none
  others : s' = { s with
    pipelines := none
    records := s'.records
    lastCounters := s'.lastCounters
    lastCountersUsed := s'.lastCountersUsed }

theorem Emptied.linked {s s' : PapiState} (h : Emptied s s') : s'.Linked [] where
  chain := by
    rw [h.others]
    exact .nil
  mem p := iff_of_false List.not_mem_nil (h.records p)

theorem emptied_initial : Emptied initial initial :=
  ⟨fun _ => TreeMap.not_mem_emptyc, Iff.rfl, rfl⟩

theorem linked_initial : initial.Linked [] := emptied_initial.linked

theorem Linked.pop {p : Ptr} {stats : PipelineStats} (h : s.Linked (p :: l))
    (hstats : s.records[p]? = some stats) : (s.pop p stats).Linked l := by
  have hnodup := List.nodup_cons.mp h.chain.nodup
  obtain ⟨q, hp, hl⟩ := h.chain.tail
  rw [next, hstats] at hp
  cases hp
  have hnext : ∀ q, p ≠ q → (s.pop p stats).next q = s.next q := by
    intro q hne
    rw [next, next]
    change ((s.records.erase p)[q]?).map _ = _
    rw [TreeMap.getElem?_erase, if_neg (by simpa using hne)]
  refine ⟨hl.congr fun q hq => hnext q ?_, fun q => ?_⟩
  · intro heq
    rw [heq] at hnodup
    exact hnodup.1 hq
  · change q ∈ l ↔ q ∈ s.records.erase p
    rw [TreeMap.mem_erase, ← h.mem q]
    have hp : p ∉ l := hnodup.1
    simp only [ne_eq, Nat.compare_eq_eq, List.mem_cons]
    grind

theorem Linked.popAll (h : s.Linked l) {rounds : Nat} (hrounds : l.length ≤ rounds) :
    ∃ s', popAll rounds s = some (s', l.map .free) ∧ Emptied s s' := by
  induction l generalizing s rounds with
  | nil =>
    have hnull : s.pipelines = none := h.chain.head
    refine ⟨s, ?_, fun p => (h.mem p).not.mp List.not_mem_nil, Iff.rfl, ?_⟩
    · cases rounds with
      | zero => rw [PapiState.popAll, if_pos hnull]; rfl
      | succ rounds => rw [PapiState.popAll, hnull]; rfl
    · rw [← hnull]
  | cons p l ih =>
    have hfirst : s.pipelines = some p := h.chain.head
    obtain ⟨stats, hstats⟩ := mem_iff_getElem?.mp ((h.mem p).mp List.mem_cons_self)
    cases rounds with
    | zero => cases hrounds
    | succ rounds =>
      obtain ⟨s', hrest, hemptied⟩ := ih (h.pop hstats) (Nat.le_of_succ_le_succ hrounds)
      refine ⟨s', ?_, hemptied.records, ?_, ?_⟩
      · rw [PapiState.popAll, hfirst]
        simp [hstats, hrest]
      · rw [hemptied.lastCounters]
        exact Option.map_eq_none_iff
      · exact hemptied.others

theorem Linked.resetUnlocked (h : s.Linked l) :
    ∃ s', s.resetUnlocked = some { ret := 0, state := s', effects := l.map .free } ∧
      Emptied { s with firstFreeId := 0 } s' := by
  obtain ⟨s', hpop, hemptied⟩ := h.popAll (length_le_size h.chain)
  refine ⟨{ s' with firstFreeId := 0 }, ?_, hemptied.records, hemptied.lastCounters, ?_⟩
  · rw [PapiState.resetUnlocked, hpop]
    rfl
  · exact congrArg (fun t : PapiState => { t with firstFreeId := 0 }) hemptied.others

theorem Linked.shutdown (h : s.Linked l) (hthread : s.samplingThread = true) :
    ∃ s', s.shutdown = some ⟨0, s', .papiHalideShutdown :: l.filterMap s.report ++ l.map .free⟩ ∧
      Emptied { s.joinSamplingThread with firstFreeId := 0 } s' := by
  have hjoined : s.joinSamplingThread.Linked l := ⟨h.chain, h.mem⟩
  obtain ⟨s', hreset, hemptied⟩ := hjoined.resetUnlocked
  refine ⟨s', ?_, hemptied⟩
  rw [PapiState.shutdown, if_pos hthread, hjoined.reportUnlocked]
  simp only [Option.bind_eq_bind, Option.bind_some, hreset]
  rfl

/-- The end of a pipeline reports and frees every record there is. -/
theorem Linked.pipelineEnd (h : s.Linked l) (hthread : s.samplingThread = true) :
    ∃ s', s.pipelineEnd = some ⟨0, s', .papiHalideShutdown :: l.filterMap s.report ++ l.map .free⟩ ∧
      Emptied { s.joinSamplingThread with firstFreeId := 0, currentPipelineStats := none } s' := by
  have houtside : Linked { s with currentFunc := outsideOfHalide } l := ⟨h.chain, h.mem⟩
  obtain ⟨s', hshutdown, hemptied⟩ := houtside.shutdown hthread
  refine ⟨{ s' with currentPipelineStats := none }, ?_, hemptied.records, hemptied.lastCounters, ?_⟩
  · rw [PapiState.pipelineEnd, hshutdown]
    rfl
  · exact congrArg (fun t : PapiState => { t with currentPipelineStats := none }) hemptied.others

end PapiState

end ProfHalide
