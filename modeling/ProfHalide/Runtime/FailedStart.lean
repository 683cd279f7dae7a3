import ProfHalide.Runtime.Markers

/-!
# Starts that fail

A start that runs out of memory gives back what it has, and with it the record: its own, or one that it
has found on the list.
-/

namespace ProfHalide

open Std Chain Machine

/-- What a start gets from the allocator. -/
inductive Block where
  | record (p : Ptr)
  | funcs
  | loops
  deriving DecidableEq, Repr

structure Memory where
  allocated : List Block
  freed : List Block

/-- A pipeline that is started has at least one func. -/
def Op.Sized : Op → Prop
  | .pipelineStart a _ => 1 ≤ a.numFuncs
  | _ => True

namespace PapiState

variable (s : PapiState)

/-- What a start allocates, and what it frees. A record that it finds is not allocated anew, its arrays
are; when one of them is missing, the others are freed and the record last. -/
def startMemory (a : StartArgs) (m : Mallocs) : Option Memory := do
  let found ← s.find a.names
  match (found.map Prod.snd).or (s.malloc m) with
  | none => return { allocated := [], freed := [] }
  | some p =>
      let record := if found.isSome then [] else [Block.record p]
      let funcs := if m.funcs then [Block.funcs] else []
      let loops := if 0 < a.numLoops && m.loops then [Block.loops] else []
      let allocated := record ++ funcs ++ loops
      if m.arrays a.numLoops then return { allocated, freed := [] }
      else return { allocated, freed := funcs ++ loops ++ [.record p] }

/-- The list, the records on it and what a start counts are as they were. -/
structure Unchanged (s s' : PapiState) : Prop where
  pipelines : s'.pipelines = s.pipelines
  records : ∀ p, Meets s.next s.pipelines p → s'.records[p]? = s.records[p]?
  firstFreeId : s'.firstFreeId = s.firstFreeId
  currentPipelineStats : s'.currentPipelineStats = s.currentPipelineStats

/-- A start that returns an error has changed nothing, the list meets allocated records only, and what the
start allocated is freed. -/
def FailsCleanly (a : StartArgs) (m : Mallocs) : Prop :=
  ∀ answer memory, s.pipelineStart a m = some answer → s.startMemory a m = some memory →
    answer.ret = -1 → s.Unchanged answer.state ∧
      (∀ p, Meets answer.state.next answer.state.pipelines p → p ∈ answer.state.records) ∧
      ∀ b ∈ memory.allocated, b ∈ memory.freed


/-- What the calls lead to, if every pipeline that is started has at least one func. -/
def Reachable : Prop :=
  ∃ ops effects, (∀ op ∈ ops, Op.Sized op) ∧ Machine.run step initial ops = some (s, effects)

variable {s}

/-! ### The first free id -/

theorem firstFreeId_resetUnlocked {answer : Answer} (h : s.resetUnlocked = some answer) :
    answer.state.firstFreeId = 0 := by
  obtain ⟨_, _, h⟩ := Option.bind_eq_some_iff.mp h
  cases h
  rfl

theorem firstFreeId_shutdown {answer : Answer} (h : s.shutdown = some answer) :
    answer.state.firstFreeId = 0 ∨ answer.state.firstFreeId = s.firstFreeId := by
  unfold shutdown at h
  split at h
  · obtain ⟨reported, _, h⟩ := Option.bind_eq_some_iff.mp h
    obtain ⟨reset, hreset, h⟩ := Option.bind_eq_some_iff.mp h
    have hzero := firstFreeId_resetUnlocked hreset
    cases h
    exact Or.inl hzero
  · cases h
    exact Or.inr rfl

/-- A call keeps the first free id, sets it to 0, or goes on from it by the funcs of a pipeline. -/
theorem firstFreeId_answer {op : Op} {answer : Answer} (h : s.answer op = some answer) :
    answer.state.firstFreeId = 0 ∨ answer.state.firstFreeId = s.firstFreeId ∨
    ∃ a m, op = .pipelineStart a m ∧ answer.state.firstFreeId = s.firstFreeId + a.numFuncs := by
  have henter : ∀ {r : Region}, s.enter r = some answer → answer.state.firstFreeId = s.firstFreeId := by
    intro r h
    obtain ⟨_, rfl⟩ := enter_eq_some h
    rfl
  have hleave : ∀ {r : Region} {thread : ThreadIndex}, s.leave r thread = some answer →
      answer.state.firstFreeId = s.firstFreeId := by
    intro r thread h
    obtain ⟨_, _, _, rfl⟩ := leave_eq_some h
    rfl
  cases op with
  | pipelineStart a m =>
    obtain ⟨found, _, h⟩ := Option.bind_eq_some_iff.mp h
    dsimp only at h
    split at h
    · cases h
      exact Or.inr (Or.inl rfl)
    · split at h <;> cases h
      · exact Or.inr (Or.inr ⟨a, m, rfl, rfl⟩)
      · exact Or.inr (Or.inl rfl)
  | pipelineEnd =>
    obtain ⟨shut, hshut, h⟩ := Option.bind_eq_some_iff.mp h
    cases h
    exact (firstFreeId_shutdown hshut).imp_right Or.inl
  | reset => exact Or.inl (firstFreeId_resetUnlocked h)
  | shutdown => exact (firstFreeId_shutdown h).imp_right Or.inl
  | enterCurrentFunc t p => exact Or.inr (Or.inl (henter h))
  | enterOverheadRegion t => exact Or.inr (Or.inl (henter h))
  | enterLoop id => exact Or.inr (Or.inl (henter h))
  | leaveCurrentFunc t p thread => exact Or.inr (Or.inl (hleave h))
  | leaveOverheadRegion t thread => exact Or.inr (Or.inl (hleave h))
  | leaveLoop id thread => exact Or.inr (Or.inl (hleave h))
  | decrActiveThreads thread =>
    refine Or.inr (Or.inl ?_)
    rcases decrActiveThreads_eq_some h with hstate | ⟨_, _, _, _, hstate⟩
    · rw [hstate]
    · rw [hstate]
      rfl
  | billFunc funcId time activeThreads =>
    refine Or.inr (Or.inl ?_)
    rw [globals_billFunc h]
  | report =>
    obtain ⟨_, _, h⟩ := Option.bind_eq_some_iff.mp h
    cases h
    exact Or.inr (Or.inl rfl)
  | _ =>
    cases h
    exact Or.inr (Or.inl rfl)

theorem Reachable.firstFreeId_nonneg (h : s.Reachable) : 0 ≤ s.firstFreeId := by
  obtain ⟨ops, effects, hsized, hrun⟩ := h
  have hkeep : ∀ (s : PapiState) (op : Op) (s' : PapiState) (out : List Effect), 0 ≤ s.firstFreeId →
      op.Sized → s.step op = some (s', out) → 0 ≤ s'.firstFreeId := by
    intro s op s' out hs hop hstep
    obtain ⟨answer, hanswer, heq⟩ := Option.map_eq_some_iff.mp hstep
    cases heq
    rcases firstFreeId_answer hanswer with hzero | hsame | ⟨a, m, rfl, hnext⟩
    · exact hzero.ge
    · exact hsame ▸ hs
    · have hfuncs : 1 ≤ a.numFuncs := hop
      omega
  exact run_keeps hkeep hsized le_rfl hrun

/-! ### When a start fails -/

theorem search_of_test {a : StartArgs} {p : Ptr} (hmeets : Meets s.next s.pipelines p)
    (htest : s.test p a.names = true) : ∃ r, s.find a.names = some (some r) := by
  have hp : (s.next p).isSome := by
    obtain ⟨stats, hstats, _⟩ := (Option.any_eq_true _ _).mp htest
    rw [next, hstats]
    rfl
  refine hmeets.search hp htest (fun p hp => TreeMap.mem_keys.mpr (mem_of_next hp)) ?_ none
  exact TreeMap.length_keys.le

theorem Unchanged.refl : s.Unchanged s := ⟨rfl, fun _ _ => rfl, rfl, rfl⟩

/-- A record of its own that a start frees again was on no list. -/
theorem getElem?_erase {p : Ptr} (hp : p ∉ s.records) (q : Ptr) :
    (s.records.erase p)[q]? = s.records[q]? := by
  rw [TreeMap.getElem?_erase]
  split
  · next heq =>
    rw [Nat.compare_eq_eq] at heq
    exact (TreeMap.getElem?_eq_none (heq ▸ hp)).symm
  · rfl

/-- A search that finds nothing has met null, so all that is on the list is allocated. -/
theorem mem_of_meets {a : StartArgs} (h : s.find a.names = some none) {p : Ptr}
    (hp : Meets s.next s.pipelines p) : p ∈ s.records := by
  obtain ⟨l, hl⟩ := isChain_of_search h
  exact mem_of_next (hl.allocated (hl.mem_of_meets hp))

/-- What a start does that finds a record. -/
theorem pipelineStart_found {a : StartArgs} (m : Mallocs) {prev : Option Ptr} {p : Ptr}
    (h : s.find a.names = some (some (prev, p))) : s.pipelineStart a m =
      if m.arrays a.numLoops then
        some { ret := s.firstFreeId, state := s.install a p, effects := [.papiHalideInitialize] }
      else some ⟨-1, { s.redirect p .leaked with records := s.records.erase p }, [.free p]⟩ := by
  rw [pipelineStart, h]
  dsimp only [Option.bind_eq_bind, Option.bind_some, Option.map_some, Option.some_or]
  split <;> rfl

theorem failsCleanly_of_not_found {a : StartArgs} {m : Mallocs} (hnonneg : 0 ≤ s.firstFreeId)
    (h : s.find a.names = some none) : s.FailsCleanly a m := by
  intro answer memory hanswer hmemory hret
  rw [pipelineStart, h] at hanswer
  rw [startMemory, h] at hmemory
  dsimp only [Option.bind_eq_bind, Option.bind_some, Option.map_none, Option.none_or] at hanswer hmemory
  cases hmalloc : s.malloc m with
  | none =>
    rw [hmalloc] at hanswer hmemory
    cases hanswer
    cases hmemory
    exact ⟨.refl, fun p => mem_of_meets h, fun b hb => absurd hb List.not_mem_nil⟩
  | some p =>
    rw [hmalloc] at hanswer hmemory
    dsimp only at hanswer hmemory
    have hp := malloc_eq_some hmalloc
    split at hanswer
    · cases hanswer
      dsimp only at hret
      omega
    · next hmissing =>
      rw [if_neg hmissing] at hmemory
      cases hanswer
      cases hmemory
      let freed : PapiState := { s.redirect p .leaked with records := s.records.erase p }
      have hrecords : ∀ q, freed.records[q]? = s.records[q]? := getElem?_erase hp
      have hnext : freed.next = s.next := by
        funext q
        rw [next, hrecords, next]
      refine ⟨⟨rfl, fun q _ => hrecords q, rfl, rfl⟩, fun q hq => ?_, fun b hb => ?_⟩
      · have hq : q ∈ s.records := mem_of_meets h (hnext ▸ hq)
        rw [TreeMap.mem_iff_isSome_getElem?] at hq ⊢
        rwa [hrecords]
      · simp only [List.mem_append] at hb ⊢
        rcases hb with (hb | hb) | hb
        · exact Or.inr hb
        · exact Or.inl (Or.inl hb)
        · exact Or.inl (Or.inr hb)

/-- A record that is found without memory for its arrays is freed, although the list meets it. -/
theorem not_failsCleanly_of_meets {a : StartArgs} {m : Mallocs} {p : Ptr}
    (hmeets : Meets s.next s.pipelines p) (htest : s.test p a.names = true)
    (hmissing : m.arrays a.numLoops = false) : ¬ s.FailsCleanly a m := by
  intro hclean
  obtain ⟨⟨prev, q⟩, hfind⟩ := search_of_test hmeets htest
  obtain ⟨hq, hallocated, _⟩ := meets_of_search hfind
  have hanswer := pipelineStart_found m hfind
  rw [hmissing, if_neg Bool.false_ne_true] at hanswer
  obtain ⟨memory, hmemory⟩ : ∃ memory, s.startMemory a m = some memory := by
    rw [startMemory, hfind]
    dsimp only [Option.bind_eq_bind, Option.bind_some, Option.map_some, Option.some_or]
    rw [hmissing, if_neg Bool.false_ne_true]
    exact ⟨_, rfl⟩
  have hsame := (hclean _ _ hanswer hmemory rfl).1.records q hq
  change (s.records.erase q)[q]? = s.records[q]? at hsame
  rw [TreeMap.getElem?_erase_self] at hsame
  rw [next, Option.isSome_map, ← hsame] at hallocated
  cases hallocated

/-- A start changes nothing when it fails, exactly if it has memory for the arrays or no record on the list
is the one that it looks for. -/
theorem failsCleanly_iff (hreachable : s.Reachable) {a : StartArgs} (m : Mallocs) :
    s.FailsCleanly a m ↔ ∀ p, Meets s.next s.pipelines p → s.test p a.names = true →
      m.arrays a.numLoops = true := by
  constructor
  · intro hclean p hmeets htest
    by_contra hmissing
    exact not_failsCleanly_of_meets hmeets htest (Bool.eq_false_iff.mpr hmissing) hclean
  · intro harrays answer memory hanswer hmemory hret
    have hnonneg := hreachable.firstFreeId_nonneg
    cases hfind : s.find a.names with
    | none =>
      rw [pipelineStart, hfind] at hanswer
      cases hanswer
    | some found =>
      cases found with
      | none => exact failsCleanly_of_not_found hnonneg hfind answer memory hanswer hmemory hret
      | some r =>
        obtain ⟨prev, p⟩ := r
        obtain ⟨hmeets, _, htest⟩ := meets_of_search hfind
        rw [pipelineStart_found m hfind, if_pos (harrays p hmeets htest)] at hanswer
        cases hanswer
        dsimp only at hret
        omega

theorem reachable_started : (initial.install (oneFunc 7) 1).Reachable := by
  refine ⟨[.pipelineStart (oneFunc 7) ⟨some 1, true, true⟩], [.papiHalideInitialize], ?_, rfl⟩
  intro op hop
  rw [List.mem_singleton.mp hop]
  exact le_rfl

/-- With a record on the list, another pipeline is started, and there is no memory for its funcs. -/
theorem failsCleanly_iff_started :
    (initial.install (oneFunc 7) 1).FailsCleanly (oneFunc 8) ⟨some 2, false, true⟩ := by
  refine (failsCleanly_iff reachable_started ⟨some 2, false, true⟩).mpr fun p hmeets htest => ?_
  have hlinked := linked_initial.install (oneFunc 7) (p := 1) (by decide)
  have hp := hlinked.chain.mem_of_meets hmeets
  rw [List.mem_singleton.mp hp] at htest
  exact absurd htest (by decide)

/-- A pipeline is started a second time, and there is no memory for its funcs. -/
theorem not_failsCleanly_restart : ¬ ∀ (s : PapiState) (a : StartArgs) (m : Mallocs), s.Reachable →
    1 ≤ a.numFuncs → 0 ≤ a.numLoops → s.FailsCleanly a m := by
  intro h
  exact not_failsCleanly_of_meets .head (by decide) (by decide)
    (h (initial.install (oneFunc 7) 1) (oneFunc 7) ⟨none, false, true⟩ reachable_started le_rfl le_rfl)

end PapiState

end ProfHalide
