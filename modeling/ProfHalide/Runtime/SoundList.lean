import ProfHalide.Runtime.PipelineList
import Mathlib.Data.List.Count

/-!
# Runs over the list of pipelines

The list meets every record once and then null, and the records number their funcs apart, exactly as
long as no start names a pipeline that has a record: a start that takes up a record links it to the list
a second time.
-/

namespace ProfHalide

open Std Chain Machine

namespace PapiState

variable {s : PapiState} {l : List Ptr}

/-- No func id belongs to two records, and none was handed out beyond the first free one. -/
structure Apart (s : PapiState) : Prop where
  disjoint : ∀ p q statsP statsQ, s.content p = some statsP → s.content q = some statsQ → p ≠ q →
    ∀ funcId, ¬ (statsP.containsFunc funcId = true ∧ statsQ.containsFunc funcId = true)
  within : ∀ p stats, s.content p = some stats →
    0 ≤ stats.firstFuncId ∧ stats.firstFuncId + stats.numFuncs ≤ s.firstFreeId
  nonneg : 0 ≤ s.firstFreeId

/-- The list ends, having met every record once; the func ids of the records are apart; a report ends
and a reset frees each record once. -/
structure SoundList (s : PapiState) : Prop where
  visits : ∃ l, IsChain s.next s.pipelines l ∧ l.Nodup ∧ ∀ p, p ∈ l ↔ p ∈ s.records
  apart : s.Apart
  reports : s.reportUnlocked.isSome
  resets : ∃ answer, s.resetUnlocked = some answer ∧ answer.state.pipelines = none ∧
    ∀ p, answer.effects.count (.free p) = if p ∈ s.records then 1 else 0

theorem Linked.soundList (h : s.Linked l) (hapart : s.Apart) : s.SoundList := by
  obtain ⟨s', hreset, hemptied⟩ := h.resetUnlocked
  refine ⟨⟨l, h.chain, h.chain.nodup, h.mem⟩, hapart, ?_, _, hreset, ?_, fun p => ?_⟩
  · rw [h.reportUnlocked]
    rfl
  · rw [hemptied.others]
  · have hfree : Function.Injective Effect.free := fun _ _ heq => Effect.free.inj heq
    rw [List.count_map_of_injective l Effect.free hfree, h.chain.nodup.count]
    exact if_congr (h.mem p) rfl rfl

/-- Whether a start would take up a record that exists. -/
def Restarts (s : PapiState) (a : StartArgs) : Prop :=
  ∃ (p : Ptr) (stats : PipelineStats), s.records[p]? = some stats ∧ a.names stats = true

theorem not_restarts {a : StartArgs} (h : ¬ s.Restarts a) {p : Ptr} {stats : PipelineStats}
    (hstats : s.content p = some stats) : a.names stats = false := by
  obtain ⟨old, hold, rfl⟩ := Option.map_eq_some_iff.mp hstats
  exact Bool.eq_false_iff.mpr fun hnames => h ⟨p, old, hold, hnames⟩

theorem containsFunc_pipelineStats {a : StartArgs} {next : Option Ptr} {firstFuncId funcId : Int} :
    (a.pipelineStats next firstFuncId).containsFunc funcId = true ↔
      firstFuncId ≤ funcId ∧ funcId < firstFuncId + a.numFuncs := by
  rw [PipelineStats.containsFunc, Bool.and_eq_true, decide_eq_true_eq, decide_eq_true_eq]
  rfl

theorem Apart.install (h : s.Apart) {a : StartArgs} (hfuncs : 0 ≤ a.numFuncs) (p : Ptr) :
    (s.install a p).Apart := by
  have hfree : (s.install a p).firstFreeId = s.firstFreeId + a.numFuncs := rfl
  have hold : ∀ q stats funcId, s.content q = some stats → stats.containsFunc funcId = true →
      ¬ s.firstFreeId ≤ funcId := by
    intro q stats funcId hq hcontains
    have hwithin := h.within q stats hq
    simp only [PipelineStats.containsFunc, Bool.and_eq_true, decide_eq_true_eq] at hcontains
    omega
  refine ⟨fun q r statsQ statsR hq hr hne funcId hboth => ?_, fun q stats hq => ?_, ?_⟩
  · rw [content_install] at hq hr
    obtain ⟨hfirst, hsecond⟩ := hboth
    split at hq
    · next heq =>
      rw [if_neg (heq ▸ hne)] at hr
      cases hq
      exact hold r statsR funcId hr hsecond (containsFunc_pipelineStats.mp hfirst).1
    · split at hr
      · cases hr
        exact hold q statsQ funcId hq hfirst (containsFunc_pipelineStats.mp hsecond).1
      · exact h.disjoint q r statsQ statsR hq hr hne funcId ⟨hfirst, hsecond⟩
  · rw [content_install] at hq
    rw [hfree]
    split at hq
    · cases hq
      exact ⟨h.nonneg, le_rfl⟩
    · have hwithin := h.within q stats hq
      omega
  · have hnonneg := h.nonneg
    omega

theorem Emptied.apart {s s' : PapiState} (h : Emptied s s') (hnonneg : 0 ≤ s.firstFreeId) :
    s'.Apart := by
  have hnone : ∀ p, s'.content p = none := by
    intro p
    exact Option.not_isSome_iff_eq_none.mp fun hsome => h.records p (mem_iff_content.mpr hsome)
  refine ⟨fun p _ _ _ hp _ => ?_, fun p _ hp => ?_, ?_⟩
  · rw [hnone p] at hp
    cases hp
  · rw [hnone p] at hp
    cases hp
  · rw [h.others]
    exact hnonneg

/-- Func ids stay apart when the records keep theirs. -/
theorem Apart.of_content (h : s.Apart) {s' : PapiState} (hfree : s'.firstFreeId = s.firstFreeId)
    (hcontent : ∀ p stats', s'.content p = some stats' → ∃ stats, s.content p = some stats ∧
      stats'.firstFuncId = stats.firstFuncId ∧ stats'.numFuncs = stats.numFuncs) : s'.Apart := by
  refine ⟨fun p q statsP statsQ hp hq hne funcId hboth => ?_, fun p stats hp => ?_, ?_⟩
  · obtain ⟨oldP, holdP, hfirstP, hnumP⟩ := hcontent p statsP hp
    obtain ⟨oldQ, holdQ, hfirstQ, hnumQ⟩ := hcontent q statsQ hq
    rw [PipelineStats.containsFunc, hfirstP, hnumP, PipelineStats.containsFunc, hfirstQ, hnumQ] at hboth
    exact h.disjoint p q oldP oldQ holdP holdQ hne funcId hboth
  · obtain ⟨old, hold, hfirst, hnum⟩ := hcontent p stats hp
    rw [hfirst, hnum, hfree]
    exact h.within p old hold
  · rw [hfree]
    exact h.nonneg

/-- The record that a func id belongs to. -/
def owner (s : PapiState) (funcId : Int) : Option Ptr :=
  s.records.keys.find? fun p => s.test p (·.containsFunc funcId)

/-- A func id has an owner exactly if a record contains it. -/
theorem owner_eq_none_iff {funcId : Int} : s.owner funcId = none ↔
    ∀ p stats, s.content p = some stats → stats.containsFunc funcId = false := by
  rw [owner, List.find?_eq_none]
  constructor
  · intro h p stats hstats
    obtain ⟨old, hold, rfl⟩ := Option.map_eq_some_iff.mp hstats
    have htest := h p (TreeMap.mem_keys.mpr (mem_iff_getElem?.mpr ⟨old, hold⟩))
    rw [test, hold] at htest
    exact Bool.eq_false_iff.mpr htest
  · intro h p _ htest
    obtain ⟨old, hold, hcontains⟩ := (Option.any_eq_true _ _).mp htest
    have hnone := h p _ (content_of_getElem? hold)
    change old.containsFunc funcId = false at hnone
    rw [hnone] at hcontains
    cases hcontains

/-- With the func ids apart, the owner is the only record that contains the id. -/
theorem Apart.owner_eq_some_iff (h : s.Apart) {funcId : Int} {p : Ptr} : s.owner funcId = some p ↔
    ∃ stats, s.content p = some stats ∧ stats.containsFunc funcId = true := by
  have hfound : ∀ q, s.owner funcId = some q →
      ∃ stats, s.content q = some stats ∧ stats.containsFunc funcId = true := by
    intro q hq
    have htest : s.test q (·.containsFunc funcId) = true := by
      simpa using List.find?_some hq
    obtain ⟨old, hold, hcontains⟩ := (Option.any_eq_true _ _).mp htest
    exact ⟨_, content_of_getElem? hold, hcontains⟩
  refine ⟨hfound p, fun ⟨stats, hstats, hcontains⟩ => ?_⟩
  cases howner : s.owner funcId with
  | none =>
    rw [owner_eq_none_iff.mp howner p stats hstats] at hcontains
    cases hcontains
  | some q =>
    obtain ⟨statsQ, hstatsQ, hcontainsQ⟩ := hfound q howner
    by_cases hne : p = q
    · rw [hne]
    · exact absurd ⟨hcontains, hcontainsQ⟩ (h.disjoint p q stats statsQ hstats hstatsQ hne funcId)

def LinkedApart (s : PapiState) : Prop := ∃ l, s.Linked l ∧ s.Apart

/-- A sample keeps the list and the func ids, and is billed to the record that owns the func. -/
theorem LinkedApart.billFunc (h : s.LinkedApart) (funcId : Int) (time : UInt64) (activeThreads : Int) :
    ∃ s', s.billFunc funcId time activeThreads = some { ret := 0, state := s', effects := [] } ∧
      s'.LinkedApart ∧ s' = { s with pipelines := s'.pipelines, records := s'.records } ∧
      ∀ q, s'.content q = if s.owner funcId = some q
        then (s.content q).map (·.bill funcId time activeThreads) else s.content q := by
  obtain ⟨l, hlinked, hapart⟩ := h
  obtain ⟨s', l', hbill, hlinked', _, hglobals, hcontent⟩ :=
    hlinked.billFunc funcId time activeThreads
  have howned : ∀ q, s'.content q = if s.owner funcId = some q
      then (s.content q).map (·.bill funcId time activeThreads) else s.content q := by
    intro q
    rcases hcontent with ⟨rfl, hnone⟩ | ⟨p, stats, hp, hcontains, hall⟩
    · rw [owner_eq_none_iff.mpr hnone, if_neg (by simp)]
    · rw [hapart.owner_eq_some_iff.mpr ⟨stats, hp, hcontains⟩, hall]
      by_cases heq : p = q
      · rw [if_pos heq, if_pos (congrArg some heq), ← heq, hp]
        rfl
      · rw [if_neg heq, if_neg (by simp [heq])]
  refine ⟨s', hbill, ⟨l', hlinked', hapart.of_content ?_ fun q stats' hstats' => ?_⟩, hglobals, howned⟩
  · rw [hglobals]
  · rw [howned] at hstats'
    split at hstats'
    · obtain ⟨stats, hstats, rfl⟩ := Option.map_eq_some_iff.mp hstats'
      exact ⟨stats, hstats, rfl, rfl⟩
    · exact ⟨stats', hstats', rfl, rfl⟩

/-! ### Runs of the calls that relink the list -/

/-- A call that relinks the list, with memory for all that a start allocates. -/
def Relinks (s : PapiState) : Op → Prop
  | .pipelineStart a m =>
      1 ≤ a.numFuncs ∧ m.arrays a.numLoops = true ∧ (¬ s.Restarts a → (s.malloc m).isSome)
  | .billFunc _ _ _ | .report | .reset | .shutdown => True
  | _ => False

/-- A call does not start a pipeline that has a record. -/
def StartsFresh (s : PapiState) (op : Op) : Prop :=
  ∀ a m, op = .pipelineStart a m → ¬ s.Restarts a

/-- Each call returns, and the list is sound before and after it. -/
def StaysSound (s : PapiState) (ops : List Op) : Prop :=
  s.SoundList ∧ Along step (fun _ _ s' _ => s'.SoundList) s ops

theorem linkedApart_initial : initial.LinkedApart :=
  ⟨[], linked_initial, emptied_initial.apart le_rfl⟩

theorem Linked.reset_linkedApart (h : s.Linked l) :
    ∃ s' effects, s.step .reset = some (s', effects) ∧ s'.LinkedApart := by
  obtain ⟨s', hreset, hemptied⟩ := h.resetUnlocked
  refine ⟨s', l.map .free, ?_, [], hemptied.linked, hemptied.apart le_rfl⟩
  rw [step, answer, hreset]
  rfl

theorem LinkedApart.shutdown (h : s.LinkedApart) :
    ∃ s' effects, s.step .shutdown = some (s', effects) ∧ s'.LinkedApart := by
  obtain ⟨l, hlinked, hapart⟩ := h
  cases hthread : s.samplingThread with
  | false =>
    refine ⟨s, [], ?_, l, hlinked, hapart⟩
    rw [step, answer, PapiState.shutdown, if_neg (by simp [hthread])]
    rfl
  | true =>
    obtain ⟨s', hshutdown, hemptied⟩ := hlinked.shutdown hthread
    refine ⟨s', .papiHalideShutdown :: l.filterMap s.report ++ l.map .free, ?_, [], hemptied.linked,
      hemptied.apart le_rfl⟩
    rw [step, answer, hshutdown]
    rfl

theorem LinkedApart.start (h : s.LinkedApart) {a : StartArgs} {m : Mallocs} (hfuncs : 1 ≤ a.numFuncs)
    (harrays : m.arrays a.numLoops = true) (hmalloc : (s.malloc m).isSome) (hnew : ¬ s.Restarts a) :
    ∃ s' effects, s.step (.pipelineStart a m) = some (s', effects) ∧ s'.LinkedApart := by
  obtain ⟨l, hlinked, hapart⟩ := h
  obtain ⟨p, hp⟩ := Option.isSome_iff_exists.mp hmalloc
  have hstart := hlinked.pipelineStart (fun _ _ hstats => not_restarts hnew hstats) m
  refine ⟨s.install a p, [.papiHalideInitialize], ?_, p :: l, hlinked.install a (malloc_eq_some hp),
    hapart.install (by omega) p⟩
  rw [step, answer, hstart, hp]
  simp [harrays]

/-- One call. -/
theorem LinkedApart.step (h : s.LinkedApart) {op : Op} (hrelinks : s.Relinks op)
    (hfresh : s.StartsFresh op) :
    ∃ s' effects, s.step op = some (s', effects) ∧ s'.LinkedApart := by
  cases op with
  | pipelineStart a m =>
    obtain ⟨hfuncs, harrays, hmalloc⟩ := hrelinks
    exact h.start hfuncs harrays (hmalloc (hfresh a m rfl)) (hfresh a m rfl)
  | billFunc funcId time activeThreads =>
    obtain ⟨s', hbill, hs', _⟩ := h.billFunc funcId time activeThreads
    refine ⟨s', [], ?_, hs'⟩
    rw [PapiState.step, answer, hbill]
    rfl
  | report =>
    obtain ⟨l, hlinked, hapart⟩ := h
    refine ⟨s, l.filterMap s.report, ?_, l, hlinked, hapart⟩
    rw [PapiState.step, answer, hlinked.reportUnlocked]
    rfl
  | reset =>
    obtain ⟨l, hlinked, _⟩ := h
    exact hlinked.reset_linkedApart
  | shutdown => exact h.shutdown
  | _ => exact hrelinks.elim

/-- A record that is started again is met a second time on the way to null. -/
theorem LinkedApart.not_soundList_restart (h : s.LinkedApart) {a : StartArgs} {m : Mallocs}
    (harrays : m.arrays a.numLoops = true) (hrestarts : s.Restarts a) {s' : PapiState}
    {effects : List Effect} (hstart : s.step (.pipelineStart a m) = some (s', effects)) :
    ¬ s'.SoundList := by
  obtain ⟨l, hlinked, _⟩ := h
  obtain ⟨q, stats, hstats, hnames⟩ := hrestarts
  rcases hlinked.find a.names with ⟨_, hnone⟩ | ⟨pre, p, post, rfl, hfind, _⟩
  · have htest := hnone q ((hlinked.mem q).mpr (mem_iff_getElem?.mpr ⟨stats, hstats⟩))
    rw [test, hstats, Option.any_some, hnames] at htest
    cases htest
  · have heq : s.install a p = s' := by
      simp only [PapiState.step, answer, PapiState.pipelineStart, hfind, harrays, if_true,
        Option.map_some, Option.some_or, Option.bind_eq_bind, Option.bind_some, Option.pure_def,
        Option.some.injEq, Prod.mk.injEq] at hstart
      exact hstart.1
    have hnodup := hlinked.chain.nodup
    have hagree : ∀ r ∈ pre, s'.next r = s.next r := by
      intro r hr
      rw [← heq]
      refine (next_write (s := s.redirect p .leaked) p r _).trans (if_neg ?_)
      grind
    intro hsound
    obtain ⟨l', hchain, hnodup', _⟩ := hsound.visits
    have hfirst : s'.pipelines = some p := by rw [← heq]; rfl
    rw [hfirst] at hchain
    cases hchain with
    | @cons _ link tail hp htail =>
      have hlink : link = s.pipelines := by
        rw [← heq] at hp
        have hnext := (next_write (s := s.redirect p .leaked) p p
          (a.pipelineStats s.pipelines s.firstFreeId)).trans (if_pos rfl)
        exact (Option.some.inj (hnext.symm.trans hp)).symm
      rw [hlink] at htail
      exact (List.nodup_cons.mp hnodup').1 (hlinked.chain.mem_of_agree hagree htail)

theorem LinkedApart.staysSound_iff (h : s.LinkedApart) {ops : List Op}
    (hops : Admits PapiState.step Relinks s ops) :
    s.StaysSound ops ↔ Admits PapiState.step StartsFresh s ops := by
  have hsound : ∀ s : PapiState, s.LinkedApart → s.SoundList := by
    intro s hs
    obtain ⟨l, hlinked, hapart⟩ := hs
    exact hlinked.soundList hapart
  induction ops generalizing s with
  | nil => exact ⟨fun _ => trivial, fun _ => ⟨hsound s h, trivial⟩⟩
  | cons op ops ih =>
    obtain ⟨hrelinks, hrest⟩ := hops
    constructor
    · intro hstays
      obtain ⟨_, s₁, effects₁, hanswer, hsound₁, halong⟩ := hstays
      have hfresh : s.StartsFresh op := by
        intro a m hop hrestarts
        rw [hop] at hrelinks hanswer
        exact h.not_soundList_restart hrelinks.2.1 hrestarts hanswer hsound₁
      obtain ⟨s', effects, hstep, hs'⟩ := h.step hrelinks hfresh
      have hnext : s₁.LinkedApart := by
        rw [hstep] at hanswer
        cases hanswer
        exact hs'
      refine ⟨hfresh, fun s₂ effects₂ hanswer₂ => ?_⟩
      have heq : s₁ = s₂ := by
        rw [hanswer] at hanswer₂
        cases hanswer₂
        rfl
      rw [← heq]
      exact (ih hnext (hrest s₁ effects₁ hanswer)).mp ⟨hsound₁, halong⟩
    · intro hadmits
      obtain ⟨s', effects, hstep, hs'⟩ := h.step hrelinks hadmits.1
      have hstays := (ih hs' (hrest s' effects hstep)).mpr (hadmits.2 s' effects hstep)
      exact ⟨hsound s h, s', effects, hstep, hstays.1, hstays.2⟩

/-- The list stays sound exactly as long as no start names a pipeline that has a record. -/
theorem staysSound_iff_startsFresh {ops : List Op} (hops : Admits step Relinks initial ops) :
    initial.StaysSound ops ↔ Admits step StartsFresh initial ops :=
  linkedApart_initial.staysSound_iff hops

/-- A start with memory at the address. -/
def startAt (pipelineName p : Ptr) : Op := .pipelineStart (oneFunc pipelineName) ⟨some p, true, true⟩

/-- Two pipelines, a sample of the second in line, and the first once more after a reset. -/
def twoPipelines : List Op := [startAt 7 1, startAt 8 2, .billFunc 0 5 1, .reset, startAt 7 3, .shutdown]

theorem staysSound_iff_startsFresh_twoPipelines :
    initial.StaysSound twoPipelines ↔ Admits step StartsFresh initial twoPipelines := by
  refine staysSound_iff_startsFresh ?_
  refine .cons ⟨le_rfl, by decide, fun _ => by decide⟩ rfl ?_
  refine .cons ⟨le_rfl, by decide, fun _ => by decide⟩ rfl ?_
  refine .cons trivial rfl (.cons trivial rfl ?_)
  exact .cons ⟨le_rfl, by decide, fun _ => by decide⟩ rfl (.cons trivial rfl trivial)

/-- A pipeline started for the second time is linked to itself. -/
theorem not_staysSound_startTwice :
    ¬ ∀ ops, Admits step Relinks initial ops → initial.StaysSound ops := by
  have hrecord : (initial.step (startAt 7 1)).all
      (fun r => r.1.test 1 (oneFunc 7).names) = true := by decide
  have hcycle : (initial.step (startAt 7 1)).all (fun r => (r.1.step (startAt 7 2)).all
      fun r => r.1.reportUnlocked.isNone) = true := by decide
  intro h
  have hadmits : Admits step Relinks initial [startAt 7 1, startAt 7 2] := by
    refine ⟨⟨le_rfl, by decide, fun _ => by decide⟩,
      fun s' out hfirst => ⟨⟨le_rfl, by decide, fun hnew => ?_⟩, fun _ _ _ => trivial⟩⟩
    have htest := (Option.all_eq_true _ _).mp hrecord _ hfirst
    obtain ⟨stats, hstats, hnames⟩ := (Option.any_eq_true _ _).mp htest
    exact absurd ⟨1, stats, hstats, hnames⟩ hnew
  obtain ⟨_, s₁, out₁, hfirst, _, s₂, out₂, hsecond, hsound, _⟩ := h _ hadmits
  have hnone := (Option.all_eq_true _ _).mp ((Option.all_eq_true _ _).mp hcycle _ hfirst) _ hsecond
  have hsome := hsound.reports
  rw [Option.isNone_iff_eq_none.mp hnone] at hsome
  cases hsome

end PapiState

end ProfHalide
