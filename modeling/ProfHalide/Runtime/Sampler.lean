import ProfHalide.Runtime.Billing

/-!
# The sampling thread

The thread wakes up, reads which func runs and on how many threads, and bills the time since its last
look to that func, holding the lock; between two looks other threads store what runs and start
pipelines, each start being one step here. Every interval goes to one func of one record or to none, so that the totals of a record are
those of its funcs, and what is billed and what is dropped add up to the time that has passed.
-/

namespace ProfHalide

open Std Machine

/-- Where the thread is: about to begin, at the head of the outer loop or in the inner one, with its
locals `t1` and `t`. -/
inductive SamplerPc where
  | outer
  | inner (t1 t : UInt64)
  | exited
  deriving DecidableEq, Repr

structure Sampler where
  state : PapiState
  pc : SamplerPc

inductive SamplerEvent where
  /-- Another thread starts a pipeline, in one step; `Starting.step` takes a start apart. -/
  | pipelineStart (a : StartArgs) (m : Mallocs)
  /-- Other threads store what they run. -/
  | store (currentFunc activeThreads : Int)
  /-- The head of the outer loop, at a time. -/
  | outer (now : UInt64)
  /-- One round of the inner loop, at a time; on a remote processor, with its answer. -/
  | inner (remote : Option (Int × Int)) (now : UInt64)

/-- An interval between two looks, the func that runs at its end, and whose func that is. -/
structure Interval where
  funcId : Int
  time : UInt64
  owner : Option Ptr
  deriving DecidableEq, Repr

namespace PapiState

variable (s : PapiState)

def observe (remote : Option (Int × Int)) : Int × Int :=
  remote.getD (s.currentFunc, s.activeThreads)

def timeOf (p : Ptr) : Nat := (s.content p).elim 0 (·.time.toNat)

/-- The time billed to all pipelines. -/
def billedTime : Nat := (s.records.keys.map s.timeOf).sum

end PapiState

namespace Sampler

variable (c : Sampler)

/-- One round of the inner loop. -/
def innerRound (t1 t : UInt64) (observed : Int × Int) (now : UInt64) : Option Sampler :=
  if observed.1 = pleaseStop then some { c with pc := .outer }
  else if 0 ≤ observed.1 then do
    let answer ← c.state.billFunc observed.1 (now - t) observed.2
    return { state := answer.state, pc := .inner t1 now }
  else some { c with pc := .inner t1 now }

/-- The next step of the thread, or of those around it; with each interval, what became of it. -/
def step : SamplerEvent → Option (Sampler × List Interval)
  | .pipelineStart a m =>
      (c.state.pipelineStart a m).map fun answer => ({ c with state := answer.state }, [])
  | .store currentFunc activeThreads =>
      some ({ c with state := { c.state with currentFunc, activeThreads } }, [])
  | .outer now =>
      match c.pc with
      | .outer =>
          if c.state.currentFunc = pleaseStop then some ({ c with pc := .exited }, [])
          else some ({ c with pc := .inner now now }, [])
      | _ => none
  | .inner remote now =>
      match c.pc with
      | .inner t1 t =>
          let observed := c.state.observe remote
          (c.innerRound t1 t observed now).map fun c' => (c',
            if observed.1 = pleaseStop then []
            else [⟨observed.1, now - t, if 0 ≤ observed.1 then c.state.owner observed.1 else none⟩])
      | _ => none

def initial : Sampler := ⟨.initial, .outer⟩

end Sampler

/-! ### Totals of one record -/

/-- The totals of a pipeline are the sums over its funcs, and the samples are as many as an `int` can tell. -/
structure PipelineStats.Totals (stats : PipelineStats) : Prop where
  length : stats.funcs.length = stats.numFuncs.toNat
  time : stats.time.toNat = (stats.funcs.map (·.time.toNat)).sum
  samples : stats.samples = Int32.ofNat stats.activeThreadsDenominator.toNat
  denominator :
    stats.activeThreadsDenominator = (stats.funcs.map (·.activeThreadsDenominator)).sum
  numerator : stats.activeThreadsNumerator = (stats.funcs.map (·.activeThreadsNumerator)).sum

/-- Adding to one element of a list adds to the sum. -/
theorem sum_map_modify {α M : Type*} [AddCommMonoid M] {g : α → M} {f : α → α} {d : M}
    {l : List α} (hf : ∀ x ∈ l, g (f x) = g x + d) {i : Nat} (hi : i < l.length) :
    ((l.modify i f).map g).sum = (l.map g).sum + d := by
  induction l generalizing i with
  | nil => cases hi
  | cons x l ih =>
    cases i with
    | zero =>
      rw [List.modify_zero_cons, List.map_cons, List.map_cons, List.sum_cons, List.sum_cons,
        hf x List.mem_cons_self]
      exact add_right_comm _ _ _
    | succ i =>
      rw [List.modify_succ_cons, List.map_cons, List.map_cons, List.sum_cons, List.sum_cons,
        ih (fun y hy => hf y (List.mem_cons_of_mem x hy)) (Nat.lt_of_succ_lt_succ hi), add_assoc]

/-- An `int` counts along with a `uint64_t`. -/
theorem ofNat_toNat_succ (n : UInt64) : Int32.ofNat (n + 1).toNat = Int32.ofNat n.toNat + 1 := by
  rw [UInt64.toNat_add]
  apply Int32.toBitVec_inj.mp
  apply BitVec.eq_of_toNat_eq
  simp

namespace PipelineStats

variable {stats : PipelineStats}

/-- The number of samples, as long as it fits. -/
theorem Totals.samples_toInt (h : stats.Totals) (hfits : stats.activeThreadsDenominator.toNat < 2 ^ 31) :
    stats.samples.toInt = stats.activeThreadsDenominator.toNat := by
  rw [h.samples]
  exact Int32.toInt_ofNat_of_lt hfits

theorem Totals.bill (h : stats.Totals) {funcId : Int} (hcontains : stats.containsFunc funcId = true)
    {time : UInt64} (hfits : stats.time.toNat + time.toNat < 2 ^ 64) (activeThreads : Int) :
    (stats.bill funcId time activeThreads).Totals := by
  have hrange : (funcId - stats.firstFuncId).toNat < stats.funcs.length := by
    rw [containsFunc, Bool.and_eq_true, decide_eq_true_eq, decide_eq_true_eq] at hcontains
    rw [h.length]
    omega
  refine ⟨?_, ?_, ?_, ?_, ?_⟩
  · exact (List.length_modify ..).trans h.length
  · -- The time of the func is part of that of the pipeline, and fits as well.
    have hfunc : ∀ fs ∈ stats.funcs, (fs.time + time).toNat = fs.time.toNat + time.toNat := by
      intro fs hfs
      have hle := List.single_le_sum (fun _ _ => Nat.zero_le _) _
        (List.mem_map_of_mem (f := fun fs : FuncStats => fs.time.toNat) hfs)
      rw [← h.time] at hle
      rw [UInt64.toNat_add, Nat.mod_eq_of_lt (by omega)]
    have hpipeline : (stats.time + time).toNat = stats.time.toNat + time.toNat := by
      rw [UInt64.toNat_add, Nat.mod_eq_of_lt hfits]
    exact (hpipeline.trans (congrArg (· + time.toNat) h.time)).trans (sum_map_modify hfunc hrange).symm
  · exact (congrArg (· + 1) h.samples).trans (ofNat_toNat_succ _).symm
  · exact (congrArg (· + 1) h.denominator).trans (sum_map_modify (fun _ _ => rfl) hrange).symm
  · exact (congrArg (· + UInt64.ofInt activeThreads) h.numerator).trans
      (sum_map_modify (fun _ _ => rfl) hrange).symm

theorem totals_pipelineStats (a : StartArgs) (next : Option Ptr) (firstFuncId : Int) :
    (a.pipelineStats next firstFuncId).Totals := by
  refine ⟨?_, ?_, rfl, ?_, ?_⟩ <;> simp [StartArgs.pipelineStats, StartArgs.funcStats, Function.comp_def]

end PipelineStats

/-! ### The time of all records -/

namespace PapiState

variable {s s' : PapiState}

/-- Any list of the records will do to add up their times. -/
theorem billedTime_eq {l : List Ptr} (hl : l.Nodup) (hmem : ∀ p, p ∈ l ↔ p ∈ s.records) :
    s.billedTime = (l.map s.timeOf).sum := by
  have hperm : List.Perm s.records.keys l := by
    refine (List.perm_ext_iff_of_nodup TreeMap.nodup_keys hl).mpr fun p => ?_
    rw [TreeMap.mem_keys, hmem]
  exact (hperm.map s.timeOf).sum_eq

theorem timeOf_le_billedTime {p : Ptr} {stats : PipelineStats} (h : s.content p = some stats) :
    stats.time.toNat ≤ s.billedTime := by
  have hmem : p ∈ s.records.keys := by
    rw [TreeMap.mem_keys, mem_iff_content, h]
    rfl
  have hle := List.single_le_sum (fun _ _ => Nat.zero_le _) _ (List.mem_map_of_mem (f := s.timeOf) hmem)
  rwa [timeOf, h] at hle

theorem billedTime_congr (h : ∀ p, s'.content p = s.content p) : s'.billedTime = s.billedTime := by
  have hmem : ∀ p, p ∈ s.records.keys ↔ p ∈ s'.records := by
    intro p
    rw [TreeMap.mem_keys, mem_iff_content, mem_iff_content, h]
  rw [billedTime_eq TreeMap.nodup_keys hmem, billedTime]
  refine congrArg List.sum (List.map_congr_left fun p _ => ?_)
  rw [timeOf, h, timeOf]

/-- Adding to the time of one record adds to the time of all. -/
theorem billedTime_add {p : Ptr} {d : Nat} (hp : p ∈ s.records)
    (hmem : ∀ q, q ∈ s'.records ↔ q ∈ s.records) (hself : s'.timeOf p = s.timeOf p + d)
    (hother : ∀ q, p ≠ q → s'.timeOf q = s.timeOf q) : s'.billedTime = s.billedTime + d := by
  have hnodup : (p :: s.records.keys.erase p).Nodup :=
    (List.perm_cons_erase (TreeMap.mem_keys.mpr hp)).nodup_iff.mp TreeMap.nodup_keys
  have hall : ∀ q, q ∈ p :: s.records.keys.erase p ↔ q ∈ s.records := by
    intro q
    rw [← (List.perm_cons_erase (TreeMap.mem_keys.mpr hp)).mem_iff, TreeMap.mem_keys]
  have hrest : (s.records.keys.erase p).map s'.timeOf = (s.records.keys.erase p).map s.timeOf := by
    refine List.map_congr_left fun q hq => hother q fun heq => ?_
    rw [← heq] at hq
    exact (List.nodup_cons.mp hnodup).1 hq
  rw [billedTime_eq hnodup fun q => (hall q).trans (hmem q).symm, billedTime_eq hnodup hall,
    List.map_cons, List.sum_cons, hrest, List.map_cons, List.sum_cons, hself]
  omega

/-- A new record with no time. -/
theorem billedTime_new {p : Ptr} (hp : p ∉ s.records)
    (hmem : ∀ q, q ∈ s'.records ↔ p = q ∨ q ∈ s.records) (hself : s'.timeOf p = 0)
    (hother : ∀ q, p ≠ q → s'.timeOf q = s.timeOf q) : s'.billedTime = s.billedTime := by
  have hnodup : (p :: s.records.keys).Nodup :=
    List.nodup_cons.mpr ⟨fun hmem => hp (TreeMap.mem_keys.mp hmem), TreeMap.nodup_keys⟩
  have hall : ∀ q, q ∈ p :: s.records.keys ↔ q ∈ s'.records := by
    intro q
    rw [hmem, List.mem_cons, TreeMap.mem_keys, eq_comm]
  have hrest : s.records.keys.map s'.timeOf = s.records.keys.map s.timeOf := by
    refine List.map_congr_left fun q hq => hother q fun heq => ?_
    rw [heq] at hp
    exact hp (TreeMap.mem_keys.mp hq)
  rw [billedTime_eq hnodup hall, List.map_cons, List.sum_cons, hself, hrest, Nat.zero_add]
  rfl

end PapiState

/-! ### Runs of the thread -/

namespace Sampler

/-- The thread is running, the clock does not go back, and it is not asked to stop; a start by another
thread succeeds and is of a pipeline that has no record. -/
def Permitted (c : Sampler) : SamplerEvent → Prop
  | .pipelineStart a m => 0 ≤ a.numFuncs ∧ m.arrays a.numLoops = true ∧ (c.state.malloc m).isSome ∧
      ¬ c.state.Restarts a
  | .store _ _ => True
  | .outer _ => c.pc = .outer ∧ c.state.samplingThread = true
  | .inner remote now =>
      (c.state.observe remote).1 ≠ pleaseStop ∧ ∃ t1 t, c.pc = .inner t1 t ∧ t ≤ now

/-- The interval that a look ends is billed to the func seen then, and to no other, or dropped if the
id is negative or belongs to no record. -/
def BillsInterval (c : Sampler) (event : SamplerEvent) (c' : Sampler) (out : List Interval) : Prop :=
  match event with
  | .inner remote now => ∃ t1 t i, c.pc = .inner t1 t ∧ c'.pc = .inner t1 now ∧ out = [i] ∧
      i.funcId = (c.state.observe remote).1 ∧ i.time = now - t ∧
      (i.owner = none ↔ i.funcId < 0 ∨
        ∀ p stats, c.state.content p = some stats → stats.containsFunc i.funcId = false) ∧
      (∀ p, i.owner = some p ↔ 0 ≤ i.funcId ∧
        ∃ stats, c.state.content p = some stats ∧ stats.containsFunc i.funcId = true) ∧
      ∀ p, c'.state.content p = if i.owner = some p
        then (c.state.content p).map (·.bill i.funcId i.time (c.state.observe remote).2)
        else c.state.content p
  | _ => out = [] ∧ ∀ p ∈ c.state.records, c'.state.content p = c.state.content p

def droppedTime (intervals : List Interval) : Nat :=
  ((intervals.filter (·.owner.isNone)).map (·.time.toNat)).sum

@[simp] theorem droppedTime_append (intervals more : List Interval) :
    droppedTime (intervals ++ more) = droppedTime intervals + droppedTime more := by
  simp [droppedTime]

/-- The totals of every record are sums, and all time since the thread began is billed or dropped. -/
structure Conserves (c : Sampler) (intervals : List Interval) : Prop where
  totals : ∀ p stats, c.state.content p = some stats → stats.Totals
  samples : ∀ p stats, c.state.content p = some stats → stats.activeThreadsDenominator.toNat < 2 ^ 31 →
    stats.samples.toInt = stats.activeThreadsDenominator.toNat
  time : ∀ t1 t, c.pc = .inner t1 t →
    t1 ≤ t ∧ c.state.billedTime + droppedTime intervals = t.toNat - t1.toNat
  /-- The look that ends the loop bills nothing. -/
  stop : ∀ t1 t remote now, c.pc = .inner t1 t → (c.state.observe remote).1 = pleaseStop →
    c.step (.inner remote now) = some ({ c with pc := .outer }, [])

/-- Before the thread begins nothing is billed. -/
structure Inv (c : Sampler) (intervals : List Interval) : Prop where
  linkedApart : c.state.LinkedApart
  totals : ∀ p stats, c.state.content p = some stats → stats.Totals
  begun : c.pc = .outer → c.state.billedTime = 0 ∧ droppedTime intervals = 0
  time : ∀ t1 t, c.pc = .inner t1 t →
    t1 ≤ t ∧ c.state.billedTime + droppedTime intervals = t.toNat - t1.toNat

variable {c : Sampler} {intervals : List Interval}

theorem stop_step {t1 t : UInt64} {remote : Option (Int × Int)} (hpc : c.pc = .inner t1 t)
    (hstop : (c.state.observe remote).1 = pleaseStop) (now : UInt64) :
    c.step (.inner remote now) = some ({ c with pc := .outer }, []) := by
  simp [step, hpc, innerRound, hstop]

theorem Inv.pipelineStart (h : c.Inv intervals) {a : StartArgs} {m : Mallocs}
    (hallowed : c.Permitted (.pipelineStart a m)) :
    ∃ c', c.step (.pipelineStart a m) = some (c', []) ∧
      c.BillsInterval (.pipelineStart a m) c' [] ∧ c'.Inv intervals := by
  obtain ⟨hfuncs, harrays, hmalloc, hnew⟩ := hallowed
  obtain ⟨p, hp⟩ := Option.isSome_iff_exists.mp hmalloc
  obtain ⟨l, hlinked, hapart⟩ := h.linkedApart
  have hunused := PapiState.malloc_eq_some hp
  have hstart := hlinked.pipelineStart (fun _ _ hstats => PapiState.not_restarts hnew hstats) m
  have hcontent := PapiState.content_install (s := c.state) a p
  have hother : ∀ q, p ≠ q → (c.state.install a p).content q = c.state.content q := by
    intro q hne
    rw [hcontent, if_neg hne]
  have hbilled : (c.state.install a p).billedTime = c.state.billedTime := by
    refine PapiState.billedTime_new hunused (fun q => PapiState.mem_install) ?_ fun q hne => ?_
    · rw [PapiState.timeOf, hcontent, if_pos rfl]
      rfl
    · rw [PapiState.timeOf, hother q hne, PapiState.timeOf]
  refine ⟨{ c with state := c.state.install a p }, ?_, ⟨rfl, fun q hq => hother q ?_⟩, ?_⟩
  · rw [step, hstart, hp]
    simp [harrays]
  · intro heq
    rw [heq] at hunused
    exact hunused hq
  · refine ⟨⟨p :: l, hlinked.install a hunused, hapart.install hfuncs p⟩, fun q stats hstats => ?_,
      fun hpc => ?_, fun t1 t hpc => ?_⟩
    · rw [hcontent] at hstats
      split at hstats
      · cases hstats
        exact PipelineStats.totals_pipelineStats a _ _
      · exact h.totals q stats hstats
    · rw [hbilled]
      exact h.begun hpc
    · rw [hbilled]
      exact h.time t1 t hpc

/-- What a look leaves behind, given the time billed and dropped by it. -/
theorem Inv.look (h : c.Inv intervals) {t1 t now : UInt64} (hpc : c.pc = .inner t1 t) (hclock : t ≤ now)
    {s' : PapiState} (hlinkedApart : s'.LinkedApart)
    (htotals : ∀ p stats, s'.content p = some stats → stats.Totals) {i : Interval}
    (hlook : s'.billedTime + droppedTime [i] = c.state.billedTime + (now - t).toNat) :
    Inv ⟨s', .inner t1 now⟩ (intervals ++ [i]) := by
  have htime := h.time t1 t hpc
  rw [UInt64.toNat_sub_of_le _ _ hclock] at hlook
  rw [UInt64.le_iff_toNat_le] at hclock htime
  refine ⟨hlinkedApart, htotals, fun hpc' => (nomatch hpc'), fun t1' t' hpc' => ?_⟩
  cases hpc'
  rw [droppedTime_append, UInt64.le_iff_toNat_le]
  change _ ∧ s'.billedTime + _ = _
  omega

/-- The time billed so far and an interval that follows fit into the clock. -/
theorem Inv.fits (h : c.Inv intervals) {t1 t now : UInt64} (hpc : c.pc = .inner t1 t) (hclock : t ≤ now)
    {p : Ptr} {stats : PipelineStats} (hstats : c.state.content p = some stats) :
    stats.time.toNat + (now - t).toNat < 2 ^ 64 := by
  obtain ⟨hbegan, htime⟩ := h.time t1 t hpc
  have hle := PapiState.timeOf_le_billedTime hstats
  have hnow := now.toNat_lt
  rw [UInt64.toNat_sub_of_le _ _ hclock]
  rw [UInt64.le_iff_toNat_le] at hclock hbegan
  omega

theorem Inv.totals_bill (h : c.Inv intervals) {s' : PapiState} {funcId : Int} {time : UInt64}
    {activeThreads : Int}
    (hfits : ∀ p stats, c.state.content p = some stats → stats.time.toNat + time.toNat < 2 ^ 64)
    (hcontent : ∀ p, s'.content p = if c.state.owner funcId = some p
      then (c.state.content p).map (·.bill funcId time activeThreads) else c.state.content p) :
    ∀ p stats, s'.content p = some stats → stats.Totals := by
  intro p stats hstats
  obtain ⟨_, _, hapart⟩ := h.linkedApart
  rw [hcontent] at hstats
  split at hstats
  · next howner =>
    obtain ⟨old, hold, hcontains⟩ := hapart.owner_eq_some_iff.mp howner
    rw [hold] at hstats
    cases hstats
    exact (h.totals p old hold).bill hcontains (hfits p old hold) activeThreads
  · exact h.totals p stats hstats

/-- A round of the inner loop bills its interval to one record or drops it. -/
theorem Inv.innerRound (h : c.Inv intervals) {remote : Option (Int × Int)} {now : UInt64}
    (hallowed : c.Permitted (.inner remote now)) :
    ∃ c' i, c.step (.inner remote now) = some (c', [i]) ∧ c.BillsInterval (.inner remote now) c' [i] ∧
      c'.Inv (intervals ++ [i]) := by
  obtain ⟨hstop, t1, t, hpc, hclock⟩ := hallowed
  obtain ⟨l, hlinked, hapart⟩ := h.linkedApart
  generalize hobserved : c.state.observe remote = observed at hstop
  obtain ⟨funcId, activeThreads⟩ := observed
  by_cases hnonneg : 0 ≤ funcId
  · obtain ⟨s', hbill, hlinkedApart', _, hcontent⟩ :=
      h.linkedApart.billFunc funcId (now - t) activeThreads
    have hstep : c.step (.inner remote now) = some (⟨s', .inner t1 now⟩,
        [⟨funcId, now - t, c.state.owner funcId⟩]) := by
      simp [step, hpc, hobserved, Sampler.innerRound, hstop, hnonneg, hbill]
    have hnone : c.state.owner funcId = none ↔ funcId < 0 ∨
        ∀ p stats, c.state.content p = some stats → stats.containsFunc funcId = false := by
      rw [PapiState.owner_eq_none_iff]
      exact ⟨Or.inr, fun hor => hor.resolve_left (Int.not_lt.mpr hnonneg)⟩
    have hsome : ∀ p, c.state.owner funcId = some p ↔ 0 ≤ funcId ∧
        ∃ stats, c.state.content p = some stats ∧ stats.containsFunc funcId = true := by
      intro p
      rw [hapart.owner_eq_some_iff]
      exact (and_iff_right hnonneg).symm
    refine ⟨_, _, hstep, ⟨t1, t, _, hpc, rfl, rfl, by rw [hobserved], rfl, hnone, hsome, ?_⟩, ?_⟩
    · rw [hobserved]
      exact hcontent
    · have hfits : ∀ p stats, c.state.content p = some stats →
          stats.time.toNat + (now - t).toNat < 2 ^ 64 :=
        fun _ _ hstats => h.fits hpc hclock hstats
      apply h.look hpc hclock hlinkedApart' (h.totals_bill hfits hcontent)
      cases howner : c.state.owner funcId with
      | none =>
        have hsame : ∀ p, s'.content p = c.state.content p := by
          intro p
          rw [hcontent, howner, if_neg (by simp)]
        rw [PapiState.billedTime_congr hsame]
        simp [droppedTime]
      | some p =>
        obtain ⟨stats, hstats, _⟩ := hapart.owner_eq_some_iff.mp howner
        have hself : s'.timeOf p = c.state.timeOf p + (now - t).toNat := by
          rw [PapiState.timeOf, hcontent, if_pos howner, PapiState.timeOf, hstats]
          exact (UInt64.toNat_add _ _).trans (Nat.mod_eq_of_lt (hfits p stats hstats))
        have hother : ∀ q, p ≠ q → s'.timeOf q = c.state.timeOf q := by
          intro q hne
          rw [PapiState.timeOf, hcontent, if_neg (by simp [howner, hne]), PapiState.timeOf]
        have hmem : ∀ q, q ∈ s'.records ↔ q ∈ c.state.records := by
          intro q
          rw [PapiState.mem_iff_content, PapiState.mem_iff_content, hcontent]
          split <;> simp
        have hp : p ∈ c.state.records := by
          rw [PapiState.mem_iff_content, hstats]
          rfl
        rw [PapiState.billedTime_add hp hmem hself hother]
        simp [droppedTime]
  · have hstep : c.step (.inner remote now) = some (⟨c.state, .inner t1 now⟩,
        [⟨funcId, now - t, none⟩]) := by
      simp [step, hpc, hobserved, Sampler.innerRound, hstop, hnonneg]
    refine ⟨_, _, hstep, ⟨t1, t, _, hpc, rfl, rfl, by rw [hobserved], rfl, ?_, ?_, fun p => rfl⟩, ?_⟩
    · exact ⟨fun _ => Or.inl (Int.not_le.mp hnonneg), fun _ => rfl⟩
    · exact fun p => ⟨fun hsome => (nomatch hsome), fun hcontains => absurd hcontains.1 hnonneg⟩
    · exact h.look hpc hclock ⟨l, hlinked, hapart⟩ h.totals (by simp [droppedTime])

theorem Inv.step (h : c.Inv intervals) {event : SamplerEvent} (hallowed : c.Permitted event) :
    ∃ c' out, c.step event = some (c', out) ∧ c.BillsInterval event c' out ∧
      c'.Inv (intervals ++ out) := by
  cases event with
  | pipelineStart a m =>
    obtain ⟨c', hstep, hbills, hinv⟩ := h.pipelineStart hallowed
    refine ⟨c', [], hstep, hbills, ?_⟩
    rwa [List.append_nil]
  | store currentFunc activeThreads =>
    obtain ⟨⟨l, hlinked, hapart⟩, htotals, hbegun, htime⟩ := h
    refine ⟨_, [], rfl, ⟨rfl, fun _ _ => rfl⟩, ?_⟩
    rw [List.append_nil]
    exact ⟨⟨l, ⟨hlinked.chain, hlinked.mem⟩, hapart.of_content rfl fun _ stats hstats =>
      ⟨stats, hstats, rfl, rfl⟩⟩, htotals, hbegun, htime⟩
  | outer now =>
    obtain ⟨hpc, _⟩ := hallowed
    obtain ⟨hbilled, hdropped⟩ := h.begun hpc
    by_cases hstop : c.state.currentFunc = pleaseStop
    · refine ⟨{ c with pc := .exited }, [], by simp [Sampler.step, hpc, hstop],
        ⟨rfl, fun _ _ => rfl⟩, ?_⟩
      rw [List.append_nil]
      exact ⟨h.linkedApart, h.totals, fun hpc' => (nomatch hpc'), fun _ _ hpc' => nomatch hpc'⟩
    · refine ⟨{ c with pc := .inner now now }, [], by simp [Sampler.step, hpc, hstop],
        ⟨rfl, fun _ _ => rfl⟩, ?_⟩
      rw [List.append_nil]
      refine ⟨h.linkedApart, h.totals, fun hpc' => (nomatch hpc'), fun t1 t hpc' => ?_⟩
      cases hpc'
      change _ ∧ c.state.billedTime + _ = _
      rw [hbilled, hdropped]
      exact ⟨UInt64.le_refl _, by omega⟩
  | inner remote now =>
    obtain ⟨c', i, hstep, hbills, hinv⟩ := h.innerRound hallowed
    exact ⟨c', [i], hstep, hbills, hinv⟩

theorem inv_initial : Sampler.initial.Inv [] := by
  have hnone : ∀ p, Sampler.initial.state.content p = none := fun p => rfl
  refine ⟨PapiState.linkedApart_initial, fun p stats hstats => ?_, fun _ => ⟨rfl, rfl⟩,
    fun _ _ hpc => nomatch hpc⟩
  rw [hnone] at hstats
  cases hstats

/-- In every run of the thread, each interval goes to the one func seen at its end or is dropped, and no
time is lost or billed twice. -/
theorem conserves_of_permitted {events : List SamplerEvent}
    (h : Admits step Permitted initial events) :
    Along step BillsInterval initial events ∧
      ∃ c intervals, run step initial events = some (c, intervals) ∧ c.Conserves intervals := by
  constructor
  · have halong := h.along (P := BillsInterval) (fun c => ∃ intervals, c.Inv intervals)
      (fun c event hc hallowed => by
        obtain ⟨intervals, hinv⟩ := hc
        obtain ⟨c', out, hstep, hbills, hinv'⟩ := hinv.step hallowed
        exact ⟨c', out, hstep, hbills, _, hinv'⟩) ⟨[], inv_initial⟩
    exact halong.mono fun _ _ _ _ hp => hp.1
  · obtain ⟨c, intervals, hrun, hinv⟩ := h.run Inv (fun c past event hc hallowed => by
      obtain ⟨c', out, hstep, _, hinv'⟩ := hc.step hallowed
      exact ⟨c', out, hstep, hinv'⟩) inv_initial
    refine ⟨c, intervals, hrun, hinv.totals, fun p stats hstats => (hinv.totals p stats hstats).samples_toInt,
      ?_, fun _ _ _ now hpc hstop => stop_step hpc hstop now⟩
    simpa using hinv.time

/-- A pipeline starts, its first func runs until 9, and until 12 no func does. -/
def oneFuncRun : List SamplerEvent :=
  [.pipelineStart (PapiState.oneFunc 7) ⟨some 1, true, true⟩, .store 0 1, .outer 5, .inner none 9,
    .inner (some (-1, 0)) 12]

theorem conserves_oneFuncRun :
    Along step BillsInterval initial oneFuncRun ∧
      ∃ c intervals, run step initial oneFuncRun = some (c, intervals) ∧ c.Conserves intervals := by
  have hnew : ¬ PapiState.initial.Restarts (PapiState.oneFunc 7) := by
    intro hrestarts
    obtain ⟨p, stats, hstats, _⟩ := hrestarts
    cases hstats
  refine conserves_of_permitted ⟨⟨by decide, by decide, by decide, hnew⟩, fun c₁ out₁ h₁ => ?_⟩
  cases h₁
  refine ⟨trivial, fun c₂ out₂ h₂ => ?_⟩
  cases h₂
  refine ⟨⟨rfl, rfl⟩, fun c₃ out₃ h₃ => ?_⟩
  cases h₃
  refine ⟨⟨by decide, 5, 5, rfl, by decide⟩, fun c₄ out₄ h₄ => ?_⟩
  cases h₄
  exact ⟨⟨by decide, 5, 9, rfl, by decide⟩, fun _ _ _ => trivial⟩

end Sampler

end ProfHalide
