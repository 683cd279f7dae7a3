import ProfHalide.Pass.Duties
import ProfHalide.Pass.SerialCalls
import ProfHalide.Report.ThreadRows

/-!
# What a report says about a program with tasks

The tasks of an instrumented program are carried out by the threads of a pool, where a thread that waits for
its tasks may take over some of them. As long as a thread of the pool carries out one thing at a time, the
calls fit together whatever the order in which the threads proceed, and the report says what each thread of
the pool has spent on a region.
-/

namespace ProfHalide

open InjectPAPIProfiling Behaviour Strands

/-! ### The threads of the pool -/

/-- A thread of the program is inside the statement or its task and not waiting for a loop. -/
def workingAt (t : List (Tagged Step Act)) (path : Thread) : Bool :=
  (t.filterMap (on path)).foldl Act.working path.isEmpty

/-- The thread of the pool that carries out several threads of the program is at work for one at a time. -/
def OneAtATime (pool : Thread → ThreadIndex) (t : List (Tagged Step Act)) : Prop :=
  ∀ before, before <+: t → ∀ path path', workingAt before path → workingAt before path' →
    pool path = pool path' → path = path'

theorem mem_of_workingAt {t : List (Tagged Step Act)} {path : Thread} (h : workingAt t path = true) :
    path ∈ [] :: t.map Prod.fst := by
  by_contra hpath
  rw [List.mem_cons, not_or] at hpath
  have hnil : t.filterMap (on path) = [] := by
    rw [List.filterMap_eq_nil_iff]
    exact fun e he => if_neg fun heq => hpath.2 (List.mem_map.mpr ⟨e, he, heq⟩)
  rw [workingAt, hnil, List.foldl_nil, List.isEmpty_iff] at h
  exact hpath.1 h

instance (pool : Thread → ThreadIndex) (t : List (Tagged Step Act)) : Decidable (OneAtATime pool t) :=
  decidable_of_iff (∀ before ∈ t.inits, ∀ path ∈ [] :: before.map Prod.fst,
      ∀ path' ∈ [] :: before.map Prod.fst, workingAt before path → workingAt before path' →
        pool path = pool path' → path = path') <| by
    constructor
    · intro h before hbefore path path' hpath hpath'
      exact h before ((List.mem_inits _ _).mpr hbefore) path (mem_of_workingAt hpath) path'
        (mem_of_workingAt hpath') hpath hpath'
    · intro h before hbefore path _ path' _
      exact h before ((List.mem_inits _ _).mp hbefore) path path'

/-- A call, with the thread of the pool that makes it. -/
def poolCall (pool : Thread → ThreadIndex) (e : Tagged Step Act) : Option (PapiCall × ThreadIndex) :=
  e.2.call?.map (·, pool e.1)

/-- A call of the first thread. -/
def firstCall (e : Tagged Step Act) : Option PapiCall := (on [] e).bind Act.call?

def PoolEvent.threadCall : PoolEvent → Option (PapiCall × ThreadIndex)
  | .call c thread => some (c, thread)
  | .work _ _ | .sample _ _ _ => none

/-- Where a thread of the program is, after `t`. -/
def dutyAt (t : List (Tagged Step Act)) (path : Thread) : Option Duty :=
  runAuto Duty.next (if path = [] then .idle else .off) (t.filterMap (on path))

section DutyAt

variable {t : List (Tagged Step Act)} {path : Thread} {d d' : Duty} {e : Tagged Step Act}

theorem workingAt_of_dutyAt (h : dutyAt t path = some d) : workingAt t path = d.isWorking := by
  rw [Duty.isWorking_of_runAuto h, workingAt]
  cases path <;> rfl

theorem dutyAt_snoc_self (h : dutyAt t e.1 = some d) : dutyAt (t ++ [e]) e.1 = d.next e.2 := by
  have hon : [e].filterMap (on e.1) = [e.2] := by simp [on]
  rw [dutyAt] at h
  rw [dutyAt, List.filterMap_append, runAuto_append, h, hon, Option.bind_some, runAuto]
  cases d.next e.2 <;> rfl

theorem dutyAt_snoc_of_ne (h : path ≠ e.1) : dutyAt (t ++ [e]) path = dutyAt t path := by
  have hon : [e].filterMap (on path) = [] := by simp [on, Ne.symm h]
  rw [dutyAt, List.filterMap_append, hon, List.append_nil, dutyAt]

theorem dutyAt_of_append {u : List (Tagged Step Act)} (h : dutyAt (t ++ u) path = some d) :
    ∃ d', dutyAt t path = some d' := by
  rw [dutyAt, List.filterMap_append] at h
  exact runAuto_of_append h

theorem Orderly.dutyAt (h : Orderly .idle t d) (path : Thread) : ∃ d', dutyAt t path = some d' := by
  cases path with
  | nil => exact ⟨d, h.moves⟩
  | cons i path => exact ⟨.off, h.others i path⟩

end DutyAt

/-! ### One step -/

/-- What is measured, and who counts, is what the threads of the program do. -/
structure InStep (pool : Thread → ThreadIndex) (t : List (Tagged Step Act)) (q : Option Region) (m : Meter) :
    Prop where
  region : m.region = q
  counts : ∀ thread, m.counting thread = true → ∃ path, pool path = thread ∧ dutyAt t path = some .counting
  counted : q ≠ none → ∀ path, dutyAt t path = some .counting → m.counting (pool path) = true

namespace InStep

variable {pool : Thread → ThreadIndex} {t : List (Tagged Step Act)} {q q' : Option Region} {m : Meter}
  {path : Thread} {act : Act} {d d' : Duty}

/-- A step after which the same threads count. -/
theorem same (h : InStep pool t q m) {e : Tagged Step Act} (hd : dutyAt t e.1 = some d)
    (hnext : d.next e.2 = some d') (hsame : d' = .counting ↔ d = .counting) : InStep pool (t ++ [e]) q m := by
  have hduty : ∀ path, dutyAt (t ++ [e]) path = some .counting ↔ dutyAt t path = some .counting := by
    intro path
    by_cases hpath : path = e.1
    · subst hpath
      rw [dutyAt_snoc_self hd, hnext, hd, Option.some.injEq, Option.some.injEq, hsame]
    · rw [dutyAt_snoc_of_ne hpath]
  exact ⟨h.region, fun thread hthread => (h.counts thread hthread).imp fun path hpath =>
    ⟨hpath.1, (hduty path).mpr hpath.2⟩, fun hq path hpath => h.counted hq path ((hduty path).mp hpath)⟩

/-- A thread that does not count leaves its thread of the pool free to count for another one. -/
theorem regionOn_of_idle (h : InStep pool t q m)
    (hone : ∀ path path', workingAt t path → workingAt t path' → pool path = pool path' → path = path')
    (hd : dutyAt t path = some .idle) : m.regionOn (pool path) = none := by
  rw [Meter.regionOn]
  split
  · next hcounting =>
    obtain ⟨path', hpool, hpath'⟩ := h.counts _ hcounting
    have heq := hone path' path (workingAt_of_dutyAt hpath') (workingAt_of_dutyAt hd) hpool
    rw [heq, hd] at hpath'
    cases hpath'
  · rfl

/-- While no task is under way only the first thread counts. -/
theorem alone (h : InStep pool t q m) (halone : ∀ i path, dutyAt t (i :: path) = some .off) :
    m.Alone (pool []) := by
  intro thread hne
  rw [Bool.eq_false_iff]
  intro hcounting
  obtain ⟨path, hpool, hpath⟩ := h.counts thread hcounting
  cases path with
  | nil => exact hne hpool.symm
  | cons i path =>
    rw [halone] at hpath
    cases hpath

/-- A thread of the pool that counts, when another one does something. -/
theorem counts_elsewhere (h : InStep pool t q m) {thread : ThreadIndex} (hthread : m.counting thread = true)
    {e : Tagged Step Act} (hpool : thread ≠ pool e.1) :
    ∃ path, pool path = thread ∧ dutyAt (t ++ [e]) path = some .counting := by
  obtain ⟨path, rfl, hpath⟩ := h.counts thread hthread
  exact ⟨path, rfl, by rwa [dutyAt_snoc_of_ne fun heq => hpool (congrArg pool heq)]⟩

theorem incrActiveThreads (h : InStep pool t q m)
    (hone : ∀ path path', workingAt t path → workingAt t path' → pool path = pool path' → path = path')
    (hd : dutyAt t path = some .idle) :
    ∃ m', m.call (pool path) .incrActiveThreads = some m' ∧
      InStep pool (t ++ [(path, .call .incrActiveThreads)]) q m' := by
  have hself : dutyAt (t ++ [(path, .call .incrActiveThreads)]) path = some .counting :=
    dutyAt_snoc_self (e := (path, .call .incrActiveThreads)) hd
  refine ⟨_, if_pos (h.regionOn_of_idle hone hd), h.region, fun thread hthread => ?_, fun hq path' hpath' => ?_⟩
  · by_cases hpool : thread = pool path
    · exact ⟨path, hpool.symm, hself⟩
    · rw [Meter.counting_set_of_ne hpool] at hthread
      exact h.counts_elsewhere hthread hpool
  · by_cases hpool : pool path' = pool path
    · rw [hpool]
      exact Meter.counting_set_self _
    · rw [dutyAt_snoc_of_ne fun heq => hpool (congrArg pool heq)] at hpath'
      rw [Meter.counting_set_of_ne hpool]
      exact h.counted hq path' hpath'

theorem decrActiveThreads (h : InStep pool t q m)
    (hone : ∀ path path', workingAt t path → workingAt t path' → pool path = pool path' → path = path')
    (hd : dutyAt t path = some .counting) :
    ∃ m', m.call (pool path) .decrActiveThreads = some m' ∧
      InStep pool (t ++ [(path, .call .decrActiveThreads)]) q m' := by
  have hself : dutyAt (t ++ [(path, .call .decrActiveThreads)]) path = some .idle :=
    dutyAt_snoc_self (e := (path, .call .decrActiveThreads)) hd
  have hregion : m.regionOn (pool path) = m.region := by
    cases hq : m.region with
    | none => exact Meter.regionOn_of_region hq
    | some r =>
      have hcounting := h.counted (by rw [← h.region, hq]; exact Option.some_ne_none r) path hd
      rw [Meter.regionOn, hcounting, if_pos rfl, hq]
  refine ⟨_, if_pos hregion, h.region, fun thread hthread => ?_, fun hq path' hpath' => ?_⟩
  · by_cases hpool : thread = pool path
    · rw [hpool, Meter.counting_set_self] at hthread
      cases hthread
    · rw [Meter.counting_set_of_ne hpool] at hthread
      exact h.counts_elsewhere hthread hpool
  · by_cases hpath : path' = path
    · rw [hpath, hself] at hpath'
      cases hpath'
    · rw [dutyAt_snoc_of_ne hpath] at hpath'
      have hpool : pool path' ≠ pool path := fun heq =>
        hpath (hone path' path (workingAt_of_dutyAt hpath') (workingAt_of_dutyAt hd) heq)
      rw [Meter.counting_set_of_ne hpool]
      exact h.counted hq path' hpath'

theorem enter (h : InStep pool t none m) (halone : ∀ i path, dutyAt t (i :: path) = some .off)
    (hd : dutyAt t [] = some .counting) (r : Region) :
    ∃ m', m.call (pool []) (.enter r) = some m' ∧
      InStep pool (t ++ [([], .call (.enter r))]) (some r) m' := by
  have hself : dutyAt (t ++ [([], .call (.enter r))]) [] = some .counting :=
    dutyAt_snoc_self (e := ([], .call (.enter r))) hd
  have hall := h.alone halone
  refine ⟨_, if_pos ⟨h.region, hall⟩, rfl, fun thread hthread => ?_, fun _ path hpath => ?_⟩
  · by_cases hpool : thread = pool []
    · exact ⟨[], hpool.symm, hself⟩
    · rw [Meter.counting_set_of_ne hpool, hall thread hpool] at hthread
      cases hthread
  · cases path with
    | nil => exact Meter.counting_set_self _
    | cons i path =>
      rw [dutyAt_snoc_of_ne (List.cons_ne_nil i path), halone] at hpath
      cases hpath

theorem leave {r : Region} (h : InStep pool t (some r) m) (halone : ∀ i path, dutyAt t (i :: path) = some .off)
    (hd : dutyAt t [] = some .counting) :
    ∃ m', m.call (pool []) (.leave r) = some m' ∧ InStep pool (t ++ [([], .call (.leave r))]) none m' := by
  have hcounting := h.counted (Option.some_ne_none r) [] hd
  have hregion : m.regionOn (pool []) = some r := by rw [Meter.regionOn, hcounting, if_pos rfl, h.region]
  have hall := h.alone halone
  refine ⟨_, if_pos ⟨hregion, hall⟩, rfl, fun thread hthread => ?_, fun hq => absurd rfl hq⟩
  by_cases hpool : thread = pool []
  · rw [hpool, Meter.counting_set_self] at hthread
    cases hthread
  · rw [Meter.counting_set_of_ne hpool, hall thread hpool] at hthread
    cases hthread

/-- A step of any thread. Marks are left to the first thread, and to times when it is alone. -/
theorem step (h : InStep pool t q m) {e : Tagged Step Act}
    (hone : ∀ path path', workingAt t path → workingAt t path' → pool path = pool path' → path = path')
    (hd : dutyAt t e.1 = some d) (hnext : d.next e.2 = some d')
    (halone : e.1 = [] → ∀ i path, dutyAt t (i :: path) = some .off)
    (hmark : e.1 ≠ [] → e.2.isMark = false)
    (hmeasure : (firstCall e).elim (some q) (measure q) = some q') :
    ∃ m', (poolCall pool e).elim (some m) (fun call => m.call call.2 call.1) = some m' ∧
      InStep pool (t ++ [e]) q' m' := by
  obtain ⟨path, act⟩ := e
  have hquiet : act.isMark = false → q' = q := by
    intro hact
    cases hcall : firstCall (path, act) with
    | none =>
      rw [hcall] at hmeasure
      exact (Option.some.inj hmeasure).symm
    | some c =>
      have hc : c.isMark = false := by
        obtain ⟨act', hon, hcall'⟩ := Option.bind_eq_some_iff.mp hcall
        obtain ⟨_, heq⟩ := Option.ite_none_right_eq_some.mp hon
        rw [← Option.some.inj heq] at hcall'
        rw [Act.isMark, hcall'] at hact
        exact hact
      rw [hcall, Option.elim_some, measure_of_not_isMark hc] at hmeasure
      exact (Option.some.inj hmeasure).symm
  have hmarked : act.isMark = true → path = [] := by
    intro hact
    by_contra hpath
    rw [hmark hpath] at hact
    cases hact
  cases act with
  | call c =>
    cases c with
    | enter r =>
      cases Duty.counting_of_mark rfl hnext
      cases hmarked rfl
      change measure q (.enter r) = some q' at hmeasure
      cases q with
      | none =>
        cases hmeasure
        exact h.enter (halone rfl) hd r
      | some r' => cases hmeasure
    | leave r =>
      cases Duty.counting_of_mark rfl hnext
      cases hmarked rfl
      change measure q (.leave r) = some q' at hmeasure
      cases q with
      | none => cases hmeasure
      | some r' =>
        obtain ⟨rfl, heq⟩ := Option.ite_none_right_eq_some.mp hmeasure
        cases heq
        exact h.leave (halone rfl) hd
    | incrActiveThreads =>
      have hidle : d = .idle := by cases d <;> first | rfl | cases hnext
      subst hidle
      rw [hquiet rfl]
      exact h.incrActiveThreads hone hd
    | decrActiveThreads =>
      have hcounting : d = .counting := by cases d <;> first | rfl | cases hnext
      subst hcounting
      rw [hquiet rfl]
      exact h.decrActiveThreads hone hd
    | enterParallelRegion | leaveParallelRegion =>
      have hidle : d = .idle := by cases d <;> first | rfl | cases hnext
      subst hidle
      rw [hquiet rfl]
      exact ⟨m, if_pos (h.regionOn_of_idle hone hd), h.same hd hnext (by cases hnext; rfl)⟩
    | _ =>
      rw [hquiet rfl]
      exact ⟨m, rfl, h.same hd hnext (by cases d <;> cases hnext <;> simp)⟩
  | _ =>
    rw [hquiet rfl]
    exact ⟨m, rfl, h.same hd hnext (by cases d <;> cases hnext <;> simp)⟩

end InStep

/-! ### Whole executions -/

section Run

variable {pool : Thread → ThreadIndex} {t : List (Tagged Step Act)} {q : Option Region} {d : Duty}

theorem filterMap_firstCall (t : List (Tagged Step Act)) : t.filterMap firstCall = firstCalls t :=
  (List.filterMap_filterMap ..).symm

/-- The calls of an orderly execution fit together in the pool, if those of the first thread do. -/
theorem runAuto_poolCalls (h : Orderly .idle t d) (hone : OneAtATime pool t)
    (hmeasure : runAuto measure none (firstCalls t) = some q) :
    ∃ m, runAuto (fun m call => m.call call.2 call.1) Meter.idle (t.filterMap (poolCall pool)) = some m ∧
      m.region = q := by
  have hprefixes : ∀ before, before <+: t → ∃ q m,
      runAuto measure none (before.filterMap firstCall) = some q ∧
      runAuto (fun m call => m.call call.2 call.1) Meter.idle (before.filterMap (poolCall pool)) = some m ∧
      InStep pool before q m := by
    intro before
    induction before using List.reverseRecOn with
    | nil =>
      intro _
      refine ⟨none, .idle, rfl, rfl, rfl, fun thread hthread => ?_, fun hq => absurd rfl hq⟩
      cases hthread
    | append_singleton before e ih =>
      intro hprefix
      obtain ⟨q, m, hq, hm, hstep⟩ := ih ((List.prefix_append before [e]).trans hprefix)
      obtain ⟨after, rfl⟩ := hprefix
      obtain ⟨_, hduty⟩ := h.dutyAt e.1
      obtain ⟨d₁, hd₁⟩ := dutyAt_of_append hduty
      obtain ⟨d₀, hd₀⟩ := dutyAt_of_append hd₁
      have hnext : d₀.next e.2 = some d₁ := (dutyAt_snoc_self hd₀).symm.trans hd₁
      have heq : before ++ [e] ++ after = before ++ e :: after := by simp
      have hmeasure' := hmeasure
      rw [← filterMap_firstCall, List.filterMap_append] at hmeasure'
      obtain ⟨q₁, hq₁⟩ := runAuto_of_append hmeasure'
      have hlast := hq₁
      rw [List.filterMap_append, runAuto_append, hq, Option.bind_some, runAuto_filterMap_one] at hlast
      obtain ⟨m', hm', hstep'⟩ := hstep.step (hone before ⟨e :: after, heq.symm⟩) hd₀ hnext
        (fun hfirst i path => h.alone before e.2 after (by rw [heq, ← hfirst]) i path)
        (h.marks e (by simp)) hlast
      refine ⟨q₁, m', hq₁, ?_, hstep'⟩
      rw [List.filterMap_append, runAuto_append, hm, Option.bind_some, runAuto_filterMap_one]
      exact hm'
  obtain ⟨q', m, hq, hm, hstep⟩ := hprefixes t List.prefix_rfl
  rw [filterMap_firstCall, hmeasure] at hq
  cases hq
  exact ⟨m, hm, hstep.region⟩

variable {events : List PoolEvent}

/-- The events make the calls of the execution. -/
theorem runAuto_measure_events (h : events.filterMap PoolEvent.threadCall = t.filterMap (poolCall pool))
    (m : Meter) : runAuto PoolEvent.measure m events =
      runAuto (fun m call => m.call call.2 call.1) m (t.filterMap (poolCall pool)) := by
  have hmeasure : PoolEvent.measure = fun m event =>
      event.threadCall.elim (some m) fun call => Meter.call m call.2 call.1 := by
    funext m event
    cases event <;> rfl
  rw [hmeasure, runAuto_filterMap PoolEvent.threadCall, h]

theorem papiCalls_of_threadCalls (h : events.filterMap PoolEvent.threadCall = t.filterMap (poolCall pool)) :
    events.filterMap PoolEvent.papiCall = t.filterMap fun e => e.2.call? := by
  have hevent : PoolEvent.papiCall = fun event => event.threadCall.map Prod.fst := by
    funext event
    cases event <;> rfl
  have hact : (fun e : Tagged Step Act => e.2.call?) = fun e => (poolCall pool e).map Prod.fst := by
    funext e
    rw [poolCall, Option.map_map]
    exact Option.map_id'.symm
  rw [hevent, hact, ← List.map_filterMap, ← List.map_filterMap, h]

end Run

/-! ### The instrumented program -/

section Inject

variable {defs : List ProfilerDef} {loopDefs : List ProfilerLoop} {s : Stmt Empty} {pipelineName : String}

/-- A run that reaches its end is the prologue, the mutated statement, and a last call. -/
theorem completed_inject {t : List (Tagged Step Act)}
    (ht : (injectPapiProfiling defs loopDefs s pipelineName).threads t true) :
    ∃ body, (mutate defs loopDefs s init).1.threads body true ∧
      t = own ((prologue pipelineName (mutate defs loopDefs s init).2.indices.size
        (mutate defs loopDefs s init).2.loops.size).map .call) ++ (body ++ own [.call .decrActiveThreads]) := by
  rw [threads_inject, seq_true] at ht
  obtain ⟨_, t₁, ⟨rfl, _⟩, ht₁, rfl⟩ := ht
  obtain ⟨_, t₂, ⟨rfl, _⟩, ht₂, rfl⟩ := (seq_true _ _ _).mp ht₁
  obtain ⟨t₀, t₃, ht₀, ht₃, rfl⟩ := (seq_true _ _ _).mp ht₂
  obtain ⟨_, t₄, ⟨rfl, _⟩, ht₄, rfl⟩ := (seq_true _ _ _).mp ht₃
  obtain ⟨_, t₅, ⟨rfl, _⟩, ht₅, rfl⟩ := (seq_true _ _ _).mp ht₄
  obtain ⟨_, t₆, ⟨rfl, _⟩, ht₆, rfl⟩ := (seq_true _ _ _).mp ht₅
  obtain ⟨body, _, hbody, ⟨rfl, _⟩, rfl⟩ := (seq_true _ _ _).mp ht₆
  refine ⟨body, hbody, ?_⟩
  rcases ht₀ with ⟨rfl, _⟩ | ⟨_, hfalse⟩
  · rfl
  · cases hfalse

/-- The calls that follow the start of the pipeline. -/
theorem call_of_mem_body (hloops : (profiledLoops loopDefs s).Nodup) {body : List (Tagged Step Act)}
    (hbody : (mutate defs loopDefs s init).1.threads body true) {e : Tagged Step Act} (he : e ∈ body)
    {c : PapiCall} (hc : e.2.call? = some c) :
    c.starts = false ∧ c.InRange (mutate defs loopDefs s init).2.indices.size
      (mutate defs loopDefs s init).2.loops.size := by
  have hact : e.2 = .call c := by
    cases hact : e.2 <;> rw [hact] at hc <;> cases hc
    rfl
  obtain ⟨next, hsite⟩ := Stmt.threads_inText _ none body true hbody e he c hact
  exact ⟨NeverStarts.kept.mutate defs loopDefs s init none _ hsite, mutate_inRange defs hloops none _ hsite⟩

/-- The threads keep to their routine, and the first one measures as if it were the only one. -/
theorem inject_orderly (hhost : s.onHost = true) (hforkless : s.forkless = true)
    (hnests : neverNests defs loopDefs none .idle s = true)
    (htasks : neverInTasks defs loopDefs none s = true) {t : List (Tagged Step Act)}
    (ht : (injectPapiProfiling defs loopDefs s pipelineName).threads t true) :
    Orderly .idle t .idle ∧ runAuto measure none (firstCalls t) = some none := by
  obtain ⟨body, hbody, rfl⟩ := completed_inject ht
  obtain ⟨horderly, hcalls⟩ := mutate_dutiful defs loopDefs s at_init hhost hforkless htasks body hbody
  have hmeasured := (mutate_measures defs loopDefs s at_init (q := none)).iff.mpr hnests
  obtain ⟨q, hq, hend⟩ := hmeasured _ true hcalls
  rw [hend rfl] at hq
  refine ⟨(Orderly.ofOwn rfl).append (horderly.append (.ofOwn rfl)), ?_⟩
  rw [firstCalls_append, firstCalls_append, runAuto_append]
  have hprologue : runAuto measure none (firstCalls (own ((prologue pipelineName
      (mutate defs loopDefs s init).2.indices.size
      (mutate defs loopDefs s init).2.loops.size).map .call))) = some none := by
    rw [firstCalls, filterMap_on_own]
    rfl
  rw [hprologue, Option.bind_some, runAuto_append, hq]
  rfl

/-- A statement whose loops are carried out by tasks is instrumented and runs to its end on the threads of a
pool, in any order, while samples are taken: the report says of every region and every thread of the pool
what that thread has spent there. -/
theorem inject_thread_rows {σ : Type} {lib : CounterLibrary σ} {env : Surroundings} {c : Pool σ} {p : Ptr}
    (hlib : lib.Counts) (hthreads : lib.CountsThreads) (hquiet : c.host.state.Quiet)
    (hrecord : env.mallocs.record = some p)
    (harrays : env.mallocs.arrays (mutate defs loopDefs s init).2.loops.size = true)
    (hhost : s.onHost = true) (hforkless : s.forkless = true)
    (hnests : neverNests defs loopDefs none .idle s = true)
    (htasks : neverInTasks defs loopDefs none s = true) (hloops : (profiledLoops loopDefs s).Nodup)
    {t : List (Tagged Step Act)} (ht : (injectPapiProfiling defs loopDefs s pipelineName).threads t true)
    {pool : Thread → ThreadIndex} (hone : OneAtATime pool t) {events : List PoolEvent}
    (hevents : events.filterMap PoolEvent.threadCall = t.filterMap (poolCall pool))
    (numberOfEvents : Nat) (string : Ptr → String) :
    let mutated := (mutate defs loopDefs s init).2
    let a := env.startArgs pipelineName mutated.indices.size mutated.loops.size
    ∃ c' effects stats, Machine.run (Pool.step lib env) c events = some (c', effects) ∧
      Pool.Reports c' p a (Pool.spentBy .idle events) stats ∧
      (regionRecords (c'.snapshot numberOfEvents string) p stats).map (fun R => (R.label, R.countOn)) =
        (listedRegions mutated.indices.size mutated.loops.size).map fun r =>
          (Metered.label a string r, fun thread => spentOn thread r (Pool.spentBy .idle events)) := by
  obtain ⟨horderly, hmeasure⟩ := inject_orderly hhost hforkless hnests htasks ht
  obtain ⟨m, hm, hregion⟩ := runAuto_poolCalls horderly hone hmeasure
  have hauto := (runAuto_measure_events hevents .idle).trans hm
  have hcalls := papiCalls_of_threadCalls hevents
  obtain ⟨body, hbody, rfl⟩ := completed_inject ht
  rw [List.filterMap_append, List.filterMap_append] at hcalls
  refine Pool.run_thread_rows hlib hthreads hquiet hrecord harrays hcalls (fun call hcall => ?_) hauto
    hregion numberOfEvents string
  rcases List.mem_append.mp hcall with hcall | hcall
  · fin_cases hcall <;> exact ⟨rfl, trivial⟩
  · rcases List.mem_append.mp hcall with hcall | hcall
    · obtain ⟨e, he, hc⟩ := List.mem_filterMap.mp hcall
      exact call_of_mem_body hloops hbody he hc
    · rw [List.mem_singleton.mp hcall]
      exact ⟨rfl, trivial⟩

end Inject

/-! ### A run in lockstep -/

/-- `n` tasks that do the same at the same time. -/
def lockstep (n : Nat) (t : List (Tagged Step Act)) : List (Tagged Step Act) :=
  t.flatMap fun e => (List.range n).map fun i => (.iteration i :: e.1, e.2)

/-- An execution in which every condition holds and every loop has `n` iterations, those of a parallel one in
lockstep. -/
def Stmt.turns (n : Nat) : Stmt PapiFn → List (Tagged Step Act)
  | .leaf l => own (l.papiCall.toList.map .call)
  | .scope h body => own (h.papiCall.toList.map .call) ++ body.turns n
  | .producerConsumer _ _ body | .ifThen _ body | .ifThenElse _ body _ => body.turns n
  | .for_ _ _ _ forType api body =>
      if api.isGpu then
        if forType.isParallel then own [.launch, .resume] else []
      else if forType.isParallel then
        own [.launch] ++ (lockstep n (own [.start] ++ (body.turns n ++ own [.finish])) ++ own [.resume])
      else (List.replicate n (body.turns n)).flatten
  | .block a b | .fork a b => a.turns n ++ b.turns n

theorem filterMap_range_of_lt {α : Type*} {n i : Nat} (hi : i < n) (x : α) :
    (List.range n).filterMap (fun j => if j = i then some x else none) = [x] := by
  induction n with
  | zero => exact absurd hi (Nat.not_lt_zero i)
  | succ n ih =>
    rw [List.range_succ, List.filterMap_append]
    by_cases heq : i = n
    · subst heq
      have hnil : (List.range i).filterMap (fun j => if j = i then some x else none) = [] :=
        List.filterMap_eq_nil_iff.mpr fun j hj => if_neg (List.mem_range.mp hj).ne
      rw [hnil]
      simp
    · rw [ih (by omega)]
      simp [Ne.symm heq]

theorem filterMap_below_lockstep {n i : Nat} (hi : i < n) (t : List (Tagged Step Act)) :
    (lockstep n t).filterMap (below (.iteration i)) = t := by
  have hone : ∀ e : Tagged Step Act, ((List.range n).map fun i => (Step.iteration i :: e.1, e.2)).filterMap
      (below (.iteration i)) = [e] := by
    intro e
    have hbelow : below (.iteration i) ∘ (fun j => (Step.iteration j :: e.1, e.2)) =
        fun j => if j = i then some e else none := by
      funext j
      simp [below]
    rw [List.filterMap_map, hbelow, filterMap_range_of_lt hi]
  induction t with
  | nil => rfl
  | cons e t ih =>
    rw [lockstep, List.flatMap_cons, List.filterMap_append, hone]
    exact congrArg (e :: ·) ih

theorem Stmt.threads_turns (n : Nat) (s : Stmt PapiFn) (hhost : s.onHost = true)
    (hforkless : s.forkless = true) : s.threads (s.turns n) true := by
  induction s with
  | leaf l =>
    rw [threads]
    split
    · next hassert =>
      cases l with
      | assertStmt c m => exact Or.inl ⟨rfl, rfl⟩
      | _ => cases hassert
    · exact ⟨rfl, rfl⟩
  | scope h body ih => exact seq_done_of _ (ih hhost hforkless)
  | producerConsumer _ _ body ih => exact ih hhost hforkless
  | for_ name min extent forType api body ih =>
    rw [onHost, Bool.and_eq_true, Bool.or_eq_true, bne_iff_ne] at hhost
    rw [threads, turns, if_neg hhost.1]
    split
    · split
      · exact seq_done_of (own [Act.launch]) (seq_done_of [] ⟨rfl, rfl⟩)
      · exact ⟨rfl, rfl⟩
    · next hgpu =>
      have hbody := ih (hhost.2.resolve_left hgpu) hforkless
      split
      · have htask : task .start .finish body.threads (own [.start] ++ (body.turns n ++ own [.finish])) true :=
          seq_done_of (own [Act.start]) (seq_of hbody ⟨rfl, rfl⟩)
        refine seq_done_of (own [Act.launch]) (seq_of ⟨n, fun _ => some true, fun e he => ?_, fun i hi => ?_,
          fun _ _ _ => rfl, fun h => (Bool.false_ne_true h.symm).elim,
          fun h => (Bool.false_ne_true h.symm).elim⟩ ⟨rfl, rfl⟩)
        · obtain ⟨e', _, he'⟩ := List.mem_flatMap.mp he
          obtain ⟨i, hi, rfl⟩ := List.mem_map.mp he'
          exact ⟨i, List.mem_range.mp hi, rfl⟩
        · rw [filterMap_below_lockstep hi]
          exact htask
      · refine ⟨n, seq_done_of [] ?_⟩
        exact iter_replicate hbody n
  | block a b iha ihb =>
    rw [onHost, Bool.and_eq_true] at hhost
    rw [forkless, Bool.and_eq_true] at hforkless
    exact seq_of (iha hhost.1 hforkless.1) (ihb hhost.2 hforkless.2)
  | fork a b => cases hforkless
  | ifThen c t ih => exact Or.inl (ih hhost hforkless)
  | ifThenElse c t e iht ihe =>
    rw [onHost, Bool.and_eq_true] at hhost
    rw [forkless, Bool.and_eq_true] at hforkless
    exact Or.inl (iht hhost.1 hforkless.1)

/-- A func whose loop is parallel. -/
def parallelFunc : Stmt Empty :=
  .producerConsumer "f" true (.for_ "f.s0.y" (.intImm 0) (.intImm 2) .parallel .host
    (.leaf (.provide "f" [.intImm 1] [.variable "f.s0.y"])))

def parallelFuncDefs : List ProfilerDef := [profile "f" PROFILE_PRODUCTION false true]

def parallelFuncTrace : List (Tagged Step Act) :=
  (injectPapiProfiling parallelFuncDefs [] parallelFunc "p").turns 2

/-- The thread that waits for the loop takes over the first of its iterations. -/
def parallelFuncPool : Thread → ThreadIndex
  | [.iteration 1] => 1
  | _ => 0

/-- After everything that it does a thread works for a while. -/
def worked (pool : Thread → ThreadIndex) (t : List (Tagged Step Act)) : List PoolEvent :=
  t.flatMap fun e => (poolCall pool e).toList.map (fun call => .call call.1 call.2) ++
    [.work (pool e.1) fun _ => 1]

theorem filterMap_threadCall_worked (pool : Thread → ThreadIndex) (t : List (Tagged Step Act)) :
    (worked pool t).filterMap PoolEvent.threadCall = t.filterMap (poolCall pool) := by
  induction t with
  | nil => rfl
  | cons e t ih =>
    rw [worked, List.flatMap_cons, List.filterMap_append, List.filterMap_cons]
    cases poolCall pool e with
    | none => exact ih
    | some call => exact congrArg (call :: ·) ih

theorem inject_thread_rows_parallelFunc :
    let mutated := (mutate parallelFuncDefs [] parallelFunc init).2
    let a := HostRun.oneRecord.startArgs "p" mutated.indices.size mutated.loops.size
    let events := worked parallelFuncPool parallelFuncTrace
    ∃ c' effects stats, Machine.run (Pool.step threadLibrary HostRun.oneRecord)
        ⟨⟨.initial, none⟩, fun _ _ => 0, fun _ _ _ _ => 0⟩ events = some (c', effects) ∧
      Pool.Reports c' 1 a (Pool.spentBy .idle events) stats ∧
      (regionRecords (c'.snapshot 1 fun _ => "f") 1 stats).map (fun R => (R.label, R.countOn)) =
        (listedRegions mutated.indices.size mutated.loops.size).map fun r =>
          (Metered.label a (fun _ => "f") r, fun thread => spentOn thread r (Pool.spentBy .idle events)) :=
  inject_thread_rows (t := parallelFuncTrace) threadLibrary_counts.1 threadLibrary_counts.2
    HostRun.quiet_initial rfl rfl (by decide) (by decide) (by decide) (by decide) (by decide)
    (Stmt.threads_turns 2 _ (by decide) (by decide)) (by decide) (filterMap_threadCall_worked _ _) 1 _

example : (spentOn 0 (.func 1 true) (Pool.spentBy .idle (worked parallelFuncPool parallelFuncTrace)) 0,
    spentOn 1 (.func 1 true) (Pool.spentBy .idle (worked parallelFuncPool parallelFuncTrace)) 0) = (3, 1) := by decide

end ProfHalide
