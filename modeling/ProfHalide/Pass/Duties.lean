import ProfHalide.Pass.HostCalls
import ProfHalide.Pass.Attribution

/-!
# Threads that count and threads that wait

Where nothing is forked and nothing is measured in the tasks of a loop, every thread of an instrumented
program keeps to a routine: a task counts from its first call to its last, but for the loops it waits for;
regions are entered and left by the first thread only, while it counts and no task is under way. Seen from
this thread, an execution with tasks makes the calls of a serial one in which their loops have no iterations.
-/

namespace ProfHalide

open InjectPAPIProfiling Behaviour Strands

/-! ### One thread -/

/-- A thread has nothing to do, or is at work without being counted, or counts, or waits for its tasks. -/
inductive Duty where
  | off | idle | counting | waiting
  deriving DecidableEq, Repr

/-- Calls that neither measure nor count. -/
def PapiCall.isPlain : PapiCall → Bool
  | .pipelineStart _ _ _ | .getState | .getPipelineState | .registerDestructor | .setCurrentFunc _ => true
  | _ => false

namespace Duty

def next : Duty → Act → Option Duty
  | .off, .start => some .idle
  | .idle, .finish => some .off
  | .idle, .launch => some .waiting
  | .waiting, .resume => some .idle
  | .idle, .call .incrActiveThreads => some .counting
  | .counting, .call .decrActiveThreads => some .idle
  | .idle, .call .enterParallelRegion | .idle, .call .leaveParallelRegion => some .idle
  | .counting, .call (.enter _) | .counting, .call (.leave _) => some .counting
  | .idle, .call c => if c.isPlain then some .idle else none
  | .counting, .call c => if c.isPlain then some .counting else none
  | _, _ => none

def isWorking : Duty → Bool
  | .idle | .counting => true
  | .off | .waiting => false

/-- Regions are entered and left by threads that count. -/
theorem counting_of_mark {d d' : Duty} {c : PapiCall} (hc : c.isMark = true)
    (h : d.next (.call c) = some d') : d = .counting := by
  cases c with
  | enter r | leave r =>
    cases d with
    | counting => rfl
    | _ => cases h
  | _ => cases hc

theorem isWorking_of_next {d d' : Duty} {act : Act} (h : d.next act = some d') :
    d'.isWorking = act.working d.isWorking := by
  cases act with
  | call c => cases d <;> cases c <;> cases h <;> rfl
  | _ => cases d <;> cases h <;> rfl

theorem isWorking_of_runAuto {d d' : Duty} {acts : List Act} (h : runAuto next d acts = some d') :
    d'.isWorking = acts.foldl Act.working d.isWorking := by
  induction acts generalizing d with
  | nil =>
    cases h
    rfl
  | cons act acts ih =>
    obtain ⟨d₁, hnext, hrest⟩ := Option.bind_eq_some_iff.mp h
    rw [List.foldl_cons, ← isWorking_of_next hnext]
    exact ih hrest

end Duty

/-! ### One execution -/

def Act.isMark (act : Act) : Bool := act.call?.any PapiCall.isMark

/-- The first thread goes from `d` to `d'`. The others come and go, measure nothing, and are off whenever the
first one does something. -/
structure Orderly (d : Duty) (t : List (Tagged Step Act)) (d' : Duty) : Prop where
  moves : runAuto Duty.next d (t.filterMap (on [])) = some d'
  others : ∀ i path, runAuto Duty.next .off (t.filterMap (on (i :: path))) = some .off
  alone : ∀ before act after, t = before ++ ([], act) :: after →
    ∀ i path, runAuto Duty.next .off (before.filterMap (on (i :: path))) = some .off
  marks : ∀ e ∈ t, e.1 ≠ [] → e.2.isMark = false

namespace Orderly

variable {d d' d'' : Duty} {t u : List (Tagged Step Act)}

theorem ofOwn {acts : List Act} (h : runAuto Duty.next d acts = some d') : Orderly d (own acts) d' where
  moves := by rw [filterMap_on_own, h]
  others i path := by rw [filterMap_on_own_cons]; rfl
  alone before act after heq i path := by
    have hbefore : before <+: own acts := ⟨_, heq.symm⟩
    have hnil : before.filterMap (on (i :: path)) <+: [] := by
      rw [← filterMap_on_own_cons i path acts]
      exact hbefore.filterMap _
    rw [List.prefix_nil.mp hnil]
    rfl
  marks e he hne := by
    obtain ⟨act, _, rfl⟩ := List.mem_map.mp he
    exact absurd rfl hne

theorem nil (d : Duty) : Orderly d [] d := @ofOwn d d [] rfl

theorem append (ht : Orderly d t d') (hu : Orderly d' u d'') : Orderly d (t ++ u) d'' where
  moves := by rw [List.filterMap_append, runAuto_append, ht.moves, Option.bind_some, hu.moves]
  others i path := by
    rw [List.filterMap_append, runAuto_append, ht.others, Option.bind_some, hu.others]
  alone before act after heq i path := by
    rcases List.append_eq_append_iff.mp heq with ⟨before', rfl, hrest⟩ | ⟨after', rfl, hrest⟩
    · rw [List.filterMap_append, runAuto_append, ht.others, Option.bind_some]
      exact hu.alone before' act after hrest i path
    · cases after' with
      | nil =>
        have hothers := ht.others i path
        rwa [List.append_nil] at hothers
      | cons e after' =>
        obtain ⟨rfl, rfl⟩ := List.cons.inj hrest
        exact ht.alone before act after' rfl i path
  marks e he hne := (List.mem_append.mp he).elim (ht.marks e · hne) (hu.marks e · hne)

end Orderly

/-- No task of the execution measures anything. -/
def Unmeasured (t : List (Tagged Step Act)) : Prop := ∀ e ∈ t, e.2.isMark = false

/-- A task comes and goes. -/
theorem task_off {P : Behaviour (Tagged Step Act)} (hP : ∀ t, P t true → Orderly .idle t .idle)
    {t : List (Tagged Step Act)} (ht : task .start .finish P t true) (path : Thread) :
    runAuto Duty.next .off (t.filterMap (on path)) = some .off := by
  obtain ⟨_, _, ⟨rfl, _⟩, ht', rfl⟩ := (seq_true _ _ _).mp ht
  obtain ⟨u, _, hu, ⟨rfl, _⟩, rfl⟩ := (seq_true _ _ _).mp ht'
  have horderly := hP u hu
  rw [List.filterMap_append, List.filterMap_append]
  cases path with
  | nil =>
    rw [filterMap_on_own, filterMap_on_own]
    simp only [runAuto_append, runAuto, Duty.next, Option.bind_some, horderly.moves]
  | cons i path =>
    rw [filterMap_on_own_cons, filterMap_on_own_cons, List.nil_append, List.append_nil]
    exact horderly.others i path

theorem task_unmeasured {P : Behaviour (Tagged Step Act)} (hP : ∀ t, P t true → Unmeasured t)
    {t : List (Tagged Step Act)} (ht : task .start .finish P t true) : Unmeasured t := by
  obtain ⟨_, _, ⟨rfl, _⟩, ht', rfl⟩ := (seq_true _ _ _).mp ht
  obtain ⟨u, _, hu, ⟨rfl, _⟩, rfl⟩ := (seq_true _ _ _).mp ht'
  intro e he
  rcases List.mem_append.mp he with he | he
  · rw [List.mem_singleton.mp he]
    rfl
  · rcases List.mem_append.mp he with he | he
    · exact hP u hu e he
    · rw [List.mem_singleton.mp he]
      rfl

/-- Tasks come and go, while the thread that waits for them stays where it is. -/
theorem Orderly.tasks {P : Behaviour (Tagged Step Act)} {child : Nat → Step} {overlap : Bool}
    (hP : ∀ t, P t true → Orderly .idle t .idle) (hmarks : ∀ t, P t true → Unmeasured t)
    {t : List (Tagged Step Act)} (ht : tasks child overlap (task .start .finish P) t true) (d : Duty) :
    Orderly d t d := by
  have hfirst := filterMap_on_tasks ht
  obtain ⟨n, outcome, hchild, houtcome, hok, _⟩ := ht
  have htask : ∀ i < n, task .start .finish P (t.filterMap (below (child i))) true := by
    intro i hi
    have hdone := houtcome i hi
    rwa [hok rfl i hi] at hdone
  refine ⟨by rw [hfirst]; rfl, fun j path => ?_, fun before act after heq => ?_, fun e he _ => ?_⟩
  · rw [filterMap_on_cons]
    by_cases hj : ∃ i < n, j = child i
    · obtain ⟨i, hi, rfl⟩ := hj
      exact task_off hP (htask i hi) path
    · rw [filterMap_below_tasks hchild hj]
      rfl
  · obtain ⟨i, _, hhead⟩ := hchild ([], act) (by rw [heq]; simp)
    cases hhead
  · obtain ⟨i, hi, hhead⟩ := hchild e he
    obtain ⟨path, act⟩ := e
    cases path with
    | nil => cases hhead
    | cons j path =>
      cases hhead
      exact task_unmeasured hmarks (htask i hi) (path, act) (List.mem_filterMap.mpr ⟨_, he, if_pos rfl⟩)

theorem counting_unmeasured : CallsOnly.Counting fun c => c.isMark = false := ⟨rfl, rfl, rfl, rfl⟩

theorem CallsOnly.unmeasured {r : Stmt PapiFn} (h : CallsOnly (fun c => c.isMark = false) r)
    (t : List (Tagged Step Act)) (ht : r.threads t true) : Unmeasured t := by
  intro e he
  have htext := r.threads_inText none t true ht e he
  cases hact : e.2 with
  | call c =>
    obtain ⟨next, hsite⟩ := htext c hact
    exact h none _ hsite
  | _ => rfl

/-! ### Statements -/

/-- What the first thread calls. -/
def firstCalls (t : List (Tagged Step Act)) : List PapiCall := (t.filterMap (on [])).filterMap Act.call?

theorem firstCalls_append (t u : List (Tagged Step Act)) :
    firstCalls (t ++ u) = firstCalls t ++ firstCalls u := by
  rw [firstCalls, List.filterMap_append, List.filterMap_append]
  rfl

/-- Every completed execution takes the first thread from `d` to `d'`, and makes it call what it would call
if it were the only one. -/
def Dutiful (d : Duty) (r : Stmt PapiFn) (d' : Duty) : Prop :=
  ∀ t, r.threads t true → Orderly d t d' ∧ r.papiTrace (firstCalls t) true

namespace Dutiful

variable {d d' d'' : Duty} {r r' : Stmt PapiFn}

theorem call {fn : PapiFn} {args : List (Expr PapiFn)} {c : PapiCall} (hfn : fn.decode args = some c)
    (h : d.next (.call c) = some d') : Dutiful d (.evaluate (.call fn args)) d' := by
  intro t ht
  rw [Stmt.threads_call hfn] at ht
  rw [ht.1, Stmt.papiTrace_call hfn, firstCalls, filterMap_on_own]
  exact ⟨.ofOwn (by rw [runAuto, h]; rfl), rfl, rfl⟩

theorem block (h : Dutiful d r d') (h' : Dutiful d' r' d'') : Dutiful d (.blockMake r r') d'' := by
  intro t ht
  rw [Stmt.threads_blockMake, seq_true] at ht
  obtain ⟨u, v, hu, hv, rfl⟩ := ht
  obtain ⟨horderly, hcalls⟩ := h u hu
  obtain ⟨horderly', hcalls'⟩ := h' v hv
  rw [Stmt.papiTrace_blockMake, firstCalls_append]
  exact ⟨horderly.append horderly', seq_of hcalls hcalls'⟩

theorem between (c c' : PapiCall) {fn fn' : PapiFn} {args args' : List (Expr PapiFn)} {d₁ d₂ : Duty}
    (hfn : fn.decode args = some c) (hfn' : fn'.decode args' = some c') (h : Dutiful d₁ r d₂)
    (hopen : d.next (.call c) = some d₁) (hclose : d₂.next (.call c') = some d') :
    Dutiful d (.blockOf [.evaluate (.call fn args), r] (.evaluate (.call fn' args'))) d' :=
  (call hfn hopen).block (h.block (call hfn' hclose))

theorem measured (h : Dutiful .counting r .counting) (hr : Measured r r') :
    Dutiful .counting r' .counting := by
  cases hr with
  | plain => exact h
  | overhead idx =>
    exact between (.enter (.overhead idx)) (.leave (.overhead idx)) rfl rfl h rfl rfl
  | func fid p => exact between _ _ (decode_enterCurrentFunc fid p) (decode_leaveCurrentFunc fid p) h rfl rfl

theorem paused (h : Dutiful .counting r .counting) (hr : Paused r r') : Dutiful .counting r' .counting := by
  cases hr with
  | plain => exact h
  | overhead idx =>
    exact between (.leave (.overhead idx)) (.enter (.overhead idx)) rfl rfl h rfl rfl

theorem bracketLoop (h : Dutiful .counting r .counting) (loopDefs : List ProfilerLoop) (name : String)
    (st : InjectPAPIProfiling) :
    Dutiful .counting (ProfHalide.bracketLoop loopDefs name r st).1 .counting := by
  unfold ProfHalide.bracketLoop
  split
  · exact between (.enter (.loop _)) (.leave (.loop _)) rfl rfl h rfl rfl
  · exact h

/-- A task counts from its first call to its last. -/
theorem counted (h : Dutiful .counting r .counting) :
    Dutiful .idle (.blockOf [incrActiveThreads, r] decrActiveThreads) .idle :=
  between .incrActiveThreads .decrActiveThreads rfl rfl h rfl rfl

/-- The thread that launches a loop does not count meanwhile. -/
theorem launched (h : Dutiful .idle r .idle) :
    Dutiful .counting (.blockOf [decrActiveThreads, enterParallelRegion, r, leaveParallelRegion]
      incrActiveThreads) .counting := by
  rw [launch_eq]
  exact between .decrActiveThreads .incrActiveThreads rfl rfl
    (between .enterParallelRegion .leaveParallelRegion rfl rfl h rfl rfl) rfl rfl

theorem leaf (l : Leaf Empty) (d : Duty) : Dutiful d (.leaf (l.mapCall Empty.elim)) d := by
  intro t ht
  have hnil : t = [] := by
    rw [Stmt.threads, Leaf.papiCall_lift] at ht
    split at ht
    · exact ht.elim And.left fun h => absurd h.2 (by simp)
    · exact ht.1
  subst hnil
  refine ⟨.nil d, ?_⟩
  rw [Stmt.papiTrace_leaf, Leaf.papiCall_lift]
  split
  · exact Or.inl ⟨rfl, rfl⟩
  · exact ⟨rfl, rfl⟩

theorem scope (h : Scope Empty) (hr : Dutiful d r d') : Dutiful d (.scope (h.mapCall Empty.elim) r) d' := by
  intro t ht
  rw [Stmt.threads, Scope.papiCall_lift, Option.toList_none, List.map_nil] at ht
  rw [Stmt.papiTrace_scope, Scope.papiCall_lift, Option.toList_none, seq_done_nil]
  exact hr t (by rwa [← seq_done_nil r.threads])

theorem ifThen (c : Expr PapiFn) (h : Dutiful d r d) : Dutiful d (.ifThen c r) d := by
  intro t ht
  rw [Stmt.papiTrace_ifThen]
  rcases ht with ht | ⟨rfl, _⟩
  · exact ⟨(h t ht).1, Or.inl (h t ht).2⟩
  · exact ⟨.nil d, Or.inr ⟨rfl, rfl⟩⟩

theorem ifThenElse (c : Expr PapiFn) (h : Dutiful d r d') (h' : Dutiful d r' d') :
    Dutiful d (.ifThenElse c r r') d' := by
  intro t ht
  rw [Stmt.papiTrace_ifThenElse]
  rcases ht with ht | ht
  · exact ⟨(h t ht).1, Or.inl (h t ht).2⟩
  · exact ⟨(h' t ht).1, Or.inr (h' t ht).2⟩

/-- The iterations of a serial loop. -/
theorem rounds (h : Dutiful d r d) (n : Nat) {t : List (Tagged Step Act)} (ht : iter r.threads n t true) :
    Orderly d t d ∧ iter r.papiTrace n (firstCalls t) true := by
  induction n generalizing t with
  | zero =>
    obtain ⟨rfl, _⟩ := ht
    exact ⟨.nil d, rfl, rfl⟩
  | succ n ih =>
    obtain ⟨u, v, hu, hv, rfl⟩ := (seq_true _ _ _).mp ht
    obtain ⟨horderly, hcalls⟩ := h u hu
    obtain ⟨horderly', hcalls'⟩ := ih hv
    rw [firstCalls_append]
    exact ⟨horderly.append horderly', seq_of hcalls hcalls'⟩

section Loop

variable (name : String) (min extent : Expr PapiFn) {forType : ForType} {api : DeviceAPI}

/-- A loop without iterations calls nothing. -/
theorem papiTrace_for_nil : (Stmt.for_ name min extent forType api r).papiTrace [] true := by
  rw [Stmt.papiTrace_for]
  exact ⟨0, Or.inl ⟨[], [], ⟨rfl, rfl⟩, ⟨rfl, rfl⟩, rfl⟩⟩

/-- A loop that the thread carries out itself, or that runs inside device code. -/
theorem for_serial (hupdate : updateActiveThreads forType api = false)
    (h : api.isGpu = false → Dutiful d r d) : Dutiful d (.for_ name min extent forType api r) d := by
  rw [updateActiveThreads, Bool.or_eq_false_iff, beq_eq_false_iff_ne] at hupdate
  intro t ht
  rw [Stmt.threads, if_neg hupdate.1, hupdate.2, if_neg Bool.false_ne_true,
    if_neg Bool.false_ne_true] at ht
  cases hgpu : api.isGpu with
  | true =>
    rw [hgpu, if_pos rfl] at ht
    rw [ht.1]
    exact ⟨.nil d, papiTrace_for_nil name min extent⟩
  | false =>
    rw [hgpu, if_neg Bool.false_ne_true] at ht
    obtain ⟨n, hn⟩ := ht
    rw [seq_done_nil] at hn
    obtain ⟨horderly, hcalls⟩ := (h hgpu).rounds n hn
    rw [Stmt.papiTrace_for]
    exact ⟨horderly, n, by rwa [seq_done_nil]⟩

/-- A loop that is launched, and waited for. -/
theorem for_launched (hupdate : updateActiveThreads forType api = true) (hhost : api ≠ .hexagon)
    (h : api.isGpu = false → Dutiful .idle r .idle ∧ ∀ t, r.threads t true → Unmeasured t) :
    Dutiful .idle (.for_ name min extent forType api r) .idle := by
  have hparallel : forType.isParallel = true := by
    rw [updateActiveThreads, beq_eq_false_iff_ne.mpr hhost, Bool.false_or] at hupdate
    exact hupdate
  have hlaunched : ∀ {P : Behaviour (Tagged Step Act)} {t : List (Tagged Step Act)},
      ProfHalide.launched P t true → (∀ u, P u true → Orderly .waiting u .waiting ∧ firstCalls u = []) →
      Orderly .idle t .idle ∧ firstCalls t = [] := by
    intro P t ht hP
    obtain ⟨_, _, ⟨rfl, _⟩, ht', rfl⟩ := (seq_true _ _ _).mp ht
    obtain ⟨u, _, hu, ⟨rfl, _⟩, rfl⟩ := (seq_true _ _ _).mp ht'
    obtain ⟨horderly, hcalls⟩ := hP u hu
    refine ⟨(Orderly.ofOwn rfl).append (horderly.append (.ofOwn rfl)), ?_⟩
    rw [firstCalls_append, firstCalls_append, hcalls]
    rfl
  intro t ht
  rw [Stmt.threads, if_neg hhost, hparallel, if_pos rfl, if_pos rfl] at ht
  cases hgpu : api.isGpu with
  | true =>
    rw [hgpu, if_pos rfl] at ht
    obtain ⟨horderly, hcalls⟩ := hlaunched ht fun u hu => by rw [hu.1]; exact ⟨.nil _, rfl⟩
    rw [hcalls]
    exact ⟨horderly, papiTrace_for_nil name min extent⟩
  | false =>
    rw [hgpu, if_neg Bool.false_ne_true] at ht
    obtain ⟨hr, hmarks⟩ := h hgpu
    obtain ⟨horderly, hcalls⟩ := hlaunched ht fun u hu =>
      ⟨.tasks (fun t ht => (hr t ht).1) hmarks hu .waiting, by rw [firstCalls, filterMap_on_tasks hu]; rfl⟩
    rw [hcalls]
    exact ⟨horderly, papiTrace_for_nil name min extent⟩

end Loop

end Dutiful

/-! ### The condition on the source -/

/-- Nothing is forked. -/
def Stmt.forkless {κ : Type} : Stmt κ → Bool
  | .leaf _ => true
  | .scope _ body | .producerConsumer _ _ body | .ifThen _ body | .for_ _ _ _ _ _ body => body.forkless
  | .block a b | .ifThenElse _ a b => a.forkless && b.forkless
  | .fork _ _ => false

section Condition

variable (defs : List ProfilerDef) (loopDefs : List ProfilerLoop)

/-- Neither a loop that tasks carry out nor anything in it is measured, which is to say that it could stand
where anything is being measured. `around` is as for `neverNests`. -/
def neverInTasks : Option (String × Bool) → Stmt Empty → Bool
  | _, .leaf _ => true
  | around, .scope _ body | around, .ifThen _ body => neverInTasks around body
  | around, .block a b | around, .fork a b | around, .ifThenElse _ a b =>
      neverInTasks around a && neverInTasks around b
  | around, .for_ name min extent forType api body =>
      if updateActiveThreads forType api then
        neverNests defs loopDefs around .busy (.for_ name min extent forType api body)
      else api.isGpu || neverInTasks around body
  | around, .producerConsumer name isProducer body =>
      let it := defs.find? fun d => d.matches name isProducer (around.elim "overhead" (·.1))
      neverInTasks (if isProducer then some (normalizeName name, it.any (·.enable)) else around) body

variable {defs loopDefs}

/-- A loop that could stand where anything is being measured is not measured. -/
theorem neverNests_busy_for {around : Option (String × Bool)} {name : String} {min extent : Expr Empty}
    {forType : ForType} {api : DeviceAPI} {body : Stmt Empty}
    (h : neverNests defs loopDefs around .busy (.for_ name min extent forType api body) = true) :
    loopDefs.any (·.matches name) = false ∧
      (api.isGpu = false → neverNests defs loopDefs around .busy body = true) := by
  rw [neverNests, ite_self, Bool.and_eq_true, Bool.or_eq_true, Bool.or_eq_true] at h
  refine ⟨by simpa using h.1.resolve_right (by decide), fun hgpu => h.2.resolve_left ?_⟩
  rw [hgpu]
  exact Bool.false_ne_true

/-- Nor is such a node. -/
theorem neverNests_busy_node {around : Option (String × Bool)} {name : String} {isProducer : Bool}
    {body : Stmt Empty}
    (h : neverNests defs loopDefs around .busy (.producerConsumer name isProducer body) = true) :
    let it := defs.find? fun d => d.matches name isProducer (around.elim "overhead" (·.1))
    (it.any (·.enable) || (it.isNone && around.any (·.2))) = false ∧
      neverNests defs loopDefs (if isProducer then some (normalizeName name, it.any (·.enable)) else around)
        .busy body = true := by
  rw [neverNests] at h
  split at h
  · rw [Bool.and_eq_true] at h
    cases around <;> exact absurd h.1 (by simp)
  · next hprofiled => exact ⟨by simpa using hprofiled, h⟩

theorem neverInTasks_of_neverNests {s : Stmt Empty} {around : Option (String × Bool)}
    (h : neverNests defs loopDefs around .busy s = true) :
    neverInTasks defs loopDefs around s = true := by
  induction s generalizing around with
  | leaf l => rfl
  | scope _ body ih | ifThen _ body ih => exact ih h
  | block a b iha ihb | fork a b iha ihb | ifThenElse _ a b iha ihb =>
    rw [neverNests, Bool.and_eq_true] at h
    rw [neverInTasks, iha h.1, ihb h.2]
    rfl
  | for_ name min extent forType api body ih =>
    rw [neverInTasks]
    split
    · exact h
    · cases hgpu : api.isGpu with
      | true => rfl
      | false => exact ih ((neverNests_busy_for h).2 hgpu)
  | producerConsumer name isProducer body ih =>
    exact ih (neverNests_busy_node h).2

end Condition

/-! ### The mutator -/

section Mutate

variable (defs : List ProfilerDef) (loopDefs : List ProfilerLoop)

theorem bracketLoop_of_not_any {name : String} (h : loopDefs.any (·.matches name) = false)
    (stmt : Stmt PapiFn) (st : InjectPAPIProfiling) : (bracketLoop loopDefs name stmt st).1 = stmt := by
  rw [← List.isSome_find?, Option.isSome_eq_false_iff, Option.isNone_iff_eq_none] at h
  rw [bracketLoop, h]

theorem visitForBody_fst {api : DeviceAPI} (hhost : api ≠ .hexagon) (forType : ForType)
    (opBody : Stmt Empty) (mutateBody : Mutation) (st : InjectPAPIProfiling) :
    (visitForBody forType api opBody mutateBody st).1 =
      if api.isGpu then opBody.lift else countBody forType api (mutateBody st).1 := by
  cases api <;> first | rfl | exact absurd rfl hhost

theorem registration_eq {around : Option (String × Bool)} {slot : Slot} {st : InjectPAPIProfiling}
    {q : Option Region} (hat : At around slot st q) (name : String) (isProducer : Bool) :
    (defs.find? fun d => d.matches name isProducer (around.elim "overhead" (·.1))) =
      registration defs name isProducer st := by
  rw [registration, hat.parentName_eq]

/-- A node that is not measured. -/
theorem mutate_unprofiled {around : Option (String × Bool)} {slot : Slot} {st : InjectPAPIProfiling}
    {q : Option Region} (name : String) (isProducer : Bool) (body : Stmt Empty) (hat : At around slot st q)
    (h : let it := defs.find? fun d => d.matches name isProducer (around.elim "overhead" (·.1))
      (it.any (·.enable) || (it.isNone && around.any (·.2))) = false) :
    ∃ idx, (mutate defs loopDefs (.producerConsumer name isProducer body) st).1 =
      .producerConsumer name isProducer (.blockMake (setCurrentFunc idx)
        (mutate defs loopDefs body (beforeBody defs name isProducer st)).1) := by
  have hnode := hat.frame
    (visitedBody_frame defs name isProducer (mutate_frame defs loopDefs body (beforeBody defs name isProducer st)))
  dsimp only at h
  rw [registration_eq defs hat] at h
  rw [mutate, visitProducerConsumer_eq, finishNode_fst, inherit_fst, hnode.any_profileStack,
    visitedBody_body]
  simp only [registeredStatus]
  rw [h]
  exact ⟨_, rfl⟩

/-- Nothing is measured where nothing may be. -/
theorem mutate_unmeasured (s : Stmt Empty) {around : Option (String × Bool)} {st : InjectPAPIProfiling}
    (hat : At around .idle st none) (hhost : s.onHost = true)
    (h : neverNests defs loopDefs around .busy s = true) :
    CallsOnly (fun c => c.isMark = false) (mutate defs loopDefs s st).1 := by
  induction s generalizing around st with
  | leaf l => exact CallsOnly.lift (.leaf l)
  | scope h' body ih => exact CallsOnly.lift_scope h' (ih hat hhost h)
  | ifThen c t ih => exact ih hat hhost h
  | block a b iha ihb | fork a b iha ihb | ifThenElse c a b iha ihb =>
    rw [neverNests, Bool.and_eq_true] at h
    rw [Stmt.onHost, Bool.and_eq_true] at hhost
    have ha := iha hat hhost.1 h.1
    have hb := ihb (hat.frame (mutate_frame defs loopDefs a st)) hhost.2 h.2
    first
      | exact ha.block hb
      | exact ha.fork hb
      | exact ha.ifThenElse _ hb
  | for_ name min extent forType api body ih =>
    obtain ⟨hregistered, hnests⟩ := neverNests_busy_for h
    rw [Stmt.onHost, Bool.and_eq_true, Bool.or_eq_true, bne_iff_ne] at hhost
    rw [mutate, visitFor_fst, bracketLoop_of_not_any loopDefs hregistered, visitForBody_fst hhost.1]
    have hbody : CallsOnly (fun c => c.isMark = false)
        (if api.isGpu then body.lift else countBody forType api (mutate defs loopDefs body st).1) := by
      cases hgpu : api.isGpu with
      | true => exact CallsOnly.lift body
      | false =>
        have hinner := ih hat (hhost.2.resolve_left (by simp [hgpu])) (hnests hgpu)
        rw [if_neg Bool.false_ne_true, countBody]
        split
        · exact CallsOnly.counted counting_unmeasured hinner
        · exact hinner
    have hfor := CallsOnly.for_ name (min.mapCall Empty.elim) (extent.mapCall Empty.elim) forType api hbody
    unfold bracketLaunch
    split
    · exact CallsOnly.launched counting_unmeasured hfor
    · exact hfor
  | producerConsumer name isProducer body ih =>
    obtain ⟨hprofiled, hnests⟩ := neverNests_busy_node h
    obtain ⟨idx, heq⟩ := mutate_unprofiled defs loopDefs name isProducer body hat hprofiled
    rw [registration_eq defs hat] at hnests
    have hbody := ih (hat.beforeBody defs name isProducer rfl) hhost hnests
    have hset : CallsOnly (fun c => c.isMark = false) (setCurrentFunc idx) :=
      .decoded (c := .setCurrentFunc idx) rfl rfl
    rw [heq]
    exact hset.block hbody

/-- With nothing forked and nothing measured in tasks, a thread that counts carries out the mutated statement
and counts again. -/
theorem mutate_dutiful (s : Stmt Empty) {around : Option (String × Bool)} {st : InjectPAPIProfiling}
    (hat : At around .idle st none) (hhost : s.onHost = true) (hforkless : s.forkless = true)
    (h : neverInTasks defs loopDefs around s = true) :
    Dutiful .counting (mutate defs loopDefs s st).1 .counting := by
  induction s generalizing around st with
  | leaf l => exact .leaf l .counting
  | scope h' body ih => exact (ih hat hhost hforkless h).scope h'
  | ifThen c t ih => exact (ih hat hhost hforkless h).ifThen _
  | fork a b => cases hforkless
  | block a b iha ihb | ifThenElse c a b iha ihb =>
    rw [neverInTasks, Bool.and_eq_true] at h
    rw [Stmt.onHost, Bool.and_eq_true] at hhost
    rw [Stmt.forkless, Bool.and_eq_true] at hforkless
    have ha := iha hat hhost.1 hforkless.1 h.1
    have hb := ihb (hat.frame (mutate_frame defs loopDefs a st)) hhost.2 hforkless.2 h.2
    first
      | exact ha.block hb
      | exact ha.ifThenElse _ hb
  | for_ name min extent forType api body ih =>
    rw [neverInTasks] at h
    rw [Stmt.onHost, Bool.and_eq_true, Bool.or_eq_true, bne_iff_ne] at hhost
    rw [mutate, visitFor_fst, visitForBody_fst hhost.1, bracketLaunch, countBody]
    cases hupdate : updateActiveThreads forType api with
    | true =>
      rw [hupdate, if_pos rfl] at h
      obtain ⟨hregistered, hnests⟩ := neverNests_busy_for h
      rw [if_pos rfl, if_pos rfl, bracketLoop_of_not_any loopDefs hregistered]
      refine (Dutiful.for_launched _ _ _ hupdate hhost.1 fun hgpu => ?_).launched
      have hbody := hhost.2.resolve_left (by simp [hgpu])
      rw [hgpu, if_neg Bool.false_ne_true]
      refine ⟨(ih hat hbody hforkless (neverInTasks_of_neverNests (hnests hgpu))).counted, ?_⟩
      have hunmeasured := mutate_unmeasured defs loopDefs body hat hbody (hnests hgpu)
      exact (CallsOnly.counted counting_unmeasured hunmeasured).unmeasured
    | false =>
      rw [hupdate, if_neg Bool.false_ne_true, Bool.or_eq_true] at h
      rw [if_neg Bool.false_ne_true, if_neg Bool.false_ne_true]
      refine (Dutiful.for_serial _ _ _ hupdate fun hgpu => ?_).bracketLoop loopDefs name _
      rw [hgpu, if_neg Bool.false_ne_true]
      exact ih hat (hhost.2.resolve_left (by simp [hgpu])) hforkless (h.resolve_left (by simp [hgpu]))
  | producerConsumer name isProducer body ih =>
    obtain ⟨idx, inner, hinner, hpaused⟩ :=
      visitProducerConsumer_shape defs name isProducer (mutate defs loopDefs body) st
    rw [neverInTasks, registration_eq defs hat] at h
    have hbody := ih (hat.beforeBody defs name isProducer rfl) hhost hforkless h
    have hset : Dutiful .counting (setCurrentFunc idx) .counting := .call (c := .setCurrentFunc idx) rfl rfl
    have hnode : Dutiful .counting (.producerConsumer name isProducer (.blockMake (setCurrentFunc idx) inner))
        .counting := hset.block (hbody.measured hinner)
    exact hnode.paused hpaused

end Mutate

end ProfHalide
