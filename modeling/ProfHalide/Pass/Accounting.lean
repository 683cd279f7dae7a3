import ProfHalide.Pass.Shape
import ProfHalide.Halide.Threads

/-!
# The number of active threads

The pass counts a thread in when it enters the statement or a task and out when it leaves, and out and
in again around a loop it waits for. Every thread taken alone passes through the states of `Activity`,
and adding up over the threads the count is right whenever no thread is in between.
-/

namespace ProfHalide

open InjectPAPIProfiling Behaviour Strands

/-! ### One thread -/

/-- Where a thread is between a task's start and end and around the loops it launches. -/
inductive Activity where
  | absent | started | active | leaving | waiting | resumed
  /-- An assertion has failed, and the thread has returned. -/
  | failed
  deriving DecidableEq, Repr

/-- The calls and the starts, ends, launches and waits as the pass arranges them. -/
def Activity.next : Activity → Act → Option Activity
  | .absent, .start => some .started
  | .started, .call .incrActiveThreads => some .active
  | .active, .call .decrActiveThreads => some .leaving
  | .leaving, .finish => some .absent
  | .leaving, .launch => some .waiting
  | .waiting, .resume => some .resumed
  | .resumed, .call .incrActiveThreads => some .active
  | .failed, _ | _, .fails => some .failed
  | _, .call .incrActiveThreads | _, .call .decrActiveThreads => none
  | _, .start | _, .finish | _, .launch | _, .resume => none
  | a, .call _ => some a

/-- What a call adds to `active_threads`. -/
def Act.delta : Act → Int
  | .call .incrActiveThreads => 1
  | .call .decrActiveThreads => -1
  | _ => 0

/-- Whether the thread is inside the statement or a task and not waiting for a loop. -/
def Act.working (inside : Bool) : Act → Bool
  | .start | .resume => true
  | .finish | .launch | .fails => false
  | .call _ => inside

/-- Whether the thread is between a call and the start, end or launch the call accompanies. -/
def Act.between (pending : Bool) : Act → Bool
  | .start | .resume | .call .decrActiveThreads => true
  | .finish | .launch | .call .incrActiveThreads => false
  | .call _ | .fails => pending

theorem Activity.next_call {c : PapiCall} (hincr : c ≠ .incrActiveThreads)
    (hdecr : c ≠ .decrActiveThreads) (a : Activity) : a.next (.call c) = some a := by
  cases a <;> cases c <;> first | rfl | exact absurd rfl hincr | exact absurd rfl hdecr

theorem Activity.next_fails (a : Activity) : a.next .fails = some .failed := by
  cases a <;> rfl

/-! ### Statements, thread by thread -/

/-- What the thread at `path` does in `s` takes it from `a` to `a'`. -/
def Moves (path : Thread) (a : Activity) (s : Stmt PapiFn) (a' : Activity) : Prop :=
  Leads Activity.next a (image (on path) s.threads) a'

/-- Not a thread that a fork has started. -/
def Thread.OffFork (path : Thread) : Prop := ∀ depth, Step.async depth ∉ path

/-- Where a thread is before and after a statement: active if it carries the statement out, else not
there. -/
def home : Thread → Activity
  | [] => .active
  | _ :: _ => .absent

/-- Every thread comes back to where it was. -/
def Accounts (s : Stmt PapiFn) : Prop :=
  ∀ path : Thread, path.OffFork → Moves path (home path) s (home path)

theorem leads_own {acts : List Act} {a a' : Activity}
    (h : runAuto Activity.next a acts = some a') :
    Leads Activity.next a (image (on ([] : Thread)) (done (own acts))) a' := by
  rw [image_done, filterMap_on_own]
  exact Leads.done h

theorem leads_own_cons (i : Step) (path : Thread) (acts : List Act) (a : Activity) :
    Leads Activity.next a (image (on (i :: path)) (done (own acts))) a := by
  rw [image_done, filterMap_on_own_cons]
  exact Leads.done rfl

theorem Moves.block {path : Thread} {a a' a'' : Activity} {r r' : Stmt PapiFn}
    (h : Moves path a r a') (h' : Moves path a' r' a'') : Moves path a (.blockMake r r') a'' := by
  rw [Moves, Stmt.threads_blockMake, image_seq]
  exact Leads.seq h h'

theorem moves_call {fn : PapiFn} {args : List (Expr PapiFn)} {c : PapiCall} {a a' : Activity}
    (hfn : fn.decode args = some c) (h : a.next (.call c) = some a') :
    Moves [] a (.evaluate (.call fn args)) a' := by
  rw [Moves, Stmt.threads_call hfn]
  exact leads_own (by rw [runAuto, h]; rfl)

theorem moves_call_cons {fn : PapiFn} {args : List (Expr PapiFn)} {c : PapiCall}
    (hfn : fn.decode args = some c) (i : Step) (path : Thread) (a : Activity) :
    Moves (i :: path) a (.evaluate (.call fn args)) a := by
  rw [Moves, Stmt.threads_call hfn]
  exact leads_own_cons i path _ a

/-- A call that does not count moves no thread. -/
theorem moves_other {fn : PapiFn} {args : List (Expr PapiFn)} {c : PapiCall}
    (hfn : fn.decode args = some c) (hincr : c ≠ .incrActiveThreads)
    (hdecr : c ≠ .decrActiveThreads) (path : Thread) (a : Activity) :
    Moves path a (.evaluate (.call fn args)) a := by
  cases path with
  | nil => exact moves_call hfn (Activity.next_call hincr hdecr a)
  | cons i path => exact moves_call_cons hfn i path a

theorem Moves.between {path : Thread} {a a' : Activity} {r n n' : Stmt PapiFn}
    (hn : ∀ b, Moves path b n b) (h : Moves path a r a') (hn' : ∀ b, Moves path b n' b) :
    Moves path a (.blockOf [n, r] n') a' := (hn a).block (h.block (hn' a'))

theorem Moves.measured {path : Thread} {a a' : Activity} {r r' : Stmt PapiFn} (h : Moves path a r a')
    (hr : Measured r r') : Moves path a r' a' := by
  cases hr with
  | plain => exact h
  | overhead idx =>
    exact h.between (moves_other (c := .enter (.overhead idx)) rfl (by simp) (by simp) path)
      (moves_other (c := .leave (.overhead idx)) rfl (by simp) (by simp) path)
  | func fid p =>
    exact h.between (moves_other (c := .enter (.func fid p)) (by cases p <;> rfl) (by simp) (by simp) path)
      (moves_other (c := .leave (.func fid p)) (by cases p <;> rfl) (by simp) (by simp) path)

theorem Moves.paused {path : Thread} {a a' : Activity} {r r' : Stmt PapiFn} (h : Moves path a r a')
    (hr : Paused r r') : Moves path a r' a' := by
  cases hr with
  | plain => exact h
  | overhead idx =>
    exact h.between (moves_other (c := .leave (.overhead idx)) rfl (by simp) (by simp) path)
      (moves_other (c := .enter (.overhead idx)) rfl (by simp) (by simp) path)

theorem Moves.bracketLoop {path : Thread} {a a' : Activity} {r : Stmt PapiFn}
    (loopDefs : List ProfilerLoop) (name : String) (st : InjectPAPIProfiling) (h : Moves path a r a') :
    Moves path a (bracketLoop loopDefs name r st).1 a' := by
  unfold ProfHalide.bracketLoop
  split
  · exact h.between (moves_other (c := .enter (.loop st.loops.size)) rfl (by simp) (by simp) path)
      (moves_other (c := .leave (.loop st.loops.size)) rfl (by simp) (by simp) path)
  · exact h

/-! ### Loops -/

/-- The body of a task, between the two calls that count its thread. -/
theorem Accounts.counted {r : Stmt PapiFn} (h : Accounts r) :
    Moves [] .started (.blockOf [incrActiveThreads, r] decrActiveThreads) .leaving ∧
    ∀ i path, Thread.OffFork (i :: path) →
      Moves (i :: path) .absent (.blockOf [incrActiveThreads, r] decrActiveThreads) .absent := by
  refine ⟨?_, fun i path hpath => ?_⟩
  · have hincr : Moves [] .started incrActiveThreads .active := moves_call rfl rfl
    have hdecr : Moves [] .active decrActiveThreads .leaving := moves_call rfl rfl
    exact hincr.block ((h [] (by simp [Thread.OffFork])).block hdecr)
  · have hincr : Moves (i :: path) .absent incrActiveThreads .absent := moves_call_cons rfl i path _
    have hdecr : Moves (i :: path) .absent decrActiveThreads .absent := moves_call_cons rfl i path _
    exact hincr.block ((h (i :: path) hpath).block hdecr)

/-- A task starts where there was no thread and ends there. -/
theorem leads_task {P : Behaviour (Tagged Step Act)}
    (hown : Leads Activity.next .started (image (on []) P) .leaving)
    (hchild : ∀ i path, Thread.OffFork (i :: path) →
      Leads Activity.next .absent (image (on (i :: path)) P) .absent)
    (path : Thread) (hpath : path.OffFork) :
    Leads Activity.next .absent (image (on path) (task .start .finish P)) .absent := by
  rw [task, image_seq, image_seq]
  cases path with
  | nil => exact Leads.seq (leads_own rfl) (Leads.seq hown (leads_own rfl))
  | cons i path =>
    exact Leads.seq (leads_own_cons i path _ _)
      (Leads.seq (hchild i path hpath) (leads_own_cons i path _ _))

/-- The launching thread waits, and the tasks come and go. -/
theorem leads_launched_tasks {P : Behaviour (Tagged Step Act)} (child : Nat → Step) (overlap : Bool)
    (hP : ∀ path : Thread, path.OffFork → Leads Activity.next .absent (image (on path) P) .absent) :
    Leads Activity.next .leaving (image (on []) (launched (tasks child overlap P))) .resumed ∧
    ∀ i path, Thread.OffFork (i :: path) →
      Leads Activity.next .absent (image (on (i :: path)) (launched (tasks child overlap P)))
        .absent := by
  refine ⟨?_, fun i path hpath => ?_⟩
  · rw [launched, image_seq, image_seq]
    exact Leads.seq (leads_own rfl) (Leads.seq (tasks_on_nil child overlap) (leads_own rfl))
  · have hbelow : Thread.OffFork path := fun depth hmem => hpath depth (List.mem_cons_of_mem i hmem)
    rw [launched, image_seq, image_seq]
    exact Leads.seq (leads_own_cons i path _ _)
      (Leads.seq (tasks_on_cons (hP path hbelow) i) (leads_own_cons i path _ _))

theorem Accounts.bracketLaunch {r : Stmt PapiFn} {forType : ForType} {api : DeviceAPI}
    (hupdate : updateActiveThreads forType api = true) (hown : Moves [] .leaving r .resumed)
    (hchild : ∀ i path, Thread.OffFork (i :: path) → Moves (i :: path) .absent r .absent) :
    Accounts (bracketLaunch forType api r) := by
  have hregion : ∀ {path : Thread} {a a' : Activity}, Moves path a r a' →
      Moves path a (.blockOf [enterParallelRegion, r] leaveParallelRegion) a' := fun h =>
    h.between (moves_other (c := .enterParallelRegion) rfl (by simp) (by simp) _)
      (moves_other (c := .leaveParallelRegion) rfl (by simp) (by simp) _)
  intro path hpath
  rw [ProfHalide.bracketLaunch, if_pos hupdate, launch_eq]
  cases path with
  | nil =>
    have hdecr : Moves [] .active decrActiveThreads .leaving := moves_call rfl rfl
    have hincr : Moves [] .resumed incrActiveThreads .active := moves_call rfl rfl
    exact hdecr.block ((hregion hown).block hincr)
  | cons i path =>
    have hdecr : Moves (i :: path) .absent decrActiveThreads .absent := moves_call_cons rfl i path _
    have hincr : Moves (i :: path) .absent incrActiveThreads .absent := moves_call_cons rfl i path _
    exact hdecr.block ((hregion (hchild i path hpath)).block hincr)

/-- The body of a loop carried out by tasks counts its threads. -/
theorem Accounts.visitForBody (opBody : Stmt Empty) {forType : ForType} {api : DeviceAPI}
    {mutateBody : Mutation} {st : InjectPAPIProfiling} (hupdate : updateActiveThreads forType api = true)
    (hgpu : api.isGpu = false) (h : Accounts (mutateBody st).1) :
    Moves [] .started (visitForBody forType api opBody mutateBody st).1 .leaving ∧
    ∀ i path, Thread.OffFork (i :: path) →
      Moves (i :: path) .absent (visitForBody forType api opBody mutateBody st).1 .absent := by
  have hcount : countBody forType api (mutateBody st).1 =
      .blockOf [incrActiveThreads, (mutateBody st).1] decrActiveThreads := if_pos hupdate
  have hcounted := h.counted
  rw [← hcount] at hcounted
  cases api with
  | hexagon =>
    have hkernel : ∀ {path : Thread} {a a' : Activity},
        Moves path a (countBody forType .hexagon (mutateBody st).1) a' →
        Moves path a (ProfHalide.visitForBody forType .hexagon opBody mutateBody st).1 a' := by
      intro path a a' hmoves
      have hstate : Leads Activity.next a (image (on path) (done (own [.call .getState]))) a := by
        cases path with
        | nil => exact leads_own (by rw [runAuto, Activity.next_call (by simp) (by simp)]; rfl)
        | cons i path => exact leads_own_cons i path _ a
      change Leads Activity.next a (image (on path) (seq (done (own [.call .getState]))
        ((countBody forType .hexagon (mutateBody st).1).substitute _ _).threads)) a'
      rw [image_seq, Stmt.threads_substitute]
      exact hstate.seq hmoves
    exact ⟨hkernel hcounted.1, fun i path hpath => hkernel (hcounted.2 i path hpath)⟩
  | none => exact hcounted
  | host => exact hcounted
  | _ => cases hgpu

/-- A loop that is launched, and waited for. -/
theorem moves_for_launched (name : String) (min extent : Expr PapiFn) {forType : ForType}
    {api : DeviceAPI} {r : Stmt PapiFn} (hupdate : updateActiveThreads forType api = true)
    (hbody : api.isGpu = false → Moves [] .started r .leaving ∧
      ∀ i path, Thread.OffFork (i :: path) → Moves (i :: path) .absent r .absent) :
    Moves [] .leaving (.for_ name min extent forType api r) .resumed ∧
    ∀ i path, Thread.OffFork (i :: path) →
      Moves (i :: path) .absent (.for_ name min extent forType api r) .absent := by
  have htasks : api.isGpu = false → ∀ child overlap,
      Leads Activity.next .leaving
        (image (on []) (launched (tasks child overlap (task .start .finish r.threads)))) .resumed ∧
      ∀ i path, Thread.OffFork (i :: path) → Leads Activity.next .absent
        (image (on (i :: path)) (launched (tasks child overlap (task .start .finish r.threads))))
        .absent := fun hgpu child overlap =>
    leads_launched_tasks child overlap (leads_task (hbody hgpu).1 (hbody hgpu).2)
  unfold Moves
  rw [Stmt.threads]
  by_cases hhexagon : api = .hexagon
  · rw [if_pos hhexagon]
    exact htasks (by rw [hhexagon]; rfl) .remote _
  · have hparallel : forType.isParallel = true := by
      rw [updateActiveThreads, beq_eq_false_iff_ne.mpr hhexagon, Bool.false_or] at hupdate
      exact hupdate
    rw [if_neg hhexagon, if_pos hparallel, if_pos hparallel]
    by_cases hgpu : api.isGpu = true
    · rw [if_pos hgpu, launched, image_seq, image_seq]
      have hwait : runAuto Activity.next .waiting [] = some .waiting := rfl
      refine ⟨Leads.seq (leads_own rfl) (Leads.seq (leads_own hwait) (leads_own rfl)), ?_⟩
      intro i path _
      rw [image_seq, image_seq]
      exact Leads.seq (leads_own_cons i path _ _)
        (Leads.seq (leads_own_cons i path [] _) (leads_own_cons i path _ _))
    · rw [if_neg hgpu]
      exact htasks (Bool.eq_false_iff.mpr hgpu) .iteration true

theorem Accounts.visitForBody_serial (opBody : Stmt Empty) {forType : ForType} {api : DeviceAPI}
    {mutateBody : Mutation} {st : InjectPAPIProfiling} (hupdate : ¬ updateActiveThreads forType api = true)
    (hgpu : api.isGpu = false) (h : Accounts (mutateBody st).1) :
    Accounts (ProfHalide.visitForBody forType api opBody mutateBody st).1 := by
  have hcount : countBody forType api (mutateBody st).1 = (mutateBody st).1 := if_neg hupdate
  rw [← hcount] at h
  cases api with
  | hexagon => exact absurd rfl hupdate
  | none => exact h
  | host => exact h
  | _ => cases hgpu

/-- A loop that the thread carries out itself, or that runs inside device code. -/
theorem moves_for_serial (name : String) (min extent : Expr PapiFn) {forType : ForType}
    {api : DeviceAPI} {r : Stmt PapiFn} (hupdate : ¬ updateActiveThreads forType api = true)
    (hbody : api.isGpu = false → Accounts r) : Accounts (.for_ name min extent forType api r) := by
  intro path hpath
  have hboth : api ≠ .hexagon ∧ ¬ forType.isParallel = true := by
    rw [updateActiveThreads, Bool.or_eq_true, beq_iff_eq, not_or] at hupdate
    exact hupdate
  rw [Moves, Stmt.threads, if_neg hboth.1, if_neg hboth.2, if_neg hboth.2]
  by_cases hgpu : api.isGpu = true
  · rw [if_pos hgpu, image_done]
    exact Leads.done rfl
  · rw [if_neg hgpu, image_loop]
    exact Leads.loop (fun _ => rfl) (hbody (Bool.eq_false_iff.mpr hgpu) path hpath)

theorem accounts_leaf (l : Leaf Empty) : Accounts (.leaf (l.mapCall Empty.elim)) := by
  intro path _
  rw [Moves, Stmt.threads, Leaf.papiCall_lift]
  split
  · rw [image_either, image_done, image_cut]
    refine Leads.either (Leads.done rfl) (Leads.cut ?_)
    cases path with
    | nil => rw [filterMap_on_own, runAuto, Activity.next_fails]; rfl
    | cons i path => rw [filterMap_on_own_cons]; rfl
  · rw [image_done]
    exact Leads.done rfl

/-- Counted in and out as the pass arranges it, every thread that no fork has started comes back to
where it was. -/
theorem mutate_accounts (defs : List ProfilerDef) (loopDefs : List ProfilerLoop) (s : Stmt Empty)
    (st : InjectPAPIProfiling) : Accounts (mutate defs loopDefs s st).1 := by
  induction s generalizing st with
  | leaf l => exact accounts_leaf l
  | scope h body ih =>
    intro path hpath
    rw [Moves, mutate, Stmt.threads, Scope.papiCall_lift, image_seq, image_done]
    exact Leads.seq (Leads.done rfl) (ih st path hpath)
  | producerConsumer name isProducer body ih =>
    obtain ⟨idx, inner, hinner, hpaused⟩ :=
      visitProducerConsumer_shape defs name isProducer (mutate defs loopDefs body) st
    intro path hpath
    have hbody := (ih (beforeBody defs name isProducer st) path hpath).measured hinner
    have hnode : Moves path (home path) (.blockMake (setCurrentFunc idx) inner) (home path) :=
      (moves_other (c := .setCurrentFunc idx) rfl (by simp) (by simp) path (home path)).block hbody
    have hnode' : Moves path (home path)
      (.producerConsumer name isProducer (.blockMake (setCurrentFunc idx) inner)) (home path) := hnode
    exact hnode'.paused hpaused
  | for_ name min extent forType api body ih =>
    have hbody := ih st
    by_cases hupdate : updateActiveThreads forType api = true
    · have hloop := moves_for_launched name (min.mapCall Empty.elim) (extent.mapCall Empty.elim) hupdate
        fun hgpu => hbody.visitForBody body hupdate hgpu
      exact Accounts.bracketLaunch hupdate ((hloop.1).bracketLoop loopDefs name _)
        fun i path hpath => (hloop.2 i path hpath).bracketLoop loopDefs name _
    · have hloop := moves_for_serial name (min.mapCall Empty.elim) (extent.mapCall Empty.elim) hupdate
        fun hgpu => hbody.visitForBody_serial body hupdate hgpu
      intro path hpath
      have hlaunch : ∀ r, bracketLaunch forType api r = r := fun r => if_neg hupdate
      rw [mutate, visitFor_fst, hlaunch]
      exact (hloop path hpath).bracketLoop loopDefs name _
  | block a b iha ihb =>
    intro path hpath
    exact (iha st path hpath).block (ihb _ path hpath)
  | fork a b iha ihb =>
    intro path hpath
    rw [Moves, mutate, Stmt.threads]
    cases path with
    | nil => exact beside_on_nil (iha st [] hpath)
    | cons i path =>
      have hi : ∀ j, Step.unshift j = some i ↔ j = i := by
        intro j
        cases i with
        | async depth => exact absurd List.mem_cons_self (hpath depth)
        | iteration i => cases j with
          | async depth => cases depth <;> simp [Step.unshift]
          | _ => simp [Step.unshift]
        | remote i => cases j with
          | async depth => cases depth <;> simp [Step.unshift]
          | _ => simp [Step.unshift]
      exact beside_on_cons hi (iha st (i :: path) hpath)
  | ifThen c t ih =>
    intro path hpath
    rw [Moves, mutate, Stmt.threads, image_either]
    exact Leads.either (ih st path hpath) (by rw [image_done]; exact Leads.done rfl)
  | ifThenElse c t e iht ihe =>
    intro path hpath
    rw [Moves, mutate, Stmt.threads, image_either]
    exact Leads.either (iht st path hpath) (ihe _ path hpath)

/-! ### The whole program -/

section Prologue

theorem threads_fillTable {α : Type} (table : String) (index : α → Nat) (value : α → Expr PapiFn)
    (entries : List α) (s : Stmt PapiFn) :
    (fillTable table index value entries s).threads = s.threads := by
  induction entries generalizing s with
  | nil => rfl
  | cons p entries ih =>
    apply (ih _).trans
    exact (Stmt.threads_blockMake _ _).trans (seq_done_nil _)

theorem threads_freeTable (table : String) (s : Stmt PapiFn) :
    (freeTable table s).threads = s.threads := by
  rw [freeTable, Stmt.threads_blockMake]
  exact seq_nil_right _

theorem threads_tableAllocate (table : String) (size : Nat) (s : Stmt PapiFn) :
    (tableAllocate table size s).threads = s.threads := seq_done_nil _

variable (defs : List ProfilerDef) (loopDefs : List ProfilerLoop) (s : Stmt Empty)
  (pipelineName : String)

/-- What threads do in the instrumented program. -/
theorem threads_inject :
    (injectPapiProfiling defs loopDefs s pipelineName).threads =
      seq (done (own [.call .registerDestructor]))
      (seq (done (own [.call (.pipelineStart pipelineName (mutate defs loopDefs s init).2.indices.size
        (mutate defs loopDefs s init).2.loops.size)]))
      (seq (either (done []) (cut (own [.fails])))
      (seq (done (own [.call .getState]))
      (seq (done (own [.call .getPipelineState]))
      (seq (done (own [.call .incrActiveThreads]))
      (seq (mutate defs loopDefs s init).1.threads
      (done (own [.call .decrActiveThreads])))))))) := by
  rw [inject_eq]
  dsimp only
  rw [Stmt.threads_blockMake]
  simp only [allocateTables, threads_tableAllocate, freeTables, threads_freeTable, fillTables,
    threads_fillTable, startedProgram, measuredProgram, Stmt.blockOf_cons, Stmt.blockOf_nil]
  simp only [Stmt.threads, Stmt.threads_blockMake]
  rfl

/-- What an instrumented program calls until it is counted in. -/
def prologue (pipelineName : String) (numFuncs numLoops : Int) : List PapiCall :=
  [.registerDestructor, .pipelineStart pipelineName numFuncs numLoops, .getState, .getPipelineState,
    .incrActiveThreads]

/-- A program that was started, up to where the instrumented statement takes over. -/
theorem runs_prologue {t : List (Tagged Step Act)} {ok : Bool}
    (ht : seq (mutate defs loopDefs s init).1.threads (done (own [.call .decrActiveThreads])) t ok) :
    (injectPapiProfiling defs loopDefs s pipelineName).threads
      (own ((prologue pipelineName (mutate defs loopDefs s init).2.indices.size
        (mutate defs loopDefs s init).2.loops.size).map .call) ++ t) ok := by
  have hassert : either (done []) (cut (own [Act.fails])) ([] : List (Tagged Step Act)) true :=
    Or.inl ⟨rfl, rfl⟩
  rw [threads_inject]
  exact seq_done_of (own [Act.call .registerDestructor]) <|
    seq_done_of (own [Act.call (.pipelineStart pipelineName _ _)]) <| seq_of hassert <|
    seq_done_of (own [Act.call .getState]) <| seq_done_of (own [Act.call .getPipelineState]) <|
    seq_done_of (own [Act.call .incrActiveThreads]) ht

theorem inject_moves :
    Moves [] .started (injectPapiProfiling defs loopDefs s pipelineName) .leaving ∧
    ∀ i path, Thread.OffFork (i :: path) →
      Moves (i :: path) .absent (injectPapiProfiling defs loopDefs s pipelineName) .absent := by
  have hmutate := mutate_accounts defs loopDefs s init
  refine ⟨?_, fun i path hpath => ?_⟩
  · have hother : ∀ c : PapiCall, c ≠ .incrActiveThreads → c ≠ .decrActiveThreads →
        Leads Activity.next .started (image (on ([] : Thread)) (done (own [.call c]))) .started :=
      fun c hincr hdecr => leads_own (by rw [runAuto, Activity.next_call hincr hdecr]; rfl)
    have hassert : Leads Activity.next .started
        (image (on ([] : Thread)) (either (done []) (cut (own [.fails])))) .started := by
      rw [image_either, image_done, image_cut, filterMap_on_own]
      exact Leads.either (Leads.done rfl) (Leads.cut rfl)
    rw [Moves, threads_inject]
    simp only [image_seq]
    exact (hother _ (by simp) (by simp)).seq <| (hother _ (by simp) (by simp)).seq <|
      hassert.seq <| (hother _ (by simp) (by simp)).seq <| (hother _ (by simp) (by simp)).seq <|
      (leads_own rfl).seq <| Leads.seq (hmutate [] (by simp [Thread.OffFork])) (leads_own rfl)
  · have hassert : Leads Activity.next .absent
        (image (on (i :: path)) (either (done []) (cut (own [.fails])))) .absent := by
      rw [image_either, image_done, image_cut, filterMap_on_own_cons]
      exact Leads.either (Leads.done rfl) (Leads.cut rfl)
    have hown := fun acts => leads_own_cons i path acts .absent
    rw [Moves, threads_inject]
    simp only [image_seq]
    exact (hown _).seq <| (hown _).seq <| hassert.seq <| (hown _).seq <| (hown _).seq <|
      (hown _).seq <| Leads.seq (hmutate (i :: path) hpath) (hown _)

end Prologue

/-! ### Adding up -/

/-- Whether the thread runs on the remote device. -/
def Thread.isRemote (path : Thread) : Bool :=
  path.any fun i => match i with
    | .remote _ => true
    | _ => false

/-- `active_threads` of the host's or the remote device's state, from its value before the run. -/
def activeThreads (remote : Bool) (before : Int) (t : List (Tagged Step Act)) : Int :=
  before + (t.map fun e => if Thread.isRemote e.1 = remote then e.2.delta else 0).sum

/-- The number of threads inside the statement or a task and not waiting for a loop. -/
def workingThreads (remote : Bool) (t : List (Tagged Step Act)) : Nat :=
  ((strands t).filter fun path => Thread.isRemote path = remote ∧
    (t.filterMap (on path)).foldl Act.working false).card

/-- No thread is between a call and what the call accompanies. -/
def Settled (t : List (Tagged Step Act)) : Prop :=
  ∀ path, (t.filterMap (on path)).foldl Act.between false = false

/-- No assertion has failed, and no fork has started its second branch. -/
def Undisturbed (t : List (Tagged Step Act)) : Prop := ∀ e ∈ t, e.2 ≠ .fails ∧ Thread.OffFork e.1

/-- In every state that executions of `s` reach through permitted steps, `active_threads` is not below
its value before the run, and above it by the number of working threads once no thread is between a
call and what the call accompanies; at the end it is back to that value. -/
def CountsThreads (permitted : List (Tagged Step Act) → Prop) (s : Stmt PapiFn) : Prop :=
  ∀ t ok, task .start .finish s.threads t ok → ∀ reached, reached <+: t → permitted reached →
    ∀ remote before,
      before ≤ activeThreads remote before reached ∧
      (Settled reached →
        activeThreads remote before reached = before + workingThreads remote reached) ∧
      (reached = t → ok = true → activeThreads remote before reached = before)

namespace Activity

/-- The thread's share in `active_threads`. -/
def share : Activity → Int
  | .active => 1
  | _ => 0

def isWorking : Activity → Bool
  | .started | .active | .leaving | .resumed => true
  | .absent | .waiting | .failed => false

def isBetween : Activity → Bool
  | .started | .leaving | .resumed => true
  | .absent | .active | .waiting | .failed => false

theorem share_nonneg (a : Activity) : 0 ≤ a.share := by
  cases a <;> decide

theorem share_of_not_isBetween {a : Activity} (h : a.isBetween = false) :
    a.share = if a.isWorking then 1 else 0 := by
  cases a <;> first | rfl | cases h

/-- What one action changes, as long as no assertion fails. -/
theorem next_spec {a a' : Activity} {act : Act} (h : a.next act = some a') (ha : a ≠ .failed)
    (hact : act ≠ .fails) :
    a' ≠ .failed ∧ a'.share = a.share + act.delta ∧
    a'.isWorking = act.working a.isWorking ∧ a'.isBetween = act.between a.isBetween := by
  cases act with
  | fails => exact absurd rfl hact
  | call c =>
    cases a with
    | failed => exact absurd rfl ha
    | _ => cases c <;> cases h <;> exact ⟨nofun, rfl, rfl, rfl⟩
  | _ =>
    cases a with
    | failed => exact absurd rfl ha
    | _ => cases h <;> exact ⟨nofun, rfl, rfl, rfl⟩

theorem runAuto_spec {acts : List Act} {a : Activity} (h : runAuto next .absent acts = some a)
    (hacts : Act.fails ∉ acts) :
    (acts.map Act.delta).sum = a.share ∧ acts.foldl Act.working false = a.isWorking ∧
      acts.foldl Act.between false = a.isBetween := by
  have hrun : ∀ {acts : List Act} {a a' : Activity}, runAuto next a acts = some a' →
      a ≠ .failed → Act.fails ∉ acts → a.share + (acts.map Act.delta).sum = a'.share ∧
      acts.foldl Act.working a.isWorking = a'.isWorking ∧
      acts.foldl Act.between a.isBetween = a'.isBetween := by
    intro acts
    induction acts with
    | nil =>
      intro a a' h _ _
      rw [runAuto] at h
      rw [← Option.some.inj h]
      simp
    | cons act acts ih =>
      intro a a' h ha hacts
      rw [List.mem_cons, not_or] at hacts
      rw [runAuto, Option.bind_eq_some_iff] at h
      obtain ⟨a₁, hnext, hrest⟩ := h
      obtain ⟨ha', hshare, hworking, hbetween⟩ := next_spec hnext ha (Ne.symm hacts.1)
      obtain ⟨hshare', hworking', hbetween'⟩ := ih hrest ha' hacts.2
      rw [List.map_cons, List.sum_cons, List.foldl_cons, List.foldl_cons, ← hworking, ← hbetween]
      exact ⟨by omega, hworking', hbetween'⟩
  obtain ⟨hshare, hworking, hbetween⟩ := hrun h (by decide) hacts
  have hzero : Activity.absent.share = 0 := rfl
  rw [hzero] at hshare
  exact ⟨by omega, hworking, hbetween⟩

end Activity

/-- Every thread in its own place, and the count is right. -/
theorem countsThreads_of_moves {s : Stmt PapiFn} (hown : Moves [] .started s .leaving)
    (hchild : ∀ i path, Thread.OffFork (i :: path) → Moves (i :: path) .absent s .absent) :
    CountsThreads Undisturbed s := by
  intro t ok ht reached hprefix hundisturbed remote before
  obtain ⟨rest, rfl⟩ := hprefix
  have hleads := leads_task hown hchild
  have hfails : ∀ path, Act.fails ∉ reached.filterMap (on path) := by
    intro path hmem
    obtain ⟨e, he, hon⟩ := List.mem_filterMap.mp hmem
    obtain ⟨_, heq⟩ := Option.ite_none_right_eq_some.mp hon
    exact (hundisturbed e he).1 (Option.some.inj heq)
  have hthread : ∀ path ∈ strands reached, ∃ a, runAuto Activity.next .absent
      (reached.filterMap (on path)) = some a ∧ (rest = [] → ok = true → a = .absent) := by
    intro path hpath
    rw [strands, List.mem_toFinset, List.mem_map] at hpath
    obtain ⟨e, he, rfl⟩ := hpath
    obtain ⟨r, hr, hend⟩ := hleads e.1 (hundisturbed e he).2 _ ok ⟨_, ht, rfl⟩
    rw [List.filterMap_append] at hr
    obtain ⟨a, ha⟩ := runAuto_of_append hr
    refine ⟨a, ha, fun hrest hok => ?_⟩
    rw [hrest, List.filterMap_nil, List.append_nil, ha] at hr
    rw [Option.some.inj hr]
    exact hend hok
  have hsum : activeThreads remote before reached = before + ∑ path ∈ strands reached,
      (if Thread.isRemote path = remote then
        ((reached.filterMap (on path)).map Act.delta).sum else 0) := by
    rw [activeThreads, sum_strands fun path a =>
      if Thread.isRemote path = remote then Act.delta a else 0]
    congr 1
    refine Finset.sum_congr rfl fun path _ => ?_
    split
    · rfl
    · simp
  have hnonneg : ∀ path ∈ strands reached, 0 ≤ (if Thread.isRemote path = remote then
      ((reached.filterMap (on path)).map Act.delta).sum else 0) := by
    intro path hpath
    obtain ⟨a, ha, _⟩ := hthread path hpath
    rw [(Activity.runAuto_spec ha (hfails path)).1]
    split
    · exact a.share_nonneg
    · exact Int.le_refl 0
  refine ⟨?_, fun hsettled => ?_, fun hreached hok => ?_⟩
  · have hle := Finset.sum_nonneg hnonneg
    omega
  · rw [hsum, workingThreads, Finset.card_filter, Nat.cast_sum]
    congr 1
    refine Finset.sum_congr rfl fun path hpath => ?_
    obtain ⟨a, ha, _⟩ := hthread path hpath
    obtain ⟨hshare, hworking, hbetween⟩ := Activity.runAuto_spec ha (hfails path)
    rw [hsettled path] at hbetween
    rw [hshare, hworking, Activity.share_of_not_isBetween hbetween.symm]
    by_cases hremote : Thread.isRemote path = remote <;> cases a.isWorking <;> simp [hremote]
  · have hrest : rest = [] := by
      have hlen := congrArg List.length hreached
      rw [List.length_append] at hlen
      exact List.length_eq_zero_iff.mp (by omega)
    have hzero : ∀ path ∈ strands reached, (if Thread.isRemote path = remote then
        ((reached.filterMap (on path)).map Act.delta).sum else 0) = 0 := by
      intro path hpath
      obtain ⟨a, ha, hend⟩ := hthread path hpath
      rw [(Activity.runAuto_spec ha (hfails path)).1, hend hrest hok]
      split <;> rfl
    rw [hsum, Finset.sum_eq_zero hzero]
    omega

/-- As long as no assertion fails and no fork starts its second branch, `active_threads` counts the
working threads. -/
theorem inject_countsThreads (defs : List ProfilerDef) (loopDefs : List ProfilerLoop)
    (s : Stmt Empty) (pipelineName : String) :
    CountsThreads Undisturbed (injectPapiProfiling defs loopDefs s pipelineName) :=
  countsThreads_of_moves (inject_moves defs loopDefs s pipelineName).1
    (inject_moves defs loopDefs s pipelineName).2

/-! ### A fork -/

/-- A parallel loop in the second branch of a fork. -/
def forkedLoop : Stmt Empty :=
  .fork (.leaf (.evaluate (.intImm 0)))
    (.for_ "f.s0.x" (.intImm 0) (.variable "f.extent.0") .parallel .host
      (.leaf (.provide "f" [.intImm 1] [.variable "f.s0.x"])))

/-- The second branch launches its loop while the first thread is at work. -/
def forkedLaunch : List (Tagged Step Act) :=
  own [.start, .call .registerDestructor, .call (.pipelineStart "p" 1 0), .call .getState,
    .call .getPipelineState, .call .incrActiveThreads] ++
  [.start, .call .decrActiveThreads, .call .enterParallelRegion, .launch].map ([.async 0], ·)

/-- What follows when the loop has no iterations. -/
def afterForkedLaunch : List (Tagged Step Act) :=
  [.resume, .call .leaveParallelRegion, .call .incrActiveThreads, .finish].map ([.async 0], ·) ++
  own [.call .decrActiveThreads, .finish]

theorem forkedLoop_runs :
    task .start .finish (injectPapiProfiling [] [] forkedLoop "p").threads
      (forkedLaunch ++ afterForkedLaunch) true := by
  have hempty : ∀ P : Behaviour (Tagged Step Act), tasks Step.iteration true P [] true :=
    fun P => ⟨0, fun _ => none, by simp, by simp, by simp, by simp, by simp⟩
  have hsecond : (Stmt.blockOf [decrActiveThreads, enterParallelRegion,
      .for_ "f.s0.x" (.intImm 0) (.variable "f.extent.0") .parallel .host
        (.blockOf [incrActiveThreads, .leaf (.provide "f" [.intImm 1] [.variable "f.s0.x"])]
          decrActiveThreads), leaveParallelRegion] incrActiveThreads : Stmt PapiFn).threads
      (own [.call .decrActiveThreads, .call .enterParallelRegion, .launch, .resume,
        .call .leaveParallelRegion, .call .incrActiveThreads]) true := by
    simp only [Stmt.blockOf_cons, Stmt.blockOf_nil, Stmt.threads_blockMake]
    apply seq_done_of (own [Act.call .decrActiveThreads])
    apply seq_done_of (own [Act.call .enterParallelRegion])
    refine seq_of (t := own [Act.launch, .resume]) ?_ (seq_done_of (own [Act.call .leaveParallelRegion]) ?_)
    · exact seq_done_of (own [Act.launch]) (seq_of (hempty _) ⟨rfl, rfl⟩)
    · exact ⟨rfl, rfl⟩
  have hdone : ∀ acts : List Act, done (own acts : List (Tagged Step Act)) (own acts) true :=
    fun _ => ⟨rfl, rfl⟩
  have htask := seq_done_of (own [Act.start]) (seq_of hsecond (hdone [.finish]))
  have hfork : (mutate [] [] forkedLoop init).1.threads
      ([.start, .call .decrActiveThreads, .call .enterParallelRegion, .launch, .resume,
        .call .leaveParallelRegion, .call .incrActiveThreads, .finish].map ([.async 0], ·)) true :=
    ⟨true, some true, ⟨rfl, rfl⟩, htask, by simp, rfl, by simp⟩
  have hprogram := runs_prologue [] [] forkedLoop "p" (seq_of hfork (hdone [.call .decrActiveThreads]))
  exact seq_done_of (own [Act.start]) (seq_of hprogram (hdone [.finish]))

/-- The waiting thread is counted out without having been counted in. -/
theorem not_countsThreads_forkedLoop :
    ¬ CountsThreads (fun _ => True) (injectPapiProfiling [] [] forkedLoop "p") := by
  intro h
  obtain ⟨_, hcount, _⟩ :=
    h _ true forkedLoop_runs forkedLaunch (List.prefix_append _ _) trivial false 0
  have hsettled : Settled forkedLaunch := by
    intro path
    by_cases hnil : path = []
    · subst hnil
      rfl
    · by_cases hasync : path = [.async 0]
      · subst hasync
        rfl
      · have hnone : forkedLaunch.filterMap (on path) = [] := by
          simp [forkedLaunch, own, on, Ne.symm hnil, Ne.symm hasync]
        rw [hnone]
        rfl
  exact absurd (hcount hsettled) (by decide)

end ProfHalide
