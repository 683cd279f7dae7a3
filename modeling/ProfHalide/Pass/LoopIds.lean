import ProfHalide.Pass.Shape
import ProfHalide.Lib.Numbering

/-!
# Loop ids

A registered loop takes the size of the mutator's map as its id, without looking its name up first,
while the number of loops and the table of names given to the runtime come from the final map. The
two agree exactly when no name is instrumented twice.
-/

namespace ProfHalide

open InjectPAPIProfiling Numbering

/-! ### The calls in a statement -/

namespace Stmt

/-- The loop a statement is or begins with. -/
def headLoop {κ : Type} : Stmt κ → Option String
  | .for_ name _ _ _ _ _ => some name
  | .block first _ => first.headLoop
  | _ => none

/-- The profiler's calls in textual order, each with the loop that is entered right after it. `next`
is the loop right after the statement. -/
def callSites : Stmt PapiFn → Option String → List (PapiCall × Option String)
  | .leaf l, next => (l.papiCall.map (·, next)).toList
  | .scope h body, next => (h.papiCall.map (·, body.headLoop)).toList ++ body.callSites next
  | .producerConsumer _ _ body, next => body.callSites next
  | .for_ _ _ _ _ _ body, _ => body.callSites none
  | .block a b, next => a.callSites b.headLoop ++ b.callSites next
  | .fork a b, _ => a.callSites none ++ b.callSites none
  | .ifThen _ t, next => t.callSites next
  | .ifThenElse _ t e, next => t.callSites next ++ e.callSites next

/-- Whether the statement starts the pipeline. -/
def startsPipeline : Stmt PapiFn → Bool
  | .scope (.letStmt _ (.call .pipelineStart _)) _ => true
  | .scope _ body => body.startsPipeline
  | .block a b => a.startsPipeline || b.startsPipeline
  | _ => false

/-- The constant entries stored into a table before the pipeline is started, in the order of the
stores. -/
def tableStores (table : String) : Stmt PapiFn → List (Int × String)
  | .leaf (.store name (.stringImm value) (.intImm index) _) =>
      if name = table then [(index, value)] else []
  | .scope (.letStmt _ (.call .pipelineStart _)) _ => []
  | .scope _ body => body.tableStores table
  | .block a b => a.tableStores table ++ (if a.startsPipeline then [] else b.tableStores table)
  | _ => []

/-- What the runtime finds in a table: the last value stored there. -/
def tableEntry (table : String) (s : Stmt PapiFn) (index : Int) : Option String :=
  (s.tableStores table).reverse.lookup index

end Stmt

/-- The ids in the calls, the number of loops and the table of loop names fit together. -/
structure LoopIdsAgree (s : Stmt PapiFn) : Prop where
  inRange : ∃ name numFuncs numLoops next,
    (.pipelineStart name numFuncs numLoops, next) ∈ s.callSites none ∧
    ∀ id next, (.enter (.loop id), next) ∈ s.callSites none ∨
      (.leave (.loop id), next) ∈ s.callSites none → 0 ≤ id ∧ id < numLoops
  distinct : ∀ id id' x x', (.enter (.loop id), x) ∈ s.callSites none →
    (.enter (.loop id'), x') ∈ s.callSites none → x ≠ x' → id ≠ id'
  named : ∀ id next, (.enter (.loop id), next) ∈ s.callSites none →
    ∃ x, next = some x ∧ s.tableEntry "profiling_loop_names" id = some x

/-- The names of the loops the mutator instruments, in the order in which it gives them ids: a loop
comes after the loops in its body, and what runs on a GPU is not entered. -/
def profiledLoops (loopDefs : List ProfilerLoop) : Stmt Empty → List String
  | .leaf _ => []
  | .scope _ body | .producerConsumer _ _ body | .ifThen _ body => profiledLoops loopDefs body
  | .for_ name _ _ _ api body =>
      (if api.isGpu then [] else profiledLoops loopDefs body) ++
        (if loopDefs.any (·.matches name) then [name] else [])
  | .block a b | .fork a b | .ifThenElse _ a b => profiledLoops loopDefs a ++ profiledLoops loopDefs b

/-! ### Calls and rewriting -/

namespace Stmt

@[simp] theorem headLoop_blockMake {κ : Type} (a b : Stmt κ) :
    (blockMake a b).headLoop = a.headLoop := by
  cases a <;> rfl

@[simp] theorem callSites_blockMake (a b : Stmt PapiFn) (next : Option String) :
    (blockMake a b).callSites next = a.callSites b.headLoop ++ b.callSites next := by
  induction a with
  | block first rest _ ih =>
    rw [blockMake, callSites, ih, headLoop_blockMake, callSites, List.append_assoc]
  | _ => rfl

@[simp] theorem headLoop_substitute {κ : Type} (name newName : String) (s : Stmt κ) :
    (s.substitute name newName).headLoop = s.headLoop := by
  induction s with
  | block a b iha _ => exact iha
  | _ => rfl

theorem callSites_substitute (name newName : String) (s : Stmt PapiFn) (next : Option String) :
    (s.substitute name newName).callSites next = s.callSites next := by
  induction s generalizing next with
  | leaf l => rw [substitute, callSites, callSites, Leaf.papiCall_substitute]
  | scope h body ih =>
    rw [substitute, callSites, callSites, Scope.papiCall_substitute]
    split
    · rfl
    · rw [ih, headLoop_substitute]
  | for_ x min extent forType api body ih =>
    rw [substitute, callSites, callSites]
    split
    · rfl
    · exact ih none
  | producerConsumer n p body ih => exact ih next
  | block a b iha ihb =>
    rw [substitute, callSites, callSites, iha, ihb, headLoop_substitute]
  | fork a b iha ihb => rw [substitute, callSites, callSites, iha, ihb]
  | ifThen c t ih => exact ih next
  | ifThenElse c t e iht ihe => rw [substitute, callSites, callSites, iht, ihe]

/-- A source statement calls nothing of the profiler. -/
theorem callSites_lift (s : Stmt Empty) (next : Option String) :
    (s.mapCall Empty.elim).callSites next = [] := by
  induction s generalizing next with
  | leaf l =>
    rw [mapCall, callSites, Leaf.papiCall_lift]
    rfl
  | scope h body ih =>
    rw [mapCall, callSites, Scope.papiCall_lift, ih]
    rfl
  | producerConsumer n p body ih => exact ih next
  | for_ x min extent forType api body ih => exact ih none
  | block a b iha ihb => rw [mapCall, callSites, iha, ihb, List.append_nil]
  | fork a b iha ihb => rw [mapCall, callSites, iha, ihb, List.append_nil]
  | ifThen c t ih => exact ih next
  | ifThenElse c t e iht ihe => rw [mapCall, callSites, iht, ihe, List.append_nil]

end Stmt

/-! ### Statements with certain calls only -/

/-- Every call in the statement satisfies `p`. -/
def CallsOnly (p : PapiCall → Prop) (s : Stmt PapiFn) : Prop :=
  ∀ next, ∀ site ∈ s.callSites next, p site.1

namespace CallsOnly

variable {p : PapiCall → Prop} {r r' n n' : Stmt PapiFn}

theorem call {fn : PapiFn} {args : List (Expr PapiFn)} (h : ∀ c, fn.decode args = some c → p c) :
    CallsOnly p (.evaluate (.call fn args)) := by
  intro next site hsite
  rw [Stmt.callSites, Leaf.papiCall] at hsite
  cases hdecode : fn.decode args with
  | none => simp [hdecode] at hsite
  | some c =>
    simp only [hdecode, Option.map_some, Option.toList_some, List.mem_singleton] at hsite
    rw [hsite]
    exact h c hdecode

theorem decoded {fn : PapiFn} {args : List (Expr PapiFn)} {c : PapiCall}
    (hdecode : fn.decode args = some c) (h : p c) : CallsOnly p (.evaluate (.call fn args)) := by
  apply call
  intro c' hc'
  rw [hdecode] at hc'
  cases hc'
  exact h

theorem block (hr : CallsOnly p r) (hr' : CallsOnly p r') : CallsOnly p (.blockMake r r') := by
  intro next site hsite
  rw [Stmt.callSites_blockMake, List.mem_append] at hsite
  exact hsite.elim (hr _ site) (hr' _ site)

theorem between (hn : CallsOnly p n) (hr : CallsOnly p r) (hn' : CallsOnly p n') :
    CallsOnly p (.blockOf [n, r] n') :=
  hn.block (hr.block hn')

theorem scope {h : Scope PapiFn} (hh : ∀ c, h.papiCall = some c → p c) (hr : CallsOnly p r) :
    CallsOnly p (.scope h r) := by
  intro next site hsite
  rw [Stmt.callSites, List.mem_append] at hsite
  refine hsite.elim (fun hsite => ?_) (hr next site)
  cases hcall : h.papiCall with
  | none => simp [hcall] at hsite
  | some c =>
    simp only [hcall, Option.map_some, Option.toList_some, List.mem_singleton] at hsite
    rw [hsite]
    exact hh c hcall

theorem substitute (name newName : String) (hr : CallsOnly p r) :
    CallsOnly p (r.substitute name newName) := by
  intro next site hsite
  rw [Stmt.callSites_substitute] at hsite
  exact hr next site hsite

theorem lift (s : Stmt Empty) : CallsOnly p (s.mapCall Empty.elim) := by
  intro next site hsite
  rw [Stmt.callSites_lift] at hsite
  cases hsite

theorem lift_scope (h : Scope Empty) (hr : CallsOnly p r) :
    CallsOnly p (.scope (h.mapCall Empty.elim) r) :=
  hr.scope (by simp [Scope.papiCall_lift])

theorem for_ (name : String) (min extent : Expr PapiFn) (forType : ForType) (api : DeviceAPI)
    (hr : CallsOnly p r) : CallsOnly p (.for_ name min extent forType api r) :=
  fun _ => hr none

theorem fork (hr : CallsOnly p r) (hr' : CallsOnly p r') : CallsOnly p (.fork r r') :=
  fun _ site hsite => (List.mem_append.mp hsite).elim (hr none site) (hr' none site)

theorem ifThenElse (c : Expr PapiFn) (hr : CallsOnly p r) (hr' : CallsOnly p r') :
    CallsOnly p (.ifThenElse c r r') :=
  fun next site hsite => (List.mem_append.mp hsite).elim (hr next site) (hr' next site)

/-- The calls that count threads, which the mutator writes around loops. -/
def Counting (p : PapiCall → Prop) : Prop :=
  p .incrActiveThreads ∧ p .decrActiveThreads ∧ p .enterParallelRegion ∧ p .leaveParallelRegion

theorem counted (h : Counting p) (hr : CallsOnly p r) :
    CallsOnly p (.blockOf [incrActiveThreads, r] decrActiveThreads) :=
  between (decoded rfl h.1) hr (decoded rfl h.2.1)

theorem launched (h : Counting p) (hr : CallsOnly p r) :
    CallsOnly p (.blockOf [decrActiveThreads, enterParallelRegion, r, leaveParallelRegion]
      incrActiveThreads) := by
  rw [launch_eq]
  exact between (decoded rfl h.2.1) (between (decoded rfl h.2.2.1) hr (decoded rfl h.2.2.2))
    (decoded rfl h.1)

theorem kernel (h : p .getState) (hr : CallsOnly p r) :
    CallsOnly p (.letStmt "hvx_profiler_state" (.call .getState [])
      (r.substitute "profiler_state" "hvx_profiler_state")) :=
  (hr.substitute _ _).scope (by rintro c ⟨⟩; exact h)

/-- Calls of which the mutator writes every marker. -/
theorem kept (hmarker : ∀ c : PapiCall, c.isMarker = true → p c) (hstate : p .getState)
    (hcounting : Counting p) : KeptByMutation (CallsOnly p) where
  lift := lift
  scope := lift_scope
  producerConsumer _ _ hr := hr
  for_ := for_
  block := block
  fork := fork
  ifThen _ hr := hr
  ifThenElse := ifThenElse
  marker hdecode hc := decoded hdecode (hmarker _ hc)
  kernel := kernel hstate
  counted := counted hcounting
  launched := launched hcounting

end CallsOnly

/-! ### The loop calls of a mutated statement -/

/-- The loops entered and left in `s` are those of `entries`, each by its id. -/
structure EntersLoops (entries : List (Nat × String)) (s : Stmt PapiFn) : Prop where
  enter : ∀ next (id : Int) x, (.enter (.loop id), x) ∈ s.callSites next ↔
    ∃ p ∈ entries, id = p.1 ∧ x = some p.2
  leave : ∀ next (id : Int) x, (.leave (.loop id), x) ∈ s.callSites next → ∃ p ∈ entries, id = p.1

/-- The calls that are not about a loop. -/
def PapiCall.offLoop : PapiCall → Bool
  | .enter (.loop _) | .leave (.loop _) => false
  | _ => true

namespace EntersLoops

variable {entries entries' : List (Nat × String)} {r r' n : Stmt PapiFn}

theorem of_offLoop (h : ∀ next, ∀ site ∈ r.callSites next, site.1.offLoop = true) :
    EntersLoops [] r where
  enter next id x := by
    refine ⟨fun hmem => ?_, by simp⟩
    exact absurd (h next _ hmem) (by simp [PapiCall.offLoop])
  leave next id x hmem := absurd (h next _ hmem) (by simp [PapiCall.offLoop])

theorem call {fn : PapiFn} {args : List (Expr PapiFn)}
    (h : (fn.decode args).all PapiCall.offLoop = true) : EntersLoops [] (.evaluate (.call fn args)) := by
  refine of_offLoop fun next site hmem => ?_
  rw [Stmt.callSites, Leaf.papiCall] at hmem
  cases hdecode : fn.decode args with
  | none => simp [hdecode] at hmem
  | some c =>
    rw [hdecode] at h
    simp only [hdecode, Option.map_some, Option.toList_some, List.mem_singleton] at hmem
    rw [hmem]
    exact h

/-- Two statements, each with what comes next after it. -/
theorem both {s : Stmt PapiFn} (next₁ next₂ : Option String → Option String)
    (hs : ∀ next, s.callSites next = r.callSites (next₁ next) ++ r'.callSites (next₂ next))
    (hr : EntersLoops entries r) (hr' : EntersLoops entries' r') :
    EntersLoops (entries ++ entries') s where
  enter next id x := by
    rw [hs, List.mem_append, hr.enter, hr'.enter]
    simp only [List.mem_append, or_and_right, exists_or]
  leave next id x hmem := by
    rw [hs, List.mem_append] at hmem
    rcases hmem with hmem | hmem
    · obtain ⟨p, hp, hid⟩ := hr.leave _ _ _ hmem
      exact ⟨p, List.mem_append_left _ hp, hid⟩
    · obtain ⟨p, hp, hid⟩ := hr'.leave _ _ _ hmem
      exact ⟨p, List.mem_append_right _ hp, hid⟩

theorem block (hr : EntersLoops entries r) (hr' : EntersLoops entries' r') :
    EntersLoops (entries ++ entries') (.blockMake r r') :=
  both (fun _ => r'.headLoop) (fun next => next) (Stmt.callSites_blockMake r r') hr hr'

theorem between {n' : Stmt PapiFn} (hn : EntersLoops [] n) (hr : EntersLoops entries r)
    (hn' : EntersLoops [] n') : EntersLoops entries (.blockOf [n, r] n') := by
  have h := hn.block (hr.block hn')
  rwa [List.nil_append, List.append_nil] at h

/-- A statement whose calls are those of its body. -/
theorem around (hr : EntersLoops entries r) {s : Stmt PapiFn}
    (next' : Option String → Option String)
    (hs : ∀ next, s.callSites next = r.callSites (next' next)) : EntersLoops entries s where
  enter next := by
    rw [hs]
    exact hr.enter _
  leave next := by
    rw [hs]
    exact hr.leave _

theorem producerConsumer (name : String) (isProducer : Bool) (hr : EntersLoops entries r) :
    EntersLoops entries (.producerConsumer name isProducer r) :=
  hr.around (fun next => next) fun _ => rfl

theorem for_ (name : String) (min extent : Expr PapiFn) (forType : ForType) (api : DeviceAPI)
    (hr : EntersLoops entries r) : EntersLoops entries (.for_ name min extent forType api r) :=
  hr.around (fun _ => none) fun _ => rfl

theorem ifThen (c : Expr PapiFn) (hr : EntersLoops entries r) :
    EntersLoops entries (.ifThen c r) :=
  hr.around (fun next => next) fun _ => rfl

theorem fork (hr : EntersLoops entries r) (hr' : EntersLoops entries' r') :
    EntersLoops (entries ++ entries') (.fork r r') :=
  both (fun _ => none) (fun _ => none) (fun _ => rfl) hr hr'

theorem ifThenElse (c : Expr PapiFn) (hr : EntersLoops entries r) (hr' : EntersLoops entries' r') :
    EntersLoops (entries ++ entries') (.ifThenElse c r r') :=
  both (fun next => next) (fun next => next) (fun _ => rfl) hr hr'

theorem measured (hr : EntersLoops entries r) (h : Measured r r') : EntersLoops entries r' := by
  cases h with
  | plain => exact hr
  | overhead idx => exact between (call rfl) hr (call rfl)
  | func fid p => exact between (call rfl) hr (call rfl)

theorem paused (hr : EntersLoops entries r) (h : Paused r r') : EntersLoops entries r' := by
  cases h with
  | plain => exact hr
  | overhead idx => exact between (call rfl) hr (call rfl)

theorem substitute (name newName : String) (hr : EntersLoops entries r) :
    EntersLoops entries (r.substitute name newName) :=
  hr.around (fun next => next) (Stmt.callSites_substitute name newName r)

/-- A let of something that is not about a loop. -/
theorem scope {h : Scope PapiFn} (hh : h.papiCall.all PapiCall.offLoop = true)
    (hr : EntersLoops entries r) : EntersLoops entries (.scope h r) := by
  cases hcall : h.papiCall with
  | none =>
    refine hr.around (fun next => next) fun next => ?_
    rw [Stmt.callSites, hcall]
    rfl
  | some c =>
    rw [hcall] at hh
    have hhead : ∀ id, c ≠ .enter (.loop id) ∧ c ≠ .leave (.loop id) := by
      intro id
      refine ⟨?_, ?_⟩ <;> intro hc <;> rw [hc] at hh <;> cases hh
    have hsites : ∀ next, (Stmt.scope h r).callSites next = (c, r.headLoop) :: r.callSites next := by
      intro next
      rw [Stmt.callSites, hcall]
      rfl
    refine ⟨fun next id x => ?_, fun next id x hmem => ?_⟩
    · rw [hsites, List.mem_cons, ← hr.enter next]
      simp [(hhead id).1.symm]
    · rw [hsites, List.mem_cons] at hmem
      rcases hmem with hmem | hmem
      · exact absurd (congrArg Prod.fst hmem).symm (hhead id).2
      · exact hr.leave next id x hmem

theorem lift (s : Stmt Empty) : EntersLoops [] (s.mapCall Empty.elim) :=
  of_offLoop fun next site hmem => by simp [Stmt.callSites_lift] at hmem

/-- A loop between its markers: the call that enters it stands right before it. -/
theorem loop (name : String) (min extent : Expr PapiFn) (forType : ForType) (api : DeviceAPI)
    (id : Nat) (hr : EntersLoops entries r) :
    EntersLoops (entries ++ [(id, name)])
      (.blockOf [enterLoop id, .for_ name min extent forType api r] (leaveLoop id)) where
  enter next id' x := by
    have hsites : (Stmt.blockOf [enterLoop id, .for_ name min extent forType api r]
        (leaveLoop id)).callSites next =
        (.enter (.loop id), some name) :: (r.callSites none ++ [(.leave (.loop id), next)]) := rfl
    simp only [hsites, List.mem_cons, List.mem_append, hr.enter, List.not_mem_nil, or_false]
    simp only [Prod.mk.injEq, PapiCall.enter.injEq, Region.loop.injEq, or_and_right, exists_or]
    simp [or_comm]
  leave next id' x hmem := by
    have hsites : (Stmt.blockOf [enterLoop id, .for_ name min extent forType api r]
        (leaveLoop id)).callSites next =
        (.enter (.loop id), some name) :: (r.callSites none ++ [(.leave (.loop id), next)]) := rfl
    rw [hsites, List.mem_cons, List.mem_append] at hmem
    rcases hmem with hmem | hmem | hmem
    · simp at hmem
    · obtain ⟨p, hp, hid⟩ := hr.leave _ _ _ hmem
      exact ⟨p, List.mem_append_left _ hp, hid⟩
    · refine ⟨(id, name), List.mem_append_right _ List.mem_cons_self, ?_⟩
      simp only [List.mem_singleton, Prod.mk.injEq, PapiCall.leave.injEq, Region.loop.injEq] at hmem
      exact hmem.1

theorem countBody (forType : ForType) (api : DeviceAPI) (hr : EntersLoops entries r) :
    EntersLoops entries (countBody forType api r) := by
  unfold ProfHalide.countBody
  split
  · exact between (call rfl) hr (call rfl)
  · exact hr

theorem bracketLaunch (forType : ForType) (api : DeviceAPI) (hr : EntersLoops entries r) :
    EntersLoops entries (bracketLaunch forType api r) := by
  unfold ProfHalide.bracketLaunch
  split
  · rw [launch_eq]
    exact between (call rfl) (between (call rfl) hr (call rfl)) (call rfl)
  · exact hr

end EntersLoops

/-! ### The mutator -/

section Mutate

variable (defs : List ProfilerDef) (loopDefs : List ProfilerLoop)

theorem bracketLoop_loops (name : String) (stmt : Stmt PapiFn) (st : InjectPAPIProfiling) :
    (bracketLoop loopDefs name stmt st).2.loops =
      register st.loops (if loopDefs.any (·.matches name) then [name] else []) := by
  unfold bracketLoop
  cases hfind : loopDefs.find? fun l => l.matches name with
  | none =>
    rw [← List.isSome_find?, hfind]
    rfl
  | some it =>
    rw [← List.isSome_find?, hfind]
    rfl

theorem bracketLoop_entersLoops (name : String) (min extent : Expr PapiFn) (forType : ForType)
    (api : DeviceAPI) (st : InjectPAPIProfiling) {entries : List (Nat × String)} {r : Stmt PapiFn}
    (hr : EntersLoops entries r) :
    EntersLoops
      (entries ++ assign st.loops (if loopDefs.any (·.matches name) then [name] else []))
      (bracketLoop loopDefs name (.for_ name min extent forType api r) st).1 := by
  unfold bracketLoop
  cases hfind : loopDefs.find? fun l => l.matches name with
  | none =>
    rw [← List.isSome_find?, hfind, Option.isSome_none, if_neg Bool.false_ne_true, assign,
      List.append_nil]
    exact hr.for_ name min extent forType api
  | some it =>
    rw [← List.isSome_find?, hfind]
    exact hr.loop name min extent forType api st.loops.size

theorem EntersLoops.visitForBody (forType : ForType) (api : DeviceAPI) (opBody : Stmt Empty)
    (mutateBody : Mutation) (st : InjectPAPIProfiling) {entries : List (Nat × String)}
    (hr : EntersLoops entries (mutateBody st).1) :
    EntersLoops (if api.isGpu then [] else entries)
      (visitForBody forType api opBody mutateBody st).1 := by
  cases api with
  | hexagon =>
    exact ((hr.countBody forType .hexagon).substitute _ _).scope rfl
  | none => exact hr.countBody forType .none
  | host => exact hr.countBody forType .host
  | _ => exact EntersLoops.lift opBody

/-- What a loop of the GPU contains is not mutated. -/
theorem visitForBody_loops (forType : ForType) (api : DeviceAPI) (body : Stmt Empty)
    {mutateBody : Mutation} (st : InjectPAPIProfiling)
    (h : (mutateBody st).2.loops = register st.loops (profiledLoops loopDefs body)) :
    (visitForBody forType api body mutateBody st).2.loops =
      register st.loops (if api.isGpu then [] else profiledLoops loopDefs body) := by
  rw [visitForBody_snd]
  split
  · rfl
  · exact h

theorem mutate_loops (s : Stmt Empty) (st : InjectPAPIProfiling) :
    (mutate defs loopDefs s st).2.loops = register st.loops (profiledLoops loopDefs s) := by
  induction s generalizing st with
  | leaf l => rfl
  | scope h body ih => exact ih st
  | producerConsumer name isProducer body ih =>
    obtain ⟨_, _, _, hst⟩ :=
      visitProducerConsumer_snd defs name isProducer (mutate defs loopDefs body) st
    have hbody := ih (beforeBody defs name isProducer st)
    rw [beforeBody_loops] at hbody
    rw [mutate, hst]
    cases isProducer <;> exact hbody
  | for_ name min extent forType api body ih =>
    have hbody := visitForBody_loops loopDefs forType api body st (ih st)
    rw [profiledLoops, register_append, ← hbody]
    exact bracketLoop_loops loopDefs name _ _
  | block a b iha ihb => rw [mutate, profiledLoops, register_append, ← iha st]; exact ihb _
  | fork a b iha ihb => rw [mutate, profiledLoops, register_append, ← iha st]; exact ihb _
  | ifThen c t ih => exact ih st
  | ifThenElse c t e iht ihe => rw [mutate, profiledLoops, register_append, ← iht st]; exact ihe _

/-- The loop calls of a mutated statement carry the numbers handed out for its loops. -/
theorem mutate_entersLoops (s : Stmt Empty) (st : InjectPAPIProfiling) :
    EntersLoops (assign st.loops (profiledLoops loopDefs s)) (mutate defs loopDefs s st).1 := by
  induction s generalizing st with
  | leaf l => exact EntersLoops.lift (.leaf l)
  | scope h body ih =>
    apply (ih st).scope
    rw [Scope.papiCall_lift]
    rfl
  | producerConsumer name isProducer body ih =>
    obtain ⟨idx, inner, hinner, hpaused⟩ :=
      visitProducerConsumer_shape defs name isProducer (mutate defs loopDefs body) st
    have hbody := ih (beforeBody defs name isProducer st)
    rw [beforeBody_loops] at hbody
    have hnode : EntersLoops _ (Stmt.blockMake (setCurrentFunc idx) inner) :=
      (EntersLoops.call rfl).block (hbody.measured hinner)
    exact (hnode.producerConsumer name isProducer).paused hpaused
  | for_ name min extent forType api body ih =>
    have hbody := EntersLoops.visitForBody forType api body (mutate defs loopDefs body) st (ih st)
    have hloops := visitForBody_loops loopDefs forType api body st (mutate_loops defs loopDefs body st)
    have hloop := (bracketLoop_entersLoops loopDefs name (min.mapCall Empty.elim)
      (extent.mapCall Empty.elim) forType api
      (visitForBody forType api body (mutate defs loopDefs body) st).2 hbody).bracketLaunch forType api
    rw [profiledLoops, assign_append, ← hloops]
    cases hgpu : api.isGpu <;> rw [hgpu] at hloop <;> exact hloop
  | block a b iha ihb =>
    have hb := ihb (mutate defs loopDefs a st).2
    rw [mutate_loops] at hb
    rw [profiledLoops, assign_append]
    exact (iha st).block hb
  | fork a b iha ihb =>
    have hb := ihb (mutate defs loopDefs a st).2
    rw [mutate_loops] at hb
    rw [profiledLoops, assign_append]
    exact (iha st).fork hb
  | ifThen c t ih => exact (ih st).ifThen _
  | ifThenElse c t e iht ihe =>
    have he := ihe (mutate defs loopDefs t st).2
    rw [mutate_loops] at he
    rw [profiledLoops, assign_append]
    exact (iht st).ifThenElse _ he

end Mutate

/-! ### The prologue -/

namespace Stmt

@[simp] theorem tableStores_blockMake (table : String) (a b : Stmt PapiFn) :
    (blockMake a b).tableStores table =
      a.tableStores table ++ (if a.startsPipeline then [] else b.tableStores table) := by
  induction a with
  | block first rest _ ih =>
    rw [blockMake, tableStores, ih, tableStores, startsPipeline]
    cases first.startsPipeline <;> simp
  | _ => rfl

end Stmt

section Tables

variable {α : Type} (table : String) (index : α → Nat) (value : α → Expr PapiFn) (entries : List α)
  (s : Stmt PapiFn)

theorem callSites_fillTable (next : Option String) :
    (fillTable table index value entries s).callSites next = s.callSites next := by
  induction entries generalizing s with
  | nil => rfl
  | cons p entries ih =>
    rw [fillTable, List.foldl_cons]
    apply (ih _).trans
    rw [tableStore, Stmt.callSites_blockMake]
    rfl

theorem tableStores_fillTable_of_ne {table' : String} (hne : table ≠ table') :
    (fillTable table index value entries s).tableStores table' = s.tableStores table' := by
  induction entries generalizing s with
  | nil => rfl
  | cons p entries ih =>
    rw [fillTable, List.foldl_cons]
    apply (ih _).trans
    rw [tableStore, Stmt.tableStores_blockMake]
    have hhead : (Stmt.leaf (.store table (value p) (.intImm (index p)) (makeBool true))).tableStores
        table' = [] := by
      unfold Stmt.tableStores
      split
      · rename_i hstore
        injection hstore with hstore
        injection hstore with hname
        rw [if_neg (hname ▸ hne)]
      all_goals first | rfl | contradiction
    rw [hhead]
    rfl

theorem tableStores_fillTable (name : α → String) :
    (fillTable table index (fun p => .stringImm (name p)) entries s).tableStores table =
      (entries.map fun p => ((index p : Int), name p)).reverse ++ s.tableStores table := by
  induction entries generalizing s with
  | nil => rfl
  | cons p entries ih =>
    rw [fillTable, List.foldl_cons]
    apply (ih _).trans
    rw [tableStore, Stmt.tableStores_blockMake, Stmt.tableStores, if_pos rfl]
    simp [Stmt.startsPipeline]

theorem tableStores_freeTable (table' : String) :
    (freeTable table' s).tableStores table = s.tableStores table := by
  rw [freeTable, Stmt.tableStores_blockMake]
  split
  · exact List.append_nil _
  · exact List.append_nil _

end Tables

/-! ### Names looked up in a table -/

section Lookup

variable {s : Stmt PapiFn} {table : String} {names : Std.TreeMap String Nat} {id : Nat} {name : String}

theorem Stmt.getElem?_of_tableEntry
    (hstores : s.tableStores table = (names.toList.map fun p => ((p.2 : Int), p.1)).reverse)
    (h : s.tableEntry table id = some name) : names[name]? = some id := by
  rw [Stmt.tableEntry, hstores, List.reverse_reverse] at h
  obtain ⟨before, after, hsplit, _⟩ := List.lookup_eq_some_iff.mp h
  have hmem : ((id : Int), name) ∈ names.toList.map fun p => ((p.2 : Int), p.1) := by
    rw [hsplit]
    simp
  obtain ⟨p, hp, heq⟩ := List.mem_map.mp hmem
  simp only [Prod.mk.injEq, Int.natCast_inj] at heq
  rw [← heq.1, ← heq.2]
  exact Std.TreeMap.mem_toList_iff_getElem?_eq_some.mp hp

theorem Stmt.tableEntry_of_getElem?
    (hstores : s.tableStores table = (names.toList.map fun p => ((p.2 : Int), p.1)).reverse)
    (hnumbered : Numbered names) (h : names[name]? = some id) : s.tableEntry table id = some name := by
  cases hentry : s.tableEntry table id with
  | some found => rw [hnumbered.inj _ _ _ (Stmt.getElem?_of_tableEntry hstores hentry) h]
  | none =>
    rw [Stmt.tableEntry, hstores, List.reverse_reverse] at hentry
    have hkey := List.lookup_eq_none_iff.mp hentry ((id : Int), name)
      (List.mem_map.mpr ⟨(name, id), Std.TreeMap.mem_toList_iff_getElem?_eq_some.mpr h, rfl⟩)
    simp at hkey

end Lookup

section Prologue

variable (defs : List ProfilerDef) (loopDefs : List ProfilerLoop) (s : Stmt Empty)
  (pipelineName : String)

/-- The map of loop names at the end of the pass. -/
abbrev finalLoops : Std.TreeMap String Nat := register init.loops (profiledLoops loopDefs s)

/-- The calls around the mutated statement. -/
theorem callSites_inject :
    ∃ before after,
      (injectPapiProfiling defs loopDefs s pipelineName).callSites none =
        before ++ (mutate defs loopDefs s init).1.callSites none ++ after ∧
      (∀ site ∈ before ++ after, site.1.offLoop = true) ∧
      ∃ numFuncs next,
        (.pipelineStart pipelineName numFuncs (finalLoops loopDefs s).size, next) ∈ before := by
  rw [finalLoops, ← mutate_loops defs loopDefs s init, inject_eq]
  dsimp only
  let mutated := mutate defs loopDefs s init
  have hstarted : (startedProgram pipelineName mutated.2 mutated.1).callSites none =
      [(.pipelineStart pipelineName mutated.2.indices.size mutated.2.loops.size, none),
        (.getState, none), (.getPipelineState, none), (.incrActiveThreads, mutated.1.headLoop)] ++
      mutated.1.callSites none ++ [(.decrActiveThreads, none)] := by
    rw [List.append_assoc]
    simp only [startedProgram, measuredProgram, Stmt.callSites, Stmt.blockOf_cons, Stmt.blockOf_nil,
      Stmt.callSites_blockMake, Stmt.headLoop_blockMake]
    rfl
  have htables : (allocateTables mutated.2 (freeTables (fillTables mutated.2
      (startedProgram pipelineName mutated.2 mutated.1)))).callSites none =
      (startedProgram pipelineName mutated.2 mutated.1).callSites none := by
    simp [allocateTables, tableAllocate, freeTables, freeTable, fillTables, Stmt.callSites,
      callSites_fillTable, Leaf.papiCall, Scope.papiCall, Stmt.headLoop]
  refine ⟨(.registerDestructor, none) ::
    [(.pipelineStart pipelineName mutated.2.indices.size mutated.2.loops.size, none),
      (.getState, none), (.getPipelineState, none), (.incrActiveThreads, mutated.1.headLoop)],
    [(.decrActiveThreads, none)], ?_, ?_, mutated.2.indices.size, none, ?_⟩
  · rw [Stmt.callSites_blockMake, htables, hstarted]
    rfl
  · simp [PapiCall.offLoop]
  · simp [mutated]

theorem inject_entersLoops {next : Option String} {id : Int} :
    ((.enter (.loop id), next) ∈ (injectPapiProfiling defs loopDefs s pipelineName).callSites none ↔
      ∃ p ∈ assign init.loops (profiledLoops loopDefs s), id = p.1 ∧ next = some p.2) ∧
    ((.leave (.loop id), next) ∈ (injectPapiProfiling defs loopDefs s pipelineName).callSites none →
      ∃ p ∈ assign init.loops (profiledLoops loopDefs s), id = p.1) := by
  obtain ⟨before, after, hsites, hother, _⟩ := callSites_inject defs loopDefs s pipelineName
  have hloops := mutate_entersLoops defs loopDefs s init
  have hmutated : ∀ site, site.1.offLoop = false →
      (site ∈ (injectPapiProfiling defs loopDefs s pipelineName).callSites none ↔
        site ∈ (mutate defs loopDefs s init).1.callSites none) := by
    intro site hloop
    rw [hsites, List.mem_append, List.mem_append]
    refine ⟨fun hmem => ?_, fun hmem => Or.inl (Or.inr hmem)⟩
    rcases hmem with (hmem | hmem) | hmem
    · rw [hother site (List.mem_append_left _ hmem)] at hloop
      cases hloop
    · exact hmem
    · rw [hother site (List.mem_append_right _ hmem)] at hloop
      cases hloop
  rw [hmutated _ rfl, hmutated _ rfl]
  exact ⟨hloops.enter none id next, hloops.leave none id next⟩

/-- Only the filling stores into the tables. -/
theorem tableStores_inject (table : String) :
    let mutated := mutate defs loopDefs s init
    (injectPapiProfiling defs loopDefs s pipelineName).tableStores table =
      (fillTables mutated.2 (startedProgram pipelineName mutated.2 mutated.1)).tableStores table := by
  rw [inject_eq]
  dsimp only
  rw [Stmt.tableStores_blockMake]
  simp only [allocateTables, tableAllocate, freeTables, Stmt.tableStores, tableStores_freeTable]
  rfl

/-- The runtime finds a name in the table at the number the name has in the final map. -/
theorem inject_tableStores :
    (injectPapiProfiling defs loopDefs s pipelineName).tableStores "profiling_loop_names" =
      ((finalLoops loopDefs s).toList.map fun p => ((p.2 : Int), p.1)).reverse := by
  rw [finalLoops, ← mutate_loops defs loopDefs s init, tableStores_inject, fillTables, tableStores_fillTable_of_ne _ _ _ _ _ (by decide),
    tableStores_fillTable_of_ne _ _ _ _ _ (by decide),
    tableStores_fillTable_of_ne _ _ _ _ _ (by decide), tableStores_fillTable,
    tableStores_fillTable_of_ne _ _ _ _ _ (by decide)]
  exact List.append_nil _

theorem getElem?_finalLoops_of_tableEntry {id : Nat} {name : String}
    (h : (injectPapiProfiling defs loopDefs s pipelineName).tableEntry "profiling_loop_names" id =
      some name) : (finalLoops loopDefs s)[name]? = some id :=
  Stmt.getElem?_of_tableEntry (inject_tableStores defs loopDefs s pipelineName) h

/-- With distinct numbers, a name is found at its own. -/
theorem tableEntry_of_getElem? (hnumbered : Numbered (finalLoops loopDefs s)) {id : Nat}
    {name : String} (h : (finalLoops loopDefs s)[name]? = some id) :
    (injectPapiProfiling defs loopDefs s pipelineName).tableEntry "profiling_loop_names" id =
      some name :=
  Stmt.tableEntry_of_getElem? (inject_tableStores defs loopDefs s pipelineName) hnumbered h

/-- The ids fit the table and the count given to the runtime exactly when no loop name is
instrumented twice. -/
theorem inject_loopIdsAgree_iff :
    LoopIdsAgree (injectPapiProfiling defs loopDefs s pipelineName) ↔
      (profiledLoops loopDefs s).Nodup := by
  have hempty : ∀ name : String, init.loops[name]? = none := fun _ => Std.TreeMap.getElem?_emptyc
  constructor
  · intro h
    have hassign : ∀ p ∈ assign init.loops (profiledLoops loopDefs s),
        (finalLoops loopDefs s)[p.2]? = some p.1 := by
      intro p hp
      have hsite := (inject_entersLoops defs loopDefs s pipelineName).1.mpr ⟨p, hp, rfl, rfl⟩
      obtain ⟨name, hname, hentry⟩ := h.named _ _ hsite
      rw [← Option.some.inj hname] at hentry
      exact getElem?_finalLoops_of_tableEntry defs loopDefs s pipelineName hentry
    refine (fresh_of_assign (fun x i hx => ?_) hassign).1
    rw [hempty] at hx
    cases hx
  · intro h
    have hfresh : Fresh init.loops (profiledLoops loopDefs s) := ⟨h, fun name _ => hempty name⟩
    have hnumbered : Numbered (finalLoops loopDefs s) := numbered_empty.register hfresh
    have hassign := register_of_mem_assign hfresh
    obtain ⟨before, after, hsites, _, numFuncs, next, hstart⟩ :=
      callSites_inject defs loopDefs s pipelineName
    refine ⟨⟨pipelineName, numFuncs, (finalLoops loopDefs s).size, next, ?_, ?_⟩, ?_, ?_⟩
    · rw [hsites]
      exact List.mem_append_left _ (List.mem_append_left _ hstart)
    · intro id next hmem
      have hid : ∃ p ∈ assign init.loops (profiledLoops loopDefs s), id = p.1 := by
        rcases hmem with hmem | hmem
        · obtain ⟨p, hp, hid, _⟩ := (inject_entersLoops defs loopDefs s pipelineName).1.mp hmem
          exact ⟨p, hp, hid⟩
        · exact (inject_entersLoops defs loopDefs s pipelineName).2 hmem
      obtain ⟨p, hp, hid⟩ := hid
      have hlt := hnumbered.lt p.2 p.1 (hassign p hp)
      omega
    · intro id id' x x' hx hx' hne heq
      obtain ⟨p, hp, hid, hpx⟩ := (inject_entersLoops defs loopDefs s pipelineName).1.mp hx
      obtain ⟨q, hq, hid', hqx⟩ := (inject_entersLoops defs loopDefs s pipelineName).1.mp hx'
      have hpq : p.1 = q.1 := by omega
      have hq' := hassign q hq
      rw [← hpq] at hq'
      have hname := hnumbered.inj _ _ _ (hassign p hp) hq'
      rw [hpx, hqx, hname] at hne
      exact hne rfl
    · intro id next hmem
      obtain ⟨p, hp, hid, hnext⟩ := (inject_entersLoops defs loopDefs s pipelineName).1.mp hmem
      rw [hid]
      exact ⟨p.2, hnext, tableEntry_of_getElem? defs loopDefs s pipelineName hnumbered (hassign p hp)⟩

end Prologue

/-- A loop split into its first and its remaining iterations keeps its name in both parts. -/
theorem not_loopIdsAgree_split :
    ¬ LoopIdsAgree (injectPapiProfiling [] [⟨"f", "x", false⟩]
      (.block
        (.for_ "f.s0.x" (.intImm 0) (.intImm 1) .serial .host (.leaf (.evaluate (.intImm 0))))
        (.for_ "f.s0.x" (.intImm 1) (.intImm 7) .serial .host (.leaf (.evaluate (.intImm 0)))))
      "p") := by
  intro h
  obtain ⟨name, hname, hentry⟩ := h.named 0 (some "f.s0.x") (by decide)
  cases hname
  exact absurd hentry (by decide)

end ProfHalide
