import ProfHalide.Pass.Inject

/-!
# What the visitors build

The statement a visitor returns is the original node around the mutated body, bracketed by calls into
the profiler. This module states once which brackets there can be and which parts of the mutator's
state a visitor touches, so that the results about the pass need not open the visitors.
-/

namespace ProfHalide

open InjectPAPIProfiling

/-! ### Brackets -/

/-- The body of a node as it is, or measured. -/
inductive Measured (s : Stmt PapiFn) : Stmt PapiFn → Prop where
  | plain : Measured s s
  | overhead (idx : Nat) :
      Measured s (.blockOf [enterOverheadRegion idx, s] (leaveOverheadRegion idx))
  | func (fid : Nat) (isProducer : Bool) :
      Measured s (.blockOf [enterCurrentFunc fid isProducer, s] (leaveCurrentFunc fid isProducer))

/-- A node as it is, or with the overhead of the produce node around it paused. -/
inductive Paused (s : Stmt PapiFn) : Stmt PapiFn → Prop where
  | plain : Paused s s
  | overhead (idx : Nat) :
      Paused s (.blockOf [leaveOverheadRegion idx, s] (enterOverheadRegion idx))

/-- The two brackets around a launch, one inside the other. -/
theorem launch_eq (s : Stmt PapiFn) :
    Stmt.blockOf [decrActiveThreads, enterParallelRegion, s, leaveParallelRegion] incrActiveThreads =
      .blockOf [decrActiveThreads, .blockOf [enterParallelRegion, s] leaveParallelRegion]
        incrActiveThreads := by
  simp only [Stmt.blockOf_cons, Stmt.blockOf_nil, Stmt.blockMake_assoc]

/-! ### The state around a body -/

/-- The map after a func has been given an index. -/
def withFunc (indices : Std.TreeMap String Nat) (name : String) : Std.TreeMap String Nat :=
  match indices[normalizeName name]? with
  | some _ => indices
  | none => indices.insert (normalizeName name) indices.size

/-- The index a func has or is about to get. -/
def funcId (indices : Std.TreeMap String Nat) (name : String) : Nat :=
  indices[normalizeName name]?.getD indices.size

theorem withFunc_getElem? (indices : Std.TreeMap String Nat) (name : String) :
    (withFunc indices name)[normalizeName name]? = some (funcId indices name) := by
  unfold withFunc funcId
  split
  case h_1 idx hidx => rw [hidx, Option.getD_some]
  case h_2 hnone => rw [Std.TreeMap.getElem?_insert_self, hnone, Option.getD_none]

@[simp] theorem withFunc_idem (indices : Std.TreeMap String Nat) (name : String) :
    withFunc (withFunc indices name) name = withFunc indices name := by
  have h := withFunc_getElem? indices name
  rw [withFunc, h]

theorem getFuncId_eq (st : InjectPAPIProfiling) (name : String) :
    st.getFuncId name = (funcId st.indices name, { st with indices := withFunc st.indices name }) := by
  unfold getFuncId withFunc funcId
  dsimp only
  cases h : st.indices[normalizeName name]? with
  | some idx => rfl
  | none => rfl

section State

variable (st : InjectPAPIProfiling)

theorem stackBack_fst : st.stackBack.1 = st.stack.headD 0 := by
  unfold stackBack
  cases st.stack <;> rfl

theorem stackBack_snd : ∃ emptyBack, st.stackBack.2 = { st with emptyBack := emptyBack } := by
  unfold stackBack
  split
  · exact ⟨st.emptyBack, rfl⟩
  · exact ⟨true, rfl⟩

theorem profileStackBack_snd :
    ∃ emptyBack, st.profileStackBack.2 = { st with emptyBack := emptyBack } := by
  unfold profileStackBack
  split
  · exact ⟨st.emptyBack, rfl⟩
  · exact ⟨true, rfl⟩

theorem inherit_snd (it : Option ProfilerDef) (status : Bool × Bool) :
    ∃ emptyBack, (st.inherit it status).2 = { st with emptyBack := emptyBack } := by
  unfold inherit
  split
  · exact profileStackBack_snd st
  · exact ⟨st.emptyBack, rfl⟩

theorem countChild_eq :
    ∃ emptyBack counts,
      st.countChild = { st with emptyBack := emptyBack, funcChildrens := counts } := by
  unfold countChild
  split
  · obtain ⟨emptyBack, h⟩ := stackBack_snd st
    refine ⟨emptyBack, Function.update st.funcChildrens st.stackBack.1
      (st.funcChildrens st.stackBack.1 + 1), ?_⟩
    simp only [h]
  · exact ⟨st.emptyBack, st.funcChildrens, rfl⟩

@[simp] theorem countChild_indices : st.countChild.indices = st.indices := by
  obtain ⟨_, _, h⟩ := countChild_eq st
  rw [h]

@[simp] theorem countChild_loops : st.countChild.loops = st.loops := by
  obtain ⟨_, _, h⟩ := countChild_eq st
  rw [h]

@[simp] theorem countChild_stack : st.countChild.stack = st.stack := by
  obtain ⟨_, _, h⟩ := countChild_eq st
  rw [h]

@[simp] theorem countChild_profileStack : st.countChild.profileStack = st.profileStack := by
  obtain ⟨_, _, h⟩ := countChild_eq st
  rw [h]

theorem setShowThreads_eq (fid : Nat) (isProducer showThreads : Bool) :
    ∃ prod cons, st.setShowThreads fid isProducer showThreads =
      { st with showThreadsProd := prod, showThreadsCons := cons } := by
  unfold setShowThreads
  split
  · exact ⟨_, _, rfl⟩
  · exact ⟨_, _, rfl⟩

theorem bracketBody_snd (profiled : Bool) (name : String) (isProducer : Bool) (idx : Nat)
    (body : Stmt PapiFn) :
    ∃ indices, withFunc indices name = withFunc st.indices name ∧
      (bracketBody profiled name isProducer idx body st).2 = { st with indices := indices } := by
  unfold bracketBody
  split
  · split
    · exact ⟨st.indices, rfl, rfl⟩
    · rw [getFuncId_eq]
      exact ⟨withFunc st.indices name, withFunc_idem _ _, rfl⟩
  · exact ⟨st.indices, rfl, rfl⟩

theorem bracketNode_snd (profiled : Bool) (stmt : Stmt PapiFn) :
    ∃ emptyBack, (bracketNode profiled stmt st).2 = { st with emptyBack := emptyBack } := by
  unfold bracketNode
  split
  · exact stackBack_snd st
  · exact ⟨st.emptyBack, rfl⟩

end State

/-- The status a node's registration gives it: whether it is profiled and whether it shows threads. -/
def registeredStatus (it : Option ProfilerDef) : Bool × Bool :=
  (it.any (·.enable), it.any (·.enable) && it.any (·.showThreads))

/-- The registration a node takes in a given state. -/
def registration (defs : List ProfilerDef) (name : String) (isProducer : Bool)
    (st : InjectPAPIProfiling) : Option ProfilerDef :=
  defs.find? fun d => d.matches name isProducer st.parentName

/-- The state in which the body of a node is mutated. -/
def beforeBody (defs : List ProfilerDef) (name : String) (isProducer : Bool)
    (st : InjectPAPIProfiling) : InjectPAPIProfiling :=
  if isProducer then
    (st.countChild.getFuncId name).2.pushProducer (st.countChild.getFuncId name).1
      (registeredStatus (registration defs name isProducer st))
  else st.countChild

@[simp] theorem beforeBody_loops (defs : List ProfilerDef) (name : String) (isProducer : Bool)
    (st : InjectPAPIProfiling) : (beforeBody defs name isProducer st).loops = st.loops := by
  unfold beforeBody
  split
  · simp [pushProducer, getFuncId_eq]
  · simp

theorem visitForBody_snd (forType : ForType) (api : DeviceAPI) (opBody : Stmt Empty)
    (mutateBody : Mutation) (st : InjectPAPIProfiling) :
    (visitForBody forType api opBody mutateBody st).2 =
      if api.isGpu then st else (mutateBody st).2 := by
  cases api <;> rfl

theorem visitFor_state (loopDefs : List ProfilerLoop) (name : String) (min extent : Expr Empty)
    (forType : ForType) (api : DeviceAPI) (opBody : Stmt Empty) (mutateBody : Mutation) (st : InjectPAPIProfiling) :
    ∃ loops showThreadsLoop,
      (visitFor loopDefs name min extent forType api opBody mutateBody st).2 =
        { (if api.isGpu then st else (mutateBody st).2) with
          loops := loops
          showThreadsLoop := showThreadsLoop } := by
  rw [← visitForBody_snd forType api opBody]
  unfold visitFor bracketLoop
  dsimp only
  split
  · exact ⟨_, _, rfl⟩
  · exact ⟨_, _, rfl⟩

/-- A loop between its markers and, if it is launched, between the calls that count. -/
theorem visitFor_fst (loopDefs : List ProfilerLoop) (name : String) (min extent : Expr Empty)
    (forType : ForType) (api : DeviceAPI) (opBody : Stmt Empty) (mutateBody : Mutation)
    (st : InjectPAPIProfiling) :
    (visitFor loopDefs name min extent forType api opBody mutateBody st).1 =
      bracketLaunch forType api (bracketLoop loopDefs name
        (.for_ name (min.mapCall Empty.elim) (extent.mapCall Empty.elim) forType api
          (visitForBody forType api opBody mutateBody st).1)
        (visitForBody forType api opBody mutateBody st).2).1 := rfl

theorem bracketBody_measured (profiled : Bool) (name : String) (isProducer : Bool) (idx : Nat)
    (body : Stmt PapiFn) (st : InjectPAPIProfiling) :
    Measured body (bracketBody profiled name isProducer idx body st).1 := by
  unfold bracketBody
  split
  · split
    · exact .overhead idx
    · exact .func _ _
  · exact .plain

theorem bracketNode_paused (profiled : Bool) (stmt : Stmt PapiFn) (st : InjectPAPIProfiling) :
    Paused stmt (bracketNode profiled stmt st).1 := by
  unfold bracketNode
  split
  · exact .overhead _
  · exact .plain

theorem finishNode_shape (it : Option ProfilerDef) (status : Bool × Bool) (name : String)
    (isProducer : Bool) (idx : Nat) (body : Stmt PapiFn) (st : InjectPAPIProfiling) :
    ∃ inner, Measured body inner ∧
      Paused (.producerConsumer name isProducer (.blockMake (setCurrentFunc idx) inner))
        (finishNode it status name isProducer idx body st).1 := by
  exact ⟨_, bracketBody_measured _ _ _ _ _ _, bracketNode_paused _ _ _⟩

/-- The index, the body and the state with which a node is finished. -/
def visitedBody (defs : List ProfilerDef) (name : String) (isProducer : Bool)
    (mutateBody : Mutation) (st : InjectPAPIProfiling) : Nat × Stmt PapiFn × InjectPAPIProfiling :=
  visitNodeBody name isProducer (registeredStatus (registration defs name isProducer st)) mutateBody
    st.countChild

theorem visitProducerConsumer_eq (defs : List ProfilerDef) (name : String) (isProducer : Bool)
    (mutateBody : Mutation) (st : InjectPAPIProfiling) :
    visitProducerConsumer defs name isProducer mutateBody st =
      finishNode (registration defs name isProducer st)
        (registeredStatus (registration defs name isProducer st)) name isProducer
        (visitedBody defs name isProducer mutateBody st).1
        (visitedBody defs name isProducer mutateBody st).2.1
        (visitedBody defs name isProducer mutateBody st).2.2 := rfl

theorem visitedBody_body (defs : List ProfilerDef) (name : String) (isProducer : Bool)
    (mutateBody : Mutation) (st : InjectPAPIProfiling) :
    (visitedBody defs name isProducer mutateBody st).2.1 =
      (mutateBody (beforeBody defs name isProducer st)).1 := by
  cases isProducer <;> rfl

/-- A node keeps its name and kind, and its body only gains brackets. -/
theorem visitProducerConsumer_shape (defs : List ProfilerDef) (name : String) (isProducer : Bool)
    (mutateBody : Mutation) (st : InjectPAPIProfiling) :
    ∃ idx inner, Measured (mutateBody (beforeBody defs name isProducer st)).1 inner ∧
      Paused (.producerConsumer name isProducer (.blockMake (setCurrentFunc idx) inner))
        (visitProducerConsumer defs name isProducer mutateBody st).1 := by
  rw [← visitedBody_body]
  exact ⟨_, finishNode_shape _ _ _ _ _ _ _⟩

theorem visitedBody_snd (defs : List ProfilerDef) (name : String) (isProducer : Bool)
    (mutateBody : Mutation) (st : InjectPAPIProfiling) :
    ∃ emptyBack,
      let after := (mutateBody (beforeBody defs name isProducer st)).2
      (visitedBody defs name isProducer mutateBody st).2.2 =
        { (if isProducer then after.popProducer else after) with emptyBack := emptyBack } := by
  cases isProducer with
  | true => exact ⟨_, rfl⟩
  | false => exact stackBack_snd _

/-- The index that becomes the current func. -/
theorem visitedBody_fst (defs : List ProfilerDef) (name : String) (isProducer : Bool)
    (mutateBody : Mutation) (st : InjectPAPIProfiling) :
    (visitedBody defs name isProducer mutateBody st).1 =
      if isProducer then funcId st.indices name
      else (mutateBody (beforeBody defs name isProducer st)).2.stackBack.1 := by
  cases isProducer with
  | false => rfl
  | true =>
    apply (congrArg Prod.fst (getFuncId_eq st.countChild name)).trans
    rw [countChild_indices, if_pos rfl]

/-- The index a func has does not depend on whether it was just given. -/
theorem funcId_eq_of_withFunc_eq {indices indices' : Std.TreeMap String Nat} {name : String}
    (h : withFunc indices name = withFunc indices' name) :
    funcId indices name = funcId indices' name := by
  have hid := withFunc_getElem? indices name
  rw [h, withFunc_getElem?] at hid
  exact (Option.some.inj hid).symm

/-- What is left of a visit gives the func its index and enters its status in the table of its kind. -/
theorem finishNode_state (it : Option ProfilerDef) (status : Bool × Bool) (name : String)
    (isProducer : Bool) (idx : Nat) (body : Stmt PapiFn) (st : InjectPAPIProfiling) :
    ∃ emptyBack, (finishNode it status name isProducer idx body st).2 =
      { st with
        indices := withFunc st.indices name
        emptyBack := emptyBack }.setShowThreads (funcId st.indices name) isProducer
          (st.inherit it status).1.2 := by
  obtain ⟨_, hinherit⟩ := inherit_snd st it status
  let profiled := (st.inherit it status).1.1
  obtain ⟨indices, hindices, hbody⟩ :=
    bracketBody_snd (st.inherit it status).2 profiled name isProducer idx body
  let bracketed := bracketBody profiled name isProducer idx body (st.inherit it status).2
  let node : Stmt PapiFn :=
    .producerConsumer name isProducer (.blockMake (setCurrentFunc idx) bracketed.1)
  obtain ⟨emptyBack, hnode⟩ := bracketNode_snd bracketed.2 profiled node
  rw [hinherit] at hindices
  refine ⟨emptyBack, ?_⟩
  change ((bracketNode profiled node bracketed.2).2.getFuncId name).2.setShowThreads
    ((bracketNode profiled node bracketed.2).2.getFuncId name).1 isProducer
      (st.inherit it status).1.2 = _
  rw [getFuncId_eq, hnode]
  dsimp only [bracketed]
  rw [hbody, hinherit]
  simp only [hindices, funcId_eq_of_withFunc_eq hindices]

theorem finishNode_snd (it : Option ProfilerDef) (status : Bool × Bool) (name : String)
    (isProducer : Bool) (idx : Nat) (body : Stmt PapiFn) (st : InjectPAPIProfiling) :
    ∃ emptyBack prod cons, (finishNode it status name isProducer idx body st).2 =
      { st with
        indices := withFunc st.indices name
        emptyBack := emptyBack
        showThreadsProd := prod
        showThreadsCons := cons } := by
  obtain ⟨emptyBack, h⟩ := finishNode_state it status name isProducer idx body st
  rw [h]
  obtain ⟨prod, cons, hset⟩ := setShowThreads_eq
    { st with indices := withFunc st.indices name, emptyBack := emptyBack }
    (funcId st.indices name) isProducer (st.inherit it status).1.2
  exact ⟨emptyBack, prod, cons, hset⟩

/-- What a node's status turns out to be once its body is mutated. -/
def visitStatus (defs : List ProfilerDef) (name : String) (isProducer : Bool) (mutateBody : Mutation)
    (st : InjectPAPIProfiling) : Bool × Bool :=
  ((visitedBody defs name isProducer mutateBody st).2.2.inherit
    (registration defs name isProducer st)
    (registeredStatus (registration defs name isProducer st))).1

/-- What a node leaves of the state its body left: the stacks as they were before, an index for the
node's func, and its status in one of the tables of shown threads. -/
theorem visitProducerConsumer_state (defs : List ProfilerDef) (name : String) (isProducer : Bool)
    (mutateBody : Mutation) (st : InjectPAPIProfiling) :
    ∃ emptyBack,
      let after := (mutateBody (beforeBody defs name isProducer st)).2
      (visitProducerConsumer defs name isProducer mutateBody st).2 =
        { (if isProducer then after.popProducer else after) with
          indices := withFunc after.indices name
          emptyBack := emptyBack }.setShowThreads (funcId after.indices name) isProducer
            (visitStatus defs name isProducer mutateBody st).2 := by
  obtain ⟨_, hbody⟩ := visitedBody_snd defs name isProducer mutateBody st
  obtain ⟨emptyBack, hfinish⟩ :=
    finishNode_state (registration defs name isProducer st)
      (registeredStatus (registration defs name isProducer st)) name isProducer
      (visitedBody defs name isProducer mutateBody st).1
      (visitedBody defs name isProducer mutateBody st).2.1
      (visitedBody defs name isProducer mutateBody st).2.2
  refine ⟨emptyBack, ?_⟩
  rw [visitProducerConsumer_eq, hfinish, visitStatus]
  rw [hbody]
  cases isProducer <;> rfl

theorem visitProducerConsumer_snd (defs : List ProfilerDef) (name : String) (isProducer : Bool)
    (mutateBody : Mutation) (st : InjectPAPIProfiling) :
    ∃ emptyBack prod cons,
      let after := (mutateBody (beforeBody defs name isProducer st)).2
      (visitProducerConsumer defs name isProducer mutateBody st).2 =
        { (if isProducer then after.popProducer else after) with
          indices := withFunc after.indices name
          emptyBack := emptyBack
          showThreadsProd := prod
          showThreadsCons := cons } := by
  obtain ⟨emptyBack, h⟩ := visitProducerConsumer_state defs name isProducer mutateBody st
  let after := (mutateBody (beforeBody defs name isProducer st)).2
  obtain ⟨prod, cons, hset⟩ := setShowThreads_eq
    { (if isProducer then after.popProducer else after) with
      indices := withFunc after.indices name, emptyBack := emptyBack }
    (funcId after.indices name) isProducer (visitStatus defs name isProducer mutateBody st).2
  exact ⟨emptyBack, prod, cons, h.trans hset⟩

/-- A func gets its index when its node is left at the latest. -/
theorem mutate_producerConsumer_indices (defs : List ProfilerDef) (loopDefs : List ProfilerLoop)
    (name : String) (isProducer : Bool) (body : Stmt Empty) (st : InjectPAPIProfiling) :
    (mutate defs loopDefs (.producerConsumer name isProducer body) st).2.indices =
      withFunc (mutate defs loopDefs body (beforeBody defs name isProducer st)).2.indices name := by
  obtain ⟨_, _, _, hst⟩ := visitProducerConsumer_snd defs name isProducer (mutate defs loopDefs body) st
  rw [mutate, hst]

theorem mutate_for_indices (defs : List ProfilerDef) (loopDefs : List ProfilerLoop) (name : String)
    (min extent : Expr Empty) (forType : ForType) (api : DeviceAPI) (body : Stmt Empty)
    (st : InjectPAPIProfiling) :
    (mutate defs loopDefs (.for_ name min extent forType api body) st).2.indices =
      if api.isGpu then st.indices else (mutate defs loopDefs body st).2.indices := by
  obtain ⟨_, _, hst⟩ := visitFor_state loopDefs name min extent forType api body
    (mutate defs loopDefs body) st
  rw [mutate, hst]
  cases api.isGpu <;> rfl

/-! ### What the pass keeps -/

/-- A call that marks what is running or measured. -/
def PapiCall.isMarker : PapiCall → Bool
  | .setCurrentFunc _ | .enter _ | .leave _ => true
  | _ => false

/-- A property of statements that every construction of the mutator keeps. -/
structure KeptByMutation (M : Stmt PapiFn → Prop) : Prop where
  lift : ∀ s : Stmt Empty, M s.lift
  scope : ∀ {r} (h : Scope Empty), M r → M (.scope (h.mapCall Empty.elim) r)
  producerConsumer : ∀ {r} name isProducer, M r → M (.producerConsumer name isProducer r)
  for_ : ∀ {r} name min extent forType api, M r → M (.for_ name min extent forType api r)
  block : ∀ {r r'}, M r → M r' → M (.blockMake r r')
  fork : ∀ {r r'}, M r → M r' → M (.fork r r')
  ifThen : ∀ {r} c, M r → M (.ifThen c r)
  ifThenElse : ∀ {r r'} c, M r → M r' → M (.ifThenElse c r r')
  marker : ∀ {fn args c}, PapiFn.decode fn args = some c → c.isMarker = true →
    M (.evaluate (.call fn args))
  kernel : ∀ {r}, M r → M (.letStmt "hvx_profiler_state" (.call .getState [])
    (r.substitute "profiler_state" "hvx_profiler_state"))
  counted : ∀ {r}, M r → M (.blockOf [incrActiveThreads, r] decrActiveThreads)
  launched : ∀ {r}, M r →
    M (.blockOf [decrActiveThreads, enterParallelRegion, r, leaveParallelRegion] incrActiveThreads)

namespace KeptByMutation

variable {M : Stmt PapiFn → Prop} {r r' n n' : Stmt PapiFn}

theorem between (h : KeptByMutation M) (hn : M n) (hr : M r) (hn' : M n') : M (.blockOf [n, r] n') :=
  h.block hn (h.block hr hn')

theorem measured (h : KeptByMutation M) (hr : M r) (hmeasured : Measured r r') : M r' := by
  cases hmeasured with
  | plain => exact hr
  | overhead idx =>
    exact h.between (h.marker (c := .enter (.overhead idx)) rfl rfl) hr
      (h.marker (c := .leave (.overhead idx)) rfl rfl)
  | func fid p =>
    exact h.between (h.marker (c := .enter (.func fid p)) (by cases p <;> rfl) rfl) hr
      (h.marker (c := .leave (.func fid p)) (by cases p <;> rfl) rfl)

theorem paused (h : KeptByMutation M) (hr : M r) (hpaused : Paused r r') : M r' := by
  cases hpaused with
  | plain => exact hr
  | overhead idx =>
    exact h.between (h.marker (c := .leave (.overhead idx)) rfl rfl) hr
      (h.marker (c := .enter (.overhead idx)) rfl rfl)

theorem countBody (h : KeptByMutation M) (forType : ForType) (api : DeviceAPI) (hr : M r) :
    M (countBody forType api r) := by
  unfold ProfHalide.countBody
  split
  · exact h.counted hr
  · exact hr

theorem visitForBody (h : KeptByMutation M) (forType : ForType) (api : DeviceAPI) (opBody : Stmt Empty)
    (mutateBody : Mutation) (st : InjectPAPIProfiling) (hr : M (mutateBody st).1) :
    M (visitForBody forType api opBody mutateBody st).1 := by
  cases api with
  | hexagon => exact h.kernel (h.countBody forType .hexagon hr)
  | none => exact h.countBody forType .none hr
  | host => exact h.countBody forType .host hr
  | _ => exact h.lift opBody

theorem bracketLoop (h : KeptByMutation M) (loopDefs : List ProfilerLoop) (name : String)
    (st : InjectPAPIProfiling) (hr : M r) : M (bracketLoop loopDefs name r st).1 := by
  unfold ProfHalide.bracketLoop
  split
  · exact h.between (h.marker (c := .enter (.loop st.loops.size)) rfl rfl) hr
      (h.marker (c := .leave (.loop st.loops.size)) rfl rfl)
  · exact hr

theorem bracketLaunch (h : KeptByMutation M) (forType : ForType) (api : DeviceAPI) (hr : M r) :
    M (bracketLaunch forType api r) := by
  unfold ProfHalide.bracketLaunch
  split
  · exact h.launched hr
  · exact hr

/-- What every construction keeps holds of what the mutator returns. -/
theorem mutate (h : KeptByMutation M) (defs : List ProfilerDef) (loopDefs : List ProfilerLoop)
    (s : Stmt Empty) (st : InjectPAPIProfiling) : M (mutate defs loopDefs s st).1 := by
  induction s generalizing st with
  | leaf l => exact h.lift (.leaf l)
  | scope hd body ih => exact h.scope hd (ih st)
  | producerConsumer name isProducer body ih =>
    obtain ⟨idx, inner, hinner, hpaused⟩ :=
      visitProducerConsumer_shape defs name isProducer (ProfHalide.mutate defs loopDefs body) st
    have hset : M (setCurrentFunc idx) := h.marker (c := .setCurrentFunc idx) rfl rfl
    have hnode := h.block hset (h.measured (ih _) hinner)
    exact h.paused (h.producerConsumer name isProducer hnode) hpaused
  | for_ name min extent forType api body ih =>
    have hbody := h.visitForBody forType api body (ProfHalide.mutate defs loopDefs body) st (ih st)
    exact h.bracketLaunch forType api
      (h.bracketLoop loopDefs name _ (h.for_ name _ _ forType api hbody))
  | block a b iha ihb => exact h.block (iha st) (ihb _)
  | fork a b iha ihb => exact h.fork (iha st) (ihb _)
  | ifThen c t ih => exact h.ifThen _ (ih st)
  | ifThenElse c t e iht ihe => exact h.ifThenElse _ (iht st) (ihe _)

end KeptByMutation

/-! ### The prologue -/

section Prologue

/-- The part of the instrumented program that runs once the profiler has been started. -/
def measuredProgram (pipelineName : String) (s : Stmt PapiFn) : Stmt PapiFn :=
  .letStmt "profiler_state" (.call .getState [])
    (.letStmt "profiler_pipeline_state" (.call .getPipelineState [.stringImm pipelineName])
      (.blockOf [incrActiveThreads, s] decrActiveThreads))

/-- The start of the pipeline, and what depends on its token. -/
def startedProgram (pipelineName : String) (profiling : InjectPAPIProfiling) (s : Stmt PapiFn) :
    Stmt PapiFn :=
  .letStmt "profiler_token"
    (.call .pipelineStart
      [.stringImm pipelineName, .intImm profiling.indices.size, .intImm profiling.loops.size,
        .variable "profiling_func_names", .variable "profiling_loop_names",
        .variable "profiling_func_threads_prod", .variable "profiling_func_threads_cons",
        .variable "profiling_loop_threads"])
    (.blockMake (.leaf (.assertStmt (.op ">=" [profilerToken, .intImm 0]) profilerToken))
      (measuredProgram pipelineName s))

/-- The stores of a whole table. -/
def fillTable {α : Type} (table : String) (index : α → Nat) (value : α → Expr PapiFn)
    (entries : List α) (s : Stmt PapiFn) : Stmt PapiFn :=
  entries.foldl (fun s p => tableStore table s (index p) (value p)) s

def fillTables (profiling : InjectPAPIProfiling) (s : Stmt PapiFn) : Stmt PapiFn :=
  fillTable "profiling_loop_threads" Prod.fst (fun p => makeBool p.2)
    profiling.showThreadsLoop.toList <|
  fillTable "profiling_func_threads_cons" Prod.fst (fun p => makeBool p.2)
    profiling.showThreadsCons.toList <|
  fillTable "profiling_func_threads_prod" Prod.fst (fun p => makeBool p.2)
    profiling.showThreadsProd.toList <|
  fillTable "profiling_loop_names" Prod.snd (fun p => .stringImm p.1) profiling.loops.toList <|
  fillTable "profiling_func_names" Prod.snd (fun p => .stringImm p.1) profiling.indices.toList s

def freeTable (table : String) (s : Stmt PapiFn) : Stmt PapiFn :=
  .blockMake s (.leaf (.free table))

def freeTables (s : Stmt PapiFn) : Stmt PapiFn :=
  freeTable "profiling_loop_names" <| freeTable "profiling_func_names" <|
  freeTable "profiling_loop_threads" <| freeTable "profiling_func_threads_cons" <|
  freeTable "profiling_func_threads_prod" s

def allocateTables (profiling : InjectPAPIProfiling) (s : Stmt PapiFn) : Stmt PapiFn :=
  tableAllocate "profiling_loop_threads" profiling.loops.size <|
  tableAllocate "profiling_func_threads_cons" profiling.indices.size <|
  tableAllocate "profiling_func_threads_prod" profiling.indices.size <|
  tableAllocate "profiling_loop_names" profiling.loops.size <|
  tableAllocate "profiling_func_names" profiling.indices.size s

/-- The pass in layers: the mutated statement, the start around it, the tables around that. -/
theorem inject_eq (defs : List ProfilerDef) (loopDefs : List ProfilerLoop) (s : Stmt Empty)
    (pipelineName : String) :
    injectPapiProfiling defs loopDefs s pipelineName =
      let mutated := mutate defs loopDefs s init
      .blockMake (.evaluate (.call .registerDestructor
          [.stringImm "halide_papi_pipeline_end", .call .getState []]))
        (allocateTables mutated.2 (freeTables (fillTables mutated.2
          (startedProgram pipelineName mutated.2 mutated.1)))) := rfl

end Prologue

end ProfHalide
