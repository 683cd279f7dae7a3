import ProfHalide.Pass.Nesting

/-!
# The visited nodes

Every produce or consume node that the mutator visits, in the order in which the visits end: what the
mutator finds around the node and what it decides. What was decided can be read off the instrumented
statement, where the body of a profiled node begins with a measurement, and off the tables of shown
threads.
-/

namespace ProfHalide

open InjectPAPIProfiling

/-- A visited node. -/
structure Visit where
  name : String
  isProducer : Bool
  /-- The innermost produce node around it, with its status in the end. -/
  around : Option (String × Bool × Bool)
  /-- What registrations for a single parent are compared with. -/
  parentName : String
  registration : Option ProfilerDef
  id : Nat
  /-- Whether it is profiled and whether it shows threads. -/
  status : Bool × Bool

section Visits

variable (defs : List ProfilerDef) (loopDefs : List ProfilerLoop)

/-- The visits made while a statement inside `around` is mutated. -/
def visits : Option (String × Bool × Bool) → Stmt Empty → InjectPAPIProfiling → List Visit
  | _, .leaf _, _ => []
  | around, .scope _ body, st | around, .ifThen _ body, st => visits around body st
  | around, .producerConsumer name isProducer body, st =>
      let status := visitStatus defs name isProducer (mutate defs loopDefs body) st
      visits (if isProducer then some (name, status) else around) body
          (beforeBody defs name isProducer st) ++
        [{ name, isProducer, around, status
           parentName := st.parentName
           registration := registration defs name isProducer st
           id := funcId (mutate defs loopDefs body (beforeBody defs name isProducer st)).2.indices name }]
  | around, .for_ _ _ _ _ api body, st => if api.isGpu then [] else visits around body st
  | around, .block a b, st | around, .fork a b, st | around, .ifThenElse _ a b, st =>
      visits around a st ++ visits around b (mutate defs loopDefs a st).2

/-- A node's status does not depend on what is below it. -/
theorem visitStatus_eq (name : String) (isProducer : Bool) {mutateBody : Mutation}
    {st : InjectPAPIProfiling}
    (h : Frame (beforeBody defs name isProducer st)
      (mutateBody (beforeBody defs name isProducer st)).2) :
    visitStatus defs name isProducer mutateBody st =
      (st.inherit (registration defs name isProducer st)
        (registeredStatus (registration defs name isProducer st))).1 := by
  have hprofile := (visitedBody_frame defs name isProducer h).profileStack
  unfold visitStatus inherit profileStackBack
  rw [hprofile]
  cases st.profileStack <;> split <;> rfl

end Visits

/-! ### What the instrumented statement shows -/

/-- A call that starts measuring a func or its overhead. -/
def PapiCall.entersFunc : PapiCall → Bool
  | .enter (.func _ _) | .enter (.overhead _) => true
  | _ => false

namespace Stmt

/-- The call a statement begins with. -/
def headCall : Stmt PapiFn → Option PapiCall
  | .leaf l => l.papiCall
  | .block first _ => first.headCall
  | _ => none

/-- Whether a measurement begins right after the first statement of a node's body, which says whose node
it is. -/
def isMeasured : Stmt PapiFn → Bool
  | .block _ rest => rest.headCall.any (·.entersFunc)
  | _ => false

/-- The nodes outside of GPU loops, each after those inside it, with whether they are measured. -/
def nodes : Stmt PapiFn → List (String × Bool × Bool)
  | .leaf _ => []
  | .scope _ body | .ifThen _ body => body.nodes
  | .producerConsumer name isProducer body => body.nodes ++ [(name, isProducer, body.isMeasured)]
  | .for_ _ _ _ _ api body => if api.isGpu then [] else body.nodes
  | .block a b | .fork a b | .ifThenElse _ a b => a.nodes ++ b.nodes

@[simp] theorem headCall_blockMake (a b : Stmt PapiFn) : (blockMake a b).headCall = a.headCall := by
  cases a <;> rfl

@[simp] theorem nodes_blockMake (a b : Stmt PapiFn) : (blockMake a b).nodes = a.nodes ++ b.nodes :=
  blockMake_invariant nodes (fun _ _ _ => List.append_assoc ..)
    (fun _ _ _ h => by rw [nodes, nodes, h]) a b

/-- Calls around a statement are no nodes. -/
theorem nodes_between (e e' : Expr PapiFn) (s : Stmt PapiFn) :
    (blockOf [evaluate e, s] (evaluate e')).nodes = s.nodes := by
  rw [blockOf_cons, blockOf_cons, blockOf_nil, nodes_blockMake, nodes_blockMake]
  exact List.append_nil _

theorem headCall_substitute (name newName : String) (s : Stmt PapiFn) :
    (s.substitute name newName).headCall = s.headCall := by
  induction s with
  | leaf l => exact Leaf.papiCall_substitute name newName l
  | block a b iha _ => exact iha
  | _ => rfl

theorem nodes_substitute (name newName : String) (s : Stmt PapiFn) :
    (s.substitute name newName).nodes = s.nodes := by
  induction s with
  | leaf l => rfl
  | scope h body ih =>
    rw [substitute, nodes, nodes]
    split
    · rfl
    · exact ih
  | producerConsumer n p body ih =>
    have hmeasured : (body.substitute name newName).isMeasured = body.isMeasured := by
      cases body with
      | block a b => exact congrArg (Option.any _) (headCall_substitute name newName b)
      | _ => rfl
    rw [substitute, nodes, nodes, ih, hmeasured]
  | for_ x min extent forType api body ih =>
    rw [substitute, nodes, nodes]
    split
    · rfl
    · split
      · rfl
      · exact ih
  | block a b iha ihb | fork a b iha ihb | ifThenElse c a b iha ihb =>
    rw [substitute, nodes, nodes, iha, ihb]
  | ifThen c t ih => exact ih

end Stmt

section Shown

variable (defs : List ProfilerDef) (loopDefs : List ProfilerLoop)

theorem headCall_bracketLaunch (forType : ForType) (api : DeviceAPI) {stmt : Stmt PapiFn}
    (h : stmt.headCall.any (·.entersFunc) = false) :
    (bracketLaunch forType api stmt).headCall.any (·.entersFunc) = false := by
  unfold bracketLaunch
  split
  · rw [Stmt.blockOf_cons, Stmt.headCall_blockMake]
    rfl
  · exact h

/-- A mutated statement does not begin with a measurement of a func, which would be that of the node
around it. -/
theorem headCall_mutate (s : Stmt Empty) (st : InjectPAPIProfiling) :
    (mutate defs loopDefs s st).1.headCall.any (·.entersFunc) = false := by
  induction s generalizing st with
  | leaf l =>
    rw [mutate, Stmt.headCall, Leaf.papiCall_lift]
    rfl
  | producerConsumer name isProducer body ih =>
    obtain ⟨idx, inner, _, hpaused⟩ :=
      visitProducerConsumer_shape defs name isProducer (mutate defs loopDefs body) st
    rw [mutate]
    generalize (visitProducerConsumer defs name isProducer (mutate defs loopDefs body) st).1 = out
      at hpaused
    cases hpaused with
    | plain => rfl
    | overhead idx =>
      rw [Stmt.blockOf_cons, Stmt.headCall_blockMake]
      rfl
  | for_ name min extent forType api body ih =>
    rw [mutate, visitFor_fst]
    apply headCall_bracketLaunch
    unfold bracketLoop
    dsimp only
    split
    · rw [Stmt.blockOf_cons, Stmt.headCall_blockMake]
      rfl
    · rfl
  | block a b iha ihb =>
    rw [mutate, Stmt.headCall_blockMake]
    exact iha st
  | _ => rfl

theorem nodes_bracketNode (profiled : Bool) (stmt : Stmt PapiFn) (st : InjectPAPIProfiling) :
    (bracketNode profiled stmt st).1.nodes = stmt.nodes := by
  unfold bracketNode
  split
  · exact Stmt.nodes_between _ _ stmt
  · rfl

theorem nodes_bracketBody (profiled : Bool) (name : String) (isProducer : Bool) (idx : Nat)
    (body : Stmt PapiFn) (st : InjectPAPIProfiling) :
    (bracketBody profiled name isProducer idx body st).1.nodes = body.nodes := by
  have h := bracketBody_measured profiled name isProducer idx body st
  generalize (bracketBody profiled name isProducer idx body st).1 = out at h
  cases h with
  | plain => rfl
  | overhead idx => exact Stmt.nodes_between _ _ body
  | func fid p => exact Stmt.nodes_between _ _ body

/-- The brackets around a body are there exactly if the node is profiled. -/
theorem headCall_bracketBody (profiled : Bool) (name : String) (isProducer : Bool) (idx : Nat)
    {body : Stmt PapiFn} (hbody : body.headCall.any (·.entersFunc) = false)
    (st : InjectPAPIProfiling) :
    (bracketBody profiled name isProducer idx body st).1.headCall.any (·.entersFunc) = profiled := by
  unfold bracketBody
  cases profiled with
  | false => exact hbody
  | true =>
    rw [if_pos rfl]
    split
    · rw [Stmt.blockOf_cons, Stmt.headCall_blockMake]
      rfl
    · rw [getFuncId_eq]
      dsimp only
      rw [Stmt.blockOf_cons, Stmt.headCall_blockMake, enterCurrentFunc, Stmt.headCall, Leaf.papiCall,
        decode_enterCurrentFunc]
      rfl

theorem nodes_visitForBody (forType : ForType) (api : DeviceAPI) (opBody : Stmt Empty)
    (mutateBody : Mutation) (st : InjectPAPIProfiling) (h : api.isGpu = false) :
    (visitForBody forType api opBody mutateBody st).1.nodes = (mutateBody st).1.nodes := by
  have hcount : ∀ r : Stmt PapiFn, (countBody forType api r).nodes = r.nodes := by
    intro r
    unfold countBody
    split
    · exact Stmt.nodes_between _ _ r
    · rfl
  cases api with
  | hexagon => exact (Stmt.nodes_substitute _ _ _).trans (hcount _)
  | none => exact hcount _
  | host => exact hcount _
  | _ => cases h

/-- The visits are the nodes of the instrumented statement, and those with a measurement are the
profiled ones. -/
theorem nodes_mutate (around : Option (String × Bool × Bool)) (s : Stmt Empty)
    (st : InjectPAPIProfiling) :
    (mutate defs loopDefs s st).1.nodes =
      (visits defs loopDefs around s st).map fun v => (v.name, v.isProducer, v.status.1) := by
  induction s generalizing around st with
  | leaf l => rfl
  | scope h body ih => exact ih around st
  | ifThen c t ih => exact ih around st
  | producerConsumer name isProducer body ih =>
    rw [mutate, visitProducerConsumer_eq, visitedBody_body, visits, List.map_append, ← ih]
    unfold finishNode
    dsimp only
    rw [nodes_bracketNode, Stmt.nodes, Stmt.nodes_blockMake, nodes_bracketBody]
    exact congrArg (fun measured => _ ++ [(name, isProducer, measured)])
      (headCall_bracketBody _ name isProducer _ (headCall_mutate defs loopDefs body _) _)
  | for_ name min extent forType api body ih =>
    have hbracket : ∀ r : Stmt PapiFn, ∀ st', (bracketLoop loopDefs name r st').1.nodes = r.nodes := by
      intro r st'
      unfold bracketLoop
      split
      · exact Stmt.nodes_between _ _ r
      · rfl
    have hlaunch : ∀ r : Stmt PapiFn, (bracketLaunch forType api r).nodes = r.nodes := by
      intro r
      unfold bracketLaunch
      split
      · rw [launch_eq]
        exact (Stmt.nodes_between _ _ _).trans (Stmt.nodes_between _ _ r)
      · rfl
    rw [mutate, visitFor_fst, hlaunch, hbracket, Stmt.nodes, visits]
    cases hgpu : api.isGpu with
    | true => rfl
    | false => exact (nodes_visitForBody forType api body _ st hgpu).trans (ih around st)
  | block a b iha ihb | fork a b iha ihb | ifThenElse c a b iha ihb =>
    rw [visits, List.map_append, ← iha, ← ihb]
    first
      | exact Stmt.nodes_blockMake _ _
      | rfl

/-- `show_threads_prod` or `show_threads_cons`. -/
def InjectPAPIProfiling.showThreads (st : InjectPAPIProfiling) (isProducer : Bool) :
    Std.TreeMap Nat Bool :=
  if isProducer then st.showThreadsProd else st.showThreadsCons

/-- A visit enters its status in the table of its kind. -/
def Visit.enterThreads (kind : Bool) (table : Std.TreeMap Nat Bool) (v : Visit) :
    Std.TreeMap Nat Bool :=
  if v.isProducer = kind then table.insert v.id v.status.2 else table

theorem beforeBody_showThreads (name : String) (isProducer : Bool) (st : InjectPAPIProfiling)
    (kind : Bool) : (beforeBody defs name isProducer st).showThreads kind = st.showThreads kind := by
  obtain ⟨_, _, hcount⟩ := countChild_eq st
  unfold beforeBody
  rw [getFuncId_eq, hcount]
  split <;> rfl

/-- The tables of shown threads are written by one visit after the other. -/
theorem showThreads_mutate (kind : Bool) (around : Option (String × Bool × Bool)) (s : Stmt Empty)
    (st : InjectPAPIProfiling) :
    (mutate defs loopDefs s st).2.showThreads kind =
      (visits defs loopDefs around s st).foldl (Visit.enterThreads kind) (st.showThreads kind) := by
  induction s generalizing around st with
  | leaf l => rfl
  | scope h body ih => exact ih around st
  | ifThen c t ih => exact ih around st
  | producerConsumer name isProducer body ih =>
    obtain ⟨_, hst⟩ := visitProducerConsumer_state defs name isProducer (mutate defs loopDefs body) st
    rw [visits, List.foldl_append, ← beforeBody_showThreads defs name isProducer st kind, ← ih, mutate,
      hst]
    unfold setShowThreads InjectPAPIProfiling.showThreads
    cases isProducer <;> cases kind <;> rfl
  | for_ name min extent forType api body ih =>
    obtain ⟨_, _, hst⟩ := visitFor_state loopDefs name min extent forType api body
      (mutate defs loopDefs body) st
    rw [mutate, hst, visits]
    cases api.isGpu with
    | true => rfl
    | false => exact ih around st
  | block a b iha ihb | fork a b iha ihb | ifThenElse c a b iha ihb =>
    rw [visits, List.foldl_append, ← iha, ← ihb]
    rfl

end Shown

end ProfHalide
