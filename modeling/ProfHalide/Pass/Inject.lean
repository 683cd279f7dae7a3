import ProfHalide.Papi
import Std.Data.TreeMap
import Mathlib.Logic.Function.Basic

/-!
# The injection pass

`InjectPAPIProfiling`, the mutator that brackets produce and consume nodes and loops with calls into
the profiler, and `inject_papi_profiling`, which adds the prologue that starts the pipeline. The
registrations `papi_profiler_defs` and `papi_profiler_loops`, global vectors of the source, are
arguments here.

The memory accounting fields of the mutator are left out: nothing reads them.
-/

namespace ProfHalide

/-! ### Registrations -/

def PROFILE_PRODUCTION : BitVec 32 := 1
def PROFILE_CONSUMPTION : BitVec 32 := 2
def PROFILE_SHOW_THREADS : BitVec 32 := 4

/-- An entry of `papi_profiler_defs`; an empty `parent` matches every parent. -/
structure ProfilerDef where
  name : String
  level : BitVec 32
  enable : Bool
  parent : String
  deriving DecidableEq, Repr

/-- An entry of `papi_profiler_loops`. -/
structure ProfilerLoop where
  func : String
  var : String
  showThreads : Bool
  deriving DecidableEq, Repr

/-- `Function::profile_in`, and `Function::profile` for an empty parent. -/
def profileIn (parent name : String) (level : BitVec 32) (showThreads enable : Bool) : ProfilerDef :=
  { name, level := if showThreads then level ||| PROFILE_SHOW_THREADS else level, enable, parent }

def profile (name : String) (level : BitVec 32) (showThreads enable : Bool) : ProfilerDef :=
  profileIn "" name level showThreads enable

def ProfilerDef.matches (d : ProfilerDef) (name : String) (isProducer : Bool) (parentName : String) :
    Bool :=
  let levelCond := (d.level &&& PROFILE_PRODUCTION != 0 && isProducer) ||
    (d.level &&& PROFILE_CONSUMPTION != 0 && !isProducer)
  let parentCond := d.parent == "" || d.parent == parentName
  d.name == name && levelCond && parentCond

def ProfilerDef.showThreads (d : ProfilerDef) : Bool := d.level &&& PROFILE_SHOW_THREADS != 0

def startsWith (s start : String) : Bool := start.toList.isPrefixOf s.toList

def endsWith (s suffix : String) : Bool := suffix.toList.isSuffixOf s.toList

def ProfilerLoop.matches (l : ProfilerLoop) (name : String) : Bool :=
  startsWith name (l.func ++ ".") && endsWith name ("." ++ l.var)

/-! ### The mutator's state -/

structure InjectPAPIProfiling where
  /-- Func name to index in the buffers. -/
  indices : Std.TreeMap String Nat
  /-- Loop name to index in the buffers. -/
  loops : Std.TreeMap String Nat
  showThreadsProd : Std.TreeMap Nat Bool
  showThreadsCons : Std.TreeMap Nat Bool
  showThreadsLoop : Std.TreeMap Nat Bool
  /-- The produce nodes around the current one, innermost first, then the sentinel 0. -/
  stack : List Nat
  /-- Whether each of them is profiled and shows threads, innermost first. -/
  profileStack : List (Bool × Bool)
  /-- `func_childrens`: a missing key reads as 0. -/
  funcChildrens : Nat → Nat
  /-- `back()` was called on an empty vector, which reads outside it. -/
  emptyBack : Bool

namespace InjectPAPIProfiling

def init : InjectPAPIProfiling where
  indices := Std.TreeMap.empty.insert "overhead" 0
  loops := Std.TreeMap.empty
  showThreadsProd := Std.TreeMap.empty
  showThreadsCons := Std.TreeMap.empty
  showThreadsLoop := Std.TreeMap.empty
  stack := [0]
  profileStack := []
  funcChildrens := fun _ => 0
  emptyBack := false

/-- `f.0` becomes `f`. -/
def normalizeName (name : String) : String := String.ofList (name.toList.takeWhile (· ≠ '.'))

def getFuncId (st : InjectPAPIProfiling) (name : String) : Nat × InjectPAPIProfiling :=
  let normName := normalizeName name
  match st.indices[normName]? with
  | some idx => (idx, st)
  | none =>
      let idx := st.indices.size
      (idx, { st with indices := st.indices.insert normName idx })

/-- `stack.back()`. -/
def stackBack (st : InjectPAPIProfiling) : Nat × InjectPAPIProfiling :=
  match st.stack with
  | top :: _ => (top, st)
  | [] => (0, { st with emptyBack := true })

/-- `profile_stack.back()`; a read outside the vector counts as not profiled. -/
def profileStackBack (st : InjectPAPIProfiling) : (Bool × Bool) × InjectPAPIProfiling :=
  match st.profileStack with
  | top :: _ => (top, st)
  | [] => ((false, false), { st with emptyBack := true })

/-- The name of the innermost enclosing produce node, found by its index. -/
def parentName (st : InjectPAPIProfiling) : String :=
  let parent := if st.stack.length > 1 then st.stackBack.1 else 0
  st.indices.toList.foldl (fun found func => if func.2 = parent then func.1 else found) ""

/-- `if(stack.size() > 1) func_childrens[stack.back()]++`. -/
def countChild (st : InjectPAPIProfiling) : InjectPAPIProfiling :=
  if st.stack.length > 1 then
    let (top, st) := st.stackBack
    { st with funcChildrens := Function.update st.funcChildrens top (st.funcChildrens top + 1) }
  else st

def pushProducer (st : InjectPAPIProfiling) (idx : Nat) (status : Bool × Bool) :
    InjectPAPIProfiling :=
  { st with
    funcChildrens := Function.update st.funcChildrens idx 0
    profileStack := status :: st.profileStack
    stack := idx :: st.stack }

def popProducer (st : InjectPAPIProfiling) : InjectPAPIProfiling :=
  { st with stack := st.stack.tail, profileStack := st.profileStack.tail }

/-- The status a node without a matching registration takes from the produce node around it. -/
def inherit (st : InjectPAPIProfiling) (it : Option ProfilerDef) (status : Bool × Bool) :
    (Bool × Bool) × InjectPAPIProfiling :=
  if !status.1 && it.isNone then
    let (top, st) := st.profileStackBack
    (if top.1 then (true, top.2) else status, st)
  else (status, st)

def setShowThreads (st : InjectPAPIProfiling) (fid : Nat) (isProducer showThreads : Bool) :
    InjectPAPIProfiling :=
  if isProducer then { st with showThreadsProd := st.showThreadsProd.insert fid showThreads }
  else { st with showThreadsCons := st.showThreadsCons.insert fid showThreads }

end InjectPAPIProfiling

open InjectPAPIProfiling

/-- A visitor takes the state and returns the rewritten statement with the next state. -/
abbrev Mutation := InjectPAPIProfiling → Stmt PapiFn × InjectPAPIProfiling

/-! ### The injected calls -/

def profilerState : Expr PapiFn := .variable "profiler_state"
def profilerToken : Expr PapiFn := .variable "profiler_token"

def makeBool (b : Bool) : Expr PapiFn := .intImm (if b then 1 else 0)

def setCurrentFunc (idx : Nat) : Stmt PapiFn :=
  .evaluate (.call .setCurrentFunc [profilerState, profilerToken, .intImm idx])

def enterCurrentFunc (fid : Nat) (isProducer : Bool) : Stmt PapiFn :=
  .evaluate (.call .enterCurrentFunc [profilerState, profilerToken, .intImm fid, makeBool isProducer])

def leaveCurrentFunc (fid : Nat) (isProducer : Bool) : Stmt PapiFn :=
  .evaluate (.call .leaveCurrentFunc [profilerState, profilerToken, .intImm fid, makeBool isProducer])

def enterOverheadRegion (idx : Nat) : Stmt PapiFn :=
  .evaluate (.call .enterOverheadRegion [profilerState, profilerToken, .intImm idx])

def leaveOverheadRegion (idx : Nat) : Stmt PapiFn :=
  .evaluate (.call .leaveOverheadRegion [profilerState, profilerToken, .intImm idx])

def enterLoop (id : Nat) : Stmt PapiFn :=
  .evaluate (.call .enterLoop [profilerState, profilerToken, .intImm id])

def leaveLoop (id : Nat) : Stmt PapiFn :=
  .evaluate (.call .leaveLoop [profilerState, profilerToken, .intImm id])

def incrActiveThreads : Stmt PapiFn := .evaluate (.call .incrActiveThreads [profilerState])
def decrActiveThreads : Stmt PapiFn := .evaluate (.call .decrActiveThreads [profilerState])
def enterParallelRegion : Stmt PapiFn := .evaluate (.call .enterParallelRegion [profilerState])
def leaveParallelRegion : Stmt PapiFn := .evaluate (.call .leaveParallelRegion [profilerState])

/-! ### The visitors -/

/-- The brackets around the body of a profiled node: the overhead region of a producer that has
produce or consume nodes below it, else the func at its level. -/
def bracketBody (profiled : Bool) (name : String) (isProducer : Bool) (idx : Nat)
    (body : Stmt PapiFn) : Mutation := fun st =>
  if profiled then
    if isProducer && st.funcChildrens idx > 0 then
      (.blockOf [enterOverheadRegion idx, body] (leaveOverheadRegion idx), st)
    else
      let (fid, st) := st.getFuncId name
      (.blockOf [enterCurrentFunc fid isProducer, body] (leaveCurrentFunc fid isProducer), st)
  else (body, st)

/-- The body of a node, and the index that becomes the current func: a producer's own, or for a
consumer that of the produce node around it. -/
def visitNodeBody (name : String) (isProducer : Bool) (status : Bool × Bool) (mutateBody : Mutation)
    (st : InjectPAPIProfiling) : Nat × Stmt PapiFn × InjectPAPIProfiling :=
  if isProducer then
    let (idx, st) := st.getFuncId name
    let (body, st) := mutateBody (st.pushProducer idx status)
    (idx, body, st.popProducer)
  else
    let (body, st) := mutateBody st
    let (idx, st) := st.stackBack
    (idx, body, st)

/-- The brackets around a profiled node that lies inside a produce node: the overhead of that node is
not measured meanwhile. -/
def bracketNode (profiled : Bool) (stmt : Stmt PapiFn) : Mutation := fun st =>
  if profiled && !st.profileStack.isEmpty then
    let (parent, st) := st.stackBack
    (.blockOf [leaveOverheadRegion parent, stmt] (enterOverheadRegion parent), st)
  else (stmt, st)

/-- What is left of the visit once the body is mutated. -/
def finishNode (it : Option ProfilerDef) (status : Bool × Bool) (name : String) (isProducer : Bool)
    (idx : Nat) (body : Stmt PapiFn) : Mutation := fun st =>
  let (status, st) := st.inherit it status
  let (body, st) := bracketBody status.1 name isProducer idx body st
  let stmt := .producerConsumer name isProducer (.blockMake (setCurrentFunc idx) body)
  let (stmt, st) := bracketNode status.1 stmt st
  let (fid, st) := st.getFuncId name
  (stmt, st.setShowThreads fid isProducer status.2)

/-- `visit(const ProducerConsumer *)`. -/
def visitProducerConsumer (defs : List ProfilerDef) (name : String) (isProducer : Bool)
    (mutateBody : Mutation) : Mutation := fun st =>
  let it := defs.find? fun d => d.matches name isProducer st.parentName
  let mustProfile := it.any (·.enable)
  let mustShowThreads := mustProfile && it.any (·.showThreads)
  let status := (mustProfile, mustShowThreads)
  let (idx, body, st) := visitNodeBody name isProducer status mutateBody st.countChild
  finishNode it status name isProducer idx body st

/-- Whether `visit(const For *)` counts threads around and inside the loop. -/
def updateActiveThreads (forType : ForType) (api : DeviceAPI) : Bool :=
  api == .hexagon || forType.isParallel

/-- The body between its increment and decrement. The source adds the two before it mutates the
body; the mutator passes them through unchanged. -/
def countBody (forType : ForType) (api : DeviceAPI) (body : Stmt PapiFn) : Stmt PapiFn :=
  if updateActiveThreads forType api then .blockOf [incrActiveThreads, body] decrActiveThreads
  else body

/-- The new body of a loop. The body of a loop on another device than the host or Hexagon is not
entered, since the token lives in global memory. -/
def visitForBody (forType : ForType) (api : DeviceAPI) (opBody : Stmt Empty) (mutateBody : Mutation) :
    Mutation := fun st =>
  match api with
  | .hexagon =>
      let (body, st) := mutateBody st
      -- The state pointer is fetched inside the kernel: the device has a state of its own.
      let body := (countBody forType api body).substitute "profiler_state" "hvx_profiler_state"
      (.letStmt "hvx_profiler_state" (.call .getState []) body, st)
  | .none | .host =>
      let (body, st) := mutateBody st
      (countBody forType api body, st)
  | _ => (opBody.lift, st)

/-- The markers around a registered loop. -/
def bracketLoop (loopDefs : List ProfilerLoop) (name : String) (stmt : Stmt PapiFn) : Mutation :=
  fun st =>
  match loopDefs.find? fun l => l.matches name with
  | some it =>
      let loopId := st.loops.size
      (.blockOf [enterLoop loopId, stmt] (leaveLoop loopId),
        { st with
          loops := st.loops.insert name loopId
          showThreadsLoop := st.showThreadsLoop.insert loopId it.showThreads })
  | none => (stmt, st)

/-- The launching thread is not counted while the loop runs. -/
def bracketLaunch (forType : ForType) (api : DeviceAPI) (stmt : Stmt PapiFn) : Stmt PapiFn :=
  if updateActiveThreads forType api then
    .blockOf [decrActiveThreads, enterParallelRegion, stmt, leaveParallelRegion] incrActiveThreads
  else stmt

/-- `visit(const For *)`. -/
def visitFor (loopDefs : List ProfilerLoop) (name : String) (min extent : Expr Empty)
    (forType : ForType) (api : DeviceAPI) (opBody : Stmt Empty) (mutateBody : Mutation) :
    Mutation := fun st =>
  let (body, st) := visitForBody forType api opBody mutateBody st
  let stmt := .for_ name (min.mapCall Empty.elim) (extent.mapCall Empty.elim) forType api body
  let (stmt, st) := bracketLoop loopDefs name stmt st
  (bracketLaunch forType api stmt, st)

/-- `IRMutator::mutate` with the two visitors above: every other node is rebuilt from its children,
mutated once each, in order. -/
def mutate (defs : List ProfilerDef) (loopDefs : List ProfilerLoop) : Stmt Empty → Mutation
  | .leaf l => fun st => (.leaf (l.mapCall Empty.elim), st)
  | .scope h body => fun st =>
      let (body, st) := mutate defs loopDefs body st
      (.scope (h.mapCall Empty.elim) body, st)
  | .producerConsumer name isProducer body =>
      visitProducerConsumer defs name isProducer (mutate defs loopDefs body)
  | .for_ name min extent forType api body =>
      visitFor loopDefs name min extent forType api body (mutate defs loopDefs body)
  | .block a b => fun st =>
      let (a, st) := mutate defs loopDefs a st
      let (b, st) := mutate defs loopDefs b st
      (.blockMake a b, st)
  | .fork a b => fun st =>
      let (a, st) := mutate defs loopDefs a st
      let (b, st) := mutate defs loopDefs b st
      (.fork a b, st)
  | .ifThen c t => fun st =>
      let (t, st) := mutate defs loopDefs t st
      (.ifThen (c.mapCall Empty.elim) t, st)
  | .ifThenElse c t e => fun st =>
      let (t, st) := mutate defs loopDefs t st
      let (e, st) := mutate defs loopDefs e st
      (.ifThenElse (c.mapCall Empty.elim) t e, st)

/-! ### The prologue -/

/-- One store into a table, in front of what is there already. -/
def tableStore (table : String) (s : Stmt PapiFn) (index : Nat) (value : Expr PapiFn) : Stmt PapiFn :=
  .blockMake (.leaf (.store table value (.intImm index) (makeBool true))) s

def tableAllocate (table : String) (size : Nat) (s : Stmt PapiFn) : Stmt PapiFn :=
  .scope (.allocate table [.intImm size] (makeBool true)) s

/-- `inject_papi_profiling`. -/
def injectPapiProfiling (defs : List ProfilerDef) (loopDefs : List ProfilerLoop) (s : Stmt Empty)
    (pipelineName : String) : Stmt PapiFn :=
  let (s, profiling) := mutate defs loopDefs s init
  let numFuncs := profiling.indices.size
  let numLoops := profiling.loops.size
  let startProfiler : Expr PapiFn := .call .pipelineStart
    [.stringImm pipelineName, .intImm numFuncs, .intImm numLoops,
      .variable "profiling_func_names", .variable "profiling_loop_names",
      .variable "profiling_func_threads_prod", .variable "profiling_func_threads_cons",
      .variable "profiling_loop_threads"]
  let getState : Expr PapiFn := .call .getState []
  let getPipelineState : Expr PapiFn := .call .getPipelineState [.stringImm pipelineName]
  let stopProfiler : Expr PapiFn :=
    .call .registerDestructor [.stringImm "halide_papi_pipeline_end", getState]
  let s := .blockOf [incrActiveThreads, s] decrActiveThreads
  let s := .letStmt "profiler_pipeline_state" getPipelineState s
  let s := .letStmt "profiler_state" getState s
  -- If there was a problem starting the profiler, the token is the negative error code.
  let s := .blockMake (.leaf (.assertStmt (.op ">=" [profilerToken, .intImm 0]) profilerToken)) s
  let s := .letStmt "profiler_token" startProfiler s
  let s := profiling.indices.toList.foldl
    (fun s p => tableStore "profiling_func_names" s p.2 (.stringImm p.1)) s
  let s := profiling.loops.toList.foldl
    (fun s p => tableStore "profiling_loop_names" s p.2 (.stringImm p.1)) s
  let s := profiling.showThreadsProd.toList.foldl
    (fun s p => tableStore "profiling_func_threads_prod" s p.1 (makeBool p.2)) s
  let s := profiling.showThreadsCons.toList.foldl
    (fun s p => tableStore "profiling_func_threads_cons" s p.1 (makeBool p.2)) s
  let s := profiling.showThreadsLoop.toList.foldl
    (fun s p => tableStore "profiling_loop_threads" s p.1 (makeBool p.2)) s
  let s := .blockMake s (.leaf (.free "profiling_func_threads_prod"))
  let s := .blockMake s (.leaf (.free "profiling_func_threads_cons"))
  let s := .blockMake s (.leaf (.free "profiling_loop_threads"))
  let s := .blockMake s (.leaf (.free "profiling_func_names"))
  let s := .blockMake s (.leaf (.free "profiling_loop_names"))
  let s := tableAllocate "profiling_func_names" numFuncs s
  let s := tableAllocate "profiling_loop_names" numLoops s
  let s := tableAllocate "profiling_func_threads_prod" numFuncs s
  let s := tableAllocate "profiling_func_threads_cons" numFuncs s
  let s := tableAllocate "profiling_loop_threads" numLoops s
  .blockMake (.evaluate stopProfiler) s

end ProfHalide
