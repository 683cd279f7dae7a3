import Mathlib.Data.List.Basic

/-!
# The statements the pass rewrites

Halide's statement language as the profiling pass sees it after loop partitioning and before code
generation. `κ` is the set of runtime functions a program may call by name: `Empty` for a program no
profiling pass has touched, `PapiFn` for an instrumented one, so a source statement cannot contain a
call into the profiler.

Nodes that the pass treats alike share a constructor: `Leaf` collects the statements without a child
statement, `Scope` the heads of those with exactly one.
-/

namespace ProfHalide

/-- How the iterations of a loop are carried out. -/
inductive ForType where
  | serial | parallel | vectorized | unrolled | externFor | gpuBlock | gpuThread | gpuLane
  deriving DecidableEq, Repr

/-- The device a loop runs on. -/
inductive DeviceAPI where
  | none | host | defaultGPU | cuda | openCL | glsl | openGLCompute | metal | hexagon | hexagonDma
  | d3d12Compute
  deriving DecidableEq, Repr

inductive Expr (κ : Type) where
  | intImm (value : Int)
  | stringImm (value : String)
  | variable (name : String)
  | letIn (name : String) (value body : Expr κ)
  | op (name : String) (args : List (Expr κ))
  | call (fn : κ) (args : List (Expr κ))
  deriving Repr

/-- The statements without a child statement. -/
inductive Leaf (κ : Type) where
  | assertStmt (condition message : Expr κ)
  | store (name : String) (value index predicate : Expr κ)
  | provide (name : String) (values args : List (Expr κ))
  | free (name : String)
  | evaluate (value : Expr κ)
  deriving Repr

/-- The heads of the statements with exactly one child statement. -/
inductive Scope (κ : Type) where
  | letStmt (name : String) (value : Expr κ)
  | allocate (name : String) (extents : List (Expr κ)) (condition : Expr κ)
  | realize (name : String) (bounds : List (Expr κ)) (condition : Expr κ)
  | prefetch (name : String) (bounds : List (Expr κ)) (condition : Expr κ)
  | acquire (semaphore count : Expr κ)
  | atomic (producerName mutexName : String)
  deriving Repr

inductive Stmt (κ : Type) where
  | leaf (l : Leaf κ)
  | scope (h : Scope κ) (body : Stmt κ)
  | producerConsumer (name : String) (isProducer : Bool) (body : Stmt κ)
  | for_ (name : String) (min extent : Expr κ) (forType : ForType) (deviceApi : DeviceAPI)
      (body : Stmt κ)
  | block (first rest : Stmt κ)
  | fork (first rest : Stmt κ)
  | ifThen (condition : Expr κ) (thenCase : Stmt κ)
  | ifThenElse (condition : Expr κ) (thenCase elseCase : Stmt κ)
  deriving Repr

/-- `For::is_parallel`: the parallel loop kind and the GPU loop kinds. -/
def ForType.isParallel : ForType → Bool
  | .parallel | .gpuBlock | .gpuThread | .gpuLane => true
  | .serial | .vectorized | .unrolled | .externFor => false

/-- The devices whose loop bodies the pass leaves alone: all but the host and Hexagon. -/
def DeviceAPI.isGpu : DeviceAPI → Bool
  | .none | .host | .hexagon => false
  | .defaultGPU | .cuda | .openCL | .glsl | .openGLCompute | .metal | .hexagonDma | .d3d12Compute =>
      true

namespace Stmt

variable {κ : Type}

abbrev evaluate (e : Expr κ) : Stmt κ := .leaf (.evaluate e)

abbrev letStmt (name : String) (value : Expr κ) (body : Stmt κ) : Stmt κ :=
  .scope (.letStmt name value) body

/-- `Block::make(first, rest)`: a block in first position is opened, so that blocks always nest to
the right. -/
def blockMake : Stmt κ → Stmt κ → Stmt κ
  | .block first rest, last => .block first (blockMake rest last)
  | first, last => .block first last

/-- `Block::make(stmts)` for a non-empty vector, given by its last element. -/
def blockOf (stmts : List (Stmt κ)) (last : Stmt κ) : Stmt κ := stmts.foldr blockMake last

@[simp] theorem blockOf_nil (last : Stmt κ) : blockOf [] last = last := rfl

@[simp] theorem blockOf_cons (s : Stmt κ) (stmts : List (Stmt κ)) (last : Stmt κ) :
    blockOf (s :: stmts) last = blockMake s (blockOf stmts last) := rfl

theorem blockMake_assoc (a b c : Stmt κ) :
    blockMake (blockMake a b) c = blockMake a (blockMake b c) := by
  induction a with
  | block first rest _ ih => simp only [blockMake, ih]
  | _ => simp only [blockMake]

/-- A property that does not see how blocks are grouped can read `blockMake` as `block`. -/
theorem blockMake_invariant {α : Type*} (f : Stmt κ → α)
    (hassoc : ∀ a b c, f (.block (.block a b) c) = f (.block a (.block b c)))
    (hcongr : ∀ a b b', f b = f b' → f (.block a b) = f (.block a b')) (a b : Stmt κ) :
    f (blockMake a b) = f (.block a b) := by
  induction a with
  | block first rest _ ih =>
    rw [blockMake, hassoc]
    exact hcongr first _ _ ih
  | _ => rfl

end Stmt

/-! ### Renaming a variable

`substitute(name, Variable::make(name'))`: every free occurrence of the variable is renamed, and a
binding of the same name stops the renaming. -/

mutual

def Expr.substitute {κ : Type} (name newName : String) : Expr κ → Expr κ
  | .intImm value => .intImm value
  | .stringImm value => .stringImm value
  | .variable x => if x = name then .variable newName else .variable x
  | .letIn x value body =>
      .letIn x (value.substitute name newName)
        (if x = name then body else body.substitute name newName)
  | .op o args => .op o (Expr.substituteAll name newName args)
  | .call fn args => .call fn (Expr.substituteAll name newName args)

def Expr.substituteAll {κ : Type} (name newName : String) : List (Expr κ) → List (Expr κ)
  | [] => []
  | e :: es => e.substitute name newName :: Expr.substituteAll name newName es

end

def Leaf.substitute {κ : Type} (name newName : String) : Leaf κ → Leaf κ
  | .assertStmt c m => .assertStmt (c.substitute name newName) (m.substitute name newName)
  | .store b v i p =>
      .store b (v.substitute name newName) (i.substitute name newName) (p.substitute name newName)
  | .provide b vs args =>
      .provide b (Expr.substituteAll name newName vs) (Expr.substituteAll name newName args)
  | .free b => .free b
  | .evaluate e => .evaluate (e.substitute name newName)

def Scope.substitute {κ : Type} (name newName : String) : Scope κ → Scope κ
  | .letStmt x v => .letStmt x (v.substitute name newName)
  | .allocate b es c => .allocate b (Expr.substituteAll name newName es) (c.substitute name newName)
  | .realize b es c => .realize b (Expr.substituteAll name newName es) (c.substitute name newName)
  | .prefetch b es c => .prefetch b (Expr.substituteAll name newName es) (c.substitute name newName)
  | .acquire s c => .acquire (s.substitute name newName) (c.substitute name newName)
  | .atomic p m => .atomic p m

/-- Whether the statement under the head is out of the renamed variable's scope. -/
def Scope.binds {κ : Type} (name : String) : Scope κ → Bool
  | .letStmt x _ => x = name
  | _ => false

def Stmt.substitute {κ : Type} (name newName : String) : Stmt κ → Stmt κ
  | .leaf l => .leaf (l.substitute name newName)
  | .scope h body =>
      .scope (h.substitute name newName)
        (if h.binds name then body else body.substitute name newName)
  | .producerConsumer n p body => .producerConsumer n p (body.substitute name newName)
  | .for_ x min extent forType api body =>
      .for_ x (min.substitute name newName) (extent.substitute name newName) forType api
        (if x = name then body else body.substitute name newName)
  | .block a b => .block (a.substitute name newName) (b.substitute name newName)
  | .fork a b => .fork (a.substitute name newName) (b.substitute name newName)
  | .ifThen c t => .ifThen (c.substitute name newName) (t.substitute name newName)
  | .ifThenElse c t e =>
      .ifThenElse (c.substitute name newName) (t.substitute name newName) (e.substitute name newName)

/-! ### Reading a program as one that may call more functions -/

mutual

def Expr.mapCall {κ κ' : Type} (f : κ → κ') : Expr κ → Expr κ'
  | .intImm value => .intImm value
  | .stringImm value => .stringImm value
  | .variable x => .variable x
  | .letIn x value body => .letIn x (value.mapCall f) (body.mapCall f)
  | .op o args => .op o (Expr.mapCallAll f args)
  | .call fn args => .call (f fn) (Expr.mapCallAll f args)

def Expr.mapCallAll {κ κ' : Type} (f : κ → κ') : List (Expr κ) → List (Expr κ')
  | [] => []
  | e :: es => e.mapCall f :: Expr.mapCallAll f es

end

def Leaf.mapCall {κ κ' : Type} (f : κ → κ') : Leaf κ → Leaf κ'
  | .assertStmt c m => .assertStmt (c.mapCall f) (m.mapCall f)
  | .store b v i p => .store b (v.mapCall f) (i.mapCall f) (p.mapCall f)
  | .provide b vs args => .provide b (Expr.mapCallAll f vs) (Expr.mapCallAll f args)
  | .free b => .free b
  | .evaluate e => .evaluate (e.mapCall f)

def Scope.mapCall {κ κ' : Type} (f : κ → κ') : Scope κ → Scope κ'
  | .letStmt x v => .letStmt x (v.mapCall f)
  | .allocate b es c => .allocate b (Expr.mapCallAll f es) (c.mapCall f)
  | .realize b es c => .realize b (Expr.mapCallAll f es) (c.mapCall f)
  | .prefetch b es c => .prefetch b (Expr.mapCallAll f es) (c.mapCall f)
  | .acquire s c => .acquire (s.mapCall f) (c.mapCall f)
  | .atomic p m => .atomic p m

def Stmt.mapCall {κ κ' : Type} (f : κ → κ') : Stmt κ → Stmt κ'
  | .leaf l => .leaf (l.mapCall f)
  | .scope h body => .scope (h.mapCall f) (body.mapCall f)
  | .producerConsumer n p body => .producerConsumer n p (body.mapCall f)
  | .for_ x min extent forType api body =>
      .for_ x (min.mapCall f) (extent.mapCall f) forType api (body.mapCall f)
  | .block a b => .block (a.mapCall f) (b.mapCall f)
  | .fork a b => .fork (a.mapCall f) (b.mapCall f)
  | .ifThen c t => .ifThen (c.mapCall f) (t.mapCall f)
  | .ifThenElse c t e => .ifThenElse (c.mapCall f) (t.mapCall f) (e.mapCall f)

/-- A source statement, read as a statement of the instrumented language. -/
abbrev Stmt.lift {κ : Type} (s : Stmt Empty) : Stmt κ := s.mapCall Empty.elim

/-! ### The names a program uses

Variables, bindings and buffers; the name of a produce or consume node is not a variable. -/

mutual

def Expr.names {κ : Type} : Expr κ → List String
  | .intImm _ | .stringImm _ => []
  | .variable x => [x]
  | .letIn x value body => x :: (value.names ++ body.names)
  | .op _ args | .call _ args => Expr.namesAll args

def Expr.namesAll {κ : Type} : List (Expr κ) → List String
  | [] => []
  | e :: es => e.names ++ Expr.namesAll es

end

def Leaf.names {κ : Type} : Leaf κ → List String
  | .assertStmt c m => c.names ++ m.names
  | .store b v i p => b :: (v.names ++ i.names ++ p.names)
  | .provide b vs args => b :: (Expr.namesAll vs ++ Expr.namesAll args)
  | .free b => [b]
  | .evaluate e => e.names

def Scope.names {κ : Type} : Scope κ → List String
  | .letStmt x v => x :: v.names
  | .allocate b es c | .realize b es c | .prefetch b es c => b :: (Expr.namesAll es ++ c.names)
  | .acquire s c => s.names ++ c.names
  | .atomic p m => [p, m]

def Stmt.names {κ : Type} : Stmt κ → List String
  | .leaf l => l.names
  | .scope h body => h.names ++ body.names
  | .producerConsumer _ _ body => body.names
  | .for_ x min extent _ _ body => x :: (min.names ++ extent.names ++ body.names)
  | .block a b | .fork a b => a.names ++ b.names
  | .ifThen c t => c.names ++ t.names
  | .ifThenElse c t e => c.names ++ t.names ++ e.names

/-! ### Renaming and reading commute with building -/

section Substitute

variable {κ : Type} {name newName : String}

mutual

theorem Expr.substitute_of_not_mem : ∀ e : Expr κ, name ∉ e.names → e.substitute name newName = e
  | .intImm _, _ => rfl
  | .stringImm _, _ => rfl
  | .variable x, h => by
      have hne : x ≠ name := fun hx => h (by simp [Expr.names, hx])
      rw [Expr.substitute, if_neg hne]
  | .letIn x value body, h => by
      simp only [Expr.names, List.mem_cons, List.mem_append, not_or] at h
      rw [Expr.substitute, if_neg (Ne.symm h.1), Expr.substitute_of_not_mem value h.2.1,
        Expr.substitute_of_not_mem body h.2.2]
  | .op o args, h => by
      rw [Expr.substitute, Expr.substituteAll_of_not_mem args h]
  | .call fn args, h => by
      rw [Expr.substitute, Expr.substituteAll_of_not_mem args h]

theorem Expr.substituteAll_of_not_mem : ∀ es : List (Expr κ), name ∉ Expr.namesAll es →
    Expr.substituteAll name newName es = es
  | [], _ => rfl
  | e :: es, h => by
      simp only [Expr.namesAll, List.mem_append, not_or] at h
      rw [Expr.substituteAll, Expr.substitute_of_not_mem e h.1,
        Expr.substituteAll_of_not_mem es h.2]

end

theorem Leaf.substitute_of_not_mem (l : Leaf κ) (h : name ∉ l.names) :
    l.substitute name newName = l := by
  cases l <;>
    simp_all [Leaf.substitute, Leaf.names, Expr.substitute_of_not_mem, Expr.substituteAll_of_not_mem]

theorem Scope.substitute_of_not_mem (s : Scope κ) (h : name ∉ s.names) :
    s.substitute name newName = s := by
  cases s <;>
    simp_all [Scope.substitute, Scope.names, Expr.substitute_of_not_mem,
      Expr.substituteAll_of_not_mem]

/-- A variable that does not occur is renamed nowhere. -/
theorem Stmt.substitute_of_not_mem (s : Stmt κ) (h : name ∉ s.names) :
    s.substitute name newName = s := by
  induction s <;>
    simp_all [Stmt.substitute, Stmt.names, Leaf.substitute_of_not_mem, Scope.substitute_of_not_mem,
      Expr.substitute_of_not_mem]

mutual

theorem Expr.substitute_idem (hne : newName ≠ name) : ∀ e : Expr κ,
    (e.substitute name newName).substitute name newName = e.substitute name newName
  | .intImm _ => rfl
  | .stringImm _ => rfl
  | .variable x => by
      by_cases hx : x = name
      · simp [Expr.substitute, hx, hne]
      · simp [Expr.substitute, hx]
  | .letIn x value body => by
      simp only [Expr.substitute, Expr.substitute_idem hne value]
      split
      · rfl
      · rw [Expr.substitute_idem hne body]
  | .op o args => by
      rw [Expr.substitute, Expr.substitute, Expr.substituteAll_idem hne args]
  | .call fn args => by
      rw [Expr.substitute, Expr.substitute, Expr.substituteAll_idem hne args]

theorem Expr.substituteAll_idem (hne : newName ≠ name) : ∀ es : List (Expr κ),
    Expr.substituteAll name newName (Expr.substituteAll name newName es) =
      Expr.substituteAll name newName es
  | [] => rfl
  | e :: es => by
      rw [Expr.substituteAll, Expr.substituteAll, Expr.substitute_idem hne e,
        Expr.substituteAll_idem hne es]

end

theorem Leaf.substitute_idem (hne : newName ≠ name) (l : Leaf κ) :
    (l.substitute name newName).substitute name newName = l.substitute name newName := by
  cases l <;>
    simp [Leaf.substitute, Expr.substitute_idem hne, Expr.substituteAll_idem hne]

theorem Scope.substitute_idem (hne : newName ≠ name) (s : Scope κ) :
    (s.substitute name newName).substitute name newName = s.substitute name newName := by
  cases s <;>
    simp [Scope.substitute, Expr.substitute_idem hne, Expr.substituteAll_idem hne]

@[simp] theorem Scope.binds_substitute (s : Scope κ) (x : String) :
    (s.substitute name newName).binds x = s.binds x := by
  cases s <;> rfl

/-- After one renaming the name is free nowhere, so a second one changes nothing. -/
theorem Stmt.substitute_idem (hne : newName ≠ name) (s : Stmt κ) :
    (s.substitute name newName).substitute name newName = s.substitute name newName := by
  induction s with
  | leaf l => rw [Stmt.substitute, Stmt.substitute, Leaf.substitute_idem hne]
  | scope h body ih =>
    rw [Stmt.substitute, Stmt.substitute, Scope.substitute_idem hne, Scope.binds_substitute]
    split
    · rfl
    · rw [ih]
  | for_ x min extent forType api body ih =>
    rw [Stmt.substitute, Stmt.substitute, Expr.substitute_idem hne, Expr.substitute_idem hne]
    split
    · rfl
    · rw [ih]
  | producerConsumer n p body ih => rw [Stmt.substitute, Stmt.substitute, ih]
  | block a b iha ihb => rw [Stmt.substitute, Stmt.substitute, iha, ihb]
  | fork a b iha ihb => rw [Stmt.substitute, Stmt.substitute, iha, ihb]
  | ifThen c t ih => rw [Stmt.substitute, Stmt.substitute, Expr.substitute_idem hne, ih]
  | ifThenElse c t e iht ihe =>
    rw [Stmt.substitute, Stmt.substitute, Expr.substitute_idem hne, iht, ihe]

@[simp] theorem Stmt.substitute_blockMake (a b : Stmt κ) :
    (blockMake a b).substitute name newName =
      blockMake (a.substitute name newName) (b.substitute name newName) := by
  induction a with
  | block first rest _ ih => rw [blockMake, Stmt.substitute, ih, Stmt.substitute, blockMake]
  | _ => rfl

end Substitute

section MapCall

variable {κ κ' : Type} (f : κ → κ')

mutual

theorem Expr.names_mapCall : ∀ e : Expr κ, (e.mapCall f).names = e.names
  | .intImm _ => rfl
  | .stringImm _ => rfl
  | .variable _ => rfl
  | .letIn x value body => by
      rw [Expr.mapCall, Expr.names, Expr.names, Expr.names_mapCall value, Expr.names_mapCall body]
  | .op o args => by rw [Expr.mapCall, Expr.names, Expr.names, Expr.namesAll_mapCallAll args]
  | .call fn args => by rw [Expr.mapCall, Expr.names, Expr.names, Expr.namesAll_mapCallAll args]

theorem Expr.namesAll_mapCallAll : ∀ es : List (Expr κ),
    Expr.namesAll (Expr.mapCallAll f es) = Expr.namesAll es
  | [] => rfl
  | e :: es => by
      rw [Expr.mapCallAll, Expr.namesAll, Expr.namesAll, Expr.names_mapCall e,
        Expr.namesAll_mapCallAll es]

end

theorem Leaf.names_mapCall (l : Leaf κ) : (l.mapCall f).names = l.names := by
  cases l <;> simp [Leaf.mapCall, Leaf.names, Expr.names_mapCall, Expr.namesAll_mapCallAll]

theorem Scope.names_mapCall (s : Scope κ) : (s.mapCall f).names = s.names := by
  cases s <;> simp [Scope.mapCall, Scope.names, Expr.names_mapCall, Expr.namesAll_mapCallAll]

theorem Stmt.names_mapCall (s : Stmt κ) : (s.mapCall f).names = s.names := by
  induction s <;>
    simp_all [Stmt.mapCall, Stmt.names, Leaf.names_mapCall, Scope.names_mapCall, Expr.names_mapCall]

end MapCall

end ProfHalide
