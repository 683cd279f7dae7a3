import ProfHalide.Halide.Serial

/-!
# The profiler's entry points

The runtime functions an instrumented program calls, by name as the pass writes them, and what such a
call asks of the runtime. A measured region is named as the runtime finds its counters: a func at
production or consumption level, the overhead of a func, or a loop.
-/

namespace ProfHalide

/-- The functions named by the calls the pass makes, all `halide_papi_*` but the intrinsic
`register_destructor`. -/
inductive PapiFn where
  | pipelineStart | getState | getPipelineState | registerDestructor
  | setCurrentFunc
  | enterCurrentFunc | leaveCurrentFunc
  | enterOverheadRegion | leaveOverheadRegion
  | enterLoop | leaveLoop
  | incrActiveThreads | decrActiveThreads
  | enterParallelRegion | leaveParallelRegion
  deriving DecidableEq, Repr

/-- A measured region. -/
inductive Region where
  | func (t : Int) (isProducer : Bool)
  | overhead (t : Int)
  | loop (id : Int)
  deriving DecidableEq, Repr

/-- A call into the runtime with the arguments the runtime acts on. -/
inductive PapiCall where
  | pipelineStart (name : String) (numFuncs numLoops : Int)
  | getState | getPipelineState | registerDestructor
  | setCurrentFunc (t : Int)
  | enter (r : Region) | leave (r : Region)
  | incrActiveThreads | decrActiveThreads
  | enterParallelRegion | leaveParallelRegion
  deriving DecidableEq, Repr

def Expr.asInt {κ : Type} : Expr κ → Option Int
  | .intImm value => some value
  | _ => none

def Expr.asString {κ : Type} : Expr κ → Option String
  | .stringImm value => some value
  | _ => none

def PapiFn.decode : PapiFn → List (Expr PapiFn) → Option PapiCall
  | .pipelineStart, name :: numFuncs :: numLoops :: _ => do
      return .pipelineStart (← name.asString) (← numFuncs.asInt) (← numLoops.asInt)
  | .getState, _ => some .getState
  | .getPipelineState, _ => some .getPipelineState
  | .registerDestructor, _ => some .registerDestructor
  | .setCurrentFunc, [_, _, t] => t.asInt.map .setCurrentFunc
  | .enterCurrentFunc, [_, _, t, p] => do return .enter (.func (← t.asInt) ((← p.asInt) != 0))
  | .leaveCurrentFunc, [_, _, t, p] => do return .leave (.func (← t.asInt) ((← p.asInt) != 0))
  | .enterOverheadRegion, [_, _, t] => t.asInt.map (.enter <| .overhead ·)
  | .leaveOverheadRegion, [_, _, t] => t.asInt.map (.leave <| .overhead ·)
  | .enterLoop, [_, _, id] => id.asInt.map (.enter <| .loop ·)
  | .leaveLoop, [_, _, id] => id.asInt.map (.leave <| .loop ·)
  | .incrActiveThreads, _ => some .incrActiveThreads
  | .decrActiveThreads, _ => some .decrActiveThreads
  | .enterParallelRegion, _ => some .enterParallelRegion
  | .leaveParallelRegion, _ => some .leaveParallelRegion
  | _, _ => none

@[simp] theorem Expr.asInt_substitute {κ : Type} (name newName : String) (e : Expr κ) :
    (e.substitute name newName).asInt = e.asInt := by
  cases e with
  | «variable» x =>
    rw [Expr.substitute]
    split <;> rfl
  | _ => rfl

@[simp] theorem Expr.asString_substitute {κ : Type} (name newName : String) (e : Expr κ) :
    (e.substitute name newName).asString = e.asString := by
  cases e with
  | «variable» x =>
    rw [Expr.substitute]
    split <;> rfl
  | _ => rfl

/-- What a call asks for does not depend on how its state pointer is named. -/
theorem PapiFn.decode_substitute (name newName : String) (fn : PapiFn) (args : List (Expr PapiFn)) :
    fn.decode (Expr.substituteAll name newName args) = fn.decode args := by
  rcases args with _ | ⟨a, _ | ⟨b, _ | ⟨c, _ | ⟨d, _ | ⟨e, rest⟩⟩⟩⟩⟩ <;> cases fn <;>
    simp [PapiFn.decode, Expr.substituteAll]

/-- The runtime call an event of an instrumented program makes. -/
def Event.papiCall : Event PapiFn → Option PapiCall
  | .call fn args => fn.decode args
  | _ => none

/-! ### The calls of single nodes -/

/-- The call a leaf is. -/
def Leaf.papiCall : Leaf PapiFn → Option PapiCall
  | .evaluate (.call fn args) => fn.decode args
  | _ => none

def Leaf.isAssert {κ : Type} : Leaf κ → Bool
  | .assertStmt _ _ => true
  | _ => false

/-- The call a let makes for its value. -/
def Scope.papiCall : Scope PapiFn → Option PapiCall
  | .letStmt _ (.call fn args) => fn.decode args
  | _ => none

theorem Leaf.papiCall_substitute (name newName : String) (l : Leaf PapiFn) :
    (l.substitute name newName).papiCall = l.papiCall := by
  cases l with
  | evaluate e =>
    cases e with
    | «variable» x =>
      rw [Leaf.substitute, Expr.substitute]
      split <;> rfl
    | call fn args => exact fn.decode_substitute name newName args
    | _ => rfl
  | _ => rfl

theorem Leaf.isAssert_substitute {κ : Type} (name newName : String) (l : Leaf κ) :
    (l.substitute name newName).isAssert = l.isAssert := by
  cases l <;> rfl

theorem Scope.papiCall_substitute (name newName : String) (h : Scope PapiFn) :
    (h.substitute name newName).papiCall = h.papiCall := by
  cases h with
  | letStmt x v =>
    cases v with
    | «variable» y =>
      rw [Scope.substitute, Expr.substitute]
      split <;> rfl
    | call fn args => exact fn.decode_substitute name newName args
    | _ => rfl
  | _ => rfl

/-- A source program calls nothing of the profiler. -/
theorem Leaf.papiCall_lift (l : Leaf Empty) :
    (l.mapCall Empty.elim : Leaf PapiFn).papiCall = none := by
  cases l with
  | evaluate e =>
    cases e with
    | call fn args => exact fn.elim
    | _ => rfl
  | _ => rfl

theorem Scope.papiCall_lift (h : Scope Empty) :
    (h.mapCall Empty.elim : Scope PapiFn).papiCall = none := by
  cases h with
  | letStmt x v =>
    cases v with
    | call fn args => exact fn.elim
    | _ => rfl
  | _ => rfl

theorem Scope.filterMap_papiCall_events (h : Scope PapiFn) :
    h.events.filterMap Event.papiCall = h.papiCall.toList := by
  cases h with
  | letStmt x v =>
    cases v with
    | call fn args =>
      rw [Scope.events, Scope.papiCall, List.filterMap_cons, Event.papiCall]
      cases fn.decode args <;> rfl
    | _ => rfl
  | _ => rfl

end ProfHalide
