import ProfHalide.Halide.Ir

/-!
# Names in their scopes

Which names of a program are free, and what stands around each call: the lets, loops and buffers whose
scope it lies in, innermost first. A name means the nearest of them that binds it. Variables and buffers
share their names, so a variable can name a buffer.
-/

namespace ProfHalide

/-- What binds a name. -/
inductive Binder (κ : Type) where
  | letIn (name : String) (value : Expr κ)
  | letStmt (name : String) (value : Expr κ)
  | loop (name : String) (api : DeviceAPI)
  | buffer (name : String)
  deriving Repr

/-- A call with its arguments and the binders it stands under. -/
structure CallSite (κ : Type) where
  fn : κ
  args : List (Expr κ)
  /-- Innermost first. -/
  around : List (Binder κ)
  deriving Repr

variable {κ : Type}

namespace Binder

def name : Binder κ → String
  | .letIn x _ | .letStmt x _ | .loop x _ | .buffer x => x

/-- The device of a loop. -/
def api? : Binder κ → Option DeviceAPI
  | .loop _ api => some api
  | _ => none

def isHexagon (b : Binder κ) : Bool := b.api? == some .hexagon

def isGpu (b : Binder κ) : Bool := b.api?.any DeviceAPI.isGpu

def substitute (name newName : String) : Binder κ → Binder κ
  | .letIn x v => .letIn x (v.substitute name newName)
  | .letStmt x v => .letStmt x (v.substitute name newName)
  | .loop x api => .loop x api
  | .buffer x => .buffer x

section Substitute

variable (x y : String) (b : Binder κ)

@[simp] theorem name_substitute : (b.substitute x y).name = b.name := by
  cases b <;> rfl

@[simp] theorem api?_substitute : (b.substitute x y).api? = b.api? := by
  cases b <;> rfl

@[simp] theorem isHexagon_substitute : (b.substitute x y).isHexagon = b.isHexagon := by
  rw [isHexagon, api?_substitute, isHexagon]

@[simp] theorem isGpu_substitute : (b.substitute x y).isGpu = b.isGpu := by
  rw [isGpu, api?_substitute, isGpu]

end Substitute

end Binder

namespace CallSite

/-- The call as it stands in a larger program. -/
def inside (c : CallSite κ) (binders : List (Binder κ)) : CallSite κ :=
  { c with around := c.around ++ binders }

def substitute (name newName : String) (c : CallSite κ) : CallSite κ where
  fn := c.fn
  args := Expr.substituteAll name newName c.args
  around := c.around.map (Binder.substitute name newName)

def inKernel (c : CallSite κ) : Bool := c.around.any Binder.isHexagon

/-- The binders in the body of the innermost Hexagon loop around the call. -/
def kernelBinders (c : CallSite κ) : List (Binder κ) := c.around.takeWhile (!·.isHexagon)

section Simp

variable (c : CallSite κ) (binders : List (Binder κ)) (x y : String)

@[simp] theorem inside_fn : (c.inside binders).fn = c.fn := rfl
@[simp] theorem inside_args : (c.inside binders).args = c.args := rfl
@[simp] theorem inside_around : (c.inside binders).around = c.around ++ binders := rfl
@[simp] theorem substitute_fn : (c.substitute x y).fn = c.fn := rfl

@[simp] theorem substitute_args :
    (c.substitute x y).args = Expr.substituteAll x y c.args := rfl

@[simp] theorem substitute_around :
    (c.substitute x y).around = c.around.map (Binder.substitute x y) := rfl

@[simp] theorem substitute_inside :
    (c.inside binders).substitute x y =
      (c.substitute x y).inside (binders.map (Binder.substitute x y)) := by
  simp [substitute, inside]

@[simp] theorem substitute_inKernel : (c.substitute x y).inKernel = c.inKernel := by
  simp [inKernel, List.any_map, Function.comp_def]

theorem substitute_kernelBinders :
    (c.substitute x y).kernelBinders = c.kernelBinders.map (Binder.substitute x y) := by
  simp [kernelBinders, List.takeWhile_map, Function.comp_def]

end Simp

end CallSite

/-- What a head binds in the statement under it. -/
def Scope.binders : Scope κ → List (Binder κ)
  | .letStmt x v => [.letStmt x v]
  | .allocate b _ _ | .realize b _ _ => [.buffer b]
  | .prefetch _ _ _ | .acquire _ _ | .atomic _ _ => []

/-- The names among these that are free where some are bound. -/
def unbound (bound names : List String) : List String := names.filter fun x => x ∉ bound

@[simp] theorem mem_unbound {bound names : List String} {x : String} :
    x ∈ unbound bound names ↔ x ∈ names ∧ x ∉ bound := by
  simp [unbound]

/-! ### Free names -/

mutual

def Expr.freeNames : Expr κ → List String
  | .intImm _ | .stringImm _ => []
  | .variable x => [x]
  | .letIn x value body => value.freeNames ++ unbound [x] body.freeNames
  | .op _ args | .call _ args => Expr.freeNamesAll args

def Expr.freeNamesAll : List (Expr κ) → List String
  | [] => []
  | e :: es => e.freeNames ++ Expr.freeNamesAll es

end

def Leaf.freeNames : Leaf κ → List String
  | .assertStmt c m => c.freeNames ++ m.freeNames
  | .store b v i p => b :: (v.freeNames ++ i.freeNames ++ p.freeNames)
  | .provide b vs args => b :: (Expr.freeNamesAll vs ++ Expr.freeNamesAll args)
  | .free b => [b]
  | .evaluate e => e.freeNames

def Scope.freeNames : Scope κ → List String
  | .letStmt _ v => v.freeNames
  | .allocate _ es c | .realize _ es c => Expr.freeNamesAll es ++ c.freeNames
  | .prefetch b es c => b :: (Expr.freeNamesAll es ++ c.freeNames)
  | .acquire s c => s.freeNames ++ c.freeNames
  | .atomic _ m => [m]

def Stmt.freeNames : Stmt κ → List String
  | .leaf l => l.freeNames
  | .scope h body => h.freeNames ++ unbound (h.binders.map Binder.name) body.freeNames
  | .producerConsumer _ _ body => body.freeNames
  | .for_ x min extent _ _ body =>
      min.freeNames ++ extent.freeNames ++ unbound [x] body.freeNames
  | .block a b | .fork a b => a.freeNames ++ b.freeNames
  | .ifThen c t => c.freeNames ++ t.freeNames
  | .ifThenElse c t e => c.freeNames ++ t.freeNames ++ e.freeNames

/-! ### Bound names -/

mutual

def Expr.boundNames : Expr κ → List String
  | .intImm _ | .stringImm _ | .variable _ => []
  | .letIn x value body => x :: (value.boundNames ++ body.boundNames)
  | .op _ args | .call _ args => Expr.boundNamesAll args

def Expr.boundNamesAll : List (Expr κ) → List String
  | [] => []
  | e :: es => e.boundNames ++ Expr.boundNamesAll es

end

def Leaf.boundNames : Leaf κ → List String
  | .assertStmt c m => c.boundNames ++ m.boundNames
  | .store _ v i p => v.boundNames ++ i.boundNames ++ p.boundNames
  | .provide _ vs args => Expr.boundNamesAll vs ++ Expr.boundNamesAll args
  | .free _ => []
  | .evaluate e => e.boundNames

def Scope.boundNames : Scope κ → List String
  | .letStmt x v => x :: v.boundNames
  | .allocate b es c | .realize b es c => b :: (Expr.boundNamesAll es ++ c.boundNames)
  | .prefetch _ es c => Expr.boundNamesAll es ++ c.boundNames
  | .acquire s c => s.boundNames ++ c.boundNames
  | .atomic _ _ => []

def Stmt.boundNames : Stmt κ → List String
  | .leaf l => l.boundNames
  | .scope h body => h.boundNames ++ body.boundNames
  | .producerConsumer _ _ body => body.boundNames
  | .for_ x min extent _ _ body => x :: (min.boundNames ++ extent.boundNames ++ body.boundNames)
  | .block a b | .fork a b => a.boundNames ++ b.boundNames
  | .ifThen c t => c.boundNames ++ t.boundNames
  | .ifThenElse c t e => c.boundNames ++ t.boundNames ++ e.boundNames

/-! ### Calls -/

mutual

def Expr.calls : Expr κ → List (CallSite κ)
  | .intImm _ | .stringImm _ | .variable _ => []
  | .letIn x value body => value.calls ++ body.calls.map (·.inside [.letIn x value])
  | .op _ args => Expr.callsAll args
  | .call fn args => ⟨fn, args, []⟩ :: Expr.callsAll args

def Expr.callsAll : List (Expr κ) → List (CallSite κ)
  | [] => []
  | e :: es => e.calls ++ Expr.callsAll es

end

def Leaf.calls : Leaf κ → List (CallSite κ)
  | .assertStmt c m => c.calls ++ m.calls
  | .store _ v i p => v.calls ++ i.calls ++ p.calls
  | .provide _ vs args => Expr.callsAll vs ++ Expr.callsAll args
  | .free _ => []
  | .evaluate e => e.calls

def Scope.calls : Scope κ → List (CallSite κ)
  | .letStmt _ v => v.calls
  | .allocate _ es c | .realize _ es c | .prefetch _ es c => Expr.callsAll es ++ c.calls
  | .acquire s c => s.calls ++ c.calls
  | .atomic _ _ => []

def Stmt.calls : Stmt κ → List (CallSite κ)
  | .leaf l => l.calls
  | .scope h body => h.calls ++ body.calls.map (·.inside h.binders)
  | .producerConsumer _ _ body => body.calls
  | .for_ x min extent _ api body =>
      min.calls ++ extent.calls ++ body.calls.map (·.inside [.loop x api])
  | .block a b | .fork a b => a.calls ++ b.calls
  | .ifThen c t => c.calls ++ t.calls
  | .ifThenElse c t e => c.calls ++ t.calls ++ e.calls

/-! ### Free and bound names are names -/

section Names

variable {x : String}

mutual

theorem Expr.mem_names_of_free : ∀ e : Expr κ, x ∈ e.freeNames → x ∈ e.names
  | .intImm _, h | .stringImm _, h | .variable _, h => h
  | .letIn y value body, h => by
      rw [Expr.freeNames, List.mem_append, mem_unbound] at h
      rw [Expr.names, List.mem_cons, List.mem_append]
      rcases h with h | ⟨h, _⟩
      · exact Or.inr (Or.inl (value.mem_names_of_free h))
      · exact Or.inr (Or.inr (body.mem_names_of_free h))
  | .op _ args, h | .call _ args, h => Expr.mem_namesAll_of_free args h

theorem Expr.mem_namesAll_of_free : ∀ es : List (Expr κ),
    x ∈ Expr.freeNamesAll es → x ∈ Expr.namesAll es
  | [], h => h
  | e :: es, h => by
      rw [Expr.freeNamesAll, List.mem_append] at h
      rw [Expr.namesAll, List.mem_append]
      exact h.imp e.mem_names_of_free (Expr.mem_namesAll_of_free es)

end

mutual

theorem Expr.mem_names_of_bound : ∀ e : Expr κ, x ∈ e.boundNames → x ∈ e.names
  | .intImm _, h | .stringImm _, h => h
  | .variable _, h => absurd h List.not_mem_nil
  | .letIn y value body, h => by
      rw [Expr.boundNames, List.mem_cons, List.mem_append] at h
      rw [Expr.names, List.mem_cons, List.mem_append]
      exact h.imp_right (Or.imp value.mem_names_of_bound body.mem_names_of_bound)
  | .op _ args, h | .call _ args, h => Expr.mem_namesAll_of_bound args h

theorem Expr.mem_namesAll_of_bound : ∀ es : List (Expr κ),
    x ∈ Expr.boundNamesAll es → x ∈ Expr.namesAll es
  | [], h => h
  | e :: es, h => by
      rw [Expr.boundNamesAll, List.mem_append] at h
      rw [Expr.namesAll, List.mem_append]
      exact h.imp e.mem_names_of_bound (Expr.mem_namesAll_of_bound es)

end

theorem Leaf.mem_names_of_free (l : Leaf κ) (h : x ∈ l.freeNames) : x ∈ l.names := by
  have hexpr := fun e : Expr κ => e.mem_names_of_free (x := x)
  have hall := fun es : List (Expr κ) => Expr.mem_namesAll_of_free (x := x) es
  cases l <;> grind [Leaf.freeNames, Leaf.names]

theorem Leaf.mem_names_of_bound (l : Leaf κ) (h : x ∈ l.boundNames) : x ∈ l.names := by
  have hexpr := fun e : Expr κ => e.mem_names_of_bound (x := x)
  have hall := fun es : List (Expr κ) => Expr.mem_namesAll_of_bound (x := x) es
  cases l <;> grind [Leaf.boundNames, Leaf.names]

theorem Scope.mem_names_of_free (h : Scope κ) (hx : x ∈ h.freeNames) : x ∈ h.names := by
  have hexpr := fun e : Expr κ => e.mem_names_of_free (x := x)
  have hall := fun es : List (Expr κ) => Expr.mem_namesAll_of_free (x := x) es
  cases h <;> grind [Scope.freeNames, Scope.names]

theorem Scope.mem_names_of_bound (h : Scope κ) (hx : x ∈ h.boundNames) : x ∈ h.names := by
  have hexpr := fun e : Expr κ => e.mem_names_of_bound (x := x)
  have hall := fun es : List (Expr κ) => Expr.mem_namesAll_of_bound (x := x) es
  cases h <;> grind [Scope.boundNames, Scope.names]

theorem Stmt.mem_names_of_free (s : Stmt κ) (h : x ∈ s.freeNames) : x ∈ s.names := by
  induction s <;>
    grind [Stmt.freeNames, Stmt.names, Leaf.mem_names_of_free, Scope.mem_names_of_free,
      Expr.mem_names_of_free, mem_unbound]

theorem Stmt.mem_names_of_bound (s : Stmt κ) (h : x ∈ s.boundNames) : x ∈ s.names := by
  induction s <;>
    grind [Stmt.boundNames, Stmt.names, Leaf.mem_names_of_bound, Scope.mem_names_of_bound,
      Expr.mem_names_of_bound]

end Names

/-! ### Renaming -/

section Substitute

variable {x y z : String}

mutual

/-- Renaming brings in no free name but the new one. -/
theorem Expr.mem_freeNames_substitute : ∀ e : Expr κ,
    z ∈ (e.substitute x y).freeNames → z = y ∨ z ∈ e.freeNames
  | .intImm _, h | .stringImm _, h => absurd h List.not_mem_nil
  | .variable w, h => by
      rw [Expr.substitute] at h
      split at h
      · exact Or.inl (List.mem_singleton.mp h)
      · exact Or.inr h
  | .letIn w value body, h => by
      have hvalue := value.mem_freeNames_substitute
      have hbody := body.mem_freeNames_substitute
      rw [Expr.substitute, Expr.freeNames] at h
      rw [Expr.freeNames]
      split at h <;> grind [mem_unbound]
  | .op _ args, h | .call _ args, h => Expr.mem_freeNamesAll_substitute args h

theorem Expr.mem_freeNamesAll_substitute : ∀ es : List (Expr κ),
    z ∈ Expr.freeNamesAll (Expr.substituteAll x y es) → z = y ∨ z ∈ Expr.freeNamesAll es
  | [], h => absurd h List.not_mem_nil
  | e :: es, h => by
      rw [Expr.substituteAll, Expr.freeNamesAll, List.mem_append] at h
      rw [Expr.freeNamesAll, List.mem_append]
      rcases h with h | h
      · exact (e.mem_freeNames_substitute h).imp_right Or.inl
      · exact (Expr.mem_freeNamesAll_substitute es h).imp_right Or.inr

end

theorem Leaf.mem_freeNames_substitute (l : Leaf κ) (h : z ∈ (l.substitute x y).freeNames) :
    z = y ∨ z ∈ l.freeNames := by
  have hexpr := fun e : Expr κ => e.mem_freeNames_substitute (x := x) (y := y) (z := z)
  have hall := fun es : List (Expr κ) =>
    Expr.mem_freeNamesAll_substitute (x := x) (y := y) (z := z) es
  cases l <;> grind [Leaf.freeNames, Leaf.substitute]

theorem Scope.mem_freeNames_substitute (h : Scope κ) (hz : z ∈ (h.substitute x y).freeNames) :
    z = y ∨ z ∈ h.freeNames := by
  have hexpr := fun e : Expr κ => e.mem_freeNames_substitute (x := x) (y := y) (z := z)
  have hall := fun es : List (Expr κ) =>
    Expr.mem_freeNamesAll_substitute (x := x) (y := y) (z := z) es
  cases h <;> grind [Scope.freeNames, Scope.substitute]

theorem Scope.binders_substitute (h : Scope κ) :
    (h.substitute x y).binders = h.binders.map (Binder.substitute x y) := by
  cases h <;> rfl

theorem Scope.binders_names_substitute (h : Scope κ) :
    (h.substitute x y).binders.map Binder.name = h.binders.map Binder.name := by
  rw [Scope.binders_substitute, List.map_map]
  apply List.map_congr_left
  intro b _
  exact b.name_substitute x y

theorem Stmt.mem_freeNames_substitute (s : Stmt κ) (h : z ∈ (s.substitute x y).freeNames) :
    z = y ∨ z ∈ s.freeNames := by
  have hexpr := fun e : Expr κ => e.mem_freeNames_substitute (x := x) (y := y) (z := z)
  induction s with
  | leaf l => exact l.mem_freeNames_substitute h
  | scope hd body ih =>
    have hhead := hd.mem_freeNames_substitute (x := x) (y := y) (z := z)
    rw [Stmt.substitute, Stmt.freeNames, Scope.binders_names_substitute] at h
    rw [Stmt.freeNames]
    split at h <;> grind [mem_unbound]
  | for_ w min extent forType api body ih =>
    rw [Stmt.substitute, Stmt.freeNames] at h
    rw [Stmt.freeNames]
    split at h <;> grind [mem_unbound]
  | producerConsumer n p body ih => exact ih h
  | block a b iha ihb => grind [Stmt.substitute, Stmt.freeNames]
  | fork a b iha ihb => grind [Stmt.substitute, Stmt.freeNames]
  | ifThen c t ih => grind [Stmt.substitute, Stmt.freeNames]
  | ifThenElse c t e iht ihe => grind [Stmt.substitute, Stmt.freeNames]

/-! #### Where the name is not bound, a renaming reaches every call -/

mutual

theorem Expr.boundNames_substitute : ∀ e : Expr κ, (e.substitute x y).boundNames = e.boundNames
  | .intImm _ | .stringImm _ => rfl
  | .variable w => by
      rw [Expr.substitute]
      split <;> rfl
  | .letIn w value body => by
      rw [Expr.substitute, Expr.boundNames, Expr.boundNames, value.boundNames_substitute]
      split
      · rfl
      · rw [body.boundNames_substitute]
  | .op _ args | .call _ args => Expr.boundNamesAll_substitute args

theorem Expr.boundNamesAll_substitute : ∀ es : List (Expr κ),
    Expr.boundNamesAll (Expr.substituteAll x y es) = Expr.boundNamesAll es
  | [] => rfl
  | e :: es => by
      rw [Expr.substituteAll, Expr.boundNamesAll, e.boundNames_substitute,
        Expr.boundNamesAll_substitute es, Expr.boundNamesAll]

end

theorem Leaf.boundNames_substitute (l : Leaf κ) :
    (l.substitute x y).boundNames = l.boundNames := by
  cases l <;>
    simp [Leaf.substitute, Leaf.boundNames, Expr.boundNames_substitute,
      Expr.boundNamesAll_substitute]

theorem Scope.boundNames_substitute (h : Scope κ) :
    (h.substitute x y).boundNames = h.boundNames := by
  cases h <;>
    simp [Scope.substitute, Scope.boundNames, Expr.boundNames_substitute,
      Expr.boundNamesAll_substitute]

theorem Stmt.boundNames_substitute (s : Stmt κ) :
    (s.substitute x y).boundNames = s.boundNames := by
  induction s with
  | leaf l => exact l.boundNames_substitute
  | scope hd body ih =>
    rw [Stmt.substitute, Stmt.boundNames, Stmt.boundNames, Scope.boundNames_substitute]
    split
    · rfl
    · rw [ih]
  | for_ w min extent forType api body ih =>
    rw [Stmt.substitute, Stmt.boundNames, Stmt.boundNames, Expr.boundNames_substitute,
      Expr.boundNames_substitute]
    split
    · rfl
    · rw [ih]
  | producerConsumer n p body ih => exact ih
  | block a b iha ihb => rw [Stmt.substitute, Stmt.boundNames, iha, ihb, Stmt.boundNames]
  | fork a b iha ihb => rw [Stmt.substitute, Stmt.boundNames, iha, ihb, Stmt.boundNames]
  | ifThen c t ih =>
    rw [Stmt.substitute, Stmt.boundNames, Expr.boundNames_substitute, ih, Stmt.boundNames]
  | ifThenElse c t e iht ihe =>
    rw [Stmt.substitute, Stmt.boundNames, Expr.boundNames_substitute, iht, ihe, Stmt.boundNames]

mutual

theorem Expr.calls_substitute : ∀ e : Expr κ, x ∉ e.boundNames →
    (e.substitute x y).calls = e.calls.map (CallSite.substitute x y)
  | .intImm _, _ | .stringImm _, _ => rfl
  | .variable w, _ => by
      rw [Expr.substitute]
      split <;> rfl
  | .letIn w value body, h => by
      rw [Expr.boundNames, List.mem_cons, List.mem_append, not_or, not_or] at h
      rw [Expr.substitute, if_neg (Ne.symm h.1), Expr.calls, Expr.calls,
        value.calls_substitute h.2.1, body.calls_substitute h.2.2]
      simp [Function.comp_def, Binder.substitute]
  | .op _ args, h => Expr.callsAll_substitute args h
  | .call fn args, h => by
      rw [Expr.substitute, Expr.calls, Expr.callsAll_substitute args h, Expr.calls, List.map_cons]
      rfl

theorem Expr.callsAll_substitute : ∀ es : List (Expr κ), x ∉ Expr.boundNamesAll es →
    Expr.callsAll (Expr.substituteAll x y es) = (Expr.callsAll es).map (CallSite.substitute x y)
  | [], _ => rfl
  | e :: es, h => by
      rw [Expr.boundNamesAll, List.mem_append, not_or] at h
      rw [Expr.substituteAll, Expr.callsAll, e.calls_substitute h.1,
        Expr.callsAll_substitute es h.2, Expr.callsAll, List.map_append]

end

theorem Leaf.calls_substitute (l : Leaf κ) (h : x ∉ l.boundNames) :
    (l.substitute x y).calls = l.calls.map (CallSite.substitute x y) := by
  cases l <;>
    simp_all [Leaf.substitute, Leaf.calls, Leaf.boundNames, Expr.calls_substitute,
      Expr.callsAll_substitute]

theorem Scope.calls_substitute (h : Scope κ) (hx : x ∉ h.boundNames) :
    (h.substitute x y).calls = h.calls.map (CallSite.substitute x y) := by
  cases h <;>
    simp_all [Scope.substitute, Scope.calls, Scope.boundNames, Expr.calls_substitute,
      Expr.callsAll_substitute]

theorem Scope.not_binds_of_not_bound (h : Scope κ) (hx : x ∉ h.boundNames) : h.binds x = false := by
  cases h with
  | letStmt w v => exact decide_eq_false fun hw => hx (hw ▸ List.mem_cons_self)
  | _ => rfl

theorem Stmt.calls_substitute (s : Stmt κ) (h : x ∉ s.boundNames) :
    (s.substitute x y).calls = s.calls.map (CallSite.substitute x y) := by
  induction s with
  | leaf l => exact l.calls_substitute h
  | scope hd body ih =>
    rw [Stmt.boundNames, List.mem_append, not_or] at h
    rw [Stmt.substitute, hd.not_binds_of_not_bound h.1, if_neg Bool.false_ne_true, Stmt.calls,
      hd.calls_substitute h.1, ih h.2, Scope.binders_substitute, Stmt.calls]
    simp [Function.comp_def]
  | for_ w min extent forType api body ih =>
    simp only [Stmt.boundNames, List.mem_cons, List.mem_append, not_or] at h
    rw [Stmt.substitute, if_neg (Ne.symm h.1), Stmt.calls, Expr.calls_substitute _ h.2.1.1,
      Expr.calls_substitute _ h.2.1.2, ih h.2.2, Stmt.calls]
    simp [Function.comp_def, Binder.substitute]
  | producerConsumer n p body ih => exact ih h
  | block a b iha ihb =>
    rw [Stmt.boundNames, List.mem_append, not_or] at h
    rw [Stmt.substitute, Stmt.calls, iha h.1, ihb h.2, Stmt.calls, List.map_append]
  | fork a b iha ihb =>
    rw [Stmt.boundNames, List.mem_append, not_or] at h
    rw [Stmt.substitute, Stmt.calls, iha h.1, ihb h.2, Stmt.calls, List.map_append]
  | ifThen c t ih =>
    rw [Stmt.boundNames, List.mem_append, not_or] at h
    rw [Stmt.substitute, Stmt.calls, c.calls_substitute h.1, ih h.2, Stmt.calls, List.map_append]
  | ifThenElse c t e iht ihe =>
    simp only [Stmt.boundNames, List.mem_append, not_or] at h
    rw [Stmt.substitute, Stmt.calls, c.calls_substitute h.1.1, iht h.1.2, ihe h.2, Stmt.calls,
      List.map_append, List.map_append]

end Substitute

/-! ### Building and reading -/

namespace Stmt

@[simp] theorem freeNames_blockMake (a b : Stmt κ) :
    (blockMake a b).freeNames = a.freeNames ++ b.freeNames :=
  blockMake_invariant freeNames (fun _ _ _ => by simp [freeNames])
    (fun _ _ _ h => by rw [freeNames, freeNames, h]) a b

@[simp] theorem boundNames_blockMake (a b : Stmt κ) :
    (blockMake a b).boundNames = a.boundNames ++ b.boundNames :=
  blockMake_invariant boundNames (fun _ _ _ => by simp [boundNames])
    (fun _ _ _ h => by rw [boundNames, boundNames, h]) a b

@[simp] theorem calls_blockMake (a b : Stmt κ) : (blockMake a b).calls = a.calls ++ b.calls :=
  blockMake_invariant calls (fun _ _ _ => by simp [calls])
    (fun _ _ _ h => by rw [calls, calls, h]) a b

end Stmt

/-! A source program calls nothing. -/

mutual

theorem Expr.calls_source : ∀ e : Expr Empty, (e.mapCall Empty.elim : Expr κ).calls = []
  | .intImm _ | .stringImm _ | .variable _ => rfl
  | .letIn x value body => by
      rw [Expr.mapCall, Expr.calls, value.calls_source, body.calls_source]
      rfl
  | .op _ args => Expr.callsAll_source args
  | .call fn _ => fn.elim

theorem Expr.callsAll_source : ∀ es : List (Expr Empty),
    (Expr.callsAll (Expr.mapCallAll Empty.elim es) : List (CallSite κ)) = []
  | [] => rfl
  | e :: es => by
      rw [Expr.mapCallAll, Expr.callsAll, e.calls_source, Expr.callsAll_source es]
      rfl

end

theorem Leaf.calls_source (l : Leaf Empty) : (l.mapCall Empty.elim : Leaf κ).calls = [] := by
  cases l <;> simp [Leaf.mapCall, Leaf.calls, Expr.calls_source, Expr.callsAll_source]

theorem Scope.calls_source (h : Scope Empty) : (h.mapCall Empty.elim : Scope κ).calls = [] := by
  cases h <;> simp [Scope.mapCall, Scope.calls, Expr.calls_source, Expr.callsAll_source]

theorem Stmt.calls_source (s : Stmt Empty) : (s.lift : Stmt κ).calls = [] := by
  induction s <;>
    simp_all [Stmt.mapCall, Stmt.calls, Leaf.calls_source, Scope.calls_source, Expr.calls_source]

end ProfHalide
