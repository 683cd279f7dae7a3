import ProfHalide.Pass.Shape

/-!
# Deleting what the pass adds

Deleting the profiler's calls, lets, assertion, tables and frees from the instrumented program gives
the original program back, and an execution of the instrumented program performs the original
effects, in the original order, between the calls.
-/

namespace ProfHalide

open InjectPAPIProfiling Behaviour

/-! ### What counts as added -/

/-- The names the pass introduces. -/
def isProfilerName (name : String) : Bool :=
  ["profiler_token", "profiler_state", "profiler_pipeline_state", "hvx_profiler_state"].contains name ||
    startsWith name "profiling_"

def mentionsToken {κ : Type} (e : Expr κ) : Bool := e.names.contains "profiler_token"

/-- The evaluated profiler calls, the assertion on the token, and the stores into and frees of the
tables. -/
def Leaf.isInjected : Leaf PapiFn → Bool
  | .evaluate (.call _ _) => true
  | .evaluate _ => false
  | .assertStmt c _ => mentionsToken c
  | .store name _ _ _ => startsWith name "profiling_"
  | .free name => startsWith name "profiling_"
  | .provide _ _ _ => false

/-- The profiler's lets and the allocations of the tables. -/
def Scope.isInjected : Scope PapiFn → Bool
  | .letStmt name _ => isProfilerName name
  | .allocate name _ _ => startsWith name "profiling_"
  | _ => false

/-- What is left of an execution without the profiler's part in it. An assertion that fails stays, the
one on the token too. -/
def Event.erase : Event PapiFn → Option (Event PapiFn)
  | .call _ _ => none
  | .exec l => if l.isInjected then none else some (.exec l)
  | .enter h => if h.isInjected then none else some (.enter h)
  | e => some e

namespace Stmt

/-- `Evaluate::make(0)`, which stands where all of a body was deleted. -/
def noOp : Stmt PapiFn := .evaluate (.intImm 0)

/-- Two neighbours in a block, of which either may have been deleted. -/
def eraseBlock : Option (Stmt PapiFn) → Option (Stmt PapiFn) → Option (Stmt PapiFn)
  | none, b => b
  | a, none => a
  | some a, some b => some (blockMake a b)

def erase : Stmt PapiFn → Option (Stmt PapiFn)
  | .leaf l => if l.isInjected then none else some (.leaf l)
  | .scope h body => if h.isInjected then body.erase else some (.scope h (body.erase.getD noOp))
  | .producerConsumer n p body => some (.producerConsumer n p (body.erase.getD noOp))
  | .for_ x min extent forType api body => some (.for_ x min extent forType api (body.erase.getD noOp))
  | .block a b => eraseBlock a.erase b.erase
  | .fork a b => some (.fork (a.erase.getD noOp) (b.erase.getD noOp))
  | .ifThen c t => some (.ifThen c (t.erase.getD noOp))
  | .ifThenElse c t e => some (.ifThenElse c (t.erase.getD noOp) (e.erase.getD noOp))

/-- The same statements with every sequence of blocks nested to the right. -/
def regroup {κ : Type} : Stmt κ → Stmt κ
  | .leaf l => .leaf l
  | .scope h body => .scope h body.regroup
  | .producerConsumer n p body => .producerConsumer n p body.regroup
  | .for_ x min extent forType api body => .for_ x min extent forType api body.regroup
  | .block a b => blockMake a.regroup b.regroup
  | .fork a b => .fork a.regroup b.regroup
  | .ifThen c t => .ifThen c t.regroup
  | .ifThenElse c t e => .ifThenElse c t.regroup e.regroup

theorem eraseBlock_assoc (a b c : Option (Stmt PapiFn)) :
    eraseBlock (eraseBlock a b) c = eraseBlock a (eraseBlock b c) := by
  cases a <;> cases b <;> cases c <;> simp [eraseBlock, blockMake_assoc]

@[simp] theorem erase_blockMake (a b : Stmt PapiFn) :
    (blockMake a b).erase = eraseBlock a.erase b.erase :=
  blockMake_invariant erase (fun _ _ _ => eraseBlock_assoc _ _ _)
    (fun a _ _ h => congrArg (eraseBlock a.erase) h) a b

end Stmt

/-! ### Statements that erase to a given one -/

/-- `r` is `s` with profiler code added, in its text and in its executions. -/
structure Erases (r s : Stmt PapiFn) : Prop where
  stmt : r.erase = some s.regroup
  exec : r.exec.image Event.erase = s.exec

/-- `r` is profiler code only. -/
structure Vanishes (r : Stmt PapiFn) : Prop where
  stmt : r.erase = none
  exec : r.exec.image Event.erase = done []

theorem vanishes_call (fn : PapiFn) (args : List (Expr PapiFn)) :
    Vanishes (.evaluate (.call fn args)) where
  stmt := rfl
  exec := by
    rw [Stmt.exec_evaluate_call, image_done]
    rfl

namespace Erases

variable {r s r' s' n n' : Stmt PapiFn}

theorem before (hn : Vanishes n) (hr : Erases r s) : Erases (.blockMake n r) s where
  stmt := by rw [Stmt.erase_blockMake, hn.stmt, hr.stmt, Stmt.eraseBlock]
  exec := by rw [Stmt.exec_blockMake, image_seq, hn.exec, hr.exec, seq_done_nil]

theorem after (hr : Erases r s) (hn : Vanishes n) : Erases (.blockMake r n) s where
  stmt := by rw [Stmt.erase_blockMake, hn.stmt, hr.stmt, Stmt.eraseBlock]; simp
  exec := by rw [Stmt.exec_blockMake, image_seq, hn.exec, hr.exec, seq_nil_right]

theorem between (hn : Vanishes n) (hr : Erases r s) (hn' : Vanishes n') :
    Erases (.blockOf [n, r] n') s := before hn (after hr hn')

theorem block (hr : Erases r s) (hr' : Erases r' s') : Erases (.blockMake r r') (.block s s') where
  stmt := by rw [Stmt.erase_blockMake, hr.stmt, hr'.stmt]; rfl
  exec := by rw [Stmt.exec_blockMake, image_seq, hr.exec, hr'.exec, Stmt.exec]

theorem fork (hr : Erases r s) (hr' : Erases r' s') : Erases (.fork r r') (.fork s s') where
  stmt := by rw [Stmt.erase, hr.stmt, hr'.stmt]; rfl
  exec := by rw [Stmt.exec, image_seq, hr.exec, hr'.exec, Stmt.exec]

theorem producerConsumer (name : String) (isProducer : Bool) (hr : Erases r s) :
    Erases (.producerConsumer name isProducer r) (.producerConsumer name isProducer s) where
  stmt := by rw [Stmt.erase, hr.stmt]; rfl
  exec := by rw [Stmt.exec, hr.exec, Stmt.exec]

theorem for_ (x : String) (min extent : Expr PapiFn) (forType : ForType) (api : DeviceAPI)
    (hr : Erases r s) :
    Erases (.for_ x min extent forType api r) (.for_ x min extent forType api s) where
  stmt := by rw [Stmt.erase, hr.stmt]; rfl
  exec := by rw [Stmt.exec, image_loop, hr.exec, Stmt.exec]; rfl

theorem ifThen (c : Expr PapiFn) (hr : Erases r s) : Erases (.ifThen c r) (.ifThen c s) where
  stmt := by rw [Stmt.erase, hr.stmt]; rfl
  exec := by
    rw [Stmt.exec, image_either, image_seq, image_done, image_done, hr.exec, Stmt.exec]
    rfl

theorem ifThenElse (c : Expr PapiFn) (hr : Erases r s) (hr' : Erases r' s') :
    Erases (.ifThenElse c r r') (.ifThenElse c s s') where
  stmt := by rw [Stmt.erase, hr.stmt, hr'.stmt]; rfl
  exec := by
    rw [Stmt.exec, image_either, image_seq, image_seq, image_done, image_done, hr.exec, hr'.exec,
      Stmt.exec]
    rfl

end Erases

/-! ### Source statements -/

/-- A statement that uses none of the profiler's names. -/
def Stmt.Clean {κ : Type} (s : Stmt κ) : Prop := ∀ x ∈ s.names, isProfilerName x = false

theorem startsWith_profiling_of_clean {name : String} (h : isProfilerName name = false) :
    startsWith name "profiling_" = false := by
  unfold isProfilerName at h
  exact (Bool.or_eq_false_iff.mp h).2

theorem not_mentionsToken_of_clean {κ : Type} {e : Expr κ}
    (h : ∀ x ∈ e.names, isProfilerName x = false) : mentionsToken e = false := by
  unfold mentionsToken
  rw [List.contains_eq_mem, decide_eq_false_iff_not]
  intro hmem
  exact absurd (h _ hmem) (by decide)

section Source

variable {l : Leaf Empty} {h : Scope Empty}

/-- Reading a source statement as an instrumented one. -/
abbrev Expr.lift {κ : Type} (e : Expr Empty) : Expr κ := e.mapCall Empty.elim
abbrev Leaf.lift {κ : Type} (l : Leaf Empty) : Leaf κ := l.mapCall Empty.elim
abbrev Scope.lift {κ : Type} (h : Scope Empty) : Scope κ := h.mapCall Empty.elim

theorem Leaf.not_isInjected_lift (hl : ∀ x ∈ l.names, isProfilerName x = false) :
    l.lift.isInjected = false := by
  cases l with
  | assertStmt c m =>
    refine not_mentionsToken_of_clean fun x hx => hl x ?_
    rw [Expr.names_mapCall] at hx
    exact List.mem_append_left _ hx
  | store b v i p => exact startsWith_profiling_of_clean (hl b List.mem_cons_self)
  | free b => exact startsWith_profiling_of_clean (hl b List.mem_cons_self)
  | provide b vs args => rfl
  | evaluate e =>
    cases e with
    | call fn args => exact fn.elim
    | _ => rfl

theorem Scope.not_isInjected_lift (hh : ∀ x ∈ h.names, isProfilerName x = false) :
    h.lift.isInjected = false := by
  cases h with
  | letStmt x v => exact hh x List.mem_cons_self
  | allocate b es c => exact startsWith_profiling_of_clean (hh b List.mem_cons_self)
  | _ => rfl

theorem Leaf.exec_lift (l : Leaf Empty) :
    (l.lift : Leaf PapiFn).exec = done [.exec l.lift] ∨
      ∃ c m, (l.lift : Leaf PapiFn) = .assertStmt c m ∧
        (l.lift : Leaf PapiFn).exec = either (done [.exec l.lift]) (cut [.fails c m]) := by
  cases l with
  | assertStmt c m => exact Or.inr ⟨_, _, rfl, rfl⟩
  | evaluate e =>
    cases e with
    | call fn args => exact fn.elim
    | _ => exact Or.inl rfl
  | _ => exact Or.inl rfl

theorem Scope.events_lift (h : Scope Empty) :
    (h.lift : Scope PapiFn).events = [.enter h.lift] := by
  cases h with
  | letStmt x v =>
    cases v with
    | call fn args => exact fn.elim
    | _ => rfl
  | _ => rfl

theorem erases_leaf (hl : ∀ x ∈ l.names, isProfilerName x = false) :
    Erases (.leaf l.lift) (.leaf l.lift) := by
  have hinjected := Leaf.not_isInjected_lift hl
  refine ⟨by rw [Stmt.erase, hinjected]; rfl, ?_⟩
  rcases Leaf.exec_lift l with hexec | ⟨c, m, _, hexec⟩
  · rw [Stmt.exec, hexec, image_done]
    simp [Event.erase, hinjected]
  · rw [Stmt.exec, hexec, image_either, image_done, image_cut]
    simp [Event.erase, hinjected]

theorem Erases.scope {r s : Stmt PapiFn} (hh : ∀ x ∈ h.names, isProfilerName x = false)
    (hr : Erases r s) : Erases (.scope h.lift r) (.scope h.lift s) := by
  have hinjected := Scope.not_isInjected_lift hh
  refine ⟨by rw [Stmt.erase, hinjected, hr.stmt]; rfl, ?_⟩
  rw [Stmt.exec, Scope.events_lift, image_seq, image_done, hr.exec, Stmt.exec, Scope.events_lift]
  simp [Event.erase, hinjected]

end Source

/-- A source statement, as inside a device loop, is left as it is. -/
theorem erases_lift (s : Stmt Empty) (hs : s.Clean) : Erases s.lift s.lift := by
  induction s with
  | leaf l => exact erases_leaf hs
  | scope h body ih =>
    exact Erases.scope (fun x hx => hs x (List.mem_append_left _ hx))
      (ih fun x hx => hs x (List.mem_append_right _ hx))
  | producerConsumer n p body ih => exact (ih hs).producerConsumer n p
  | for_ x min extent forType api body ih =>
    exact (ih fun y hy => hs y (by simp [Stmt.names, hy])).for_ x _ _ _ _
  | block a b iha ihb =>
    have ha := iha fun x hx => hs x (List.mem_append_left _ hx)
    have hb := ihb fun x hx => hs x (List.mem_append_right _ hx)
    refine ⟨?_, ?_⟩
    · change Stmt.eraseBlock (Stmt.lift a).erase (Stmt.lift b).erase = _
      rw [ha.stmt, hb.stmt]
      rfl
    · change image Event.erase (seq (Stmt.lift a).exec (Stmt.lift b).exec) = _
      rw [image_seq, ha.exec, hb.exec]
      rfl
  | fork a b iha ihb =>
    exact (iha fun x hx => hs x (List.mem_append_left _ hx)).fork
      (ihb fun x hx => hs x (List.mem_append_right _ hx))
  | ifThen c t ih => exact (ih fun x hx => hs x (List.mem_append_right _ hx)).ifThen _
  | ifThenElse c t e iht ihe =>
    exact (iht fun x hx => hs x (by simp [Stmt.names, hx])).ifThenElse _
      (ihe fun x hx => hs x (by simp [Stmt.names, hx]))

/-! ### Properties of what the mutator builds -/

/-- A call that is given the state, and besides it the token and numbers. -/
def IsStateCall (n : Stmt PapiFn) : Prop :=
  ∃ fn args, n = .evaluate (.call fn (profilerState :: args)) ∧
    ∀ e ∈ args, e = profilerToken ∨ ∃ value, e = .intImm value

theorem isStateCall {fn : PapiFn} {args : List (Expr PapiFn)}
    (hargs : ∀ e ∈ args, e = profilerToken ∨ ∃ value, e = .intImm value) :
    IsStateCall (.evaluate (.call fn (profilerState :: args))) := ⟨fn, args, rfl, hargs⟩

/-- The body of a Hexagon loop, which fetches its own state pointer. -/
def kernelBody (r : Stmt PapiFn) : Stmt PapiFn :=
  .letStmt "hvx_profiler_state" (.call .getState [])
    (r.substitute "profiler_state" "hvx_profiler_state")

/-- A relation to the source that every construction of the mutator keeps, for source statements that
use none of the profiler's names. -/
structure KeptOnClean (M : Stmt PapiFn → Stmt Empty → Prop) : Prop where
  lift : ∀ {s}, s.Clean → M s.lift s
  scope : ∀ {r s} {h : Scope Empty}, (∀ x ∈ h.names, isProfilerName x = false) → M r s →
    M (.scope h.lift r) (.scope h s)
  producerConsumer : ∀ {r s} name isProducer, M r s →
    M (.producerConsumer name isProducer r) (.producerConsumer name isProducer s)
  block : ∀ {r r' s s'}, M r s → M r' s' → M (.blockMake r r') (.block s s')
  fork : ∀ {r r' s s'}, M r s → M r' s' → M (.fork r r') (.fork s s')
  ifThen : ∀ {r s} {c : Expr Empty}, (∀ x ∈ c.names, isProfilerName x = false) → M r s →
    M (.ifThen c.lift r) (.ifThen c s)
  ifThenElse : ∀ {r r' s s'} {c : Expr Empty}, (∀ x ∈ c.names, isProfilerName x = false) → M r s →
    M r' s' → M (.ifThenElse c.lift r r') (.ifThenElse c s s')
  hostLoop : ∀ {r s x} {min extent : Expr Empty} (forType : ForType) {api : DeviceAPI},
    (∀ y ∈ x :: (min.names ++ extent.names), isProfilerName y = false) → api ≠ .hexagon →
    api.isGpu = false → M r s →
    M (.for_ x min.lift extent.lift forType api r) (.for_ x min extent forType api s)
  kernelLoop : ∀ {r s x} {min extent : Expr Empty} (forType : ForType),
    (∀ y ∈ x :: (min.names ++ extent.names), isProfilerName y = false) → M r s →
    M (.for_ x min.lift extent.lift forType .hexagon (kernelBody r))
      (.for_ x min extent forType .hexagon s)
  before : ∀ {n r s}, IsStateCall n → M r s → M (.blockMake n r) s
  after : ∀ {n r s}, M r s → IsStateCall n → M (.blockMake r n) s

namespace KeptOnClean

variable {M : Stmt PapiFn → Stmt Empty → Prop} {r r' n n' : Stmt PapiFn} {s : Stmt Empty}

theorem between (h : KeptOnClean M) (hn : IsStateCall n) (hr : M r s) (hn' : IsStateCall n') :
    M (.blockOf [n, r] n') s := h.before hn (h.after hr hn')

theorem measured (h : KeptOnClean M) (hr : M r s) (hmeasured : Measured r r') : M r' s := by
  cases hmeasured with
  | plain => exact hr
  | overhead idx => exact h.between (isStateCall (by simp)) hr (isStateCall (by simp))
  | func fid p =>
    exact h.between (isStateCall (by simp [makeBool])) hr (isStateCall (by simp [makeBool]))

theorem paused (h : KeptOnClean M) (hr : M r s) (hpaused : Paused r r') : M r' s := by
  cases hpaused with
  | plain => exact hr
  | overhead idx => exact h.between (isStateCall (by simp)) hr (isStateCall (by simp))

theorem countBody (h : KeptOnClean M) (forType : ForType) (api : DeviceAPI) (hr : M r s) :
    M (countBody forType api r) s := by
  unfold ProfHalide.countBody
  split
  · exact h.between (isStateCall (by simp)) hr (isStateCall (by simp))
  · exact hr

theorem bracketLoop (h : KeptOnClean M) (loopDefs : List ProfilerLoop) (name : String)
    (st : InjectPAPIProfiling) (hr : M r s) : M (bracketLoop loopDefs name r st).1 s := by
  unfold ProfHalide.bracketLoop
  split
  · exact h.between (isStateCall (by simp)) hr (isStateCall (by simp))
  · exact hr

theorem bracketLaunch (h : KeptOnClean M) (forType : ForType) (api : DeviceAPI) (hr : M r s) :
    M (bracketLaunch forType api r) s := by
  unfold ProfHalide.bracketLaunch
  split
  · have hinner : M (.blockOf [enterParallelRegion, r] leaveParallelRegion) s :=
      h.between (isStateCall (by simp)) hr (isStateCall (by simp))
    rw [launch_eq]
    exact h.between (isStateCall (by simp)) hinner (isStateCall (by simp))
  · exact hr

/-- A loop around the body that `visitForBody` gives it. -/
theorem visitForBody (h : KeptOnClean M) {x : String} {min extent : Expr Empty}
    {forType : ForType} {api : DeviceAPI} {opBody : Stmt Empty} {mutateBody : Mutation}
    (st : InjectPAPIProfiling) (hclean : (Stmt.for_ x min extent forType api opBody).Clean)
    (hmutate : M (mutateBody st).1 opBody) :
    M (.for_ x min.lift extent.lift forType api (visitForBody forType api opBody mutateBody st).1)
      (.for_ x min extent forType api opBody) := by
  have hx : ∀ y ∈ x :: (min.names ++ extent.names), isProfilerName y = false := by
    intro y hy
    apply hclean y
    simp only [List.mem_cons, List.mem_append] at hy
    rcases hy with hy | hy | hy <;> simp [Stmt.names, hy]
  cases api with
  | hexagon => exact h.kernelLoop forType hx (h.countBody forType .hexagon hmutate)
  | none => exact h.hostLoop forType hx (by decide) rfl (h.countBody forType .none hmutate)
  | host => exact h.hostLoop forType hx (by decide) rfl (h.countBody forType .host hmutate)
  | _ => exact h.lift hclean

/-- What every construction keeps relates the source to what the mutator returns for it. -/
theorem mutate (h : KeptOnClean M) (defs : List ProfilerDef) (loopDefs : List ProfilerLoop)
    (s : Stmt Empty) (hs : s.Clean) (st : InjectPAPIProfiling) :
    M (mutate defs loopDefs s st).1 s := by
  induction s generalizing st with
  | leaf l => exact h.lift hs
  | scope hd body ih =>
    have hbody := ih (fun x hx => hs x (List.mem_append_right _ hx)) st
    exact h.scope (fun x hx => hs x (List.mem_append_left _ hx)) hbody
  | producerConsumer name isProducer body ih =>
    obtain ⟨idx, inner, hinner, hpaused⟩ :=
      visitProducerConsumer_shape defs name isProducer (ProfHalide.mutate defs loopDefs body) st
    have hbody := h.measured (ih hs (beforeBody defs name isProducer st)) hinner
    have hnode := h.before (n := setCurrentFunc idx) (isStateCall (by simp)) hbody
    exact h.paused (h.producerConsumer name isProducer hnode) hpaused
  | for_ x min extent forType api body ih =>
    have hclean : body.Clean := fun y hy => hs y (by simp [Stmt.names, hy])
    have hloop := h.visitForBody st hs (ih hclean st)
    exact h.bracketLaunch forType api (h.bracketLoop loopDefs x _ hloop)
  | block a b iha ihb =>
    exact h.block (iha (fun x hx => hs x (List.mem_append_left _ hx)) _)
      (ihb (fun x hx => hs x (List.mem_append_right _ hx)) _)
  | fork a b iha ihb =>
    exact h.fork (iha (fun x hx => hs x (List.mem_append_left _ hx)) _)
      (ihb (fun x hx => hs x (List.mem_append_right _ hx)) _)
  | ifThen c t ih =>
    exact h.ifThen (fun x hx => hs x (List.mem_append_left _ hx))
      (ih (fun x hx => hs x (List.mem_append_right _ hx)) _)
  | ifThenElse c t e iht ihe =>
    exact h.ifThenElse (fun x hx => hs x (by simp [Stmt.names, hx]))
      (iht (fun x hx => hs x (by simp [Stmt.names, hx])) _)
      (ihe (fun x hx => hs x (by simp [Stmt.names, hx])) _)

end KeptOnClean

/-! ### The mutator -/

/-- `r` erases to `s`, also after it has been moved into a Hexagon kernel. -/
def Keeps (r s : Stmt PapiFn) : Prop :=
  Erases r s ∧ Erases (r.substitute "profiler_state" "hvx_profiler_state") s

theorem Keeps.before {r s n : Stmt PapiFn} {fn : PapiFn} {args : List (Expr PapiFn)}
    (hn : n = .evaluate (.call fn args)) (hr : Keeps r s) : Keeps (.blockMake n r) s := by
  subst hn
  refine ⟨.before (vanishes_call _ _) hr.1, ?_⟩
  rw [Stmt.substitute_blockMake]
  exact .before (vanishes_call _ _) hr.2

theorem Keeps.after {r s n : Stmt PapiFn} {fn : PapiFn} {args : List (Expr PapiFn)}
    (hr : Keeps r s) (hn : n = .evaluate (.call fn args)) : Keeps (.blockMake r n) s := by
  subst hn
  refine ⟨.after hr.1 (vanishes_call _ _), ?_⟩
  rw [Stmt.substitute_blockMake]
  exact .after hr.2 (vanishes_call _ _)

/-- A head that is profiler code only. -/
theorem Erases.inScope {h : Scope PapiFn} {r s : Stmt PapiFn} (hinjected : h.isInjected = true)
    (hevents : h.events.filterMap Event.erase = []) (hr : Erases r s) : Erases (.scope h r) s where
  stmt := by rw [Stmt.erase, hinjected, if_pos rfl, hr.stmt]
  exec := by rw [Stmt.exec, image_seq, image_done, hevents, hr.exec, seq_done_nil]

section Renaming

variable {name : String}

theorem ne_of_clean (h : isProfilerName name = false) : name ≠ "profiler_state" := by
  intro hname
  subst hname
  exact absurd h (by decide)

theorem Expr.substitute_lift {e : Expr Empty} (h : ∀ x ∈ e.names, isProfilerName x = false) :
    (e.lift : Expr PapiFn).substitute "profiler_state" "hvx_profiler_state" = e.lift := by
  refine Expr.substitute_of_not_mem _ fun hmem => ?_
  rw [Expr.names_mapCall] at hmem
  exact ne_of_clean (h _ hmem) rfl

theorem Scope.substitute_lift {h : Scope Empty} (hh : ∀ x ∈ h.names, isProfilerName x = false) :
    (h.lift : Scope PapiFn).substitute "profiler_state" "hvx_profiler_state" = h.lift := by
  refine Scope.substitute_of_not_mem _ fun hmem => ?_
  rw [Scope.names_mapCall] at hmem
  exact ne_of_clean (hh _ hmem) rfl

theorem Scope.not_binds_lift {h : Scope Empty} (hh : ∀ x ∈ h.names, isProfilerName x = false) :
    (h.lift : Scope PapiFn).binds "profiler_state" = false := by
  cases h with
  | letStmt x v => exact decide_eq_false (ne_of_clean (hh x List.mem_cons_self))
  | _ => rfl

theorem Stmt.substitute_lift {s : Stmt Empty} (hs : s.Clean) :
    (s.lift : Stmt PapiFn).substitute "profiler_state" "hvx_profiler_state" = s.lift := by
  refine Stmt.substitute_of_not_mem _ fun hmem => ?_
  rw [Stmt.names_mapCall] at hmem
  exact ne_of_clean (hs _ hmem) rfl

end Renaming

namespace Keeps

variable {r s r' s' : Stmt PapiFn}

theorem lift {s : Stmt Empty} (hs : s.Clean) : Keeps s.lift s.lift := by
  have herases := erases_lift s hs
  exact ⟨herases, by rwa [Stmt.substitute_lift hs]⟩

theorem block (hr : Keeps r s) (hr' : Keeps r' s') : Keeps (.blockMake r r') (.block s s') := by
  refine ⟨hr.1.block hr'.1, ?_⟩
  rw [Stmt.substitute_blockMake]
  exact hr.2.block hr'.2

theorem fork (hr : Keeps r s) (hr' : Keeps r' s') : Keeps (.fork r r') (.fork s s') :=
  ⟨hr.1.fork hr'.1, hr.2.fork hr'.2⟩

theorem producerConsumer (name : String) (isProducer : Bool) (hr : Keeps r s) :
    Keeps (.producerConsumer name isProducer r) (.producerConsumer name isProducer s) :=
  ⟨hr.1.producerConsumer name isProducer, hr.2.producerConsumer name isProducer⟩

theorem scope {h : Scope Empty} (hh : ∀ x ∈ h.names, isProfilerName x = false) (hr : Keeps r s) :
    Keeps (.scope h.lift r) (.scope h.lift s) := by
  refine ⟨Erases.scope hh hr.1, ?_⟩
  rw [Stmt.substitute, Scope.substitute_lift hh, Scope.not_binds_lift hh]
  exact Erases.scope hh hr.2

theorem for_ {x : String} (min extent : Expr Empty) (forType : ForType) (api : DeviceAPI)
    (hx : ∀ y ∈ x :: (min.names ++ extent.names), isProfilerName y = false) (hr : Keeps r s) :
    Keeps (.for_ x min.lift extent.lift forType api r)
      (.for_ x min.lift extent.lift forType api s) := by
  refine ⟨hr.1.for_ _ _ _ _ _, ?_⟩
  have hmin : ∀ y ∈ min.names, isProfilerName y = false := fun y hy => hx y (by simp [hy])
  have hextent : ∀ y ∈ extent.names, isProfilerName y = false := fun y hy => hx y (by simp [hy])
  rw [Stmt.substitute, Expr.substitute_lift hmin, Expr.substitute_lift hextent,
    if_neg (ne_of_clean (hx x List.mem_cons_self))]
  exact hr.2.for_ _ _ _ _ _

theorem ifThen {c : Expr Empty} (hc : ∀ x ∈ c.names, isProfilerName x = false) (hr : Keeps r s) :
    Keeps (.ifThen c.lift r) (.ifThen c.lift s) := by
  refine ⟨hr.1.ifThen _, ?_⟩
  rw [Stmt.substitute, Expr.substitute_lift hc]
  exact hr.2.ifThen _

theorem ifThenElse {c : Expr Empty} (hc : ∀ x ∈ c.names, isProfilerName x = false)
    (hr : Keeps r s) (hr' : Keeps r' s') :
    Keeps (.ifThenElse c.lift r r') (.ifThenElse c.lift s s') := by
  refine ⟨hr.1.ifThenElse _ hr'.1, ?_⟩
  rw [Stmt.substitute, Expr.substitute_lift hc]
  exact hr.2.ifThenElse _ hr'.2

/-- The body of a Hexagon kernel fetches its own state pointer; renaming it again changes nothing. -/
theorem kernel (hr : Keeps r s) :
    Keeps (.letStmt "hvx_profiler_state" (.call .getState [])
      (r.substitute "profiler_state" "hvx_profiler_state")) s := by
  refine ⟨hr.2.inScope rfl rfl, ?_⟩
  have hbinds : (Scope.letStmt "hvx_profiler_state" (.call PapiFn.getState [])).binds
      "profiler_state" = false := by decide
  rw [Stmt.substitute, hbinds, if_neg Bool.false_ne_true, Stmt.substitute_idem (by decide)]
  exact hr.2.inScope rfl rfl

/-- What the mutator builds erases to what it was given. -/
theorem kept : KeptOnClean fun r s => Keeps r s.lift where
  lift := lift
  scope := scope
  producerConsumer name isProducer hr := hr.producerConsumer name isProducer
  block := block
  fork := fork
  ifThen := ifThen
  ifThenElse := ifThenElse
  hostLoop forType _ hx _ _ hr := hr.for_ _ _ forType _ hx
  kernelLoop forType hx hr := hr.kernel.for_ _ _ forType _ hx
  before hn hr := by
    obtain ⟨_, _, hn, _⟩ := hn
    exact hr.before hn
  after hr hn := by
    obtain ⟨_, _, hn, _⟩ := hn
    exact hr.after hn

end Keeps

/-- What the mutator returns erases to the statement it was given. -/
theorem mutate_keeps (defs : List ProfilerDef) (loopDefs : List ProfilerLoop) (s : Stmt Empty)
    (hs : s.Clean) (st : InjectPAPIProfiling) : Keeps (mutate defs loopDefs s st).1 s.lift :=
  Keeps.kept.mutate defs loopDefs s hs st

/-! ### The prologue -/

/-- `r` and `core` differ in profiler code only. -/
structure SameErasure (r core : Stmt PapiFn) : Prop where
  stmt : r.erase = core.erase
  exec : r.exec.image Event.erase = core.exec.image Event.erase

namespace SameErasure

variable {r core n : Stmt PapiFn}

theorem refl (s : Stmt PapiFn) : SameErasure s s := ⟨rfl, rfl⟩

theorem before (hn : Vanishes n) (h : SameErasure r core) : SameErasure (.blockMake n r) core where
  stmt := by rw [Stmt.erase_blockMake, hn.stmt, Stmt.eraseBlock, h.stmt]
  exec := by rw [Stmt.exec_blockMake, image_seq, hn.exec, seq_done_nil, h.exec]

theorem after (h : SameErasure r core) (hn : Vanishes n) : SameErasure (.blockMake r n) core where
  stmt := by
    rw [Stmt.erase_blockMake, hn.stmt, h.stmt]
    cases core.erase <;> rfl
  exec := by rw [Stmt.exec_blockMake, image_seq, hn.exec, seq_nil_right, h.exec]

theorem inScope {h : Scope PapiFn} (hinjected : h.isInjected = true)
    (hevents : h.events.filterMap Event.erase = []) (hr : SameErasure r core) :
    SameErasure (.scope h r) core where
  stmt := by rw [Stmt.erase, hinjected, if_pos rfl, hr.stmt]
  exec := by rw [Stmt.exec, image_seq, image_done, hevents, seq_done_nil, hr.exec]

theorem vanishes_leaf {l : Leaf PapiFn} (hinjected : l.isInjected = true)
    (hexec : l.exec = done [.exec l]) : Vanishes (.leaf l) where
  stmt := by rw [Stmt.erase, hinjected, if_pos rfl]
  exec := by
    rw [Stmt.exec, hexec, image_done, List.filterMap_cons, Event.erase, hinjected]
    rfl

/-- Filling a table in front of the program. -/
theorem fillTable {α : Type} {table : String} (htable : startsWith table "profiling_" = true)
    (index : α → Nat) (value : α → Expr PapiFn) (entries : List α) (h : SameErasure r core) :
    SameErasure (fillTable table index value entries r) core := by
  induction entries generalizing r with
  | nil => exact h
  | cons p entries ih => exact ih (before (vanishes_leaf htable rfl) h)

end SameErasure

/-- The assertion on the token fails: the profiler could not be started. -/
def tokenFails : Event PapiFn := .fails (.op ">=" [profilerToken, .intImm 0]) profilerToken

section Prologue

variable (defs : List ProfilerDef) (loopDefs : List ProfilerLoop) (s : Stmt Empty)
  (pipelineName : String)

theorem measuredProgram_erases (hs : s.Clean) :
    Erases (measuredProgram pipelineName (mutate defs loopDefs s init).1) s.lift := by
  have hbody : Keeps (.blockOf [incrActiveThreads, (mutate defs loopDefs s init).1]
      decrActiveThreads) s.lift := ((mutate_keeps defs loopDefs s hs init).after rfl).before rfl
  exact (hbody.1.inScope rfl rfl).inScope rfl rfl

/-- Around the assertion on the token there is profiler code only. -/
theorem inject_sameErasure :
    SameErasure (injectPapiProfiling defs loopDefs s pipelineName)
      (.blockMake (.leaf (.assertStmt (.op ">=" [profilerToken, .intImm 0]) profilerToken))
        (measuredProgram pipelineName (mutate defs loopDefs s init).1)) := by
  have hcall := fun fn args => vanishes_call fn args
  have hfree : ∀ table, startsWith table "profiling_" = true →
      Vanishes (.leaf (.free table)) := fun _ h => SameErasure.vanishes_leaf h rfl
  rw [inject_eq]
  apply SameErasure.before (hcall _ _)
  iterate 5 apply SameErasure.inScope rfl rfl
  iterate 5 refine SameErasure.after ?_ (hfree _ (by decide))
  iterate 5 apply SameErasure.fillTable (by decide) _ _ _
  exact (SameErasure.refl _).inScope rfl rfl

/-- Erased, the executions of the instrumented program are those of the original one, and the one in
which the profiler could not be started. -/
theorem image_exec_inject (hs : s.Clean) :
    (injectPapiProfiling defs loopDefs s pipelineName).exec.image Event.erase =
      either (Stmt.lift s).exec (cut [tokenFails]) := by
  have hmeasured := (measuredProgram_erases defs loopDefs s pipelineName hs).exec
  rw [(inject_sameErasure defs loopDefs s pipelineName).exec, Stmt.exec_blockMake, image_seq,
    hmeasured, Stmt.exec, Leaf.exec, image_either, image_done, image_cut]
  ext t ok
  constructor
  · rintro (⟨u, v, hu | ⟨_, hfalse⟩, hv, rfl⟩ | ⟨⟨_, hfalse⟩ | hu, rfl⟩)
    · rw [hu.1]
      exact Or.inl hv
    · cases hfalse
    · cases hfalse
    · exact Or.inr hu
  · rintro (h | ⟨rfl, rfl⟩)
    · exact Or.inl ⟨[], t, Or.inl ⟨rfl, rfl⟩, h, rfl⟩
    · exact Or.inr ⟨Or.inr ⟨rfl, rfl⟩, rfl⟩

theorem Event.eq_of_erase {e e' : Event PapiFn} (h : e.erase = some e') : e = e' := by
  cases e with
  | call fn args => cases h
  | exec l => exact Option.some.inj (Option.ite_none_left_eq_some.mp h).2
  | enter head => exact Option.some.inj (Option.ite_none_left_eq_some.mp h).2
  | _ => exact Option.some.inj h

theorem mem_filterMap_tokenFails (t : List (Event PapiFn)) :
    tokenFails ∈ t.filterMap Event.erase ↔ tokenFails ∈ t := by
  rw [List.mem_filterMap]
  constructor
  · intro h
    obtain ⟨e, he, herase⟩ := h
    rwa [Event.eq_of_erase herase] at he
  · intro h
    exact ⟨tokenFails, h, rfl⟩

/-- No assertion of the original program is on the token. -/
theorem only_lift (hs : s.Clean) : Only (· ≠ tokenFails) (Stmt.lift s).exec := by
  induction s with
  | leaf l =>
    rcases Leaf.exec_lift l with hexec | ⟨c, m, hassert, hexec⟩
    · intro t ok ht
      have hexec' : done [.exec l.lift] t ok := hexec ▸ ht
      exact Only.done (by simp [tokenFails]) t ok hexec'
    · have hinjected := Leaf.not_isInjected_lift hs
      rw [hassert] at hinjected
      have hne : Event.fails c m ≠ tokenFails := by
        intro heq
        injection heq with hc
        subst hc
        cases hinjected
      intro t ok ht
      have hexec' : either (done [.exec l.lift]) (cut [.fails c m]) t ok := hexec ▸ ht
      exact (Only.done (by simp [tokenFails])).either (Only.cut (by simpa using hne)) t ok hexec'
  | scope h body ih =>
    have hbody := ih fun x hx => hs x (List.mem_append_right _ hx)
    refine (Only.done ?_).seq hbody
    rw [Scope.events_lift]
    simp [tokenFails]
  | producerConsumer n p body ih => exact ih hs
  | for_ x min extent forType api body ih =>
    exact (ih fun y hy => hs y (by simp [Stmt.names, hy])).loop (by simp [tokenFails])
  | block a b iha ihb =>
    exact (iha fun x hx => hs x (List.mem_append_left _ hx)).seq
      (ihb fun x hx => hs x (List.mem_append_right _ hx))
  | fork a b iha ihb =>
    exact (iha fun x hx => hs x (List.mem_append_left _ hx)).seq
      (ihb fun x hx => hs x (List.mem_append_right _ hx))
  | ifThen c t ih =>
    have ht := ih fun x hx => hs x (List.mem_append_right _ hx)
    exact ((Only.done (by simp [tokenFails])).seq ht).either (Only.done (by simp [tokenFails]))
  | ifThenElse c t e iht ihe =>
    have ht := iht fun x hx => hs x (by simp [Stmt.names, hx])
    have he := ihe fun x hx => hs x (by simp [Stmt.names, hx])
    exact ((Only.done (by simp [tokenFails])).seq ht).either
      ((Only.done (by simp [tokenFails])).seq he)

/-- Deleting the profiler code gives the original statements back, and, unless the profiler could not
be started, the executions perform the original effects in the original order. -/
theorem inject_preserves (hs : s.Clean) :
    (injectPapiProfiling defs loopDefs s pipelineName).erase = some (Stmt.lift s).regroup ∧
    (∀ t ok, (injectPapiProfiling defs loopDefs s pipelineName).exec t ok → tokenFails ∉ t →
      (Stmt.lift s).exec (t.filterMap Event.erase) ok) ∧
    (∀ u ok, (Stmt.lift s).exec u ok →
      ∃ t, (injectPapiProfiling defs loopDefs s pipelineName).exec t ok ∧ tokenFails ∉ t ∧
        t.filterMap Event.erase = u) := by
  have himage := image_exec_inject defs loopDefs s pipelineName hs
  refine ⟨?_, ?_, ?_⟩
  · rw [(inject_sameErasure defs loopDefs s pipelineName).stmt, Stmt.erase_blockMake,
      (measuredProgram_erases defs loopDefs s pipelineName hs).stmt]
    rfl
  · intro t ok ht hstarted
    have herased : (either (Stmt.lift s).exec (cut [tokenFails])) (t.filterMap Event.erase) ok := by
      rw [← himage]
      exact ⟨t, ht, rfl⟩
    rcases herased with h | ⟨h, _⟩
    · exact h
    · have hmem : tokenFails ∈ t.filterMap Event.erase := by simp [h]
      exact absurd ((mem_filterMap_tokenFails t).mp hmem) hstarted
  · intro u ok hu
    have herased : (injectPapiProfiling defs loopDefs s pipelineName).exec.image Event.erase u ok := by
      rw [himage]
      exact Or.inl hu
    obtain ⟨t, ht, hfilter⟩ := herased
    refine ⟨t, ht, ?_, hfilter⟩
    intro hmem
    have hfails := (mem_filterMap_tokenFails t).mpr hmem
    rw [hfilter] at hfails
    exact only_lift s hs u ok hu tokenFails hfails rfl

end Prologue

/-- One store in a parallel loop that produces `f`, with `f` and the loop profiled. -/
theorem inject_preserves_producer :
    let s : Stmt Empty := .producerConsumer "f" true
      (.for_ "f.s0.x" (.intImm 0) (.variable "f.extent.0") .parallel .host
        (.leaf (.provide "f" [.intImm 1] [.variable "f.s0.x"])))
    let injected := injectPapiProfiling [profile "f" PROFILE_PRODUCTION false true]
      [⟨"f", "x", true⟩] s "p"
    injected.erase = some (Stmt.lift s).regroup ∧
      (∀ t ok, injected.exec t ok → tokenFails ∉ t → (Stmt.lift s).exec (t.filterMap Event.erase) ok) ∧
      ∀ u ok, (Stmt.lift s).exec u ok →
        ∃ t, injected.exec t ok ∧ tokenFails ∉ t ∧ t.filterMap Event.erase = u :=
  inject_preserves _ _ _ _ (by unfold Stmt.Clean; decide)

end ProfHalide
