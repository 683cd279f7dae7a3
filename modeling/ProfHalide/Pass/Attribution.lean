import ProfHalide.Pass.Nesting
import ProfHalide.Pass.Erasure
import ProfHalide.Pass.Tables
import ProfHalide.Lib.Transducer

/-!
# What the program does is measured where the schedule says

The registrations say on the source what each statement is measured as: the innermost registered loop
or profiled node around it, where a producer with other nodes below it is measured as its overhead.
`attributed` carries out the source and notes this next to every event. The instrumented program, watched
through the calls that enter and leave regions, does the same events in the same order and measures each
of them in the region of that name.
-/

namespace ProfHalide

open InjectPAPIProfiling Numbering Behaviour

/-! ### The schedule's reading of the source -/

/-- A measured region as the report names it. -/
inductive RegionName where
  | func (name : String) (isProducer : Bool)
  | overhead (func : String)
  | loop (name : String)
  deriving DecidableEq, Repr

namespace RegionName

/-- The region of a name, by the numbers of the funcs and loops. -/
def region (ids loops : Std.TreeMap String Nat) : RegionName → Region
  | .func name isProducer => .func (ids[name]?.getD 0) isProducer
  | .overhead f => .overhead (ids[f]?.getD 0)
  | .loop name => .loop (loops[name]?.getD 0)

def slot : Option RegionName → Slot
  | none => .idle
  | some (.overhead f) => .overhead f
  | some _ => .busy

/-- What a profiled node is measured as. -/
def ofNode (name : String) (isProducer : Bool) (body : Stmt Empty) : RegionName :=
  if isProducer && childrens (normalizeName name) true 0 body > 0 then .overhead (normalizeName name)
  else .func (normalizeName name) isProducer

end RegionName

section Attributed

variable (defs : List ProfilerDef) (loopDefs : List ProfilerLoop) {ρ : Type} (label : RegionName → ρ)

/-- The executions of a statement that is measured as one region all along. -/
def within (m : Option RegionName) (s : Stmt Empty) : Behaviour (Event PapiFn × Option ρ) :=
  (Stmt.lift s).exec.image fun e => some (e, m.map label)

/-- The executions of a statement, with what each event is measured as. `around` is the innermost
produce node, with whether its registration enables it, and `m` what is being measured. -/
def attributed : Option (String × Bool) → Option RegionName → Stmt Empty →
    Behaviour (Event PapiFn × Option ρ)
  | _, m, .leaf l => within label m (.leaf l)
  | around, m, .scope h body => seq (done [(.enter h.lift, m.map label)]) (attributed around m body)
  | around, m, .block a b | around, m, .fork a b => seq (attributed around m a) (attributed around m b)
  | around, m, .ifThen c t =>
      either (seq (done [(.branch c.lift true, m.map label)]) (attributed around m t))
        (done [(.branch c.lift false, m.map label)])
  | around, m, .ifThenElse c t e =>
      either (seq (done [(.branch c.lift true, m.map label)]) (attributed around m t))
        (seq (done [(.branch c.lift false, m.map label)]) (attributed around m e))
  | around, m, .for_ name min extent _ api body =>
      let m := if loopDefs.any (·.matches name) then some (.loop name) else m
      loop (fun n => [(.loop name min.lift extent.lift n, m.map label)])
        (if api.isGpu then within label m body else attributed around m body)
  | around, m, .producerConsumer name isProducer body =>
      let it := defs.find? fun d => d.matches name isProducer (around.elim "overhead" (·.1))
      let registered := it.any (·.enable)
      let profiled := registered || (it.isNone && around.any (·.2))
      attributed (if isProducer then some (normalizeName name, registered) else around)
        (if profiled then some (.ofNode name isProducer body) else m) body

end Attributed

/-- No loop that the mutator enters runs on Hexagon, whose calls go to another runtime. -/
def Stmt.onHost {κ : Type} : Stmt κ → Bool
  | .leaf _ => true
  | .scope _ body | .producerConsumer _ _ body | .ifThen _ body => body.onHost
  | .for_ _ _ _ _ api body => api != .hexagon && (api.isGpu || body.onHost)
  | .block a b | .fork a b | .ifThenElse _ a b => a.onHost && b.onHost

/-! ### Watching the instrumented program -/

namespace Event

/-- The region being measured, as the events go by. -/
def measure (q : Option Region) (e : Event PapiFn) : Option (Option Region) :=
  e.papiCall.elim (some q) (ProfHalide.measure q)

/-- What is noted of an event: while nothing is measured that it happened, if it is not the profiler's
own, and while a region is measured anything but calls. -/
def credit (q : Option Region) (e : Event PapiFn) : Option (Event PapiFn × Option Region) :=
  match q, e with
  | none, e => e.erase.map (·, none)
  | some _, .call _ _ => none
  | some r, e => some (e, some r)

/-- An event of the source program. -/
def IsOriginal (e : Event PapiFn) : Prop := e.papiCall = none ∧ e.erase = some e

theorem IsOriginal.measure {e : Event PapiFn} (h : e.IsOriginal) (q : Option Region) :
    measure q e = some q := by
  rw [Event.measure, h.1]
  rfl

theorem IsOriginal.credit {e : Event PapiFn} (h : e.IsOriginal) (q : Option Region) :
    credit q e = some (e, q) := by
  cases q with
  | none => rw [Event.credit, h.2]; rfl
  | some r =>
    cases e with
    | call fn args => cases h.2
    | _ => rfl

end Event

/-- The executions of `r` from `q` on measure what `R` says, and end with `q` being measured. -/
abbrev Attributes (q : Option Region) (r : Stmt PapiFn) (R : Behaviour (Event PapiFn × Option Region)) :
    Prop :=
  Yields Event.measure Event.credit q r.exec q R

/-! ### Source statements -/

theorem isOriginal_enter {h : Scope Empty} (hh : ∀ x ∈ h.names, isProfilerName x = false) :
    (Event.enter h.lift : Event PapiFn).IsOriginal :=
  ⟨rfl, by rw [Event.erase, Scope.not_isInjected_lift hh]; rfl⟩

/-- A source statement does only events of its own. -/
theorem only_isOriginal (s : Stmt Empty) (hs : s.Clean) :
    Only Event.IsOriginal (Stmt.lift s).exec := by
  induction s with
  | leaf l =>
    have hexec : (Event.exec l.lift : Event PapiFn).IsOriginal :=
      ⟨rfl, by rw [Event.erase, Leaf.not_isInjected_lift hs]; rfl⟩
    rw [Stmt.lift, Stmt.mapCall, Stmt.exec]
    rcases Leaf.exec_lift l with h | ⟨c, m, _, h⟩
    · rw [h]
      exact Only.done (by simpa using hexec)
    · rw [h]
      exact (Only.done (by simpa using hexec)).either (Only.cut (by simp [Event.IsOriginal,
        Event.papiCall, Event.erase]))
  | scope h body ih =>
    have henter := isOriginal_enter fun x hx => hs x (List.mem_append_left _ hx)
    refine (Only.done ?_).seq (ih fun x hx => hs x (List.mem_append_right _ hx))
    rw [Scope.events_lift]
    simpa using henter
  | producerConsumer n p body ih => exact ih hs
  | for_ x min extent forType api body ih =>
    refine (ih fun y hy => hs y (by simp [Stmt.names, hy])).loop ?_
    simp [Event.IsOriginal, Event.papiCall, Event.erase]
  | block a b iha ihb | fork a b iha ihb =>
    exact (iha fun x hx => hs x (List.mem_append_left _ hx)).seq
      (ihb fun x hx => hs x (List.mem_append_right _ hx))
  | ifThen c t ih =>
    have hbranch : ∀ taken, ∀ e ∈ [(Event.branch c.lift taken : Event PapiFn)], e.IsOriginal := by
      simp [Event.IsOriginal, Event.papiCall, Event.erase]
    exact ((Only.done (hbranch true)).seq (ih fun x hx => hs x (List.mem_append_right _ hx))).either
      (Only.done (hbranch false))
  | ifThenElse c t e iht ihe =>
    have hbranch : ∀ taken, ∀ e ∈ [(Event.branch c.lift taken : Event PapiFn)], e.IsOriginal := by
      simp [Event.IsOriginal, Event.papiCall, Event.erase]
    exact ((Only.done (hbranch true)).seq (iht fun x hx => hs x (by simp [Stmt.names, hx]))).either
      ((Only.done (hbranch false)).seq (ihe fun x hx => hs x (by simp [Stmt.names, hx])))

/-- A source statement is measured as whatever is being measured. -/
theorem attributes_lift {s : Stmt Empty} (hs : s.Clean) {label : RegionName → Region}
    {m : Option RegionName} {q : Option Region} (hq : q = m.map label) :
    Attributes q s.lift (within label m s) := by
  rw [within, ← hq]
  apply Yields.of_only
  intro t ok ht e he
  have horiginal := only_isOriginal s hs t ok ht e he
  exact ⟨horiginal.measure q, horiginal.credit q⟩

theorem attributes_event {e : Event PapiFn} (h : e.IsOriginal) (q : Option Region) :
    Yields Event.measure Event.credit q (done [e]) q (done [(e, q)]) := by
  have hevent : Yields Event.measure Event.credit q (done [e]) q (done (Event.credit q e).toList) :=
    Yields.event (h.measure q)
  rwa [h.credit q] at hevent

theorem attributes_branch (c : Expr Empty) (taken : Bool) (q : Option Region) :
    Yields Event.measure Event.credit q (done [.branch c.lift taken]) q
      (done [(.branch c.lift taken, q)]) :=
  attributes_event ⟨rfl, rfl⟩ q

/-! ### Calls around a statement -/

namespace Attributes

variable {q q' : Option Region} {r n n' : Stmt PapiFn} {R : Behaviour (Event PapiFn × Option Region)}

theorem call {fn : PapiFn} {args : List (Expr PapiFn)} {c : PapiCall} (hfn : fn.decode args = some c)
    (hc : ProfHalide.measure q c = some q') :
    Event.measure q (.call fn args) = some q' ∧ Event.credit q (.call fn args) = none := by
  refine ⟨?_, by cases q <;> rfl⟩
  rw [Event.measure, Event.papiCall, hfn]
  exact hc

/-- A statement between two calls, which is measured as they say. -/
theorem bracket {c c' : PapiCall} {fn fn' : PapiFn} {args args' : List (Expr PapiFn)}
    (hfn : fn.decode args = some c) (hfn' : fn'.decode args' = some c')
    (hopen : ProfHalide.measure q c = some q') (hclose : ProfHalide.measure q' c' = some q)
    (hr : Attributes q' r R) :
    Attributes q (.blockOf [.evaluate (.call fn args), r] (.evaluate (.call fn' args'))) R := by
  obtain ⟨hnext, hemit⟩ := call hfn hopen
  obtain ⟨hnext', hemit'⟩ := call hfn' hclose
  rw [Attributes, Stmt.blockOf_cons, Stmt.blockOf_cons, Stmt.blockOf_nil, Stmt.exec_blockMake,
    Stmt.exec_blockMake, Stmt.exec_evaluate_call, Stmt.exec_evaluate_call]
  exact Yields.between hnext hemit hr hnext' hemit'

/-- A call that measures nothing. -/
theorem quietCall {c : PapiCall} {fn : PapiFn} {args : List (Expr PapiFn)}
    (hfn : fn.decode args = some c) (hmark : c.isMark = false) (hr : Attributes q r R) :
    Attributes q (.blockMake (.evaluate (.call fn args)) r) R := by
  obtain ⟨hnext, hemit⟩ := call hfn (measure_of_not_isMark hmark q)
  have hseq := (Yields.skip hnext hemit).seq hr
  rw [seq_done_nil] at hseq
  rwa [Attributes, Stmt.exec_blockMake, Stmt.exec_evaluate_call]

theorem countBody (forType : ForType) (api : DeviceAPI) (hr : Attributes q r R) :
    Attributes q (countBody forType api r) R := by
  unfold ProfHalide.countBody
  split
  · exact bracket rfl rfl (measure_of_not_isMark rfl q) (measure_of_not_isMark rfl q) hr
  · exact hr

theorem bracketLaunch (forType : ForType) (api : DeviceAPI) (hr : Attributes q r R) :
    Attributes q (bracketLaunch forType api r) R := by
  have hquiet : ∀ {c : PapiCall}, c.isMark = false → ProfHalide.measure q c = some q :=
    fun h => measure_of_not_isMark h q
  unfold ProfHalide.bracketLaunch
  split
  · rw [launch_eq]
    exact bracket rfl rfl (hquiet rfl) (hquiet rfl) (bracket rfl rfl (hquiet rfl) (hquiet rfl) hr)
  · exact hr

end Attributes

/-! ### Nodes -/

section Node

variable {around : Option (String × Bool)} {m : Option RegionName} {st : InjectPAPIProfiling}
  {q : Option Region} {name : String} {isProducer : Bool} {idx : Nat} {body : Stmt PapiFn}
  {R : Behaviour (Event PapiFn × Option Region)}

theorem attributes_bracketBody
    (hbody : Attributes (some (st.region name isProducer idx)) body R) :
    Attributes none (bracketBody true name isProducer idx body st).1 R := by
  unfold bracketBody
  unfold InjectPAPIProfiling.region at hbody
  rw [if_pos rfl]
  split
  case isTrue h =>
    rw [if_pos h] at hbody
    exact Attributes.bracket rfl rfl rfl (if_pos rfl) hbody
  case isFalse h =>
    rw [if_neg h] at hbody
    rw [getFuncId_eq]
    exact Attributes.bracket (decode_enterCurrentFunc _ _) (decode_leaveCurrentFunc _ _) rfl
      (if_pos rfl) hbody

/-- A profiled node, in a state in which its body has been mutated: at top level nothing is being
measured around it, and inside a produce node the overhead of that one. -/
theorem attributes_profiledNode (hat : At around (RegionName.slot m) st q)
    (hslot : RegionName.slot m = around.elim .idle (.overhead ·.1))
    (hbody : Attributes (some (st.region name isProducer idx)) body R) :
    Attributes q
      (bracketNode true (.producerConsumer name isProducer (.blockMake (setCurrentFunc idx)
        (bracketBody true name isProducer idx body st).1)) st).1 R := by
  have hnode : Attributes none (.producerConsumer name isProducer (.blockMake (setCurrentFunc idx)
      (bracketBody true name isProducer idx body st).1)) R :=
    Attributes.quietCall rfl rfl (attributes_bracketBody hbody)
  have hq := hat.slot
  rw [hslot] at hq
  cases around with
  | none =>
    rw [bracketNode_top hat.enclosed]
    have hidle : q = none := hq
    rw [hidle]
    exact hnode
  | some func =>
    obtain ⟨i, hi, rfl⟩ := hq
    obtain ⟨i', rest, threads, others, hi', hstack, _, hprofile⟩ := hat.enclosed
    have heq : i' = i := Option.some.inj (hi'.symm.trans hi)
    have hback : st.stackBack.1 = i := by rw [stackBack_fst, hstack, heq, List.headD_cons]
    unfold bracketNode
    simp only [hprofile, List.isEmpty_cons, Bool.not_false, Bool.and_true, if_true, hback]
    exact Attributes.bracket rfl rfl (if_pos rfl) rfl hnode

end Node

/-! ### Whole statements -/

section Mutate

variable (defs : List ProfilerDef) (loopDefs : List ProfilerLoop) {ids loops : Std.TreeMap String Nat}

theorem slot_ofNode (name : String) (isProducer : Bool) (body : Stmt Empty) :
    RegionName.slot (some (.ofNode name isProducer body)) =
      if isProducer && childrens (normalizeName name) true 0 body > 0 then
        .overhead (normalizeName name) else .busy := by
  unfold RegionName.ofNode
  split <;> rfl

/-- The numbers that a profiled node is measured under are those that its func ends up with. -/
theorem region_ofNode {st after : InjectPAPIProfiling} {name : String} {isProducer : Bool} {idx : Nat}
    {body : Stmt Empty} (his : Slot.Is st.indices (some (after.region name isProducer idx))
      (RegionName.slot (some (.ofNode name isProducer body))))
    (hbefore : ∀ (f : String) (i : Nat), st.indices[f]? = some i → ids[f]? = some i)
    (hafter : ∀ (f : String) (i : Nat), (withFunc after.indices name)[f]? = some i → ids[f]? = some i) :
    after.region name isProducer idx = (RegionName.ofNode name isProducer body).region ids loops := by
  have hfunc := hafter _ _ (withFunc_getElem? after.indices name)
  unfold RegionName.ofNode at his ⊢
  split at his
  case isTrue h =>
    obtain ⟨i, hi, hregion⟩ := his
    rw [Option.some.inj hregion, if_pos h, RegionName.region, hbefore _ i hi, Option.getD_some]
  case isFalse h =>
    obtain ⟨r, hr, hne⟩ := his
    rw [if_neg h, RegionName.region, hfunc, Option.getD_some]
    rw [← Option.some.inj hr] at hne
    unfold InjectPAPIProfiling.region at hne ⊢
    split
    case isTrue hover =>
      rw [if_pos hover] at hne
      exact absurd rfl (hne idx)
    case isFalse => rfl

theorem attributes_visitForBody (forType : ForType) {api : DeviceAPI} {opBody : Stmt Empty}
    (hclean : opBody.Clean) (hhost : api ≠ .hexagon) {mutateBody : Mutation}
    {st : InjectPAPIProfiling} {label : RegionName → Region} {m : Option RegionName}
    {q : Option Region} (hq : q = m.map label) {R : Behaviour (Event PapiFn × Option Region)}
    (h : api.isGpu = false → Attributes q (mutateBody st).1 R) :
    Attributes q (visitForBody forType api opBody mutateBody st).1
      (if api.isGpu then within label m opBody else R) := by
  cases api with
  | hexagon => exact absurd rfl hhost
  | none => exact (h rfl).countBody forType .none
  | host => exact (h rfl).countBody forType .host
  | _ => exact attributes_lift hclean hq

theorem attributes_for {x : String} {min extent : Expr Empty} {forType : ForType} {api : DeviceAPI}
    {r : Stmt PapiFn} {q : Option Region} {R : Behaviour (Event PapiFn × Option Region)}
    (hr : Attributes q r R) :
    Attributes q (.for_ x min.lift extent.lift forType api r)
      (loop (fun n => [(.loop x min.lift extent.lift n, q)]) R) := by
  rw [Attributes, Stmt.exec]
  exact Yields.loop (fun n => attributes_event ⟨rfl, rfl⟩ q) hr

variable (ids loops) in
/-- The numbers that funcs and loops get while a statement is mutated are those of the maps. -/
structure FinalNumbers (st : InjectPAPIProfiling) (s : Stmt Empty) : Prop where
  ids : ∀ (f : String) (i : Nat), (mutate defs loopDefs s st).2.indices[f]? = some i → ids[f]? = some i
  loops : ∀ p ∈ assign st.loops (profiledLoops loopDefs s), loops[p.2]? = some p.1

variable {defs loopDefs} in
/-- One statement is mutated after another. -/
theorem FinalNumbers.pair {st : InjectPAPIProfiling} {s a b : Stmt Empty}
    (h : FinalNumbers defs loopDefs ids loops st s)
    (hindices : (mutate defs loopDefs s st).2.indices =
      (mutate defs loopDefs b (mutate defs loopDefs a st).2).2.indices)
    (hprofiled : profiledLoops loopDefs s = profiledLoops loopDefs a ++ profiledLoops loopDefs b) :
    FinalNumbers defs loopDefs ids loops st a ∧
      FinalNumbers defs loopDefs ids loops (mutate defs loopDefs a st).2 b := by
  have hframe := mutate_frame defs loopDefs b (mutate defs loopDefs a st).2
  have hloops := h.loops
  rw [hprofiled, assign_append, ← mutate_loops defs] at hloops
  refine ⟨⟨fun f i hf => h.ids f i ?_, fun p hp => hloops p (List.mem_append_left _ hp)⟩,
    ⟨fun f i hf => h.ids f i ?_, fun p hp => hloops p (List.mem_append_right _ hp)⟩⟩
  · rw [hindices]
    exact hframe.known hf
  · rwa [hindices]

/-- Around the mutation of its body a node touches neither the numbers nor the count of children. -/
theorem visitedBody_state (name : String) (isProducer : Bool) (body : Stmt Empty)
    (st : InjectPAPIProfiling) :
    let after := (visitedBody defs name isProducer (mutate defs loopDefs body) st).2.2
    let mutated := (mutate defs loopDefs body (beforeBody defs name isProducer st)).2
    after.indices = mutated.indices ∧ after.funcChildrens = mutated.funcChildrens := by
  obtain ⟨_, hafter⟩ := visitedBody_snd defs name isProducer (mutate defs loopDefs body) st
  simp only [hafter]
  cases isProducer <;> exact ⟨rfl, rfl⟩

namespace FinalNumbers

variable {defs loopDefs} {st : InjectPAPIProfiling} {name : String} {isProducer : Bool}
  {body : Stmt Empty}

/-- A node's func is numbered once its body has been mutated. -/
theorem withFunc
    (h : FinalNumbers defs loopDefs ids loops st (.producerConsumer name isProducer body))
    {f : String} {i : Nat}
    (hf : (ProfHalide.withFunc
      (visitedBody defs name isProducer (mutate defs loopDefs body) st).2.2.indices name)[f]? = some i) :
    ids[f]? = some i := by
  rw [(visitedBody_state defs loopDefs name isProducer body st).1] at hf
  exact h.ids f i (by rw [mutate_producerConsumer_indices]; exact hf)

theorem nodeBody
    (h : FinalNumbers defs loopDefs ids loops st (.producerConsumer name isProducer body)) :
    FinalNumbers defs loopDefs ids loops (beforeBody defs name isProducer st) body where
  ids f i hf := by
    rw [← (visitedBody_state defs loopDefs name isProducer body st).1] at hf
    exact h.withFunc (getElem?_withFunc_of_some name hf)
  loops p hp := by
    refine h.loops p ?_
    rwa [profiledLoops, ← beforeBody_loops defs name isProducer st]

end FinalNumbers

variable (ids loops) in
/-- What the mutator returns for a statement is measured as the source says, wherever it stands. -/
def MeasuredAsSaid (s : Stmt Empty) : Prop :=
  ∀ ⦃around : Option (String × Bool)⦄ ⦃m : Option RegionName⦄ ⦃st : InjectPAPIProfiling⦄
    ⦃q : Option Region⦄, s.Clean → s.onHost = true →
    neverNests defs loopDefs around (RegionName.slot m) s = true →
    At around (RegionName.slot m) st q → q = m.map (·.region ids loops) →
    FinalNumbers defs loopDefs ids loops st s →
    Attributes q (mutate defs loopDefs s st).1
      (attributed defs loopDefs (·.region ids loops) around m s)

namespace MeasuredAsSaid

variable {defs loopDefs} {around : Option (String × Bool)} {m : Option RegionName}
  {st : InjectPAPIProfiling} {q : Option Region}

theorem scope {h : Scope Empty} {body : Stmt Empty}
    (ih : MeasuredAsSaid defs loopDefs ids loops body) :
    MeasuredAsSaid defs loopDefs ids loops (.scope h body) := by
  intro around m st q hs hhost hnests hat hq hnumbers
  have henter := isOriginal_enter fun x hx => hs x (List.mem_append_left _ hx)
  have hbody := ih (fun x hx => hs x (List.mem_append_right _ hx)) hhost hnests hat hq
    ⟨hnumbers.ids, hnumbers.loops⟩
  rw [Attributes, mutate, Stmt.exec, Scope.events_lift, attributed, ← hq]
  exact (attributes_event henter q).seq hbody

/-- Two statements of which one is mutated after the other, whatever node they are parts of. -/
theorem pair {a b : Stmt Empty} (iha : MeasuredAsSaid defs loopDefs ids loops a)
    (ihb : MeasuredAsSaid defs loopDefs ids loops b) (hsa : a.Clean) (hsb : b.Clean)
    (hhost : (a.onHost && b.onHost) = true)
    (hnests : (neverNests defs loopDefs around (RegionName.slot m) a &&
      neverNests defs loopDefs around (RegionName.slot m) b) = true)
    (hat : At around (RegionName.slot m) st q) (hq : q = m.map (·.region ids loops))
    (hnumbers : FinalNumbers defs loopDefs ids loops st a ∧
      FinalNumbers defs loopDefs ids loops (mutate defs loopDefs a st).2 b) :
    Attributes q (mutate defs loopDefs a st).1
        (attributed defs loopDefs (·.region ids loops) around m a) ∧
      Attributes q (mutate defs loopDefs b (mutate defs loopDefs a st).2).1
        (attributed defs loopDefs (·.region ids loops) around m b) := by
  obtain ⟨hhosta, hhostb⟩ := Bool.and_eq_true_iff.mp hhost
  obtain ⟨hnestsa, hnestsb⟩ := Bool.and_eq_true_iff.mp hnests
  have hatb := hat.frame (mutate_frame defs loopDefs a st)
  exact ⟨iha hsa hhosta hnestsa hat hq hnumbers.1, ihb hsb hhostb hnestsb hatb hq hnumbers.2⟩

theorem block {a b : Stmt Empty} (iha : MeasuredAsSaid defs loopDefs ids loops a)
    (ihb : MeasuredAsSaid defs loopDefs ids loops b) :
    MeasuredAsSaid defs loopDefs ids loops (.block a b) := by
  intro around m st q hs hhost hnests hat hq hnumbers
  obtain ⟨ha, hb⟩ := pair iha ihb (fun x hx => hs x (List.mem_append_left _ hx))
    (fun x hx => hs x (List.mem_append_right _ hx)) hhost hnests hat hq (hnumbers.pair rfl rfl)
  rw [Attributes, mutate, Stmt.exec_blockMake]
  exact ha.seq hb

theorem fork {a b : Stmt Empty} (iha : MeasuredAsSaid defs loopDefs ids loops a)
    (ihb : MeasuredAsSaid defs loopDefs ids loops b) :
    MeasuredAsSaid defs loopDefs ids loops (.fork a b) := by
  intro around m st q hs hhost hnests hat hq hnumbers
  obtain ⟨ha, hb⟩ := pair iha ihb (fun x hx => hs x (List.mem_append_left _ hx))
    (fun x hx => hs x (List.mem_append_right _ hx)) hhost hnests hat hq (hnumbers.pair rfl rfl)
  exact ha.seq hb

theorem ifThen {c : Expr Empty} {t : Stmt Empty} (ih : MeasuredAsSaid defs loopDefs ids loops t) :
    MeasuredAsSaid defs loopDefs ids loops (.ifThen c t) := by
  intro around m st q hs hhost hnests hat hq hnumbers
  have ht := ih (fun x hx => hs x (List.mem_append_right _ hx)) hhost hnests hat hq
    ⟨hnumbers.ids, hnumbers.loops⟩
  rw [Attributes, mutate, Stmt.exec, attributed, ← hq]
  exact ((attributes_branch c true q).seq ht).either (attributes_branch c false q)

theorem ifThenElse {c : Expr Empty} {t e : Stmt Empty}
    (iht : MeasuredAsSaid defs loopDefs ids loops t)
    (ihe : MeasuredAsSaid defs loopDefs ids loops e) :
    MeasuredAsSaid defs loopDefs ids loops (.ifThenElse c t e) := by
  intro around m st q hs hhost hnests hat hq hnumbers
  obtain ⟨ht, he⟩ := pair iht ihe (fun x hx => hs x (by simp [Stmt.names, hx]))
    (fun x hx => hs x (by simp [Stmt.names, hx])) hhost hnests hat hq (hnumbers.pair rfl rfl)
  rw [Attributes, mutate, Stmt.exec, attributed, ← hq]
  exact ((attributes_branch c true q).seq ht).either ((attributes_branch c false q).seq he)

/-- A loop before the mutator brackets it, whatever is being measured around it. -/
theorem visitedFor {name : String} {min extent : Expr Empty} {forType : ForType} {api : DeviceAPI}
    {body : Stmt Empty} (ih : MeasuredAsSaid defs loopDefs ids loops body)
    (hs : body.Clean) (hhost : (api != .hexagon && (api.isGpu || body.onHost)) = true)
    (hnests : (api.isGpu || neverNests defs loopDefs around (RegionName.slot m) body) = true)
    (hat : At around (RegionName.slot m) st q) (hq : q = m.map (·.region ids loops))
    (hnumbers : FinalNumbers defs loopDefs ids loops st
      (.for_ name min extent forType api body)) :
    Attributes q
      (.for_ name min.lift extent.lift forType api
        (visitForBody forType api body (mutate defs loopDefs body) st).1)
      (loop (fun n => [(.loop name min.lift extent.lift n, m.map (·.region ids loops))])
        (if api.isGpu then within (·.region ids loops) m body
          else attributed defs loopDefs (·.region ids loops) around m body)) := by
  obtain ⟨hapi, hbodyhost⟩ := Bool.and_eq_true_iff.mp hhost
  rw [← hq]
  refine attributes_for (attributes_visitForBody forType hs (by simpa using hapi) hq ?_)
  intro hgpu
  rw [hgpu, Bool.false_or] at hnests hbodyhost
  refine ih hs hbodyhost hnests hat hq ⟨fun f i hf => hnumbers.ids f i ?_, fun p hp =>
    hnumbers.loops p ?_⟩
  · rw [mutate_for_indices, hgpu]
    exact hf
  · rw [profiledLoops, hgpu, assign_append]
    exact List.mem_append_left _ hp

theorem for_ {name : String} {min extent : Expr Empty} {forType : ForType} {api : DeviceAPI}
    {body : Stmt Empty} (ih : MeasuredAsSaid defs loopDefs ids loops body) :
    MeasuredAsSaid defs loopDefs ids loops (.for_ name min extent forType api body) := by
  intro around m st q hs hhost hnests hat hq hnumbers
  have hclean : body.Clean := fun x hx => hs x (by simp [Stmt.names, hx])
  obtain ⟨hidle, hbodynests⟩ := Bool.and_eq_true_iff.mp hnests
  let inside := (visitForBody forType api body (mutate defs loopDefs body) st).2
  have hinside : inside.loops =
      register st.loops (if api.isGpu then [] else profiledLoops loopDefs body) := by
    change (visitForBody forType api body (mutate defs loopDefs body) st).2.loops = _
    rw [visitForBody_snd]
    cases api.isGpu with
    | true => rfl
    | false => exact mutate_loops defs loopDefs body st
  rw [mutate, visitFor_fst, attributed]
  refine Attributes.bracketLaunch forType api ?_
  unfold bracketLoop
  cases hfind : loopDefs.find? fun l => l.matches name with
  | none =>
    have hany : loopDefs.any (·.matches name) = false := by
      rw [← List.isSome_find?, hfind]
      rfl
    rw [hany] at hbodynests ⊢
    exact visitedFor ih hclean hhost hbodynests hat hq hnumbers
  | some it =>
    have hany : loopDefs.any (·.matches name) = true := by
      rw [← List.isSome_find?, hfind]
      rfl
    rw [hany] at hidle hbodynests ⊢
    have hbusy : At around .busy st (some (.loop inside.loops.size)) :=
      ⟨hat.numbered, hat.top, hat.enclosed, _, rfl, by simp⟩
    have hslot : RegionName.slot m = .idle := by simpa using hidle
    have hnone : q = none := by
      have his := hat.slot
      rwa [hslot] at his
    have hid : loops[name]? = some inside.loops.size := by
      refine hnumbers.loops (inside.loops.size, name) ?_
      rw [profiledLoops, hany, if_pos rfl, assign_append, ← hinside]
      exact List.mem_append_right _ List.mem_cons_self
    have hregion : some (.loop inside.loops.size) =
        (some (RegionName.loop name)).map (·.region ids loops) := by
      rw [Option.map_some, RegionName.region, hid, Option.getD_some]
    rw [hnone]
    exact Attributes.bracket rfl rfl rfl (if_pos rfl)
      (visitedFor (m := some (.loop name)) ih hclean hhost hbodynests hbusy hregion hnumbers)

/-- A profiled node is measured under the number of the region that the source names. -/
theorem region_node {name : String} {isProducer : Bool} {body : Stmt Empty}
    (hat : At around (RegionName.slot m) st q)
    (hnumbers : FinalNumbers defs loopDefs ids loops st (.producerConsumer name isProducer body)) :
    let visited := visitedBody defs name isProducer (mutate defs loopDefs body) st
    let region := visited.2.2.region name isProducer visited.1
    (RegionName.slot (some (.ofNode name isProducer body))).Is
        (beforeBody defs name isProducer st).indices (some region) ∧
      region = (RegionName.ofNode name isProducer body).region ids loops := by
  intro visited region
  obtain ⟨hindices, hcount⟩ := visitedBody_state defs loopDefs name isProducer body st
  have hframe := mutate_frame defs loopDefs body (beforeBody defs name isProducer st)
  have hidx : isProducer = true → visited.1 = funcId st.indices name := by
    intro hp
    rw [visitedBody_fst, if_pos hp]
  have his := region_is defs loopDefs body hat.numbered hat.stack_ne_nil hidx hcount
  rw [← slot_ofNode] at his
  refine ⟨his, region_ofNode his (fun f i hf => hnumbers.withFunc ?_) fun f i => hnumbers.withFunc⟩
  rw [hindices]
  exact getElem?_withFunc_of_some name (hframe.known hf)

theorem producerConsumer {name : String} {isProducer : Bool} {body : Stmt Empty}
    (ih : MeasuredAsSaid defs loopDefs ids loops body) :
    MeasuredAsSaid defs loopDefs ids loops (.producerConsumer name isProducer body) := by
  intro around m st q hs hhost hnests hat hq hnumbers
  have hregistration : registration defs name isProducer st =
      defs.find? fun d => d.matches name isProducer (around.elim "overhead" (·.1)) := by
    rw [registration, hat.parentName_eq]
  let it := registration defs name isProducer st
  let after := (visitedBody defs name isProducer (mutate defs loopDefs body) st).2.2
  have hframe := mutate_frame defs loopDefs body (beforeBody defs name isProducer st)
  have hnode : At around (RegionName.slot m) after q :=
    hat.frame (visitedBody_frame defs name isProducer hframe)
  have hbody := hnumbers.nodeBody
  rw [neverNests, ← hregistration] at hnests
  rw [mutate, visitProducerConsumer_eq, finishNode_fst, inherit_fst, hnode.any_profileStack,
    visitedBody_body, attributed, ← hregistration]
  cases hprofiled : it.any (·.enable) || (it.isNone && around.any (·.2)) with
  | false =>
    have hslot : (RegionName.slot m).Is (beforeBody defs name isProducer st).indices q := by
      refine hat.slot.mono fun hf => ?_
      rw [beforeBody_indices]
      split
      · exact getElem?_withFunc_of_some name hf
      · exact hf
    simp only [registeredStatus, it] at hprofiled ⊢
    rw [hprofiled] at hnests ⊢
    exact Attributes.quietCall rfl rfl
      (ih hs hhost hnests (hat.beforeBody defs name isProducer hslot) hq hbody)
  | true =>
    simp only [registeredStatus, it] at hprofiled ⊢
    rw [hprofiled, if_pos rfl] at hnests
    rw [hprofiled]
    obtain ⟨hopen, hinner⟩ := Bool.and_eq_true_iff.mp hnests
    rw [← slot_ofNode] at hinner
    obtain ⟨his, hregion⟩ := region_node hat hnumbers
    have hmeasured := ih hs hhost hinner (hat.beforeBody defs name isProducer his)
      (m := some (.ofNode name isProducer body)) (by rw [hregion]; rfl) hbody
    exact attributes_profiledNode hnode (by simpa using hopen) hmeasured

end MeasuredAsSaid

theorem measuredAsSaid (s : Stmt Empty) : MeasuredAsSaid defs loopDefs ids loops s := by
  induction s with
  | leaf l =>
    intro around m st q hs _ _ _ hq _
    exact attributes_lift hs hq
  | scope h body ih => exact ih.scope
  | producerConsumer name isProducer body ih => exact ih.producerConsumer
  | for_ name min extent forType api body ih => exact ih.for_
  | block a b iha ihb => exact iha.block ihb
  | fork a b iha ihb => exact iha.fork ihb
  | ifThen c t ih => exact ih.ifThen
  | ifThenElse c t e iht ihe => exact iht.ifThenElse ihe

/-- What the mutator returns is measured as the source says. -/
theorem mutate_attributes (s : Stmt Empty) {around : Option (String × Bool)} {m : Option RegionName}
    {st : InjectPAPIProfiling} {q : Option Region} (hs : s.Clean) (hhost : s.onHost = true)
    (hnests : neverNests defs loopDefs around (RegionName.slot m) s = true)
    (hat : At around (RegionName.slot m) st q) (hq : q = m.map (·.region ids loops))
    (hnumbers : FinalNumbers defs loopDefs ids loops st s) :
    Attributes q (mutate defs loopDefs s st).1
      (attributed defs loopDefs (·.region ids loops) around m s) :=
  measuredAsSaid defs loopDefs s hs hhost hnests hat hq hnumbers

end Mutate

/-! ### The prologue -/

namespace Attributes

variable {r n : Stmt PapiFn} {R : Behaviour (Event PapiFn × Option Region)}

/-- An event of the profiler while nothing is measured. -/
theorem hidden {e : Event PapiFn} (hcall : e.papiCall.elim true (!·.isMark)) (herase : e.erase = none) :
    Yields Event.measure Event.credit none (done [e]) none (done []) := by
  apply Yields.skip
  · rw [Event.measure]
    cases hc : e.papiCall with
    | none => rfl
    | some c =>
      rw [hc] at hcall
      exact measure_of_not_isMark (by simpa using hcall) none
  · rw [Event.credit, herase]
    rfl

theorem inScope {h : Scope PapiFn} (hcall : h.papiCall.elim true (!·.isMark))
    (hinjected : h.isInjected = true) (hr : Attributes none r R) : Attributes none (.scope h r) R := by
  have henter : Yields Event.measure Event.credit none (done [.enter h]) none (done []) :=
    hidden rfl (by rw [Event.erase, hinjected]; rfl)
  have hevents : Yields Event.measure Event.credit none (done h.events) none (done []) := by
    cases h with
    | letStmt x v =>
      cases v with
      | call fn args =>
        have hboth := (hidden (e := .call fn args) hcall rfl).seq henter
        rwa [done_seq_done, seq_done_nil] at hboth
      | _ => exact henter
    | _ => exact henter
  rw [Attributes, Stmt.exec, ← seq_done_nil R]
  exact hevents.seq hr

theorem hiddenLeaf {l : Leaf PapiFn} (hinjected : l.isInjected = true) (hexec : l.exec = done [.exec l]) :
    Attributes none (.leaf l) (done []) := by
  rw [Attributes, Stmt.exec, hexec]
  exact hidden rfl (by rw [Event.erase, hinjected]; rfl)

theorem before (hn : Attributes none n (done [])) (hr : Attributes none r R) :
    Attributes none (.blockMake n r) R := by
  rw [Attributes, Stmt.exec_blockMake, ← seq_done_nil R]
  exact hn.seq hr

theorem after (hr : Attributes none r R) (hn : Attributes none n (done [])) :
    Attributes none (.blockMake r n) R := by
  rw [Attributes, Stmt.exec_blockMake, ← seq_nil_right R]
  exact hr.seq hn

theorem fillTable {α : Type} {table : String} (htable : startsWith table "profiling_" = true)
    (index : α → Nat) (value : α → Expr PapiFn) (entries : List α) (hr : Attributes none r R) :
    Attributes none (fillTable table index value entries r) R := by
  induction entries generalizing r with
  | nil => exact hr
  | cons p entries ih =>
    have hstore : Attributes none (.leaf (.store table (value p) (.intImm (index p)) (makeBool true)))
        (Behaviour.done []) := hiddenLeaf htable rfl
    exact ih (before hstore hr)

/-- The assertion on the token lets the program go on or ends it. -/
theorem checked (hr : Attributes none r R) : Attributes none
    (.blockMake (.leaf (.assertStmt (.op ">=" [profilerToken, .intImm 0]) profilerToken)) r)
    (either R (Behaviour.cut [(tokenFails, none)])) := by
  let l : Leaf PapiFn := .assertStmt (.op ">=" [profilerToken, .intImm 0]) profilerToken
  have hfails : Yields Event.measure Event.credit none (Behaviour.cut [tokenFails]) none
      (Behaviour.cut [(tokenFails, none)]) := Yields.cut rfl
  have hassert : Attributes none (.leaf l)
      (either (Behaviour.done []) (Behaviour.cut [(tokenFails, none)])) :=
    (hidden (e := .exec l) rfl rfl).either hfails
  have heq : either R (Behaviour.cut [(tokenFails, none)]) =
      seq (either (Behaviour.done []) (Behaviour.cut [(tokenFails, none)])) R := by
    ext u ok
    constructor
    · rintro (h | ⟨rfl, rfl⟩)
      · exact Or.inl ⟨[], u, Or.inl ⟨rfl, rfl⟩, h, rfl⟩
      · exact Or.inr ⟨Or.inr ⟨rfl, rfl⟩, rfl⟩
    · rintro (⟨v, w, ⟨rfl, _⟩ | ⟨_, hfalse⟩, hw, rfl⟩ | ⟨⟨_, hfalse⟩ | hcut, rfl⟩)
      · exact Or.inl hw
      · cases hfalse
      · cases hfalse
      · exact Or.inr hcut
  rw [Attributes, Stmt.exec_blockMake, heq]
  exact hassert.seq hr

end Attributes

section Inject

variable {defs : List ProfilerDef} {loopDefs : List ProfilerLoop} {s : Stmt Empty}

theorem numbers_init (hloops : (profiledLoops loopDefs s).Nodup) :
    FinalNumbers defs loopDefs (mutate defs loopDefs s init).2.indices
      (mutate defs loopDefs s init).2.loops init s where
  ids _ _ h := h
  loops := by
    rw [mutate_loops]
    exact register_of_mem_assign ((fresh_init_iff loopDefs s).mpr hloops)

/-- Without its annotations the schedule's reading is the program. -/
theorem image_fst_attributed {ρ : Type} (label : RegionName → ρ) (around : Option (String × Bool))
    (m : Option RegionName) (s : Stmt Empty) :
    (attributed defs loopDefs label around m s).image (fun e => some e.1) = (Stmt.lift s).exec := by
  have hwithin : ∀ (m : Option RegionName) (s : Stmt Empty),
      (within label m s).image (fun e => some e.1) = (Stmt.lift s).exec := by
    intro m s
    ext t ok
    constructor
    · rintro ⟨_, ⟨t, ht, rfl⟩, rfl⟩
      simpa [List.filterMap_filterMap] using ht
    · intro ht
      exact ⟨_, ⟨t, ht, rfl⟩, by simp⟩
  induction s generalizing around m with
  | leaf l => exact hwithin m (.leaf l)
  | scope h body ih =>
    change _ = seq (done h.lift.events) (Stmt.lift body).exec
    rw [attributed, image_seq, image_done, ih, Scope.events_lift]
    rfl
  | producerConsumer name isProducer body ih => exact ih _ _
  | for_ name min extent forType api body ih =>
    rw [attributed, image_loop]
    cases api.isGpu with
    | true =>
      rw [if_pos rfl, hwithin]
      rfl
    | false =>
      rw [if_neg Bool.false_ne_true, ih]
      rfl
  | block a b iha ihb | fork a b iha ihb =>
    rw [attributed, image_seq, iha, ihb]
    rfl
  | ifThen c t ih =>
    rw [attributed, image_either, image_seq, image_done, image_done, ih]
    rfl
  | ifThenElse c t e iht ihe =>
    rw [attributed, image_either, image_seq, image_seq, image_done, image_done, iht, ihe]
    rfl

theorem attributes_inject (hs : s.Clean) (hhost : s.onHost = true)
    (hnests : neverNests defs loopDefs none .idle s = true)
    (hloops : (profiledLoops loopDefs s).Nodup) (pipelineName : String) :
    Attributes none (injectPapiProfiling defs loopDefs s pipelineName)
      (either (attributed defs loopDefs (·.region (mutate defs loopDefs s init).2.indices
        (mutate defs loopDefs s init).2.loops) none none s) (cut [(tokenFails, none)])) := by
  have hmutated := mutate_attributes defs loopDefs s (m := none) (q := none) hs hhost hnests at_init
    rfl (numbers_init hloops)
  have hquiet : ∀ {c : PapiCall}, c.isMark = false → measure none c = some none :=
    fun h => measure_of_not_isMark h none
  have hincr : PapiFn.decode .incrActiveThreads [profilerState] = some .incrActiveThreads := rfl
  have hdecr : PapiFn.decode .decrActiveThreads [profilerState] = some .decrActiveThreads := rfl
  have hcounted := Attributes.bracket hincr hdecr (hquiet rfl) (hquiet rfl) hmutated
  have hstate := hcounted.inScope (h := .letStmt "profiler_pipeline_state"
    (.call .getPipelineState [.stringImm pipelineName])) rfl rfl
  have hchecked := (hstate.inScope (h := .letStmt "profiler_state" (.call .getState [])) rfl rfl).checked
  have hfree : ∀ {r : Stmt PapiFn} {R : Behaviour (Event PapiFn × Option Region)} {table : String},
      startsWith table "profiling_" = true → Attributes none r R →
      Attributes none (freeTable table r) R := fun htable hr => hr.after (.hiddenLeaf htable rfl)
  have halloc : ∀ {r : Stmt PapiFn} {R : Behaviour (Event PapiFn × Option Region)} {table : String}
      {size : Nat}, startsWith table "profiling_" = true → Attributes none r R →
      Attributes none (tableAllocate table size r) R := fun htable hr => hr.inScope rfl htable
  rw [inject_eq]
  apply Attributes.quietCall rfl rfl
  iterate 5 refine halloc (by decide) ?_
  iterate 5 refine hfree (by decide) ?_
  iterate 5 refine Attributes.fillTable (by decide) _ _ _ ?_
  exact hchecked.inScope rfl rfl

/-- Unless the profiler could not be started, the instrumented program does what the source does, and
measures every event of it as the source says. -/
theorem inject_attributes (hs : s.Clean) (hhost : s.onHost = true)
    (hnests : neverNests defs loopDefs none .idle s = true)
    (hloops : (profiledLoops loopDefs s).Nodup) (pipelineName : String) :
    let mutated := (mutate defs loopDefs s init).2
    let source := attributed defs loopDefs (·.region mutated.indices mutated.loops) none none s
    Attributes none (injectPapiProfiling defs loopDefs s pipelineName)
        (either source (cut [(tokenFails, none)])) ∧
      source.image (fun e => some e.1) = (Stmt.lift s).exec :=
  ⟨attributes_inject hs hhost hnests hloops pipelineName, image_fst_attributed _ _ _ s⟩

end Inject

/-- A loop that is measured, then a producer with another one inside. -/
def threeRegions : Stmt Empty :=
  .block
    (.producerConsumer "h" true (.for_ "h.s0.x" (.intImm 0) (.intImm 4) .serial .host
      (.leaf (.provide "h" [.intImm 1] [.variable "h.s0.x"]))))
    (.producerConsumer "f" true (.block
      (.producerConsumer "g" true (.leaf (.provide "g" [.intImm 2] [.intImm 0])))
      (.producerConsumer "g" false (.leaf (.provide "f" [.intImm 3] [.intImm 0])))))

def threeRegionsDefs : List ProfilerDef :=
  [profile "f" PROFILE_PRODUCTION false true,
    profile "g" (PROFILE_PRODUCTION ||| PROFILE_CONSUMPTION) false true]

theorem inject_attributes_threeRegions :
    let mutated := (mutate threeRegionsDefs [⟨"h", "x", false⟩] threeRegions init).2
    let source := attributed threeRegionsDefs [⟨"h", "x", false⟩]
      (·.region mutated.indices mutated.loops) none none threeRegions
    Attributes none (injectPapiProfiling threeRegionsDefs [⟨"h", "x", false⟩] threeRegions "p")
        (either source (cut [(tokenFails, none)])) ∧
      source.image (fun e => some e.1) = (Stmt.lift threeRegions).exec :=
  inject_attributes (by unfold Stmt.Clean; decide) (by decide) (by decide) (by decide) "p"

end ProfHalide
