import ProfHalide.Pass.FuncIds
import ProfHalide.Pass.Attribution
import ProfHalide.Runtime.Idle

/-!
# The calls of serial executions

What one thread calls while it carries out a statement stands in the text of the statement. Where no loop
runs on other threads, the pass writes markers only into the source, for funcs and loops that the start of
the pipeline announces; the reserved func is not among them unless a func has its name.
-/

namespace ProfHalide

open InjectPAPIProfiling Numbering Behaviour

/-! ### The calls of an execution -/

/-- An event is no call, or one that stands in the text. -/
def Event.InText (sites : List (PapiCall × Option String)) (e : Event PapiFn) : Prop :=
  ∀ c, e.papiCall = some c → ∃ next, (c, next) ∈ sites

theorem Event.InText.mono {sites sites' : List (PapiCall × Option String)} (h : sites ⊆ sites')
    {P : Behaviour (Event PapiFn)} (hP : Only (Event.InText sites) P) : Only (Event.InText sites') P := by
  intro t ok ht e he c hc
  obtain ⟨next, hnext⟩ := hP t ok ht e he c hc
  exact ⟨next, h hnext⟩

theorem Scope.events_inText (h : Scope PapiFn) {next : Option String} :
    ∀ e ∈ h.events, e.InText (h.papiCall.map (·, next)).toList := by
  intro e he c hc
  have hmem : c ∈ h.events.filterMap Event.papiCall := List.mem_filterMap.mpr ⟨e, he, hc⟩
  rw [Scope.filterMap_papiCall_events] at hmem
  exact ⟨next, by simpa using hmem⟩

theorem Stmt.exec_inText (s : Stmt PapiFn) (next : Option String) :
    Only (Event.InText (s.callSites next)) s.exec := by
  induction s generalizing next with
  | leaf l =>
    have hother : ∀ e : Event PapiFn, e.papiCall = none → e.InText ((Stmt.leaf l).callSites next) := by
      intro e he c hc
      rw [he] at hc
      cases hc
    cases l with
    | evaluate e =>
      cases e with
      | call fn args =>
        refine Only.done fun e he c hc => ⟨next, ?_⟩
        rw [List.mem_singleton.mp he] at hc
        rw [callSites, Leaf.papiCall]
        change fn.decode args = some c at hc
        rw [hc]
        exact List.mem_singleton.mpr rfl
      | _ => exact Only.done fun e he => hother e (by rw [List.mem_singleton.mp he]; rfl)
    | assertStmt c m =>
      exact (Only.done fun e he => hother e (by rw [List.mem_singleton.mp he]; rfl)).either
        (Only.cut fun e he => hother e (by rw [List.mem_singleton.mp he]; rfl))
    | _ => exact Only.done fun e he => hother e (by rw [List.mem_singleton.mp he]; rfl)
  | scope h body ih =>
    exact (Event.InText.mono (List.subset_append_left _ _) (Only.done h.events_inText)).seq
      (Event.InText.mono (List.subset_append_right _ _) (ih next))
  | producerConsumer _ _ body ih => exact ih next
  | for_ name min extent forType api body ih =>
    refine (ih none).loop fun n e he c hc => ?_
    rw [List.mem_singleton.mp he] at hc
    cases hc
  | block a b iha ihb =>
    exact (Event.InText.mono (List.subset_append_left _ _) (iha _)).seq
      (Event.InText.mono (List.subset_append_right _ _) (ihb next))
  | fork a b iha ihb =>
    exact (Event.InText.mono (List.subset_append_left _ _) (iha none)).seq
      (Event.InText.mono (List.subset_append_right _ _) (ihb none))
  | ifThen c t ih =>
    have hbranch : ∀ taken sites, ∀ e ∈ [(Event.branch c taken : Event PapiFn)], e.InText sites := by
      simp [Event.InText, Event.papiCall]
    exact ((Only.done (hbranch true _)).seq (ih next)).either (Only.done (hbranch false _))
  | ifThenElse c t e iht ihe =>
    have hbranch : ∀ taken sites, ∀ e ∈ [(Event.branch c taken : Event PapiFn)], e.InText sites := by
      simp [Event.InText, Event.papiCall]
    exact ((Only.done (hbranch true _)).seq
        (Event.InText.mono (List.subset_append_left _ _) (iht next))).either
      ((Only.done (hbranch false _)).seq (Event.InText.mono (List.subset_append_right _ _) (ihe next)))

theorem CallsOnly.papiTrace {p : PapiCall → Prop} {r : Stmt PapiFn} (h : CallsOnly p r) :
    Only p r.papiTrace := by
  rintro _ ok ⟨t, ht, rfl⟩ c hc
  obtain ⟨e, he, hcall⟩ := List.mem_filterMap.mp hc
  obtain ⟨next, hsite⟩ := r.exec_inText none t ok ht e he c hcall
  exact h none _ hsite

/-! ### Statements on one thread -/

/-- No loop that the mutator enters runs its iterations on other threads, and nothing is forked. -/
def Stmt.serial {κ : Type} : Stmt κ → Bool
  | .leaf _ => true
  | .scope _ body | .producerConsumer _ _ body | .ifThen _ body => body.serial
  | .for_ _ _ _ forType api body => !updateActiveThreads forType api && (api.isGpu || body.serial)
  | .block a b | .ifThenElse _ a b => a.serial && b.serial
  | .fork _ _ => false

theorem Stmt.onHost_of_serial {κ : Type} {s : Stmt κ} (h : s.serial = true) : s.onHost = true := by
  induction s with
  | leaf l => rfl
  | scope _ body ih | producerConsumer _ _ body ih | ifThen _ body ih => exact ih h
  | for_ name min extent forType api body ih =>
    rw [serial, Bool.and_eq_true, Bool.or_eq_true, Bool.not_eq_true'] at h
    rw [onHost, Bool.and_eq_true, Bool.or_eq_true, bne_iff_ne]
    refine ⟨?_, h.2.imp_right ih⟩
    rintro rfl
    cases h.1
  | block a b iha ihb | ifThenElse _ a b iha ihb =>
    rw [serial, Bool.and_eq_true] at h
    rw [onHost, iha h.1, ihb h.2]
    rfl
  | fork a b => cases h

/-- Only markers are called. -/
abbrev MarksOnly (r : Stmt PapiFn) : Prop := CallsOnly (fun c => c.isMarker = true) r

namespace MarksOnly

variable {r r' : Stmt PapiFn}

theorem call {fn : PapiFn} {args : List (Expr PapiFn)} {c : PapiCall} (hdecode : fn.decode args = some c)
    (hc : c.isMarker = true) : MarksOnly (.evaluate (.call fn args)) := CallsOnly.decoded hdecode hc

theorem measured (hr : MarksOnly r) (h : Measured r r') : MarksOnly r' := by
  cases h with
  | plain => exact hr
  | overhead idx =>
    exact CallsOnly.between (call (c := .enter (.overhead idx)) rfl rfl) hr
      (call (c := .leave (.overhead idx)) rfl rfl)
  | func fid p =>
    exact CallsOnly.between (call (decode_enterCurrentFunc fid p) rfl) hr
      (call (decode_leaveCurrentFunc fid p) rfl)

theorem paused (hr : MarksOnly r) (h : Paused r r') : MarksOnly r' := by
  cases h with
  | plain => exact hr
  | overhead idx =>
    exact CallsOnly.between (call (c := .leave (.overhead idx)) rfl rfl) hr
      (call (c := .enter (.overhead idx)) rfl rfl)

end MarksOnly

section Mutate

variable (defs : List ProfilerDef) (loopDefs : List ProfilerLoop)

/-- All that the mutator writes into such a statement are markers. -/
theorem mutate_marksOnly (s : Stmt Empty) (hs : s.serial = true) (st : InjectPAPIProfiling) :
    MarksOnly (mutate defs loopDefs s st).1 := by
  induction s generalizing st with
  | leaf l => exact CallsOnly.lift (.leaf l)
  | scope h body ih => exact CallsOnly.lift_scope h (ih hs st)
  | producerConsumer name isProducer body ih =>
    obtain ⟨idx, inner, hinner, hpaused⟩ :=
      visitProducerConsumer_shape defs name isProducer (mutate defs loopDefs body) st
    have hset : MarksOnly (setCurrentFunc idx) := MarksOnly.call (c := .setCurrentFunc idx) rfl rfl
    have hnode : MarksOnly (.producerConsumer name isProducer (.blockMake (setCurrentFunc idx) inner)) :=
      CallsOnly.block hset (MarksOnly.measured (ih hs _) hinner)
    exact hnode.paused hpaused
  | for_ name min extent forType api body ih =>
    rw [Stmt.serial, Bool.and_eq_true, Bool.or_eq_true, Bool.not_eq_true'] at hs
    obtain ⟨hplain, hbody⟩ := hs
    have hvisited : MarksOnly
        (visitForBody forType api body (mutate defs loopDefs body) st).1 := by
      cases api with
      | hexagon => cases hplain
      | none | host =>
        show CallsOnly _ (countBody _ _ _)
        rw [countBody, hplain, if_neg Bool.false_ne_true]
        exact ih (hbody.resolve_left Bool.false_ne_true) st
      | _ => exact CallsOnly.lift body
    rw [mutate, visitFor_fst, bracketLaunch, hplain, if_neg Bool.false_ne_true]
    unfold bracketLoop
    split
    · exact CallsOnly.between (MarksOnly.call (c := .enter (.loop _)) rfl rfl)
        (CallsOnly.for_ _ _ _ _ _ hvisited) (MarksOnly.call (c := .leave (.loop _)) rfl rfl)
    · exact CallsOnly.for_ _ _ _ _ _ hvisited
  | block a b iha ihb =>
    rw [Stmt.serial, Bool.and_eq_true] at hs
    exact CallsOnly.block (iha hs.1 st) (ihb hs.2 _)
  | fork a b => cases hs
  | ifThen c t ih => exact ih hs st
  | ifThenElse c t e iht ihe =>
    rw [Stmt.serial, Bool.and_eq_true] at hs
    exact CallsOnly.ifThenElse _ (iht hs.1 st) (ihe hs.2 _)

end Mutate

/-! ### The instrumented program -/

section Inject

theorem papiTrace_fillTable {α : Type} (table : String) (index : α → Nat) (value : α → Expr PapiFn)
    (entries : List α) (s : Stmt PapiFn) :
    (fillTable table index value entries s).papiTrace = s.papiTrace := by
  induction entries generalizing s with
  | nil => rfl
  | cons p entries ih =>
    have hstore : (Stmt.leaf (.store table (value p) (.intImm (index p)) (makeBool true))).papiTrace =
        done [] := Stmt.papiTrace_leaf _
    apply (ih _).trans
    show (Stmt.blockMake _ s).papiTrace = _
    rw [Stmt.papiTrace_blockMake, hstore, seq_done_nil]

theorem papiTrace_freeTable (table : String) (s : Stmt PapiFn) :
    (freeTable table s).papiTrace = s.papiTrace := by
  have hfree : (Stmt.leaf (.free table) : Stmt PapiFn).papiTrace = done [] := Stmt.papiTrace_leaf _
  rw [freeTable, Stmt.papiTrace_blockMake, hfree, seq_nil_right]

theorem papiTrace_tableAllocate (table : String) (size : Nat) (s : Stmt PapiFn) :
    (tableAllocate table size s).papiTrace = s.papiTrace := by
  rw [tableAllocate, Stmt.papiTrace_scope]
  exact seq_done_nil _

variable (defs : List ProfilerDef) (loopDefs : List ProfilerLoop) (s : Stmt Empty)
  (pipelineName : String)

/-- What the instrumented program calls. -/
theorem papiTrace_inject :
    (injectPapiProfiling defs loopDefs s pipelineName).papiTrace =
      seq (done [.registerDestructor])
      (seq (done [.pipelineStart pipelineName (mutate defs loopDefs s init).2.indices.size
        (mutate defs loopDefs s init).2.loops.size])
      (seq (either (done []) (cut []))
      (seq (done [.getState])
      (seq (done [.getPipelineState])
      (seq (done [.incrActiveThreads])
      (seq (mutate defs loopDefs s init).1.papiTrace
      (done [.decrActiveThreads]))))))) := by
  have hassert : ∀ c m : Expr PapiFn,
      (Stmt.leaf (.assertStmt c m)).papiTrace = either (done []) (cut []) := by
    intro c m
    rw [Stmt.papiTrace_leaf]
    rfl
  have hregister : ∀ args, (Stmt.evaluate (.call .registerDestructor args)).papiTrace =
      done [.registerDestructor] := fun args => Stmt.papiTrace_call rfl
  have hincr : incrActiveThreads.papiTrace = done [.incrActiveThreads] := Stmt.papiTrace_call rfl
  have hdecr : decrActiveThreads.papiTrace = done [.decrActiveThreads] := Stmt.papiTrace_call rfl
  rw [inject_eq]
  dsimp only
  rw [Stmt.papiTrace_blockMake, hregister]
  simp only [allocateTables, papiTrace_tableAllocate, freeTables, papiTrace_freeTable, fillTables,
    papiTrace_fillTable, startedProgram, measuredProgram, Stmt.blockOf_cons, Stmt.blockOf_nil,
    Stmt.papiTrace_scope, Stmt.papiTrace_blockMake, hassert, hincr, hdecr]
  rfl

variable {defs loopDefs s pipelineName}

/-- The calls of a completed run. -/
theorem calls_inject {t : List (Event PapiFn)}
    (ht : (injectPapiProfiling defs loopDefs s pipelineName).exec t true) :
    ∃ body, (mutate defs loopDefs s init).1.papiTrace body true ∧
      t.filterMap Event.papiCall =
        prologue pipelineName (mutate defs loopDefs s init).2.indices.size
          (mutate defs loopDefs s init).2.loops.size ++ (body ++ [.decrActiveThreads]) := by
  have hcalls : (injectPapiProfiling defs loopDefs s pipelineName).papiTrace
      (t.filterMap Event.papiCall) true := ⟨t, ht, rfl⟩
  rw [papiTrace_inject, seq_true] at hcalls
  obtain ⟨_, t₁, ⟨rfl, _⟩, ht₁, heq⟩ := hcalls
  obtain ⟨_, t₂, ⟨rfl, _⟩, ht₂, rfl⟩ := (seq_true _ _ _).mp ht₁
  obtain ⟨t₀, t₃, ht₀, ht₃, rfl⟩ := (seq_true _ _ _).mp ht₂
  obtain ⟨_, t₄, ⟨rfl, _⟩, ht₄, rfl⟩ := (seq_true _ _ _).mp ht₃
  obtain ⟨_, t₅, ⟨rfl, _⟩, ht₅, rfl⟩ := (seq_true _ _ _).mp ht₄
  obtain ⟨_, t₆, ⟨rfl, _⟩, ht₆, rfl⟩ := (seq_true _ _ _).mp ht₅
  obtain ⟨body, _, hbody, ⟨rfl, _⟩, rfl⟩ := (seq_true _ _ _).mp ht₆
  refine ⟨body, hbody, ?_⟩
  rcases ht₀ with ⟨rfl, _⟩ | ⟨_, hfalse⟩
  · exact heq
  · cases hfalse

/-- Every marker is for a func or loop that the start announces. -/
theorem mutate_inRange (defs : List ProfilerDef) {loopDefs : List ProfilerLoop} {s : Stmt Empty}
    (hloops : (profiledLoops loopDefs s).Nodup) :
    CallsOnly (PapiCall.InRange (mutate defs loopDefs s init).2.indices.size
      (mutate defs loopDefs s init).2.loops.size) (mutate defs loopDefs s init).1 := by
  have htop : (mutate defs loopDefs s init).2.indices["overhead"]? = some 0 :=
    (mutate_frame defs loopDefs s init).known Std.TreeMap.getElem?_insert_self
  have hfuncs : CallsOnly (PapiCall.FuncBelow (mutate defs loopDefs s init).2.indices.size)
      (mutate defs loopDefs s init).1 := by
    refine mutate_funcBelow defs loopDefs s (List.cons_ne_nil _ _) (fun i hi => ?_)
      (numbered_indices defs loopDefs s).lt
    rw [List.mem_singleton.mp hi]
    exact (numbered_indices defs loopDefs s).lt _ _ htop
  have hfresh := (fresh_init_iff loopDefs s).mpr hloops
  have hempty : Numbered init.loops := numbered_empty
  have hbelow : ∀ p ∈ assign init.loops (profiledLoops loopDefs s),
      p.1 < (mutate defs loopDefs s init).2.loops.size := by
    intro p hp
    rw [mutate_loops]
    exact (hempty.register hfresh).lt _ _ (register_of_mem_assign hfresh p hp)
  have hentered := mutate_entersLoops defs loopDefs s init
  intro next site hsite
  have hfunc := hfuncs next site hsite
  obtain ⟨c, x⟩ := site
  cases c with
  | enter r =>
    cases r with
    | loop id =>
      obtain ⟨p, hp, rfl, _⟩ := (hentered.enter next id x).mp hsite
      have hlt := hbelow p hp
      exact ⟨by omega, by omega⟩
    | func t isProducer => exact hfunc t rfl
    | overhead t => exact hfunc t rfl
  | leave r =>
    cases r with
    | loop id =>
      obtain ⟨p, hp, rfl⟩ := hentered.leave next id x hsite
      have hlt := hbelow p hp
      exact ⟨by omega, by omega⟩
    | func t isProducer => exact hfunc t rfl
    | overhead t => exact hfunc t rfl
  | _ => trivial

end Inject

/-! ### The regions that are listed -/

/-- A report has no rows for the func with index 0. -/
def Region.Listed : Region → Prop
  | .func t _ | .overhead t => 1 ≤ t
  | .loop _ => True

/-- A marker is for a region that a report lists. -/
def PapiCall.MarksListed : PapiCall → Prop
  | .enter r | .leave r => r.Listed
  | _ => True

section Listed

variable (defs : List ProfilerDef) (loopDefs : List ProfilerLoop)

theorem funcId_pos {indices : Std.TreeMap String Nat} {name : String} (hnumbered : Numbered indices)
    (htop : indices["overhead"]? = some 0) (hname : normalizeName name ≠ "overhead") :
    1 ≤ funcId indices name := by
  rw [Nat.one_le_iff_ne_zero]
  intro hzero
  have hname' := withFunc_getElem? indices name
  rw [hzero] at hname'
  have htop' := getElem?_withFunc_of_some name htop
  exact hname ((numbered_withFunc hnumbered name).inj _ _ _ hname' htop')

theorem finishNode_listed {st : InjectPAPIProfiling} (it : Option ProfilerDef) (status : Bool × Bool)
    (name : String) (isProducer : Bool) {idx : Nat} {body : Stmt PapiFn}
    (hbody : CallsOnly PapiCall.MarksListed body) (hidx : isProducer = true → 1 ≤ idx)
    (hfid : 1 ≤ funcId st.indices name) (hparent : st.profileStack ≠ [] → 1 ≤ st.stackBack.1) :
    CallsOnly PapiCall.MarksListed (finishNode it status name isProducer idx body st).1 := by
  have hcast : ∀ {i : Nat}, 1 ≤ i → (1 : Int) ≤ i := fun h => by omega
  have hmeasured : ∀ profiled,
      CallsOnly PapiCall.MarksListed (bracketBody profiled name isProducer idx body st).1 := by
    intro profiled
    unfold bracketBody
    split
    · split
      · next hover =>
        rw [Bool.and_eq_true] at hover
        exact CallsOnly.between (.decoded (c := .enter (.overhead idx)) rfl (hcast (hidx hover.1))) hbody
          (.decoded (c := .leave (.overhead idx)) rfl (hcast (hidx hover.1)))
      · rw [getFuncId_eq]
        exact CallsOnly.between (.decoded (decode_enterCurrentFunc _ _) (hcast hfid)) hbody
          (.decoded (decode_leaveCurrentFunc _ _) (hcast hfid))
    · exact hbody
  rw [finishNode_fst]
  have hnode : ∀ profiled, CallsOnly PapiCall.MarksListed (.producerConsumer name isProducer
      (.blockMake (setCurrentFunc idx) (bracketBody profiled name isProducer idx body st).1)) :=
    fun profiled => CallsOnly.block (.decoded (c := .setCurrentFunc idx) rfl trivial) (hmeasured profiled)
  unfold bracketNode
  split
  · next hpause =>
    rw [Bool.and_eq_true, Bool.not_eq_true', List.isEmpty_eq_false_iff] at hpause
    exact CallsOnly.between
      (.decoded (c := .leave (.overhead st.stackBack.1)) rfl (hcast (hparent hpause.2))) (hnode _)
      (.decoded (c := .enter (.overhead st.stackBack.1)) rfl (hcast (hparent hpause.2)))
  · exact hnode _

/-- Unless a func is called `overhead`, only regions are marked that a report lists. -/
theorem mutate_marksListed (s : Stmt Empty) {st : InjectPAPIProfiling} (hnumbered : Numbered st.indices)
    (htop : st.indices["overhead"]? = some 0) (hstack : st.profileStack ≠ [] → 1 ≤ st.stack.headD 0)
    (hnames : "overhead" ∉ (visitedNodes s).map Prod.fst) :
    CallsOnly PapiCall.MarksListed (mutate defs loopDefs s st).1 := by
  induction s generalizing st with
  | leaf l => exact CallsOnly.lift (.leaf l)
  | scope h body ih => exact CallsOnly.lift_scope h (ih hnumbered htop hstack hnames)
  | ifThen c t ih => exact ih hnumbered htop hstack hnames
  | producerConsumer name isProducer body ih =>
    rw [visitedNodes, List.map_cons, List.mem_cons, not_or] at hnames
    let before := beforeBody defs name isProducer st
    let after := (visitedBody defs name isProducer (mutate defs loopDefs body) st).2.2
    have hframe := mutate_frame defs loopDefs body before
    have hvisited : Frame st after := visitedBody_frame defs name isProducer hframe
    have hown : 1 ≤ funcId st.indices name := funcId_pos hnumbered htop (Ne.symm hnames.1)
    have hbefore : Numbered before.indices ∧ before.indices["overhead"]? = some 0 ∧
        (before.profileStack ≠ [] → 1 ≤ before.stack.headD 0) := by
      simp only [before, beforeBody_indices, beforeBody_stack, beforeBody_profileStack]
      cases isProducer with
      | true =>
        exact ⟨numbered_withFunc hnumbered name, getElem?_withFunc_of_some name htop, fun _ => hown⟩
      | false => exact ⟨hnumbered, htop, hstack⟩
    have hbody := ih hbefore.1 hbefore.2.1 hbefore.2.2 hnames.2
    rw [mutate, visitProducerConsumer_eq, visitedBody_body]
    refine finishNode_listed _ _ name isProducer hbody (fun hproducer => ?_)
      (funcId_pos (hvisited.numbered hnumbered) (hvisited.known htop) (Ne.symm hnames.1)) fun hne => ?_
    · rw [visitedBody_fst, if_pos hproducer]
      exact hown
    · rw [stackBack_fst]
      change 1 ≤ after.stack.headD 0
      rw [hvisited.stack]
      exact hstack (hvisited.profileStack ▸ hne)
  | for_ name min extent forType api body ih =>
    have hcounting : CallsOnly.Counting PapiCall.MarksListed := ⟨trivial, trivial, trivial, trivial⟩
    have hbody : CallsOnly PapiCall.MarksListed
        (visitForBody forType api body (mutate defs loopDefs body) st).1 := by
      rw [visitedNodes] at hnames
      have hcount : ∀ r, CallsOnly PapiCall.MarksListed r →
          CallsOnly PapiCall.MarksListed (countBody forType api r) := by
        intro r hr
        unfold countBody
        split
        · exact CallsOnly.counted hcounting hr
        · exact hr
      cases api with
      | hexagon => exact CallsOnly.kernel trivial (hcount _ (ih hnumbered htop hstack hnames))
      | none => exact hcount _ (ih hnumbered htop hstack hnames)
      | host => exact hcount _ (ih hnumbered htop hstack hnames)
      | _ => exact CallsOnly.lift body
    have hfor := CallsOnly.for_ name (min.mapCall Empty.elim) (extent.mapCall Empty.elim) forType api hbody
    rw [mutate, visitFor_fst]
    have hloop : CallsOnly PapiCall.MarksListed (bracketLoop loopDefs name (.for_ name
        (min.mapCall Empty.elim) (extent.mapCall Empty.elim) forType api
        (visitForBody forType api body (mutate defs loopDefs body) st).1)
        (visitForBody forType api body (mutate defs loopDefs body) st).2).1 := by
      unfold bracketLoop
      split
      · exact CallsOnly.between (.decoded (c := .enter (.loop _)) rfl trivial) hfor
          (.decoded (c := .leave (.loop _)) rfl trivial)
      · exact hfor
    unfold bracketLaunch
    split
    · exact CallsOnly.launched hcounting hloop
    · exact hloop
  | block a b iha ihb | fork a b iha ihb | ifThenElse c a b iha ihb =>
    rw [visitedNodes, List.map_append, List.mem_append, not_or] at hnames
    have hframe := mutate_frame defs loopDefs a st
    have ha := iha hnumbered htop hstack hnames.1
    have hb := ihb (hframe.numbered hnumbered) (hframe.known htop)
      (by rwa [hframe.profileStack, hframe.stack]) hnames.2
    first
      | exact CallsOnly.block ha hb
      | exact CallsOnly.fork ha hb
      | exact CallsOnly.ifThenElse _ ha hb

end Listed

end ProfHalide
