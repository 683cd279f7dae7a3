import ProfHalide.Pass.Tables
import ProfHalide.Report.Writer

/-!
# Func ids

A func takes the size of the mutator's map as its id when it is met first, whichever call asks for it, and
keeps it. The map begins with the entry `overhead`, which is not a func but cannot be told from one of
that name.
-/

namespace ProfHalide

open InjectPAPIProfiling Numbering

/-! ### Ids of visits -/

section Visits

variable (defs : List ProfilerDef) (loopDefs : List ProfilerLoop)

/-- The id of a visit is the one that the func has in the end. -/
theorem getElem?_of_mem_visits (s : Stmt Empty) (around : Option (String × Bool × Bool))
    (st : InjectPAPIProfiling) :
    ∀ v ∈ visits defs loopDefs around s st,
      (mutate defs loopDefs s st).2.indices[normalizeName v.name]? = some v.id := by
  induction s generalizing around st with
  | leaf l => simp [visits]
  | scope h body ih => exact ih around st
  | ifThen c t ih => exact ih around st
  | producerConsumer name isProducer body ih =>
    intro v hv
    rw [mutate_producerConsumer_indices]
    rcases List.mem_append.mp hv with hv | hv
    · exact getElem?_withFunc_of_some name (ih _ _ v hv)
    · rw [List.mem_singleton.mp hv]
      exact withFunc_getElem? _ _
  | for_ name min extent forType api body ih =>
    rw [mutate_for_indices, visits]
    cases api.isGpu with
    | true => simp
    | false => exact ih around st
  | block a b iha ihb | fork a b iha ihb | ifThenElse c a b iha ihb =>
    intro v hv
    have hframe := mutate_frame defs loopDefs b (mutate defs loopDefs a st).2
    rcases List.mem_append.mp hv with hv | hv
    · exact hframe.known (iha around st v hv)
    · exact ihb around _ v hv

/-- The nodes with a visit are those of the source outside of GPU loops. -/
theorem mem_visitedNodes_iff (s : Stmt Empty) (around : Option (String × Bool × Bool))
    (st : InjectPAPIProfiling) (node : String × Bool) :
    node ∈ visitedNodes s ↔ ∃ v ∈ visits defs loopDefs around s st,
      (normalizeName v.name, v.isProducer) = node := by
  induction s generalizing around st with
  | leaf l => simp [visits, visitedNodes]
  | scope h body ih => exact ih around st
  | ifThen c t ih => exact ih around st
  | producerConsumer name isProducer body ih =>
    rw [visitedNodes, List.mem_cons, ih, visits]
    simp only [List.mem_append, List.mem_singleton, or_and_right, exists_or, exists_eq_left]
    rw [or_comm, eq_comm]
  | for_ name min extent forType api body ih =>
    rw [visits, visitedNodes]
    cases api.isGpu with
    | true => simp
    | false => exact ih around st
  | block a b iha ihb | fork a b iha ihb | ifThenElse c a b iha ihb =>
    rw [visitedNodes, List.mem_append, iha around st, ihb around (mutate defs loopDefs a st).2, visits]
    simp only [List.mem_append, or_and_right, exists_or]

/-- Registrations are compared with the innermost produce node. -/
theorem parentName_of_mem_visits (s : Stmt Empty) {around : Option (String × Bool × Bool)}
    {func : Option (String × Bool)} {st : InjectPAPIProfiling} (hat : At func .idle st none)
    (haround : func.map Prod.fst = around.map fun outer => normalizeName outer.1) :
    ∀ v ∈ visits defs loopDefs around s st, ∀ outer, v.around = some outer →
      v.parentName = normalizeName outer.1 := by
  induction s generalizing around func st with
  | leaf l => simp [visits]
  | scope h body ih => exact ih hat haround
  | ifThen c t ih => exact ih hat haround
  | producerConsumer name isProducer body ih =>
    intro v hv
    rcases List.mem_append.mp hv with hv | hv
    · refine ih (hat.beforeBody defs name isProducer rfl) ?_ v hv
      cases isProducer with
      | true => rfl
      | false => exact haround
    · rw [List.mem_singleton.mp hv]
      intro outer houter
      dsimp only at houter ⊢
      rw [houter] at haround
      obtain ⟨p, hp, hname⟩ := Option.map_eq_some_iff.mp haround
      rw [hat.parentName_eq, hp]
      exact hname
  | for_ name min extent forType api body ih =>
    rw [visits]
    cases api.isGpu with
    | true => simp
    | false => exact ih hat haround
  | block a b iha ihb | fork a b iha ihb | ifThenElse c a b iha ihb =>
    intro v hv
    rcases List.mem_append.mp hv with hv | hv
    · exact iha hat haround v hv
    · exact ihb (hat.frame (mutate_frame defs loopDefs a st)) haround v hv

end Visits

/-! ### Ids in calls -/

/-- The func index in a call. -/
def PapiCall.funcIndex : PapiCall → Option Int
  | .setCurrentFunc t | .enter (.func t _) | .leave (.func t _) | .enter (.overhead t)
  | .leave (.overhead t) => some t
  | _ => none

/-- The func index in a call, if there is one, is one of `n`. -/
def PapiCall.FuncBelow (n : Nat) (c : PapiCall) : Prop := ∀ t, c.funcIndex = some t → 0 ≤ t ∧ t < n

namespace PapiCall.FuncBelow

variable {n i : Nat}

theorem of_index {c : PapiCall} (h : c.funcIndex = some (i : Int)) (hi : i < n) : c.FuncBelow n := by
  intro t ht
  rw [h] at ht
  cases ht
  omega

theorem of_none {c : PapiCall} (h : c.funcIndex = none) : c.FuncBelow n := by
  intro t ht
  rw [h] at ht
  cases ht

theorem counting : CallsOnly.Counting (FuncBelow n) :=
  ⟨of_none rfl, of_none rfl, of_none rfl, of_none rfl⟩

end PapiCall.FuncBelow

open PapiCall in
/-- The calls of a node have the indices of its own func and of the produce node around it. -/
theorem finishNode_funcBelow {st : InjectPAPIProfiling} {n : Nat} (it : Option ProfilerDef)
    (status : Bool × Bool) (name : String) (isProducer : Bool) {idx : Nat} {body : Stmt PapiFn}
    (hbody : CallsOnly (FuncBelow n) body) (hidx : idx < n) (hfid : funcId st.indices name < n)
    (hparent : st.stackBack.1 < n) :
    CallsOnly (FuncBelow n) (finishNode it status name isProducer idx body st).1 := by
  have hmeasured : ∀ profiled,
      CallsOnly (FuncBelow n) (bracketBody profiled name isProducer idx body st).1 := by
    intro profiled
    unfold bracketBody
    split
    · split
      · exact CallsOnly.between (.decoded rfl (.of_index rfl hidx)) hbody
          (.decoded rfl (.of_index rfl hidx))
      · rw [getFuncId_eq]
        exact CallsOnly.between (.decoded (decode_enterCurrentFunc _ _) (.of_index rfl hfid)) hbody
          (.decoded (decode_leaveCurrentFunc _ _) (.of_index rfl hfid))
    · exact hbody
  rw [finishNode_fst]
  have hnode : ∀ profiled, CallsOnly (FuncBelow n) (.producerConsumer name isProducer
      (.blockMake (setCurrentFunc idx) (bracketBody profiled name isProducer idx body st).1)) :=
    fun profiled => CallsOnly.block (.decoded rfl (.of_index rfl hidx)) (hmeasured profiled)
  unfold bracketNode
  split
  · exact CallsOnly.between (.decoded rfl (.of_index rfl hparent)) (hnode _)
      (.decoded rfl (.of_index rfl hparent))
  · exact hnode _

section Mutate

variable (defs : List ProfilerDef) (loopDefs : List ProfilerLoop)

open PapiCall in
theorem bracketLoop_funcBelow {n : Nat} (name : String) {r : Stmt PapiFn} (st : InjectPAPIProfiling)
    (hr : CallsOnly (FuncBelow n) r) : CallsOnly (FuncBelow n) (bracketLoop loopDefs name r st).1 := by
  unfold bracketLoop
  split
  · exact CallsOnly.between (.decoded rfl (.of_none rfl)) hr (.decoded rfl (.of_none rfl))
  · exact hr

open PapiCall in
/-- Every func index in a call is one that the mutator has handed out. -/
theorem mutate_funcBelow (s : Stmt Empty) {n : Nat} {st : InjectPAPIProfiling}
    (hne : st.stack ≠ []) (hstack : ∀ i ∈ st.stack, i < n)
    (hindices : ∀ (f : String) (i : Nat),
      (mutate defs loopDefs s st).2.indices[f]? = some i → i < n) :
    CallsOnly (FuncBelow n) (mutate defs loopDefs s st).1 := by
  induction s generalizing st with
  | leaf l => exact CallsOnly.lift (.leaf l)
  | scope h body ih => exact CallsOnly.lift_scope h (ih hne hstack hindices)
  | ifThen c t ih => exact ih hne hstack hindices
  | producerConsumer name isProducer body ih =>
    let after := (mutate defs loopDefs body (beforeBody defs name isProducer st)).2
    have hframe := mutate_frame defs loopDefs body (beforeBody defs name isProducer st)
    have hvisited := visitedBody_frame defs name isProducer hframe
    obtain ⟨_, hst⟩ := visitedBody_snd defs name isProducer (mutate defs loopDefs body) st
    have hfinal : ∀ (f : String) (i : Nat), (withFunc after.indices name)[f]? = some i → i < n := by
      intro f i hi
      apply hindices f i
      rw [mutate_producerConsumer_indices]
      exact hi
    have hfid : funcId after.indices name < n := hfinal _ _ (withFunc_getElem? _ _)
    have hown : isProducer = true → funcId st.indices name < n := by
      intro hproducer
      have hknown : (beforeBody defs name isProducer st).indices[normalizeName name]? =
          some (funcId st.indices name) := by
        rw [beforeBody_indices, if_pos hproducer, withFunc_getElem?]
      exact hfinal _ _ (getElem?_withFunc_of_some name (hframe.known hknown))
    have hback : ∀ st' : InjectPAPIProfiling, st'.stack = st.stack → st'.stackBack.1 < n := by
      intro st' hst'
      rw [stackBack_fst, hst']
      cases hst : st.stack with
      | nil => exact absurd hst hne
      | cons top rest => exact hstack top (by rw [hst]; exact List.mem_cons_self)
    have hbody : CallsOnly (FuncBelow n)
        (mutate defs loopDefs body (beforeBody defs name isProducer st)).1 := by
      refine ih ?_ ?_ fun f i hi => hfinal f i (getElem?_withFunc_of_some name hi)
      · rw [beforeBody_stack]
        split
        · exact List.cons_ne_nil _ _
        · exact hne
      · intro i hi
        rw [beforeBody_stack] at hi
        split at hi
        · rcases List.mem_cons.mp hi with rfl | hi
          · exact hown ‹_›
          · exact hstack i hi
        · exact hstack i hi
    rw [mutate, visitProducerConsumer_eq, visitedBody_body]
    refine finishNode_funcBelow _ _ name isProducer hbody ?_ ?_ (hback _ hvisited.stack)
    · rw [visitedBody_fst]
      cases isProducer with
      | true => exact hown rfl
      | false => exact hback _ (hframe.stack.trans (beforeBody_stack defs name false st))
    · rw [hst]
      cases isProducer <;> exact hfid
  | for_ name min extent forType api body ih =>
    rw [mutate_for_indices] at hindices
    rw [mutate, visitFor_fst]
    have hbody : CallsOnly (FuncBelow n)
        (visitForBody forType api body (mutate defs loopDefs body) st).1 := by
      have hcount : ∀ r, CallsOnly (FuncBelow n) r → CallsOnly (FuncBelow n) (countBody forType api r) := by
        intro r hr
        unfold countBody
        split
        · exact CallsOnly.counted FuncBelow.counting hr
        · exact hr
      cases api with
      | hexagon => exact CallsOnly.kernel (.of_none rfl) (hcount _ (ih hne hstack hindices))
      | none => exact hcount _ (ih hne hstack hindices)
      | host => exact hcount _ (ih hne hstack hindices)
      | _ => exact CallsOnly.lift body
    have hloop := bracketLoop_funcBelow loopDefs name
      (visitForBody forType api body (mutate defs loopDefs body) st).2
      (CallsOnly.for_ name (min.mapCall Empty.elim) (extent.mapCall Empty.elim) forType api hbody)
    unfold bracketLaunch
    split
    · exact CallsOnly.launched FuncBelow.counting hloop
    · exact hloop
  | block a b iha ihb | fork a b iha ihb | ifThenElse c a b iha ihb =>
    have hframe := mutate_frame defs loopDefs a st
    have hafter := mutate_frame defs loopDefs b (mutate defs loopDefs a st).2
    have ha := iha hne hstack fun f i hi => hindices f i (hafter.known hi)
    have hb := ihb (hframe.stack.trans_ne hne) (by rw [hframe.stack]; exact hstack) hindices
    first
      | exact CallsOnly.block ha hb
      | exact CallsOnly.fork ha hb
      | exact CallsOnly.ifThenElse _ ha hb

end Mutate

/-! ### Ids in the table of names -/

/-- The names of the produce and consume nodes of a statement. -/
def Stmt.nodeNames {κ : Type} : Stmt κ → List String
  | .leaf _ => []
  | .scope _ body | .ifThen _ body | .for_ _ _ _ _ _ body => body.nodeNames
  | .producerConsumer name _ body => name :: body.nodeNames
  | .block a b | .fork a b | .ifThenElse _ a b => a.nodeNames ++ b.nodeNames

theorem normalizeName_eq {name : String} (h : '.' ∉ name.toList) : normalizeName name = name := by
  have htake : name.toList.takeWhile (· ≠ '.') = name.toList := by
    rw [List.takeWhile_eq_self_iff]
    intro c hc
    exact decide_eq_true fun heq => h (heq ▸ hc)
  rw [normalizeName, htake, String.ofList_toList]

section Inject

variable (defs : List ProfilerDef) (loopDefs : List ProfilerLoop) (s : Stmt Empty)
  (pipelineName : String)

theorem mem_nodeNames_of_mem_visits (s : Stmt Empty) (around : Option (String × Bool × Bool))
    (st : InjectPAPIProfiling) : ∀ v ∈ visits defs loopDefs around s st, v.name ∈ s.nodeNames := by
  induction s generalizing around st with
  | leaf l => simp [visits]
  | scope h body ih => exact ih around st
  | ifThen c t ih => exact ih around st
  | producerConsumer name isProducer body ih =>
    intro v hv
    rcases List.mem_append.mp hv with hv | hv
    · exact List.mem_cons_of_mem _ (ih _ _ v hv)
    · rw [List.mem_singleton.mp hv]
      exact List.mem_cons_self
  | for_ name min extent forType api body ih =>
    rw [visits]
    split
    · simp
    · exact ih around st
  | block a b iha ihb | fork a b iha ihb | ifThenElse c a b iha ihb =>
    intro v hv
    rcases List.mem_append.mp hv with hv | hv
    · exact List.mem_append_left _ (iha around st v hv)
    · exact List.mem_append_right _ (ihb around _ v hv)

/-- A produce node around a visit is in the statement or around it. -/
theorem around_of_mem_visits (s : Stmt Empty) (around : Option (String × Bool × Bool))
    (st : InjectPAPIProfiling) : ∀ v ∈ visits defs loopDefs around s st, ∀ outer,
      v.around = some outer → around = some outer ∨ outer.1 ∈ s.nodeNames := by
  induction s generalizing around st with
  | leaf l => simp [visits]
  | scope h body ih => exact ih around st
  | ifThen c t ih => exact ih around st
  | producerConsumer name isProducer body ih =>
    intro v hv outer houter
    rcases List.mem_append.mp hv with hv | hv
    · rcases ih _ _ v hv outer houter with hbefore | hin
      · cases isProducer with
        | true =>
          cases hbefore
          exact Or.inr List.mem_cons_self
        | false => exact Or.inl hbefore
      · exact Or.inr (List.mem_cons_of_mem _ hin)
    · rw [List.mem_singleton.mp hv] at houter
      exact Or.inl houter
  | for_ name min extent forType api body ih =>
    rw [visits]
    split
    · simp
    · exact ih around st
  | block a b iha ihb | fork a b iha ihb | ifThenElse c a b iha ihb =>
    intro v hv outer houter
    rcases List.mem_append.mp hv with hv | hv
    · exact (iha around st v hv outer houter).imp_right (List.mem_append_left _)
    · exact (ihb around _ v hv outer houter).imp_right (List.mem_append_right _)

theorem inject_funcNames :
    (injectPapiProfiling defs loopDefs s pipelineName).tableStores "profiling_func_names" =
      ((mutate defs loopDefs s init).2.indices.toList.map fun p => ((p.2 : Int), p.1)).reverse := by
  rw [tableStores_inject, fillTables, tableStores_fillTable_of_ne _ _ _ _ _ (by decide),
    tableStores_fillTable_of_ne _ _ _ _ _ (by decide),
    tableStores_fillTable_of_ne _ _ _ _ _ (by decide),
    tableStores_fillTable_of_ne _ _ _ _ _ (by decide), tableStores_fillTable]
  exact List.append_nil _

theorem inject_funcBelow :
    CallsOnly (PapiCall.FuncBelow (mutate defs loopDefs s init).2.indices.size)
      (injectPapiProfiling defs loopDefs s pipelineName) := by
  have hnumbered := numbered_indices defs loopDefs s
  have htop : (mutate defs loopDefs s init).2.indices["overhead"]? = some 0 :=
    (mutate_frame defs loopDefs s init).known Std.TreeMap.getElem?_insert_self
  have hmutate : CallsOnly (PapiCall.FuncBelow (mutate defs loopDefs s init).2.indices.size)
      (mutate defs loopDefs s init).1 := by
    refine mutate_funcBelow defs loopDefs s (List.cons_ne_nil _ _) (fun i hi => ?_) hnumbered.lt
    rw [List.mem_singleton.mp hi]
    exact hnumbered.lt _ _ htop
  have hfill : ∀ {n : Nat} {α : Type} (table : String) (index : α → Nat) (value : α → Expr PapiFn)
      (entries : List α) {r : Stmt PapiFn}, CallsOnly (PapiCall.FuncBelow n) r →
      CallsOnly (PapiCall.FuncBelow n) (fillTable table index value entries r) := by
    intro n α table index value entries r hr next site hsite
    rw [callSites_fillTable] at hsite
    exact hr next site hsite
  have hfree : ∀ {n : Nat} (table : String) {r : Stmt PapiFn}, CallsOnly (PapiCall.FuncBelow n) r →
      CallsOnly (PapiCall.FuncBelow n) (freeTable table r) := by
    intro n table r hr
    exact CallsOnly.block hr fun next site hsite => by cases hsite
  have hvalue : ∀ {n : Nat} {h : Scope PapiFn} {r : Stmt PapiFn} (c : PapiCall),
      h.papiCall = some c → c.funcIndex = none → CallsOnly (PapiCall.FuncBelow n) r →
      CallsOnly (PapiCall.FuncBelow n) (.scope h r) := by
    intro n h r c hc hindex hr
    refine hr.scope fun c' hc' => ?_
    rw [hc] at hc'
    cases hc'
    exact .of_none hindex
  have hassert : ∀ {n : Nat} (c m : Expr PapiFn),
      CallsOnly (PapiCall.FuncBelow n) (.leaf (.assertStmt c m)) :=
    fun _ _ next site hsite => by cases hsite
  rw [inject_eq]
  refine CallsOnly.block (.decoded rfl (.of_none rfl)) ?_
  iterate 5 refine CallsOnly.scope (by simp [Scope.papiCall]) ?_
  iterate 5 apply hfree _
  iterate 5 apply hfill _ _ _ _
  refine hvalue _ rfl rfl (CallsOnly.block (hassert _ _) ?_)
  exact hvalue _ rfl rfl (hvalue _ rfl rfl (CallsOnly.counted PapiCall.FuncBelow.counting hmutate))

/-- The ids in [1, num_funcs) and the funcs of the visited nodes belong together one to one, in the calls,
in the table of names and in a report; only the reserved entry has the id 0. -/
structure FuncIdsBijective : Prop where
  ranged : ∀ v ∈ visits defs loopDefs none s init,
    1 ≤ v.id ∧ v.id < (mutate defs loopDefs s init).2.indices.size
  same : ∀ v ∈ visits defs loopDefs none s init, ∀ w ∈ visits defs loopDefs none s init,
    v.id = w.id ↔ v.name = w.name
  reserved : ∀ f, (mutate defs loopDefs s init).2.indices[f]? = some 0 ↔ f = "overhead"
  calls : CallsOnly (PapiCall.FuncBelow (mutate defs loopDefs s init).2.indices.size)
    (injectPapiProfiling defs loopDefs s pipelineName)
  named : ∀ v ∈ visits defs loopDefs none s init,
    (injectPapiProfiling defs loopDefs s pipelineName).tableEntry "profiling_func_names" v.id =
      some v.name
  parent : ∀ v ∈ visits defs loopDefs none s init, ∀ outer, v.around = some outer →
    v.parentName = outer.1
  /-- A record whose funcs have the names of the table has a row for each of them. -/
  reported : ∀ v ∈ visits defs loopDefs none s init, ∀ (φ : Type) (numbers : Numbers φ)
    (snapshot : Snapshot) (p : Ptr) (stats : PipelineStats),
    stats.funcs.length = (mutate defs loopDefs s init).2.indices.size →
    (∀ (i : Nat) fs, stats.funcs[i]? = some fs →
      (injectPapiProfiling defs loopDefs s pipelineName).tableEntry "profiling_func_names" i =
        some (snapshot.string fs.name)) →
    ∃ time threads, .times v.name time threads ∈ reportPipeline numbers snapshot p stats

/-- A func is reported if its index is one of the record's and not 0. -/
theorem mem_reportPipeline {φ : Type} (numbers : Numbers φ) (snapshot : Snapshot) (p : Ptr)
    {stats : PipelineStats} {i : Nat} {fs : FuncStats} (hi : 1 ≤ i) (hfs : stats.funcs[i]? = some fs) :
    ∃ time threads, .times (snapshot.string fs.name) time threads ∈
      reportPipeline numbers snapshot p stats := by
  have hmem : fs ∈ stats.funcs.drop 1 := by
    obtain ⟨j, rfl⟩ : ∃ j, i = 1 + j := ⟨i - 1, by omega⟩
    rw [← List.getElem?_drop] at hfs
    exact List.mem_of_getElem? hfs
  refine ⟨numbers.perRun fs.time stats.runs,
    numbers.average fs.activeThreadsNumerator fs.activeThreadsDenominator, ?_⟩
  exact List.mem_cons_of_mem _ (List.mem_append_left _ (List.mem_map.mpr ⟨fs, hmem, rfl⟩))

variable {s}

theorem normalizeName_of_mem_visits (hnames : ∀ name ∈ s.nodeNames, '.' ∉ name.toList) {v : Visit}
    (hv : v ∈ visits defs loopDefs none s init) : normalizeName v.name = v.name :=
  normalizeName_eq (hnames _ (mem_nodeNames_of_mem_visits defs loopDefs s none init v hv))

theorem getElem?_id_of_mem_visits (hnames : ∀ name ∈ s.nodeNames, '.' ∉ name.toList) {v : Visit}
    (hv : v ∈ visits defs loopDefs none s init) :
    (mutate defs loopDefs s init).2.indices[v.name]? = some v.id := by
  rw [← normalizeName_of_mem_visits defs loopDefs hnames hv]
  exact getElem?_of_mem_visits defs loopDefs s none init v hv

theorem mem_visitedNodes_iff_exists_visit (hnames : ∀ name ∈ s.nodeNames, '.' ∉ name.toList)
    (f : String) : f ∈ (visitedNodes s).map Prod.fst ↔
      ∃ v ∈ visits defs loopDefs none s init, v.name = f := by
  have hname : ∀ v ∈ visits defs loopDefs none s init, normalizeName v.name = v.name :=
    fun v hv => normalizeName_of_mem_visits defs loopDefs hnames hv
  rw [List.mem_map]
  constructor
  · rintro ⟨node, hnode, hfst⟩
    obtain ⟨v, hv, rfl⟩ := (mem_visitedNodes_iff defs loopDefs s none init node).mp hnode
    exact ⟨v, hv, (hname v hv).symm.trans hfst⟩
  · rintro ⟨v, hv, rfl⟩
    exact ⟨_, (mem_visitedNodes_iff defs loopDefs s none init _).mpr ⟨v, hv, rfl⟩, hname v hv⟩

theorem getElem?_overhead : (mutate defs loopDefs s init).2.indices["overhead"]? = some 0 :=
  (mutate_frame defs loopDefs s init).known Std.TreeMap.getElem?_insert_self

/-- The func `overhead` gets the id of the reserved entry. -/
theorem FuncIdsBijective.overhead_notMem (h : FuncIdsBijective defs loopDefs s pipelineName)
    (hnames : ∀ name ∈ s.nodeNames, '.' ∉ name.toList) :
    "overhead" ∉ (visitedNodes s).map Prod.fst := by
  intro hvisited
  obtain ⟨v, hv, hoverhead⟩ := (mem_visitedNodes_iff_exists_visit defs loopDefs hnames _).mp hvisited
  have hid := getElem?_id_of_mem_visits defs loopDefs hnames hv
  rw [hoverhead, getElem?_overhead] at hid
  have hpos := (h.ranged v hv).1
  rw [← Option.some.inj hid] at hpos
  cases hpos

theorem funcIdsBijective_of_notMem (hnames : ∀ name ∈ s.nodeNames, '.' ∉ name.toList)
    (hoverhead : "overhead" ∉ (visitedNodes s).map Prod.fst) :
    FuncIdsBijective defs loopDefs s pipelineName := by
  let final := (mutate defs loopDefs s init).2
  have hnumbered : Numbered final.indices := numbered_indices defs loopDefs s
  have htop : final.indices["overhead"]? = some 0 := getElem?_overhead defs loopDefs
  have hid : ∀ v ∈ visits defs loopDefs none s init, final.indices[v.name]? = some v.id :=
    fun v hv => getElem?_id_of_mem_visits defs loopDefs hnames hv
  have hentry : ∀ {f : String} {i : Nat}, final.indices[f]? = some i →
      (injectPapiProfiling defs loopDefs s pipelineName).tableEntry "profiling_func_names" i =
        some f := fun hf =>
    Stmt.tableEntry_of_getElem? (inject_funcNames defs loopDefs s pipelineName) hnumbered hf
  have hranged : ∀ v ∈ visits defs loopDefs none s init, 1 ≤ v.id ∧ v.id < final.indices.size := by
    intro v hv
    refine ⟨Nat.one_le_iff_ne_zero.mpr fun hzero => hoverhead ?_, hnumbered.lt _ _ (hid v hv)⟩
    have hv' := hid v hv
    rw [hzero] at hv'
    exact (mem_visitedNodes_iff_exists_visit defs loopDefs hnames _).mpr
      ⟨v, hv, hnumbered.inj _ _ 0 hv' htop⟩
  constructor
  case ranged => exact hranged
  case same =>
    intro v hv w hw
    constructor
    · intro heq
      have hv' := hid v hv
      rw [heq] at hv'
      exact hnumbered.inj _ _ _ hv' (hid w hw)
    · intro heq
      have hv' := hid v hv
      rw [heq, hid w hw] at hv'
      exact (Option.some.inj hv').symm
  case reserved =>
    intro f
    constructor
    · exact fun hf => hnumbered.inj _ _ 0 hf htop
    · rintro rfl
      exact htop
  case calls => exact inject_funcBelow defs loopDefs s pipelineName
  case named => exact fun v hv => hentry (hid v hv)
  case parent =>
    intro v hv outer houter
    rw [parentName_of_mem_visits defs loopDefs s at_init rfl v hv outer houter]
    refine normalizeName_eq (hnames _ ?_)
    exact (around_of_mem_visits defs loopDefs s none init v hv outer houter).resolve_left nofun
  case reported =>
    intro v hv φ numbers snapshot p stats hlength htable
    obtain ⟨hpos, hlt⟩ := hranged v hv
    have hfs := List.getElem?_eq_getElem (hlength ▸ hlt)
    obtain ⟨time, threads, hrow⟩ := mem_reportPipeline numbers snapshot p hpos hfs
    have hstring := (htable _ _ hfs).symm.trans (hentry (hid v hv))
    rw [Option.some.inj hstring] at hrow
    exact ⟨time, threads, hrow⟩

/-- The ids are right exactly if no func has the name of the reserved entry. -/
theorem funcIdsBijective_iff (hnames : ∀ name ∈ s.nodeNames, '.' ∉ name.toList) :
    FuncIdsBijective defs loopDefs s pipelineName ↔ "overhead" ∉ (visitedNodes s).map Prod.fst :=
  ⟨fun h => h.overhead_notMem defs loopDefs pipelineName hnames,
    funcIdsBijective_of_notMem defs loopDefs pipelineName hnames⟩

end Inject

/-- A func that is computed for another one, and used there. -/
def twoFuncs : Stmt Empty :=
  .block
    (.producerConsumer "f" true (.for_ "f.s0.x" (.intImm 0) (.intImm 4) .parallel .host
      (.leaf (.provide "f" [.intImm 1] [.variable "f.s0.x"]))))
    (.producerConsumer "f" false (.block
      (.producerConsumer "g" true (.leaf (.provide "g" [.op "f" [.intImm 0]] [.intImm 0])))
      (.producerConsumer "g" false (.leaf (.provide "output" [.op "g" [.intImm 0]] [.intImm 0])))))

theorem funcIdsBijective_twoFuncs :
    FuncIdsBijective [profile "f" PROFILE_PRODUCTION false true] [⟨"f", "x", false⟩] twoFuncs "pipeline" ↔
      "overhead" ∉ ["f", "f", "g", "g"] :=
  funcIdsBijective_iff _ _ "pipeline" (by decide)

/-- The pass does not tell a func `overhead` from the reserved entry. -/
theorem not_funcIdsBijective_overhead :
    ¬ ∀ (defs : List ProfilerDef) (loopDefs : List ProfilerLoop) (s : Stmt Empty) (pipelineName : String),
      (∀ name ∈ s.nodeNames, '.' ∉ name.toList) → FuncIdsBijective defs loopDefs s pipelineName := by
  intro h
  let s : Stmt Empty :=
    .producerConsumer "overhead" true (.leaf (.provide "overhead" [.intImm 1] [.intImm 0]))
  have hnames : ∀ name ∈ s.nodeNames, '.' ∉ name.toList := by decide
  have hoverhead := (h [] [] s "pipeline" hnames).overhead_notMem [] [] "pipeline" hnames
  exact absurd hoverhead (by decide)

end ProfHalide
