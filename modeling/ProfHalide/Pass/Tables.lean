import ProfHalide.Pass.LoopIds
import ProfHalide.Pass.Visits
import ProfHalide.Halide.Serial

/-!
# The tables given to the runtime

The prologue fills five tables, each from a map of the mutator, and the start of the pipeline reads
them from end to end, as numbers of 64 bits. The flags are stored as numbers of 32 bits, so that the last of
them is never written whole. A func is in the map of its kind of node only if a node of that kind was
visited, while every func has an index, and so has the reserved entry `overhead`, which is no func at all: so
even the indices that are stored to leave some out.
-/

namespace ProfHalide

open InjectPAPIProfiling Behaviour Numbering

/-! ### Reads and stores of an execution -/

/-- The size of an immediate: an integer is an `Int(32)`, and of a string the address is stored. The types of
other expressions are not kept. -/
def Expr.bytes {κ : Type} : Expr κ → Option Nat
  | .intImm _ => some 4
  | .stringImm _ => some 8
  | _ => none

/-- The size of a `Handle()`, which the tables are allocated with, and of the `uint64_t` that is read. -/
def HANDLE_BYTES : Nat := 8

/-- Whether the event stores to a byte of a table: the table is an array of the type of the value. -/
def Event.storesAt (table : String) (byte : Nat) : Event PapiFn → Bool
  | .exec (.store name value (.intImm i) _) =>
      name == table && value.bytes.any fun n : Nat => n * i ≤ byte && byte < n * (i + 1)
  | _ => false

/-- Whether the event stores to an index of a table, for a value of any size. -/
def Event.storesIndex (table : String) (index : Int) : Event PapiFn → Bool
  | .exec (.store name _ (.intImm i) _) => name == table && i == index
  | _ => false

def Event.startsPipeline : Event PapiFn → Bool
  | .call .pipelineStart _ => true
  | _ => false

/-- What has happened when the pipeline is started. -/
def beforeStart (t : List (Event PapiFn)) : List (Event PapiFn) :=
  t.takeWhile fun e => !e.startsPipeline

/-- The elements that `halide_papi_pipeline_start` reads: all names and flags of the funcs, and all
names and flags of the loops. -/
def startReads : List (Expr PapiFn) → List (String × Nat)
  | [_, .intImm numFuncs, .intImm numLoops, .variable funcNames, .variable loopNames,
      .variable funcShowThreadsProd, .variable funcShowThreadsCons, .variable loopShowThreads] =>
      ((List.range numFuncs.toNat).flatMap fun i =>
        [(funcNames, i), (funcShowThreadsProd, i), (funcShowThreadsCons, i)]) ++
      (List.range numLoops.toNat).flatMap fun i => [(loopNames, i), (loopShowThreads, i)]
  | _ => []

/-- Every store has a constant index, and ends within the extent that its table was allocated with. -/
def StoresInside (t : List (Event PapiFn)) : Prop :=
  ∀ name value index predicate, .exec (.store name value index predicate) ∈ t →
    ∃ (i n : Int) (condition : Expr PapiFn) (size : Nat), index = .intImm i ∧ value.bytes = some size ∧
      .enter (.allocate name [.intImm n] condition) ∈ t ∧ 0 ≤ i ∧ size * (i + 1) ≤ HANDLE_BYTES * n

/-- In every execution the pipeline is started, and by then every byte of every element it reads has been
stored exactly once and every store was inside its table. What is stored later is the program's own. -/
def TablesWritten (s : Stmt PapiFn) : Prop :=
  ∀ t ok, s.exec t ok → ∃ args after, t = beforeStart t ++ .call .pipelineStart args :: after ∧
    (∀ element ∈ startReads args, ∀ byte < HANDLE_BYTES,
      (beforeStart t).countP (Event.storesAt element.1 (HANDLE_BYTES * element.2 + byte)) = 1) ∧
    StoresInside (beforeStart t)

/-- Every store has a constant index below the extent of its table. -/
def IndicesInside (t : List (Event PapiFn)) : Prop :=
  ∀ name value index predicate, .exec (.store name value index predicate) ∈ t →
    ∃ (i n : Int) (condition : Expr PapiFn), index = .intImm i ∧
      .enter (.allocate name [.intImm n] condition) ∈ t ∧ 0 ≤ i ∧ i < n

/-- The same with an index for each element, whatever the sizes are: the index of every element that is read
has been stored to exactly once, and no other has. -/
def IndicesWritten (s : Stmt PapiFn) : Prop :=
  ∀ t ok, s.exec t ok → ∃ args after, t = beforeStart t ++ .call .pipelineStart args :: after ∧
    (∀ element ∈ startReads args,
      (beforeStart t).countP (Event.storesIndex element.1 element.2) = 1) ∧
    IndicesInside (beforeStart t)

theorem beforeStart_append {before after : List (Event PapiFn)} {args : List (Expr PapiFn)}
    (h : ∀ e ∈ before, e.startsPipeline = false) :
    beforeStart (before ++ .call .pipelineStart args :: after) = before := by
  rw [beforeStart, List.takeWhile_append_of_pos fun e he => by rw [h e he]; rfl,
    List.takeWhile_cons_of_neg (by simp [Event.startsPipeline]), List.append_nil]

/-! ### What the prologue does -/

/-- A table by its name, the entries stored into it with their indices, and its extent. -/
structure Table where
  name : String
  entries : List (Nat × Expr PapiFn)
  extent : Nat

namespace Table

variable (table : Table)

def indices : List Nat := table.entries.map Prod.fst

def allocateEvent : Event PapiFn :=
  .enter (.allocate table.name [.intImm table.extent] (makeBool true))

/-- The last entry is stored first. -/
def storeEvents : List (Event PapiFn) :=
  (table.entries.map fun p =>
    .exec (.store table.name p.2 (.intImm p.1) (makeBool true))).reverse

/-- Every element is stored once, and nothing outside the extent. -/
def Filled : Prop := table.indices.Perm (List.range table.extent)

theorem mem_storeEvents {e : Event PapiFn} :
    e ∈ table.storeEvents ↔
      ∃ p ∈ table.entries, .exec (.store table.name p.2 (.intImm p.1) (makeBool true)) = e := by
  rw [storeEvents, List.mem_reverse, List.mem_map]

theorem countP_storeEvents (name : String) (i : Nat) :
    table.storeEvents.countP (Event.storesIndex name i) =
      if table.name = name then table.indices.count i else 0 := by
  rw [storeEvents, List.countP_reverse, List.countP_map]
  split
  case isTrue heq =>
    rw [indices, List.count, List.countP_map]
    refine List.countP_congr fun p _ => ?_
    simp [Event.storesIndex, heq]
  case isFalse hne =>
    rw [List.countP_eq_zero]
    intro p _
    simp [Event.storesIndex, hne]

end Table

namespace InjectPAPIProfiling

variable (profiling : InjectPAPIProfiling)

def funcNames : Table :=
  ⟨"profiling_func_names", profiling.indices.toList.map fun p => (p.2, .stringImm p.1),
    profiling.indices.size⟩

def loopNames : Table :=
  ⟨"profiling_loop_names", profiling.loops.toList.map fun p => (p.2, .stringImm p.1),
    profiling.loops.size⟩

def funcThreadsProd : Table :=
  ⟨"profiling_func_threads_prod", profiling.showThreadsProd.toList.map fun p => (p.1, makeBool p.2),
    profiling.indices.size⟩

def funcThreadsCons : Table :=
  ⟨"profiling_func_threads_cons", profiling.showThreadsCons.toList.map fun p => (p.1, makeBool p.2),
    profiling.indices.size⟩

def loopThreads : Table :=
  ⟨"profiling_loop_threads", profiling.showThreadsLoop.toList.map fun p => (p.1, makeBool p.2),
    profiling.loops.size⟩

/-- The tables in the order in which they are allocated and filled. -/
def tables : List Table :=
  [profiling.loopThreads, profiling.funcThreadsCons, profiling.funcThreadsProd, profiling.loopNames,
    profiling.funcNames]

def startArgs (pipelineName : String) : List (Expr PapiFn) :=
  [.stringImm pipelineName, .intImm profiling.indices.size, .intImm profiling.loops.size,
    .variable "profiling_func_names", .variable "profiling_loop_names",
    .variable "profiling_func_threads_prod", .variable "profiling_func_threads_cons",
    .variable "profiling_loop_threads"]

end InjectPAPIProfiling

/-- The events of the prologue before the start. -/
def tableEvents (tables : List Table) : List (Event PapiFn) :=
  .call .registerDestructor [.stringImm "halide_papi_pipeline_end", .call .getState []] ::
    (tables.map Table.allocateEvent ++ tables.flatMap Table.storeEvents)

theorem begins_fillTable {α : Type} (name : String) (extent : Nat) (index : α → Nat)
    (value : α → Expr PapiFn) (entries : List α) {s : Stmt PapiFn} {t : List (Event PapiFn)}
    (h : Begins t s.exec) :
    Begins (Table.storeEvents ⟨name, entries.map fun p => (index p, value p), extent⟩ ++ t)
      (fillTable name index value entries s).exec := by
  induction entries generalizing s t with
  | nil => exact h
  | cons p entries ih =>
    have hstore : Begins (.exec (.store name (value p) (.intImm (index p)) (makeBool true)) :: t)
        (tableStore name s (index p) (value p)).exec := by
      rw [tableStore, Stmt.exec_blockMake]
      exact h.after [_]
    have hrest := ih hstore
    rw [Table.storeEvents, List.map_cons, List.map_cons, List.reverse_cons, List.append_assoc]
    exact hrest

theorem begins_freeTable (table : String) {s : Stmt PapiFn} {t : List (Event PapiFn)}
    (h : Begins t s.exec) : Begins t (freeTable table s).exec := by
  rw [freeTable, Stmt.exec_blockMake]
  exact h.seq

theorem begins_tableAllocate (table : Table) {s : Stmt PapiFn} {t : List (Event PapiFn)}
    (h : Begins t s.exec) :
    Begins (table.allocateEvent :: t) (tableAllocate table.name table.extent s).exec :=
  h.after [table.allocateEvent]

/-- Every execution of the instrumented program starts with the prologue, and then the pipeline. -/
theorem inject_begins (defs : List ProfilerDef) (loopDefs : List ProfilerLoop) (s : Stmt Empty)
    (pipelineName : String) :
    let profiling := (mutate defs loopDefs s init).2
    Begins (tableEvents profiling.tables ++
        [.call .pipelineStart (profiling.startArgs pipelineName)])
      (injectPapiProfiling defs loopDefs s pipelineName).exec := by
  intro profiling
  have hstart : Begins [.call .pipelineStart (profiling.startArgs pipelineName)]
      (startedProgram pipelineName profiling (mutate defs loopDefs s init).1).exec := by
    intro u ok hu
    obtain ⟨v, _, rfl⟩ := (seq_done_left _ _ u ok).mp hu
    exact ⟨_ :: v, rfl⟩
  have hfilled : Begins _ (fillTables profiling _).exec :=
    begins_fillTable _ profiling.loops.size _ _ _ <|
    begins_fillTable _ profiling.indices.size _ _ _ <|
    begins_fillTable _ profiling.indices.size _ _ _ <|
    begins_fillTable _ profiling.loops.size _ _ _ <|
    begins_fillTable _ profiling.indices.size _ _ _ hstart
  have hfreed : Begins _ (freeTables _).exec :=
    begins_freeTable _ <| begins_freeTable _ <| begins_freeTable _ <| begins_freeTable _ <|
      begins_freeTable _ hfilled
  have hallocated : Begins _ (allocateTables profiling _).exec :=
    begins_tableAllocate profiling.loopThreads <| begins_tableAllocate profiling.funcThreadsCons <|
    begins_tableAllocate profiling.funcThreadsProd <| begins_tableAllocate profiling.loopNames <|
    begins_tableAllocate profiling.funcNames hfreed
  rw [inject_eq, Stmt.exec_blockMake]
  have hall := hallocated.after [.call .registerDestructor
    [.stringImm "halide_papi_pipeline_end", .call .getState []]]
  simp only [tableEvents, tables, List.map_cons, List.map_nil, List.flatMap_cons, List.flatMap_nil,
    List.append_nil, List.cons_append, List.append_assoc, List.nil_append]
  exact hall

/-! ### Which tables are filled -/

theorem startsPipeline_tableEvents (tables : List Table) :
    ∀ e ∈ tableEvents tables, e.startsPipeline = false := by
  intro e he
  simp only [tableEvents, List.mem_cons, List.mem_append, List.mem_map, List.mem_flatMap,
    Table.mem_storeEvents] at he
  rcases he with rfl | ⟨table, _, rfl⟩ | ⟨table, _, p, _, rfl⟩ <;> rfl

theorem mem_tableEvents_store {tables : List Table} {name : String}
    {value index predicate : Expr PapiFn} :
    .exec (.store name value index predicate) ∈ tableEvents tables ↔
      ∃ table ∈ tables, ∃ p ∈ table.entries,
        table.name = name ∧ p.2 = value ∧ .intImm p.1 = index ∧ makeBool true = predicate := by
  simp [tableEvents, Table.allocateEvent, Table.mem_storeEvents]

theorem mem_tableEvents_allocate {tables : List Table} {name : String} {n : Int}
    {condition : Expr PapiFn} :
    .enter (.allocate name [.intImm n] condition) ∈ tableEvents tables ↔
      ∃ table ∈ tables, table.name = name ∧ table.extent = n ∧ makeBool true = condition := by
  simp [tableEvents, Table.allocateEvent, Table.mem_storeEvents]

theorem countP_flatMap_storeEvents {tables : List Table} (hnodup : (tables.map Table.name).Nodup)
    {table : Table} (htable : table ∈ tables) (i : Nat) :
    (tables.flatMap Table.storeEvents).countP (Event.storesIndex table.name i) =
      table.indices.count i := by
  induction tables with
  | nil => cases htable
  | cons first rest ih =>
    rw [List.map_cons, List.nodup_cons] at hnodup
    rw [List.flatMap_cons, List.countP_append, Table.countP_storeEvents]
    rcases List.mem_cons.mp htable with rfl | hrest
    · have hnone : (rest.flatMap Table.storeEvents).countP (Event.storesIndex table.name i) = 0 := by
        rw [List.countP_flatMap, List.sum_eq_zero_iff_forall_eq_nat]
        intro n hn
        obtain ⟨other, hother, rfl⟩ := List.mem_map.mp hn
        have hne : other.name ≠ table.name := by
          intro heq
          exact hnodup.1 (heq ▸ List.mem_map_of_mem hother)
        exact (other.countP_storeEvents table.name i).trans (if_neg hne)
      rw [if_pos rfl, hnone, Nat.add_zero]
    · have hne : first.name ≠ table.name := by
        intro heq
        exact hnodup.1 (heq ▸ List.mem_map_of_mem hrest)
      rw [if_neg hne, ih hnodup.2 hrest, Nat.zero_add]

/-- An element is stored as often as its index occurs among those of its table. -/
theorem countP_tableEvents {tables : List Table} (hnodup : (tables.map Table.name).Nodup)
    {table : Table} (htable : table ∈ tables) (i : Nat) :
    (tableEvents tables).countP (Event.storesIndex table.name i) = table.indices.count i := by
  have hallocate : (tables.map Table.allocateEvent).countP (Event.storesIndex table.name i) = 0 := by
    rw [List.countP_map]
    exact List.countP_eq_zero.mpr fun _ _ => Bool.false_ne_true
  rw [tableEvents, List.countP_cons_of_neg (by simp [Event.storesIndex]), List.countP_append, hallocate,
    countP_flatMap_storeEvents hnodup htable, Nat.zero_add]

/-- The indices stay inside their tables exactly if every index of a table is below its extent. -/
theorem indicesInside_tableEvents_iff {tables : List Table}
    (hnodup : (tables.map Table.name).Nodup) :
    IndicesInside (tableEvents tables) ↔
      ∀ table ∈ tables, ∀ i ∈ table.indices, i < table.extent := by
  constructor
  · intro h table htable i hi
    obtain ⟨p, hp, rfl⟩ := List.mem_map.mp hi
    obtain ⟨j, n, condition, hindex, hallocate, _, hlt⟩ :=
      h table.name p.2 (.intImm p.1) (makeBool true)
        (mem_tableEvents_store.mpr ⟨table, htable, p, hp, rfl, rfl, rfl, rfl⟩)
    obtain ⟨other, hother, hname, rfl, _⟩ := mem_tableEvents_allocate.mp hallocate
    have hsame := List.inj_on_of_nodup_map hnodup hother htable hname
    injection hindex with hindex
    rw [hsame] at hlt
    omega
  · intro h name value index predicate hmem
    obtain ⟨table, htable, p, hp, rfl, _, rfl, _⟩ := mem_tableEvents_store.mp hmem
    have hlt := h table htable p.1 (List.mem_map_of_mem hp)
    refine ⟨p.1, table.extent, makeBool true, rfl, ?_, by omega, by omega⟩
    exact mem_tableEvents_allocate.mpr ⟨table, htable, rfl, rfl, rfl⟩

section Inject

variable (defs : List ProfilerDef) (loopDefs : List ProfilerLoop) (s : Stmt Empty)
  (pipelineName : String)

theorem nodup_name_tables (profiling : InjectPAPIProfiling) :
    (profiling.tables.map Table.name).Nodup := by
  simp [tables, funcNames, loopNames, funcThreadsProd, funcThreadsCons, loopThreads]

/-- The start reads the tables from end to end. -/
theorem mem_startReads {profiling : InjectPAPIProfiling} {element : String × Nat} :
    element ∈ startReads (profiling.startArgs pipelineName) ↔
      ∃ table ∈ profiling.tables, element.1 = table.name ∧ element.2 < table.extent := by
  obtain ⟨name, i⟩ := element
  simp only [startReads, startArgs, List.mem_append, List.mem_flatMap, List.mem_range, Int.toNat_natCast,
    List.mem_cons, List.not_mem_nil, or_false, Prod.mk.injEq, tables, exists_eq_or_imp,
    exists_eq_left, funcNames, loopNames, funcThreadsProd, funcThreadsCons, loopThreads]
  grind

/-- Every execution fills the tables, starts the pipeline and goes on. -/
theorem inject_split {t : List (Event PapiFn)} {ok : Bool}
    (ht : (injectPapiProfiling defs loopDefs s pipelineName).exec t ok) :
    let profiling := (mutate defs loopDefs s init).2
    beforeStart t = tableEvents profiling.tables ∧ ∃ after, t = tableEvents profiling.tables ++
      .call .pipelineStart (profiling.startArgs pipelineName) :: after := by
  obtain ⟨after, rfl⟩ := inject_begins defs loopDefs s pipelineName t ok ht
  rw [List.append_assoc, List.singleton_append]
  exact ⟨beforeStart_append (startsPipeline_tableEvents _), after, rfl⟩

/-- What holds of every execution, read off the mutator's maps. -/
theorem inject_indicesWritten_iff_filled :
    IndicesWritten (injectPapiProfiling defs loopDefs s pipelineName) ↔
      ∀ table ∈ (mutate defs loopDefs s init).2.tables, table.Filled := by
  let profiling := (mutate defs loopDefs s init).2
  have hnodup := nodup_name_tables profiling
  constructor
  · intro h table htable
    obtain ⟨t, ht⟩ := Stmt.exec_inhabited (injectPapiProfiling defs loopDefs s pipelineName)
    obtain ⟨hbefore, after, hevents⟩ := inject_split defs loopDefs s pipelineName ht
    obtain ⟨args, after', hevents', hreads, hinside⟩ := h t true ht
    rw [hbefore, hevents] at hevents'
    rw [hbefore] at hreads hinside
    injection List.append_cancel_left hevents' with hcall _
    injection hcall with _ hargs
    subst hargs
    refine perm_range_iff.mpr ⟨fun i hi => ?_, ?_⟩
    · rw [← countP_tableEvents hnodup htable i]
      exact hreads (table.name, i) ((mem_startReads pipelineName).mpr ⟨table, htable, rfl, hi⟩)
    · exact (indicesInside_tableEvents_iff hnodup).mp hinside table htable
  · intro h t ok ht
    obtain ⟨hbefore, after, hevents⟩ := inject_split defs loopDefs s pipelineName ht
    rw [hbefore]
    refine ⟨profiling.startArgs pipelineName, after, hevents, fun element helement => ?_, ?_⟩
    · obtain ⟨table, htable, hname, hlt⟩ := (mem_startReads pipelineName).mp helement
      rw [hname, countP_tableEvents hnodup htable]
      exact (perm_range_iff.mp (h table htable)).1 element.2 hlt
    · exact (indicesInside_tableEvents_iff hnodup).mpr fun table htable =>
        (perm_range_iff.mp (h table htable)).2

end Inject

/-! ### What the mutator's maps hold -/

/-- The funcs of the produce and consume nodes that the mutator visits, each with the kind of the
node. -/
def visitedNodes : Stmt Empty → List (String × Bool)
  | .leaf _ => []
  | .scope _ body | .ifThen _ body => visitedNodes body
  | .producerConsumer name isProducer body => (normalizeName name, isProducer) :: visitedNodes body
  | .for_ _ _ _ _ api body => if api.isGpu then [] else visitedNodes body
  | .block a b | .fork a b | .ifThenElse _ a b => visitedNodes a ++ visitedNodes b

theorem mem_withFunc {indices : Std.TreeMap String Nat} {name f : String} :
    f ∈ withFunc indices name ↔ normalizeName name = f ∨ f ∈ indices := by
  rcases withFunc_eq indices name with ⟨heq, hsome⟩ | ⟨heq, _⟩
  · rw [heq]
    refine ⟨Or.inr, fun h => h.elim (fun hf => ?_) id⟩
    rw [← hf, Std.TreeMap.mem_iff_isSome_getElem?]
    exact Option.isSome_iff_ne_none.mpr hsome
  · rw [heq, number, Std.TreeMap.mem_insert, Std.LawfulEqCmp.compare_eq_iff_eq]

theorem mem_showThreads_setShowThreads {st : InjectPAPIProfiling} {fid i : Nat}
    {isProducer showThreads kind : Bool} :
    i ∈ (st.setShowThreads fid isProducer showThreads).showThreads kind ↔
      (kind = isProducer ∧ fid = i) ∨ i ∈ st.showThreads kind := by
  unfold setShowThreads InjectPAPIProfiling.showThreads
  cases isProducer <;> cases kind <;>
    simp [Std.TreeMap.mem_insert, Std.LawfulEqCmp.compare_eq_iff_eq]

section Maps

variable (defs : List ProfilerDef) (loopDefs : List ProfilerLoop)

/-- The funcs with an index are those visited. -/
theorem mem_indices_mutate (s : Stmt Empty) (st : InjectPAPIProfiling) (f : String) :
    f ∈ (mutate defs loopDefs s st).2.indices ↔
      f ∈ st.indices ∨ ∃ kind, (f, kind) ∈ visitedNodes s := by
  induction s generalizing st with
  | leaf l => simp [mutate, visitedNodes]
  | scope h body ih => exact ih st
  | ifThen c t ih => exact ih st
  | producerConsumer name isProducer body ih =>
    have hvisited : (∃ kind, (f, kind) ∈ visitedNodes (.producerConsumer name isProducer body)) ↔
        normalizeName name = f ∨ ∃ kind, (f, kind) ∈ visitedNodes body := by
      simp [visitedNodes, exists_or, eq_comm]
    rw [mutate_producerConsumer_indices, mem_withFunc, ih, beforeBody_indices, hvisited]
    cases isProducer with
    | true =>
      rw [if_pos rfl, mem_withFunc]
      grind
    | false =>
      rw [if_neg Bool.false_ne_true]
      grind
  | for_ name min extent forType api body ih =>
    rw [mutate_for_indices, visitedNodes]
    cases api.isGpu with
    | true => simp
    | false => exact ih st
  | block a b iha ihb | fork a b iha ihb | ifThenElse c a b iha ihb =>
    rw [mutate, visitedNodes]
    dsimp only
    rw [ihb, iha]
    simp only [List.mem_append, exists_or, or_assoc]

/-- A func keeps its index, so it can be looked up later as well. -/
theorem getElem?_eq_of_known {indices indices' : Std.TreeMap String Nat}
    (hknown : ∀ {f : String} {i : Nat}, indices[f]? = some i → indices'[f]? = some i) {f : String}
    (hf : f ∈ indices) : indices'[f]? = indices[f]? := by
  obtain ⟨i, hi⟩ := Option.isSome_iff_exists.mp (Std.TreeMap.mem_iff_isSome_getElem?.mp hf)
  rw [hi, hknown hi]

/-- A func is in the table of a kind if a node of that kind was visited for it. -/
theorem mem_showThreads_mutate (s : Stmt Empty) (st : InjectPAPIProfiling) (kind : Bool) (i : Nat) :
    i ∈ (mutate defs loopDefs s st).2.showThreads kind ↔
      i ∈ st.showThreads kind ∨ ∃ f, (f, kind) ∈ visitedNodes s ∧
        (mutate defs loopDefs s st).2.indices[f]? = some i := by
  induction s generalizing st with
  | leaf l => simp [mutate, visitedNodes]
  | scope h body ih => exact ih st
  | ifThen c t ih => exact ih st
  | producerConsumer name isProducer body ih =>
    obtain ⟨_, hst⟩ :=
      visitProducerConsumer_state defs name isProducer (mutate defs loopDefs body) st
    let after := (mutate defs loopDefs body (beforeBody defs name isProducer st)).2
    let final := (mutate defs loopDefs (.producerConsumer name isProducer body) st).2
    have hmem : i ∈ final.showThreads kind ↔
        (kind = isProducer ∧ funcId after.indices name = i) ∨ i ∈ after.showThreads kind := by
      dsimp only [final]
      rw [mutate, hst, mem_showThreads_setShowThreads]
      cases isProducer <;> rfl
    have hindices : final.indices = withFunc after.indices name :=
      mutate_producerConsumer_indices ..
    have hown : final.indices[normalizeName name]? = some (funcId after.indices name) := by
      rw [hindices, withFunc_getElem?]
    have hbody : ∀ f, (f, kind) ∈ visitedNodes body → final.indices[f]? = after.indices[f]? := by
      intro f hf
      rw [hindices]
      exact getElem?_eq_of_known (getElem?_withFunc_of_some name)
        ((mem_indices_mutate defs loopDefs body _ f).mpr (Or.inr ⟨kind, hf⟩))
    rw [hmem, ih, beforeBody_showThreads, visitedNodes]
    constructor
    · rintro (⟨rfl, hid⟩ | hi | ⟨f, hf, hi⟩)
      · exact Or.inr ⟨_, List.mem_cons_self, by rw [hown, hid]⟩
      · exact Or.inl hi
      · exact Or.inr ⟨f, List.mem_cons_of_mem _ hf, (hbody f hf).trans hi⟩
    · rintro (hi | ⟨f, hf, hi⟩)
      · exact Or.inr (Or.inl hi)
      · rcases List.mem_cons.mp hf with heq | hf
        · injection heq with hname hkind
          rw [hname, hown] at hi
          exact Or.inl ⟨hkind, Option.some.inj hi⟩
        · exact Or.inr (Or.inr ⟨f, hf, (hbody f hf).symm.trans hi⟩)
  | for_ name min extent forType api body ih =>
    obtain ⟨_, _, hst⟩ := visitFor_state loopDefs name min extent forType api body
      (mutate defs loopDefs body) st
    rw [mutate, hst, visitedNodes]
    cases api.isGpu with
    | true => simp [InjectPAPIProfiling.showThreads]
    | false => exact ih st
  | block a b iha ihb | fork a b iha ihb | ifThenElse c a b iha ihb =>
    have hb := mutate_frame defs loopDefs b (mutate defs loopDefs a st).2
    have ha : ∀ f, (f, kind) ∈ visitedNodes a →
        (mutate defs loopDefs b (mutate defs loopDefs a st).2).2.indices[f]? =
          (mutate defs loopDefs a st).2.indices[f]? := fun f hf =>
      getElem?_eq_of_known hb.known ((mem_indices_mutate defs loopDefs a st f).mpr (Or.inr ⟨kind, hf⟩))
    rw [mutate, visitedNodes]
    dsimp only
    rw [ihb, iha]
    simp only [List.mem_append, or_and_right, exists_or, or_assoc]
    have hswap : (∃ f, (f, kind) ∈ visitedNodes a ∧
          (mutate defs loopDefs a st).2.indices[f]? = some i) ↔
        ∃ f, (f, kind) ∈ visitedNodes a ∧
          (mutate defs loopDefs b (mutate defs loopDefs a st).2).2.indices[f]? = some i :=
      exists_congr fun f => and_congr_right fun hf => by rw [ha f hf]
    rw [hswap]

theorem beforeBody_showThreadsLoop (name : String) (isProducer : Bool) (st : InjectPAPIProfiling) :
    (beforeBody defs name isProducer st).showThreadsLoop = st.showThreadsLoop := by
  obtain ⟨_, _, hcount⟩ := countChild_eq st
  unfold beforeBody
  rw [getFuncId_eq, hcount]
  split <;> rfl

theorem mem_showThreadsLoop_bracketLoop (name : String) (stmt : Stmt PapiFn)
    (st : InjectPAPIProfiling) (i : Nat) :
    i ∈ (bracketLoop loopDefs name stmt st).2.showThreadsLoop ↔
      i ∈ st.showThreadsLoop ∨
        i ∈ (assign st.loops (if loopDefs.any (·.matches name) then [name] else [])).map Prod.fst := by
  unfold bracketLoop
  cases hfind : loopDefs.find? fun l => l.matches name with
  | none =>
    rw [← List.isSome_find?, hfind]
    simp [assign]
  | some it =>
    rw [← List.isSome_find?, hfind]
    simp only [Option.isSome_some, if_true, assign, List.map_cons, List.map_nil,
      List.mem_singleton, Std.TreeMap.mem_insert, Std.LawfulEqCmp.compare_eq_iff_eq]
    rw [or_comm, eq_comm]

/-- The flags of the loops are under the numbers handed out. -/
theorem mem_showThreadsLoop_mutate (s : Stmt Empty) (st : InjectPAPIProfiling) (i : Nat) :
    i ∈ (mutate defs loopDefs s st).2.showThreadsLoop ↔
      i ∈ st.showThreadsLoop ∨
        i ∈ (assign st.loops (profiledLoops loopDefs s)).map Prod.fst := by
  induction s generalizing st with
  | leaf l => simp [mutate, profiledLoops, assign]
  | scope h body ih => exact ih st
  | ifThen c t ih => exact ih st
  | producerConsumer name isProducer body ih =>
    obtain ⟨_, _, _, hst⟩ :=
      visitProducerConsumer_snd defs name isProducer (mutate defs loopDefs body) st
    have hbody := ih (beforeBody defs name isProducer st)
    rw [beforeBody_showThreadsLoop, beforeBody_loops] at hbody
    rw [mutate, hst]
    cases isProducer <;> exact hbody
  | for_ name min extent forType api body ih =>
    have hbody : i ∈ (visitForBody forType api body (mutate defs loopDefs body) st).2.showThreadsLoop ↔
        i ∈ st.showThreadsLoop ∨
          i ∈ (assign st.loops (if api.isGpu then [] else profiledLoops loopDefs body)).map
            Prod.fst := by
      rw [visitForBody_snd]
      split
      · simp [assign]
      · exact ih st
    have hloops := visitForBody_loops loopDefs forType api body st (mutate_loops defs loopDefs body st)
    rw [profiledLoops, assign_append, List.map_append, List.mem_append, ← hloops, ← or_assoc, ← hbody]
    exact mem_showThreadsLoop_bracketLoop loopDefs name _ _ i
  | block a b iha ihb | fork a b iha ihb | ifThenElse c a b iha ihb =>
    rw [mutate, profiledLoops, assign_append, List.map_append, List.mem_append]
    dsimp only
    rw [ihb, iha, mutate_loops, or_assoc]

end Maps

/-! ### When the tables are complete -/

/-- Every loop name is met once, and every func with an index, `overhead` among them, both in a
produce and in a consume node. -/
structure NodesComplete (loopDefs : List ProfilerLoop) (s : Stmt Empty) : Prop where
  loops : (profiledLoops loopDefs s).Nodup
  funcs : ∀ f ∈ "overhead" :: (visitedNodes s).map Prod.fst, ∀ isProducer,
    (f, isProducer) ∈ visitedNodes s

section Complete

variable (defs : List ProfilerDef) (loopDefs : List ProfilerLoop) (s : Stmt Empty)

theorem numbered_init : Numbered init.indices :=
  numbered_empty.number (x := "overhead") Std.TreeMap.getElem?_emptyc

theorem numbered_indices : Numbered (mutate defs loopDefs s init).2.indices :=
  (mutate_frame defs loopDefs s init).numbered numbered_init

theorem filled_keys_iff {m : Std.TreeMap Nat Bool} {n : Nat} :
    (m.toList.map Prod.fst).Perm (List.range n) ↔ ∀ i, i ∈ m ↔ i < n := by
  rw [Std.TreeMap.map_fst_toList_eq_keys,
    List.perm_ext_iff_of_nodup Std.TreeMap.nodup_keys List.nodup_range]
  simp only [Std.TreeMap.mem_keys, List.mem_range]

theorem filled_funcNames : (mutate defs loopDefs s init).2.funcNames.Filled := by
  have hperm := (numbered_indices defs loopDefs s).perm_range
  rw [Table.Filled, Table.indices, funcNames, List.map_map]
  exact hperm

theorem fresh_init_iff :
    Fresh init.loops (profiledLoops loopDefs s) ↔ (profiledLoops loopDefs s).Nodup :=
  ⟨And.left, fun h => ⟨h, fun _ _ => Std.TreeMap.getElem?_emptyc⟩⟩

/-- Names fill their table unless one of them is numbered twice: its old number is then missing. -/
theorem filled_loopNames_iff :
    (mutate defs loopDefs s init).2.loopNames.Filled ↔ (profiledLoops loopDefs s).Nodup := by
  have hempty : Numbered init.loops := numbered_empty
  rw [← fresh_init_iff, Table.Filled, Table.indices, loopNames, List.map_map, mutate_loops]
  refine ⟨fun h => fresh_of_onto hempty fun i hi => ?_, fun h => (hempty.register h).perm_range⟩
  obtain ⟨p, hp, rfl⟩ := List.mem_map.mp (h.mem_iff.mpr (List.mem_range.mpr hi))
  exact ⟨p.1, Std.TreeMap.mem_toList_iff_getElem?_eq_some.mp hp⟩

theorem filled_loopThreads (h : (profiledLoops loopDefs s).Nodup) :
    (mutate defs loopDefs s init).2.loopThreads.Filled := by
  obtain ⟨hassign, hsize⟩ := map_fst_assign ((fresh_init_iff loopDefs s).mpr h)
  rw [Table.Filled, Table.indices, loopThreads, List.map_map]
  dsimp only
  refine filled_keys_iff.mpr fun i => ?_
  have hinit : i ∉ init.showThreadsLoop := Std.TreeMap.not_mem_emptyc
  have hzero : init.loops.size = 0 := rfl
  rw [mem_showThreadsLoop_mutate, mutate_loops, hassign, hsize, or_iff_right hinit, hzero,
    List.mem_range'_1]
  omega

/-- The flags of a kind fill their table if every func was visited in a node of that kind. -/
theorem filled_showThreads_iff (kind : Bool) :
    (((mutate defs loopDefs s init).2.showThreads kind).toList.map Prod.fst).Perm
        (List.range (mutate defs loopDefs s init).2.indices.size) ↔
      ∀ f ∈ "overhead" :: (visitedNodes s).map Prod.fst, (f, kind) ∈ visitedNodes s := by
  let indices := (mutate defs loopDefs s init).2.indices
  have hnumbered : Numbered indices := numbered_indices defs loopDefs s
  have hknown : ∀ f, f ∈ indices ↔ f ∈ "overhead" :: (visitedNodes s).map Prod.fst := by
    intro f
    dsimp only [indices]
    have hempty : f ∉ (Std.TreeMap.empty : Std.TreeMap String Nat) := Std.TreeMap.not_mem_emptyc
    rw [mem_indices_mutate, init, Std.TreeMap.mem_insert, Std.LawfulEqCmp.compare_eq_iff_eq,
      or_iff_left hempty, List.mem_cons, List.mem_map, eq_comm]
    simp
  have hinit : ∀ i, i ∉ init.showThreads kind := by
    intro i
    cases kind <;> exact Std.TreeMap.not_mem_emptyc
  rw [filled_keys_iff]
  constructor
  · intro h f hf
    obtain ⟨i, hi⟩ := Option.isSome_iff_exists.mp
      (Std.TreeMap.mem_iff_isSome_getElem?.mp ((hknown f).mpr hf))
    have hmem := (h i).mpr (hnumbered.lt f i hi)
    rw [mem_showThreads_mutate, or_iff_right (hinit i)] at hmem
    obtain ⟨f', hf', hi'⟩ := hmem
    rwa [hnumbered.inj f f' i hi hi']
  · intro h i
    rw [mem_showThreads_mutate, or_iff_right (hinit i)]
    constructor
    · rintro ⟨f, _, hi⟩
      exact hnumbered.lt f i hi
    · intro hi
      obtain ⟨p, hp, rfl⟩ := List.mem_map.mp (hnumbered.perm_range.mem_iff.mpr (List.mem_range.mpr hi))
      have hget := Std.TreeMap.mem_toList_iff_getElem?_eq_some.mp hp
      have hmem : p.1 ∈ indices := by
        rw [Std.TreeMap.mem_iff_isSome_getElem?, hget]
        rfl
      exact ⟨p.1, h p.1 ((hknown p.1).mp hmem), hget⟩

/-- The index of everything the start reads was stored to exactly if the loop names are distinct and every func,
`overhead` included, occurs both as a produce and as a consume node. -/
theorem inject_indicesWritten_iff (pipelineName : String) :
    IndicesWritten (injectPapiProfiling defs loopDefs s pipelineName) ↔ NodesComplete loopDefs s := by
  have hprod : (mutate defs loopDefs s init).2.funcThreadsProd.Filled ↔
      ∀ f ∈ "overhead" :: (visitedNodes s).map Prod.fst, (f, true) ∈ visitedNodes s := by
    rw [← filled_showThreads_iff defs loopDefs, Table.Filled, Table.indices, funcThreadsProd,
      List.map_map]
    rfl
  have hcons : (mutate defs loopDefs s init).2.funcThreadsCons.Filled ↔
      ∀ f ∈ "overhead" :: (visitedNodes s).map Prod.fst, (f, false) ∈ visitedNodes s := by
    rw [← filled_showThreads_iff defs loopDefs, Table.Filled, Table.indices, funcThreadsCons,
      List.map_map]
    rfl
  rw [inject_indicesWritten_iff_filled]
  constructor
  · intro h
    refine ⟨(filled_loopNames_iff defs loopDefs s).mp (h _ (by simp [tables])), fun f hf => ?_⟩
    rw [Bool.forall_bool]
    exact ⟨hcons.mp (h _ (by simp [tables])) f hf, hprod.mp (h _ (by simp [tables])) f hf⟩
  · intro h table htable
    simp only [tables, List.mem_cons, List.not_mem_nil, or_false] at htable
    rcases htable with rfl | rfl | rfl | rfl | rfl
    · exact filled_loopThreads defs loopDefs s h.loops
    · exact hcons.mpr fun f hf => h.funcs f hf false
    · exact hprod.mpr fun f hf => h.funcs f hf true
    · exact (filled_loopNames_iff defs loopDefs s).mpr h.loops
    · exact filled_funcNames defs loopDefs s

/-! ### What the start reads -/

/-- A flag of a func is stored under an index that the func has. -/
theorem lt_size_of_mem_showThreads {kind : Bool} {i : Nat}
    (h : i ∈ (mutate defs loopDefs s init).2.showThreads kind) :
    i < (mutate defs loopDefs s init).2.indices.size := by
  have hinit : i ∉ init.showThreads kind := by cases kind <;> exact Std.TreeMap.not_mem_emptyc
  rw [mem_showThreads_mutate, or_iff_right hinit] at h
  obtain ⟨f, _, hi⟩ := h
  exact (numbered_indices defs loopDefs s).lt f i hi

theorem one_le_size_indices : 1 ≤ (mutate defs loopDefs s init).2.indices.size := by
  have hknown : "overhead" ∈ (mutate defs loopDefs s init).2.indices := by
    rw [mem_indices_mutate, init]
    exact Or.inl (Std.TreeMap.mem_insert.mpr (Or.inl (by decide)))
  obtain ⟨i, hi⟩ := Option.isSome_iff_exists.mp (Std.TreeMap.mem_iff_isSome_getElem?.mp hknown)
  have hlt := (numbered_indices defs loopDefs s).lt _ i hi
  omega

/-- A flag takes half of the element at its index, and the flags together take less than all of them: the last
byte of the last element is never stored. -/
theorem countP_lastByte_funcThreadsProd :
    (tableEvents (mutate defs loopDefs s init).2.tables).countP
      (Event.storesAt "profiling_func_threads_prod"
        (HANDLE_BYTES * ((mutate defs loopDefs s init).2.indices.size - 1) + 7)) = 0 := by
  let profiling := (mutate defs loopDefs s init).2
  rw [List.countP_eq_zero]
  intro e he hstores
  have hsize : 1 ≤ profiling.indices.size := one_le_size_indices defs loopDefs s
  simp only [tableEvents, List.mem_cons, List.mem_append, List.mem_map, List.mem_flatMap,
    Table.mem_storeEvents] at he
  rcases he with rfl | ⟨table, _, rfl⟩ | ⟨table, htable, p, hp, rfl⟩
  · exact Bool.false_ne_true hstores
  · exact Bool.false_ne_true hstores
  · rw [Event.storesAt, Bool.and_eq_true, beq_iff_eq] at hstores
    obtain ⟨hname, hbyte⟩ := hstores
    have hsame : table = profiling.funcThreadsProd :=
      List.inj_on_of_nodup_map (nodup_name_tables profiling) htable (by simp [tables]) hname
    rw [hsame] at hp
    obtain ⟨flag, hflag, rfl⟩ := List.mem_map.mp hp
    have hmem : flag.1 ∈ profiling.showThreads true := by
      have hget := Std.TreeMap.mem_toList_iff_getElem?_eq_some.mp hflag
      change flag.1 ∈ profiling.showThreadsProd
      rw [Std.TreeMap.mem_iff_isSome_getElem?, hget]
      rfl
    have hlt := lt_size_of_mem_showThreads defs loopDefs s hmem
    have hbounds : (4 : Int) * flag.1 ≤ (HANDLE_BYTES * (profiling.indices.size - 1) + 7 : Nat) ∧
        ((HANDLE_BYTES * (profiling.indices.size - 1) + 7 : Nat) : Int) < 4 * (flag.1 + 1) := by
      simpa [makeBool, Expr.bytes] using hbyte
    have hlt : flag.1 < profiling.indices.size := hlt
    rw [HANDLE_BYTES] at hbounds
    omega

/-- The start reads what was never stored, in every execution. -/
theorem inject_reads_unwritten {t : List (Event PapiFn)} {ok : Bool} {pipelineName : String}
    (ht : (injectPapiProfiling defs loopDefs s pipelineName).exec t ok) :
    ∃ args after, t = beforeStart t ++ .call .pipelineStart args :: after ∧
      ∃ element ∈ startReads args, ∃ byte < HANDLE_BYTES,
        (beforeStart t).countP (Event.storesAt element.1 (HANDLE_BYTES * element.2 + byte)) = 0 := by
  obtain ⟨hbefore, after, hevents⟩ := inject_split defs loopDefs s pipelineName ht
  have hsize := one_le_size_indices defs loopDefs s
  refine ⟨_, after, by rw [hbefore]; exact hevents,
    ("profiling_func_threads_prod", (mutate defs loopDefs s init).2.indices.size - 1), ?_, 7, by decide, ?_⟩
  · rw [mem_startReads]
    refine ⟨(mutate defs loopDefs s init).2.funcThreadsProd, by simp [tables], rfl, ?_⟩
    exact Nat.sub_lt hsize Nat.one_pos
  · rw [hbefore]
    exact countP_lastByte_funcThreadsProd defs loopDefs s

/-- Whatever the program is, the start reads flags that have not been stored whole. -/
theorem inject_not_tablesWritten (pipelineName : String) :
    ¬ TablesWritten (injectPapiProfiling defs loopDefs s pipelineName) := by
  intro h
  obtain ⟨t, ht⟩ := Stmt.exec_inhabited (injectPapiProfiling defs loopDefs s pipelineName)
  obtain ⟨args, after, hevents, element, helement, byte, hbyte, hnone⟩ :=
    inject_reads_unwritten defs loopDefs s ht
  obtain ⟨args', after', hevents', hreads, _⟩ := h t true ht
  injection List.append_cancel_left (hevents.symm.trans hevents') with hcall _
  injection hcall with _ hargs
  rw [hargs] at helement
  have hone := hreads element helement byte hbyte
  rw [hnone] at hone
  cases hone

/-- The output of a pipeline is produced and never consumed, and `overhead` is neither: the flag of the output
takes the upper half of the flag of `overhead`, and no other is stored. -/
theorem not_tablesWritten_output :
    ¬ TablesWritten (injectPapiProfiling [] []
      (.producerConsumer "f" true
        (.for_ "f.s0.x" (.intImm 0) (.intImm 8) .serial .host
          (.leaf (.provide "f" [.intImm 1] [.variable "f.s0.x"]))))
      "p") := by
  intro h
  obtain ⟨t, ht⟩ := Stmt.exec_inhabited (injectPapiProfiling [] []
    (.producerConsumer "f" true
      (.for_ "f.s0.x" (.intImm 0) (.intImm 8) .serial .host
        (.leaf (.provide "f" [.intImm 1] [.variable "f.s0.x"])))) "p")
  obtain ⟨hbefore, after, hevents⟩ := inject_split _ _ _ _ ht
  obtain ⟨args, after', hevents', hreads, _⟩ := h t true ht
  rw [← hbefore] at hevents
  injection List.append_cancel_left (hevents.symm.trans hevents') with hcall _
  injection hcall with _ hargs
  have hone := hreads ("profiling_func_threads_prod", 0) (by rw [← hargs]; decide) 0 (by decide)
  rw [hbefore] at hone
  exact absurd hone (by decide)

end Complete

end ProfHalide
