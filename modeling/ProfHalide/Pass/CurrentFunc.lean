import ProfHalide.Halide.Walk
import ProfHalide.Pass.Visits
import ProfHalide.Runtime.Idle

/-!
# The current func

The single variable `current_func` is set where a produce or consume node begins and nowhere restored. It is
watched here along the walks of an instrumented statement: next to the runtime's state, the watch keeps the
produce nodes that a walk is in, and of each whether a nested one has ended in it since a consume node was
last entered.
-/

namespace ProfHalide

open Behaviour InjectPAPIProfiling

/-! ### Watching a walk -/

structure Watch where
  /-- The produce nodes around, innermost first. Each is marked from the end of a nested one to the next
  entry of a consume node. -/
  produces : List (String × Bool)
  /-- How many loops on a device are around. -/
  device : Nat
  runtime : PapiState

/-- The end of the innermost produce node. -/
def endProduce : List (String × Bool) → List (String × Bool)
  | _ :: outer :: rest => (outer.1, true) :: rest
  | _ => []

namespace Watch

/-- Produce and consume nodes are looked at inside as many device loops as `sees` says. The calls made on a
device go to a state of its own, and of those on the host one alone writes `current_func`. -/
def step (sees : Nat → Bool) (tok : Int) (w : Watch) : Mark PapiFn → Watch
  | .event e =>
      match e.papiCall with
      | some (.setCurrentFunc t) =>
          if w.device = 0 then { w with runtime := (w.runtime.setCurrentFunc tok t).state } else w
      | _ => w
  | .enter name true =>
      if sees w.device then { w with produces := (name, false) :: w.produces } else w
  | .enter _ false =>
      if sees w.device then { w with produces := w.produces.map fun p => (p.1, false) } else w
  | .leave _ true => if sees w.device then { w with produces := endProduce w.produces } else w
  | .leave _ false => w
  | .toDevice => { w with device := w.device + 1 }
  | .fromDevice => { w with device := w.device - 1 }

/-- The watch before a pipeline is started. -/
def start (runtime : PapiState) : Watch := { produces := [], device := 0, runtime }

/-- In no produce node around has a nested one ended without a consume node entered since. -/
def Unmarked (sees : Nat → Bool) (w : Watch) : Prop := sees w.device → ∀ p ∈ w.produces, p.2 = false

/-- On the host, the current func is that of the innermost produce node. -/
def Hit (ids : Std.TreeMap String Nat) (tok : Int) (w : Watch) : Prop :=
  w.device = 0 → ∀ p ∈ w.produces.head?,
    (ids[normalizeName p.1]?.map fun i => tok + i) = some w.runtime.currentFunc

instance (sees : Nat → Bool) (w : Watch) : Decidable (w.Unmarked sees) :=
  inferInstanceAs (Decidable (_ → _))

instance (ids : Std.TreeMap String Nat) (tok : Int) (w : Watch) : Decidable (w.Hit ids tok) :=
  inferInstanceAs (Decidable (_ → _))

/-- `P` holds wherever a leaf statement is reached. -/
def AtLeaves (sees : Nat → Bool) (tok : Int) (P : Watch → Prop) : Watch → List (Mark PapiFn) → Prop
  | _, [] => True
  | w, m :: t => (m.event?.any (·.isLeaf) → P w) ∧ AtLeaves sees tok P (w.step sees tok m) t

instance decidableAtLeaves (sees : Nat → Bool) (tok : Int) (P : Watch → Prop) [DecidablePred P] :
    ∀ (w : Watch) (t : List (Mark PapiFn)), Decidable (AtLeaves sees tok P w t)
  | _, [] => inferInstanceAs (Decidable True)
  | w, m :: t =>
      @instDecidableAnd _ _ (inferInstanceAs (Decidable (_ → P w)))
        (decidableAtLeaves sees tok P (w.step sees tok m) t)

end Watch

/-- Device loops are looked past. -/
def onHost (device : Nat) : Bool := device == 0

/-! ### The watch as an automaton -/

namespace Watch

/-- What holds of each leaf: unless the innermost produce node is marked, its func is the current one. -/
def Right (ids : Std.TreeMap String Nat) (tok : Int) (w : Watch) : Prop :=
  ∀ p ∈ w.produces.head?, p.2 = false →
    (ids[normalizeName p.1]?.map fun i => tok + i) = some w.runtime.currentFunc

instance (ids : Std.TreeMap String Nat) (tok : Int) (w : Watch) : Decidable (w.Right ids tok) :=
  inferInstanceAs (Decidable (∀ p ∈ w.produces.head?, _))

/-- A leaf is rejected if it finds the wrong func on the host. -/
def next (ids : Std.TreeMap String Nat) (tok : Int) (w : Watch) (m : Mark PapiFn) : Option Watch :=
  if m.event?.any (·.isLeaf) → w.device = 0 → w.Right ids tok then some (w.step onHost tok m) else none

variable {ids : Std.TreeMap String Nat} {tok : Int}

theorem atLeaves_of_runAuto {t : List (Mark PapiFn)} {w r : Watch}
    (h : runAuto (next ids tok) w t = some r)
    (hunmarked : AtLeaves onHost tok (Unmarked onHost) w t) : AtLeaves onHost tok (Hit ids tok) w t := by
  induction t generalizing w with
  | nil => trivial
  | cons m t ih =>
    rw [runAuto, next] at h
    split at h
    · next hright =>
      refine ⟨fun hleaf hdevice p hp => ?_, ih h hunmarked.2⟩
      have hclear := hunmarked.1 hleaf (by rw [onHost, hdevice]; rfl) p (List.mem_of_mem_head? hp)
      exact hright hleaf hdevice p hp hclear
    · cases h

/-- The names of the produce nodes around, innermost first, on the host. -/
structure Placed (names : List String) (w : Watch) : Prop where
  device : w.device = 0
  names : w.produces.map Prod.fst = names

/-- Between two statements on the host. -/
structure Ready (ids : Std.TreeMap String Nat) (tok : Int) (names : List String) (w : Watch) : Prop
    extends Placed names w where
  right : w.Right ids tok

theorem ready_start (runtime : PapiState) : (start runtime).Ready ids tok [] := ⟨⟨rfl, rfl⟩, nofun⟩

end Watch

/-- A call, if there is one, leaves `current_func` as it is. -/
def KeepsFunc : Option PapiCall → Prop
  | some (.setCurrentFunc _) => False
  | _ => True

theorem KeepsFunc.of_eq {c c' : Option PapiCall} (h : c = c') (hc : KeepsFunc c') : KeepsFunc c :=
  h ▸ hc

open Watch

variable {ids : Std.TreeMap String Nat} {tok : Int} {names : List String}

/-- Between two statements on the host. -/
abbrev Guards (ids : Std.TreeMap String Nat) (tok : Int) (names : List String)
    (P : Behaviour (Mark PapiFn)) : Prop :=
  Triple (next ids tok) (Ready ids tok names) P (Ready ids tok names)

theorem step_event {sees : Nat → Bool} {e : Event PapiFn} (h : KeepsFunc e.papiCall) (w : Watch) :
    w.step sees tok (.event e) = w := by
  rw [step]
  split
  · next hset =>
    rw [hset] at h
    exact h.elim
  · rfl

theorem next_event {e : Event PapiFn} (h : KeepsFunc e.papiCall) {w : Watch}
    (hw : w.Ready ids tok names) : w.next ids tok (.event e) = some w := by
  rw [next, step_event h, if_pos fun _ _ => hw.right]

theorem guards_event {e : Event PapiFn} (h : KeepsFunc e.papiCall) :
    Guards ids tok names (done [.event e]) :=
  Triple.event fun w hw => ⟨w, next_event h hw, hw⟩

theorem guards_leaf {l : Leaf PapiFn} (h : KeepsFunc l.papiCall) : Guards ids tok names l.walk := by
  have hother : ∀ e : Event PapiFn, KeepsFunc e.papiCall →
      Guards ids tok names (image (fun e => some (Mark.event e)) (done [e])) := by
    intro e he
    rw [image_done]
    exact guards_event he
  cases l with
  | assertStmt c m =>
    rw [Leaf.walk, Leaf.exec, image_either, image_cut]
    have hfails : KeepsFunc (Event.fails c m).papiCall := trivial
    exact (hother (.exec (.assertStmt c m)) trivial).either
      (Triple.cut fun w hw => ⟨w, next_event hfails hw⟩)
  | evaluate e =>
    cases e with
    | call fn args => exact hother _ h
    | _ => exact hother _ trivial
  | _ => exact hother _ trivial

theorem guards_call {fn : PapiFn} {args : List (Expr PapiFn)} (h : KeepsFunc (fn.decode args)) :
    Guards ids tok names (Stmt.evaluate (.call fn args)).walk := guards_leaf h

theorem guards_scope {h : Scope PapiFn} {r : Stmt PapiFn} (hh : KeepsFunc h.papiCall)
    (hr : Guards ids tok names r.walk) : Guards ids tok names (Stmt.scope h r).walk := by
  refine Triple.seq ?_ hr
  have henter : Guards ids tok names (done [.event (.enter h)]) := guards_event trivial
  cases h with
  | letStmt x v =>
    cases v with
    | call fn args =>
      have hcall : Guards ids tok names (done [.event (.call fn args)]) := guards_event hh
      have hboth := hcall.seq henter
      rwa [done_seq_done] at hboth
    | _ => exact henter
  | _ => exact henter

theorem guards_blockMake {r r' : Stmt PapiFn} (hr : Guards ids tok names r.walk)
    (hr' : Guards ids tok names r'.walk) : Guards ids tok names (Stmt.blockMake r r').walk := by
  rw [Stmt.walk_blockMake]
  exact hr.seq hr'

theorem guards_between {r n n' : Stmt PapiFn} (hn : Guards ids tok names n.walk)
    (hr : Guards ids tok names r.walk) (hn' : Guards ids tok names n'.walk) :
    Guards ids tok names (Stmt.blockOf [n, r] n').walk :=
  guards_blockMake hn (guards_blockMake hr hn')

/-! ### Nodes -/

section Node

variable {name : String} {isProducer : Bool} {idx : Nat}

/-- The produce nodes around the body of a node. -/
def inNode (name : String) (isProducer : Bool) (names : List String) : List String :=
  if isProducer then name :: names else names

theorem triple_enter : Triple (next ids tok) (Ready ids tok names) (done [.enter name isProducer])
    (Placed (inNode name isProducer names)) := by
  refine Triple.event fun w hw => ⟨w.step onHost tok (.enter name isProducer), if_pos nofun, ?_⟩
  have hseen : onHost w.device = true := by rw [hw.device]; rfl
  cases isProducer with
  | true =>
    rw [step, if_pos hseen]
    exact ⟨hw.device, congrArg (name :: ·) hw.names⟩
  | false =>
    rw [step, if_pos hseen]
    exact ⟨hw.device, List.map_map.trans hw.names⟩

/-- Setting the current func puts it right, if it is that of the innermost produce node. -/
theorem triple_setCurrentFunc (hidx : ∀ p ∈ names.head?, ids[normalizeName p]? = some idx) :
    Triple (next ids tok) (Placed names) (setCurrentFunc idx).walk (Ready ids tok names) := by
  let e : Event PapiFn := .call .setCurrentFunc [profilerState, profilerToken, .intImm idx]
  have hwalk : (setCurrentFunc idx).walk = done [.event e] := image_done _ [e]
  rw [hwalk]
  refine Triple.event fun w hw => ⟨w.step onHost tok (.event e), if_pos nofun, ?_⟩
  have hstep : w.step onHost tok (.event e) =
      { w with runtime := (w.runtime.setCurrentFunc tok idx).state } := if_pos hw.device
  rw [hstep]
  refine ⟨⟨hw.device, hw.names⟩, fun p hp _ => ?_⟩
  have hhead : p.1 ∈ names.head? := by
    rw [← hw.names, List.head?_map]
    exact Option.mem_map_of_mem _ hp
  rw [hidx _ hhead]
  rfl

theorem triple_leave :
    Triple (next ids tok) (Ready ids tok (inNode name isProducer names))
      (done [.leave name isProducer]) (Ready ids tok names) := by
  refine Triple.event fun w hw => ⟨w.step onHost tok (.leave name isProducer), if_pos nofun, ?_⟩
  cases isProducer with
  | false => exact hw
  | true =>
    have hseen : onHost w.device = true := by rw [hw.device]; rfl
    rw [step, if_pos hseen]
    have hnames := hw.names
    match hproduces : w.produces with
    | [] =>
      rw [hproduces] at hnames
      cases hnames
    | [ended] =>
      rw [hproduces] at hnames
      cases hnames
      exact ⟨⟨hw.device, rfl⟩, nofun⟩
    | ended :: outer :: rest =>
      rw [hproduces] at hnames
      refine ⟨⟨hw.device, (List.cons.inj hnames).2⟩, fun p hp hclear => ?_⟩
      -- The outer node is marked, so nothing is said about it.
      cases hp
      cases hclear

/-- A node that sets the current func to that of the innermost produce node around its body. -/
theorem guards_node {inner : Stmt PapiFn}
    (hidx : ∀ p ∈ (inNode name isProducer names).head?, ids[normalizeName p]? = some idx)
    (hinner : Guards ids tok (inNode name isProducer names) inner.walk) :
    Guards ids tok names
      (Stmt.producerConsumer name isProducer (.blockMake (setCurrentFunc idx) inner)).walk := by
  rw [Stmt.walk, Stmt.walk_blockMake]
  exact triple_enter.seq (((triple_setCurrentFunc hidx).seq hinner).seq triple_leave)

end Node

/-! ### Loops on a device -/

theorem next_device {w : Watch} (hw : w.device ≠ 0) {m : Mark PapiFn} (hm : m.crosses = false) :
    w.next ids tok m = some w := by
  have hunseen : onHost w.device = false := beq_eq_false_iff_ne.mpr hw
  have hstep : w.step onHost tok m = w := by
    cases m with
    | event e =>
      rw [step]
      split
      · rw [if_neg hw]
      · rfl
    | enter name isProducer => cases isProducer <;> rw [step, hunseen, if_neg Bool.false_ne_true]
    | leave name isProducer =>
      cases isProducer with
      | true => rw [step, hunseen, if_neg Bool.false_ne_true]
      | false => rfl
    | toDevice | fromDevice => cases hm
  rw [next, if_pos fun _ hdevice => absurd hdevice hw, hstep]

theorem runAuto_device {w : Watch} (hw : w.device ≠ 0) {t : List (Mark PapiFn)}
    (ht : ∀ m ∈ t, m.crosses = false) : runAuto (next ids tok) w t = some w := by
  induction t with
  | nil => rfl
  | cons m t ih =>
    rw [runAuto, next_device hw (ht m List.mem_cons_self)]
    exact ih fun m hm => ht m (List.mem_cons_of_mem _ hm)

theorem leads_marks {w : Watch} (hw : w.device ≠ 0) {t : List (Mark PapiFn)}
    (ht : ∀ m ∈ t, m.crosses = false) : Leads (next ids tok) w (done t) w :=
  Leads.done (runAuto_device hw ht)

theorem leads_launch {P : Behaviour (Mark PapiFn)} {w : Watch}
    (h : Leads (next ids tok) { w with device := w.device + 1 } P { w with device := w.device + 1 }) :
    Leads (next ids tok) w (seq (done [.toDevice]) (seq P (done [.fromDevice]))) w :=
  (Leads.done rfl).seq (h.seq (Leads.done rfl))

/-- On a device nothing happens to the host's state. -/
theorem leads_device (r : Stmt PapiFn) {w : Watch} (hw : w.device ≠ 0) :
    Leads (next ids tok) w r.walk w := by
  induction r generalizing w with
  | leaf l =>
    rintro _ ok ⟨t, _, rfl⟩
    refine ⟨w, runAuto_device hw fun m hm => ?_, fun _ => rfl⟩
    obtain ⟨e, _, he⟩ := List.mem_filterMap.mp hm
    cases he
    rfl
  | scope h body ih =>
    refine Leads.seq (leads_marks hw fun m hm => ?_) (ih hw)
    obtain ⟨e, _, rfl⟩ := List.mem_map.mp hm
    rfl
  | producerConsumer name isProducer body ih =>
    exact Leads.seq (leads_marks hw (by simp [Mark.crosses]))
      (Leads.seq (ih hw) (leads_marks hw (by simp [Mark.crosses])))
  | for_ x min extent forType api body ih =>
    have hloop : ∀ {w : Watch}, w.device ≠ 0 → Leads (next ids tok) w
        (loop (fun n => [.event (.loop x min extent n)]) body.walk) w := fun hw =>
      Leads.loop (fun _ => runAuto_device hw (by simp [Mark.crosses])) (ih hw)
    rw [Stmt.walk, DeviceAPI.launch]
    split
    · exact leads_launch (hloop (Nat.succ_ne_zero _))
    · exact hloop hw
  | block a b iha ihb | fork a b iha ihb => exact Leads.seq (iha hw) (ihb hw)
  | ifThen c t ih =>
    exact Leads.either (Leads.seq (leads_marks hw (by simp [Mark.crosses])) (ih hw))
      (leads_marks hw (by simp [Mark.crosses]))
  | ifThenElse c t e iht ihe =>
    exact Leads.either (Leads.seq (leads_marks hw (by simp [Mark.crosses])) (iht hw))
      (Leads.seq (leads_marks hw (by simp [Mark.crosses])) (ihe hw))

/-- A loop on a device. -/
theorem guards_launched {P : Behaviour (Mark PapiFn)}
    (h : ∀ w : Watch, w.device ≠ 0 → Leads (next ids tok) w P w) :
    Guards ids tok names (seq (done [.toDevice]) (seq P (done [.fromDevice]))) :=
  Triple.of_leads fun _ _ => leads_launch (h _ (Nat.succ_ne_zero _))

/-! ### The mutator -/

section Mutate

variable (defs : List ProfilerDef) (loopDefs : List ProfilerLoop)

theorem guards_bracketLoop (name : String) {r : Stmt PapiFn} (st : InjectPAPIProfiling)
    (hr : Guards ids tok names r.walk) : Guards ids tok names (bracketLoop loopDefs name r st).1.walk := by
  unfold bracketLoop
  split
  · exact guards_between (guards_call trivial) hr (guards_call trivial)
  · exact hr

theorem guards_countBody (forType : ForType) (api : DeviceAPI) {r : Stmt PapiFn}
    (hr : Guards ids tok names r.walk) : Guards ids tok names (countBody forType api r).walk := by
  unfold countBody
  split
  · exact guards_between (guards_call trivial) hr (guards_call trivial)
  · exact hr

theorem guards_bracketLaunch (forType : ForType) (api : DeviceAPI) {r : Stmt PapiFn}
    (hr : Guards ids tok names r.walk) : Guards ids tok names (bracketLaunch forType api r).walk := by
  unfold bracketLaunch
  split
  · rw [launch_eq]
    exact guards_between (guards_call trivial)
      (guards_between (guards_call trivial) hr (guards_call trivial)) (guards_call trivial)
  · exact hr

theorem guards_bracketBody (profiled : Bool) (name : String) (isProducer : Bool) (idx : Nat)
    {r : Stmt PapiFn} (st : InjectPAPIProfiling) (hr : Guards ids tok names r.walk) :
    Guards ids tok names (bracketBody profiled name isProducer idx r st).1.walk := by
  unfold bracketBody
  split
  · split
    · exact guards_between (guards_call trivial) hr (guards_call trivial)
    · rw [getFuncId_eq]
      exact guards_between (guards_call (.of_eq (decode_enterCurrentFunc _ _) trivial)) hr
        (guards_call (.of_eq (decode_leaveCurrentFunc _ _) trivial))
  · exact hr

theorem guards_bracketNode (profiled : Bool) {r : Stmt PapiFn} (st : InjectPAPIProfiling)
    (hr : Guards ids tok names r.walk) :
    Guards ids tok names (bracketNode profiled r st).1.walk := by
  unfold bracketNode
  split
  · exact guards_between (guards_call trivial) hr (guards_call trivial)
  · exact hr

/-- Wherever a statement begins in which the mutator's innermost func is that of the innermost produce node,
no leaf of what the mutator makes of it finds the wrong func. -/
theorem guards_mutate (s : Stmt Empty) {st : InjectPAPIProfiling} {names : List String}
    (hback : ∀ p ∈ names.head?, ids[normalizeName p]? = some st.stackBack.1)
    (hids : ∀ {f : String} {i : Nat}, (mutate defs loopDefs s st).2.indices[f]? = some i →
      ids[f]? = some i) : Guards ids tok names (mutate defs loopDefs s st).1.walk := by
  induction s generalizing st names with
  | leaf l => exact guards_leaf (.of_eq l.papiCall_lift trivial)
  | scope h body ih => exact guards_scope (.of_eq h.papiCall_lift trivial) (ih hback hids)
  | producerConsumer name isProducer body ih =>
    have hframe := mutate_frame defs loopDefs body (beforeBody defs name isProducer st)
    have hback' : ∀ st' : InjectPAPIProfiling, st'.stack = st.stack →
        st'.stackBack.1 = st.stackBack.1 := by
      intro st' hst'
      rw [stackBack_fst, hst', ← stackBack_fst]
    rw [mutate_producerConsumer_indices] at hids
    have hidsBody : ∀ {f : String} {i : Nat},
        (mutate defs loopDefs body (beforeBody defs name isProducer st)).2.indices[f]? = some i →
          ids[f]? = some i := fun hf => hids (getElem?_withFunc_of_some name hf)
    have hown : isProducer = true → ids[normalizeName name]? = some (funcId st.indices name) := by
      intro hproducer
      refine hidsBody (hframe.known ?_)
      rw [beforeBody_indices, if_pos hproducer]
      exact withFunc_getElem? _ _
    rw [mutate, visitProducerConsumer_eq, finishNode_fst, visitedBody_body, visitedBody_fst]
    refine guards_bracketNode _ _ (guards_node ?_ (guards_bracketBody _ _ _ _ _ (ih ?_ hidsBody)))
    · intro p hp
      cases isProducer with
      | true =>
        cases hp
        exact hown rfl
      | false =>
        rw [if_neg Bool.false_ne_true,
          hback' _ (hframe.stack.trans (beforeBody_stack defs name false st))]
        exact hback p hp
    · intro p hp
      cases isProducer with
      | true =>
        cases hp
        rw [stackBack_fst, beforeBody_stack]
        exact hown rfl
      | false =>
        rw [hback' _ (beforeBody_stack defs name false st)]
        exact hback p hp
  | for_ name min extent forType api body ih =>
    rw [mutate_for_indices] at hids
    rw [mutate, visitFor_fst]
    apply guards_bracketLaunch
    apply guards_bracketLoop
    have hround : ∀ {r : Stmt PapiFn}, Guards ids tok names r.walk → Guards ids tok names
        (loop (fun n => [.event (.loop name (min.mapCall Empty.elim) (extent.mapCall Empty.elim) n)])
          r.walk) :=
      fun hr => Triple.loop (fun _ => guards_event trivial) hr
    rw [Stmt.walk, DeviceAPI.launch]
    cases api with
    | none => exact hround (guards_countBody _ _ (ih hback hids))
    | host => exact hround (guards_countBody _ _ (ih hback hids))
    | _ =>
      exact guards_launched fun w hw =>
        Leads.loop (fun _ => runAuto_device hw (by simp [Mark.crosses])) (leads_device _ hw)
  | block a b iha ihb | fork a b iha ihb | ifThenElse c a b iha ihb =>
    have hframe := mutate_frame defs loopDefs a st
    have hafter := mutate_frame defs loopDefs b (mutate defs loopDefs a st).2
    have ha := iha hback fun hf => hids (hafter.known hf)
    have hb := ihb (by rwa [stackBack_fst, hframe.stack, ← stackBack_fst]) hids
    first
      | exact guards_blockMake ha hb
      | exact Triple.seq ha hb
      | exact Triple.either (Triple.seq (guards_event trivial) ha)
          (Triple.seq (guards_event trivial) hb)
  | ifThen c t ih =>
    exact Triple.either (Triple.seq (guards_event trivial) (ih hback hids))
      (guards_event trivial)

theorem guards_fillTable {α : Type} (table : String) (index : α → Nat) (value : α → Expr PapiFn)
    (entries : List α) {r : Stmt PapiFn} (hr : Guards ids tok names r.walk) :
    Guards ids tok names (fillTable table index value entries r).walk := by
  induction entries generalizing r with
  | nil => exact hr
  | cons p entries ih => exact ih (guards_blockMake (guards_leaf trivial) hr)

theorem guards_inject (s : Stmt Empty) (pipelineName : String) :
    Guards (mutate defs loopDefs s init).2.indices tok []
      (injectPapiProfiling defs loopDefs s pipelineName).walk := by
  have hmutate : Guards (mutate defs loopDefs s init).2.indices tok []
      (mutate defs loopDefs s init).1.walk := guards_mutate defs loopDefs s nofun id
  rw [inject_eq]
  refine guards_blockMake (guards_call trivial) ?_
  iterate 5 refine guards_scope trivial ?_
  iterate 5 refine guards_blockMake ?_ (guards_leaf trivial)
  iterate 5 apply guards_fillTable
  refine guards_scope trivial (guards_blockMake (guards_leaf trivial) ?_)
  refine guards_scope trivial (guards_scope trivial ?_)
  exact guards_between (guards_call trivial) hmutate (guards_call trivial)

/-- On a walk of the instrumented statement on which, in no produce node, a leaf is reached on the host
between the end of a nested one and the next entry of a consume node, both on the host, every leaf on the
host finds the func of the innermost produce node. -/
theorem samplesHit_inject {s : Stmt Empty} {pipelineName : String} {t : List (Mark PapiFn)} {ok : Bool}
    {runtime : PapiState}
    (ht : (injectPapiProfiling defs loopDefs s pipelineName).walk t ok)
    (hunmarked : AtLeaves onHost tok (Unmarked onHost) (Watch.start runtime) t) :
    AtLeaves onHost tok (Hit (mutate defs loopDefs s init).2.indices tok) (Watch.start runtime) t := by
  obtain ⟨r, hr, _⟩ := guards_inject defs loopDefs s pipelineName _ (ready_start runtime) t ok ht
  exact atLeaves_of_runAuto hr hunmarked

end Mutate

/-- `produce f { produce g { g(0) = 1 }; between; f(0) = 1 }` -/
def producedInside (between : Stmt Empty) : Stmt Empty :=
  .producerConsumer "f" true <|
    .block (.producerConsumer "g" true (.leaf (.provide "g" [.intImm 1] [.intImm 0])))
      (.block between (.leaf (.provide "f" [.intImm 1] [.intImm 0])))

/-- `consume g { f(0) = 2 }` -/
def consumedInside : Stmt Empty :=
  .producerConsumer "g" false (.leaf (.provide "f" [.intImm 2] [.intImm 0]))

theorem samplesHit_inject_consumed :
    AtLeaves onHost 7 (Hit (mutate [] [] (producedInside consumedInside) init).2.indices 7)
      (Watch.start PapiState.initial)
      (injectPapiProfiling [] [] (producedInside consumedInside) "pipeline").straight :=
  samplesHit_inject [] [] (Stmt.walk_straight _) (by decide)

/-- The consume node lies in a loop on a GPU, whose body the mutator does not visit: the leaf after the loop
finds the func `g`. -/
theorem not_samplesHit_gpuLoop :
    ¬ ∀ (defs : List ProfilerDef) (loopDefs : List ProfilerLoop) (s : Stmt Empty) (pipelineName : String)
      (t : List (Mark PapiFn)) (ok : Bool) (tok : Int) (runtime : PapiState),
      (injectPapiProfiling defs loopDefs s pipelineName).walk t ok →
      AtLeaves (fun _ => true) tok (Unmarked fun _ => true) (Watch.start runtime) t →
      AtLeaves (fun _ => true) tok (Hit (mutate defs loopDefs s init).2.indices tok)
        (Watch.start runtime) t := by
  intro h
  have hhit := h [] [] (producedInside (.for_ "f.x" (.intImm 0) (.intImm 1) .gpuBlock .cuda consumedInside))
    "pipeline" _ true 7 PapiState.initial (Stmt.walk_straight _) (by decide)
  exact absurd hhit (by decide)

end ProfHalide
