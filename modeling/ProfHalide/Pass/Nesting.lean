import ProfHalide.Pass.Frame
import Mathlib

/-!
# Measured regions do not nest

The runtime measures one region at a time, so the calls that enter and leave regions have to alternate.
Whether they do is decided by the pass from the produce nodes around a node, while what is being
measured there depends on which of these nodes the pass has bracketed. `neverNests` compares the two
on the source, and the calls of every execution alternate exactly when it holds.
-/

namespace ProfHalide

open InjectPAPIProfiling Numbering Behaviour

/-! ### Alternating calls -/

def PapiCall.isMark : PapiCall → Bool
  | .enter _ | .leave _ => true
  | _ => false

/-- The regions entered and left one after the other. -/
def enterLeave (regions : List Region) : List PapiCall :=
  regions.flatMap fun r => [.enter r, .leave r]

/-- Every leave is of the region just entered, and a completed execution leaves the last one. -/
def Alternates (ok : Bool) (calls : List PapiCall) : Prop :=
  ∃ regions, if ok then calls.filter PapiCall.isMark = enterLeave regions
    else calls.filter PapiCall.isMark <+: enterLeave regions

/-- The region being measured, as the calls go by. -/
def measure : Option Region → PapiCall → Option (Option Region)
  | none, .enter r => some (some r)
  | some _, .enter _ => none
  | none, .leave _ => none
  | some r, .leave r' => if r = r' then some none else none
  | q, _ => some q

theorem measure_of_not_isMark {c : PapiCall} (h : c.isMark = false) (q : Option Region) :
    measure q c = some q := by
  cases c with
  | enter r => cases h
  | leave r => cases h
  | _ => cases q <;> rfl

/-- What may follow while `q` is being measured. -/
def pending : Option Region → List PapiCall
  | none => []
  | some r => [.leave r]

theorem runAuto_measure_of_eq {calls : List PapiCall} {q : Option Region} {regions : List Region}
    (h : calls.filter PapiCall.isMark = pending q ++ enterLeave regions) :
    runAuto measure q calls = some none := by
  induction calls generalizing q regions with
  | nil =>
    cases q with
    | none => rfl
    | some r => cases h
  | cons c calls ih =>
    rw [runAuto]
    cases hmark : c.isMark with
    | false =>
      rw [measure_of_not_isMark hmark]
      rw [List.filter_cons, hmark, if_neg Bool.false_ne_true] at h
      exact ih h
    | true =>
      rw [List.filter_cons, hmark, if_pos rfl] at h
      cases q with
      | some r =>
        obtain ⟨hc, hrest⟩ := List.cons.inj h
        rw [hc, measure, if_pos rfl]
        exact ih (q := none) hrest
      | none =>
        cases regions with
        | nil => cases h
        | cons r regions =>
          obtain ⟨hc, hrest⟩ := List.cons.inj h
          rw [hc, measure]
          exact ih (q := some r) hrest

theorem filter_isMark_of_runAuto {calls : List PapiCall} {q q' : Option Region}
    (h : runAuto measure q calls = some q') :
    ∃ regions, calls.filter PapiCall.isMark ++ pending q' = pending q ++ enterLeave regions := by
  induction calls generalizing q with
  | nil =>
    rw [runAuto] at h
    rw [← Option.some.inj h]
    exact ⟨[], (List.append_nil _).symm⟩
  | cons c calls ih =>
    rw [runAuto] at h
    cases hmark : c.isMark with
    | false =>
      rw [measure_of_not_isMark hmark] at h
      rw [List.filter_cons, hmark, if_neg Bool.false_ne_true]
      exact ih h
    | true =>
      rw [List.filter_cons, hmark, if_pos rfl]
      cases c with
      | enter r =>
        cases q with
        | some r' => cases h
        | none =>
          obtain ⟨regions, hrest⟩ := ih (q := some r) h
          exact ⟨r :: regions, congrArg (PapiCall.enter r :: ·) hrest⟩
      | leave r =>
        cases q with
        | none => cases h
        | some r' =>
          rw [measure] at h
          by_cases heq : r' = r
          · rw [if_pos heq] at h
            obtain ⟨regions, hrest⟩ := ih (q := none) h
            rw [heq]
            exact ⟨regions, congrArg (PapiCall.leave r :: ·) hrest⟩
          · rw [if_neg heq] at h
            cases h
      | _ => cases hmark

theorem alternates_of_runAuto {calls : List PapiCall} {q : Option Region} {ok : Bool}
    (h : runAuto measure none calls = some q) (hok : ok = true → q = none) : Alternates ok calls := by
  obtain ⟨regions, hmarks⟩ := filter_isMark_of_runAuto h
  refine ⟨regions, ?_⟩
  cases ok with
  | true =>
    rw [hok rfl] at hmarks
    simpa [pending] using hmarks
  | false => exact ⟨pending q, hmarks⟩

/-! ### The calls of an execution -/

namespace Stmt

/-- The runtime calls of the executions of a statement. -/
def papiTrace (s : Stmt PapiFn) : Behaviour PapiCall := s.exec.image Event.papiCall

theorem papiTrace_inhabited (s : Stmt PapiFn) : s.papiTrace.Inhabited := by
  obtain ⟨t, ht⟩ := s.exec_inhabited
  exact ⟨_, t, ht, rfl⟩

theorem papiTrace_blockMake (a b : Stmt PapiFn) :
    (blockMake a b).papiTrace = seq a.papiTrace b.papiTrace := by
  rw [papiTrace, exec_blockMake, image_seq]
  rfl

theorem papiTrace_call {fn : PapiFn} {args : List (Expr PapiFn)} {c : PapiCall}
    (h : fn.decode args = some c) : (evaluate (.call fn args)).papiTrace = done [c] := by
  rw [papiTrace, exec_evaluate_call, image_done]
  simp [Event.papiCall, h]

theorem papiTrace_leaf (l : Leaf PapiFn) :
    (Stmt.leaf l).papiTrace =
      if l.isAssert then either (done []) (cut []) else done l.papiCall.toList := by
  cases l with
  | assertStmt c m =>
    rw [papiTrace, exec, Leaf.exec, image_either, image_done, image_cut]
    rfl
  | evaluate e =>
    cases e with
    | call fn args =>
      rw [papiTrace, exec_evaluate_call, image_done, List.filterMap_cons, Event.papiCall]
      simp only [Leaf.isAssert, Leaf.papiCall]
      cases fn.decode args <;> rfl
    | _ => exact image_done _ _
  | _ => exact image_done _ _

theorem papiTrace_scope (h : Scope PapiFn) (body : Stmt PapiFn) :
    (Stmt.scope h body).papiTrace = seq (done h.papiCall.toList) body.papiTrace := by
  rw [papiTrace, exec, image_seq, image_done, Scope.filterMap_papiCall_events]
  rfl

theorem papiTrace_for (name : String) (min extent : Expr PapiFn) (forType : ForType)
    (api : DeviceAPI) (body : Stmt PapiFn) :
    (Stmt.for_ name min extent forType api body).papiTrace = loop (fun _ => []) body.papiTrace := by
  rw [papiTrace, exec, image_loop]
  rfl

theorem papiTrace_ifThen (c : Expr PapiFn) (t : Stmt PapiFn) :
    (Stmt.ifThen c t).papiTrace = either t.papiTrace (done []) := by
  rw [papiTrace, exec, image_either, image_seq, image_done, image_done]
  exact congrArg (fun P => either P (done [])) (seq_done_nil _)

theorem papiTrace_ifThenElse (c : Expr PapiFn) (t e : Stmt PapiFn) :
    (Stmt.ifThenElse c t e).papiTrace = either t.papiTrace e.papiTrace := by
  rw [papiTrace, exec, image_either, image_seq, image_seq, image_done, image_done]
  exact congrArg₂ either (seq_done_nil _) (seq_done_nil _)

theorem papiTrace_substitute (name newName : String) (s : Stmt PapiFn) :
    (s.substitute name newName).papiTrace = s.papiTrace := by
  induction s with
  | leaf l =>
    rw [substitute, papiTrace_leaf, papiTrace_leaf, Leaf.papiCall_substitute,
      Leaf.isAssert_substitute]
  | scope h body ih =>
    rw [substitute, papiTrace_scope, papiTrace_scope, Scope.papiCall_substitute]
    split
    · rfl
    · rw [ih]
  | for_ x min extent forType api body ih =>
    rw [substitute, papiTrace_for, papiTrace_for]
    split
    · rfl
    · rw [ih]
  | producerConsumer n p body ih => exact ih
  | block a b iha ihb | fork a b iha ihb =>
    rw [substitute, papiTrace, papiTrace, exec, exec, image_seq, image_seq]
    exact congrArg₂ seq iha ihb
  | ifThen c t ih => rw [substitute, papiTrace_ifThen, papiTrace_ifThen, ih]
  | ifThenElse c t e iht ihe =>
    rw [substitute, papiTrace_ifThenElse, papiTrace_ifThenElse, iht, ihe]

end Stmt

/-! ### Statements that leave the measurement as they find it -/

/-- `s` returns to `q`, or can fail to alternate from `q` on. -/
abbrev Measures (ok : Bool) (q : Option Region) (s : Stmt PapiFn) : Prop :=
  Returns measure ok q s.papiTrace

/-- `s` is of no interest to the measurement. -/
def Silent (s : Stmt PapiFn) : Prop := ∀ q, Measures true q s

theorem leads_toList {c : Option PapiCall} (h : ∀ c' ∈ c, c'.isMark = false) (q : Option Region) :
    Leads measure q (done c.toList) q := by
  apply Leads.done
  cases c with
  | none => rfl
  | some c => rw [Option.toList_some, runAuto, measure_of_not_isMark (h c rfl)]; rfl

theorem silent_leaf {l : Leaf PapiFn} (h : ∀ c ∈ l.papiCall, c.isMark = false) :
    Silent (.leaf l) := by
  intro q
  rw [Measures, Stmt.papiTrace_leaf]
  split
  · exact Leads.either (Leads.done rfl) (Leads.cut rfl)
  · exact leads_toList h q

namespace Measures

variable {ok : Bool} {q : Option Region} {s n n' : Stmt PapiFn}

theorem before (hn : Silent n) (h : Measures ok q s) : Measures ok q (.blockMake n s) := by
  rw [Measures, Stmt.papiTrace_blockMake]
  exact (hn q).seq h n.papiTrace_inhabited s.papiTrace_inhabited

theorem after (h : Measures ok q s) (hn : Silent n) : Measures ok q (.blockMake s n) := by
  rw [Measures, Stmt.papiTrace_blockMake]
  have hseq := Returns.seq h (hn q) s.papiTrace_inhabited n.papiTrace_inhabited
  rwa [Bool.and_true] at hseq

theorem between (hn : Silent n) (h : Measures ok q s) (hn' : Silent n') :
    Measures ok q (.blockOf [n, s] n') := before hn (after h hn')

theorem scope {h : Scope PapiFn} (hh : ∀ c ∈ h.papiCall, c.isMark = false)
    (hs : Measures ok q s) : Measures ok q (.scope h s) := by
  rw [Measures, Stmt.papiTrace_scope]
  have hhead : Returns measure true q (done h.papiCall.toList) := leads_toList hh q
  exact hhead.seq hs (Inhabited.done _) s.papiTrace_inhabited

/-- A statement bracketed by two calls that open and close a measurement, or close and reopen one. -/
theorem marked {c c' : PapiCall} {fn fn' : PapiFn} {args args' : List (Expr PapiFn)}
    {q' : Option Region} (hfn : fn.decode args = some c) (hfn' : fn'.decode args' = some c')
    (hopen : measure q c = some q') (hclose : measure q' c' = some q) (h : Measures ok q' s) :
    Measures ok q (.blockOf [.evaluate (.call fn args), s] (.evaluate (.call fn' args'))) := by
  rw [Measures, Stmt.blockOf_cons, Stmt.blockOf_cons, Stmt.blockOf_nil, Stmt.papiTrace_blockMake,
    Stmt.papiTrace_blockMake, Stmt.papiTrace_call hfn, Stmt.papiTrace_call hfn']
  exact Returns.between hopen hclose h

/-- A statement bracketed by calls of which the first comes at the wrong time. -/
theorem misplaced {c : PapiCall} {fn : PapiFn} {args : List (Expr PapiFn)}
    (hfn : fn.decode args = some c) (hopen : measure q c = none) (s : Stmt PapiFn) :
    Measures false q (.blockMake (.evaluate (.call fn args)) s) := by
  rw [Measures, Stmt.papiTrace_blockMake, Stmt.papiTrace_call hfn]
  exact Rejects.first hopen s.papiTrace_inhabited

end Measures

theorem silent_evaluate {fn : PapiFn} {args : List (Expr PapiFn)} {c : PapiCall}
    (hfn : fn.decode args = some c) (hmark : c.isMark = false) :
    Silent (.evaluate (.call fn args)) := by
  refine silent_leaf fun c' hc => ?_
  rw [Leaf.papiCall, hfn] at hc
  rw [← Option.some.inj hc]
  exact hmark

theorem Measures.countBody {ok : Bool} {q : Option Region} {s : Stmt PapiFn} (forType : ForType)
    (api : DeviceAPI) (h : Measures ok q s) : Measures ok q (countBody forType api s) := by
  unfold ProfHalide.countBody
  split
  · exact Measures.between (silent_evaluate rfl rfl) h (silent_evaluate rfl rfl)
  · exact h

theorem Measures.bracketLaunch {ok : Bool} {q : Option Region} {s : Stmt PapiFn} (forType : ForType)
    (api : DeviceAPI) (h : Measures ok q s) : Measures ok q (bracketLaunch forType api s) := by
  unfold ProfHalide.bracketLaunch
  split
  · rw [launch_eq]
    exact Measures.between (silent_evaluate rfl rfl)
      (Measures.between (silent_evaluate rfl rfl) h (silent_evaluate rfl rfl))
      (silent_evaluate rfl rfl)
  · exact h

theorem measures_lift (s : Stmt Empty) (q : Option Region) :
    Measures true q (s.mapCall Empty.elim) := by
  induction s with
  | leaf l => exact silent_leaf (by simp [Leaf.papiCall_lift]) q
  | scope h body ih => exact ih.scope (by simp [Scope.papiCall_lift])
  | producerConsumer n p body ih => exact ih
  | for_ x min extent forType api body ih =>
    rw [Stmt.mapCall, Measures, Stmt.papiTrace_for]
    exact ih.loop fun _ => rfl
  | block a b iha ihb | fork a b iha ihb =>
    have hseq := Returns.seq iha ihb (Stmt.papiTrace_inhabited _) (Stmt.papiTrace_inhabited _)
    rw [Stmt.mapCall, Measures, Stmt.papiTrace, Stmt.exec, image_seq]
    exact hseq
  | ifThen c t ih =>
    rw [Stmt.mapCall, Measures, Stmt.papiTrace_ifThen]
    exact Returns.either ih (Leads.done rfl)
  | ifThenElse c t e iht ihe =>
    rw [Stmt.mapCall, Measures, Stmt.papiTrace_ifThenElse]
    exact Returns.either iht ihe

/-! ### The condition on the source -/

/-- What is being measured where a statement stands. -/
inductive Slot where
  | idle
  /-- The overhead of a func. -/
  | overhead (func : String)
  /-- A func at its level, or a loop. -/
  | busy
  deriving DecidableEq, Repr

/-- Wherever the pass opens a measurement, none is open: at a profiled node at top level and at a
registered loop nothing is being measured, and at a profiled node inside a produce node just the
overhead of that produce node. `around` is the innermost produce node, with whether its registration
enables it. -/
def neverNests (defs : List ProfilerDef) (loopDefs : List ProfilerLoop) :
    Option (String × Bool) → Slot → Stmt Empty → Bool
  | _, _, .leaf _ => true
  | around, slot, .scope _ body | around, slot, .ifThen _ body =>
      neverNests defs loopDefs around slot body
  | around, slot, .block a b | around, slot, .fork a b | around, slot, .ifThenElse _ a b =>
      neverNests defs loopDefs around slot a && neverNests defs loopDefs around slot b
  | around, slot, .for_ name _ _ _ api body =>
      let registered := loopDefs.any (·.matches name)
      (!registered || slot == .idle) &&
        (api.isGpu || neverNests defs loopDefs around (if registered then .busy else slot) body)
  | around, slot, .producerConsumer name isProducer body =>
      let func := normalizeName name
      let it := defs.find? fun d =>
        d.matches name isProducer (around.elim "overhead" (·.1))
      let registered := it.any (·.enable)
      let profiled := registered || (it.isNone && around.any (·.2))
      let inner := if isProducer then some (func, registered) else around
      if profiled then
        slot == around.elim .idle (.overhead ·.1) &&
          neverNests defs loopDefs inner
            (if isProducer && childrens func true 0 body > 0 then .overhead func else .busy) body
      else neverNests defs loopDefs inner slot body

/-! ### The mutator -/

/-- What is measured is what the slot says. -/
def Slot.Is (indices : Std.TreeMap String Nat) (q : Option Region) : Slot → Prop
  | .idle => q = none
  | .overhead func => ∃ i : Nat, indices[func]? = some i ∧ q = some (.overhead i)
  | .busy => ∃ r, q = some r ∧ ∀ i, r ≠ .overhead i

/-- The mutator's stacks describe the produce nodes around the current node. -/
def Enclosed (st : InjectPAPIProfiling) : Option (String × Bool) → Prop
  | none => st.stack = [0] ∧ st.profileStack = []
  | some (func, registered) => ∃ (i : Nat) (rest : List Nat) (threads : Bool)
      (others : List (Bool × Bool)), st.indices[func]? = some i ∧ st.stack = i :: rest ∧ rest ≠ [] ∧
      st.profileStack = (registered, threads) :: others

structure At (around : Option (String × Bool)) (slot : Slot) (st : InjectPAPIProfiling)
    (q : Option Region) : Prop where
  numbered : Numbered st.indices
  top : st.indices["overhead"]? = some 0
  enclosed : Enclosed st around
  slot : slot.Is st.indices q

section At

variable {around : Option (String × Bool)} {slot : Slot} {st st' : InjectPAPIProfiling}
  {q : Option Region}

theorem Slot.Is.mono {indices indices' : Std.TreeMap String Nat}
    (hknown : ∀ {f : String} {i : Nat}, indices[f]? = some i → indices'[f]? = some i)
    (h : slot.Is indices q) : slot.Is indices' q := by
  cases slot with
  | idle => exact h
  | busy => exact h
  | overhead func =>
    obtain ⟨i, hi, hq⟩ := h
    exact ⟨i, hknown hi, hq⟩

theorem At.frame (h : At around slot st q) (hframe : Frame st st') : At around slot st' q where
  numbered := hframe.numbered h.numbered
  top := hframe.known h.top
  slot := h.slot.mono hframe.known
  enclosed := by
    have henclosed := h.enclosed
    cases around with
    | none => exact ⟨hframe.stack.trans henclosed.1, hframe.profileStack.trans henclosed.2⟩
    | some func =>
      obtain ⟨i, rest, threads, others, hi, hstack, hrest, hprofile⟩ := henclosed
      exact ⟨i, rest, threads, others, hframe.known hi, hframe.stack.trans hstack, hrest,
        hframe.profileStack.trans hprofile⟩

theorem At.stack_ne_nil (h : At around slot st q) : st.stack ≠ [] := by
  have henclosed := h.enclosed
  cases around with
  | none => simp [henclosed.1]
  | some func =>
    obtain ⟨_, _, _, _, _, hstack, _⟩ := henclosed
    simp [hstack]

/-- Looking a name up by its number, as the mutator does, with the last hit winning. -/
theorem foldl_name_eq {entries : List (String × Nat)} {name : String} {i : Nat}
    (hunique : ∀ p ∈ entries, p.2 = i → p.1 = name) {found : String}
    (hfound : found = name ∨ (name, i) ∈ entries) :
    entries.foldl (fun found func => if func.2 = i then func.1 else found) found = name := by
  induction entries generalizing found with
  | nil => simpa using hfound
  | cons p entries ih =>
    rw [List.foldl_cons]
    refine ih (fun p hp => hunique p (List.mem_cons_of_mem _ hp)) ?_
    by_cases hp : p.2 = i
    · rw [if_pos hp]
      exact Or.inl (hunique p List.mem_cons_self hp)
    · rw [if_neg hp]
      rcases hfound with h | h
      · exact Or.inl h
      · rcases List.mem_cons.mp h with h | h
        · exact absurd (congrArg Prod.snd h).symm hp
        · exact Or.inr h

theorem At.parentName_eq (h : At around slot st q) :
    st.parentName = around.elim "overhead" (·.1) := by
  have hlookup : ∀ {f : String} {i : Nat}, st.indices[f]? = some i →
      st.indices.toList.foldl (fun found func => if func.2 = i then func.1 else found) "" = f := by
    intro f i hf
    refine foldl_name_eq ?_ (Or.inr (Std.TreeMap.mem_toList_iff_getElem?_eq_some.mpr hf))
    intro p hp heq
    have hp' : st.indices[p.1]? = some p.2 := Std.TreeMap.mem_toList_iff_getElem?_eq_some.mp hp
    exact h.numbered.inj p.1 f i (heq ▸ hp') hf
  have henclosed := h.enclosed
  unfold InjectPAPIProfiling.parentName
  cases around with
  | none =>
    rw [henclosed.1]
    exact hlookup h.top
  | some func =>
    obtain ⟨i, rest, _, _, hi, hstack, hrest, _⟩ := henclosed
    have hlen : (i :: rest).length > 1 := by
      have hpos := List.length_pos_iff.mpr hrest
      rw [List.length_cons]
      omega
    rw [stackBack_fst, hstack, if_pos hlen]
    exact hlookup hi

end At

/-! ### One visit -/

section Visit

variable {around : Option (String × Bool)} {slot : Slot} {st : InjectPAPIProfiling}
  {q : Option Region} {ok : Bool} {name : String} {isProducer : Bool} {idx : Nat}
  {body stmt : Stmt PapiFn}

theorem inherit_fst (it : Option ProfilerDef) (status : Bool × Bool) :
    (st.inherit it status).1.1 =
      (status.1 || (it.isNone && st.profileStack.head?.any (·.1))) := by
  obtain ⟨profiled, threads⟩ := status
  unfold inherit profileStackBack
  cases profiled with
  | true => rfl
  | false =>
    cases it with
    | some d => rfl
    | none =>
      cases hprofile : st.profileStack with
      | nil => rfl
      | cons top others =>
        obtain ⟨profiled, threads⟩ := top
        cases profiled <;> rfl

/-- The region a profiled node measures. -/
def InjectPAPIProfiling.region (st : InjectPAPIProfiling) (name : String) (isProducer : Bool)
    (idx : Nat) : Region :=
  if isProducer && st.funcChildrens idx > 0 then .overhead idx
  else .func (funcId st.indices name) isProducer

theorem decode_enterCurrentFunc (fid : Nat) (isProducer : Bool) :
    PapiFn.enterCurrentFunc.decode
      [profilerState, profilerToken, .intImm fid, makeBool isProducer] =
        some (.enter (.func fid isProducer)) := by
  cases isProducer <;> rfl

theorem decode_leaveCurrentFunc (fid : Nat) (isProducer : Bool) :
    PapiFn.leaveCurrentFunc.decode
      [profilerState, profilerToken, .intImm fid, makeBool isProducer] =
        some (.leave (.func fid isProducer)) := by
  cases isProducer <;> rfl

theorem measures_bracketBody
    (hbody : Measures ok (some (st.region name isProducer idx)) body) :
    Measures ok none (bracketBody true name isProducer idx body st).1 := by
  unfold bracketBody
  unfold InjectPAPIProfiling.region at hbody
  rw [if_pos rfl]
  split
  case isTrue h =>
    rw [if_pos h] at hbody
    exact Measures.marked rfl rfl rfl (if_pos rfl) hbody
  case isFalse h =>
    rw [if_neg h] at hbody
    rw [getFuncId_eq]
    exact Measures.marked (decode_enterCurrentFunc _ _) (decode_leaveCurrentFunc _ _) rfl
      (if_pos rfl) hbody

theorem misplaced_bracketBody (r : Region) :
    Measures false (some r) (bracketBody true name isProducer idx body st).1 := by
  unfold bracketBody
  rw [if_pos rfl]
  split
  · exact Measures.misplaced rfl rfl _
  · rw [getFuncId_eq]
    exact Measures.misplaced (decode_enterCurrentFunc _ _) rfl _

/-- Inside a produce node whose overhead is being measured, a profiled node is measured on its own. -/
theorem measures_bracketNode {func : String × Bool} {i : Nat} (henclosed : Enclosed st (some func))
    (hi : st.indices[func.1]? = some i) (hstmt : Measures ok none stmt) :
    Measures ok (some (.overhead i)) (bracketNode true stmt st).1 := by
  obtain ⟨i', rest, threads, others, hi', hstack, _, hprofile⟩ := henclosed
  have heq : i' = i := Option.some.inj (hi'.symm.trans hi)
  have hback : st.stackBack.1 = i := by rw [stackBack_fst, hstack, heq, List.headD_cons]
  unfold bracketNode
  simp only [hprofile, List.isEmpty_cons, Bool.not_false, Bool.and_true, if_true, hback]
  exact Measures.marked rfl rfl (if_pos rfl) rfl hstmt

theorem misplaced_bracketNode {func : String × Bool} (hat : At (some func) slot st q)
    (hslot : slot ≠ .overhead func.1) : Measures false q (bracketNode true stmt st).1 := by
  obtain ⟨i, rest, threads, others, hi, hstack, _, hprofile⟩ := hat.enclosed
  have hback : st.stackBack.1 = i := by rw [stackBack_fst, hstack, List.headD_cons]
  have hreject : measure q (.leave (.overhead i)) = none := by
    have hq := hat.slot
    cases slot with
    | idle => rw [hq]; rfl
    | busy =>
      obtain ⟨r, hr, hne⟩ := hq
      rw [hr, measure, if_neg (hne i)]
    | overhead other =>
      obtain ⟨j, hj, hq⟩ := hq
      have hne : Region.overhead (j : Int) ≠ .overhead i := by
        intro heq
        injection heq with heq
        have hji : j = i := by omega
        exact hslot (congrArg Slot.overhead (hat.numbered.inj _ _ i (hji ▸ hj) hi))
      rw [hq, measure, if_neg hne]
  unfold bracketNode
  simp only [hprofile, List.isEmpty_cons, Bool.not_false, Bool.and_true, if_true, hback]
  exact Measures.misplaced rfl hreject _

theorem bracketNode_top (henclosed : Enclosed st none) (profiled : Bool) :
    (bracketNode profiled stmt st).1 = stmt := by
  unfold bracketNode
  rw [henclosed.2, List.isEmpty_nil, Bool.not_true, Bool.and_false, if_neg Bool.false_ne_true]

theorem finishNode_fst (it : Option ProfilerDef) (status : Bool × Bool) :
    (finishNode it status name isProducer idx body st).1 =
      (bracketNode (st.inherit it status).1.1
        (.producerConsumer name isProducer (.blockMake (setCurrentFunc idx)
          (bracketBody (st.inherit it status).1.1 name isProducer idx body st).1)) st).1 := by
  obtain ⟨_, hinherit⟩ := inherit_snd st it status
  have hbody : ∀ profiled emptyBack,
      (bracketBody profiled name isProducer idx body { st with emptyBack := emptyBack }).1 =
        (bracketBody profiled name isProducer idx body st).1 := by
    intro profiled emptyBack
    unfold bracketBody
    rw [getFuncId_eq, getFuncId_eq]
    split
    · split <;> rfl
    · rfl
  have hnode : ∀ (profiled : Bool) (stmt : Stmt PapiFn) (st' : InjectPAPIProfiling),
      st'.stack = st.stack → st'.profileStack = st.profileStack →
      (bracketNode profiled stmt st').1 = (bracketNode profiled stmt st).1 := by
    intro profiled stmt st' hstack hprofile
    have hback : st'.stackBack.1 = st.stackBack.1 := by
      rw [stackBack_fst, stackBack_fst, hstack]
    unfold bracketNode
    rw [hprofile]
    split
    · dsimp only
      rw [hback]
    · rfl
  obtain ⟨indices, _, hafter⟩ := bracketBody_snd (st.inherit it status).2
    (st.inherit it status).1.1 name isProducer idx body
  unfold finishNode
  dsimp only
  rw [hnode _ _ _ (by rw [hafter, hinherit]) (by rw [hafter, hinherit]), hinherit, hbody]

theorem silent_setCurrentFunc (idx : Nat) : Silent (setCurrentFunc idx) := silent_evaluate rfl rfl

/-- The top of the stack is about the produce node around. -/
theorem At.head?_profileStack (h : At around slot st q) :
    st.profileStack.head?.map (·.1) = around.map (·.2) := by
  have henclosed := h.enclosed
  cases around with
  | none => rw [henclosed.2]; rfl
  | some func =>
    obtain ⟨_, _, _, _, _, _, _, hprofile⟩ := henclosed
    rw [hprofile]
    rfl

theorem At.any_profileStack (h : At around slot st q) :
    st.profileStack.head?.any (·.1) = around.any (·.2) := by
  have hany := congrArg (Option.any id) h.head?_profileStack
  rwa [Option.any_map, Option.any_map] at hany

/-- A node whose profiling has been decided, in a state in which its body has been mutated. -/
theorem measures_finishNode (it : Option ProfilerDef) (status : Bool × Bool) (profiled : Bool)
    (hprofiled : (status.1 || (it.isNone && around.any (·.2))) = profiled)
    (hat : At around slot st q) {ok' : Bool}
    (hbody : profiled = true → Measures ok (some (st.region name isProducer idx)) body)
    (hbody' : profiled = false → Measures ok' q body) :
    Measures
      (if profiled then slot == around.elim .idle (.overhead ·.1) && ok else ok') q
      (finishNode it status name isProducer idx body st).1 := by
  rw [finishNode_fst, inherit_fst, hat.any_profileStack, hprofiled]
  cases profiled with
  | false => exact (hbody' rfl).before (silent_setCurrentFunc idx)
  | true =>
    have hnode : Measures ok none (.producerConsumer name isProducer (.blockMake (setCurrentFunc idx)
        (bracketBody true name isProducer idx body st).1)) :=
      (measures_bracketBody (hbody rfl)).before (silent_setCurrentFunc idx)
    rw [if_pos rfl]
    cases around with
    | some func =>
      by_cases hslot : slot = .overhead func.1
      · obtain ⟨i, hi, hq⟩ : ∃ i : Nat, st.indices[func.1]? = some i ∧ q = some (.overhead i) := by
          have hq := hat.slot
          rwa [hslot] at hq
        rw [hq, Option.elim_some, hslot, beq_self_eq_true, Bool.true_and]
        exact measures_bracketNode hat.enclosed hi hnode
      · rw [Option.elim_some, beq_eq_false_iff_ne.mpr hslot, Bool.false_and]
        exact misplaced_bracketNode hat hslot
    | none =>
      rw [bracketNode_top hat.enclosed, Option.elim_none]
      have hq := hat.slot
      have hmisplaced : ∀ r, q = some r → Measures false q (.producerConsumer name isProducer
          (.blockMake (setCurrentFunc idx) (bracketBody true name isProducer idx body st).1)) := by
        intro r hr
        rw [hr]
        exact (misplaced_bracketBody r).before (silent_setCurrentFunc idx)
      cases slot with
      | idle =>
        rw [beq_self_eq_true, Bool.true_and, hq]
        exact hnode
      | overhead func =>
        obtain ⟨i, _, hq⟩ := hq
        exact hmisplaced _ hq
      | busy =>
        obtain ⟨r, hq, _⟩ := hq
        exact hmisplaced r hq

end Visit

/-! ### Whole statements -/

section Mutate

variable (defs : List ProfilerDef) (loopDefs : List ProfilerLoop)

/-- The body of a node, inside the node. -/
theorem At.beforeBody {around : Option (String × Bool)} {slot slot' : Slot}
    {st : InjectPAPIProfiling} {q q' : Option Region} (hat : At around slot st q) (name : String)
    (isProducer : Bool)
    (hslot : slot'.Is (beforeBody defs name isProducer st).indices q') :
    At (if isProducer then
        some (normalizeName name, (registration defs name isProducer st).any (·.enable))
      else around) slot' (ProfHalide.beforeBody defs name isProducer st) q' := by
  have hindices := beforeBody_indices defs name isProducer st
  have hstack := beforeBody_stack defs name isProducer st
  have hprofile := beforeBody_profileStack defs name isProducer st
  cases isProducer with
  | false =>
    have hframe : Frame st (ProfHalide.beforeBody defs name false st) :=
      ⟨hstack, hprofile, fun hf => by rw [hindices]; exact hf, fun hn => by rw [hindices]; exact hn⟩
    have hat' := hat.frame hframe
    exact ⟨hat'.numbered, hat'.top, hat'.enclosed, hslot⟩
  | true =>
    refine ⟨?_, ?_, ?_, hslot⟩
    · rw [hindices]
      exact numbered_withFunc hat.numbered name
    · rw [hindices]
      exact getElem?_withFunc_of_some name hat.top
    · refine ⟨funcId st.indices name, st.stack, _, st.profileStack, ?_, hstack, hat.stack_ne_nil,
        hprofile⟩
      rw [hindices]
      exact withFunc_getElem? _ _

/-- What the region of a node is, from the source. -/
theorem region_is {st after : InjectPAPIProfiling} {name : String} {isProducer : Bool} {idx : Nat}
    (body : Stmt Empty) (hnumbered : Numbered st.indices) (hne : st.stack ≠ [])
    (hidx : isProducer = true → idx = funcId st.indices name)
    (hafter : after.funcChildrens =
      (mutate defs loopDefs body (beforeBody defs name isProducer st)).2.funcChildrens) :
    Slot.Is (beforeBody defs name isProducer st).indices (some (after.region name isProducer idx))
      (if isProducer && childrens (normalizeName name) true 0 body > 0 then
        .overhead (normalizeName name) else .busy) := by
  unfold InjectPAPIProfiling.region
  cases isProducer with
  | false => exact ⟨_, rfl, fun i h => by cases h⟩
  | true =>
    have hindices := beforeBody_indices defs name true st
    have hfunc : (beforeBody defs name true st).indices[normalizeName name]? = some idx := by
      rw [hindices, hidx rfl]
      exact withFunc_getElem? _ _
    have hnumbered' : Numbered (beforeBody defs name true st).indices := by
      rw [hindices]
      exact numbered_withFunc hnumbered name
    have hstack := beforeBody_stack defs name true st
    have hinside : (beforeBody defs name true st).inside idx = true := by
      have hpos := List.length_pos_iff.mpr hne
      rw [InjectPAPIProfiling.inside, hstack, if_pos rfl, hidx rfl]
      simp
      omega
    have hcount : (beforeBody defs name true st).funcChildrens idx = 0 := by
      have hreset : (beforeBody defs name true st).funcChildrens =
          Function.update st.countChild.funcChildrens (funcId st.indices name) 0 := by
        simp [beforeBody, pushProducer, getFuncId_eq]
      rw [hreset, hidx rfl, Function.update_self]
    have hchildrens := mutate_funcChildrens defs loopDefs body (beforeBody defs name true st)
      hnumbered' hfunc (by rw [hstack]; exact List.cons_ne_nil _ _)
    rw [hinside, hcount] at hchildrens
    rw [hafter, hchildrens]
    by_cases hpos : childrens (normalizeName name) true 0 body > 0
    · simp only [hpos, decide_true, Bool.and_self, if_true]
      exact ⟨idx, hfunc, rfl⟩
    · simp only [hpos, decide_false, Bool.and_false, Bool.false_eq_true, if_false]
      exact ⟨_, rfl, fun i h => by cases h⟩

theorem measures_visitForBody (forType : ForType) (api : DeviceAPI) (opBody : Stmt Empty)
    {mutateBody : Mutation} {st : InjectPAPIProfiling} {ok : Bool} {q : Option Region}
    (h : Measures ok q (mutateBody st).1) :
    Measures (api.isGpu || ok) q (visitForBody forType api opBody mutateBody st).1 := by
  cases api with
  | hexagon =>
    refine Measures.scope (by rintro c ⟨⟩; rfl) ?_
    rw [Measures, Stmt.papiTrace_substitute]
    exact h.countBody forType .hexagon
  | none => exact h.countBody forType .none
  | host => exact h.countBody forType .host
  | _ => exact measures_lift opBody q

/-- The markers of a registered loop, around a loop that returns to what is being measured. -/
theorem measures_bracketLoop {around : Option (String × Bool)} {slot : Slot}
    {st : InjectPAPIProfiling} {q : Option Region} {ok : Slot → Bool} {name : String}
    {stmt : Stmt PapiFn} (hat : At around slot st q)
    (hstmt : ∀ {slot' q'}, At around slot' st q' → Measures (ok slot') q' stmt)
    (st' : InjectPAPIProfiling) :
    Measures
      ((!loopDefs.any (·.matches name) || slot == .idle) &&
        ok (if loopDefs.any (·.matches name) then .busy else slot)) q
      (bracketLoop loopDefs name stmt st').1 := by
  unfold bracketLoop
  rw [← List.isSome_find?]
  cases loopDefs.find? fun l => l.matches name with
  | none => exact hstmt hat
  | some it =>
    have hbusy : At around .busy st (some (.loop st'.loops.size)) :=
      ⟨hat.numbered, hat.top, hat.enclosed, _, rfl, fun i h => nomatch h⟩
    have hq := hat.slot
    cases slot with
    | idle =>
      rw [hq]
      exact Measures.marked rfl rfl rfl (if_pos rfl) (hstmt hbusy)
    | overhead func =>
      obtain ⟨i, _, hq⟩ := hq
      rw [hq]
      exact Measures.misplaced rfl rfl _
    | busy =>
      obtain ⟨r, hq, _⟩ := hq
      rw [hq]
      exact Measures.misplaced rfl rfl _

/-- The calls of a mutated statement come back to what was being measured exactly if the condition
holds of the source. -/
theorem mutate_measures (s : Stmt Empty) {around : Option (String × Bool)} {slot : Slot}
    {st : InjectPAPIProfiling} {q : Option Region} (hat : At around slot st q) :
    Measures (neverNests defs loopDefs around slot s) q (mutate defs loopDefs s st).1 := by
  induction s generalizing around slot st q with
  | leaf l => exact measures_lift (.leaf l) q
  | scope h body ih => exact (ih hat).scope (by simp [Scope.papiCall_lift])
  | block a b iha ihb =>
    have hb := ihb (hat.frame (mutate_frame defs loopDefs a st))
    rw [mutate, Measures, Stmt.papiTrace_blockMake]
    exact (iha hat).seq hb (Stmt.papiTrace_inhabited _) (Stmt.papiTrace_inhabited _)
  | fork a b iha ihb =>
    have hb := ihb (hat.frame (mutate_frame defs loopDefs a st))
    rw [mutate, Measures, Stmt.papiTrace, Stmt.exec, image_seq]
    exact (iha hat).seq hb (Stmt.papiTrace_inhabited _) (Stmt.papiTrace_inhabited _)
  | ifThen c t ih =>
    have hskip : Returns measure true q (done []) := Leads.done rfl
    have ht := (ih hat).either hskip
    rw [Bool.and_true] at ht
    rw [mutate, Measures, Stmt.papiTrace_ifThen]
    exact ht
  | ifThenElse c t e iht ihe =>
    have he := ihe (hat.frame (mutate_frame defs loopDefs t st))
    rw [mutate, Measures, Stmt.papiTrace_ifThenElse]
    exact (iht hat).either he
  | for_ name min extent forType api body ih =>
    have hloop : ∀ {slot' q'}, At around slot' st q' →
        Measures (api.isGpu || neverNests defs loopDefs around slot' body) q'
          (.for_ name (min.mapCall Empty.elim) (extent.mapCall Empty.elim) forType api
            (visitForBody forType api body (mutate defs loopDefs body) st).1) := by
      intro slot' q' hat'
      rw [Measures, Stmt.papiTrace_for]
      exact Returns.loop (fun _ => rfl) (measures_visitForBody forType api body (ih hat'))
    exact (measures_bracketLoop loopDefs hat hloop _).bracketLaunch forType api
  | producerConsumer name isProducer body ih =>
    have hregistration : registration defs name isProducer st =
        defs.find? fun d => d.matches name isProducer (around.elim "overhead" (·.1)) := by
      rw [registration, hat.parentName_eq]
    have hframe := mutate_frame defs loopDefs body (beforeBody defs name isProducer st)
    have hnode := hat.frame (visitedBody_frame defs name isProducer hframe)
    have hcount : (visitedBody defs name isProducer (mutate defs loopDefs body) st).2.2.funcChildrens =
        (mutate defs loopDefs body (beforeBody defs name isProducer st)).2.funcChildrens := by
      obtain ⟨_, hst⟩ := visitedBody_snd defs name isProducer (mutate defs loopDefs body) st
      rw [hst]
      cases isProducer <;> rfl
    have hidx : isProducer = true →
        (visitedBody defs name isProducer (mutate defs loopDefs body) st).1 =
          funcId st.indices name := by
      intro hp
      subst hp
      apply (congrArg Prod.fst (getFuncId_eq st.countChild name)).trans
      rw [countChild_indices]
    have hslot := region_is defs loopDefs body hat.numbered hat.stack_ne_nil hidx hcount
    have hslot' : slot.Is (beforeBody defs name isProducer st).indices q := by
      refine hat.slot.mono fun hf => ?_
      rw [beforeBody_indices]
      split
      · exact getElem?_withFunc_of_some name hf
      · exact hf
    have hprofiled := ih (hat.beforeBody defs name isProducer hslot)
    have hplain := ih (hat.beforeBody defs name isProducer hslot')
    rw [mutate, visitProducerConsumer_eq, visitedBody_body, neverNests, ← hregistration]
    exact measures_finishNode (registration defs name isProducer st)
      (registeredStatus (registration defs name isProducer st)) _ rfl hnode
      (fun _ => hprofiled) (fun _ => hplain)

theorem at_init : At none .idle init none where
  numbered := numbered_empty.number Std.TreeMap.getElem?_emptyc
  top := Std.TreeMap.getElem?_insert_self
  enclosed := ⟨rfl, rfl⟩
  slot := rfl

/-- The prologue measures nothing. -/
theorem inject_measures (s : Stmt Empty) (pipelineName : String) :
    Measures (neverNests defs loopDefs none .idle s) none
      (injectPapiProfiling defs loopDefs s pipelineName) := by
  have hmutated := mutate_measures defs loopDefs s at_init
  have hfill : ∀ {ok : Bool} {α : Type} (table : String) (index : α → Nat) (value : α → Expr PapiFn)
      (entries : List α) {r : Stmt PapiFn}, Measures ok none r →
      Measures ok none (fillTable table index value entries r) := by
    intro ok α table index value entries r hr
    induction entries generalizing r with
    | nil => exact hr
    | cons p entries ih => exact ih (hr.before (silent_leaf (by simp [Leaf.papiCall])))
  have hfree : ∀ {ok : Bool} (table : String) {r : Stmt PapiFn}, Measures ok none r →
      Measures ok none (freeTable table r) :=
    fun table r hr => hr.after (silent_leaf (by simp [Leaf.papiCall]))
  have hincr : Silent incrActiveThreads := silent_evaluate rfl rfl
  have hdecr : Silent decrActiveThreads := silent_evaluate rfl rfl
  have hcount := hmutated.between hincr hdecr
  rw [inject_eq]
  apply Measures.before (silent_evaluate rfl rfl)
  iterate 5 apply Measures.scope (by simp [Scope.papiCall])
  iterate 5 apply hfree _
  iterate 5 apply hfill _ _ _ _
  refine Measures.scope (by rintro c ⟨⟩; rfl) (Measures.before (silent_leaf (by simp [Leaf.papiCall])) ?_)
  exact Measures.scope (by rintro c ⟨⟩; rfl) (Measures.scope (by rintro c ⟨⟩; rfl) hcount)

/-- Where the condition fails, some execution nests measurements. -/
theorem nests_of_not {s : Stmt Empty} (h : neverNests defs loopDefs none .idle s = false)
    (pipelineName : String) :
    ¬ ∀ t ok, (injectPapiProfiling defs loopDefs s pipelineName).exec t ok →
      Alternates ok (t.filterMap Event.papiCall) := by
  have hmeasures := inject_measures defs loopDefs s pipelineName
  rw [h] at hmeasures
  obtain ⟨u, ⟨t, ht, rfl⟩, hreject⟩ := hmeasures
  intro halternates
  obtain ⟨regions, hregions⟩ := halternates t true ht
  have hrun := runAuto_measure_of_eq (q := none) hregions
  rw [hrun] at hreject
  cases hreject

/-- The measuring calls alternate in every execution exactly if the condition holds. -/
theorem inject_alternates_iff (s : Stmt Empty) (pipelineName : String) :
    (∀ t ok, (injectPapiProfiling defs loopDefs s pipelineName).exec t ok →
      Alternates ok (t.filterMap Event.papiCall)) ↔ neverNests defs loopDefs none .idle s = true := by
  refine ⟨fun h => ?_, fun h t ok ht => ?_⟩
  · cases hok : neverNests defs loopDefs none .idle s with
    | true => rfl
    | false => exact absurd h (nests_of_not defs loopDefs hok pipelineName)
  · obtain ⟨r, hr, hend⟩ :=
      (inject_measures defs loopDefs s pipelineName).iff.mpr h _ ok ⟨t, ht, rfl⟩
    exact alternates_of_runAuto hr hend

end Mutate

/-- `g` is computed inside `f`, and only `g` is profiled: the overhead of `f`, which is not measured,
is left at `g`. -/
theorem not_alternates_inner :
    ¬ ∀ t ok, (injectPapiProfiling [profile "g" PROFILE_PRODUCTION false true] []
        (.producerConsumer "f" true (.block
          (.producerConsumer "g" true (.leaf (.provide "g" [.intImm 1] [.intImm 0])))
          (.producerConsumer "g" false (.leaf (.provide "f" [.intImm 2] [.intImm 0])))))
        "p").exec t ok → Alternates ok (t.filterMap Event.papiCall) :=
  nests_of_not _ _ (by decide) _

end ProfHalide
