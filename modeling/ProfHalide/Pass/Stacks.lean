import ProfHalide.Pass.Nesting

/-!
# The mutator's stacks

One stack begins with a sentinel and the other does not, so the mutator may always ask for the innermost
produce node but not always for its status: an outermost node that no registration matches asks an empty
vector.
-/

namespace ProfHalide

open InjectPAPIProfiling Numbering

/-! ### What one node reads -/

section Node

variable {st : InjectPAPIProfiling}

theorem stackBack_eq (h : st.stack ≠ []) : st.stackBack = (st.stack.headD 0, st) := by
  unfold stackBack
  cases hstack : st.stack with
  | nil => exact absurd hstack h
  | cons top rest => rfl

theorem countChild_emptyBack (h : st.stack ≠ []) : st.countChild.emptyBack = st.emptyBack := by
  unfold countChild
  rw [stackBack_eq h]
  split <;> rfl

theorem beforeBody_emptyBack (defs : List ProfilerDef) (name : String) (isProducer : Bool)
    (h : st.stack ≠ []) : (beforeBody defs name isProducer st).emptyBack = st.emptyBack := by
  unfold beforeBody
  split
  · rw [getFuncId_eq]
    exact countChild_emptyBack h
  · exact countChild_emptyBack h

/-- The status is asked for if the node has no registration, not even a disabled one. -/
theorem inherit_emptyBack (it : Option ProfilerDef) :
    (st.inherit it (registeredStatus it)).2.emptyBack =
      (st.emptyBack || (it.isNone && st.profileStack.isEmpty)) := by
  unfold inherit registeredStatus profileStackBack
  cases it with
  | some d => cases d.enable <;> simp
  | none => cases st.profileStack <;> simp

theorem bracketNode_emptyBack (h : st.stack ≠ []) (profiled : Bool) (stmt : Stmt PapiFn) :
    (bracketNode profiled stmt st).2.emptyBack = st.emptyBack := by
  unfold bracketNode
  rw [stackBack_eq h]
  split <;> rfl

theorem finishNode_emptyBack (h : st.stack ≠ []) (it : Option ProfilerDef) (name : String)
    (isProducer : Bool) (idx : Nat) (body : Stmt PapiFn) :
    (finishNode it (registeredStatus it) name isProducer idx body st).2.emptyBack =
      (st.emptyBack || (it.isNone && st.profileStack.isEmpty)) := by
  obtain ⟨_, hinherit⟩ := inherit_snd st it (registeredStatus it)
  let profiled := (st.inherit it (registeredStatus it)).1.1
  obtain ⟨_, _, hbody⟩ := bracketBody_snd (st.inherit it (registeredStatus it)).2 profiled name
    isProducer idx body
  let bracketed := bracketBody profiled name isProducer idx body
    (st.inherit it (registeredStatus it)).2
  have hstack : bracketed.2.stack ≠ [] := by
    dsimp only [bracketed]
    rw [hbody, hinherit]
    exact h
  have hset : ∀ (st' : InjectPAPIProfiling) (fid : Nat) (showThreads : Bool),
      (st'.setShowThreads fid isProducer showThreads).emptyBack = st'.emptyBack := by
    intro st' fid showThreads
    obtain ⟨_, _, hst'⟩ := setShowThreads_eq st' fid isProducer showThreads
    rw [hst']
  unfold finishNode
  dsimp only
  rw [getFuncId_eq, hset]
  apply (bracketNode_emptyBack hstack profiled _).trans
  dsimp only [bracketed]
  rw [hbody]
  exact inherit_emptyBack it

theorem visitedBody_emptyBack (defs : List ProfilerDef) (name : String) (isProducer : Bool)
    {mutateBody : Mutation} (h : st.stack ≠ [])
    (hframe : Frame (beforeBody defs name isProducer st)
      (mutateBody (beforeBody defs name isProducer st)).2) :
    (visitedBody defs name isProducer mutateBody st).2.2.emptyBack =
      (mutateBody (beforeBody defs name isProducer st)).2.emptyBack := by
  cases isProducer with
  | true => rfl
  | false =>
    have hstack := hframe.stack.trans (beforeBody_stack defs name false st)
    exact congrArg (fun r => r.2.emptyBack) (stackBack_eq (hstack.trans_ne h))

end Node

/-! ### Whole statements -/

/-- Every node that lies in no produce node has a registration, be it one that disables it. -/
def outermostRegistered (defs : List ProfilerDef) : Stmt Empty → Bool
  | .leaf _ => true
  | .scope _ body | .ifThen _ body => outermostRegistered defs body
  | .producerConsumer name isProducer body =>
      defs.any (·.matches name isProducer "overhead") && (isProducer || outermostRegistered defs body)
  | .for_ _ _ _ _ api body => api.isGpu || outermostRegistered defs body
  | .block a b | .fork a b | .ifThenElse _ a b =>
      outermostRegistered defs a && outermostRegistered defs b

section Mutate

variable (defs : List ProfilerDef) (loopDefs : List ProfilerLoop)

theorem At.isEmpty_profileStack {around : Option (String × Bool)} {slot : Slot}
    {st : InjectPAPIProfiling} {q : Option Region} (h : At around slot st q) :
    st.profileStack.isEmpty = around.isNone := by
  have hnone := congrArg Option.isNone h.head?_profileStack
  rw [Option.isNone_map, Option.isNone_map] at hnone
  rw [← hnone]
  cases st.profileStack <;> rfl

/-- Inside a produce node nothing empty is read, and outside of all exactly by a node without a
registration. -/
theorem mutate_emptyBack (s : Stmt Empty) {around : Option (String × Bool)} {st : InjectPAPIProfiling}
    (hat : At around .idle st none) :
    (mutate defs loopDefs s st).2.emptyBack =
      (st.emptyBack || (around.isNone && !outermostRegistered defs s)) := by
  induction s generalizing around st with
  | leaf l => simp [mutate, outermostRegistered]
  | scope h body ih => exact ih hat
  | ifThen c t ih => exact ih hat
  | producerConsumer name isProducer body ih =>
    have hframe := mutate_frame defs loopDefs body (beforeBody defs name isProducer st)
    have hafter := visitedBody_frame defs name isProducer hframe
    have hstack := hafter.stack.trans_ne hat.stack_ne_nil
    have hregistration : registration defs name isProducer st =
        defs.find? fun d => d.matches name isProducer (around.elim "overhead" (·.1)) := by
      rw [registration, hat.parentName_eq]
    rw [mutate, visitProducerConsumer_eq, finishNode_emptyBack hstack,
      visitedBody_emptyBack defs name isProducer hat.stack_ne_nil hframe,
      ih (hat.beforeBody defs name isProducer rfl),
      beforeBody_emptyBack defs name isProducer hat.stack_ne_nil, hafter.profileStack,
      hat.isEmpty_profileStack, hregistration, outermostRegistered, ← List.isSome_find?]
    cases around with
    | some func => cases isProducer <;> simp
    | none => cases isProducer <;> cases outermostRegistered defs body <;> simp
  | for_ name min extent forType api body ih =>
    obtain ⟨_, _, hst⟩ := visitFor_state loopDefs name min extent forType api body
      (mutate defs loopDefs body) st
    rw [mutate, hst, outermostRegistered]
    cases api.isGpu with
    | true => simp
    | false => exact ih hat
  | block a b iha ihb | fork a b iha ihb | ifThenElse c a b iha ihb =>
    have hb := ihb (hat.frame (mutate_frame defs loopDefs a st))
    rw [iha hat] at hb
    rw [mutate, outermostRegistered]
    dsimp only
    rw [hb]
    cases around with
    | some func => simp
    | none => simp [Bool.not_and, Bool.or_assoc]

/-- While `s` is mutated no empty stack is read, and afterwards the stacks are as they were at first. -/
structure StacksSafe (s : Stmt Empty) : Prop where
  read : (mutate defs loopDefs s init).2.emptyBack = false
  stack : (mutate defs loopDefs s init).2.stack = [0]
  profileStack : (mutate defs loopDefs s init).2.profileStack = []

/-- The stacks are safe exactly if every outermost node has a registration. -/
theorem stacksSafe_iff (s : Stmt Empty) :
    StacksSafe defs loopDefs s ↔ outermostRegistered defs s = true := by
  have hframe := mutate_frame defs loopDefs s init
  have hread : (mutate defs loopDefs s init).2.emptyBack = !outermostRegistered defs s :=
    mutate_emptyBack defs loopDefs s at_init
  constructor
  · intro h
    have hsafe := h.read
    rwa [hread, Bool.not_eq_false'] at hsafe
  · intro h
    exact ⟨by rw [hread, h]; rfl, hframe.stack, hframe.profileStack⟩

end Mutate

/-- Nothing is registered. -/
theorem not_stacksSafe_output :
    ¬ ∀ (defs : List ProfilerDef) (loopDefs : List ProfilerLoop) (s : Stmt Empty),
      StacksSafe defs loopDefs s := by
  intro h
  have hsafe := (h [] [] (.producerConsumer "f" true (.leaf (.provide "f" [.intImm 1] [.intImm 0])))).read
  exact absurd hsafe (by decide)

end ProfHalide
