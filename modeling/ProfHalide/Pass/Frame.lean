import ProfHalide.Pass.Shape
import ProfHalide.Lib.Numbering

/-!
# What a visit leaves of the mutator's state

The stacks come back as they were, and a func keeps the index it has been given. The count of the
produce and consume nodes below a func is determined by the source alone.
-/

namespace ProfHalide

open InjectPAPIProfiling Numbering

/-! ### Indices -/

theorem withFunc_eq (indices : Std.TreeMap String Nat) (name : String) :
    withFunc indices name = indices ∧ indices[normalizeName name]? ≠ none ∨
      withFunc indices name = number indices (normalizeName name) ∧
        indices[normalizeName name]? = none := by
  unfold withFunc
  cases h : indices[normalizeName name]? with
  | some idx => exact Or.inl ⟨rfl, by simp⟩
  | none => exact Or.inr ⟨rfl, rfl⟩

theorem numbered_withFunc {indices : Std.TreeMap String Nat} (h : Numbered indices)
    (name : String) : Numbered (withFunc indices name) := by
  rcases withFunc_eq indices name with ⟨heq, _⟩ | ⟨heq, hnone⟩
  · rw [heq]
    exact h
  · rw [heq]
    exact h.number hnone

theorem getElem?_withFunc_of_some {indices : Std.TreeMap String Nat} (name : String) {f : String}
    {i : Nat} (h : indices[f]? = some i) : (withFunc indices name)[f]? = some i := by
  rcases withFunc_eq indices name with ⟨heq, _⟩ | ⟨heq, hnone⟩
  · rw [heq, h]
  · have hne : normalizeName name ≠ f := by
      intro hf
      rw [hf, h] at hnone
      cases hnone
    rw [heq, getElem?_number_of_ne _ hne, h]

theorem funcId_eq_of_some {indices : Std.TreeMap String Nat} {name : String} {i : Nat}
    (h : indices[normalizeName name]? = some i) : funcId indices name = i := by
  rw [funcId, h, Option.getD_some]

/-! ### Visits -/

/-- What every visit preserves. -/
structure Frame (st st' : InjectPAPIProfiling) : Prop where
  stack : st'.stack = st.stack
  profileStack : st'.profileStack = st.profileStack
  known : ∀ {f : String} {i : Nat}, st.indices[f]? = some i → st'.indices[f]? = some i
  numbered : Numbered st.indices → Numbered st'.indices

theorem Frame.refl (st : InjectPAPIProfiling) : Frame st st := ⟨rfl, rfl, id, id⟩

theorem Frame.trans {st st' st'' : InjectPAPIProfiling} (h : Frame st st') (h' : Frame st' st'') :
    Frame st st'' where
  stack := h'.stack.trans h.stack
  profileStack := h'.profileStack.trans h.profileStack
  known hf := h'.known (h.known hf)
  numbered hn := h'.numbered (h.numbered hn)

section Mutate

variable (defs : List ProfilerDef) (loopDefs : List ProfilerLoop)

theorem beforeBody_indices (name : String) (isProducer : Bool) (st : InjectPAPIProfiling) :
    (beforeBody defs name isProducer st).indices =
      if isProducer then withFunc st.indices name else st.indices := by
  unfold beforeBody
  split
  · simp [pushProducer, getFuncId_eq]
  · exact countChild_indices st

theorem beforeBody_stack (name : String) (isProducer : Bool) (st : InjectPAPIProfiling) :
    (beforeBody defs name isProducer st).stack =
      if isProducer then funcId st.indices name :: st.stack else st.stack := by
  unfold beforeBody
  split
  · simp [pushProducer, getFuncId_eq]
  · exact countChild_stack st

theorem beforeBody_profileStack (name : String) (isProducer : Bool) (st : InjectPAPIProfiling) :
    (beforeBody defs name isProducer st).profileStack =
      if isProducer then
        registeredStatus (registration defs name isProducer st) :: st.profileStack
      else st.profileStack := by
  unfold beforeBody
  split
  · simp [pushProducer, getFuncId_eq]
  · exact countChild_profileStack st

theorem visitForBody_frame (forType : ForType) (api : DeviceAPI) (opBody : Stmt Empty)
    {mutateBody : Mutation} {st : InjectPAPIProfiling} (h : Frame st (mutateBody st).2) :
    Frame st (visitForBody forType api opBody mutateBody st).2 := by
  rw [visitForBody_snd]
  split
  · exact Frame.refl st
  · exact h

theorem bracketLoop_frame (name : String) (stmt : Stmt PapiFn) (st : InjectPAPIProfiling) :
    Frame st (bracketLoop loopDefs name stmt st).2 := by
  unfold bracketLoop
  split
  · exact ⟨rfl, rfl, id, id⟩
  · exact Frame.refl st

/-- The state in which a node is finished. -/
theorem visitedBody_frame (name : String) (isProducer : Bool) {mutateBody : Mutation}
    {st : InjectPAPIProfiling}
    (h : Frame (beforeBody defs name isProducer st)
      (mutateBody (beforeBody defs name isProducer st)).2) :
    Frame st (visitedBody defs name isProducer mutateBody st).2.2 := by
  have hstack := beforeBody_stack defs name isProducer st
  have hprofile := beforeBody_profileStack defs name isProducer st
  have hindices := beforeBody_indices defs name isProducer st
  obtain ⟨_, hst⟩ := visitedBody_snd defs name isProducer mutateBody st
  rw [hst]
  cases isProducer with
  | false =>
    exact ⟨h.stack.trans hstack, h.profileStack.trans hprofile,
      fun hf => h.known (by rw [hindices]; exact hf),
      fun hn => h.numbered (by rw [hindices]; exact hn)⟩
  | true =>
    exact ⟨congrArg List.tail (h.stack.trans hstack),
      congrArg List.tail (h.profileStack.trans hprofile),
      fun hf => h.known (by rw [hindices]; exact getElem?_withFunc_of_some name hf),
      fun hn => h.numbered (by rw [hindices]; exact numbered_withFunc hn name)⟩

theorem visitProducerConsumer_frame (name : String) (isProducer : Bool) {mutateBody : Mutation}
    {st : InjectPAPIProfiling}
    (h : Frame (beforeBody defs name isProducer st)
      (mutateBody (beforeBody defs name isProducer st)).2) :
    Frame st (visitProducerConsumer defs name isProducer mutateBody st).2 := by
  apply (visitedBody_frame defs name isProducer h).trans
  obtain ⟨_, _, _, hst⟩ := finishNode_snd (registration defs name isProducer st)
    (registeredStatus (registration defs name isProducer st)) name isProducer
    (visitedBody defs name isProducer mutateBody st).1
    (visitedBody defs name isProducer mutateBody st).2.1
    (visitedBody defs name isProducer mutateBody st).2.2
  rw [visitProducerConsumer_eq, hst]
  exact ⟨rfl, rfl, fun hf => getElem?_withFunc_of_some name hf, fun hn => numbered_withFunc hn name⟩

theorem mutate_frame (s : Stmt Empty) (st : InjectPAPIProfiling) :
    Frame st (mutate defs loopDefs s st).2 := by
  induction s generalizing st with
  | leaf l => exact Frame.refl st
  | scope h body ih => exact ih st
  | producerConsumer name isProducer body ih =>
    exact visitProducerConsumer_frame defs name isProducer (ih _)
  | for_ name min extent forType api body ih =>
    exact (visitForBody_frame forType api body (ih st)).trans
      (bracketLoop_frame loopDefs name _ _)
  | block a b iha ihb => exact (iha st).trans (ihb _)
  | fork a b iha ihb => exact (iha st).trans (ihb _)
  | ifThen c t ih => exact ih st
  | ifThenElse c t e iht ihe => exact (iht st).trans (ihe _)

end Mutate

/-! ### The nodes below a func -/

/-- `func_childrens[f]` after a statement, from its value `n` before: one for every produce or consume
node whose innermost enclosing produce node is `f`, counted anew from each produce node of `f` on.
`inside` says whether the statement lies directly in `f`. -/
def childrens (f : String) (inside : Bool) (n : Nat) : Stmt Empty → Nat
  | .leaf _ => n
  | .scope _ body | .ifThen _ body => childrens f inside n body
  | .producerConsumer name isProducer body =>
      let n := if inside then n + 1 else n
      if isProducer then
        childrens f (normalizeName name = f) (if normalizeName name = f then 0 else n) body
      else childrens f inside n body
  | .for_ _ _ _ _ api body => if api.isGpu then n else childrens f inside n body
  | .block a b | .fork a b | .ifThenElse _ a b => childrens f inside (childrens f inside n a) b

/-- Whether the func with index `i` is the innermost produce node. -/
def InjectPAPIProfiling.inside (st : InjectPAPIProfiling) (i : Nat) : Bool :=
  st.stack.length > 1 && st.stack.head? == some i

theorem Frame.inside {st st' : InjectPAPIProfiling} (h : Frame st st') (i : Nat) :
    st'.inside i = st.inside i := by
  rw [InjectPAPIProfiling.inside, InjectPAPIProfiling.inside, h.stack]

theorem countChild_funcChildrens (st : InjectPAPIProfiling) (i : Nat) :
    st.countChild.funcChildrens i =
      if st.inside i then st.funcChildrens i + 1 else st.funcChildrens i := by
  unfold countChild InjectPAPIProfiling.inside stackBack
  by_cases hlen : st.stack.length > 1
  · rw [if_pos hlen]
    cases hstack : st.stack with
    | nil => simp [hstack] at hlen
    | cons top rest =>
      rw [hstack] at hlen
      by_cases htop : top = i
      · subst htop
        simp only [Function.update_self, List.head?_cons, hlen, decide_true, Bool.true_and,
          beq_self_eq_true, if_true]
      · have hne : i ≠ top := Ne.symm htop
        simp [Function.update_of_ne hne, htop]
  · simp [hlen]

theorem funcId_eq_iff {indices : Std.TreeMap String Nat} (hnumbered : Numbered indices)
    {f : String} {i : Nat} (hf : indices[f]? = some i) (name : String) :
    funcId indices name = i ↔ normalizeName name = f := by
  cases hname : indices[normalizeName name]? with
  | some j =>
    rw [funcId_eq_of_some hname]
    refine ⟨fun hij => hnumbered.inj _ _ i (hij ▸ hname) hf, fun heq => ?_⟩
    rw [heq, hf] at hname
    exact (Option.some.inj hname).symm
  | none =>
    have hlt := hnumbered.lt f i hf
    rw [funcId, hname, Option.getD_none]
    refine ⟨fun hij => by omega, fun heq => ?_⟩
    rw [heq, hf] at hname
    cases hname

section Childrens

variable (defs : List ProfilerDef) (loopDefs : List ProfilerLoop)

theorem beforeBody_inside (name : String) (isProducer : Bool) {st : InjectPAPIProfiling} {f : String}
    {i : Nat} (hnumbered : Numbered st.indices) (hf : st.indices[f]? = some i)
    (hne : st.stack ≠ []) :
    (beforeBody defs name isProducer st).inside i =
      if isProducer then decide (normalizeName name = f) else st.inside i := by
  unfold InjectPAPIProfiling.inside
  rw [beforeBody_stack]
  cases isProducer with
  | false => rfl
  | true =>
    have hlen : (funcId st.indices name :: st.stack).length > 1 := by
      have hpos := List.length_pos_iff.mpr hne
      rw [List.length_cons]
      omega
    have hiff := funcId_eq_iff hnumbered hf name
    simp only [if_true, hlen, decide_true, Bool.true_and, List.head?_cons]
    by_cases heq : normalizeName name = f
    · simp [heq, hiff.mpr heq]
    · simp [heq, mt hiff.mp heq]

theorem beforeBody_funcChildrens (name : String) (isProducer : Bool) {st : InjectPAPIProfiling}
    {f : String} {i : Nat} (hnumbered : Numbered st.indices) (hf : st.indices[f]? = some i) :
    (beforeBody defs name isProducer st).funcChildrens i =
      if isProducer && decide (normalizeName name = f) then 0
      else if st.inside i then st.funcChildrens i + 1 else st.funcChildrens i := by
  unfold beforeBody
  cases isProducer with
  | false => exact countChild_funcChildrens st i
  | true =>
    have hiff := funcId_eq_iff hnumbered hf name
    simp only [if_true, Bool.true_and, decide_eq_true_eq, pushProducer, getFuncId_eq,
      countChild_indices, Function.update_apply]
    by_cases heq : normalizeName name = f
    · rw [if_pos (hiff.mpr heq).symm, if_pos heq]
    · rw [if_neg (fun h => heq (hiff.mp h.symm)), if_neg heq]
      exact countChild_funcChildrens st i

/-- The count is a function of the source. -/
theorem mutate_funcChildrens (s : Stmt Empty) (st : InjectPAPIProfiling) {f : String} {i : Nat}
    (hnumbered : Numbered st.indices) (hf : st.indices[f]? = some i) (hne : st.stack ≠ []) :
    (mutate defs loopDefs s st).2.funcChildrens i =
      childrens f (st.inside i) (st.funcChildrens i) s := by
  induction s generalizing st with
  | leaf l => rfl
  | scope h body ih => exact ih st hnumbered hf hne
  | ifThen c t ih => exact ih st hnumbered hf hne
  | producerConsumer name isProducer body ih =>
    obtain ⟨_, _, _, hst⟩ :=
      visitProducerConsumer_snd defs name isProducer (mutate defs loopDefs body) st
    have hindices := beforeBody_indices defs name isProducer st
    have hbody := ih (beforeBody defs name isProducer st)
      (by rw [hindices]; split; exacts [numbered_withFunc hnumbered name, hnumbered])
      (by rw [hindices]; split; exacts [getElem?_withFunc_of_some name hf, hf])
      (by rw [beforeBody_stack]; split; exacts [List.cons_ne_nil _ _, hne])
    rw [beforeBody_inside defs name isProducer hnumbered hf hne,
      beforeBody_funcChildrens defs name isProducer hnumbered hf] at hbody
    have hafter : (mutate defs loopDefs (.producerConsumer name isProducer body) st).2.funcChildrens =
        (mutate defs loopDefs body (beforeBody defs name isProducer st)).2.funcChildrens := by
      rw [mutate, hst]
      cases isProducer <;> rfl
    rw [hafter, hbody, childrens]
    cases isProducer with
    | false => rfl
    | true => simp only [if_true, Bool.true_and, decide_eq_true_eq]
  | for_ name min extent forType api body ih =>
    have hafter : (mutate defs loopDefs (.for_ name min extent forType api body) st).2.funcChildrens =
        (visitForBody forType api body (mutate defs loopDefs body) st).2.funcChildrens := by
      rw [mutate, visitFor]
      unfold bracketLoop
      dsimp only
      split <;> rfl
    rw [hafter, visitForBody_snd, childrens]
    split
    · rfl
    · exact ih st hnumbered hf hne
  | block a b iha ihb | fork a b iha ihb | ifThenElse _ a b iha ihb =>
    have hframe := mutate_frame defs loopDefs a st
    have hb := ihb (mutate defs loopDefs a st).2 (hframe.numbered hnumbered) (hframe.known hf)
      (by rw [hframe.stack]; exact hne)
    rw [hframe.inside, iha st hnumbered hf hne] at hb
    exact hb

end Childrens

end ProfHalide
