import ProfHalide.Pass.HostCalls

/-!
# Completed runs

A run that is not cut short counts every thread out as often as in, also the threads that forks start
and whether or not the count was right in between: each of the mutator's constructions keeps the sum of
every thread at nothing.
-/

namespace ProfHalide

open InjectPAPIProfiling Behaviour Strands

/-- What an act adds to a count in which some threads weigh more than others. -/
def weighted (weigh : Thread → Int) (e : Tagged Step Act) : Int := weigh e.1 * e.2.delta

/-- Every completed execution counts each thread out as often as in, whatever a thread weighs. -/
def Balanced (s : Stmt PapiFn) : Prop := ∀ weigh : Thread → Int, Adds (weighted weigh) 0 s.threads

theorem delta_of_isMarker {c : PapiCall} (h : c.isMarker = true) : (Act.call c).delta = 0 := by
  cases c with
  | incrActiveThreads => cases h
  | decrActiveThreads => cases h
  | _ => rfl

/-- The address of a child of a first branch, as seen from outside the fork. -/
def Step.shift : Step → Step
  | .async depth => .async (depth + 1)
  | i => i

theorem Step.shift_of_unshift (i j : Step) (h : i.unshift = some j) : j.shift = i := by
  cases i with
  | async depth =>
    cases depth with
    | zero => cases h
    | succ depth =>
      cases h
      rfl
  | _ =>
    cases h
    rfl

namespace Balanced

variable {r r' : Stmt PapiFn}

theorem adds_own (weigh : Thread → Int) (act : Act) :
    Adds (weighted weigh) (weigh [] * act.delta) (done (own [act])) := by
  have hdone := Adds.done (w := weighted weigh) (own [act])
  simpa [own, weighted] using hdone

theorem adds_silent (weigh : Thread → Int) {act : Act} (h : act.delta = 0) :
    Adds (weighted weigh) 0 (done (own [act])) := by
  have hown := adds_own weigh act
  rwa [h, mul_zero] at hown

/-- Nothing that happens counts a thread. -/
theorem of_only (h : Only (fun e => e.2.delta = 0) r.threads) : Balanced r := by
  intro weigh t ht
  apply List.sum_eq_zero
  intro x hx
  obtain ⟨e, he, rfl⟩ := List.mem_map.mp hx
  rw [weighted, h t true ht e he, mul_zero]

/-- No call in the text counts a thread. -/
theorem of_text (h : ∀ site ∈ r.callSites none, (Act.call site.1).delta = 0) : Balanced r := by
  apply of_only
  intro t ok ht e he
  have htext := r.threads_inText none t ok ht e he
  cases hact : e.2 with
  | call c =>
    obtain ⟨next, hsite⟩ := htext c hact
    exact h _ hsite
  | _ => rfl

theorem block (hr : Balanced r) (hr' : Balanced r') : Balanced (.blockMake r r') := by
  intro weigh
  rw [Stmt.threads_blockMake]
  exact (hr weigh).seq (hr' weigh)

/-- A scope adds nothing but the call for its value. -/
theorem scope {h : Scope PapiFn} (hr : Balanced r)
    (hh : ∀ c, h.papiCall = some c → (Act.call c).delta = 0) : Balanced (.scope h r) := by
  intro weigh
  have hvalue : Adds (weighted weigh) 0
      (done (own (h.papiCall.toList.map Act.call))) := by
    cases hcall : h.papiCall with
    | none => exact Adds.done []
    | some c => exact adds_silent weigh (hh c hcall)
  exact hvalue.seq (hr weigh)

theorem launched {weigh : Thread → Int} {P : Behaviour (Tagged Step Act)}
    (hP : Adds (weighted weigh) 0 P) :
    Adds (weighted weigh) 0 (launched P) :=
  (adds_silent weigh rfl).seq (hP.seq (adds_silent weigh rfl))

theorem tasks (hr : Balanced r) (weigh : Thread → Int) (child : Nat → Step) (overlap : Bool) :
    Adds (weighted weigh) 0
      (tasks child overlap (task .start .finish r.threads)) := by
  refine Adds.tasks fun i => Adds.task ?_ ?_ (hr fun path => weigh (child i :: path))
  · exact mul_zero _
  · exact mul_zero _

theorem for_ (hr : Balanced r) (name : String) (min extent : Expr PapiFn) (forType : ForType)
    (api : DeviceAPI) : Balanced (.for_ name min extent forType api r) := by
  intro weigh
  rw [Stmt.threads]
  split
  · exact launched (hr.tasks weigh _ _)
  · split
    · split
      · exact launched (Adds.done [])
      · exact Adds.done []
    · split
      · exact launched (hr.tasks weigh _ _)
      · exact (hr weigh).loop

theorem fork (hr : Balanced r) (hr' : Balanced r') : Balanced (.fork r r') := by
  intro weigh
  have hsecond : Adds (weighted fun path => weigh (.async 0 :: path)) 0
      (task .start .finish r'.threads) := by
    refine Adds.task ?_ ?_ (hr' fun path => weigh (.async 0 :: path))
    · exact mul_zero _
    · exact mul_zero _
  exact Adds.beside (w := weighted weigh) Step.shift_of_unshift rfl
    (hr fun path => weigh (path.modifyHead Step.shift)) hsecond

/-- A statement between two calls that cancel. -/
theorem between (hr : Balanced r) (c c' : PapiCall) {fn fn' : PapiFn} {args args' : List (Expr PapiFn)}
    (hc : fn.decode args = some c) (hc' : fn'.decode args' = some c')
    (hcancel : (Act.call c).delta + (Act.call c').delta = 0) :
    Balanced (.blockOf [.evaluate (.call fn args), r] (.evaluate (.call fn' args'))) := by
  intro weigh
  rw [Stmt.blockOf_cons, Stmt.blockOf_cons, Stmt.blockOf_nil, Stmt.threads_blockMake,
    Stmt.threads_blockMake, Stmt.threads_call hc, Stmt.threads_call hc']
  have hsum := (adds_own weigh (.call c)).seq ((hr weigh).seq (adds_own weigh (.call c')))
  rwa [zero_add, ← mul_add, hcancel, mul_zero] at hsum

theorem kept : KeptByMutation Balanced where
  lift s := of_text (by
    have hsites := s.callSites_lift none
    simp [Stmt.lift, hsites])
  scope h hr := hr.scope (by simp [Scope.papiCall_lift])
  producerConsumer name isProducer hr := hr
  for_ name min extent forType api hr := hr.for_ name min extent forType api
  block hr hr' := hr.block hr'
  fork hr hr' := hr.fork hr'
  ifThen c hr := fun weigh => (hr weigh).either (Adds.done [])
  ifThenElse c hr hr' := fun weigh => (hr weigh).either (hr' weigh)
  marker hdecode hmarker := by
    intro weigh
    rw [Stmt.threads_call hdecode]
    exact adds_silent weigh (delta_of_isMarker hmarker)
  kernel hr := by
    refine Balanced.scope (fun weigh => ?_) fun c hc => ?_
    · rw [Stmt.threads_substitute]
      exact hr weigh
    · cases hc
      rfl
  counted hr := hr.between .incrActiveThreads .decrActiveThreads rfl rfl rfl
  launched hr := by
    rw [launch_eq]
    apply between _ .decrActiveThreads .incrActiveThreads rfl rfl rfl
    exact hr.between .enterParallelRegion .leaveParallelRegion rfl rfl rfl

end Balanced

/-- Every completed execution of an instrumented program counts each thread out as often as in. -/
theorem inject_balanced (defs : List ProfilerDef) (loopDefs : List ProfilerLoop) (s : Stmt Empty)
    (pipelineName : String) : Balanced (injectPapiProfiling defs loopDefs s pipelineName) := by
  intro weigh
  have hmutate := Balanced.kept.mutate defs loopDefs s init weigh
  have hassert : Adds (weighted weigh) 0
      (either (done []) (cut (own [Act.fails]))) := (Adds.done []).either (Adds.cut _)
  have hbody := (Balanced.adds_own weigh (.call .incrActiveThreads)).seq
    (hmutate.seq (Balanced.adds_own weigh (.call .decrActiveThreads)))
  have hzero : weigh [] * (Act.call .incrActiveThreads).delta +
      (0 + weigh [] * (Act.call .decrActiveThreads).delta) = 0 := by
    simp [Act.delta]
  rw [hzero] at hbody
  rw [threads_inject]
  exact (Balanced.adds_silent weigh rfl).seq <| (Balanced.adds_silent weigh rfl).seq <|
    hassert.seq <| (Balanced.adds_silent weigh rfl).seq <| (Balanced.adds_silent weigh rfl).seq hbody

theorem delta_call? (act : Act) : act.delta =
    (act.call?.toList.count .incrActiveThreads : Int) - act.call?.toList.count .decrActiveThreads := by
  cases act with
  | call c => cases c <;> rfl
  | _ => rfl

theorem hostCalls_cons (e : Tagged Step Act) (t : List (Tagged Step Act)) :
    hostCalls (e :: t) = (if Thread.isRemote e.1 then [] else e.2.call?.toList) ++ hostCalls t := by
  rw [hostCalls, List.filterMap_cons]
  cases Thread.isRemote e.1 with
  | true => rfl
  | false => cases e.2.call? <;> rfl

theorem sum_hostCalls (t : List (Tagged Step Act)) :
    (t.map (weighted fun path => if Thread.isRemote path then 0 else 1)).sum =
      ((hostCalls t).count .incrActiveThreads : Int) - (hostCalls t).count .decrActiveThreads := by
  induction t with
  | nil => rfl
  | cons e t ih =>
    have hdelta := delta_call? e.2
    rw [List.map_cons, List.sum_cons, ih, hostCalls_cons, List.count_append, List.count_append, weighted]
    cases Thread.isRemote e.1 with
    | true => simp
    | false =>
      simp only [Bool.false_eq_true, if_false, one_mul]
      omega

/-- A completed run asks the host's runtime to count as many threads out as in. -/
theorem count_hostCalls_inject {defs : List ProfilerDef} {loopDefs : List ProfilerLoop}
    {s : Stmt Empty} {pipelineName : String} {t : List (Tagged Step Act)}
    (ht : (injectPapiProfiling defs loopDefs s pipelineName).threads t true) :
    (hostCalls t).count .incrActiveThreads = (hostCalls t).count .decrActiveThreads := by
  have hsum := inject_balanced defs loopDefs s pipelineName
    (fun path => if Thread.isRemote path then 0 else 1) t ht
  rw [sum_hostCalls] at hsum
  omega

end ProfHalide
