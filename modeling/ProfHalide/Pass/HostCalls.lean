import ProfHalide.Pass.LoopIds
import ProfHalide.Pass.Accounting

/-!
# The calls a run makes

What a run makes the host's runtime do is the sequence of its calls, whichever threads make them; the
calls of tasks on a remote device go to the state of that device. Every call stands in the text of the
statement, and the text starts the pipeline once, in front of everything that the mutator has written.
-/

namespace ProfHalide

open Behaviour Strands

def Act.call? : Act → Option PapiCall
  | .call c => some c
  | _ => none

/-- The calls into the host's runtime, in order. -/
def hostCalls (t : List (Tagged Step Act)) : List PapiCall :=
  t.filterMap fun e => if Thread.isRemote e.1 then none else e.2.call?

/-- Whether a call starts the pipeline, or asks for its end. -/
def PapiCall.starts : PapiCall → Bool
  | .pipelineStart _ _ _ | .registerDestructor => true
  | _ => false

theorem PapiCall.starts_of_isMarker {c : PapiCall} (h : c.isMarker = true) : c.starts = false := by
  cases c with
  | pipelineStart name numFuncs numLoops => cases h
  | registerDestructor => cases h
  | _ => rfl

/-! ### Threads and the text -/

/-- An act is no call, or one that stands in the text. -/
def Act.InText (sites : List (PapiCall × Option String)) (act : Act) : Prop :=
  ∀ c, act = .call c → ∃ next, (c, next) ∈ sites

theorem Act.InText.mono {sites sites' : List (PapiCall × Option String)} (h : sites ⊆ sites')
    {act : Act} (hact : act.InText sites) : act.InText sites' := by
  intro c hc
  obtain ⟨next, hnext⟩ := hact c hc
  exact ⟨next, h hnext⟩

theorem only_mono {sites sites' : List (PapiCall × Option String)} (h : sites ⊆ sites')
    {P : Behaviour (Tagged Step Act)} (hP : Only (fun e => e.2.InText sites) P) :
    Only (fun e => e.2.InText sites') P :=
  fun t ok ht e he => (hP t ok ht e he).mono h

theorem only_launched {sites : List (PapiCall × Option String)} {P : Behaviour (Tagged Step Act)}
    (hP : Only (fun e => e.2.InText sites) P) : Only (fun e => e.2.InText sites) (launched P) :=
  (Only.done (only_own (by simp [Act.InText]))).seq
    (hP.seq (Only.done (only_own (by simp [Act.InText]))))

theorem only_calls {sites : List (PapiCall × Option String)} {call : Option PapiCall}
    (h : ∀ c, call = some c → ∃ next, (c, next) ∈ sites) :
    Only (fun e : Tagged Step Act => e.2.InText sites) (done (own (call.toList.map .call))) := by
  refine Only.done (only_own fun act hact c hc => ?_)
  rw [hc] at hact
  apply h c
  cases call with
  | none => simp at hact
  | some c' => simpa [eq_comm] using hact

/-- Every call of every thread stands in the text. -/
theorem Stmt.threads_inText (s : Stmt PapiFn) (next : Option String) :
    Only (fun e => e.2.InText (s.callSites next)) s.threads := by
  induction s generalizing next with
  | leaf l =>
    rw [threads]
    split
    · exact (Only.done (by simp)).either (Only.cut (only_own (by simp [Act.InText])))
    · refine only_calls fun c hc => ⟨next, ?_⟩
      rw [callSites, hc]
      exact List.mem_singleton.mpr rfl
  | scope h body ih =>
    refine (only_calls fun c hc => ⟨body.headLoop, ?_⟩).seq
      (only_mono (List.subset_append_right _ _) (ih next))
    rw [callSites, hc]
    exact List.mem_append_left _ (List.mem_singleton.mpr rfl)
  | producerConsumer _ _ body ih => exact ih next
  | for_ name min extent forType api body ih =>
    have htask : Only (fun e => e.2.InText (body.callSites none)) (task .start .finish body.threads) :=
      only_task (by simp [Act.InText]) (by simp [Act.InText]) (ih none)
    rw [threads, callSites]
    split
    · exact only_launched (only_tasks htask)
    · split
      · split
        · exact only_launched (Only.done (by simp))
        · exact Only.done (by simp)
      · split
        · exact only_launched (only_tasks htask)
        · exact (ih none).loop (by simp)
  | block a b iha ihb =>
    exact (only_mono (List.subset_append_left _ _) (iha _)).seq
      (only_mono (List.subset_append_right _ _) (ihb next))
  | fork a b iha ihb =>
    have htask : Only (fun e => e.2.InText (b.callSites none)) (task .start .finish b.threads) :=
      only_task (by simp [Act.InText]) (by simp [Act.InText]) (ihb none)
    exact only_beside (only_mono (List.subset_append_left _ _) (iha none))
      (only_mono (List.subset_append_right _ _) htask)
  | ifThen _ t ih => exact (ih next).either (Only.done (by simp))
  | ifThenElse _ t e iht ihe =>
    exact (only_mono (List.subset_append_left _ _) (iht next)).either
      (only_mono (List.subset_append_right _ _) (ihe next))

/-! ### What the mutator writes -/

/-- No call in the statement starts the pipeline. -/
def NeverStarts (r : Stmt PapiFn) : Prop :=
  ∀ next, ∀ site ∈ r.callSites next, site.1.starts = false

theorem NeverStarts.kept : KeptByMutation NeverStarts :=
  CallsOnly.kept (p := fun c => c.starts = false) (fun _ => PapiCall.starts_of_isMarker) rfl
    ⟨rfl, rfl, rfl, rfl⟩

/-- Acts that start no pipeline. -/
def Act.Continues (act : Act) : Prop := ∀ c, act = .call c → c.starts = false

theorem NeverStarts.only {r : Stmt PapiFn} (hr : NeverStarts r) :
    Only (fun e => e.2.Continues) r.threads := by
  intro t ok ht e he c hc
  obtain ⟨next, hsite⟩ := r.threads_inText none t ok ht e he c hc
  exact hr none _ hsite

/-- A run asks for the end of the pipeline, starts it, and starts it no more. -/
theorem hostCalls_inject {defs : List ProfilerDef} {loopDefs : List ProfilerLoop} {s : Stmt Empty}
    {pipelineName : String} {t : List (Tagged Step Act)} {ok : Bool}
    (ht : (injectPapiProfiling defs loopDefs s pipelineName).threads t ok) :
    ∃ numFuncs numLoops rest, hostCalls t
      = .registerDestructor :: .pipelineStart pipelineName numFuncs numLoops :: rest ∧
      ∀ c ∈ rest, c.starts = false := by
  rw [threads_inject, seq_done_left] at ht
  obtain ⟨t₁, ht₁, rfl⟩ := ht
  rw [seq_done_left] at ht₁
  obtain ⟨t₂, ht₂, rfl⟩ := ht₁
  have hown : ∀ c : PapiCall, c.starts = false →
      Only (fun e : Tagged Step Act => e.2.Continues) (done (own [.call c])) := by
    intro c hc
    refine Only.done (only_own fun act hact c' hc' => ?_)
    rw [List.mem_singleton.mp hact] at hc'
    cases hc'
    exact hc
  have hassert : Only (fun e : Tagged Step Act => e.2.Continues)
      (either (done []) (cut (own [.fails]))) :=
    (Only.done (by simp)).either (Only.cut (only_own (by simp [Act.Continues])))
  have honly := hassert.seq <| (hown .getState rfl).seq <| (hown .getPipelineState rfl).seq <|
    (hown .incrActiveThreads rfl).seq <|
    (NeverStarts.kept.mutate defs loopDefs s InjectPAPIProfiling.init).only.seq
      (hown .decrActiveThreads rfl)
  refine ⟨_, _, hostCalls t₂, rfl, fun c hc => ?_⟩
  obtain ⟨e, he, hcall⟩ := List.mem_filterMap.mp hc
  apply honly t₂ ok ht₂ e he c
  split at hcall
  · cases hcall
  · obtain ⟨path, act⟩ := e
    cases act <;> cases hcall
    rfl

end ProfHalide
