import ProfHalide.Pass.Visits

/-!
# Inherited profiling

A node without a registration takes the status of the produce node around it, or rather the status that
node's own registration gives it: what it has itself inherited is not known yet when its body is
mutated. So profiling is passed on from a registered produce node to those right inside it, and no
further.
-/

namespace ProfHalide

open InjectPAPIProfiling

/-- Without a registration a node has the status of the produce node around it, and with a first
registration that disables it, it is not profiled. -/
structure Visit.Inherits (v : Visit) : Prop where
  unregistered : v.registration = none → ∀ name profiled showThreads,
    v.around = some (name, profiled, showThreads) → v.status = (profiled, showThreads)
  disabled : ∀ d, v.registration = some d → d.enable = false → v.status.1 = false

/-- A produce node: its func, whether its registration enables it, and whether it is profiled without
having a registration. -/
structure Producer where
  func : String
  enabled : Bool
  heir : Bool

/-- No node without a registration lies right inside a produce node that is profiled without having a
registration itself. -/
def oneGeneration (defs : List ProfilerDef) : Option Producer → Stmt Empty → Bool
  | _, .leaf _ => true
  | around, .scope _ body | around, .ifThen _ body => oneGeneration defs around body
  | around, .producerConsumer name isProducer body =>
      let it := defs.find? fun d => d.matches name isProducer (around.elim "overhead" (·.func))
      let heir := it.isNone && around.any (·.enabled)
      !(it.isNone && around.any (·.heir)) &&
        oneGeneration defs
          (if isProducer then some ⟨normalizeName name, it.any (·.enable), heir⟩ else around) body
  | around, .for_ _ _ _ _ api body => api.isGpu || oneGeneration defs around body
  | around, .block a b | around, .fork a b | around, .ifThenElse _ a b =>
      oneGeneration defs around a && oneGeneration defs around b

/-! ### What a node is given -/

/-- The status on the stack against the status in the end, for the produce node around a statement. -/
def PassedOn (st : InjectPAPIProfiling) :
    Option (String × Bool × Bool) → Option Producer → Prop
  | none, none => st.profileStack = []
  | some (_, status), some producer => ∃ top others, st.profileStack = top :: others ∧
      top.1 = producer.enabled ∧ (top.1 = false → top.2 = false) ∧
      if producer.heir then producer.enabled = false ∧ status.1 = true else status = top
  | _, _ => False

theorem PassedOn.frame {st st' : InjectPAPIProfiling} {around : Option (String × Bool × Bool)}
    {producer : Option Producer} (h : PassedOn st around producer)
    (hprofile : st'.profileStack = st.profileStack) : PassedOn st' around producer := by
  unfold PassedOn at h ⊢
  rw [hprofile]
  exact h

theorem registeredStatus_snd (it : Option ProfilerDef) :
    (registeredStatus it).1 = false → (registeredStatus it).2 = false := by
  intro h
  change it.any (·.enable) = false at h
  rw [registeredStatus, h, Bool.false_and]

/-- A registration decides, also one that disables. -/
theorem inherit_some (st : InjectPAPIProfiling) (d : ProfilerDef) :
    (st.inherit (some d) (registeredStatus (some d))).1 = registeredStatus (some d) := by
  unfold inherit
  rw [Option.isNone_some, Bool.and_false, if_neg Bool.false_ne_true]

/-- Without one the status on the stack does. -/
theorem inherit_none (st : InjectPAPIProfiling) :
    (st.inherit none (registeredStatus none)).1 =
      if st.profileStackBack.1.1 then (true, st.profileStackBack.1.2) else (false, false) := rfl

section Visits

variable (defs : List ProfilerDef) (loopDefs : List ProfilerLoop)

/-- The context of a statement: what the mutator has on its stacks, and what is known from the source. -/
structure Lineage (around : Option (String × Bool × Bool)) (producer : Option Producer)
    (st : InjectPAPIProfiling) : Prop where
  place : At (producer.map fun p => (p.func, p.enabled)) .idle st none
  passedOn : PassedOn st around producer

section

variable {around : Option (String × Bool × Bool)} {producer : Option Producer}
  {st st' : InjectPAPIProfiling}

theorem Lineage.frame (h : Lineage around producer st) (hframe : Frame st st') :
    Lineage around producer st' :=
  ⟨h.place.frame hframe, h.passedOn.frame hframe.profileStack⟩

theorem Lineage.registration_eq (h : Lineage around producer st) (name : String) (isProducer : Bool) :
    registration defs name isProducer st =
      defs.find? fun d => d.matches name isProducer (producer.elim "overhead" (·.func)) := by
  rw [registration, h.place.parentName_eq]
  cases producer <;> rfl

/-- The status of a node against the source, if its registration is `it`. -/
theorem Lineage.inherits_iff (h : Lineage around producer st) (v : Visit)
    (haround : v.around = around)
    (hstatus : v.status = (st.inherit v.registration (registeredStatus v.registration)).1) :
    v.Inherits ↔ (v.registration.isNone && producer.any (·.heir)) = false := by
  have hpassed := h.passedOn
  cases hit : v.registration with
  | some d =>
    rw [hit, inherit_some] at hstatus
    refine iff_of_true ⟨fun hnone => ?_, fun d' hd hdisable => ?_⟩ rfl
    · rw [hit] at hnone
      cases hnone
    · rw [hit] at hd
      cases hd
      rw [hstatus]
      exact hdisable
  | none =>
    rw [hit, inherit_none] at hstatus
    have hdisabled : ∀ d, v.registration = some d → d.enable = false → v.status.1 = false := by
      intro d hd
      rw [hit] at hd
      cases hd
    rw [Option.isNone_none, Bool.true_and]
    cases around with
    | none =>
      cases producer with
      | some p => exact hpassed.elim
      | none =>
        refine iff_of_true ⟨fun _ name profiled showThreads hsome => ?_, hdisabled⟩ rfl
        rw [haround] at hsome
        cases hsome
    | some outer =>
      cases producer with
      | none => exact hpassed.elim
      | some p =>
        obtain ⟨name, status⟩ := outer
        obtain ⟨top, others, hstack, henabled, hthreads, hend⟩ := hpassed
        have htop : v.status = top := by
          rw [hstatus, profileStackBack, hstack]
          dsimp only
          split
          · next htrue => exact Prod.ext htrue.symm rfl
          · next hfalse =>
            have hfalse := Bool.eq_false_iff.mpr hfalse
            exact Prod.ext hfalse.symm (hthreads hfalse).symm
        have hinherits : v.Inherits ↔ top = status := by
          constructor
          · intro hv
            rw [← htop]
            exact hv.unregistered hit name status.1 status.2 haround
          · intro heq
            refine ⟨fun _ name' profiled showThreads hsome => ?_, hdisabled⟩
            rw [haround] at hsome
            cases hsome
            exact htop.trans heq
        rw [hinherits, Option.any_some]
        cases hheir : p.heir with
        | false =>
          rw [hheir, if_neg Bool.false_ne_true] at hend
          exact iff_of_true hend.symm rfl
        | true =>
          rw [hheir, if_pos rfl] at hend
          refine iff_of_false (fun heq => ?_) (by decide)
          rw [← heq, henabled, hend.1] at hend
          cases hend.2

end

/-- The body of a node, inside the node. -/
theorem Lineage.beforeBody {around : Option (String × Bool × Bool)} {producer : Option Producer}
    {st : InjectPAPIProfiling} (h : Lineage around producer st) (name : String) (isProducer : Bool) :
    let it := registration defs name isProducer st
    Lineage
      (if isProducer then some (name, (st.inherit it (registeredStatus it)).1) else around)
      (if isProducer then
        some ⟨normalizeName name, it.any (·.enable), it.isNone && producer.any (·.enabled)⟩
      else producer)
      (beforeBody defs name isProducer st) := by
  intro it
  have hidle : Slot.idle.Is (ProfHalide.beforeBody defs name isProducer st).indices none := rfl
  have hplace := h.place.beforeBody defs name isProducer hidle
  have hprofile := beforeBody_profileStack defs name isProducer st
  cases isProducer with
  | false => exact ⟨hplace, h.passedOn.frame hprofile⟩
  | true =>
    refine ⟨hplace, registeredStatus it, st.profileStack, hprofile, rfl, registeredStatus_snd it, ?_⟩
    have hpassed := h.passedOn
    cases hit : it with
    | some d =>
      rw [Option.isNone_some, Bool.false_and, if_neg Bool.false_ne_true]
      exact inherit_some st d
    | none =>
      rw [inherit_none, Option.isNone_none, Bool.true_and]
      cases producer with
      | none =>
        cases around with
        | some outer => exact hpassed.elim
        | none =>
          have hempty : st.profileStackBack.1 = (false, false) := by
            rw [profileStackBack, show st.profileStack = [] from hpassed]
          rw [hempty]
          rfl
      | some p =>
        cases around with
        | none => exact hpassed.elim
        | some outer =>
          obtain ⟨top, others, hstack, henabled, _⟩ := hpassed
          have hback : st.profileStackBack.1 = top := by rw [profileStackBack, hstack]
          rw [hback, henabled, Option.any_some]
          cases p.enabled with
          | false => rfl
          | true => exact ⟨rfl, rfl⟩

theorem visits_inherit_iff (s : Stmt Empty) {around : Option (String × Bool × Bool)}
    {producer : Option Producer} {st : InjectPAPIProfiling} (h : Lineage around producer st) :
    (∀ v ∈ visits defs loopDefs around s st, v.Inherits) ↔ oneGeneration defs producer s = true := by
  induction s generalizing around producer st with
  | leaf l => simp [visits, oneGeneration]
  | scope hd body ih => exact ih h
  | ifThen c t ih => exact ih h
  | producerConsumer name isProducer body ih =>
    have hframe := mutate_frame defs loopDefs body (beforeBody defs name isProducer st)
    have hstatus := visitStatus_eq defs name isProducer hframe
    have hbody := ih (h.beforeBody defs name isProducer)
    rw [visits, List.forall_mem_append, hstatus, hbody, List.forall_mem_singleton,
      h.inherits_iff _ rfl rfl, oneGeneration, ← h.registration_eq defs name isProducer, Bool.and_eq_true,
      Bool.not_eq_true', and_comm]
  | for_ name min extent forType api body ih =>
    rw [visits, oneGeneration]
    cases api.isGpu with
    | true => simp
    | false => exact ih h
  | block a b iha ihb | fork a b iha ihb | ifThenElse c a b iha ihb =>
    rw [visits, List.forall_mem_append, iha h, ihb (h.frame (mutate_frame defs loopDefs a st)),
      oneGeneration, Bool.and_eq_true]

theorem lineage_init : Lineage none none init := ⟨at_init, rfl⟩

/-- What the visits of `s` decide is what the instrumented statement and the tables show, and every node
without a registration inside a produce node has the status of that node. -/
structure ProfilingInherited (s : Stmt Empty) : Prop where
  profiled : (mutate defs loopDefs s init).1.nodes =
    (visits defs loopDefs none s init).map fun v => (v.name, v.isProducer, v.status.1)
  showThreads : ∀ kind, (mutate defs loopDefs s init).2.showThreads kind =
    (visits defs loopDefs none s init).foldl (Visit.enterThreads kind) (init.showThreads kind)
  inherits : ∀ v ∈ visits defs loopDefs none s init, v.Inherits

/-- Profiling is inherited exactly if it never has to be passed on twice. -/
theorem profilingInherited_iff (s : Stmt Empty) :
    ProfilingInherited defs loopDefs s ↔ oneGeneration defs none s = true := by
  rw [← visits_inherit_iff defs loopDefs s lineage_init]
  refine ⟨fun h => h.inherits, fun h => ⟨?_, fun kind => ?_, h⟩⟩
  · exact nodes_mutate defs loopDefs none s init
  · exact showThreads_mutate defs loopDefs kind none s init

end Visits

/-- Only `f` is registered; `g`, which is produced inside it, is profiled, and `h` inside `g` is not. -/
theorem not_profilingInherited_nested :
    ¬ ∀ (defs : List ProfilerDef) (loopDefs : List ProfilerLoop) (s : Stmt Empty),
      ProfilingInherited defs loopDefs s := by
  intro h
  have hinherited := h [profile "f" PROFILE_PRODUCTION false true] []
    (.producerConsumer "f" true (.producerConsumer "g" true (.producerConsumer "h" true
      (.leaf (.provide "h" [.intImm 1] [.intImm 0])))))
  have hgeneration := (visits_inherit_iff _ _ _ lineage_init).mp
    hinherited.inherits
  exact absurd hgeneration (by decide)

end ProfHalide
