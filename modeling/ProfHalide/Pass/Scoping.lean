import ProfHalide.Pass.Erasure
import ProfHalide.Halide.Binding
import Mathlib.Data.List.TakeWhile

/-!
# The profiler's names in their scopes

The instrumented program binds every name of the profiler that it uses. A call that acts on a state
takes the one of the device it runs on: inside a Hexagon loop the state that a let of that loop's body
fetches, elsewhere the state that the prologue fetches. Nothing is called inside a loop of another
device.
-/

namespace ProfHalide

open InjectPAPIProfiling

/-! ### What a call finds -/

/-- Whether a function is given the state it acts on. The others start a pipeline, fetch a state or
register the end. -/
def PapiFn.takesState : PapiFn → Bool
  | .pipelineStart | .getState | .getPipelineState | .registerDestructor => false
  | .setCurrentFunc | .enterCurrentFunc | .leaveCurrentFunc | .enterOverheadRegion
  | .leaveOverheadRegion | .enterLoop | .leaveLoop | .incrActiveThreads | .decrActiveThreads
  | .enterParallelRegion | .leaveParallelRegion => true

/-- The let that fetches a state under the given name. -/
def fetch (name : String) : Binder PapiFn := .letStmt name (.call .getState [])

namespace CallSite

/-- The call takes the named state, which is what a let among these binders has fetched. -/
structure Takes (c : CallSite PapiFn) (name : String) (binders : List (Binder PapiFn)) : Prop where
  state : c.args.head? = some (.variable name)
  bound : binders.find? (·.name = name) = some (fetch name)

/-- The calls that start the profiler: on the host those of functions that are given no state, and in
a kernel the one that fetches the kernel's state. -/
def isPrologue (c : CallSite PapiFn) : Bool :=
  if c.inKernel then c.fn == .getState && c.kernelBinders.isEmpty else !c.fn.takesState

/-- Outside of the loops of other devices, a call that is not exempt takes the state of the device
that it runs on. -/
structure RightState (exempt : CallSite PapiFn → Bool) (c : CallSite PapiFn) : Prop where
  kernel : c.inKernel = true → exempt c = false → c.Takes "hvx_profiler_state" c.kernelBinders
  host : c.inKernel = false → exempt c = false → c.Takes "profiler_state" c.around
  gpu : ∀ b ∈ c.around, b.isGpu = false

end CallSite

/-- No name of the profiler is free, and every call takes the right state, up to those exempt. -/
structure WellScoped (exempt : CallSite PapiFn → Bool) (r : Stmt PapiFn) : Prop where
  free : ∀ x ∈ r.freeNames, isProfilerName x = false
  calls : ∀ c ∈ r.calls, c.RightState exempt

/-! ### Calls before the state is bound -/

namespace CallSite

variable {c : CallSite PapiFn}

def stateNames : List String := ["profiler_state", "hvx_profiler_state"]

/-- The call takes the named state in a program that has yet to be given it. -/
structure Awaits (name : String) (c : CallSite PapiFn) : Prop where
  state : c.args.head? = some (.variable name)
  around : ∀ b ∈ c.around, b.name ∉ stateNames ∧ b.isHexagon = false ∧ b.isGpu = false

/-- A call in a kernel, which is complete in this respect. -/
structure InKernel (c : CallSite PapiFn) : Prop where
  inKernel : c.inKernel = true
  state : c.isPrologue = true ∨ c.Takes "hvx_profiler_state" c.kernelBinders
  gpu : ∀ b ∈ c.around, b.isGpu = false

theorem inKernel_inside (hc : c.inKernel = true) (binders : List (Binder PapiFn)) :
    (c.inside binders).inKernel = true := by
  show (c.around ++ binders).any Binder.isHexagon = true
  rw [List.any_append, Bool.or_eq_true]
  exact Or.inl hc

/-- What stands around a kernel is not in it. -/
theorem kernelBinders_inside (hc : c.inKernel = true) (binders : List (Binder PapiFn)) :
    (c.inside binders).kernelBinders = c.kernelBinders := by
  obtain ⟨b, hb, hhexagon⟩ := List.any_eq_true.mp hc
  show (c.around ++ binders).takeWhile _ = c.around.takeWhile _
  rw [List.takeWhile_append, if_neg]
  intro hall
  have hwhole := (List.takeWhile_prefix _).eq_of_length hall
  have hnone := List.takeWhile_eq_self_iff.mp hwhole b hb
  simp [hhexagon] at hnone

theorem InKernel.inside {binders : List (Binder PapiFn)} (hc : c.InKernel)
    (hgpu : ∀ b ∈ binders, b.isGpu = false) : (c.inside binders).InKernel where
  inKernel := inKernel_inside hc.inKernel binders
  state := by
    rw [isPrologue, inKernel_inside hc.inKernel, kernelBinders_inside hc.inKernel]
    rcases hc.state with hprologue | htakes
    · left
      rwa [isPrologue, hc.inKernel] at hprologue
    · exact Or.inr ⟨htakes.state, htakes.bound⟩
  gpu b hb := (List.mem_append.mp hb).elim (hc.gpu b) (hgpu b)

section Awaits

variable {name : String}

theorem Awaits.inside {binders : List (Binder PapiFn)} (hc : c.Awaits name)
    (hbinders : ∀ b ∈ binders, b.name ∉ stateNames ∧ b.isHexagon = false ∧ b.isGpu = false) :
    (c.inside binders).Awaits name where
  state := hc.state
  around b hb := (List.mem_append.mp hb).elim (hc.around b) (hbinders b)

theorem Awaits.not_inKernel (hc : c.Awaits name) : c.inKernel = false := by
  apply List.any_eq_false.mpr
  intro b hb
  simp [(hc.around b hb).2.1]

theorem Awaits.substitute (hc : c.Awaits name) (newName : String) :
    (c.substitute name newName).Awaits newName where
  state := by
    obtain ⟨args, hargs⟩ := List.head?_eq_some_iff.mp hc.state
    rw [CallSite.substitute_args, hargs, Expr.substituteAll, Expr.substitute, if_pos rfl]
    rfl
  around := by
    intro b hb
    obtain ⟨b', hb', rfl⟩ := List.mem_map.mp hb
    simpa using hc.around b' hb'

/-- Nothing between the call and the let around all of it binds the state's name. -/
theorem Awaits.takes (hc : c.Awaits name) (hname : name ∈ stateNames) :
    (c.inside [fetch name]).Takes name (c.around ++ [fetch name]) where
  state := hc.state
  bound := by
    have hfree : c.around.find? (·.name = name) = none := by
      apply List.find?_eq_none.mpr
      intro b hb hbname
      rw [← of_decide_eq_true hbname] at hname
      exact (hc.around b hb).1 hname
    rw [List.find?_append, hfree, Option.none_or]
    simp [fetch, Binder.name]

/-- Moving a call into a kernel renames its state to the one that the kernel fetches. -/
theorem Awaits.kernel (hc : c.Awaits "profiler_state") (loopName : String) :
    (((c.substitute "profiler_state" "hvx_profiler_state").inside
      [fetch "hvx_profiler_state"]).inside [.loop loopName .hexagon]).InKernel := by
  have hrenamed := hc.substitute "hvx_profiler_state"
  have htakes := hrenamed.takes (by decide)
  let body := (c.substitute "profiler_state" "hvx_profiler_state").around ++
    [fetch "hvx_profiler_state"]
  let loop : Binder PapiFn := .loop loopName .hexagon
  have hbody : ∀ b ∈ body, b.isHexagon = false ∧ b.isGpu = false := by
    intro b hb
    rcases List.mem_append.mp hb with hb | hb
    · exact (hrenamed.around b hb).2
    · rw [List.mem_singleton.mp hb]
      exact ⟨rfl, rfl⟩
  have hbinders : (body ++ [loop]).takeWhile (!·.isHexagon) = body := by
    rw [List.takeWhile_append_of_pos fun b hb => by rw [(hbody b hb).1, Bool.not_false]]
    exact List.append_nil body
  refine ⟨List.any_eq_true.mpr ⟨loop, List.mem_append_right _ (List.mem_singleton_self loop), rfl⟩,
    Or.inr ⟨htakes.state, ?_⟩, ?_⟩
  · show ((body ++ [loop]).takeWhile (!·.isHexagon)).find? _ = _
    rw [hbinders]
    exact htakes.bound
  · intro b hb
    rcases List.mem_append.mp hb with hb | hb
    · exact (hbody b hb).2
    · rw [List.mem_singleton.mp hb]
      rfl

end Awaits

/-- Renaming the host's state changes nothing in a kernel, where it is not used. -/
theorem InKernel.substitute (hc : c.InKernel) :
    (c.substitute "profiler_state" "hvx_profiler_state").InKernel where
  inKernel := by rw [CallSite.substitute_inKernel, hc.inKernel]
  state := by
    rw [isPrologue, CallSite.substitute_inKernel, CallSite.substitute_kernelBinders,
      List.isEmpty_map]
    rcases hc.state with hprologue | htakes
    · exact Or.inl hprologue
    · right
      refine ⟨?_, ?_⟩
      · obtain ⟨args, hargs⟩ := List.head?_eq_some_iff.mp htakes.state
        rw [CallSite.substitute_args, hargs]
        rfl
      · rw [List.find?_map]
        simp only [Function.comp_def, Binder.name_substitute, htakes.bound]
        rfl
  gpu := by
    intro b hb
    obtain ⟨b', hb', rfl⟩ := List.mem_map.mp hb
    rw [Binder.isGpu_substitute, hc.gpu b' hb']

end CallSite

/-! ### The mutator -/

/-- A program whose calls are complete in kernels and await the host's state elsewhere. -/
structure Scoped (r : Stmt PapiFn) : Prop where
  free : ∀ x ∈ r.freeNames,
    isProfilerName x = true → x = "profiler_token" ∨ x = "profiler_state"
  bound : ∀ x ∈ r.boundNames, isProfilerName x = true → x = "hvx_profiler_state"
  calls : ∀ c ∈ r.calls, c.Awaits "profiler_state" ∨ c.InKernel

theorem not_profilerName_of_clean {names : List String} {x : String}
    (hnames : ∀ y ∈ names, isProfilerName y = false) (hx : x ∈ names) :
    ¬ isProfilerName x = true := by
  rw [hnames x hx]
  exact Bool.false_ne_true

section Clean

variable {x : String}

theorem not_stateName_of_clean (hx : isProfilerName x = false) : x ∉ CallSite.stateNames := by
  intro hmem
  have hname : ∀ y ∈ CallSite.stateNames, isProfilerName y = true := by decide
  rw [hname x hmem] at hx
  cases hx

theorem Expr.not_profilerName_free {e : Expr Empty}
    (he : ∀ y ∈ e.names, isProfilerName y = false) (hx : x ∈ (e.lift : Expr PapiFn).freeNames) :
    ¬ isProfilerName x = true :=
  not_profilerName_of_clean he (e.names_mapCall Empty.elim ▸ Expr.mem_names_of_free _ hx)

theorem Expr.not_profilerName_bound {e : Expr Empty}
    (he : ∀ y ∈ e.names, isProfilerName y = false) (hx : x ∈ (e.lift : Expr PapiFn).boundNames) :
    ¬ isProfilerName x = true :=
  not_profilerName_of_clean he (e.names_mapCall Empty.elim ▸ Expr.mem_names_of_bound _ hx)

theorem Scope.not_profilerName_free {h : Scope Empty}
    (hh : ∀ y ∈ h.names, isProfilerName y = false) (hx : x ∈ (h.lift : Scope PapiFn).freeNames) :
    ¬ isProfilerName x = true :=
  not_profilerName_of_clean hh (h.names_mapCall Empty.elim ▸ Scope.mem_names_of_free _ hx)

theorem Scope.not_profilerName_bound {h : Scope Empty}
    (hh : ∀ y ∈ h.names, isProfilerName y = false) (hx : x ∈ (h.lift : Scope PapiFn).boundNames) :
    ¬ isProfilerName x = true :=
  not_profilerName_of_clean hh (h.names_mapCall Empty.elim ▸ Scope.mem_names_of_bound _ hx)

end Clean

namespace Scoped

variable {r r' : Stmt PapiFn}

theorem lift {s : Stmt Empty} (hs : s.Clean) : Scoped s.lift where
  free x hx hname := absurd hname <|
    not_profilerName_of_clean hs (s.names_mapCall Empty.elim ▸ Stmt.mem_names_of_free _ hx)
  bound x hx hname := absurd hname <|
    not_profilerName_of_clean hs (s.names_mapCall Empty.elim ▸ Stmt.mem_names_of_bound _ hx)
  calls c hc := absurd hc (by rw [Stmt.calls_source]; exact List.not_mem_nil)

/-- A call that takes the host's state, and besides the token only numbers. -/
theorem call (fn : PapiFn) {args : List (Expr PapiFn)}
    (hargs : ∀ e ∈ args, e = profilerToken ∨ ∃ value, e = .intImm value) :
    Scoped (.evaluate (.call fn (profilerState :: args))) := by
  have hall : (∀ x ∈ Expr.freeNamesAll args, x = "profiler_token") ∧
      Expr.boundNamesAll args = [] ∧ Expr.callsAll args = [] := by
    induction args with
    | nil => simp [Expr.freeNamesAll, Expr.boundNamesAll, Expr.callsAll]
    | cons e args ih =>
      have htail := ih fun e he => hargs e (List.mem_cons_of_mem _ he)
      rcases hargs e List.mem_cons_self with rfl | ⟨value, rfl⟩
      · simpa [Expr.freeNamesAll, Expr.boundNamesAll, Expr.callsAll, profilerToken, Expr.freeNames,
          Expr.boundNames, Expr.calls] using htail
      · simpa [Expr.freeNamesAll, Expr.boundNamesAll, Expr.callsAll, Expr.freeNames,
          Expr.boundNames, Expr.calls] using htail
  refine ⟨?_, ?_, ?_⟩
  · intro x hx _
    rcases List.mem_cons.mp hx with hx | hx
    · exact Or.inr hx
    · exact Or.inl (hall.1 x hx)
  · intro x hx _
    have hnone : x ∈ Expr.boundNamesAll args := hx
    rw [hall.2.1] at hnone
    cases hnone
  · intro c hc
    have hcall : c ∈ ⟨fn, profilerState :: args, []⟩ :: Expr.callsAll args := hc
    rw [hall.2.2, List.mem_singleton] at hcall
    subst hcall
    exact Or.inl ⟨rfl, by simp⟩

theorem block (hr : Scoped r) (hr' : Scoped r') : Scoped (.blockMake r r') where
  free x hx := by
    rw [Stmt.freeNames_blockMake, List.mem_append] at hx
    exact hx.elim (hr.free x) (hr'.free x)
  bound x hx := by
    rw [Stmt.boundNames_blockMake, List.mem_append] at hx
    exact hx.elim (hr.bound x) (hr'.bound x)
  calls c hc := by
    rw [Stmt.calls_blockMake, List.mem_append] at hc
    exact hc.elim (hr.calls c) (hr'.calls c)

theorem fork (hr : Scoped r) (hr' : Scoped r') : Scoped (.fork r r') where
  free x hx := (List.mem_append.mp hx).elim (hr.free x) (hr'.free x)
  bound x hx := (List.mem_append.mp hx).elim (hr.bound x) (hr'.bound x)
  calls c hc := (List.mem_append.mp hc).elim (hr.calls c) (hr'.calls c)

theorem producerConsumer (name : String) (isProducer : Bool) (hr : Scoped r) :
    Scoped (.producerConsumer name isProducer r) := ⟨hr.free, hr.bound, hr.calls⟩

theorem ifThen {c : Expr Empty} (hc : ∀ x ∈ c.names, isProfilerName x = false) (hr : Scoped r) :
    Scoped (.ifThen c.lift r) where
  free x hx := (List.mem_append.mp hx).elim
    (fun hx hname => absurd hname (Expr.not_profilerName_free hc hx)) (hr.free x)
  bound x hx := (List.mem_append.mp hx).elim
    (fun hx hname => absurd hname (Expr.not_profilerName_bound hc hx)) (hr.bound x)
  calls site hsite := by
    rw [Stmt.calls, Expr.calls_source, List.nil_append] at hsite
    exact hr.calls site hsite

theorem ifThenElse {c : Expr Empty} (hc : ∀ x ∈ c.names, isProfilerName x = false)
    (hr : Scoped r) (hr' : Scoped r') : Scoped (.ifThenElse c.lift r r') where
  free x hx := (List.mem_append.mp hx).elim ((hr.ifThen hc).free x) (hr'.free x)
  bound x hx := (List.mem_append.mp hx).elim ((hr.ifThen hc).bound x) (hr'.bound x)
  calls site hsite := (List.mem_append.mp hsite).elim ((hr.ifThen hc).calls site) (hr'.calls site)

theorem scope {h : Scope Empty} (hh : ∀ x ∈ h.names, isProfilerName x = false) (hr : Scoped r) :
    Scoped (.scope h.lift r) where
  free x hx := by
    rcases List.mem_append.mp hx with hx | hx
    · intro hname
      exact absurd hname (Scope.not_profilerName_free hh hx)
    · exact hr.free x (mem_unbound.mp hx).1
  bound x hx := by
    rcases List.mem_append.mp hx with hx | hx
    · intro hname
      exact absurd hname (Scope.not_profilerName_bound hh hx)
    · exact hr.bound x hx
  calls c hc := by
    have hbinders : ∀ b ∈ (h.lift : Scope PapiFn).binders,
        b.name ∉ CallSite.stateNames ∧ b.isHexagon = false ∧ b.isGpu = false := by
      intro b hb
      cases h with
      | letStmt x v =>
        rw [List.mem_singleton.mp hb]
        exact ⟨not_stateName_of_clean (hh x List.mem_cons_self), rfl, rfl⟩
      | allocate x es v =>
        rw [List.mem_singleton.mp hb]
        exact ⟨not_stateName_of_clean (hh x List.mem_cons_self), rfl, rfl⟩
      | realize x es v =>
        rw [List.mem_singleton.mp hb]
        exact ⟨not_stateName_of_clean (hh x List.mem_cons_self), rfl, rfl⟩
      | _ => cases hb
    rw [Stmt.calls, Scope.calls_source, List.nil_append] at hc
    obtain ⟨c', hc', rfl⟩ := List.mem_map.mp hc
    rcases hr.calls c' hc' with hawaits | hkernel
    · exact Or.inl (hawaits.inside hbinders)
    · exact Or.inr (hkernel.inside fun b hb => (hbinders b hb).2.2)

/-- A loop under a header of the source. -/
theorem loop {x : String} {min extent : Expr Empty} {forType : ForType} {api : DeviceAPI}
    (hx : ∀ y ∈ x :: (min.names ++ extent.names), isProfilerName y = false)
    (hfree : ∀ y ∈ r.freeNames,
      isProfilerName y = true → y = "profiler_token" ∨ y = "profiler_state")
    (hbound : ∀ y ∈ r.boundNames, isProfilerName y = true → y = "hvx_profiler_state")
    (hcalls : ∀ c ∈ r.calls, (c.inside [.loop x api]).Awaits "profiler_state" ∨
      (c.inside [.loop x api]).InKernel) :
    Scoped (.for_ x min.lift extent.lift forType api r) := by
  have hmin : ∀ y ∈ min.names, isProfilerName y = false := fun y hy => hx y (by simp [hy])
  have hextent : ∀ y ∈ extent.names, isProfilerName y = false := fun y hy => hx y (by simp [hy])
  refine ⟨?_, ?_, ?_⟩
  · intro y hy hname
    simp only [Stmt.freeNames, List.mem_append, mem_unbound] at hy
    rcases hy with (hy | hy) | hy
    · exact absurd hname (Expr.not_profilerName_free hmin hy)
    · exact absurd hname (Expr.not_profilerName_free hextent hy)
    · exact hfree y hy.1 hname
  · intro y hy hname
    simp only [Stmt.boundNames, List.mem_cons, List.mem_append] at hy
    rcases hy with rfl | (hy | hy) | hy
    · exact absurd (hx y List.mem_cons_self) (by simp [hname])
    · exact absurd hname (Expr.not_profilerName_bound hmin hy)
    · exact absurd hname (Expr.not_profilerName_bound hextent hy)
    · exact hbound y hy hname
  · intro c hc
    rw [Stmt.calls, Expr.calls_source, Expr.calls_source, List.append_nil, List.nil_append] at hc
    obtain ⟨c', hc', rfl⟩ := List.mem_map.mp hc
    exact hcalls c' hc'

section Loop

variable {x : String} {min extent : Expr Empty}
  (hx : ∀ y ∈ x :: (min.names ++ extent.names), isProfilerName y = false)

include hx

theorem hostLoop (forType : ForType) {api : DeviceAPI} (hhexagon : api ≠ .hexagon)
    (hgpu : api.isGpu = false) (hr : Scoped r) :
    Scoped (.for_ x min.lift extent.lift forType api r) := by
  refine loop hx hr.free hr.bound fun c hc => ?_
  have hbinder : (Binder.loop x api : Binder PapiFn).isHexagon = false ∧
      (Binder.loop x api : Binder PapiFn).isGpu = false :=
    ⟨beq_eq_false_iff_ne.mpr fun h => hhexagon (Option.some.inj h), hgpu⟩
  rcases hr.calls c hc with hawaits | hkernel
  · left
    apply hawaits.inside
    intro b hb
    rw [List.mem_singleton.mp hb]
    exact ⟨not_stateName_of_clean (hx x List.mem_cons_self), hbinder⟩
  · right
    apply hkernel.inside
    intro b hb
    rw [List.mem_singleton.mp hb]
    exact hbinder.2

theorem kernelLoop (forType : ForType) (hr : Scoped r) :
    Scoped (.for_ x min.lift extent.lift forType .hexagon (kernelBody r)) := by
  refine loop hx ?_ ?_ fun c hc => ?_
  · intro y hy
    have hbody : y ∈ (r.substitute "profiler_state" "hvx_profiler_state").freeNames ∧
        y ∉ ["hvx_profiler_state"] := mem_unbound.mp hy
    rcases Stmt.mem_freeNames_substitute r hbody.1 with rfl | hfree
    · exact absurd (List.mem_singleton_self _) hbody.2
    · exact hr.free y hfree
  · intro y hy
    rcases List.mem_cons.mp hy with rfl | hy
    · exact fun _ => rfl
    · have hbody : y ∈ (r.substitute "profiler_state" "hvx_profiler_state").boundNames := hy
      rw [Stmt.boundNames_substitute] at hbody
      exact hr.bound y hbody
  · have hstate : "profiler_state" ∉ r.boundNames := fun h =>
      absurd (hr.bound _ h (by decide)) (by decide)
    right
    rcases List.mem_cons.mp hc with rfl | hc
    · exact ⟨rfl, Or.inl rfl, by simp [Binder.isGpu, Binder.api?, DeviceAPI.isGpu]⟩
    · obtain ⟨c', hc', rfl⟩ := List.mem_map.mp hc
      rw [Stmt.calls_substitute r hstate] at hc'
      obtain ⟨site, hsite, rfl⟩ := List.mem_map.mp hc'
      rcases hr.calls site hsite with hawaits | hkernel
      · exact hawaits.kernel x
      · have hnotGpu : ∀ b ∈ [fetch "hvx_profiler_state"], b.isGpu = false := by
          intro b hb
          rw [List.mem_singleton.mp hb]
          rfl
        apply (hkernel.substitute.inside hnotGpu).inside
        intro b hb
        rw [List.mem_singleton.mp hb]
        rfl

end Loop

theorem of_isStateCall {n : Stmt PapiFn} (hn : IsStateCall n) : Scoped n := by
  obtain ⟨fn, args, rfl, hargs⟩ := hn
  exact call fn hargs

theorem kept : KeptOnClean fun r _ => Scoped r where
  lift := lift
  scope := scope
  producerConsumer name isProducer hr := hr.producerConsumer name isProducer
  block := block
  fork := fork
  ifThen := ifThen
  ifThenElse := ifThenElse
  hostLoop forType _ hx hhexagon hgpu hr := hostLoop hx forType hhexagon hgpu hr
  kernelLoop forType hx hr := kernelLoop hx forType hr
  before hn hr := (of_isStateCall hn).block hr
  after hr hn := hr.block (of_isStateCall hn)

end Scoped

/-- What the mutator returns awaits the host's state and the token, and nothing else. -/
theorem mutate_scoped (defs : List ProfilerDef) (loopDefs : List ProfilerLoop) (s : Stmt Empty)
    (hs : s.Clean) (st : InjectPAPIProfiling) : Scoped (mutate defs loopDefs s st).1 :=
  Scoped.kept.mutate defs loopDefs s hs st

/-! ### The prologue -/

namespace CallSite

variable {c : CallSite PapiFn} {binders : List (Binder PapiFn)}

theorem inKernel_inside_eq (hbinders : ∀ b ∈ binders, b.isHexagon = false) :
    (c.inside binders).inKernel = c.inKernel := by
  have hnone : binders.any Binder.isHexagon = false := by
    apply List.any_eq_false.mpr
    intro b hb
    simp [hbinders b hb]
  show (c.around ++ binders).any Binder.isHexagon = _
  rw [List.any_append, hnone, Bool.or_false]
  rfl

theorem isPrologue_inside (hbinders : ∀ b ∈ binders, b.isHexagon = false) :
    (c.inside binders).isPrologue = c.isPrologue := by
  rw [isPrologue, inKernel_inside_eq hbinders, isPrologue]
  split
  · rename_i hkernel
    rw [kernelBinders_inside hkernel]
    rfl
  · rfl

theorem InKernel.rightState (hc : c.InKernel) : c.RightState isPrologue where
  kernel := by
    intro _ hexempt
    rcases hc.state with hprologue | htakes
    · rw [hprologue] at hexempt
      cases hexempt
    · exact htakes
  host := by
    intro hhost
    rw [hc.inKernel] at hhost
    cases hhost
  gpu := hc.gpu

/-- What the prologue wraps around a program leaves the states of its calls as they are. -/
theorem RightState.inside (hc : c.RightState isPrologue)
    (hbinders : ∀ b ∈ binders, b.isHexagon = false ∧ b.isGpu = false) :
    (c.inside binders).RightState isPrologue where
  kernel := by
    intro hkernel hexempt
    rw [inKernel_inside_eq fun b hb => (hbinders b hb).1] at hkernel
    rw [isPrologue_inside fun b hb => (hbinders b hb).1] at hexempt
    have htakes := hc.kernel hkernel hexempt
    rw [kernelBinders_inside hkernel]
    exact ⟨htakes.state, htakes.bound⟩
  host := by
    intro hhost hexempt
    rw [inKernel_inside_eq fun b hb => (hbinders b hb).1] at hhost
    rw [isPrologue_inside fun b hb => (hbinders b hb).1] at hexempt
    have htakes := hc.host hhost hexempt
    refine ⟨htakes.state, ?_⟩
    rw [inside_around, List.find?_append, htakes.bound]
    rfl
  gpu b hb := (List.mem_append.mp hb).elim (hc.gpu b) fun hb => (hbinders b hb).2

theorem Awaits.rightState (hc : c.Awaits "profiler_state") :
    (c.inside [fetch "profiler_state"]).RightState isPrologue := by
  have hfetch : ∀ b ∈ [fetch "profiler_state"], b.isHexagon = false ∧ b.isGpu = false := by
    intro b hb
    rw [List.mem_singleton.mp hb]
    exact ⟨rfl, rfl⟩
  refine ⟨?_, fun _ _ => hc.takes (by decide), ?_⟩
  · intro hkernel
    rw [inKernel_inside_eq fun b hb => (hfetch b hb).1, hc.not_inKernel] at hkernel
    cases hkernel
  · intro b hb
    rcases List.mem_append.mp hb with hb | hb
    · exact (hc.around b hb).2.2
    · exact (hfetch b hb).2

/-- A call of the prologue itself. -/
theorem RightState.prologue {fn : PapiFn} (hfn : fn.takesState = false)
    (args : List (Expr PapiFn)) : RightState isPrologue ⟨fn, args, []⟩ where
  kernel h := by cases h
  host _ h := by
    have hprologue : isPrologue ⟨fn, args, []⟩ = !fn.takesState := rfl
    rw [hprologue, hfn] at h
    cases h
  gpu b hb := by cases hb

end CallSite

/-- A program around which the profiler's names among these are still to be bound. -/
structure Opened (names : List String) (r : Stmt PapiFn) : Prop where
  free : ∀ x ∈ r.freeNames, isProfilerName x = true → x ∈ names
  calls : ∀ c ∈ r.calls, c.RightState CallSite.isPrologue

namespace Opened

variable {names : List String} {r r' : Stmt PapiFn}

theorem mono {names' : List String} (hr : Opened names r) (h : names ⊆ names') : Opened names' r :=
  ⟨fun x hx hname => h (hr.free x hx hname), hr.calls⟩

theorem block (hr : Opened names r) (hr' : Opened names r') : Opened names (.blockMake r r') where
  free x hx := by
    rw [Stmt.freeNames_blockMake, List.mem_append] at hx
    exact hx.elim (hr.free x) (hr'.free x)
  calls c hc := by
    rw [Stmt.calls_blockMake, List.mem_append] at hc
    exact hc.elim (hr.calls c) (hr'.calls c)

/-- A statement that calls nothing. -/
theorem silent (hfree : ∀ x ∈ r.freeNames, x ∈ names) (hcalls : r.calls = []) : Opened names r where
  free x hx _ := hfree x hx
  calls c hc := absurd hc (by rw [hcalls]; exact List.not_mem_nil)

theorem scope {h : Scope PapiFn} (hfree : ∀ x ∈ h.freeNames, x ∈ names)
    (hcalls : ∀ c ∈ h.calls, c.RightState CallSite.isPrologue)
    (hbinders : ∀ b ∈ h.binders, b.isHexagon = false ∧ b.isGpu = false)
    (hr : Opened (h.binders.map Binder.name ++ names) r) : Opened names (.scope h r) where
  free x hx hname := by
    rcases List.mem_append.mp hx with hx | hx
    · exact hfree x hx
    · have hbody := mem_unbound.mp hx
      exact (List.mem_append.mp (hr.free x hbody.1 hname)).resolve_left hbody.2
  calls c hc := by
    rcases List.mem_append.mp hc with hc | hc
    · exact hcalls c hc
    · obtain ⟨c', hc', rfl⟩ := List.mem_map.mp hc
      exact (hr.calls c' hc').inside hbinders

theorem fillTable {α : Type} {table : String} (htable : table ∈ names) (index : α → Nat)
    {value : α → Expr PapiFn} (hfree : ∀ p, (value p).freeNames = [])
    (hcalls : ∀ p, (value p).calls = []) (entries : List α) (hr : Opened names r) :
    Opened names (fillTable table index value entries r) := by
  induction entries generalizing r with
  | nil => exact hr
  | cons p entries ih =>
    apply ih
    apply block _ hr
    apply silent
    · intro x hx
      have hstore : x ∈ table :: ((value p).freeNames ++ [] ++ []) := hx
      rw [hfree p, List.append_nil, List.append_nil, List.mem_singleton] at hstore
      rwa [hstore]
    · show (value p).calls ++ [] ++ [] = []
      rw [hcalls p]
      rfl

theorem freeTable {table : String} (htable : table ∈ names) (hr : Opened names r) :
    Opened names (freeTable table r) := by
  apply hr.block
  apply silent
  · intro x hx
    rwa [List.mem_singleton.mp hx]
  · rfl

theorem tableAllocate {table : String} (size : Nat) (hr : Opened (table :: names) r) :
    Opened names (tableAllocate table size r) := by
  apply scope
  · exact fun x hx => absurd hx List.not_mem_nil
  · exact fun c hc => absurd hc List.not_mem_nil
  · intro b hb
    rw [List.mem_singleton.mp hb]
    exact ⟨rfl, rfl⟩
  · exact hr

end Opened

theorem measuredProgram_opened (pipelineName : String) {r : Stmt PapiFn} (hr : Scoped r) :
    Opened ["profiler_token"] (measuredProgram pipelineName r) := by
  have hbody : Scoped (.blockOf [incrActiveThreads, r] decrActiveThreads) :=
    (Scoped.call _ (by simp)).block (hr.block (.call _ (by simp)))
  have hpipeline : ∀ b ∈ [Binder.letStmt "profiler_pipeline_state"
      (.call PapiFn.getPipelineState [.stringImm pipelineName])],
      b.name ∉ CallSite.stateNames ∧ b.isHexagon = false ∧ b.isGpu = false := by
    intro b hb
    rw [List.mem_singleton.mp hb]
    exact ⟨by show "profiler_pipeline_state" ∉ CallSite.stateNames; decide, rfl, rfl⟩
  have hfetch : ∀ b ∈ [fetch "profiler_state"], b.isHexagon = false ∧ b.isGpu = false := by
    intro b hb
    rw [List.mem_singleton.mp hb]
    exact ⟨rfl, rfl⟩
  refine ⟨?_, ?_⟩
  · intro x hx hname
    have hstate := mem_unbound.mp hx
    rcases hbody.free x (mem_unbound.mp hstate.1).1 hname with rfl | rfl
    · exact List.mem_singleton_self _
    · exact absurd (List.mem_singleton_self _) hstate.2
  · intro c hc
    rcases List.mem_cons.mp hc with rfl | hc
    · exact .prologue rfl _
    · obtain ⟨inner, hinner, rfl⟩ := List.mem_map.mp hc
      rcases List.mem_cons.mp hinner with rfl | hinner
      · exact (CallSite.RightState.prologue rfl _).inside hfetch
      · obtain ⟨site, hsite, rfl⟩ := List.mem_map.mp hinner
        rcases hbody.calls site hsite with hawaits | hkernel
        · exact (hawaits.inside hpipeline).rightState
        · exact (hkernel.inside fun b hb => (hpipeline b hb).2.2).rightState.inside hfetch

/-- The names of the tables, innermost allocation first. -/
def tableNames : List String :=
  ["profiling_func_names", "profiling_loop_names", "profiling_func_threads_prod",
    "profiling_func_threads_cons", "profiling_loop_threads"]

theorem startedProgram_opened (pipelineName : String) (profiling : InjectPAPIProfiling)
    {r : Stmt PapiFn} (hr : Scoped r) :
    Opened tableNames (startedProgram pipelineName profiling r) := by
  have hassert : Opened ("profiler_token" :: tableNames)
      (.leaf (.assertStmt (.op ">=" [profilerToken, .intImm 0]) profilerToken)) :=
    .silent (by decide) rfl
  have hmeasured := (measuredProgram_opened pipelineName hr).mono
    (List.cons_subset_cons "profiler_token" (List.nil_subset tableNames))
  apply Opened.scope
  · intro x hx
    exact hx
  · intro c hc
    have hstart := List.mem_singleton.mp hc
    subst hstart
    exact .prologue rfl _
  · intro b hb
    rw [List.mem_singleton.mp hb]
    exact ⟨rfl, rfl⟩
  · exact hassert.block hmeasured

/-- The instrumented program leaves no name of the profiler free, and up to the calls that start the
profiler every call takes the state of the device it runs on. -/
theorem inject_wellScoped (defs : List ProfilerDef) (loopDefs : List ProfilerLoop) (s : Stmt Empty)
    (pipelineName : String) (hs : s.Clean) :
    WellScoped CallSite.isPrologue (injectPapiProfiling defs loopDefs s pipelineName) := by
  have hmutated := mutate_scoped defs loopDefs s hs init
  have hopened : Opened [] (injectPapiProfiling defs loopDefs s pipelineName) := by
    rw [inject_eq]
    apply Opened.block
    · refine ⟨fun x hx => absurd hx List.not_mem_nil, fun c hc => ?_⟩
      rcases List.mem_cons.mp hc with rfl | hc
      · exact .prologue rfl _
      · rw [List.mem_singleton.mp hc]
        exact .prologue rfl _
    · iterate 5 apply Opened.tableAllocate
      iterate 5 apply Opened.freeTable (by decide)
      iterate 5 apply Opened.fillTable (by decide) _ (fun _ => rfl) (fun _ => rfl)
      exact startedProgram_opened pipelineName _ hmutated
  refine ⟨fun x hx => ?_, hopened.calls⟩
  rw [← Bool.not_eq_true]
  intro hname
  cases hopened.free x hx hname

/-- A Hexagon loop in a Hexagon loop, and a GPU loop next to the inner one, with all loops profiled. -/
theorem inject_wellScoped_nested :
    let s : Stmt Empty := .producerConsumer "f" true
      (.for_ "f.s0.y" (.intImm 0) (.intImm 8) .parallel .hexagon
        (.block
          (.for_ "f.s0.x" (.intImm 0) (.intImm 8) .serial .hexagon
            (.leaf (.provide "f" [.intImm 1] [.variable "f.s0.x"])))
          (.for_ "f.s1.x" (.intImm 0) (.intImm 8) .gpuThread .cuda
            (.leaf (.provide "f" [.intImm 2] [.variable "f.s1.x"])))))
    WellScoped CallSite.isPrologue (injectPapiProfiling
      [profile "f" PROFILE_PRODUCTION false true] [⟨"f", "x", true⟩, ⟨"f", "y", true⟩] s "p") :=
  inject_wellScoped _ _ _ _ (by unfold Stmt.Clean; decide)

/-- The calls that start the profiler are given no state: the first registers the end. -/
theorem inject_prologue_without_state :
    let s : Stmt Empty := .leaf (.evaluate (.intImm 0))
    s.Clean ∧ s.freeNames = [] ∧
      ¬ WellScoped (fun _ => false) (injectPapiProfiling [] [] s "p") := by
  refine ⟨by unfold Stmt.Clean; decide, rfl, ?_⟩
  intro h
  have hregister := h.calls _ (List.mem_append_left _ List.mem_cons_self)
  have htakes := hregister.host rfl rfl
  cases htakes.state

end ProfHalide
