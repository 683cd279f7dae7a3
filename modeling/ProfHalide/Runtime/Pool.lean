import ProfHalide.Runtime.Metering

/-!
# What the counters of several threads add up

While a thread measures a region, it may step back and let others count for that region, each from its
first call to its last. As long as no region is entered or left while another thread counts, the counters
of a region hold for every thread what that thread has done while it counted for the region, and nothing
else.
-/

namespace ProfHalide

open Std Machine Behaviour

/-! ### Metered runs of several threads -/

namespace CounterLibrary

variable {σ : Type} (lib : CounterLibrary σ)

/-- What is done between the start of a thread and a stop is counted. -/
def CountsThreads : Prop := ∀ (l : σ) (costs : List (Nat → Int)) (n : Nat),
  (lib.markerStop (lib.workAll costs (lib.other .startThread l))).1 n = (costs.map (· n)).sum

/-- The library has just started to count. -/
def Started (l : σ) : Prop := ∃ l₀, l = lib.markerStart l₀ ∨ l = lib.other .startThread l₀

variable {lib}

theorem Started.markerStop (hlib : lib.Counts) (hthreads : lib.CountsThreads) {l : σ} (h : lib.Started l)
    (costs : List (Nat → Int)) (n : Nat) :
    (lib.markerStop (lib.workAll costs l)).1 n = (costs.map (· n)).sum := by
  obtain ⟨l₀, rfl | rfl⟩ := h
  · exact hlib l₀ costs n
  · exact hthreads l₀ costs n

end CounterLibrary

/-- The runtime with the counter library on every thread, and the event counters in the arrays of the
records. -/
structure Pool (σ : Type) where
  host : HostRun
  library : ThreadIndex → σ
  events : Ptr → Region → ThreadIndex → Nat → Int

/-- A call on a thread; something that a thread does, with what it costs; or a sample. -/
inductive PoolEvent where
  | call (c : PapiCall) (thread : ThreadIndex)
  | work (thread : ThreadIndex) (cost : Nat → Int)
  | sample (funcId : Int) (time : UInt64) (activeThreads : Int)

def PoolEvent.papiCall : PoolEvent → Option PapiCall
  | .call c _ => some c
  | .work _ _ | .sample _ _ _ => none

namespace Pool

variable {σ : Type} (lib : CounterLibrary σ)

/-- What a thread sees of it. -/
def view (c : Pool σ) (thread : ThreadIndex) : Metered σ := ⟨c.host, c.library thread, c.events⟩

/-- What a thread has made of it. -/
def put (c : Pool σ) (thread : ThreadIndex) (seen : Metered σ) : Pool σ :=
  ⟨seen.host, Function.update c.library thread seen.library, seen.events⟩

def step (env : Surroundings) (c : Pool σ) : PoolEvent → Option (Pool σ × List Effect)
  | .call call thread =>
      ((c.view thread).hostStep lib env (.call call thread)).map fun r => (c.put thread r.1, r.2)
  | .work thread cost => some (c.put thread ((c.view thread).work lib cost), [])
  | .sample funcId time activeThreads =>
      (c.host.step env (.sample funcId time activeThreads)).map fun r => ({ c with host := r.1 }, r.2)

end Pool

/-! ### What is spent where, and by whom -/

/-- The region that is being measured, and the threads that count. -/
structure Meter where
  region : Option Region
  counting : ThreadIndex → Bool

namespace Meter

def idle : Meter := ⟨none, fun _ => false⟩

variable (m : Meter)

/-- What a thread is counting for. -/
def regionOn (thread : ThreadIndex) : Option Region := if m.counting thread then m.region else none

/-- No thread counts but this one. -/
def Alone (thread : ThreadIndex) : Prop := ∀ thread', thread' ≠ thread → m.counting thread' = false

instance (thread : ThreadIndex) : Decidable (m.Alone thread) :=
  inferInstanceAs (Decidable (∀ _, _ → _))

/-- A thread counts from here on, or no longer. -/
def set (region : Option Region) (thread : ThreadIndex) (counts : Bool) : Meter :=
  ⟨region, Function.update m.counting thread counts⟩

/-- What is being measured after a call, as long as the calls fit together: a thread enters and leaves a
region while it is alone, and does not start to count for a region twice. -/
def call (thread : ThreadIndex) : PapiCall → Option Meter
  | .enter r =>
      if m.region = none ∧ m.Alone thread then some (m.set (some r) thread true) else none
  | .leave r =>
      if m.regionOn thread = some r ∧ m.Alone thread then some (m.set none thread false) else none
  | .incrActiveThreads =>
      if m.regionOn thread = none then some (m.set m.region thread true) else none
  | .decrActiveThreads =>
      if m.regionOn thread = m.region then some (m.set m.region thread false) else none
  | .enterParallelRegion | .leaveParallelRegion => if m.regionOn thread = none then some m else none
  | _ => some m

end Meter

/-- Something that a thread has done, with what it cost and what the thread was counting for. -/
structure ThreadSpent where
  thread : ThreadIndex
  cost : Nat → Int
  region : Option Region

/-- What a thread has spent on counted event `n` in a region. -/
def spentOn (thread : ThreadIndex) (r : Region) (spent : List ThreadSpent) (n : Nat) : Int :=
  ((spent.filter fun s => s.thread = thread ∧ s.region = some r).map (·.cost n)).sum

namespace PoolEvent

def measure (m : Meter) : PoolEvent → Option Meter
  | .call c thread => m.call thread c
  | .work _ _ | .sample _ _ _ => some m

def spent (m : Meter) : PoolEvent → Option ThreadSpent
  | .work thread cost => some ⟨thread, cost, m.regionOn thread⟩
  | .call _ _ | .sample _ _ _ => none

end PoolEvent

/-- What the threads spend in a run. -/
def Pool.spentBy (m : Meter) (events : List PoolEvent) : List ThreadSpent :=
  written PoolEvent.measure PoolEvent.spent m events

section Spent

variable {thread : ThreadIndex} {r : Region} {spent : List ThreadSpent}

theorem spentOn_append (spent spent' : List ThreadSpent) (n : Nat) :
    spentOn thread r (spent ++ spent') n = spentOn thread r spent n + spentOn thread r spent' n := by
  rw [spentOn, List.filter_append, List.map_append, List.sum_append]
  rfl

theorem spentOn_snoc (spent : List ThreadSpent) (s : ThreadSpent) (n : Nat) :
    spentOn thread r (spent ++ [s]) n =
      spentOn thread r spent n + if s.thread = thread ∧ s.region = some r then s.cost n else 0 := by
  rw [spentOn_append]
  congr 1
  by_cases h : s.thread = thread ∧ s.region = some r <;> simp [spentOn, h]

theorem spentOn_of_region (h : ∀ s ∈ spent, s.region = none) (n : Nat) : spentOn thread r spent n = 0 := by
  have hnone : spent.filter (fun s => s.thread = thread ∧ s.region = some r) = [] := by
    apply List.filter_eq_nil_iff.mpr
    intro s hs
    simp [h s hs]
  rw [spentOn, hnone]
  rfl

end Spent

namespace Meter

variable {m : Meter} {thread thread' : ThreadIndex} {r : Region} {b : Bool}

@[simp] theorem regionOn_idle (thread : ThreadIndex) : idle.regionOn thread = none := rfl

@[simp] theorem region_set (q : Option Region) : (m.set q thread b).region = q := rfl

theorem counting_set_self (q : Option Region) : (m.set q thread b).counting thread = b :=
  Function.update_self ..

theorem counting_set_of_ne (h : thread' ≠ thread) (q : Option Region) :
    (m.set q thread b).counting thread' = m.counting thread' := Function.update_of_ne h ..

theorem regionOn_set_self (q : Option Region) :
    (m.set q thread b).regionOn thread = if b then q else none := by
  rw [regionOn, counting_set_self, region_set]

theorem regionOn_set_of_ne (h : thread' ≠ thread) :
    (m.set m.region thread b).regionOn thread' = m.regionOn thread' := by
  rw [regionOn, counting_set_of_ne h, region_set, regionOn]

theorem region_of_regionOn (h : m.regionOn thread = some r) : m.region = some r := by
  rw [regionOn] at h
  split at h
  · exact h
  · cases h

theorem Alone.regionOn (h : m.Alone thread) (hne : thread' ≠ thread) : m.regionOn thread' = none := by
  rw [Meter.regionOn, h thread' hne]
  rfl

theorem Alone.regionOn_set (h : m.Alone thread) (hne : thread' ≠ thread) (q : Option Region) :
    (m.set q thread b).regionOn thread' = none := by
  rw [Meter.regionOn, counting_set_of_ne hne, h thread' hne]
  rfl

theorem regionOn_of_region (h : m.region = none) : m.regionOn thread = none := by
  rw [regionOn, h, ite_self]

end Meter

/-! ### One event -/

namespace Pool

open Metered (absorb addTo)

variable {σ : Type} {lib : CounterLibrary σ} {env : Surroundings} {c : Pool σ} {p : Ptr} {a : StartArgs}
  {m m' : Meter} {spent : List ThreadSpent}

/-- The library has counted `costs` since the thread has started to count for a region. -/
def Tallies (lib : CounterLibrary σ) (q : Option Region) (costs : List (Nat → Int)) (l : σ) : Prop :=
  match q with
  | none => costs = []
  | some _ => ∃ l₁, lib.Started l₁ ∧ l = lib.workAll costs l₁

/-- A record that was run: only threads that are noted have handed counters over, and a region that a
thread is noted for was left, unless it is being measured. -/
structure Noted (events : Region → ThreadIndex → Nat → Int) (region : Option Region) (runs : Nat)
    (counters : Region → Option Counters) : Prop where
  runs : 0 < runs
  unused : ∀ r c, counters r = some c → ∀ thread, c.used.get thread = false →
    ∀ n, events r thread n = 0
  left : ∀ r c, counters r = some c → ∀ thread, c.used.get thread = true →
    0 < c.iterations ∨ region = some r

/-- The pipeline runs with its record at `p`, and the counters of every region hold for each thread what it
has spent there, but for what the library of the thread has still to hand over. -/
structure Sums (lib : CounterLibrary σ) (p : Ptr) (a : StartArgs) (c : Pool σ) (m : Meter)
    (spent : List ThreadSpent) : Prop where
  ongoing : c.host.Ongoing p a.numFuncs a.numLoops m.region
  summed : ∀ thread, ∃ costs, Tallies lib (m.regionOn thread) costs (c.library thread) ∧ ∀ r n,
    c.events p r thread n + (if m.regionOn thread = some r then (costs.map (· n)).sum else 0) =
      spentOn thread r spent n
  noted : ∃ runs counters, c.host.state.measuresOf p = some (runs, a.labels, counters) ∧
    Noted (c.events p) m.region runs counters

/-- A thread does something. -/
theorem Sums.work (h : Sums lib p a c m spent) (thread : ThreadIndex) (cost : Nat → Int) :
    Sums lib p a (c.put thread ((c.view thread).work lib cost)) m
      (spent ++ [⟨thread, cost, m.regionOn thread⟩]) where
  ongoing := h.ongoing
  summed := by
    intro thread'
    obtain ⟨costs, htallies, hsum⟩ := h.summed thread'
    by_cases hthread : thread' = thread
    · subst hthread
      have hlibrary : (c.put thread' ((c.view thread').work lib cost)).library thread' =
          lib.work cost (c.library thread') := Function.update_self ..
      rw [hlibrary]
      cases hregion : m.regionOn thread' with
      | none =>
        rw [hregion] at htallies hsum
        refine ⟨costs, htallies, fun r n => ?_⟩
        rw [spentOn_snoc, ← hsum]
        simp [put, Metered.work, view]
      | some r =>
        rw [hregion] at htallies hsum
        obtain ⟨l₁, hstarted, hl⟩ := htallies
        refine ⟨costs ++ [cost], ⟨l₁, hstarted, ?_⟩, fun r' n => ?_⟩
        · rw [hl, CounterLibrary.workAll, CounterLibrary.workAll, List.foldl_append]
          rfl
        · rw [spentOn_snoc, ← hsum, List.map_append, List.sum_append]
          show c.events p r' thread' n + _ = _
          by_cases heq : r = r' <;> simp [heq, add_assoc]
    · have hlibrary : (c.put thread ((c.view thread).work lib cost)).library thread' =
          c.library thread' := Function.update_of_ne hthread ..
      rw [hlibrary]
      refine ⟨costs, htallies, fun r n => ?_⟩
      have hother : ¬ (thread = thread' ∧ m.regionOn thread = some r) := fun h => hthread h.1.symm
      rw [spentOn_snoc, if_neg hother, add_zero]
      exact hsum r n
  noted := h.noted

/-- A step of the runtime that leaves the counters of regions alone. -/
theorem Sums.keep (h : Sums lib p a c m spent) (m' : Meter) {host : HostRun} {library : ThreadIndex → σ}
    (hongoing : host.Ongoing p a.numFuncs a.numLoops m'.region)
    (hmeasures : host.state.measuresOf p = c.host.state.measuresOf p)
    (hregion : ∀ r, m.region = some r → m'.region = some r)
    (hlibrary : ∀ thread, (m'.regionOn thread = m.regionOn thread ∧ library thread = c.library thread) ∨
      (m.regionOn thread = none ∧ (m'.regionOn thread = none ∨ lib.Started (library thread)))) :
    Sums lib p a ⟨host, library, c.events⟩ m' spent where
  ongoing := hongoing
  summed := by
    intro thread
    obtain ⟨costs, htallies, hsum⟩ := h.summed thread
    rcases hlibrary thread with ⟨hsame, heq⟩ | ⟨hnone, hnext⟩
    · rw [hsame]
      show ∃ costs, Tallies lib _ costs (library thread) ∧ _
      rw [heq]
      exact ⟨costs, htallies, hsum⟩
    · refine ⟨[], ?_, fun r n => ?_⟩
      · cases hregion' : m'.regionOn thread with
        | none => rfl
        | some r =>
          refine ⟨library thread, ?_, rfl⟩
          rw [hregion'] at hnext
          exact hnext.resolve_left (Option.some_ne_none r)
      · rw [← hsum, hnone]
        simp
  noted := by
    rw [hmeasures]
    obtain ⟨runs, counters, heq, hnoted⟩ := h.noted
    refine ⟨runs, counters, heq, hnoted.runs, hnoted.unused, fun r c' hc thread hused => ?_⟩
    exact (hnoted.left r c' hc thread hused).imp_right (hregion r)

theorem Sums.measuresOf_eq (h : Sums lib p a c m spent) {stats : PipelineStats}
    (hstats : c.host.state.records[p]? = some stats) :
    stats.labels = a.labels ∧ c.host.state.measuresOf p = some (stats.runs, a.labels, stats.counters) := by
  obtain ⟨runs, counters, hmeasures, _⟩ := h.noted
  rw [PapiState.measuresOf, hstats, Option.map_some, Option.some.injEq, Prod.mk.injEq,
    Prod.mk.injEq] at hmeasures
  obtain ⟨rfl, hlabels, rfl⟩ := hmeasures
  rw [PapiState.measuresOf, hstats, ← hlabels]
  exact ⟨rfl, rfl⟩

/-- A thread that counts for a region hands over what it has counted. -/
theorem Sums.handOver (hlib : lib.Counts) (hthreads : lib.CountsThreads) (h : Sums lib p a c m spent)
    (m' : Meter) {thread : ThreadIndex} {r : Region} (hr : m.regionOn thread = some r) {host : HostRun} {l : σ}
    (hongoing : host.Ongoing p a.numFuncs a.numLoops m'.region)
    {f : Counters → Counters} {runs : Nat} {counters : Region → Option Counters}
    (hbefore : c.host.state.measuresOf p = some (runs, a.labels, counters))
    (hafter : host.state.measuresOf p = some (runs, a.labels, fun r' =>
      (counters r').map fun counters => if r = r' then f counters else counters))
    (hused : ∀ c thread', (f c).used.get thread' = true ↔ c.used.get thread' = true ∨ thread' = thread)
    (hleft : ∀ c, 0 < (f c).iterations ∨ m'.region = some r)
    (hthread : m'.regionOn thread = none)
    (hothers : ∀ thread', thread' ≠ thread → m'.regionOn thread' = m.regionOn thread') :
    Sums lib p a ⟨host, Function.update c.library thread l,
      addTo c.events (.of p r) thread (lib.markerStop (c.library thread)).1⟩ m' spent where
  ongoing := hongoing
  summed := by
    intro thread'
    obtain ⟨costs, htallies, hsum⟩ := h.summed thread'
    by_cases hne : thread' = thread
    · subst hne
      rw [hr] at htallies hsum
      obtain ⟨l₁, hstarted, hl⟩ := htallies
      rw [hthread]
      refine ⟨[], rfl, fun r' n => ?_⟩
      rw [← hsum, if_neg (Option.some_ne_none r').symm, add_zero]
      show c.events p r' thread' n + (if p = p ∧ r' = r ∧ thread' = thread' then _ else 0) = _
      rw [hl, hstarted.markerStop hlib hthreads]
      by_cases heq : r = r'
      · simp [heq]
      · simp [heq, Ne.symm heq]
    · rw [hothers thread' hne]
      show ∃ costs, Tallies lib _ costs (Function.update c.library thread l thread') ∧ _
      rw [Function.update_of_ne hne]
      refine ⟨costs, htallies, fun r' n => ?_⟩
      show c.events p r' thread' n + (if p = p ∧ r' = r ∧ thread' = thread then _ else 0) + _ = _
      rw [if_neg fun heq => hne heq.2.2, add_zero]
      exact hsum r' n
  noted := by
    obtain ⟨runs', counters', heq, hnoted⟩ := h.noted
    rw [hbefore] at heq
    cases heq
    refine ⟨_, _, hafter, hnoted.runs, ?_, ?_⟩
    · intro r' c' hc' thread' hunused n
      obtain ⟨c₀, hc₀, rfl⟩ := Option.map_eq_some_iff.mp hc'
      have hunused' : c₀.used.get thread' = false ∧ ¬ (r' = r ∧ thread' = thread) := by
        split at hunused
        · next heq =>
          rw [← Bool.not_eq_true, hused, not_or] at hunused
          exact ⟨Bool.eq_false_iff.mpr hunused.1, fun h => hunused.2 h.2⟩
        · next hne => exact ⟨hunused, fun h => hne h.1.symm⟩
      show c.events p r' thread' n + (if p = p ∧ r' = r ∧ thread' = thread then _ else 0) = 0
      rw [if_neg fun heq => hunused'.2 heq.2, add_zero]
      exact hnoted.unused r' c₀ hc₀ thread' hunused'.1 n
    · intro r' c' hc' thread' hused'
      obtain ⟨c₀, hc₀, rfl⟩ := Option.map_eq_some_iff.mp hc'
      by_cases heq : r = r'
      · rw [if_pos heq, ← heq]
        exact hleft c₀
      · rw [if_neg heq] at hused' ⊢
        refine (hnoted.left r' c₀ hc₀ thread' hused').imp_right fun hregion => ?_
        rw [Meter.region_of_regionOn hr] at hregion
        exact absurd (Option.some.inj hregion) heq

/-- A call of the running pipeline, by its answer. -/
theorem Sums.answered (h : Sums lib p a c m spent) (env : Surroundings) (call : PapiCall)
    (hstarts : call.starts = false) (hrange : call.InRange a.numFuncs a.numLoops) (thread : ThreadIndex)
    {answer : Answer} (hanswer : c.host.state.call env (c.host.token.getD 0) thread call = some answer) :
    let host : HostRun := { c.host with state := answer.state }
    c.step lib env (.call call thread) = some (c.put thread
        (answer.effects.foldl (absorb lib) { c.view thread with host := host }), answer.effects) ∧
      host.Ongoing p a.numFuncs a.numLoops (call.lastEntered m.region) := by
  obtain ⟨hstep, hongoing⟩ := h.ongoing.answered env hstarts hrange thread hanswer
  have hseen : (c.view thread).host.step env (.call call thread) =
      some ({ c.host with state := answer.state }, answer.effects) := hstep
  refine ⟨?_, hongoing⟩
  rw [step, Metered.hostStep_eq hseen]
  rfl

/-- The library of a thread changes, and the thread is not counting for anything. -/
theorem Sums.other (h : Sums lib p a c m spent) (m' : Meter) {thread : ThreadIndex}
    (hthread : m.regionOn thread = none) {host : HostRun} (hongoing : host.Ongoing p a.numFuncs a.numLoops m'.region)
    (hmeasures : host.state.measuresOf p = c.host.state.measuresOf p)
    (hregion : ∀ r, m.region = some r → m'.region = some r) {l : σ}
    (hnext : m'.regionOn thread = none ∨ lib.Started l)
    (hothers : ∀ thread', thread' ≠ thread → m'.regionOn thread' = m.regionOn thread') :
    Sums lib p a ⟨host, Function.update c.library thread l, c.events⟩ m' spent := by
  refine h.keep m' hongoing hmeasures hregion fun thread' => ?_
  by_cases hne : thread' = thread
  · rw [hne, Function.update_self]
    exact Or.inr ⟨hthread, hnext⟩
  · rw [Function.update_of_ne hne]
    exact Or.inl ⟨hothers thread' hne, rfl⟩

/-- A thread starts to count. -/
theorem Sums.incrActiveThreads (h : Sums lib p a c m spent) (env : Surroundings) {thread : ThreadIndex}
    (hthread : m.regionOn thread = none) :
    ∃ c' effects, c.step lib env (.call .incrActiveThreads thread) = some (c', effects) ∧
      Sums lib p a c' (m.set m.region thread true) spent := by
  obtain ⟨hstep, hongoing⟩ := h.answered env .incrActiveThreads rfl trivial thread rfl
  exact ⟨_, _, hstep, h.other (m.set m.region thread true) hthread hongoing rfl (fun _ hr => hr)
    (Or.inr ⟨c.library thread, Or.inr rfl⟩) fun thread' hne => Meter.regionOn_set_of_ne hne⟩

/-- A thread that is not counting for anything announces a parallel region, or its end. -/
theorem Sums.parallelRegion (h : Sums lib p a c m spent) (env : Surroundings) {thread : ThreadIndex}
    (hthread : m.regionOn thread = none) {call : PapiCall}
    (hcall : call = .enterParallelRegion ∨ call = .leaveParallelRegion) :
    ∃ c' effects, c.step lib env (.call call thread) = some (c', effects) ∧ Sums lib p a c' m spent := by
  have hother : ∀ l, Sums lib p a ⟨c.host, Function.update c.library thread l, c.events⟩ m spent :=
    fun l => h.other m hthread h.ongoing rfl (fun _ hr => hr) (Or.inl hthread) fun _ _ => rfl
  rcases hcall with rfl | rfl
  · obtain ⟨hstep, _⟩ := h.answered env .enterParallelRegion rfl trivial thread rfl
    exact ⟨_, _, hstep, hother (lib.other .enterParallelRegion (c.library thread))⟩
  · obtain ⟨hstep, _⟩ := h.answered env .leaveParallelRegion rfl trivial thread rfl
    exact ⟨_, _, hstep, hother (lib.other .leaveParallelRegion (c.library thread))⟩

/-- A call that neither marks nor is about threads. -/
theorem Sums.quiet (h : Sums lib p a c m spent) (env : Surroundings) {call : PapiCall}
    (hstarts : call.starts = false) (hmark : call.isMark = false) (hthread : call.isThread = false)
    (thread : ThreadIndex) :
    ∃ c' effects, c.step lib env (.call call thread) = some (c', effects) ∧ Sums lib p a c' m spent := by
  have hkeep : ∀ {host : HostRun}, host.Ongoing p a.numFuncs a.numLoops m.region →
      host.state.measuresOf p = c.host.state.measuresOf p →
      Sums lib p a ⟨host, Function.update c.library thread (c.library thread), c.events⟩ m spent := by
    intro host hongoing hmeasures
    refine h.keep m hongoing hmeasures (fun _ hr => hr) fun thread' => Or.inl ⟨rfl, ?_⟩
    rw [Function.update_eq_self]
  cases call with
  | setCurrentFunc t =>
    obtain ⟨hstep, hongoing⟩ := h.answered env (.setCurrentFunc t) rfl trivial thread rfl
    exact ⟨_, _, hstep, hkeep hongoing rfl⟩
  | getState =>
    obtain ⟨hstep, hongoing⟩ := h.answered env .getState rfl trivial thread rfl
    exact ⟨_, _, hstep, hkeep hongoing rfl⟩
  | getPipelineState =>
    obtain ⟨hstep, hongoing⟩ := h.answered env .getPipelineState rfl trivial thread rfl
    exact ⟨_, _, hstep, hkeep hongoing rfl⟩
  | pipelineStart name numFuncs numLoops => cases hstarts
  | registerDestructor => cases hstarts
  | enter r => cases hmark
  | leave r => cases hmark
  | _ => cases hthread

/-- A thread enters a region while it is alone. -/
theorem Sums.enter (h : Sums lib p a c m spent) (env : Surroundings) {r : Region}
    (hr : r.InRange a.numFuncs a.numLoops) {thread : ThreadIndex} (hregion : m.region = none)
    (halone : m.Alone thread) :
    ∃ c' effects, c.step lib env (.call (.enter r) thread) = some (c', effects) ∧
      Sums lib p a c' (m.set (some r) thread true) spent := by
  obtain ⟨stats, hcurrent, hfuncs, hloops⟩ := h.ongoing.follows.current
  have hr' : r.InRange stats.numFuncs stats.numLoops := by rwa [hfuncs, hloops]
  obtain ⟨hstep, hongoing⟩ := h.answered env (.enter r) rfl hr thread (hcurrent.enter hr')
  refine ⟨_, _, hstep, h.other (m.set (some r) thread true) (Meter.regionOn_of_region hregion) hongoing rfl
    (fun r' hr' => ?_) (Or.inr ⟨c.library thread, Or.inl rfl⟩)
    fun thread' hne => (halone.regionOn_set hne _).trans (halone.regionOn hne).symm⟩
  rw [hregion] at hr'
  cases hr'

/-- A thread leaves the region that it alone counts for. -/
theorem Sums.leave (hlib : lib.Counts) (hthreads : lib.CountsThreads) (h : Sums lib p a c m spent)
    (env : Surroundings) {r : Region} (hr : r.InRange a.numFuncs a.numLoops) {thread : ThreadIndex}
    (hregion : m.regionOn thread = some r) (halone : m.Alone thread) :
    ∃ c' effects, c.step lib env (.call (.leave r) thread) = some (c', effects) ∧
      Sums lib p a c' (m.set none thread false) spent := by
  obtain ⟨stats, hcurrent, hfuncs, hloops⟩ := h.ongoing.follows.current
  rw [← hfuncs, ← hloops] at hr
  obtain ⟨hstep, hongoing⟩ := h.answered env (.leave r) rfl (by rwa [← hfuncs, ← hloops]) thread
    (hcurrent.leave_eq hr thread)
  obtain ⟨hlabels, hbefore⟩ := h.measuresOf_eq hcurrent.record
  have hafter : ({ c.host.state.write p (stats.modifyCounters r (Counters.left thread)) with
      lastCounters := none } : PapiState).measuresOf p = _ :=
    PapiState.measuresOf_modifyCounters c.host.state hr (Counters.left thread) rfl
  rw [hlabels] at hafter
  refine ⟨_, _, hstep, h.handOver hlib hthreads (m.set none thread false) hregion hongoing
    hbefore hafter (fun c thread' => c.used_left thread thread')
    (fun c => Or.inl (Nat.succ_pos _)) (Meter.regionOn_set_self none) fun thread' hne => ?_⟩
  rw [halone.regionOn_set hne, halone.regionOn hne]

/-- A thread that counts, if any does, stops. -/
theorem Sums.decrActiveThreads (hlib : lib.Counts) (hthreads : lib.CountsThreads)
    (h : Sums lib p a c m spent) (env : Surroundings) {thread : ThreadIndex}
    (hthread : m.regionOn thread = m.region) :
    ∃ c' effects, c.step lib env (.call .decrActiveThreads thread) = some (c', effects) ∧
      Sums lib p a c' (m.set m.region thread false) spent := by
  cases hregion : m.region with
  | none =>
    have hdecr := PapiState.decrActiveThreads_none (h.ongoing.follows.left hregion) thread
    obtain ⟨hstep, hongoing⟩ := h.answered env .decrActiveThreads rfl trivial thread hdecr
    rw [← hregion]
    exact ⟨_, _, hstep, h.other (m.set m.region thread false) (hthread.trans hregion) hongoing rfl
      (fun _ hr => hr) (Or.inl (Meter.regionOn_set_self _)) fun thread' hne =>
        Meter.regionOn_set_of_ne hne⟩
  | some r =>
    obtain ⟨stats, hcurrent, hfuncs, hloops⟩ := h.ongoing.follows.current
    obtain ⟨haims, hr⟩ := h.ongoing.follows.entered r hregion
    rw [← hfuncs, ← hloops] at hr
    obtain ⟨hstep, hongoing⟩ := h.answered env .decrActiveThreads rfl trivial thread
      (hcurrent.decrActiveThreads_eq haims hr thread)
    obtain ⟨hlabels, hbefore⟩ := h.measuresOf_eq hcurrent.record
    have hafter : ({ c.host.state.write p (stats.modifyCounters r (·.markUsed thread)) with
        activeThreads := c.host.state.activeThreads - 1 } : PapiState).measuresOf p = _ :=
      PapiState.measuresOf_modifyCounters c.host.state hr (·.markUsed thread) rfl
    rw [hlabels] at hafter
    rw [← hregion]
    exact ⟨_, _, hstep, h.handOver hlib hthreads (m.set m.region thread false) (hthread.trans hregion)
      hongoing hbefore hafter (fun c thread' => c.used_left thread thread')
      (fun c => Or.inr hregion) (Meter.regionOn_set_self _) fun thread' hne =>
        Meter.regionOn_set_of_ne hne⟩

/-- A call, as long as the calls fit together. -/
theorem Sums.call (hlib : lib.Counts) (hthreads : lib.CountsThreads) (h : Sums lib p a c m spent)
    (env : Surroundings) {call : PapiCall} (hstarts : call.starts = false)
    (hrange : call.InRange a.numFuncs a.numLoops) {thread : ThreadIndex}
    (hnext : m.call thread call = some m') :
    ∃ c' effects, c.step lib env (.call call thread) = some (c', effects) ∧ Sums lib p a c' m' spent := by
  cases call with
  | enter r =>
    rw [Meter.call] at hnext
    split at hnext
    · next hfits =>
      cases hnext
      exact h.enter env hrange hfits.1 hfits.2
    · cases hnext
  | leave r =>
    rw [Meter.call] at hnext
    split at hnext
    · next hfits =>
      cases hnext
      exact h.leave hlib hthreads env hrange hfits.1 hfits.2
    · cases hnext
  | incrActiveThreads =>
    rw [Meter.call] at hnext
    split at hnext
    · next hfits =>
      cases hnext
      exact h.incrActiveThreads env hfits
    · cases hnext
  | decrActiveThreads =>
    rw [Meter.call] at hnext
    split at hnext
    · next hfits =>
      cases hnext
      exact h.decrActiveThreads hlib hthreads env hfits
    · cases hnext
  | enterParallelRegion =>
    rw [Meter.call] at hnext
    split at hnext
    · next hfits =>
      cases hnext
      exact h.parallelRegion env hfits (Or.inl rfl)
    · cases hnext
  | leaveParallelRegion =>
    rw [Meter.call] at hnext
    split at hnext
    · next hfits =>
      cases hnext
      exact h.parallelRegion env hfits (Or.inr rfl)
    · cases hnext
  | pipelineStart name numFuncs numLoops => cases hstarts
  | registerDestructor => cases hstarts
  | _ =>
    cases hnext
    exact h.quiet env rfl rfl rfl thread

theorem Sums.sample (h : Sums lib p a c m spent) (env : Surroundings) (funcId : Int) (time : UInt64)
    (activeThreads : Int) :
    ∃ c' effects, c.step lib env (.sample funcId time activeThreads) = some (c', effects) ∧
      Sums lib p a c' m spent := by
  obtain ⟨host, hstep, hongoing, hmeasures⟩ := h.ongoing.sampled env funcId time activeThreads
  refine ⟨{ c with host := host }, [], ?_, h.keep m hongoing hmeasures (fun _ hr => hr) fun _ =>
    Or.inl ⟨rfl, rfl⟩⟩
  rw [step, hstep]
  rfl

/-- One event, as long as the calls fit together. -/
theorem Sums.step (hlib : lib.Counts) (hthreads : lib.CountsThreads) (h : Sums lib p a c m spent)
    (env : Surroundings) (event : PoolEvent)
    (hcall : ∀ call ∈ event.papiCall, call.starts = false ∧ call.InRange a.numFuncs a.numLoops)
    (hnext : event.measure m = some m') :
    ∃ c' effects, c.step lib env event = some (c', effects) ∧
      Sums lib p a c' m' (spent ++ (event.spent m).toList) := by
  cases event with
  | call call thread =>
    obtain ⟨hstarts, hrange⟩ := hcall call rfl
    obtain ⟨c', effects, hstep, hsums⟩ := h.call hlib hthreads env hstarts hrange hnext
    exact ⟨c', effects, hstep, by rwa [PoolEvent.spent, Option.toList_none, List.append_nil]⟩
  | work thread cost =>
    cases hnext
    exact ⟨_, _, rfl, h.work thread cost⟩
  | sample funcId time activeThreads =>
    cases hnext
    obtain ⟨c', effects, hstep, hsums⟩ := h.sample env funcId time activeThreads
    exact ⟨c', effects, hstep, by rwa [PoolEvent.spent, Option.toList_none, List.append_nil]⟩

/-- A run of the pipeline. -/
theorem Sums.run (hlib : lib.Counts) (hthreads : lib.CountsThreads) (h : Sums lib p a c m spent)
    (env : Surroundings) {events : List PoolEvent}
    (hcalls : ∀ event ∈ events, ∀ call ∈ event.papiCall,
      call.starts = false ∧ call.InRange a.numFuncs a.numLoops)
    (hauto : runAuto PoolEvent.measure m events = some m') :
    ∃ c' effects, Machine.run (Pool.step lib env) c events = some (c', effects) ∧
      Sums lib p a c' m' (spent ++ spentBy m events) := by
  induction events generalizing c m spent with
  | nil =>
    cases hauto
    exact ⟨c, [], rfl, by rwa [spentBy, written, List.append_nil]⟩
  | cons event events ih =>
    obtain ⟨m₁, hnext, hrest⟩ := Option.bind_eq_some_iff.mp hauto
    rw [List.forall_mem_cons] at hcalls
    obtain ⟨c₁, effects₁, hstep, hsums₁⟩ := h.step hlib hthreads env event hcalls.1 hnext
    obtain ⟨c', effects, hrun, hsums⟩ := ih hsums₁ hcalls.2 hrest
    refine ⟨c', effects₁ ++ effects, by rw [run_cons hstep, hrun]; rfl, ?_⟩
    rw [spentBy, written, hnext, Option.elim_some, ← List.append_assoc]
    exact hsums

/-! ### From the start to the end -/

/-- Before the start there is nothing to count for. -/
theorem quiet_step (lib : CounterLibrary σ) (env : Surroundings) (hquiet : c.host.state.Quiet)
    {event : PoolEvent} (hcall : ∀ call ∈ event.papiCall, call = .registerDestructor) :
    ∃ library, c.step lib env event = some ({ c with library := library }, []) ∧
      event.measure m = some m := by
  cases event with
  | call call thread =>
    rw [hcall call rfl]
    exact ⟨_, rfl, rfl⟩
  | work thread cost => exact ⟨_, rfl, rfl⟩
  | sample funcId time activeThreads =>
    refine ⟨c.library, ?_, rfl⟩
    rw [step, HostRun.quiet_sample hquiet funcId time activeThreads]
    rfl

theorem quiet_run (lib : CounterLibrary σ) (env : Surroundings) (hquiet : c.host.state.Quiet)
    {events : List PoolEvent}
    (hcalls : ∀ event ∈ events, ∀ call ∈ event.papiCall, call = .registerDestructor) :
    ∃ library, Machine.run (Pool.step lib env) c events = some ({ c with library := library }, []) ∧
      runAuto PoolEvent.measure .idle events = some .idle ∧
      ∀ spent ∈ spentBy .idle events, spent.region = none := by
  induction events generalizing c with
  | nil => exact ⟨c.library, rfl, rfl, by simp [spentBy, written]⟩
  | cons event events ih =>
    rw [List.forall_mem_cons] at hcalls
    obtain ⟨library₁, hstep, hnext⟩ := quiet_step (m := .idle) lib env hquiet hcalls.1
    obtain ⟨library, hrun, hauto, hspent⟩ := ih (c := { c with library := library₁ }) hquiet hcalls.2
    refine ⟨library, by rw [run_cons hstep, hrun]; rfl, by rw [runAuto, hnext]; exact hauto, ?_⟩
    rw [spentBy, written, hnext, Option.elim_some]
    intro spent hmem
    rcases List.mem_append.mp hmem with hmem | hmem
    · cases event with
      | work thread cost =>
        rw [PoolEvent.spent, Option.toList_some, List.mem_singleton] at hmem
        rw [hmem]
        exact Meter.regionOn_idle thread
      | _ => cases hmem
    · exact hspent spent hmem

/-- A start with memory for its record gives every region new counters. -/
theorem quiet_start (lib : CounterLibrary σ) (hquiet : c.host.state.Quiet) (name : String)
    (numFuncs : Int) {numLoops : Int} (hrecord : env.mallocs.record = some p)
    (harrays : env.mallocs.arrays numLoops = true) (hspent : ∀ s ∈ spent, s.region = none)
    (thread : ThreadIndex) :
    ∃ c' effects, c.step lib env (.call (.pipelineStart name numFuncs numLoops) thread) =
        some (c', effects) ∧
      Sums lib p (env.startArgs name numFuncs numLoops) c' .idle spent := by
  obtain ⟨host, counters, hstep, hongoing, hmeasures, hzero⟩ :=
    HostRun.quiet_starts hquiet name numFuncs hrecord harrays thread
  obtain ⟨stats, hcurrent, _, _⟩ := hongoing.follows.current
  have hseen : (c.view thread).host.step env (.call (.pipelineStart name numFuncs numLoops) thread) =
      some (host, [.papiHalideInitialize]) := hstep
  have hnew : ∀ r thread' n, (if host.state.currentPipelineStats = some p then (0 : Int)
      else c.events p r thread' n) = 0 := fun r thread' n => if_pos hcurrent.current
  have hstarted : c.step lib env (.call (.pipelineStart name numFuncs numLoops) thread) =
      some (c.put thread ({ c.view thread with host := host }.absorb lib .papiHalideInitialize),
        [.papiHalideInitialize]) := by
    rw [step, Metered.hostStep_eq hseen]
    rfl
  refine ⟨_, _, hstarted, ⟨hongoing, fun thread' => ⟨[], rfl, fun r n => ?_⟩, 1, counters, hmeasures,
    Nat.one_pos, fun r c' hc' thread' _ n => hnew r thread' n, fun r c' hc' thread' hused => ?_⟩⟩
  · rw [spentOn_of_region hspent]
    exact (add_zero _).trans (hnew r thread' n)
  · rw [hzero r c' hc'] at hused
    simp [Counters.zero] at hused

/-- What the end of the pipeline prints: one report, in which the threads that have measured a region hold
what each of them has spent there. -/
structure Reports (c : Pool σ) (p : Ptr) (a : StartArgs) (spent : List ThreadSpent)
    (stats : PipelineStats) : Prop where
  ends : ∃ answer, c.host.state.pipelineEnd = some answer ∧ answer.state.Quiet ∧
    answer.effects = [.papiHalideShutdown, .report p stats, .free p]
  labels : stats.labels = a.labels
  left : ∀ r c, stats.counters r = some c → ∀ thread, c.used.get thread = true → 0 < c.iterations
  summed : ∀ r, r.InRange a.numFuncs a.numLoops → ∃ counters, stats.counters r = some counters ∧
    ∀ thread n, (if counters.used.get thread then c.events p r thread n else 0) = spentOn thread r spent n

theorem Sums.reports (h : Sums lib p a c m spent) (hregion : m.region = none) (env : Surroundings) :
    ∃ stats, Reports c p a spent stats := by
  have hongoing := h.ongoing
  rw [hregion] at hongoing
  obtain ⟨stats, hcurrent, hfuncs, hloops⟩ := hongoing.follows.current
  obtain ⟨hlabels, hmeasures⟩ := h.measuresOf_eq hcurrent.record
  obtain ⟨_, _, hmeasures', hnoted⟩ := h.noted
  rw [hmeasures] at hmeasures'
  cases hmeasures'
  refine ⟨stats, hongoing.ends env hcurrent.record hnoted.runs.ne', hlabels, ?_, fun r hr => ?_⟩
  · intro r c' hc' thread hused
    refine (hnoted.left r c' hc' thread hused).resolve_right ?_
    rw [hregion]
    exact (Option.some_ne_none r).symm
  · rw [← hfuncs, ← hloops] at hr
    obtain ⟨counters, hcounters⟩ :=
      Option.isSome_iff_exists.mp (hcurrent.sized.counters_isSome_iff.mpr hr)
    refine ⟨counters, hcounters, fun thread n => ?_⟩
    obtain ⟨costs, _, hsum⟩ := h.summed thread
    rw [← hsum, Meter.regionOn_of_region hregion, if_neg (Option.some_ne_none r).symm, add_zero]
    split
    · rfl
    · next hunused => exact (hnoted.unused r counters hcounters thread (by simpa using hunused) n).symm

/-- A pipeline alone, from its start to its end, on any number of threads whose calls fit together: the
report says of every region and every thread what that thread has spent there. -/
theorem run_metered (hlib : lib.Counts) (hthreads : lib.CountsThreads) (hquiet : c.host.state.Quiet)
    (hrecord : env.mallocs.record = some p) {numFuncs numLoops : Int}
    (harrays : env.mallocs.arrays numLoops = true) {events : List PoolEvent} {name : String}
    {rest : List PapiCall}
    (hcalls : events.filterMap PoolEvent.papiCall =
      .registerDestructor :: .pipelineStart name numFuncs numLoops :: rest)
    (hrest : ∀ call ∈ rest, call.starts = false ∧ call.InRange numFuncs numLoops)
    (hauto : runAuto PoolEvent.measure .idle events = some m) (hregion : m.region = none) :
    ∃ c' effects stats, Machine.run (Pool.step lib env) c events = some (c', effects) ∧
      Reports c' p (env.startArgs name numFuncs numLoops) (spentBy .idle events) stats := by
  obtain ⟨before, start, after, rfl, hbefore, hstart, hafter⟩ := exists_start hcalls
  obtain ⟨library, hrun₁, hauto₁, hspent₁⟩ := quiet_run lib env hquiet fun event hevent call hcall =>
    hbefore call (List.mem_filterMap.mpr ⟨event, hevent, hcall⟩)
  cases start with
  | call call thread =>
    cases hstart
    let c₁ : Pool σ := { c with library := library }
    have hquiet₁ : c₁.host.state.Quiet := hquiet
    obtain ⟨c₂, effects₂, hstep, hsums⟩ :=
      quiet_start lib hquiet₁ name numFuncs hrecord harrays hspent₁ thread
    have hmeasured : (PoolEvent.call (.pipelineStart name numFuncs numLoops) thread).measure .idle =
        some .idle := rfl
    rw [runAuto_append, hauto₁, Option.bind_some, runAuto, hmeasured] at hauto
    obtain ⟨c', effects, hrun, hsums'⟩ := hsums.run hlib hthreads env (fun event hevent call hcall =>
      hrest call (by rw [← hafter]; exact List.mem_filterMap.mpr ⟨event, hevent, hcall⟩)) hauto
    obtain ⟨stats, hreports⟩ := hsums'.reports hregion env
    refine ⟨c', effects₂ ++ effects, stats, ?_, ?_⟩
    · rw [run_append, hrun₁, Option.bind_some, run_cons hstep, hrun]
      rfl
    · rw [spentBy, written_append hauto₁, written, hmeasured, Option.elim_some]
      exact hreports
  | _ => cases hstart

end Pool

/-! ### Counting by addition -/

/-- A library that adds up what is done, and begins anew with a thread. -/
def threadLibrary : CounterLibrary (Nat → Int) :=
  { addingLibrary with other := fun effect total => if effect = .startThread then fun _ => 0 else total }

theorem threadLibrary_counts : threadLibrary.Counts ∧ threadLibrary.CountsThreads :=
  ⟨fun _ costs n => (workAll_addingLibrary costs _ n).trans (zero_add _),
    fun _ costs n => (workAll_addingLibrary costs _ n).trans (zero_add _)⟩

end ProfHalide
