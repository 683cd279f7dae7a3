import ProfHalide.Runtime.Sampler

/-!
# Asking the sampling thread to stop

A shutdown asks the sampling thread to stop by storing a special value where the running func is noted,
and waits for it. The thread reads that variable once at the beginning of a round, unless a remote
processor is asked instead, and once more at the head of the outer loop; any other run may have stored
over it by then. The request is kept exactly if nobody does, and no remote processor is asked.
-/

namespace ProfHalide

open Std Machine

/-- What the sampling thread does next, with its locals. -/
inductive SamplingPc where
  /-- The head of the outer loop. -/
  | outer
  /-- The beginning of a round. -/
  | look (t1 t : UInt64)
  /-- It has read which func runs, and on how many threads. -/
  | observed (func activeThreads : Int) (t1 t : UInt64)
  /-- It sleeps without the lock. -/
  | asleep (t1 t : UInt64)
  | exited
  deriving DecidableEq, Repr

structure Stopping where
  state : PapiState
  pc : SamplingPc
  /-- Some shutdown has stored its request. -/
  requested : Bool

inductive StopEvent where
  | outer (now : UInt64)
  /-- With the answer of a remote processor, if one is asked. -/
  | look (remote : Option (Int × Int))
  | decide (now : UInt64)
  | wake
  /-- `halide_papi_shutdown` stores its request. -/
  | requestStop
  /-- It has waited for the thread. -/
  | join
  /-- `halide_papi_set_current_func` of another run. -/
  | setCurrentFunc (tok t : Int)
  /-- `halide_papi_pipeline_end` of another run begins; its shutdown is a request of its own. -/
  | beginEnd
  deriving Repr

namespace Stopping

variable (c : Stopping)

/-- The end of a round, once the func is known. -/
def decideRound (func activeThreads : Int) (t1 t now : UInt64) : Option Stopping :=
  if func = pleaseStop then some { c with pc := .outer }
  else if 0 ≤ func then
    (c.state.billFunc func (now - t) activeThreads).map fun answer =>
      { c with state := answer.state, pc := .asleep t1 now }
  else some { c with pc := .asleep t1 now }

def next : StopEvent → Option Stopping
  | .outer now =>
      match c.pc with
      | .outer => some { c with
          pc := if c.state.currentFunc = pleaseStop then .exited else .look now now }
      | _ => none
  | .look remote =>
      match c.pc with
      | .look t1 t =>
          let observed := c.state.observe remote
          some { c with pc := .observed observed.1 observed.2 t1 t }
      | _ => none
  | .decide now =>
      match c.pc with
      | .observed func activeThreads t1 t => c.decideRound func activeThreads t1 t now
      | _ => none
  | .wake =>
      match c.pc with
      | .asleep t1 t => some { c with pc := .look t1 t }
      | _ => none
  | .requestStop =>
      if c.state.samplingThread then
        some { c with state := { c.state with currentFunc := pleaseStop }, requested := true }
      else some c
  | .join =>
      match c.pc with
      | .exited => some { c with state := c.state.joinSamplingThread }
      | _ => none
  | .setCurrentFunc tok t => some { c with state := (c.state.setCurrentFunc tok t).state }
  | .beginEnd => some { c with state := { c.state with currentFunc := outsideOfHalide } }

def step (c : Stopping) (e : StopEvent) : Option (Stopping × List Effect) :=
  (c.next e).map (·, [])

/-- Nobody has asked the thread to stop yet. -/
def unasked (s : PapiState) (pc : SamplingPc) : Stopping := ⟨s, pc, false⟩

/-- The request is stored, and the thread has not exited. -/
def InWindow : Prop := c.requested = true ∧ c.pc ≠ .exited

/-- While a request waits, it stays stored, a round that begins sees it, and so leaves the inner loop,
and the outer loop is left too. -/
def KeepsRequest (c : Stopping) (e : StopEvent) (c' : Stopping) (_ : List Effect) : Prop :=
  (c'.InWindow → c'.state.currentFunc = pleaseStop) ∧
    (c.InWindow → match e with
      | .look _ => ∃ activeThreads t1 t, c'.pc = .observed pleaseStop activeThreads t1 t
      | .outer _ => c'.pc = .exited
      | _ => True)

/-- While a request waits, nobody stores anything else, and no remote processor answers that a func
runs. -/
def LeavesAlone (c : Stopping) (e : StopEvent) (_ : Stopping) (_ : List Effect) : Prop :=
  c.InWindow → match e with
    | .setCurrentFunc tok t => tok + t = pleaseStop
    | .beginEnd => False
    | .look remote => ∀ answer, remote = some answer → answer.1 = pleaseStop
    | _ => True

variable {c} {c' : Stopping} {e : StopEvent} {out : List Effect}

theorem step_eq_some (hstep : c.step e = some (c', out)) : c.next e = some c' := by
  obtain ⟨c₁, hnext, heq⟩ := Option.map_eq_some_iff.mp hstep
  cases heq
  exact hnext

/-- Deciding what to do about a round stores nothing. -/
theorem decideRound_eq_some {func activeThreads : Int} {t1 t now : UInt64}
    (h : c.decideRound func activeThreads t1 t now = some c') :
    c'.requested = c.requested ∧ c'.pc ≠ .exited ∧ c'.state.currentFunc = c.state.currentFunc := by
  rw [decideRound] at h
  split at h
  · cases h
    exact ⟨rfl, nofun, rfl⟩
  · split at h
    · obtain ⟨answer, hbill, heq⟩ := Option.map_eq_some_iff.mp h
      cases heq
      refine ⟨rfl, nofun, ?_⟩
      rw [PapiState.globals_billFunc hbill]
    · cases h
      exact ⟨rfl, nofun, rfl⟩

/-- One step: while the request has been kept so far, it is kept exactly if it is left alone. -/
theorem keepsRequest_iff_step (h : c.InWindow → c.state.currentFunc = pleaseStop)
    (hstep : c.step e = some (c', out)) : KeepsRequest c e c' out ↔ LeavesAlone c e c' out := by
  have hnext := step_eq_some hstep
  cases e with
  | outer now =>
    cases hpc : c.pc with
    | outer =>
      simp only [next, hpc] at hnext
      cases hnext
      refine ⟨fun _ _ => trivial, fun _ => ⟨fun hin => h ⟨hin.1, by simp [hpc]⟩, fun hin => ?_⟩⟩
      simp [h hin]
    | _ => simp [next, hpc] at hnext
  | look remote =>
    cases hpc : c.pc with
    | look t1 t =>
      simp only [next, hpc] at hnext
      cases hnext
      constructor
      · intro hkeeps hin answer hanswer
        obtain ⟨activeThreads, t1', t', heq⟩ := hkeeps.2 hin
        rw [hanswer] at heq
        exact (SamplingPc.observed.inj heq).1
      · intro halone
        refine ⟨fun hin => h ⟨hin.1, by simp [hpc]⟩, fun hin => ?_⟩
        cases remote with
        | none => exact ⟨c.state.activeThreads, t1, t, by simp [PapiState.observe, h hin]⟩
        | some answer =>
          have hstop : answer.1 = pleaseStop := halone hin answer rfl
          exact ⟨answer.2, t1, t, by simp [PapiState.observe, hstop]⟩
    | _ => simp [next, hpc] at hnext
  | decide now =>
    cases hpc : c.pc with
    | observed func activeThreads t1 t =>
      simp only [next, hpc] at hnext
      obtain ⟨hrequested, _, hsame⟩ := decideRound_eq_some hnext
      refine ⟨fun _ _ => trivial, fun _ => ⟨fun hin => ?_, fun _ => trivial⟩⟩
      rw [hsame]
      exact h ⟨hrequested ▸ hin.1, by simp [hpc]⟩
    | _ => simp [next, hpc] at hnext
  | wake =>
    cases hpc : c.pc with
    | asleep t1 t =>
      simp only [next, hpc] at hnext
      cases hnext
      refine ⟨fun _ _ => trivial, fun _ => ⟨fun hin => h ⟨hin.1, by simp [hpc]⟩, fun _ => trivial⟩⟩
    | _ => simp [next, hpc] at hnext
  | requestStop =>
    simp only [next] at hnext
    split at hnext <;> cases hnext
    · exact ⟨fun _ _ => trivial, fun _ => ⟨fun _ => rfl, fun _ => trivial⟩⟩
    · exact ⟨fun _ _ => trivial, fun _ => ⟨h, fun _ => trivial⟩⟩
  | join =>
    cases hpc : c.pc with
    | exited =>
      simp only [next, hpc] at hnext
      cases hnext
      refine ⟨fun _ _ => trivial, fun _ => ⟨fun hin => absurd rfl hin.2, fun _ => trivial⟩⟩
    | _ => simp [next, hpc] at hnext
  | setCurrentFunc tok t =>
    simp only [next] at hnext
    cases hnext
    exact ⟨fun hkeeps hin => hkeeps.1 hin, fun halone => ⟨halone, fun _ => trivial⟩⟩
  | beginEnd =>
    simp only [next] at hnext
    cases hnext
    refine ⟨fun hkeeps hin => ?_, fun halone => ⟨fun hin => (halone hin).elim, fun _ => trivial⟩⟩
    have hstop : outsideOfHalide = pleaseStop := hkeeps.1 hin
    exact absurd hstop (by decide)

/-- A request is kept exactly if, until the thread has exited, no other run stores anything else and no
remote processor answers that a func runs. -/
theorem keepsRequest_iff (s : PapiState) (pc : SamplingPc) (events : List StopEvent) :
    Along step KeepsRequest (unasked s pc) events ↔ Along step LeavesAlone (unasked s pc) events := by
  apply along_congr (fun c => c.InWindow → c.state.currentFunc = pleaseStop)
  · exact fun _ _ _ _ hc hstep => keepsRequest_iff_step hc hstep
  · exact fun _ _ _ _ hc hstep halone => ((keepsRequest_iff_step hc hstep).mpr halone).1
  · exact fun hin => absurd hin.1 Bool.false_ne_true

/-! ### How long the thread takes -/

/-- How many steps the thread is away from its end, if the request is kept. -/
def SamplingPc.rank : SamplingPc → Nat
  | .exited => 0
  | .outer => 1
  | .observed func _ _ _ => if func = pleaseStop then 2 else 5
  | .look _ _ => 3
  | .asleep _ _ => 4

def StopEvent.ofThread : StopEvent → Bool
  | .outer _ | .look _ | .decide _ | .wake => true
  | _ => false

/-- While a request is kept, the thread comes closer to its end with every step it takes. -/
theorem rank_step (hin : c.InWindow) (hstep : c.step e = some (c', out)) (hkeeps : KeepsRequest c e c' out) :
    SamplingPc.rank c'.pc + (if StopEvent.ofThread e then 1 else 0) ≤ SamplingPc.rank c.pc := by
  have hnext := step_eq_some hstep
  cases e with
  | outer now =>
    have hexits : c'.pc = .exited := hkeeps.2 hin
    cases hpc : c.pc with
    | outer => simp [hexits, SamplingPc.rank, StopEvent.ofThread]
    | _ => simp [next, hpc] at hnext
  | look remote =>
    obtain ⟨activeThreads, t1, t, hobserved⟩ := hkeeps.2 hin
    cases hpc : c.pc with
    | look t1 t => simp [hobserved, SamplingPc.rank, StopEvent.ofThread]
    | _ => simp [next, hpc] at hnext
  | decide now =>
    cases hpc : c.pc with
    | observed func activeThreads t1 t =>
      simp only [next, hpc, decideRound] at hnext
      split at hnext
      · next hstop =>
        cases hnext
        simp [hstop, SamplingPc.rank, StopEvent.ofThread]
      · next hstop =>
        have hasleep : c'.pc = .asleep t1 now := by
          split at hnext
          · obtain ⟨answer, _, heq⟩ := Option.map_eq_some_iff.mp hnext
            cases heq
            rfl
          · cases hnext
            rfl
        simp [hasleep, hstop, SamplingPc.rank, StopEvent.ofThread]
    | _ => simp [next, hpc] at hnext
  | wake =>
    cases hpc : c.pc with
    | asleep t1 t =>
      simp only [next, hpc] at hnext
      cases hnext
      simp [SamplingPc.rank, StopEvent.ofThread]
    | _ => simp [next, hpc] at hnext
  | requestStop =>
    simp only [next] at hnext
    split at hnext <;> cases hnext <;> simp [StopEvent.ofThread]
  | join =>
    cases hpc : c.pc with
    | exited => exact absurd hpc hin.2
    | _ => simp [next, hpc] at hnext
  | setCurrentFunc tok t =>
    cases hnext
    simp [StopEvent.ofThread]
  | beginEnd =>
    cases hnext
    simp [StopEvent.ofThread]

/-- The window stays open until the thread has exited. -/
theorem requested_step (hstep : c.step e = some (c', out)) (hrequested : c.requested = true) :
    c'.requested = true := by
  have hnext := step_eq_some hstep
  cases e with
  | decide now =>
    cases hpc : c.pc with
    | observed func activeThreads t1 t =>
      simp only [next, hpc] at hnext
      rw [(decideRound_eq_some hnext).1, hrequested]
    | _ => simp [next, hpc] at hnext
  | requestStop =>
    simp only [next] at hnext
    split at hnext <;> cases hnext
    · rfl
    · exact hrequested
  | setCurrentFunc tok t => cases hnext; exact hrequested
  | beginEnd => cases hnext; exact hrequested
  | _ =>
    cases hpc : c.pc <;> simp [next, hpc] at hnext
    rw [← hnext]
    exact hrequested

/-- A thread that has exited takes no step. -/
theorem pc_of_exited (hstep : c.step e = some (c', out)) (hpc : c.pc = .exited) :
    c'.pc = .exited ∧ StopEvent.ofThread e = false := by
  have hnext := step_eq_some hstep
  cases e with
  | requestStop =>
    simp only [next] at hnext
    split at hnext <;> cases hnext <;> exact ⟨hpc, rfl⟩
  | setCurrentFunc tok t => cases hnext; exact ⟨hpc, rfl⟩
  | beginEnd => cases hnext; exact ⟨hpc, rfl⟩
  | join =>
    simp only [next, hpc] at hnext
    cases hnext
    exact ⟨rfl, rfl⟩
  | _ => simp [next, hpc] at hnext

/-- The thread takes no more steps than its rank before it has exited and can be joined. -/
theorem steps_le_rank (hrequested : c.requested = true) {events : List StopEvent}
    (hkeeps : Along step KeepsRequest c events) :
    events.countP StopEvent.ofThread ≤ SamplingPc.rank c.pc := by
  induction events generalizing c with
  | nil => exact Nat.zero_le _
  | cons e events ih =>
    obtain ⟨c', out, hstep, hkept, hrest⟩ := hkeeps
    have hlater := ih (requested_step hstep hrequested) hrest
    rw [List.countP_cons]
    by_cases hpc : c.pc = .exited
    · obtain ⟨hpc', hothers⟩ := pc_of_exited hstep hpc
      rw [hpc'] at hlater
      rw [hpc, hothers]
      exact hlater
    · have hcloser := rank_step ⟨hrequested, hpc⟩ hstep hkept
      omega

/-- A look and the decision about it are a round of the inner loop. -/
theorem round_eq_innerRound (s : PapiState) (t1 t : UInt64) (remote : Option (Int × Int)) (now : UInt64) :
    (((unasked s (.look t1 t)).next (.look remote)).bind (·.next (.decide now))).map (·.state)
      = ((⟨s, .inner t1 t⟩ : Sampler).innerRound t1 t (s.observe remote) now).map (·.state) := by
  simp only [unasked, next, Option.bind_some, decideRound, Sampler.innerRound]
  split
  · rfl
  · split
    · cases s.billFunc (s.observe remote).1 (now - t) (s.observe remote).2 <;> rfl
    · rfl

/-! ### A request that is lost -/

/-- Another run notes its func after the request. -/
theorem not_keepsRequest_overwritten :
    ¬ ∀ s pc events, (run step (unasked s pc) events).isSome →
      Along step KeepsRequest (unasked s pc) events := by
  intro h
  have hkeeps := h { PapiState.initial with samplingThread := true } (.asleep 0 0)
    [.requestStop, .setCurrentFunc 0 0] rfl
  obtain ⟨c₁, _, hstep₁, _, c₂, _, hstep₂, hkept, _⟩ := hkeeps
  cases hstep₁
  cases hstep₂
  have hstop : (0 : Int) = pleaseStop := hkept.1 ⟨rfl, nofun⟩
  exact absurd hstop (by decide)

end Stopping

end ProfHalide
