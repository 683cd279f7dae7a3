import ProfHalide.Lib.Machine
import Mathlib.Logic.Function.Basic

/-!
# The perf library

`perf_api.c` opens a counter of instructions when a marker is started, and closes it when the marker is
stopped. Its table of descriptors is initialized with `{ -1 }`, which is -1 for the first marker and 0 for
all others: for these it takes standard input for their counter.
-/

namespace ProfHalide

namespace PerfApi

open Machine

abbrev MAX_PERF_DESCRIPTORS : Nat := 128

/-- An index of the table; with any other the library leaves the array. -/
abbrev Marker := Fin MAX_PERF_DESCRIPTORS

/-- The marker that the initializer of the table is about. -/
def firstMarker : Marker := ⟨0, by decide⟩

/-- The requests of `ioctl` that the library makes. -/
inductive Request where
  | reset
  | enable
  | disable
  deriving DecidableEq, Repr

/-- The calls to the system, on a state `κ` of the kernel. -/
structure Kernel (κ : Type) where
  /-- `perf_event_open`, where it returns this descriptor. -/
  perfEventOpen : κ → Nat → κ
  /-- A call that fails has no result. -/
  ioctl : κ → Int → Request → Option κ
  /-- The count that `read` stores. -/
  read : κ → Int → Int
  close : κ → Int → κ
  /-- The process executes instructions. -/
  execute : κ → Int → κ

structure State (κ : Type) where
  perfFds : Marker → Int
  kernel : κ

/-- `static int perf_fds[MAX_PERF_DESCRIPTORS] = { -1 }`. -/
def State.initial {κ : Type} (kernel : κ) : State κ where
  perfFds marker := if marker = firstMarker then -1 else 0
  kernel := kernel

section

variable {κ : Type} (K : Kernel κ) (s : State κ)

/-- `get_perf_descriptor`, where `opened` is what `perf_event_open` returns if it is called; the process
exits if that fails. -/
def getPerfDescriptor (marker : Marker) (opened : Option Nat) : Option (Int × State κ) :=
  if s.perfFds marker ≠ -1 then some (s.perfFds marker, s)
  else opened.map fun (fd : Nat) => ((fd : Int),
    { perfFds := Function.update s.perfFds marker fd
      kernel := K.perfEventOpen s.kernel fd })

def perfDescriptorStart (marker : Marker) (opened : Option Nat) : Option (State κ) :=
  let found :=
    if s.perfFds marker = -1 then getPerfDescriptor K s marker opened else some (s.perfFds marker, s)
  found.bind fun (fd, s) => do
    let kernel ← K.ioctl s.kernel fd .reset
    let kernel ← K.ioctl kernel fd .enable
    return { s with kernel := kernel }

/-- `perf_descriptor_stop`, with the count that it prints. -/
def perfDescriptorStop (marker : Marker) : Option (State κ × Int) := do
  let fd := s.perfFds marker
  let kernel ← K.ioctl s.kernel fd .disable
  let count := K.read kernel fd
  return ({ perfFds := Function.update s.perfFds marker (-1)
            kernel := K.close kernel fd }, count)

end

inductive Call where
  | start (marker : Marker) (opened : Option Nat)
  | stop (marker : Marker)
  | execute (n : Int)
  deriving Repr

/-- A call, or instructions between calls, with what is printed. -/
def step {κ : Type} (K : Kernel κ) (s : State κ) : Call → Option (State κ × List Int)
  | .start marker opened => (perfDescriptorStart K s marker opened).map (·, [])
  | .stop marker => (perfDescriptorStop K s marker).map fun (s, count) => (s, [count])
  | .execute n => some ({ s with kernel := K.execute s.kernel n }, [])

/-! ### What the kernel does -/

/-- What an open descriptor of the process stands for. -/
inductive File where
  | counter (enabled : Bool) (count : Int)
  | other
  deriving DecidableEq, Repr

def Request.change (enabled : Bool) (count : Int) : Request → File
  | .reset => .counter enabled 0
  | .enable => .counter true count
  | .disable => .counter false count

/-- Counters that are enabled count the instructions. -/
def File.execute (n : Int) : File → File
  | .counter true count => .counter true (count + n)
  | file => file

/-- The documented behaviour of the calls, in terms of the open descriptors. -/
structure Kernel.Documented {κ : Type} (K : Kernel κ) (files : κ → Nat → Option File) : Prop where
  /-- The counter begins disabled. -/
  perfEventOpen : ∀ k fd, files k fd = none →
    files (K.perfEventOpen k fd) = Function.update (files k) fd (some (.counter false 0))
  ioctl : ∀ (k : κ) (fd : Nat) request enabled count, files k fd = some (.counter enabled count) →
    ∃ k', K.ioctl k fd request = some k' ∧
      files k' = Function.update (files k) fd (some (request.change enabled count))
  /-- The requests are for counters only. -/
  refused : ∀ (k : κ) (fd : Int) request, (∀ fd' : Nat, fd = fd' → ∀ enabled count,
    files k fd' ≠ some (.counter enabled count)) → K.ioctl k fd request = none
  read : ∀ (k : κ) (fd : Nat) enabled count, files k fd = some (.counter enabled count) → K.read k fd = count
  close : ∀ (k : κ) (fd : Nat), files (K.close k fd) = Function.update (files k) fd none
  execute : ∀ k n fd, files (K.execute k n) fd = (files k fd).map (File.execute n)

/-- A descriptor that is opened was free. -/
def OpensFree {κ : Type} (files : κ → Nat → Option File) (s : State κ) (call : Call) : Prop :=
  ∀ marker fd, call = .start marker (some fd) → s.perfFds marker = -1 → files s.kernel fd = none

/-! ### A library with one marker -/

/-- What the library is good for: the first marker, with the instructions since its last start if it is
being measured. Any other marker ends the process, and so does a stop without a start. -/
def OneCounter.step (measured : Option Int) : Call → Option (Option Int × List Int)
  | .start marker opened =>
      if marker = firstMarker ∧ (measured.isSome ∨ opened.isSome) then some (some 0, []) else none
  | .stop marker => if marker = firstMarker then measured.map fun n => (none, [n]) else none
  | .execute n => some (measured.map (· + n), [])

/-- The descriptors of the process: what they were in the beginning, and the counter. -/
structure Holds {κ : Type} (files : κ → Nat → Option File) (before : Nat → Option File) (s : State κ)
    (measured : Option Int) : Prop where
  unset : ∀ marker, marker ≠ firstMarker → s.perfFds marker = 0
  counter : match measured with
    | none => s.perfFds firstMarker = -1 ∧ files s.kernel = before
    | some n => ∃ fd : Nat, s.perfFds firstMarker = fd ∧ before fd = none ∧
        files s.kernel = Function.update before fd (some (.counter true n))

/-- Standard input is open, and no counter of the process is. -/
structure Starts (before : Nat → Option File) : Prop where
  stdin : before 0 = some .other
  counters : ∀ fd enabled count, before fd ≠ some (.counter enabled count)

section Refines

variable {κ : Type} {K : Kernel κ} {files : κ → Nat → Option File} {before : Nat → Option File} {s : State κ}
  {measured : Option Int}

/-- Standard input stays what it is. -/
theorem Holds.stdin (hbefore : Starts before) (h : Holds files before s measured) :
    files s.kernel 0 = some .other := by
  have hcounter := h.counter
  cases measured with
  | none => rw [hcounter.2, hbefore.stdin]
  | some n =>
    obtain ⟨fd, _, hfree, heq⟩ := hcounter
    have hne : 0 ≠ fd := by
      rintro rfl
      rw [hbefore.stdin] at hfree
      cases hfree
    rw [heq, Function.update_of_ne hne, hbefore.stdin]

/-- The marker has no counter of its own: the first call for it fails. -/
theorem Holds.exits (hK : K.Documented files) (hbefore : Starts before) (h : Holds files before s measured)
    {marker : Marker} (hmarker : marker ≠ firstMarker) (opened : Option Nat) :
    step K s (.start marker opened) = none ∧ step K s (.stop marker) = none := by
  have hfd := h.unset marker hmarker
  have hioctl : ∀ request, K.ioctl s.kernel 0 request = none := by
    intro request
    refine hK.refused s.kernel 0 request fun fd hzero enabled count hfile => ?_
    obtain rfl : fd = 0 := by omega
    rw [h.stdin hbefore] at hfile
    cases hfile
  constructor
  · rw [step, perfDescriptorStart, hfd, if_neg (by decide)]
    show ((K.ioctl s.kernel 0 .reset).bind _).map _ = none
    rw [hioctl]
    rfl
  · rw [step, perfDescriptorStop, hfd]
    show ((K.ioctl s.kernel 0 .disable).bind _).map _ = none
    rw [hioctl]
    rfl

/-- Whatever a counter has counted, it is enabled at 0 by a start. -/
theorem reset_enable (hK : K.Documented files) {k : κ} {fd : Nat} {enabled : Bool} {count : Int}
    (hfile : files k fd = some (.counter enabled count)) :
    ∃ k', ((K.ioctl k fd .reset).bind fun k => K.ioctl k fd .enable) = some k' ∧
      files k' = Function.update (files k) fd (some (.counter true 0)) := by
  obtain ⟨k₁, hreset, hfiles₁⟩ := hK.ioctl k fd .reset enabled count hfile
  have hfile₁ : files k₁ fd = some (.counter enabled 0) := by
    rw [hfiles₁, Function.update_self]
    rfl
  obtain ⟨k₂, henable, hfiles₂⟩ := hK.ioctl k₁ fd .enable enabled 0 hfile₁
  refine ⟨k₂, by rw [hreset, Option.bind_some, henable], ?_⟩
  rw [hfiles₂, hfiles₁, Function.update_idem]
  rfl

theorem step_start_of_ioctls {marker : Marker} {opened : Option Nat} {fd : Nat} {s₁ : State κ} {k' : κ}
    (hfd : (if s.perfFds marker = -1 then getPerfDescriptor K s marker opened
      else some (s.perfFds marker, s)) = some ((fd : Int), s₁))
    (hioctls : ((K.ioctl s₁.kernel fd .reset).bind fun k => K.ioctl k fd .enable) = some k') :
    step K s (.start marker opened) = some ({ s₁ with kernel := k' }, []) := by
  obtain ⟨k₁, hreset, henable⟩ := Option.bind_eq_some_iff.mp hioctls
  rw [step, perfDescriptorStart, hfd]
  show ((K.ioctl s₁.kernel fd .reset).bind _).map _ = _
  rw [hreset, Option.bind_some]
  show ((K.ioctl k₁ fd .enable).bind _).map _ = _
  rw [henable]
  rfl

/-- The counter is measuring: whoever starts it again, it begins from 0. -/
theorem restart (hK : K.Documented files) {fd : Nat} {n : Int} (hfd : s.perfFds firstMarker = fd)
    (hfile : files s.kernel fd = some (.counter true n)) (opened : Option Nat) :
    ∃ k', step K s (.start firstMarker opened) = some ({ s with kernel := k' }, []) ∧
      files k' = Function.update (files s.kernel) fd (some (.counter true 0)) := by
  obtain ⟨k', hioctls, hfiles⟩ := reset_enable hK hfile
  have hopen : ¬ s.perfFds firstMarker = -1 := by omega
  exact ⟨k', step_start_of_ioctls (by rw [if_neg hopen, hfd]) hioctls, hfiles⟩

/-- A descriptor is opened for the first marker. -/
theorem open_start (hK : K.Documented files) {fd : Nat} (hfd : s.perfFds firstMarker = -1)
    (hfree : files s.kernel fd = none) :
    ∃ k', step K s (.start firstMarker (some fd)) =
        some (⟨Function.update s.perfFds firstMarker fd, k'⟩, []) ∧
      files k' = Function.update (files s.kernel) fd (some (.counter true 0)) := by
  have hopened := hK.perfEventOpen s.kernel fd hfree
  have hfile : files (K.perfEventOpen s.kernel fd) fd = some (.counter false 0) := by
    rw [hopened, Function.update_self]
  obtain ⟨k', hioctls, hfiles⟩ := reset_enable hK hfile
  have hfound : (if s.perfFds firstMarker = -1 then getPerfDescriptor K s firstMarker (some fd)
      else some (s.perfFds firstMarker, s)) = some ((fd : Int),
        ⟨Function.update s.perfFds firstMarker fd, K.perfEventOpen s.kernel fd⟩) := by
    rw [if_pos hfd, getPerfDescriptor, if_neg (by simp [hfd])]
    rfl
  exact ⟨k', step_start_of_ioctls hfound hioctls, by rw [hfiles, hopened, Function.update_idem]⟩

theorem stop_started (hK : K.Documented files) {fd : Nat} {n : Int} (hfd : s.perfFds firstMarker = fd)
    (hfile : files s.kernel fd = some (.counter true n)) :
    ∃ k', step K s (.stop firstMarker) = some (⟨Function.update s.perfFds firstMarker (-1), k'⟩, [n]) ∧
      files k' = Function.update (files s.kernel) fd none := by
  obtain ⟨k₁, hdisable, hfiles₁⟩ := hK.ioctl s.kernel fd .disable true n hfile
  have hread := hK.read k₁ fd false n (by rw [hfiles₁, Function.update_self]; rfl)
  refine ⟨K.close k₁ fd, ?_, by rw [hK.close, hfiles₁, Function.update_idem]⟩
  rw [step, perfDescriptorStop, hfd]
  show ((K.ioctl s.kernel fd .disable).bind _).map _ = _
  rw [hdisable, Option.bind_some, hread]
  rfl

theorem execute_eq (hK : K.Documented files) (hbefore : Starts before) {k : κ} {fd : Nat} {count : Int} (n : Int)
    (h : files k = Function.update before fd (some (.counter true count))) :
    files (K.execute k n) = Function.update before fd (some (.counter true (count + n))) := by
  funext fd'
  rw [hK.execute, h]
  by_cases hfd : fd' = fd
  · rw [hfd, Function.update_self, Function.update_self]
    rfl
  · rw [Function.update_of_ne hfd, Function.update_of_ne hfd]
    cases hfile : before fd' with
    | none => rfl
    | some file =>
      cases file with
      | other => rfl
      | counter enabled count' => exact absurd hfile (hbefore.counters fd' enabled count')

theorem execute_idle (hK : K.Documented files) (hbefore : Starts before) {k : κ} (n : Int)
    (h : files k = before) : files (K.execute k n) = before := by
  funext fd
  rw [hK.execute, h]
  cases hfile : before fd with
  | none => rfl
  | some file =>
    cases file with
    | other => rfl
    | counter enabled count => exact absurd hfile (hbefore.counters fd enabled count)

variable (K files before s measured) in
/-- A call does what it does to one counter, and fails if that does. -/
def Follows (call : Call) : Prop :=
  (∃ s' measured' out, step K s call = some (s', out) ∧
      OneCounter.step measured call = some (measured', out) ∧ Holds files before s' measured') ∨
    (step K s call = none ∧ OneCounter.step measured call = none)

theorem Holds.execute (hK : K.Documented files) (hbefore : Starts before) (h : Holds files before s measured)
    (n : Int) : Follows K files before s measured (.execute n) := by
  left
  have hcounter := h.counter
  cases measured with
  | none => exact ⟨_, _, _, rfl, rfl, h.unset, hcounter.1, execute_idle hK hbefore n hcounter.2⟩
  | some count =>
    obtain ⟨fd, hfd, hclosed, heq⟩ := hcounter
    exact ⟨_, _, _, rfl, rfl, h.unset, fd, hfd, hclosed, execute_eq hK hbefore n heq⟩

/-- The other markers keep their entries of the table. -/
theorem Holds.unset_update (h : Holds files before s measured) (fd : Int) {marker : Marker}
    (hmarker : marker ≠ firstMarker) : Function.update s.perfFds firstMarker fd marker = 0 := by
  rw [Function.update_of_ne hmarker, h.unset marker hmarker]

theorem Holds.start (hK : K.Documented files) (h : Holds files before s measured) {opened : Option Nat}
    (hfree : OpensFree files s (.start firstMarker opened)) :
    Follows K files before s measured (.start firstMarker opened) := by
  have hcounter := h.counter
  cases measured with
  | none =>
    cases opened with
    | none =>
      right
      refine ⟨?_, rfl⟩
      rw [step, perfDescriptorStart, if_pos hcounter.1, getPerfDescriptor, if_neg (by simp [hcounter.1])]
      rfl
    | some fd =>
      left
      have hclosed := hfree firstMarker fd rfl hcounter.1
      obtain ⟨k', hstep, hfiles⟩ := open_start hK hcounter.1 hclosed
      refine ⟨_, some 0, [], hstep, rfl, fun _ hmarker => h.unset_update fd hmarker, fd, ?_, ?_, ?_⟩
      · exact Function.update_self firstMarker _ s.perfFds
      · rw [← hcounter.2]
        exact hclosed
      · rw [hfiles, hcounter.2]
  | some n =>
    left
    obtain ⟨fd, hfd, hclosed, heq⟩ := hcounter
    have hfile : files s.kernel fd = some (.counter true n) := by rw [heq, Function.update_self]
    obtain ⟨k', hstep, hfiles⟩ := restart hK hfd hfile opened
    refine ⟨_, some 0, [], hstep, rfl, h.unset, fd, hfd, hclosed, ?_⟩
    rw [hfiles, heq, Function.update_idem]

theorem Holds.stop (hK : K.Documented files) (h : Holds files before s measured) :
    Follows K files before s measured (.stop firstMarker) := by
  have hcounter := h.counter
  cases measured with
  | none =>
    right
    refine ⟨?_, rfl⟩
    have hioctl : K.ioctl s.kernel (-1) .disable = none :=
      hK.refused s.kernel (-1) .disable fun fd hfd => by omega
    rw [step, perfDescriptorStop, hcounter.1]
    show ((K.ioctl s.kernel (-1) .disable).bind _).map _ = none
    rw [hioctl]
    rfl
  | some n =>
    left
    obtain ⟨fd, hfd, hclosed, heq⟩ := hcounter
    have hfile : files s.kernel fd = some (.counter true n) := by rw [heq, Function.update_self]
    obtain ⟨k', hstep, hfiles⟩ := stop_started hK hfd hfile
    refine ⟨_, none, [n], hstep, rfl, fun _ hmarker => h.unset_update (-1) hmarker,
      Function.update_self firstMarker _ s.perfFds, ?_⟩
    rw [hfiles, heq, Function.update_idem, ← hclosed, Function.update_eq_self]

theorem Holds.step (hK : K.Documented files) (hbefore : Starts before) (h : Holds files before s measured)
    {call : Call} (hfree : OpensFree files s call) : Follows K files before s measured call := by
  cases call with
  | execute n => exact h.execute hK hbefore n
  | start marker opened =>
    by_cases hmarker : marker = firstMarker
    · subst hmarker
      exact h.start hK hfree
    · right
      exact ⟨(h.exits hK hbefore hmarker opened).1, if_neg fun hand => hmarker hand.1⟩
  | stop marker =>
    by_cases hmarker : marker = firstMarker
    · subst hmarker
      exact h.stop hK
    · right
      exact ⟨(h.exits hK hbefore hmarker none).2, if_neg hmarker⟩

/-- Run for run the library is one counter: it prints the same, ends the process in the same runs, and in
the others leaves no descriptor open but that of a counter that is measuring. -/
theorem run_refines (hK : K.Documented files) {kernel : κ} (hstarts : Starts (files kernel)) {calls : List Call}
    (hfree : Admits (PerfApi.step K) (OpensFree files) (.initial kernel) calls) :
    (∃ s measured out, run (PerfApi.step K) (.initial kernel) calls = some (s, out) ∧
        run OneCounter.step none calls = some (measured, out) ∧ Holds files (files kernel) s measured) ∨
      (run (PerfApi.step K) (.initial kernel) calls = none ∧ run OneCounter.step none calls = none) := by
  have hholds : ∀ (s : State κ) (measured : Option Int), Holds files (files kernel) s measured →
      Admits (PerfApi.step K) (OpensFree files) s calls →
      (∃ s' measured' out, run (PerfApi.step K) s calls = some (s', out) ∧
          run OneCounter.step measured calls = some (measured', out) ∧
          Holds files (files kernel) s' measured') ∨
        (run (PerfApi.step K) s calls = none ∧ run OneCounter.step measured calls = none) := by
    clear hfree
    induction calls with
    | nil => exact fun s measured h _ => Or.inl ⟨s, measured, [], rfl, rfl, h⟩
    | cons call calls ih =>
      intro s measured h hadmits
      rcases h.step hK hstarts hadmits.1 with ⟨s₁, measured₁, out₁, hstep, hstep', h₁⟩ | ⟨hstep, hstep'⟩
      · rcases ih s₁ measured₁ h₁ (hadmits.2 s₁ out₁ hstep) with
          ⟨s', measured', out, hrun, hrun', h'⟩ | ⟨hrun, hrun'⟩
        · refine Or.inl ⟨s', measured', out₁ ++ out, ?_, ?_, h'⟩
          · rw [run_cons hstep, hrun]
            rfl
          · rw [run_cons hstep', hrun']
            rfl
        · refine Or.inr ⟨?_, ?_⟩
          · rw [run_cons hstep, hrun]
            rfl
          · rw [run_cons hstep', hrun']
            rfl
      · exact Or.inr ⟨by rw [run, hstep]; rfl, by rw [run, hstep']; rfl⟩
  exact hholds (.initial kernel) none
    ⟨fun marker hmarker => if_neg hmarker, rfl, rfl⟩ hfree

end Refines

/-- A kernel with one process, whose state is the table of its descriptors. -/
def tableKernel : Kernel (Nat → Option File) where
  perfEventOpen files fd := Function.update files fd (some (.counter false 0))
  ioctl files fd request :=
    match if fd < 0 then none else files fd.toNat with
    | some (.counter enabled count) =>
        some (Function.update files fd.toNat (some (request.change enabled count)))
    | _ => none
  read files fd :=
    match files fd.toNat with
    | some (.counter _ count) => count
    | _ => 0
  close files fd := Function.update files fd.toNat none
  execute files n fd := (files fd).map (File.execute n)

theorem tableKernel_documented : tableKernel.Documented id where
  perfEventOpen _ _ _ := rfl
  ioctl files fd request enabled count hfile := by
    refine ⟨Function.update files fd (some (request.change enabled count)), ?_, rfl⟩
    have hfile : files fd = some (.counter enabled count) := hfile
    simp only [tableKernel, if_neg (Int.not_lt.mpr (Int.natCast_nonneg fd)), Int.toNat_natCast, hfile]
  refused files fd request h := by
    have hfile : ∀ enabled count, 0 ≤ fd → files fd.toNat ≠ some (.counter enabled count) :=
      fun enabled count hfd => h fd.toNat (Int.toNat_of_nonneg hfd).symm enabled count
    simp only [tableKernel]
    split
    · next enabled count hread =>
      split at hread
      · cases hread
      · next hfd => exact absurd hread (hfile enabled count (Int.not_lt.mp hfd))
    · rfl
  read files fd enabled count hfile := by
    have hfile : files fd = some (.counter enabled count) := hfile
    simp only [tableKernel, Int.toNat_natCast, hfile]
  close _ _ := rfl
  execute _ _ _ := rfl

/-- The standard streams. -/
def streams (fd : Nat) : Option File := if fd < 3 then some .other else none

/-- What `test.c` does, and a second marker after it. -/
def testCalls : List Call :=
  [.start firstMarker (some 3), .execute 7000, .stop firstMarker, .start ⟨1, by decide⟩ (some 3)]

theorem run_refines_test :
    (∃ s measured out, run (step tableKernel) (.initial streams) testCalls = some (s, out) ∧
        run OneCounter.step none testCalls = some (measured, out) ∧ Holds id streams s measured) ∨
      (run (step tableKernel) (.initial streams) testCalls = none ∧
        run OneCounter.step none testCalls = none) := by
  refine run_refines tableKernel_documented ⟨rfl, fun fd enabled count => ?_⟩
    ⟨fun marker fd h _ => ?_, fun s₁ out₁ h₁ => ?_⟩
  · unfold streams
    dsimp only [id]
    split <;> simp
  · cases h
    rfl
  · cases h₁
    refine ⟨by simp [OpensFree], fun s₂ out₂ h₂ => ?_⟩
    cases h₂
    refine ⟨by simp [OpensFree], fun s₃ out₃ h₃ => ?_⟩
    cases h₃
    refine ⟨fun marker fd h _ => ?_, fun _ _ _ => trivial⟩
    cases h
    rfl

example : run OneCounter.step none [.start firstMarker (some 3), .execute 7000, .stop firstMarker] =
    some (none, [7000]) := by
  decide

end PerfApi

end ProfHalide
