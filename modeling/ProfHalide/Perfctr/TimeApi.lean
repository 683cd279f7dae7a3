import ProfHalide.Perfctr.Threads
import Mathlib.Data.Rat.Defs
import Mathlib.Algebra.Order.Ring.Unbundled.Rat
import Mathlib.Data.Fintype.Basic

/-!
# The time library

`time_api.c` adds up the processor time between the calls that start and stop a marker, by marker and
thread, and prints the sums when it shuts down.
-/

namespace ProfHalide

abbrev NUM_MARKER_TYPES : Nat := 4

namespace TimeApi

abbrev MAX_MARKERS_PER_TYPE : Nat := 4
abbrev MAX_MARKER_NAME_LEN : Nat := 128

def CLOCKS_PER_SEC : ℚ := 1000000

/-- The type and the id of a marker, which index the tables. -/
structure Marker where
  type : Fin NUM_MARKER_TYPES
  id : Fin MAX_MARKERS_PER_TYPE
  deriving DecidableEq, Repr

/-- The bytes of `marker_names`. -/
abbrev NAMES_SIZE : Nat := NUM_MARKER_TYPES * MAX_MARKERS_PER_TYPE * MAX_MARKER_NAME_LEN

/-- Where the name of a marker begins. -/
def Marker.offset (m : Marker) : Nat :=
  (m.type.val * MAX_MARKERS_PER_TYPE + m.id.val) * MAX_MARKER_NAME_LEN

/-- A string as far as its terminator; a byte is a `Char`. -/
def cString (bytes : List Char) : List Char := bytes.takeWhile (· != '\x00')

structure State where
  table : ThreadTable Unit
  startTimes : Fin MAX_THREADS → Int
  timersAccum : Marker → Fin MAX_THREADS → ℚ
  timersAccumFlag : Marker → Fin MAX_THREADS → Bool
  markerNames : Fin NAMES_SIZE → Char

/-- The globals of a process that starts. -/
def State.initial : State where
  table := .initial ()
  startTimes _ := 0
  timersAccum _ _ := 0
  timersAccumFlag _ _ := false
  markerNames _ := '\x00'

/-- A line that `perfctr_halide_shutdown` prints. -/
inductive Line where
  | thread (name : List Char) (th : Nat) (time : ℚ)
  | max (name : List Char) (tmax : ℚ)
  | total (totalTime : ℚ)
  deriving DecidableEq, Repr

/-- The line as text; `percentF` is what `%f` makes of a number. -/
def Line.text (percentF : ℚ → List Char) : Line → List Char
  | .thread name th time => name ++ [',', 't'] ++ (toString th).toList ++ [','] ++ percentF time ++ ['\n']
  | .max name tmax => name ++ [',', 'm', 'a', 'x', ','] ++ percentF tmax ++ ['\n']
  | .total totalTime => ['t', 'o', 't', 'a', 'l', ','] ++ percentF totalTime ++ ['\n']

namespace State

variable (s : State)

def findOrInsertThread (self : Pthread) : Option (Found × State) :=
  (s.table.findOrInsertThread id self).map fun (found, table) => (found, { s with table := table })

/-- `perfctr_halide_initialize`; `mutexInit` is what `pthread_mutex_init` returns. -/
def init (mutexInit : Int) : Int × State :=
  if mutexInit ≠ 0 then (-1, s)
  else (0, { s with
    table := { s.table with locked := false }
    timersAccum := fun _ _ => 0
    timersAccumFlag := fun _ _ => false })

/-- `strncpy(marker_names[type][id], marker, strlen(marker))`, which copies no terminator. -/
def copyName (markerNames : Fin NAMES_SIZE → Char) (m : Marker) (name : List Char)
    (p : Fin NAMES_SIZE) : Char :=
  if m.offset ≤ p.val then (name[p.val - m.offset]?).getD (markerNames p) else markerNames p

/-- A name that runs over the end of the table has no result. -/
def markerRegister (marker : List Char) (m : Marker) : Option (Returned × State) :=
  let name := cString marker
  if m.offset + name.length ≤ NAMES_SIZE then
    some (⟨0, []⟩, { s with markerNames := copyName s.markerNames m name })
  else none

def setStart (i : Fin MAX_THREADS) (now : Int) : State :=
  { s with startTimes := Function.update s.startTimes i now }

/-- The time since the start of the thread is added for the marker. -/
def addTime (m : Marker) (i : Fin MAX_THREADS) (now : Int) : State :=
  let time := s.timersAccum m i + (now - s.startTimes i : Int) / CLOCKS_PER_SEC
  { s with
    timersAccum := Function.update s.timersAccum m (Function.update (s.timersAccum m) i time)
    timersAccumFlag :=
      Function.update s.timersAccumFlag m (Function.update (s.timersAccumFlag m) i true) }

theorem addTime_self (m : Marker) (i : Fin MAX_THREADS) (now : Int) :
    (s.addTime m i now).timersAccum m i
        = s.timersAccum m i + (now - s.startTimes i : Int) / CLOCKS_PER_SEC ∧
      (s.addTime m i now).timersAccumFlag m i = true := by
  simp [addTime]

theorem addTime_of_ne {m m' : Marker} {i j : Fin MAX_THREADS} (h : m' = m → j ≠ i) (now : Int) :
    (s.addTime m i now).timersAccum m' j = s.timersAccum m' j ∧
      (s.addTime m i now).timersAccumFlag m' j = s.timersAccumFlag m' j := by
  by_cases hm : m' = m
  · subst hm
    simp [addTime, Function.update_of_ne (h rfl)]
  · simp [addTime, Function.update_of_ne hm]

/-- `perfctr_halide_marker_start` with the place it has found; `now` is what `clock()` returns. -/
def startFound (found : Found) (now : Int) : Returned × State :=
  match found.idx with
  | none => (⟨0, [-1]⟩, s)
  | some i => (⟨0, [i.val]⟩, s.setStart i now)

def markerStart (self : Pthread) (now : Int) : Option (Returned × State) :=
  (s.findOrInsertThread self).map fun (found, s) => s.startFound found now

/-- `perfctr_halide_marker_stop` with the place it has found. -/
def stopFound (found : Found) (m : Marker) (now : Int) : Returned × State :=
  match found.idx with
  | none => (⟨0, [-1, -1, -1]⟩, s)
  | some i => (⟨0, [i.val, i.val, i.val]⟩, s.addTime m i now)

def markerStop (self : Pthread) (m : Marker) (now : Int) : Option (Returned × State) :=
  (s.findOrInsertThread self).map fun (found, s) => s.stopFound found m now

/-! ### Shutting down -/

/-- The name of a marker as `%s` prints it. -/
def markerName (m : Marker) : List Char :=
  cString (((List.finRange NAMES_SIZE).drop m.offset).map s.markerNames)

/-- The variables of the loop over the threads, and what it has printed. -/
structure Slowest where
  tmax : ℚ := 0
  any : Bool := false
  lines : List Line := []

def slowestOf (m : Marker) (acc : Slowest) (th : Fin MAX_THREADS) : Slowest :=
  if s.timersAccumFlag m th then
    let time := s.timersAccum m th
    { tmax := if acc.tmax < time then time else acc.tmax
      any := true
      lines := acc.lines ++ [.thread (s.markerName m) th time] }
  else acc

/-- The total, and what the loops over the markers have printed. -/
structure Totals where
  totalTime : ℚ := 0
  lines : List Line := []

def addSlowest (acc : Totals) (m : Marker) : Totals :=
  let slowest := (List.finRange MAX_THREADS).foldl (s.slowestOf m) {}
  if slowest.any then
    { totalTime := acc.totalTime + slowest.tmax
      lines := acc.lines ++ slowest.lines ++ [.max (s.markerName m) slowest.tmax] }
  else { acc with lines := acc.lines ++ slowest.lines }

/-- The markers in the order of the loops. -/
def allMarkers : List Marker :=
  (List.finRange NUM_MARKER_TYPES).flatMap fun t => (List.finRange MAX_MARKERS_PER_TYPE).map (⟨t, ·⟩)

/-- What `perfctr_halide_shutdown` prints. -/
def shutdown : List Line :=
  let totals := allMarkers.foldl s.addSlowest {}
  totals.lines ++ [.total totals.totalTime]

end State

/-! ### Calls -/

inductive Call where
  | register (marker : List Char) (m : Marker)
  | start (m : Marker) (now : Int)
  | stop (m : Marker) (now : Int)
  deriving DecidableEq, Repr

def answer (s : State) (self : Pthread) : Call → Option (Returned × State)
  | .register marker m => s.markerRegister marker m
  | .start _ now => s.markerStart self now
  | .stop m now => s.markerStop self m now

/-- A call of a thread. -/
def step (s : State) (e : Pthread × Call) : Option (State × List Returned) :=
  (answer s e.1 e.2).map fun (returned, s) => (s, [returned])

section

variable {s : State} {self : Pthread} {found : Found} {table : ThreadTable Unit}

theorem step_start (h : s.table.findOrInsertThread id self = some (found, table)) (m : Marker)
    (now : Int) :
    let r := { s with table := table }.startFound found now
    step s (self, .start m now) = some (r.2, [r.1]) := by
  simp only [step, answer, State.markerStart, State.findOrInsertThread, h, Option.map_some]

theorem step_stop (h : s.table.findOrInsertThread id self = some (found, table)) (m : Marker)
    (now : Int) :
    let r := { s with table := table }.stopFound found m now
    step s (self, .stop m now) = some (r.2, [r.1]) := by
  simp only [step, answer, State.markerStop, State.findOrInsertThread, h, Option.map_some]

/-- A call is answered once its thread has a place, or is told that there is none. -/
theorem step_cases {t : State} {call : Call} {out : List Returned}
    (h : step s (self, call) = some (t, out)) :
    (∃ marker m, call = .register marker m ∧
      t = { s with markerNames := State.copyName s.markerNames m (cString marker) } ∧ out = [⟨0, []⟩]) ∨
    ∃ found table, s.table.findOrInsertThread id self = some (found, table) ∧
      ((∃ m now, call = .start m now ∧ (t, out) =
          let r := { s with table := table }.startFound found now
          (r.2, [r.1])) ∨
        ∃ m now, call = .stop m now ∧ (t, out) =
          let r := { s with table := table }.stopFound found m now
          (r.2, [r.1])) := by
  cases call with
  | register marker m =>
    simp only [step, answer, State.markerRegister] at h
    split at h
    · cases h
      exact Or.inl ⟨marker, m, rfl, rfl, rfl⟩
    · cases h
  | start m now =>
    cases hfound : s.table.findOrInsertThread id self with
    | none => simp [step, answer, State.markerStart, State.findOrInsertThread, hfound] at h
    | some r =>
      rw [step_start hfound] at h
      exact Or.inr ⟨_, _, rfl, Or.inl ⟨m, now, rfl, (Option.some_inj.mp h).symm⟩⟩
  | stop m now =>
    cases hfound : s.table.findOrInsertThread id self with
    | none => simp [step, answer, State.markerStop, State.findOrInsertThread, hfound] at h
    | some r =>
      rw [step_stop hfound] at h
      exact Or.inr ⟨_, _, rfl, Or.inr ⟨m, now, rfl, (Option.some_inj.mp h).symm⟩⟩

end

end TimeApi

end ProfHalide
