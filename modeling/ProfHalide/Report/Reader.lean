import ProfHalide.Lib.Csv
import ProfHalide.Lib.Tally

/-!
# The results reader

`get_file_results` of the plotting scripts reads the rows of a file into two tallies. It starts with the
times and goes over to the counters, and back, whenever a row has at most one column. `float` stands for
Python's conversion of a string, which fails on what is no number; a failure ends the whole function.
-/

namespace ProfHalide

/-- `time_results`, the dictionaries of the times and those of the counters. -/
structure Reading (ν : Type) where
  timeResults : Bool
  time : Tally String compare ν
  profile : Tally String compare ν

/-- The dictionary that `get_file_results` returns; a file that is not there has no results. -/
structure Results (α β ν : Type) where
  imageSize : α
  schedule : β
  /-- `time_data` and `time_iter` -/
  time : Option (Tally String compare ν)
  /-- `profile_data` and `profile_iter` -/
  profile : Option (Tally String compare ν)

section Reader

variable {α β ν : Type} [Add ν] (float : String → Option ν)

/-- The columns of a row after the first. -/
def addColumns (stage : String) : Nat → List String → Tally String compare ν →
    Option (Tally String compare ν)
  | _, [], tally => some tally
  | column, data :: row, tally => do
      let x ← float data
      addColumns stage (column + 1) row (tally.add stage column x)

def readRow (profileFile : Bool) (reading : Reading ν) : List String → Option (Reading ν)
  | stage :: data :: row =>
      if reading.timeResults then do
        let time ← addColumns float stage 0 (data :: row) (reading.time.enter stage)
        return { reading with time }
      else do
        let profile ← addColumns float stage 0 (data :: row) (reading.profile.enter stage)
        return { reading with profile }
  | _ => some (if profileFile then { reading with timeResults := !reading.timeResults } else reading)

def readRows (profileFile : Bool) (reading : Reading ν) (rows : List (List String)) :
    Option (Reading ν) := rows.foldlM (readRow float profileFile) reading

/-- `get_file_results`; `none` for the file is one that is not found, and for the result an
exception. -/
def getFileResults (file : Option (List Char)) (profileFile : Bool) (imageSize : α) (schedule : β) :
    Option (Results α β ν) :=
  match file with
  | none => some { imageSize, schedule, time := none, profile := none }
  | some text => do
      let rows ← Csv.reader text
      let reading ← readRows float profileFile ⟨true, .empty, .empty⟩ rows
      return { imageSize, schedule, time := reading.time,
               profile := if profileFile then some reading.profile else none }

/-! ### One row -/

variable {float}

/-- A row whose columns are numbers is added to the tally. -/
theorem addColumns_eq {stage : String} {row : List String} {xs : List ν}
    (hrow : row.map float = xs.map some) (column : Nat) (tally : Tally String compare ν) :
    addColumns float stage column row tally = some (tally.addRow stage column xs) := by
  induction row generalizing xs column tally with
  | nil =>
    have hxs : xs = [] := by simpa using hrow.symm
    rw [hxs]
    rfl
  | cons data row ih =>
    cases xs with
    | nil => cases hrow
    | cons x xs =>
      rw [List.map_cons, List.map_cons] at hrow
      injection hrow with hdata hrest
      rw [addColumns, hdata]
      exact ih hrest (column + 1) (tally.add stage column x)

theorem readRow_time {reading : Reading ν} {stage : String} {row : List String} {xs : List ν}
    (htime : reading.timeResults = true) (hne : row ≠ []) (hrow : row.map float = xs.map some) :
    readRow float true reading (stage :: row) =
      some { reading with time := (reading.time.enter stage).addRow stage 0 xs } := by
  cases row with
  | nil => contradiction
  | cons data row => rw [readRow, if_pos htime, addColumns_eq hrow]; rfl

theorem readRow_profile {reading : Reading ν} {stage : String} {row : List String} {xs : List ν}
    (hprofile : reading.timeResults = false) (hne : row ≠ []) (hrow : row.map float = xs.map some) :
    readRow float true reading (stage :: row) =
      some { reading with profile := (reading.profile.enter stage).addRow stage 0 xs } := by
  cases row with
  | nil => contradiction
  | cons data row =>
    rw [readRow, if_neg (by rw [hprofile]; exact Bool.false_ne_true), addColumns_eq hrow]
    rfl

theorem readRow_empty (reading : Reading ν) :
    readRow float true reading [] =
      some { reading with timeResults := !reading.timeResults } := rfl

end Reader

end ProfHalide
