import ProfHalide.Report.Writer
import ProfHalide.Report.Reader
import ProfHalide.Lib.Behaviour

/-!
# The reader understands the reports

Writer and reader agree on where the times end and the counters begin through empty lines only. A report
prints them so that the reader is back among the times whenever a pipeline has been printed, so every row
ends up in the tally of its section, over any number of pipelines and reports.
-/

namespace ProfHalide

open Behaviour

variable {φ ν : Type}

/-- What is asked of the numbers: a printed one is a field of its own and `float` reads it back. -/
structure Numbers.ReadBack (numbers : Numbers φ) (float : String → Option ν) (floatValue : φ → ν)
    (intValue : Int → ν) : Prop where
  float_printFloat : ∀ x, float (numbers.printFloat x) = some (floatValue x)
  float_printInt : ∀ n, float (numbers.printInt n) = some (intValue n)
  plain_printFloat : ∀ x, Csv.Plain (numbers.printFloat x)
  plain_printInt : ∀ n, Csv.Plain (numbers.printInt n)

/-! ### Printed rows -/

namespace Print

/-- The rows a call prints, as fields. -/
def rows (numbers : Numbers φ) : Print φ → List (List String)
  | .times stage time threads => [[stage, numbers.printFloat time, numbers.printFloat threads]]
  | .endTimes => [[]]
  | .counters stage events => [stage :: events.map numbers.printInt]
  | .total events => ["total" :: events.map numbers.printInt, []]

/-- The row among the times that a call prints, with its numbers. -/
def timeRow (floatValue : φ → ν) : Print φ → Option (String × List ν)
  | .times stage time threads => some (stage, [floatValue time, floatValue threads])
  | _ => none

/-- The row among the counters, the totals included. -/
def counterRow (intValue : Int → ν) : Print φ → Option (String × List ν)
  | .counters stage events => some (stage, events.map intValue)
  | .total events => some ("total", events.map intValue)
  | _ => none

/-- The section that a call leads to: `true` for the times. -/
def next : Bool → Print φ → Option Bool
  | true, .times _ _ _ => some true
  | true, .endTimes => some false
  | false, .counters _ _ => some false
  | false, .total _ => some true
  | _, _ => none

/-- Fit to be read: the stage is a plain field, and there is a counter. -/
def Readable : Print φ → Prop
  | .times stage _ _ => Csv.Plain stage
  | .endTimes => True
  | .counters stage events => Csv.Plain stage ∧ events ≠ []
  | .total events => events ≠ []

end Print

namespace Numbers

variable {numbers : Numbers φ}

theorem eventLine_eq (stage : String) (events : List Int) :
    numbers.eventLine stage events ++ ['\n'] = Csv.line (stage :: events.map numbers.printInt) := by
  induction events generalizing stage with
  | nil => simp [eventLine, Csv.line]
  | cons n events ih =>
    have hline : numbers.eventLine stage (n :: events) =
        stage.toList ++ ',' :: numbers.eventLine (numbers.printInt n) events := by
      have hne : (numbers.printInt n).toList ++ [','] ++
          events.flatMap (fun m => (numbers.printInt m).toList ++ [',']) ≠ [] := by simp
      rw [eventLine, eventLine, List.flatMap_cons, List.append_assoc,
        List.dropLast_append_of_ne_nil (by simp), List.singleton_append,
        List.dropLast_cons_of_ne_nil hne]
    rw [hline, List.map_cons, Csv.line, ← ih, List.append_assoc, List.cons_append]

/-- What a call prints is the lines of its rows. -/
theorem text_eq (print : Print φ) : numbers.text print = (print.rows numbers).flatMap Csv.line := by
  cases print with
  | times stage time threads => simp [text, Print.rows, Csv.line]
  | endTimes => rfl
  | counters stage events =>
    rw [text, eventLine_eq, Print.rows, List.flatMap_singleton]
  | total events =>
    have hsplit : ['\n', '\n'] = ['\n'] ++ Csv.line [] := rfl
    rw [text, hsplit, ← List.append_assoc, eventLine_eq, Print.rows, List.flatMap_cons,
      List.flatMap_singleton]

variable {float : String → Option ν} {floatValue : φ → ν} {intValue : Int → ν}

theorem ReadBack.map_printInt (h : numbers.ReadBack float floatValue intValue) (events : List Int) :
    (events.map numbers.printInt).map float = (events.map intValue).map some := by
  rw [List.map_map, List.map_map]
  exact List.map_congr_left fun n _ => h.float_printInt n

/-- The rows that are printed survive the csv file. -/
theorem ReadBack.rows_plain (h : numbers.ReadBack float floatValue intValue) {print : Print φ}
    (hprint : print.Readable) :
    (∀ row ∈ print.rows numbers, ∀ f ∈ row, Csv.Plain f) ∧ [""] ∉ print.rows numbers := by
  have hevents : ∀ events : List Int, ∀ f ∈ events.map numbers.printInt, Csv.Plain f := by
    intro events f hf
    obtain ⟨n, _, rfl⟩ := List.mem_map.mp hf
    exact h.plain_printInt n
  cases print with
  | times stage time threads =>
    refine ⟨fun row hrow f hf => ?_, by simp [Print.rows]⟩
    rw [List.mem_singleton.mp hrow] at hf
    simp only [List.mem_cons, List.not_mem_nil, or_false] at hf
    rcases hf with rfl | rfl | rfl
    · exact hprint
    · exact h.plain_printFloat time
    · exact h.plain_printFloat threads
  | endTimes => exact ⟨by simp [Print.rows], by simp [Print.rows]⟩
  | counters stage events =>
    refine ⟨fun row hrow f hf => ?_, ?_⟩
    · rw [List.mem_singleton.mp hrow, List.mem_cons] at hf
      rcases hf with rfl | hf
      · exact hprint.1
      · exact hevents events f hf
    · have hne := hprint.2
      simp [Print.rows, hne]
  | total events =>
    have hne : events ≠ [] := hprint
    have htotal : Csv.Plain "total" := by decide
    refine ⟨fun row hrow f hf => ?_, by simp [Print.rows, hne]⟩
    simp only [Print.rows, List.mem_cons, List.not_mem_nil, or_false] at hrow
    rcases hrow with rfl | rfl
    · rcases List.mem_cons.mp hf with rfl | hf
      · exact htotal
      · exact hevents events f hf
    · cases hf

end Numbers

/-! ### Reading what is printed -/

section Reading

variable [Add ν] {numbers : Numbers φ} {float : String → Option ν} {floatValue : φ → ν}
  {intValue : Int → ν}

/-- A reading that is in a section and has read exactly these rows. -/
structure Reading.After (reading : Reading ν) (inTimes : Bool)
    (times counters : List (String × List ν)) : Prop where
  timeResults : reading.timeResults = inTimes
  time : reading.time.Holds (Tally.entriesOf times)
  profile : reading.profile.Holds (Tally.entriesOf counters)

variable {reading : Reading ν} {times counters : List (String × List ν)}

theorem Reading.After.readTime (h : reading.After true times counters) (stage : String)
    {row : List String} {xs : List ν} (hne : row ≠ []) (hrow : row.map float = xs.map some) :
    ∃ reading', readRow float true reading (stage :: row) = some reading' ∧
      reading'.After true (times ++ [(stage, xs)]) counters :=
  ⟨_, readRow_time h.timeResults hne hrow, h.timeResults, h.time.row stage xs, h.profile⟩

theorem Reading.After.readProfile (h : reading.After false times counters) (stage : String)
    {row : List String} {xs : List ν} (hne : row ≠ []) (hrow : row.map float = xs.map some) :
    ∃ reading', readRow float true reading (stage :: row) = some reading' ∧
      reading'.After false times (counters ++ [(stage, xs)]) :=
  ⟨_, readRow_profile h.timeResults hne hrow, h.timeResults, h.time, h.profile.row stage xs⟩

theorem Reading.After.readEmpty {b : Bool} (h : reading.After b times counters)
    (float : String → Option ν) :
    ∃ reading', readRow float true reading [] = some reading' ∧
      reading'.After (!b) times counters :=
  ⟨_, readRow_empty reading, congrArg (!·) h.timeResults, h.time, h.profile⟩

/-- The rows of one call are read as what they were printed for. -/
theorem readRows_print (h : numbers.ReadBack float floatValue intValue) {print : Print φ}
    (hprint : print.Readable) {b b' : Bool} (hreading : reading.After b times counters)
    (hnext : print.next b = some b') :
    ∃ reading', readRows float true reading (print.rows numbers) = some reading' ∧
      reading'.After b' (times ++ (print.timeRow floatValue).toList)
        (counters ++ (print.counterRow intValue).toList) := by
  have hone : ∀ row reading', readRow float true reading row = some reading' →
      readRows float true reading [row] = some reading' := by
    intro row reading' hread
    rw [readRows, List.foldlM_cons, hread]
    rfl
  cases print with
  | times stage time threads =>
    cases b with
    | false => cases hnext
    | true =>
      cases hnext
      have hrow : [numbers.printFloat time, numbers.printFloat threads].map float =
          [floatValue time, floatValue threads].map some := by
        simp [h.float_printFloat]
      obtain ⟨reading', hread, hafter⟩ :=
        hreading.readTime stage (List.cons_ne_nil _ _) hrow
      refine ⟨reading', hone _ _ hread, ?_⟩
      simpa [Print.timeRow, Print.counterRow] using hafter
  | endTimes =>
    cases b with
    | false => cases hnext
    | true =>
      cases hnext
      obtain ⟨reading', hread, hafter⟩ := hreading.readEmpty float
      refine ⟨reading', hone _ _ hread, ?_⟩
      simpa [Print.timeRow, Print.counterRow] using hafter
  | counters stage events =>
    cases b with
    | true => cases hnext
    | false =>
      cases hnext
      obtain ⟨reading', hread, hafter⟩ := hreading.readProfile stage
        (List.map_eq_nil_iff.not.mpr hprint.2) (h.map_printInt events)
      refine ⟨reading', hone _ _ hread, ?_⟩
      simpa [Print.timeRow, Print.counterRow] using hafter
  | total events =>
    cases b with
    | true => cases hnext
    | false =>
      cases hnext
      obtain ⟨reading', hread, hafter⟩ := hreading.readProfile "total"
        (List.map_eq_nil_iff.not.mpr hprint) (h.map_printInt events)
      obtain ⟨reading'', hread', hafter'⟩ := hafter.readEmpty float
      refine ⟨reading'', ?_, ?_⟩
      · rw [readRows, Print.rows, List.foldlM_cons, hread]
        exact hread'
      · simpa [Print.timeRow, Print.counterRow] using hafter'

/-- Over the calls of whole reports: the tallies are those of the rows that were printed. -/
theorem readRows_prints (h : numbers.ReadBack float floatValue intValue) {prints : List (Print φ)}
    (hprints : ∀ print ∈ prints, print.Readable) {b b' : Bool}
    (hreading : reading.After b times counters) (hnext : runAuto Print.next b prints = some b') :
    ∃ reading', readRows float true reading (prints.flatMap (·.rows numbers)) = some reading' ∧
      reading'.After b' (times ++ prints.filterMap (·.timeRow floatValue))
        (counters ++ prints.filterMap (·.counterRow intValue)) := by
  induction prints generalizing reading times counters b with
  | nil =>
    cases hnext
    refine ⟨reading, rfl, ?_⟩
    simpa using hreading
  | cons print prints ih =>
    obtain ⟨b₁, hfirst, hrest⟩ := Option.bind_eq_some_iff.mp hnext
    obtain ⟨reading₁, hread₁, hafter₁⟩ :=
      readRows_print h (hprints print List.mem_cons_self) hreading hfirst
    obtain ⟨reading', hread, hafter⟩ :=
      ih (fun print' hmem => hprints print' (List.mem_cons_of_mem _ hmem)) hafter₁ hrest
    refine ⟨reading', ?_, ?_⟩
    · rw [List.flatMap_cons, readRows, List.foldlM_append]
      rw [readRows] at hread₁ hread
      rw [hread₁]
      exact hread
    · have hcons : ∀ {γ : Type} (f : Print φ → Option γ),
          (print :: prints).filterMap f = (f print).toList ++ prints.filterMap f := by
        intro γ f
        rw [List.filterMap_cons]
        cases f print <;> rfl
      rw [hcons, hcons, ← List.append_assoc, ← List.append_assoc]
      exact hafter

end Reading

/-! ### What a report prints can be read -/

/-- A part of a report that prints rows of `n` counters under plain names and keeps `n` totals. -/
structure PrintsCounters (n : Nat) (part : List Int → List (Print φ) × List Int) : Prop where
  rows : ∀ tot, tot.length = n → ∀ print ∈ (part tot).1,
    ∃ stage events, print = .counters stage events ∧ Csv.Plain stage ∧ events.length = n
  totals : ∀ tot, tot.length = n → (part tot).2.length = n

section Writer

variable {numbers : Numbers φ} {snapshot : Snapshot}

theorem length_foldl_addEvents {n : Nat} {estims : List (List Int)}
    (hestims : ∀ estim ∈ estims, estim.length = n) {tot : List Int} (htot : tot.length = n) :
    (estims.foldl addEvents tot).length = n := by
  induction estims generalizing tot with
  | nil => exact htot
  | cons estim estims ih =>
    refine ih (fun estim' hmem => hestims estim' (List.mem_cons_of_mem _ hmem)) ?_
    rw [addEvents, List.length_zipWith, htot, hestims estim List.mem_cons_self, Nat.min_self]

theorem reportRegion_printsCounters (hint : ∀ n, Csv.Plain (numbers.printInt n)) {label : String}
    (hlabel : Csv.Plain label) (showThreads : Bool) (summary : Nat → Bool) (c : Counters)
    (counters : ThreadIndex → Nat → Int) :
    PrintsCounters snapshot.numberOfEvents
      (reportRegion numbers snapshot label showThreads summary c counters) := by
  have hestim : ∀ th, (estimEvents numbers snapshot c (counters th)).length =
      snapshot.numberOfEvents := by
    intro th
    rw [estimEvents, List.length_map, List.length_range]
  have hestims : ∀ estim ∈ (usedThreads c).map fun th => estimEvents numbers snapshot c (counters th),
      estim.length = snapshot.numberOfEvents := by
    intro estim hmem
    obtain ⟨th, _, rfl⟩ := List.mem_map.mp hmem
    exact hestim th
  refine ⟨fun tot _ print hprint => ?_, fun tot htot => length_foldl_addEvents hestims htot⟩
  rw [reportRegion] at hprint
  rcases List.mem_append.mp hprint with hthread | hlast
  · split at hthread
    · obtain ⟨th, _, rfl⟩ := List.mem_map.mp hthread
      exact ⟨_, _, rfl, Csv.plain_append (Csv.plain_append hlabel (by decide)) (hint _), hestim th⟩
    · cases hthread
  · split at hlast
    · refine ⟨_, _, List.mem_singleton.mp hlast, ?_, ?_⟩
      · refine Csv.plain_append (Csv.plain_append hlabel (by decide)) ?_
        split <;> decide
      · exact length_foldl_addEvents hestims List.length_replicate
    · cases hlast

theorem reportAll_printsCounters {n : Nat} {parts : List (List Int → List (Print φ) × List Int)}
    (hparts : ∀ part ∈ parts, PrintsCounters n part) : PrintsCounters n (reportAll parts) := by
  induction parts with
  | nil => exact ⟨by simp [reportAll], fun tot htot => htot⟩
  | cons part parts ih =>
    have hpart := hparts part List.mem_cons_self
    have hrest := ih fun part' hmem => hparts part' (List.mem_cons_of_mem _ hmem)
    refine ⟨fun tot htot print hprint => ?_, fun tot htot => ?_⟩
    · rcases List.mem_append.mp hprint with hprint | hprint
      · exact hpart.rows tot htot print hprint
      · exact hrest.rows _ (hpart.totals tot htot) print hprint
    · exact hrest.totals _ (hpart.totals tot htot)

/-- The names of the funcs and loops of a record are plain. -/
structure NamesPlain (snapshot : Snapshot) (stats : PipelineStats) : Prop where
  funcs : ∀ fs ∈ stats.funcs, Csv.Plain (snapshot.string fs.name)
  loops : ∀ ls ∈ stats.loops, Csv.Plain (snapshot.string ls.name)

theorem regionReports_printCounters (hint : ∀ n, Csv.Plain (numbers.printInt n)) (p : Ptr)
    {stats : PipelineStats} (hnames : NamesPlain snapshot stats) :
    ∀ part ∈ regionReports numbers snapshot p stats,
      PrintsCounters snapshot.numberOfEvents part := by
  intro part hpart
  rcases List.mem_append.mp hpart with hpart | hpart
  · obtain ⟨⟨fs, i⟩, hfs, hpart⟩ := List.mem_flatMap.mp hpart
    have hname := hnames.funcs fs (List.fst_mem_of_mem_zipIdx (List.mem_of_mem_drop hfs))
    simp only [List.mem_cons, List.not_mem_nil, or_false] at hpart
    rcases hpart with rfl | rfl | rfl
    · exact reportRegion_printsCounters hint (Csv.plain_append hname (by decide)) _ _ _ _
    · exact reportRegion_printsCounters hint (Csv.plain_append hname (by decide)) _ _ _ _
    · exact reportRegion_printsCounters hint (Csv.plain_append hname (by decide)) _ _ _ _
  · obtain ⟨⟨ls, i⟩, hls, rfl⟩ := List.mem_map.mp hpart
    have hname := hnames.loops ls (List.fst_mem_of_mem_zipIdx hls)
    exact reportRegion_printsCounters hint hname ls.showThreads
      (fun activeThreads => !ls.showThreads || activeThreads > 1) ls.counters
      (snapshot.events p (.loop i))

/-- Calls that stay in their section. -/
theorem runAuto_stay {b : Bool} {prints : List (Print φ)}
    (h : ∀ print ∈ prints, print.next b = some b) : runAuto Print.next b prints = some b := by
  induction prints with
  | nil => rfl
  | cons print prints ih =>
    rw [runAuto, h print List.mem_cons_self, Option.bind_some]
    exact ih fun print' hmem => h print' (List.mem_cons_of_mem _ hmem)

/-- A pipeline's report can be read, and leads from its times to the next pipeline's times. -/
theorem reportPipeline_readable (hint : ∀ n, Csv.Plain (numbers.printInt n))
    (hevents : 0 < snapshot.numberOfEvents) (p : Ptr) {stats : PipelineStats}
    (hnames : NamesPlain snapshot stats) :
    (∀ print ∈ reportPipeline numbers snapshot p stats, print.Readable) ∧
      runAuto Print.next true (reportPipeline numbers snapshot p stats) = some true := by
  have hparts := reportAll_printsCounters (regionReports_printCounters hint p hnames)
  have htot : (List.replicate snapshot.numberOfEvents (0 : Int)).length = snapshot.numberOfEvents :=
    List.length_replicate
  have hne : ∀ events : List Int, events.length = snapshot.numberOfEvents → events ≠ [] := by
    intro events hlength heq
    rw [heq, List.length_nil] at hlength
    omega
  let times : List (Print φ) := (stats.funcs.drop 1).map fun fs =>
    .times (snapshot.string fs.name) (numbers.perRun fs.time stats.runs)
      (numbers.average fs.activeThreadsNumerator fs.activeThreadsDenominator)
  let counters := reportAll (regionReports numbers snapshot p stats)
    (List.replicate snapshot.numberOfEvents 0)
  have hreport : reportPipeline numbers snapshot p stats =
      .times "all" (numbers.seconds stats.time)
          (numbers.average stats.activeThreadsNumerator stats.activeThreadsDenominator) ::
        (times ++ .endTimes :: (counters.1 ++ [.total counters.2])) := rfl
  have htimes : ∀ print ∈ times, print.Readable ∧ print.next true = some true := by
    intro print hprint
    obtain ⟨fs, hfs, rfl⟩ := List.mem_map.mp hprint
    exact ⟨hnames.funcs fs (List.mem_of_mem_drop hfs), rfl⟩
  have hcounters : ∀ print ∈ counters.1, print.Readable ∧ print.next false = some false := by
    intro print hprint
    obtain ⟨stage, events, rfl, hstage, hlength⟩ := hparts.rows _ htot print hprint
    exact ⟨⟨hstage, hne events hlength⟩, rfl⟩
  rw [hreport]
  constructor
  · intro print hprint
    simp only [List.mem_cons, List.mem_append, List.not_mem_nil, or_false] at hprint
    rcases hprint with rfl | hprint | rfl | hprint | rfl
    · exact show Csv.Plain "all" by decide
    · exact (htimes print hprint).1
    · trivial
    · exact (hcounters print hprint).1
    · exact hne counters.2 (hparts.totals _ htot)
  · rw [runAuto, Print.next, Option.bind_some, runAuto_append,
      runAuto_stay fun print hprint => (htimes print hprint).2, Option.bind_some, runAuto, Print.next,
      Option.bind_some, runAuto_append, runAuto_stay fun print hprint => (hcounters print hprint).2]
    rfl

/-- Every pipeline whose statistics a report prints has plain names. -/
def Report.NamesPlain (r : Report) : Prop :=
  ∀ p stats, .report p stats ∈ r.answer.effects → ProfHalide.NamesPlain r.snapshot stats

theorem runAuto_flatMap {α : Type} {f : α → List (Print φ)} {l : List α}
    (h : ∀ a ∈ l, runAuto Print.next true (f a) = some true) :
    runAuto Print.next true (l.flatMap f) = some true := by
  induction l with
  | nil => rfl
  | cons a l ih =>
    rw [List.flatMap_cons, runAuto_append, h a List.mem_cons_self, Option.bind_some]
    exact ih fun a' hmem => h a' (List.mem_cons_of_mem _ hmem)

theorem Report.prints_readable (hint : ∀ n, Csv.Plain (numbers.printInt n)) {r : Report}
    (hevents : 0 < r.snapshot.numberOfEvents) (hnames : r.NamesPlain) :
    (∀ print ∈ r.prints numbers, print.Readable) ∧
      runAuto Print.next true (r.prints numbers) = some true := by
  have heffect : ∀ effect ∈ r.answer.effects,
      (∀ print ∈ effect.prints numbers r.snapshot, print.Readable) ∧
        runAuto Print.next true (effect.prints numbers r.snapshot) = some true := by
    intro effect hmem
    cases effect with
    | report p stats => exact reportPipeline_readable hint hevents p (hnames p stats hmem)
    | _ => exact ⟨by simp [Effect.prints], rfl⟩
  refine ⟨fun print hprint => ?_, runAuto_flatMap fun effect hmem => (heffect effect hmem).2⟩
  obtain ⟨effect, hmem, hprint⟩ := List.mem_flatMap.mp hprint
  exact (heffect effect hmem).1 print hprint

end Writer

/-! ### Reports read back -/

/-- Whatever was printed in readable calls that end among the times is read back row by row. -/
theorem getFileResults_prints [Add ν] {α β : Type} {numbers : Numbers φ}
    {float : String → Option ν} {floatValue : φ → ν} {intValue : Int → ν}
    (h : numbers.ReadBack float floatValue intValue) {prints : List (Print φ)} {b : Bool}
    (hprints : ∀ print ∈ prints, print.Readable) (hnext : runAuto Print.next true prints = some b)
    (imageSize : α) (schedule : β) :
    ∃ time profile, getFileResults float (some (prints.flatMap numbers.text)) true imageSize schedule =
        some { imageSize, schedule, time := some time, profile := some profile } ∧
      time.Summarizes (prints.filterMap (·.timeRow floatValue)) ∧
      profile.Summarizes (prints.filterMap (·.counterRow intValue)) := by
  let rows := prints.flatMap (·.rows numbers)
  have hplain : ∀ row ∈ rows, ∀ f ∈ row, Csv.Plain f := by
    intro row hrow
    obtain ⟨print, hmem, hrow⟩ := List.mem_flatMap.mp hrow
    exact (h.rows_plain (hprints print hmem)).1 row hrow
  have hblank : [""] ∉ rows := by
    intro hrow
    obtain ⟨print, hmem, hrow⟩ := List.mem_flatMap.mp hrow
    exact (h.rows_plain (hprints print hmem)).2 hrow
  have htext : prints.flatMap numbers.text = rows.flatMap Csv.line := by
    rw [List.flatMap_assoc]
    exact List.flatMap_congr fun print _ => numbers.text_eq print
  have hinit : Reading.After ⟨true, .empty, .empty⟩ true ([] : List (String × List ν)) [] :=
    ⟨rfl, Tally.holds_empty, Tally.holds_empty⟩
  obtain ⟨reading, hread, hafter⟩ := readRows_prints h hprints hinit hnext
  refine ⟨reading.time, reading.profile, ?_, hafter.time.summarizes, hafter.profile.summarizes⟩
  rw [getFileResults, htext, Csv.reader_flatMap_line hplain hblank]
  dsimp only [Option.bind_eq_bind, Option.bind_some]
  rw [hread]
  rfl

namespace Report

/-- The rows among the times, and among the counters, that some reports print. -/
def timeRows (numbers : Numbers φ) (floatValue : φ → ν) (reports : List Report) :
    List (String × List ν) :=
  (reports.flatMap (prints numbers)).filterMap (·.timeRow floatValue)

def counterRows (numbers : Numbers φ) (intValue : Int → ν) (reports : List Report) :
    List (String × List ν) :=
  (reports.flatMap (prints numbers)).filterMap (·.counterRow intValue)

/-- The reader finds in the file the sums and counts over exactly the rows of each section. -/
theorem getFileResults_output [Add ν] {α β : Type} {numbers : Numbers φ} {float : String → Option ν}
    {floatValue : φ → ν} {intValue : Int → ν} (h : numbers.ReadBack float floatValue intValue)
    (reports : List Report) (hevents : ∀ r ∈ reports, 0 < r.snapshot.numberOfEvents)
    (hnames : ∀ r ∈ reports, r.NamesPlain) (imageSize : α) (schedule : β) :
    ∃ time profile, getFileResults float (some (output numbers reports)) true imageSize schedule =
        some { imageSize, schedule, time := some time, profile := some profile } ∧
      time.Summarizes (timeRows numbers floatValue reports) ∧
      profile.Summarizes (counterRows numbers intValue reports) := by
  have hreport : ∀ r ∈ reports, (∀ print ∈ r.prints numbers, print.Readable) ∧
      runAuto Print.next true (r.prints numbers) = some true := fun r hr =>
    prints_readable h.plain_printInt (hevents r hr) (hnames r hr)
  refine getFileResults_prints h (fun print hprint => ?_)
    (runAuto_flatMap fun r hr => (hreport r hr).2) imageSize schedule
  obtain ⟨r, hr, hprint⟩ := List.mem_flatMap.mp hprint
  exact (hreport r hr).1 print hprint

end Report

/-! ### Whole numbers -/

/-- Numbers as they are printed when every float is whole. -/
def wholeNumbers : Numbers Int where
  seconds time := time.toNat / 1000000
  perRun time runs := time.toNat / (runs * 1000000)
  average numerator denominator := numerator.toNat / denominator.toNat
  scaled counter _ := counter
  printFloat x := x.repr ++ ".000000"
  printInt n := n.repr

def readWhole (data : String) : Option Int :=
  (String.ofList (data.toList.takeWhile (· ≠ '.'))).toInt?

theorem repr_digits (n : Int) : ∀ c ∈ n.repr.toList, c = '-' ∨ c.isDigit := by
  have hnat : ∀ m : Nat, ∀ c ∈ m.repr.toList, c.isDigit := by
    intro m c hc
    rw [Nat.toList_repr] at hc
    exact Nat.isDigit_of_mem_toDigits (by decide) (by decide) hc
  intro c hc
  cases n with
  | ofNat m => exact Or.inr (hnat m c hc)
  | negSucc m =>
    rw [Int.repr, String.toList_append, List.mem_append] at hc
    exact hc.imp List.mem_singleton.mp (hnat (m + 1) c)

theorem wholeNumbers_readBack : wholeNumbers.ReadBack readWhole id id := by
  have hchar : ∀ (n : Int), ∀ c ∈ n.repr.toList, Csv.PlainChar c ∧ c ≠ '.' := by
    intro n c hc
    rcases repr_digits n c hc with rfl | hdigit
    · decide
    · refine ⟨⟨?_, ?_, ?_, ?_⟩, ?_⟩ <;> rintro rfl <;> exact absurd hdigit (by decide)
  have hplain : ∀ n : Int, Csv.Plain n.repr := fun n c hc => (hchar n c hc).1
  have hread : ∀ (n : Int) (rest : List Char), (∀ c ∈ rest.head?, c = '.') →
      readWhole (String.ofList (n.repr.toList ++ rest)) = some n := by
    intro n rest hrest
    have htake : rest.takeWhile (· ≠ '.') = [] := by
      cases rest with
      | nil => rfl
      | cons c rest => rw [List.takeWhile_cons_of_neg (by simp [hrest c rfl])]
    rw [readWhole, String.toList_ofList, List.takeWhile_append_of_pos
      (fun c hc => by simpa using (hchar n c hc).2), htake, List.append_nil, String.ofList_toList,
      Int.toInt?_repr]
  refine ⟨fun x => ?_, fun n => ?_, fun x => ?_, hplain⟩
  · have hfloat := hread x ".000000".toList (by simp)
    rwa [← String.toList_append, String.ofList_toList] at hfloat
  · have hint := hread n [] (by simp)
    rwa [List.append_nil, String.ofList_toList] at hint
  · exact Csv.plain_append (hplain x) (by decide)

/-- A pipeline of one func, produced by two threads, and one loop that nobody measured. -/
def blurStats : PipelineStats where
  time := 8000000
  activeThreadsNumerator := 6
  activeThreadsDenominator := 3
  name := 1
  funcs := [⟨0, 2, 0, 1, false, false, .zero, .zero, .zero⟩,
    ⟨4000000, 3, 4, 2, true, false, ⟨1, ((Vector.replicate _ false).set 0 true).set 1 true⟩, .zero,
      .zero⟩]
  loops := [⟨4, false, .zero⟩]
  next := none
  numFuncs := 2
  numLoops := 1
  firstFuncId := 0
  runs := 1
  samples := 3

def blurReport : Report where
  snapshot :=
    { numberOfEvents := 2
      string := fun p => if p = 3 then "blur" else if p = 4 then "blur.s0.y" else "overhead"
      events := fun _ _ th e => 10 * th.val + e }
  state := { PapiState.initial with
    pipelines := some 1, records := Std.TreeMap.empty.insert 1 blurStats }
  answer := ⟨0, { PapiState.initial with
    pipelines := some 1, records := Std.TreeMap.empty.insert 1 blurStats }, [.report 1 blurStats]⟩
  returns := rfl

theorem blurReport_namesPlain : blurReport.NamesPlain := by
  intro p stats hmem
  have hstats : p = 1 ∧ stats = blurStats := by simpa [blurReport] using hmem
  rw [hstats.2]
  exact ⟨by decide, by decide⟩

theorem Report.getFileResults_output_twice :
    ∃ time profile, getFileResults readWhole (some (output wholeNumbers [blurReport, blurReport]))
        true () () =
        some { imageSize := (), schedule := (), time := some time, profile := some profile } ∧
      time.sum "all" 0 = some 16 ∧ time.count "blur" 1 = some 2 ∧
      profile.sum "blur_prod_t1" 1 = some 22 ∧ profile.sum "total" 0 = some 20 ∧
      profile.count "blur.s0.y_t0" 0 = some 2 ∧ profile.sum "blur" 0 = none := by
  obtain ⟨time, profile, hresults, htime, hprofile⟩ := getFileResults_output wholeNumbers_readBack
    [blurReport, blurReport] (by decide) (by simp [blurReport_namesPlain]) () ()
  exact ⟨time, profile, hresults, (htime "all" 0).1.trans (by decide),
    (htime "blur" 1).2.trans (by decide), (hprofile "blur_prod_t1" 1).1.trans (by decide),
    (hprofile "total" 0).1.trans (by decide), (hprofile "blur.s0.y_t0" 0).2.trans (by decide),
    (hprofile "blur" 0).1.trans (by decide)⟩

end ProfHalide
