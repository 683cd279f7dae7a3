import Mathlib.Data.List.Basic

/-!
# Comma-separated text

A text file is read line by line, with every line break translated to a newline, and each line is taken
apart by the state machine of a csv reader: fields are separated by commas, may be quoted, and a quoted
field may go on in the next line. Fields without a comma, a quote or a line break, written with commas
between them and a newline after them, are read back as they were; a row that is written as an empty
line is read as a row of no fields.
-/

namespace Csv

/-! ### Lines -/

/-- Line breaks as a text file shows them. -/
def universalNewlines : List Char → List Char
  | [] => []
  | '\r' :: '\n' :: cs => '\n' :: universalNewlines cs
  | '\r' :: cs => '\n' :: universalNewlines cs
  | c :: cs => c :: universalNewlines cs

/-- The lines of a file, each with its newline; the last one may lack it. `current` is the part of a
line that is already read. -/
def splitLines (current : List Char) : List Char → List (List Char)
  | [] => if current = [] then [] else [current]
  | c :: cs =>
      if c = '\n' then (current ++ [c]) :: splitLines [] cs else splitLines (current ++ [c]) cs

/-! ### The reader -/

inductive State where
  | startRecord | startField | inField | inQuotedField | quoteInQuotedField | eatCrnl
  deriving DecidableEq, Repr

structure Reader where
  state : State
  field : List Char
  fields : List String
  deriving DecidableEq, Repr

namespace Reader

def reset : Reader := ⟨.startRecord, [], []⟩

variable (r : Reader)

def addChar (c : Char) (state : State) : Reader := { r with state, field := r.field ++ [c] }

def saveField (state : State) : Reader := ⟨state, [], r.fields ++ [String.ofList r.field]⟩

/-- A character where a field may start; `none` is the end of the line. -/
def processStartField : Option Char → Reader
  | none => r.saveField .startRecord
  | some '\n' | some '\r' => r.saveField .eatCrnl
  | some '"' => { r with state := .inQuotedField }
  | some ',' => r.saveField .startField
  | some c => r.addChar c .inField

def processInField : Option Char → Reader
  | none => r.saveField .startRecord
  | some '\n' | some '\r' => r.saveField .eatCrnl
  | some ',' => r.saveField .startField
  | some c => r.addChar c .inField

def processStartRecord : Option Char → Reader
  | none => r
  | some '\n' | some '\r' => { r with state := .eatCrnl }
  | some c => r.processStartField (some c)

def processInQuotedField : Option Char → Reader
  | none => r
  | some '"' => { r with state := .quoteInQuotedField }
  | some c => r.addChar c .inQuotedField

def processQuoteInQuotedField : Option Char → Reader
  | some '"' => r.addChar '"' .inQuotedField
  | c => r.processInField c

/-- After a line break only the end of the line may follow. -/
def processEatCrnl : Option Char → Option Reader
  | none => some { r with state := .startRecord }
  | some '\n' | some '\r' => some r
  | some _ => none

/-- One character through the machine. -/
def processChar (c : Option Char) : Option Reader :=
  match r.state with
  | .startRecord => some (r.processStartRecord c)
  | .startField => some (r.processStartField c)
  | .inField => some (r.processInField c)
  | .inQuotedField => some (r.processInQuotedField c)
  | .quoteInQuotedField => some (r.processQuoteInQuotedField c)
  | .eatCrnl => r.processEatCrnl c

def readChars (cs : List (Option Char)) : Option Reader := cs.foldlM processChar r

def readLine (line : List Char) : Option Reader := r.readChars (line.map some ++ [none])

/-- The rows of the remaining lines. A row ends with its line unless a quoted field is open. -/
def readRows : Reader → List (List Char) → Option (List (List String))
  | r, [] =>
      if r.field ≠ [] ∨ r.state = .inQuotedField then some [(r.saveField .startRecord).fields]
      else some []
  | r, line :: lines => do
      let r ← r.readLine line
      if r.state = .startRecord then return r.fields :: (← readRows reset lines)
      else readRows r lines

end Reader

/-- The rows of a text file. -/
def reader (text : List Char) : Option (List (List String)) :=
  Reader.reset.readRows (splitLines [] (universalNewlines text))

/-! ### Reading back -/

/-- A character that is nothing but itself in a csv file. -/
def PlainChar (c : Char) : Prop := c ≠ ',' ∧ c ≠ '"' ∧ c ≠ '\n' ∧ c ≠ '\r'

instance (c : Char) : Decidable (PlainChar c) := inferInstanceAs (Decidable (_ ∧ _))

def Plain (field : String) : Prop := ∀ c ∈ field.toList, PlainChar c

instance (field : String) : Decidable (Plain field) :=
  List.decidableBAll PlainChar field.toList

theorem plain_append {f g : String} (hf : Plain f) (hg : Plain g) : Plain (f ++ g) := by
  intro c hc
  rw [String.toList_append, List.mem_append] at hc
  exact hc.elim (hf c) (hg c)

/-- A row with commas between its fields and a newline at its end. -/
def line : List String → List Char
  | [] => ['\n']
  | [f] => f.toList ++ ['\n']
  | f :: g :: fs => f.toList ++ ',' :: line (g :: fs)

namespace Reader

variable {r : Reader}

@[simp] theorem readChars_nil : r.readChars [] = some r := rfl

theorem readChars_cons (c : Option Char) (cs : List (Option Char)) :
    r.readChars (c :: cs) = (r.processChar c).bind fun r => r.readChars cs := List.foldlM_cons

theorem readChars_append (cs cs' : List (Option Char)) :
    r.readChars (cs ++ cs') = (r.readChars cs).bind fun r => r.readChars cs' := List.foldlM_append

theorem processInField_plain {c : Char} (hc : PlainChar c) :
    r.processInField (some c) = r.addChar c .inField := by
  obtain ⟨hcomma, _, hn, hr⟩ := hc
  unfold processInField
  split <;> simp_all

theorem processStartField_plain {c : Char} (hc : PlainChar c) :
    r.processStartField (some c) = r.addChar c .inField := by
  obtain ⟨hcomma, hquote, hn, hr⟩ := hc
  unfold processStartField
  split <;> simp_all

theorem readChars_inField (hstate : r.state = .inField) {cs : List Char}
    (hcs : ∀ c ∈ cs, PlainChar c) :
    r.readChars (cs.map some) = some { r with field := r.field ++ cs } := by
  induction cs generalizing r with
  | nil => simp
  | cons c cs ih =>
    have hc : r.processChar (some c) = some (r.addChar c .inField) := by
      rw [processChar, hstate]
      exact congrArg some (processInField_plain (hcs c List.mem_cons_self))
    rw [List.map_cons, readChars_cons, hc, Option.bind_some,
      ih rfl fun c' hc' => hcs c' (List.mem_cons_of_mem _ hc'), addChar, hstate]
    simp

/-- The characters of a field, up to what ends it. -/
theorem readChars_field (hstate : r.state = .startField) (hfield : r.field = []) {cs : List Char}
    (hcs : ∀ c ∈ cs, PlainChar c) :
    ∃ state, (state = .startField ∨ state = .inField) ∧
      r.readChars (cs.map some) = some ⟨state, cs, r.fields⟩ := by
  cases cs with
  | nil =>
    refine ⟨.startField, Or.inl rfl, ?_⟩
    rw [List.map_nil, readChars_nil, ← hstate, ← hfield]
  | cons c cs =>
    have hc : r.processChar (some c) = some (r.addChar c .inField) := by
      rw [processChar, hstate]
      exact congrArg some (processStartField_plain (hcs c List.mem_cons_self))
    refine ⟨.inField, Or.inr rfl, ?_⟩
    rw [List.map_cons, readChars_cons, hc, Option.bind_some,
      readChars_inField rfl fun c' hc' => hcs c' (List.mem_cons_of_mem _ hc'), addChar, hfield]
    rfl

/-- From the start of a field on, a line is read to its end. -/
theorem readLine_fields (hstate : r.state = .startField) (hfield : r.field = []) {f : String}
    {fs : List String} (hplain : ∀ g ∈ f :: fs, Plain g) :
    r.readLine (line (f :: fs)) = some ⟨.startRecord, [], r.fields ++ f :: fs⟩ := by
  induction fs generalizing r f with
  | nil =>
    obtain ⟨state, hfield', hread⟩ := readChars_field hstate hfield (hplain f List.mem_cons_self)
    rw [readLine, line, List.map_append, List.append_assoc, readChars_append, hread, Option.bind_some]
    rcases hfield' with rfl | rfl <;>
      simp [readChars_cons, processChar, processStartField, processInField, processEatCrnl, saveField]
  | cons g gs ih =>
    obtain ⟨state, hfield', hread⟩ := readChars_field hstate hfield (hplain f List.mem_cons_self)
    have hrest := ih (r := ⟨.startField, [], r.fields ++ [f]⟩) rfl rfl
      fun g' hg' => hplain g' (List.mem_cons_of_mem _ hg')
    rw [readLine] at hrest
    have hcomma : (Reader.mk state f.toList r.fields).processChar (some ',') =
        some ⟨.startField, [], r.fields ++ [f]⟩ := by
      rcases hfield' with rfl | rfl <;>
        simp [processChar, processStartField, processInField, saveField]
    rw [readLine, line, List.map_append, List.append_assoc, readChars_append, hread, Option.bind_some,
      List.map_cons, List.cons_append, readChars_cons, hcomma, Option.bind_some, hrest,
      List.append_assoc]
    rfl

/-- At the start of a record, anything but a line break starts a field. -/
theorem readChars_startRecord (hstate : r.state = .startRecord) {c : Char} (hn : c ≠ '\n')
    (hr : c ≠ '\r') (cs : List (Option Char)) :
    r.readChars (some c :: cs) = { r with state := .startField }.readChars (some c :: cs) := by
  have hrecord : r.processStartRecord (some c) = r.processStartField (some c) := by
    unfold processStartRecord
    split <;> simp_all
  have hfield : { r with state := .startField }.processStartField (some c) =
      r.processStartField (some c) := by
    unfold processStartField
    split <;> rfl
  rw [readChars_cons, readChars_cons, processChar, processChar, hstate]
  dsimp only
  rw [hrecord, hfield]

/-- A row is read back from its line. -/
theorem readLine_line {row : List String} (hplain : ∀ f ∈ row, Plain f) (hrow : row ≠ [""]) :
    reset.readLine (line row) = some ⟨.startRecord, [], row⟩ := by
  cases row with
  | nil => rfl
  | cons f fs =>
    have hfields := readLine_fields (r := ⟨.startField, [], []⟩) rfl rfl hplain
    obtain ⟨c, cs, hline, hn, hr⟩ : ∃ c cs, line (f :: fs) = c :: cs ∧ c ≠ '\n' ∧ c ≠ '\r' := by
      cases hf : f.toList with
      | cons c cs =>
        have hc := hplain f List.mem_cons_self c (by rw [hf]; exact List.mem_cons_self)
        cases fs <;> exact ⟨c, _, by rw [line, hf, List.cons_append], hc.2.2⟩
      | nil =>
        have hempty : f = "" := String.toList_eq_nil_iff.mp hf
        cases fs with
        | nil => exact absurd (by rw [hempty]) hrow
        | cons g gs => exact ⟨',', _, by rw [line, hf, List.nil_append], by decide, by decide⟩
    rw [readLine, hline] at hfields ⊢
    rw [List.map_cons, List.cons_append] at hfields ⊢
    rw [readChars_startRecord rfl hn hr]
    exact hfields

theorem readRows_lines {rows : List (List String)} (hplain : ∀ row ∈ rows, ∀ f ∈ row, Plain f)
    (hrows : [""] ∉ rows) : reset.readRows (rows.map line) = some rows := by
  induction rows with
  | nil => rfl
  | cons row rows ih =>
    have hrow : row ≠ [""] := fun h => hrows (h ▸ List.mem_cons_self)
    have hrest := ih (fun row' h => hplain row' (List.mem_cons_of_mem _ h))
      fun h => hrows (List.mem_cons_of_mem _ h)
    rw [List.map_cons, readRows, readLine_line (hplain row List.mem_cons_self) hrow]
    simp [hrest]

end Reader

/-! ### Lines of plain fields -/

theorem universalNewlines_of_not_mem {text : List Char} (h : '\r' ∉ text) :
    universalNewlines text = text := by
  induction text with
  | nil => rfl
  | cons c cs ih =>
    rw [List.mem_cons, not_or] at h
    rw [universalNewlines, ih h.2]
    · exact fun _ hc _ => h.1 hc.symm
    · exact fun hc => h.1 hc.symm

theorem splitLines_append {current l rest : List Char} (h : '\n' ∉ l) :
    splitLines current (l ++ '\n' :: rest) = (current ++ l ++ ['\n']) :: splitLines [] rest := by
  induction l generalizing current with
  | nil => rw [List.nil_append, splitLines, if_pos rfl, List.append_nil]
  | cons c cs ih =>
    rw [List.mem_cons, not_or] at h
    rw [List.cons_append, splitLines, if_neg (Ne.symm h.1), ih h.2]
    simp

/-- A line ends with its only line break. -/
theorem line_eq {row : List String} (hplain : ∀ f ∈ row, Plain f) :
    ∃ l, line row = l ++ ['\n'] ∧ '\n' ∉ l ∧ '\r' ∉ l := by
  have hfield : ∀ f, Plain f → '\n' ∉ f.toList ∧ '\r' ∉ f.toList := fun f hf =>
    ⟨fun h => (hf _ h).2.2.1 rfl, fun h => (hf _ h).2.2.2 rfl⟩
  induction row with
  | nil => exact ⟨[], rfl, by simp, by simp⟩
  | cons f fs ih =>
    obtain ⟨hn, hr⟩ := hfield f (hplain f List.mem_cons_self)
    cases fs with
    | nil => exact ⟨f.toList, rfl, hn, hr⟩
    | cons g gs =>
      obtain ⟨l, hl, hln, hlr⟩ := ih fun g' hg' => hplain g' (List.mem_cons_of_mem _ hg')
      refine ⟨f.toList ++ ',' :: l, ?_, by simp [hn, hln], by simp [hr, hlr]⟩
      rw [line, hl, List.append_assoc, List.cons_append]

/-- Rows of plain fields are read back as they were written, empty lines included. -/
theorem reader_flatMap_line {rows : List (List String)} (hplain : ∀ row ∈ rows, ∀ f ∈ row, Plain f)
    (hrows : [""] ∉ rows) : reader (rows.flatMap line) = some rows := by
  have hreturn : '\r' ∉ rows.flatMap line := by
    intro h
    obtain ⟨row, hrow, hmem⟩ := List.mem_flatMap.mp h
    obtain ⟨l, hl, _, hr⟩ := line_eq (hplain row hrow)
    simp [hl, hr] at hmem
  have hlines : splitLines [] (rows.flatMap line) = rows.map line := by
    clear hrows hreturn
    induction rows with
    | nil => rfl
    | cons row rows ih =>
      obtain ⟨l, hl, hn, _⟩ := line_eq (hplain row List.mem_cons_self)
      rw [List.flatMap_cons, List.map_cons, hl, List.append_assoc, List.singleton_append,
        splitLines_append hn, ih fun row' h => hplain row' (List.mem_cons_of_mem _ h)]
      rfl
  rw [reader, universalNewlines_of_not_mem hreturn, hlines, Reader.readRows_lines hplain hrows]

end Csv
