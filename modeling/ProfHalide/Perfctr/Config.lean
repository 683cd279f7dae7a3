import ProfHalide.Lib.CString

/-!
# The configuration of the events

`get_papi_api_config` takes the events from the lines of a file. It copies what `getline` has in its buffer,
which is more than the line, and keeps the position of the `=` in a `size_t`.
-/

namespace ProfHalide

namespace PapiApi

open CString

abbrev MAX_CONFIG_LINE : Nat := 1024

/-- What -1 is as a `size_t`. -/
abbrev SIZE_MAX : Nat := 2 ^ 64 - 1

abbrev NUL : Char := '\x00'

def EVENTS : List Char := ['e', 'v', 'e', 'n', 't', 's']

/-- `struct papi_api_config`. -/
structure Config where
  events : Buffer Char MAX_CONFIG_LINE

/-- What a call of `getline` gives that returns more than 0: the line, with its newline if it has one, and
what is left over in the buffer behind the NUL after it. -/
structure Line where
  text : List Char
  leftover : List Char
  read : text ≠ []

/-- The `len` characters of the buffer. -/
def Line.buffer (line : Line) : List Char := line.text ++ NUL :: line.leftover

/-- The variables of the loop over a line. -/
structure Copy where
  configLine : Buffer Char MAX_CONFIG_LINE
  j : Nat
  /-- A `size_t`. -/
  eq : Nat

def Copy.next (s : Copy) (c : Char) : Option Copy :=
  if c ≠ ' ' ∧ c ≠ '\n' then
    let eq := if c = '=' ∧ s.eq = SIZE_MAX then s.j else s.eq
    (store s.configLine s.j [c]).map fun configLine => ⟨configLine, s.j + 1, eq⟩
  else some s

/-- The variables of the loop over the lines. -/
structure Reading where
  configLine : Buffer Char MAX_CONFIG_LINE
  config : Config

def Reading.next (s : Reading) (line : Line) : Option Reading := do
  let copy ← line.buffer.foldlM Copy.next ⟨s.configLine, 0, SIZE_MAX⟩
  let configLine ← store copy.configLine copy.j [NUL]
  if strncmp NUL EVENTS.length configLine.toList EVENTS then
    let src := configLine.toList.drop ((copy.eq + 1) % (SIZE_MAX + 1))
    -- `j - eq`, as a `size_t`.
    let k := (copy.j + (SIZE_MAX + 1) - copy.eq) % (SIZE_MAX + 1)
    let events ← strncpy NUL s.config.events src k
    let events ← store events k [NUL]
    return ⟨configLine, ⟨events⟩⟩
  else return ⟨configLine, s.config⟩

/-- `get_papi_api_config` for the file it opens, with what lies on the stack and in the memory from
`malloc`. It has no result if it accesses an array outside. -/
def getPapiApiConfig (file : Option (List Line)) (configLine : Buffer Char MAX_CONFIG_LINE)
    (memory : Option Config) : Option (Option Config) :=
  match file, memory with
  | none, _ => some none
  | some _, none => some none
  | some lines, some config =>
      (lines.foldlM Reading.next ⟨configLine, config⟩).map fun s => some s.config

/-! ### What is to be read -/

def strip (cs : List Char) : List Char := cs.filter fun c => c ≠ ' ' ∧ c ≠ '\n'

/-- What is behind the first `=`. -/
def afterEq (cs : List Char) : List Char := (cs.dropWhile (· ≠ '=')).drop 1

/-- The events that a line of the file gives, if it gives any. -/
def setting (text : List Char) : Option (List Char) :=
  if EVENTS <+: strip text ∧ '=' ∈ text then some (afterEq (strip text)) else none

/-- The events that a file gives. -/
def settings (texts : List (List Char)) : List Char := (texts.filterMap setting).getLastD []

/-- The events are those that the file gives, whatever else there is in memory. -/
def ReadsExactly (lines : List Line) (configLine : Buffer Char MAX_CONFIG_LINE) (memory : Option Config) :
    Prop :=
  ∃ config, getPapiApiConfig (some lines) configLine memory = some (some config) ∧
    cstring NUL config.events.toList = settings (lines.map Line.text)

/-- The buffer of a line fits into the arrays. Without a `=`, one character more is copied from a line that
starts with `events`. -/
def Line.Fits (line : Line) : Prop :=
  (strip line.buffer).length < MAX_CONFIG_LINE ∧
    (EVENTS <+: strip line.text → '=' ∉ line.buffer → (strip line.buffer).length + 1 < MAX_CONFIG_LINE)

/-- What a line that starts with `events` gives if it has no `=`: what is left over behind one in the
buffer, or the line itself. -/
def Line.stale (line : Line) : List Char :=
  if '=' ∈ line.leftover then cstring NUL (afterEq (strip line.leftover)) else cstring NUL (strip line.text)

/-- The last line that starts with `events`. -/
def lastEvents (lines : List Line) : Option Line :=
  (lines.filter fun line => EVENTS <+: strip line.text).getLast?

/-- Every buffer fits, and the last line that starts with `events` has a `=` and no NUL behind it. If it
has no `=`, what it gives instead is what the file gives, and if there is no such line, the memory begins
with a NUL. -/
def Plain (lines : List Line) (memory : Option Config) : Prop :=
  ∃ config, memory = some config ∧ (∀ line ∈ lines, line.Fits) ∧
    match lastEvents lines with
    | none => config.events.toList.head? = some NUL
    | some line =>
      if '=' ∈ line.text then NUL ∉ afterEq (strip line.text)
      else line.stale = settings (lines.map Line.text)

/-! ### A line -/

section

variable {s : Reading} {line : Line} {cs ds : List Char}

@[simp] theorem strip_append : strip (cs ++ ds) = strip cs ++ strip ds := List.filter_append ..

theorem mem_strip {c : Char} (h : c ≠ ' ' ∧ c ≠ '\n') : c ∈ strip cs ↔ c ∈ cs := by
  rw [strip, List.mem_filter]
  simp [h.1, h.2]

/-- What the loop makes of `eq`, from a position. -/
def eqFrom (eq j : Nat) (cs : List Char) : Nat :=
  if eq = SIZE_MAX ∧ '=' ∈ cs then j + cs.idxOf '=' else eq

theorem eqFrom_cons {eq j : Nat} (hj : j < SIZE_MAX) (c : Char) (cs : List Char) :
    eqFrom (if c = '=' ∧ eq = SIZE_MAX then j else eq) (j + 1) cs = eqFrom eq j (c :: cs) := by
  by_cases heq : eq = SIZE_MAX
  · by_cases hc : c = '='
    · simp [eqFrom, heq, hc, Nat.ne_of_lt hj]
    · simp [eqFrom, heq, hc, Ne.symm hc, Nat.add_assoc, Nat.add_comm 1]
  · simp [eqFrom, heq]

theorem foldlM_next (cs : List Char) {s : Copy} (hj : s.j ≤ MAX_CONFIG_LINE) : cs.foldlM Copy.next s =
    (store s.configLine s.j (strip cs)).map fun configLine =>
      ⟨configLine, s.j + (strip cs).length, eqFrom s.eq s.j (strip cs)⟩ := by
  induction cs generalizing s with
  | nil =>
    rw [List.foldlM_nil, strip, List.filter_nil, store_nil hj]
    simp [eqFrom]
  | cons c cs ih =>
    rw [List.foldlM_cons, Copy.next]
    by_cases hc : c ≠ ' ' ∧ c ≠ '\n'
    · have hstrip : strip (c :: cs) = [c] ++ strip cs := List.filter_cons_of_pos (by simpa using hc)
      rw [if_pos hc, hstrip, ← store_append]
      cases hstore : store s.configLine s.j [c] with
      | none => rfl
      | some configLine =>
        have hj := (store_eq_some hstore).1
        rw [List.length_singleton] at hj
        have hsize : MAX_CONFIG_LINE < SIZE_MAX := by decide
        dsimp only [Option.map_some, Option.bind_eq_bind, Option.bind_some]
        rw [ih hj, eqFrom_cons (by omega), List.length_append, List.length_singleton, Nat.add_assoc]
        rfl
    · have hstrip : strip (c :: cs) = strip cs := List.filter_cons_of_neg (by simpa using hc)
      rw [if_neg hc, hstrip]
      exact ih hj

/-- What is copied of a line that starts with `events`. -/
def source (cs : List Char) : List Char := if '=' ∈ cs then afterEq cs else cs

theorem afterEq_of_not_mem (h : '=' ∉ cs) : afterEq (cs ++ ds) = afterEq ds := by
  rw [afterEq, afterEq, List.dropWhile_append_of_pos]
  intro c hc
  simp only [decide_eq_true_eq]
  exact fun heq => h (heq ▸ hc)

theorem afterEq_eq (h : '=' ∉ cs) : afterEq (cs ++ '=' :: ds) = ds := by
  rw [afterEq_of_not_mem h, afterEq]
  simp

theorem afterEq_of_mem (h : '=' ∈ cs) : afterEq (cs ++ ds) = afterEq cs ++ ds := by
  obtain ⟨pre, post, rfl, hpre⟩ := List.eq_append_cons_of_mem h
  rw [List.append_assoc, List.cons_append, afterEq_eq hpre, afterEq_eq hpre]

/-- The position of the `=`, and -1 if there is none, say where to copy from, and how much. -/
theorem eqFrom_spec (hcs : cs.length ≤ MAX_CONFIG_LINE) (ds : List Char) :
    (cs ++ ds).drop ((eqFrom SIZE_MAX 0 cs + 1) % (SIZE_MAX + 1)) = source cs ++ ds ∧
      (cs.length + (SIZE_MAX + 1) - eqFrom SIZE_MAX 0 cs) % (SIZE_MAX + 1)
        = (source cs).length + 1 := by
  have hsize : MAX_CONFIG_LINE < SIZE_MAX := by decide
  by_cases hmem : '=' ∈ cs
  · obtain ⟨pre, post, rfl, hpre⟩ := List.eq_append_cons_of_mem hmem
    have heq : eqFrom SIZE_MAX 0 (pre ++ '=' :: post) = pre.length := by
      simp [eqFrom, List.idxOf_append_of_notMem hpre]
    rw [heq, source, if_pos hmem, afterEq_eq hpre]
    rw [List.length_append, List.length_cons] at hcs ⊢
    constructor
    · rw [Nat.mod_eq_of_lt (by omega), List.append_assoc, List.drop_length_add_append]
      rfl
    · have hk : pre.length + (post.length + 1) + (SIZE_MAX + 1) - pre.length
          = post.length + 1 + (SIZE_MAX + 1) := by omega
      rw [hk, Nat.add_mod_right, Nat.mod_eq_of_lt (by omega)]
  · have heq : eqFrom SIZE_MAX 0 cs = SIZE_MAX := if_neg fun h => hmem h.2
    rw [heq, source, if_neg hmem, Nat.mod_self, List.drop_zero]
    have hk : cs.length + (SIZE_MAX + 1) - SIZE_MAX = cs.length + 1 := by omega
    exact ⟨rfl, by rw [hk, Nat.mod_eq_of_lt (by omega)]⟩

/-- The string that is copied, and the NULs behind it. -/
def padded (cs : List Char) : List Char :=
  cstring NUL cs ++ List.replicate (cs.length + 2 - (cstring NUL cs).length) NUL

theorem length_padded : (padded cs).length = cs.length + 2 := by
  have hle : (cstring NUL cs).length ≤ cs.length := (List.takeWhile_prefix _).length_le
  rw [padded, List.length_append, List.length_replicate]
  omega

theorem cstring_padded {dst dst' : Buffer Char MAX_CONFIG_LINE} (h : store dst 0 (padded cs) = some dst') :
    cstring NUL dst'.toList = cstring NUL cs := by
  have hle : (cstring NUL cs).length ≤ cs.length := (List.takeWhile_prefix _).length_le
  have hmore : cs.length + 2 - (cstring NUL cs).length
      = cs.length + 1 - (cstring NUL cs).length + 1 := by omega
  rw [padded, hmore] at h
  exact cstring_store nul_not_mem_cstring h

theorem nul_mem_padded {dst dst' : Buffer Char MAX_CONFIG_LINE} (h : store dst 0 (padded cs) = some dst') :
    NUL ∈ dst'.toList := by
  have hle : (cstring NUL cs).length ≤ cs.length := (List.takeWhile_prefix _).length_le
  rw [(store_eq_some h).2, padded]
  simp only [List.mem_append, List.mem_replicate]
  exact Or.inl (Or.inr (Or.inr ⟨by omega, trivial⟩))

theorem Reading.next_of_overflow (h : MAX_CONFIG_LINE ≤ (strip line.buffer).length) :
    s.next line = none := by
  rw [Reading.next, foldlM_next _ (Nat.zero_le _)]
  cases hstore : store s.configLine 0 (strip line.buffer) with
  | none => rfl
  | some configLine =>
    simp only [Option.map_some, Option.bind_eq_bind, Option.bind_some, Nat.zero_add]
    rw [store_eq_none (by rw [List.length_singleton]; omega), Option.bind_none]

theorem Reading.next_eq (h : (strip line.buffer).length < MAX_CONFIG_LINE) : ∃ configLine, s.next line =
    if EVENTS <+: strip line.text then
      (store s.config.events 0 (padded (source (strip line.buffer)))).map
        fun events => ⟨configLine, ⟨events⟩⟩
    else some ⟨configLine, s.config⟩ := by
  have hnext := foldlM_next line.buffer (s := ⟨s.configLine, 0, SIZE_MAX⟩) (Nat.zero_le _)
  have hspec := eqFrom_spec (Nat.le_of_lt h)
  have hbuffer : strip line.buffer = strip line.text ++ NUL :: strip line.leftover := by
    rw [Line.buffer, strip_append]
    rfl
  generalize strip line.buffer = copied at h hnext hspec hbuffer ⊢
  have hroom : 0 + copied.length ≤ MAX_CONFIG_LINE := by omega
  have hroom' : 0 + (copied ++ [NUL]).length ≤ MAX_CONFIG_LINE := by
    rw [List.length_append, List.length_singleton]
    omega
  obtain ⟨cl, hcl, _⟩ := store_of_le s.configLine hroom
  obtain ⟨configLine, hconfigLine, hchars⟩ := store_of_le s.configLine hroom'
  have hterminated : store cl copied.length [NUL] = some configLine := by
    rw [← hconfigLine, ← store_append, hcl, Option.bind_some, Nat.zero_add]
  rw [hcl, Option.map_some, Nat.zero_add] at hnext
  rw [List.take_zero, List.nil_append, List.append_assoc, List.singleton_append] at hchars
  have htest : strncmp NUL EVENTS.length configLine.toList EVENTS = decide (EVENTS <+: strip line.text) := by
    have hnul : NUL ∉ EVENTS := by decide
    rw [strncmp_eq hnul, hchars, hbuffer, Bool.eq_iff_iff, List.isPrefixOf_iff_prefix, decide_eq_true_eq,
      List.append_assoc, List.cons_append, prefix_append_nul hnul]
  refine ⟨configLine, ?_⟩
  rw [Reading.next, hnext]
  simp only [Option.bind_eq_bind, Option.bind_some, hterminated, htest, decide_eq_true_eq]
  refine if_congr Iff.rfl ?_ rfl
  rw [hchars, (hspec _).1, (hspec []).2]
  have hcopy : (strncpy NUL s.config.events
      (source copied ++ NUL :: s.configLine.toList.drop (0 + (copied ++ [NUL]).length))
      ((source copied).length + 1)).bind (fun dst => store dst ((source copied).length + 1) [NUL])
        = store s.config.events 0 (padded (source copied)) := by
    rw [strncpy_terminate (List.mem_append_right _ List.mem_cons_self), cstring_append_nul, padded]
    rw [cstring_append_nul]
    exact Nat.le_succ_of_le (List.takeWhile_prefix _).length_le
  rw [← hcopy, Option.map_eq_bind, Option.bind_assoc]
  rfl

/-- What is copied from a line that starts with `events`. -/
def Line.taken (line : Line) : List Char :=
  if '=' ∈ line.text then cstring NUL (afterEq (strip line.text)) else line.stale

theorem cstring_source (line : Line) : cstring NUL (source (strip line.buffer)) = line.taken := by
  have hbuffer : strip line.buffer = strip line.text ++ NUL :: strip line.leftover := by
    rw [Line.buffer, strip_append]
    rfl
  have hmem : '=' ∈ strip line.buffer ↔ '=' ∈ line.text ∨ '=' ∈ line.leftover := by
    have hne : '=' ≠ NUL := by decide
    rw [mem_strip (by decide), Line.buffer, List.mem_append, List.mem_cons, or_iff_right hne]
  rw [source, Line.taken, Line.stale]
  by_cases htext : '=' ∈ line.text
  · rw [if_pos (hmem.mpr (Or.inl htext)), if_pos htext, hbuffer,
      afterEq_of_mem ((mem_strip (by decide)).mpr htext), cstring_append_nul]
  · by_cases hleftover : '=' ∈ line.leftover
    · have hstrip : '=' ∉ strip line.text := by rwa [mem_strip (by decide)]
      rw [if_pos (hmem.mpr (Or.inr hleftover)), if_neg htext, if_pos hleftover, hbuffer,
        afterEq_of_not_mem hstrip]
      rfl
    · rw [if_neg (fun h => (hmem.mp h).elim htext hleftover), if_neg htext, if_neg hleftover, hbuffer,
        cstring_append_nul]

/-- With a `=` less is copied than there is in the line. -/
theorem length_source_lt (h : '=' ∈ cs) : (source cs).length < cs.length := by
  obtain ⟨pre, post, rfl, hpre⟩ := List.eq_append_cons_of_mem h
  rw [source, if_pos h, afterEq_eq hpre, List.length_append, List.length_cons]
  omega

theorem Line.fits_iff : line.Fits ↔ (strip line.buffer).length < MAX_CONFIG_LINE ∧
    (EVENTS <+: strip line.text → (source (strip line.buffer)).length + 1 < MAX_CONFIG_LINE) := by
  refine and_congr_right fun hlength => forall_congr' fun _ => ?_
  by_cases hmem : '=' ∈ strip line.buffer
  · have hlt := length_source_lt hmem
    rw [mem_strip (by decide)] at hmem
    exact iff_of_true (fun h => absurd hmem h) (by omega)
  · rw [source, if_neg hmem]
    rw [mem_strip (by decide)] at hmem
    exact ⟨fun h => h hmem, fun h _ => h⟩

theorem Reading.next_of_fits (h : line.Fits) : ∃ s', s.next line = some s' ∧
    (cstring NUL s'.config.events.toList =
      if EVENTS <+: strip line.text then line.taken else cstring NUL s.config.events.toList) ∧
    (NUL ∈ s'.config.events.toList ↔ EVENTS <+: strip line.text ∨ NUL ∈ s.config.events.toList) := by
  rw [Line.fits_iff] at h
  obtain ⟨configLine, hnext⟩ := s.next_eq h.1
  by_cases hevents : EVENTS <+: strip line.text
  · have hle := h.2 hevents
    have hroom : 0 + (padded (source (strip line.buffer))).length ≤ MAX_CONFIG_LINE := by
      rw [length_padded]
      omega
    obtain ⟨events, hstore, _⟩ := store_of_le s.config.events hroom
    rw [if_pos hevents, hstore] at hnext
    rw [if_pos hevents, ← cstring_source]
    exact ⟨_, hnext, cstring_padded hstore, iff_of_true (nul_mem_padded hstore) (Or.inl hevents)⟩
  · rw [if_neg hevents] at hnext ⊢
    exact ⟨_, hnext, rfl, (or_iff_right hevents).symm⟩

theorem Reading.next_of_not_fits (h : ¬ line.Fits) : s.next line = none := by
  rw [Line.fits_iff] at h
  by_cases hlength : (strip line.buffer).length < MAX_CONFIG_LINE
  · simp only [hlength, true_and, not_forall] at h
    obtain ⟨hevents, hmore⟩ := h
    obtain ⟨configLine, hnext⟩ := s.next_eq hlength
    rw [hnext, if_pos hevents, store_eq_none (by rw [length_padded]; omega), Option.map_none]
  · exact s.next_of_overflow (Nat.le_of_not_lt hlength)

/-! ### The file -/

theorem lastEvents_cons (line : Line) (lines : List Line) : lastEvents (line :: lines) =
    (lastEvents lines).or (if EVENTS <+: strip line.text then some line else none) := by
  rw [lastEvents, lastEvents, List.filter_cons]
  by_cases h : EVENTS <+: strip line.text
  · simp only [h, decide_true, if_true, List.getLast?_cons]
    cases (lines.filter fun line => EVENTS <+: strip line.text).getLast? <;> rfl
  · simp [h]

/-- What is read as the events, with what is in memory if no line starts with `events`. -/
def eventsRead (lines : List Line) (memory : Config) : List Char :=
  ((lastEvents lines).map Line.taken).getD (cstring NUL memory.events.toList)

/-- What is read ends in its array, if a line starts with `events`. -/
theorem foldlM_of_fits {lines : List Line} (h : ∀ line ∈ lines, line.Fits) (s : Reading) :
    ∃ s', lines.foldlM Reading.next s = some s' ∧
      cstring NUL s'.config.events.toList = eventsRead lines s.config ∧
      (NUL ∈ s'.config.events.toList ↔ (lastEvents lines).isSome ∨ NUL ∈ s.config.events.toList) := by
  induction lines generalizing s with
  | nil => exact ⟨s, rfl, rfl, by simp [lastEvents]⟩
  | cons line lines ih =>
    obtain ⟨s₁, hnext, hstring, hnul⟩ := s.next_of_fits (h line List.mem_cons_self)
    obtain ⟨s₂, hrest, hstring', hnul'⟩ := ih (fun line hline => h line (List.mem_cons_of_mem _ hline)) s₁
    refine ⟨s₂, ?_, ?_, ?_⟩
    · rw [List.foldlM_cons, hnext]
      exact hrest
    · rw [hstring', eventsRead, eventsRead, hstring, lastEvents_cons]
      cases lastEvents lines with
      | some last => rfl
      | none =>
        rw [Option.none_or]
        split <;> rfl
    · rw [hnul', hnul, lastEvents_cons, Option.isSome_or, Bool.or_eq_true, or_assoc]
      refine or_congr_right (or_congr_left ?_)
      by_cases hevents : EVENTS <+: strip line.text
      · rw [if_pos hevents]
        exact iff_of_true hevents rfl
      · rw [if_neg hevents]
        exact iff_of_false hevents nofun

theorem foldlM_of_not_fits {lines : List Line} (h : ¬ ∀ line ∈ lines, line.Fits) (s : Reading) :
    lines.foldlM Reading.next s = none := by
  induction lines generalizing s with
  | nil => exact absurd nofun h
  | cons line lines ih =>
    rw [List.foldlM_cons]
    by_cases hline : line.Fits
    · obtain ⟨s₁, hnext, _⟩ := s.next_of_fits hline
      rw [hnext]
      exact ih (fun hall => h (List.forall_mem_cons.mpr ⟨hline, hall⟩)) s₁
    · rw [s.next_of_not_fits hline]
      rfl

theorem filterMap_setting {lines : List Line} (h : lastEvents lines = none) :
    (lines.map Line.text).filterMap setting = [] := by
  rw [lastEvents, List.getLast?_eq_none_iff, List.filter_eq_nil_iff] at h
  rw [List.filterMap_eq_nil_iff, List.forall_mem_map]
  intro line hline
  exact if_neg fun hsetting => h line hline (decide_eq_true hsetting.1)

theorem getPapiApiConfig_of_fits {lines : List Line} (h : ∀ line ∈ lines, line.Fits)
    (configLine : Buffer Char MAX_CONFIG_LINE) (memory : Config) :
    ∃ config, getPapiApiConfig (some lines) configLine (some memory) = some (some config) ∧
      cstring NUL config.events.toList = eventsRead lines memory ∧
      (NUL ∈ config.events.toList ↔ (lastEvents lines).isSome ∨ NUL ∈ memory.events.toList) := by
  obtain ⟨s, hrun, hread⟩ := foldlM_of_fits h ⟨configLine, memory⟩
  exact ⟨s.config, by rw [getPapiApiConfig, hrun, Option.map_some], hread⟩

theorem getPapiApiConfig_of_not_fits {lines : List Line} (h : ¬ ∀ line ∈ lines, line.Fits)
    (configLine : Buffer Char MAX_CONFIG_LINE) (memory : Config) :
    getPapiApiConfig (some lines) configLine (some memory) = none := by
  rw [getPapiApiConfig, foldlM_of_not_fits h, Option.map_none]

/-- If the last line that starts with `events` has a `=`, it is the last that gives any events. -/
theorem settings_eq {lines : List Line} {line : Line} (h : lastEvents lines = some line)
    (heq : '=' ∈ line.text) : settings (lines.map Line.text) = afterEq (strip line.text) := by
  have hlast : ((lines.map Line.text).filterMap setting).getLast? = some (afterEq (strip line.text)) := by
    induction lines with
    | nil => cases h
    | cons first lines ih =>
      rw [lastEvents_cons] at h
      rw [List.map_cons, List.filterMap_cons]
      cases hrest : lastEvents lines with
      | some last =>
        rw [hrest, Option.some_or] at h
        have hlast := ih (hrest.trans h)
        cases setting first.text with
        | none => exact hlast
        | some events => rw [List.getLast?_cons, hlast, Option.getD_some]
      | none =>
        rw [hrest, Option.none_or] at h
        split at h
        · next hevents =>
          cases h
          rw [setting, if_pos ⟨hevents, heq⟩, filterMap_setting hrest]
          rfl
        · cases h
  rw [settings, List.getLastD_eq_getLast?, hlast, Option.getD_some]

theorem readsExactly_iff (lines : List Line) (configLine : Buffer Char MAX_CONFIG_LINE)
    (memory : Option Config) : ReadsExactly lines configLine memory ↔ Plain lines memory := by
  cases memory with
  | none => exact iff_of_false (fun ⟨_, h, _⟩ => nomatch h) (fun ⟨_, h, _⟩ => nomatch h)
  | some config =>
    by_cases hfits : ∀ line ∈ lines, line.Fits
    · obtain ⟨config', hread, hstring, _⟩ := getPapiApiConfig_of_fits hfits configLine config
      have hexactly : ReadsExactly lines configLine (some config) ↔
          cstring NUL config'.events.toList = settings (lines.map Line.text) := by
        rw [ReadsExactly, hread]
        simp
      rw [hexactly, hstring, eventsRead, Plain]
      simp only [Option.some.injEq, exists_eq_left']
      rw [and_iff_right hfits]
      cases hlast : lastEvents lines with
      | none =>
        have hchars : config.events.toList ≠ [] := by
          rw [← List.length_pos_iff, List.Vector.toList_length]
          decide
        rw [settings, filterMap_setting hlast]
        exact cstring_eq_nil_iff hchars
      | some line =>
        by_cases heq : '=' ∈ line.text
        · rw [settings_eq hlast heq]
          simpa [Line.taken, heq] using cstring_eq_self_iff
        · simp [Line.taken, heq]
    · refine iff_of_false (fun ⟨_, h, _⟩ => ?_) (fun ⟨_, _, h, _⟩ => hfits h)
      rw [getPapiApiConfig_of_not_fits hfits] at h
      cases h

end

/-- `# events = A`, as `getline` reads it first. -/
def comment : Line where
  text := ['#', ' ', 'e', 'v', 'e', 'n', 't', 's', ' ', '=', ' ', 'A', '\n']
  leftover := List.replicate 106 NUL
  read := List.cons_ne_nil _ _

/-- `events`, over what is left of the comment. -/
def bare : Line where
  text := ['e', 'v', 'e', 'n', 't', 's', '\n']
  leftover := [' ', '=', ' ', 'A', '\n'] ++ List.replicate 107 NUL
  read := List.cons_ne_nil _ _

/-- The events of a comment are taken for those of the next line. -/
theorem not_readsExactly_comment : ¬ ∀ (lines : List Line) (configLine : Buffer Char MAX_CONFIG_LINE)
    (memory : Option Config), ReadsExactly lines configLine memory := by
  intro h
  let zeros : Buffer Char MAX_CONFIG_LINE := List.Vector.replicate MAX_CONFIG_LINE NUL
  obtain ⟨_, _, _, hlast⟩ := (readsExactly_iff _ _ _).mp (h [comment, bare] zeros (some ⟨zeros⟩))
  have heq : lastEvents [comment, bare] = some bare := rfl
  simp only [heq] at hlast
  rw [if_neg (by decide)] at hlast
  exact absurd hlast (by decide)

end PapiApi

end ProfHalide
