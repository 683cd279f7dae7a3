import Mathlib.Data.List.TakeWhile
import Mathlib.Data.Vector.Basic

/-!
# Strings in arrays

A string is what an array holds before its first NUL. A store outside an array, and a read past its end,
have no result. What `strncmp`, `strncpy` and `strtok` do to arrays is said here in terms of strings: a
prefix, a copy, and the next of the words between delimiters.
-/

namespace CString

variable {α : Type*} {n : Nat}

/-! ### Stores -/

/-- An array of `n` characters. -/
abbrev Buffer (α : Type*) (n : Nat) := List.Vector α n

def store (dst : Buffer α n) (i : Nat) (cs : List α) : Option (Buffer α n) :=
  if h : i + cs.length ≤ n then
    some ⟨dst.toList.take i ++ cs ++ dst.toList.drop (i + cs.length), by
      simp only [List.length_append, List.length_take, List.length_drop, List.Vector.toList_length]
      omega⟩
  else none

variable {dst dst' : Buffer α n} {i : Nat} {cs ds : List α}

theorem store_eq_none (h : n < i + cs.length) : store dst i cs = none := dif_neg (Nat.not_le.mpr h)

theorem store_of_le (dst : Buffer α n) (h : i + cs.length ≤ n) : ∃ dst', store dst i cs = some dst' ∧
    dst'.toList = dst.toList.take i ++ cs ++ dst.toList.drop (i + cs.length) :=
  ⟨_, dif_pos h, rfl⟩

theorem store_eq_some (h : store dst i cs = some dst') : i + cs.length ≤ n ∧
    dst'.toList = dst.toList.take i ++ cs ++ dst.toList.drop (i + cs.length) := by
  rcases Nat.lt_or_ge n (i + cs.length) with hlt | hle
  · rw [store_eq_none hlt] at h
    cases h
  · obtain ⟨dst'', heq, htoList⟩ := store_of_le dst hle
    rw [heq] at h
    cases h
    exact ⟨hle, htoList⟩

theorem store_nil (h : i ≤ n) : store dst i [] = some dst := by
  have hle : i + ([] : List α).length ≤ n := h
  obtain ⟨dst', heq, htoList⟩ := store_of_le dst hle
  rw [List.append_nil, List.length_nil, Nat.add_zero, List.take_append_drop] at htoList
  rw [heq, List.Vector.eq _ _ htoList]

/-- Two stores, one behind the other. -/
theorem store_append (dst : Buffer α n) (i : Nat) (cs ds : List α) :
    (store dst i cs).bind (fun dst => store dst (i + cs.length) ds) = store dst i (cs ++ ds) := by
  rcases Nat.lt_or_ge n (i + (cs ++ ds).length) with hlt | hle
  · rw [store_eq_none hlt]
    cases hstore : store dst i cs with
    | none => rfl
    | some dst' =>
      rw [Option.bind_some, store_eq_none]
      rw [List.length_append] at hlt
      omega
  · obtain ⟨dst'', heq, htoList⟩ := store_of_le dst hle
    rw [List.length_append] at hle
    have hfirst : i + cs.length ≤ n := by omega
    have hsecond : i + cs.length + ds.length ≤ n := by omega
    obtain ⟨dst₁, heq₁, htoList₁⟩ := store_of_le dst hfirst
    obtain ⟨dst₂, heq₂, htoList₂⟩ := store_of_le dst₁ hsecond
    have htake : (dst.toList.take i ++ cs).length = i + cs.length := by
      rw [List.length_append, List.length_take, List.Vector.toList_length]
      omega
    rw [heq, heq₁, Option.bind_some, heq₂, List.Vector.eq dst₂ dst'']
    rw [htoList₂, htoList₁, htoList, List.take_left' htake, ← htake, List.drop_length_add_append,
      List.drop_drop, htake, List.length_append]
    simp only [List.append_assoc, Nat.add_assoc]

/-- A store of one character, where it is known what is there. -/
theorem store_at {before after : List α} {c : α} (h : dst.toList = before ++ c :: after) (d : α) :
    ∃ dst', store dst before.length [d] = some dst' ∧ dst'.toList = before ++ d :: after := by
  have hlength := congrArg List.length h
  rw [List.Vector.toList_length, List.length_append, List.length_cons] at hlength
  have hle : before.length + [d].length ≤ n := by
    rw [List.length_singleton]
    omega
  obtain ⟨dst', hstore, htoList⟩ := store_of_le dst hle
  refine ⟨dst', hstore, ?_⟩
  rw [htoList, h, List.take_left, List.length_singleton, List.drop_length_add_append, List.append_assoc]
  rfl

theorem exists_before (h : i ≤ dst.toList.length) :
    ∃ before, i = before.length ∧ dst.toList = before ++ dst.toList.drop i := by
  refine ⟨dst.toList.take i, ?_, (List.take_append_drop ..).symm⟩
  rw [List.length_take, Nat.min_eq_left h]

/-! ### Strings -/

section Strings

variable [DecidableEq α] (nul : α)

/-- The string at the start of an array. -/
def cstring (cs : List α) : List α := cs.takeWhile (· ≠ nul)

/-- Whether `strncmp` returns 0. -/
def strncmp : Nat → List α → List α → Bool
  | 0, _, _ => true
  | k + 1, c :: cs, d :: ds => c = d && (c = nul || strncmp k cs ds)
  | _, _, _ => false

/-- `strncpy(dst, src, k)`, which fills up with NULs. -/
def strncpy (dst : Buffer α n) (src : List α) (k : Nat) : Option (Buffer α n) :=
  if nul ∈ src.take k ∨ k ≤ src.length then
    store dst 0 ((cstring nul src ++ List.replicate k nul).take k)
  else none

variable {nul}

@[simp] theorem cstring_nul : cstring nul (nul :: cs) = [] := List.takeWhile_cons_of_neg (by simp)

theorem nul_not_mem_cstring : nul ∉ cstring nul cs := by
  intro h
  simpa using List.mem_takeWhile_imp h

theorem cstring_of_not_mem (h : nul ∉ cs) : cstring nul cs = cs := by
  rw [cstring, List.takeWhile_eq_self_iff]
  intro c hc
  simp only [decide_eq_true_eq]
  exact fun heq => h (heq ▸ hc)

theorem cstring_append (h : nul ∉ cs) : cstring nul (cs ++ ds) = cs ++ cstring nul ds := by
  rw [cstring, List.takeWhile_append_of_pos]
  · rfl
  · intro c hc
    simp only [decide_eq_true_eq]
    exact fun heq => h (heq ▸ hc)

theorem cstring_eq_self_iff : cstring nul cs = cs ↔ nul ∉ cs :=
  ⟨fun h => h ▸ nul_not_mem_cstring, cstring_of_not_mem⟩

theorem cstring_eq_nil_iff (h : cs ≠ []) : cstring nul cs = [] ↔ cs.head? = some nul := by
  cases cs with
  | nil => exact absurd rfl h
  | cons c cs =>
    rw [cstring, List.takeWhile_cons]
    by_cases heq : c = nul <;> simp [heq]

theorem cstring_append_nul : cstring nul (cs ++ nul :: ds) = cstring nul cs := by
  induction cs with
  | nil => exact cstring_nul
  | cons c cs ih =>
    rw [List.cons_append, cstring, cstring, List.takeWhile_cons, List.takeWhile_cons]
    split
    · exact congrArg (c :: ·) ih
    · rfl

theorem cstring_append_drop (h : nul ∈ cs) : ∃ ds, cs = cstring nul cs ++ nul :: ds := by
  obtain ⟨pre, post, rfl, hnot⟩ := List.eq_append_cons_of_mem h
  exact ⟨post, by rw [cstring_append_nul, cstring_of_not_mem hnot]⟩

omit [DecidableEq α] in
/-- A prefix without NULs lies before the first one. -/
theorem prefix_append_nul {es : List α} (h : nul ∉ ds) : ds <+: cs ++ nul :: es ↔ ds <+: cs := by
  constructor
  · intro hbegin
    rcases List.prefix_or_prefix_of_prefix hbegin (List.prefix_append cs _) with hds | hcs
    · exact hds
    · obtain ⟨rest, rfl⟩ := hcs
      rw [List.prefix_append_right_inj] at hbegin
      cases rest with
      | nil => exact (List.append_nil cs).symm ▸ List.prefix_rfl
      | cons c rest =>
        rw [List.cons_prefix_cons] at hbegin
        simp [hbegin.1] at h
  · exact fun hbegin => hbegin.trans (List.prefix_append _ _)

theorem strncmp_eq (h : nul ∉ ds) : strncmp nul ds.length cs ds = ds.isPrefixOf cs := by
  induction ds generalizing cs with
  | nil => simp [strncmp]
  | cons d ds ih =>
    rw [List.mem_cons, not_or] at h
    cases cs with
    | nil => rfl
    | cons c cs =>
      rw [List.length_cons, strncmp, List.isPrefixOf, ih h.2]
      by_cases heq : c = d
      · simp [heq, Ne.symm h.1]
      · simp [heq, Ne.symm heq]

/-- A string that is copied whole, with a NUL after what is copied. -/
theorem strncpy_terminate {src : List α} {k : Nat} (hnul : nul ∈ src)
    (hlength : (cstring nul src).length ≤ k) :
    (strncpy nul dst src k).bind (fun dst => store dst k [nul])
      = store dst 0 (cstring nul src ++ List.replicate (k + 1 - (cstring nul src).length) nul) := by
  obtain ⟨rest, hsrc⟩ := cstring_append_drop hnul
  obtain ⟨m, hm⟩ := Nat.exists_eq_add_of_le hlength
  have hinside : nul ∈ src.take k ∨ k ≤ src.length := by
    cases m with
    | zero =>
      refine Or.inr ?_
      rw [hm, hsrc, List.length_append, Nat.add_zero, cstring_append_nul,
        cstring_of_not_mem nul_not_mem_cstring]
      exact Nat.le_add_right _ _
    | succ m =>
      refine Or.inl ?_
      rw [hm, hsrc, cstring_append_nul, cstring_of_not_mem nul_not_mem_cstring,
        List.take_length_add_append, List.take_succ_cons]
      simp
  have hcopied : (cstring nul src ++ List.replicate k nul).take k
      = cstring nul src ++ List.replicate m nul := by
    rw [hm, List.take_length_add_append, List.take_replicate, Nat.min_eq_left (Nat.le_add_left _ _)]
  have hcount : (cstring nul src ++ List.replicate m nul).length = k := by
    rw [List.length_append, List.length_replicate, hm]
  have hmore : k + 1 - (cstring nul src).length = m + 1 := by omega
  rw [strncpy, if_pos hinside, hcopied, hmore, List.replicate_succ', ← List.append_assoc,
    ← store_append dst 0 (cstring nul src ++ List.replicate m nul), hcount, Nat.zero_add]

theorem cstring_store {k : Nat} (hnul : nul ∉ cs)
    (h : store dst 0 (cs ++ List.replicate (k + 1) nul) = some dst') :
    cstring nul dst'.toList = cs := by
  obtain ⟨_, htoList⟩ := store_eq_some h
  rw [htoList, List.take_zero, List.nil_append, List.replicate_succ, List.append_assoc, List.cons_append,
    cstring_append_nul, cstring_of_not_mem hnul]

/-! ### Words -/

/-- The words of a string, between delimiters. -/
def words (delim : α) (cs : List α) : List (List α) := (cs.splitOn delim).filter (· ≠ [])

variable {delim : α}

theorem words_cons : words delim (delim :: cs) = words delim cs := by
  have hsplit := List.splitOn_append_cons_self (a := delim) [] cs
  rw [List.nil_append, List.splitOn_nil] at hsplit
  rw [words, hsplit]
  rfl

theorem words_of_not_mem (h : delim ∉ cs) : words delim cs = if cs = [] then [] else [cs] := by
  rw [words, List.splitOn_eq_singleton h, List.filter_singleton]
  by_cases hnil : cs = [] <;> simp [hnil]

theorem words_append_cons (h : delim ∉ cs) (hne : cs ≠ []) :
    words delim (cs ++ delim :: ds) = cs :: words delim ds := by
  rw [words, List.splitOn_append_cons_self_of_not_mem h, List.filter_cons_of_pos (by simpa using hne)]
  rfl

theorem words_append (h : ∀ c ∈ cs, c = delim) : words delim (cs ++ ds) = words delim ds := by
  induction cs with
  | nil => rfl
  | cons c cs ih =>
    rw [List.forall_mem_cons] at h
    rw [h.1, List.cons_append, words_cons, ih h.2]

variable (nul delim)

/-- A call of `strtok` for an array, from the position where the last one ended: the position of a word,
if there is one more, the array with the delimiter behind the word replaced, and where to go on. -/
def strtok (buf : Buffer α n) (pos : Nat) : Option (Option Nat × Buffer α n × Nat) :=
  let start := pos + ((buf.toList.drop pos).takeWhile (· = delim)).length
  let stop := start + ((buf.toList.drop start).takeWhile fun c => c ≠ delim ∧ c ≠ nul).length
  buf.toList[stop]?.bind fun c =>
    if stop = start then some (none, buf, stop)
    else if c = nul then some (some start, buf, stop)
    else (store buf stop [nul]).map fun buf => (some start, buf, stop + 1)

variable {nul delim}

/-- What is before a position, the delimiters from there on, the word behind them, and what ends it. -/
theorem strtok_eq {buf : Buffer α n} {pre skipped word rest : List α}
    (hbuf : buf.toList = pre ++ (skipped ++ (word ++ rest))) (hskipped : ∀ d ∈ skipped, d = delim)
    (hword : ∀ d ∈ word, d ≠ delim ∧ d ≠ nul)
    (hend : ∀ c ∈ rest.head?, (c = delim ∨ c = nul) ∧ (word = [] → c ≠ delim)) :
    strtok nul delim buf pre.length = rest.head?.bind fun c =>
      let start := pre.length + skipped.length
      if word = [] then some (none, buf, start)
      else if c = nul then some (some start, buf, start + word.length)
      else (store buf (start + word.length) [nul]).map fun buf =>
        (some start, buf, start + word.length + 1) := by
  have hnone : (word ++ rest).takeWhile (· = delim) = [] := by
    cases word with
    | cons d word => exact List.takeWhile_cons_of_neg (by simpa using (hword d List.mem_cons_self).1)
    | nil =>
      cases rest with
      | nil => rfl
      | cons c rest => exact List.takeWhile_cons_of_neg (by simpa using (hend c rfl).2 rfl)
  have hstops : rest.takeWhile (fun c => c ≠ delim ∧ c ≠ nul) = [] := by
    cases rest with
    | nil => rfl
    | cons c rest =>
      refine List.takeWhile_cons_of_neg ?_
      rcases (hend c rfl).1 with hc | hc <;> simp [hc]
  have hstart : (buf.toList.drop pre.length).takeWhile (· = delim) = skipped := by
    rw [hbuf, List.drop_left, List.takeWhile_append_of_pos (by simpa using hskipped), hnone,
      List.append_nil]
  have hrest : buf.toList.drop (pre.length + skipped.length) = word ++ rest := by
    rw [hbuf, List.drop_length_add_append, List.drop_left]
  have hstop : (buf.toList.drop (pre.length + skipped.length)).takeWhile
      (fun c => c ≠ delim ∧ c ≠ nul) = word := by
    rw [hrest, List.takeWhile_append_of_pos (by simpa using hword), hstops, List.append_nil]
  have hget : buf.toList[pre.length + skipped.length + word.length]? = rest.head? := by
    rw [← List.getElem?_drop, hrest, List.getElem?_append_right (Nat.le_refl _), Nat.sub_self,
      List.head?_eq_getElem?]
  rw [strtok]
  simp only [hstart, hstop, hget]
  refine Option.bind_congr fun c _ => ?_
  by_cases hempty : word = []
  · simp [hempty]
  · have hlength : pre.length + skipped.length + word.length ≠ pre.length + skipped.length := by
      have := List.length_pos_iff.mpr hempty
      omega
    rw [if_neg hlength, if_neg hempty]

/-- Every string is made of delimiters, a word, and a rest that starts with what ends the word. -/
theorem exists_word (nul delim : α) (cs : List α) : ∃ skipped word rest,
    cs = skipped ++ (word ++ rest) ∧ (∀ d ∈ skipped, d = delim) ∧
      (∀ d ∈ word, d ≠ delim ∧ d ≠ nul) ∧
      ∀ c ∈ rest.head?, (c = delim ∨ c = nul) ∧ (word = [] → c ≠ delim) := by
  refine ⟨cs.takeWhile (· = delim), (cs.dropWhile (· = delim)).takeWhile fun c => c ≠ delim ∧ c ≠ nul,
    (cs.dropWhile (· = delim)).dropWhile fun c => c ≠ delim ∧ c ≠ nul, ?_, ?_, ?_, ?_⟩
  · rw [List.takeWhile_append_dropWhile, List.takeWhile_append_dropWhile]
  · intro d hd
    simpa using List.mem_takeWhile_imp hd
  · intro d hd
    simpa using List.mem_takeWhile_imp hd
  · intro c hc
    constructor
    · have hstop := List.head?_dropWhile_not (fun c => decide (c ≠ delim ∧ c ≠ nul))
        (cs.dropWhile (· = delim))
      rw [Option.mem_def.mp hc] at hstop
      by_cases hdelim : c = delim
      · exact Or.inl hdelim
      · exact Or.inr (by simpa [hdelim] using hstop)
    · intro hword
      have hall := List.takeWhile_append_dropWhile (p := fun c => decide (c ≠ delim ∧ c ≠ nul))
        (l := cs.dropWhile (· = delim))
      rw [hword, List.nil_append] at hall
      have hstop := List.head?_dropWhile_not (fun c => decide (c = delim)) cs
      rw [hall] at hc
      rw [Option.mem_def.mp hc] at hstop
      simpa using hstop

/-- With a NUL ahead, the words of the string ahead are found one by one. -/
theorem strtok_spec (hne : delim ≠ nul) {buf : Buffer α n} {pos : Nat}
    (hnul : nul ∈ buf.toList.drop pos) :
    match words delim (cstring nul (buf.toList.drop pos)) with
    | [] => ∃ pos', strtok nul delim buf pos = some (none, buf, pos')
    | word :: rest => ∃ start buf' pos', strtok nul delim buf pos = some (some start, buf', pos') ∧
        cstring nul (buf'.toList.drop start) = word ∧ nul ∈ buf'.toList.drop pos' ∧
        words delim (cstring nul (buf'.toList.drop pos')) = rest := by
  have hpos : pos ≤ buf.toList.length := by
    by_contra hlt
    rw [List.drop_eq_nil_of_le (by omega)] at hnul
    cases hnul
  obtain ⟨skipped, word, rest, hcs, hskipped, hword, hend⟩ := exists_word nul delim (buf.toList.drop pos)
  obtain ⟨pre, rfl, hbuf⟩ := exists_before hpos
  rw [hcs] at hnul hbuf
  have hskip : nul ∉ skipped := fun h => hne (hskipped nul h).symm
  have hinside : nul ∉ word := fun h => (hword nul h).2 rfl
  cases rest with
  | nil => simp [hskip, hinside] at hnul
  | cons c post =>
    have heq := strtok_eq hbuf hskipped hword hend
    rw [List.head?_cons, Option.bind_some] at heq
    rw [heq, hcs, cstring_append hskip, words_append hskipped, cstring_append hinside]
    by_cases hempty : word = []
    · have hc : c = nul := ((hend c rfl).1).resolve_left ((hend c rfl).2 hempty)
      rw [hempty, hc, cstring_nul]
      exact ⟨_, if_pos rfl⟩
    have hdelim : delim ∉ word := fun h => (hword delim h).1 rfl
    have hstart : (pre ++ skipped).length = pre.length + skipped.length := List.length_append
    have hstop : (pre ++ skipped ++ word).length = pre.length + skipped.length + word.length := by
      rw [List.length_append, hstart]
    have hsplit : buf.toList = pre ++ skipped ++ word ++ c :: post := by
      rw [hbuf, List.append_assoc, List.append_assoc]
    by_cases hc : c = nul
    · -- The string ends with the word.
      subst hc
      rw [cstring_nul, List.append_nil, words_of_not_mem hdelim, if_neg hempty]
      refine ⟨_, _, _, by rw [if_neg hempty, if_pos rfl], ?_, ?_, ?_⟩
      · rw [hsplit, List.append_assoc, ← hstart, List.drop_left, cstring_append hinside, cstring_nul,
          List.append_nil]
      · rw [hsplit, ← hstop, List.drop_left]
        exact List.mem_cons_self
      · rw [hsplit, ← hstop, List.drop_left, cstring_nul, words_of_not_mem List.not_mem_nil, if_pos rfl]
    · -- The delimiter behind the word is replaced.
      have hc' : c = delim := ((hend c rfl).1).resolve_right hc
      have hpost : nul ∈ post := by
        simpa [hskip, hinside, Ne.symm hc] using hnul
      have hnot : nul ∉ [c] := by simpa using Ne.symm hc
      have hwords : words delim (word ++ cstring nul (c :: post))
          = word :: words delim (cstring nul post) := by
        rw [← words_append_cons hdelim hempty, ← hc']
        exact congrArg (fun cs => words c (word ++ cs)) (cstring_append hnot)
      obtain ⟨buf', hstore, htoList⟩ := store_at hsplit nul
      have hafter : buf'.toList.drop ((pre ++ skipped ++ word).length + 1) = post := by
        rw [htoList, List.drop_length_add_append]
        rfl
      rw [hstop] at hstore hafter
      rw [hwords]
      refine ⟨_, buf', _, by rw [if_neg hempty, if_neg hc, hstore, Option.map_some], ?_, ?_, ?_⟩
      · rw [htoList, List.append_assoc, ← hstart, List.drop_left, cstring_append hinside, cstring_nul,
          List.append_nil]
      · rwa [hafter]
      · rw [hafter]

/-- With no NUL ahead, the words never end. -/
theorem strtok_overrun {buf : Buffer α n} {pos : Nat} (hnul : nul ∉ buf.toList.drop pos)
    {r : Option Nat × Buffer α n × Nat} (h : strtok nul delim buf pos = some r) :
    ∃ start buf' pos', r = (some start, buf', pos') ∧ nul ∉ buf'.toList.drop pos' := by
  obtain ⟨skipped, word, rest, hcs, hskipped, hword, hend⟩ := exists_word nul delim (buf.toList.drop pos)
  rcases Nat.lt_or_ge buf.toList.length pos with hlt | hpos
  · rw [strtok, List.drop_eq_nil_of_le (Nat.le_of_lt hlt)] at h
    simp only [List.takeWhile_nil, List.length_nil, Nat.add_zero,
      List.drop_eq_nil_of_le (Nat.le_of_lt hlt), List.getElem?_eq_none (Nat.le_of_lt hlt)] at h
    cases h
  obtain ⟨pre, rfl, hbuf⟩ := exists_before hpos
  rw [hcs] at hnul hbuf
  have heq := strtok_eq hbuf hskipped hword hend
  cases rest with
  | nil =>
    rw [heq] at h
    cases h
  | cons c post =>
    simp only [List.mem_append, List.mem_cons, not_or] at hnul
    obtain ⟨_, _, hc, hpost⟩ := hnul
    have hempty : word ≠ [] := fun hempty =>
      (hend c rfl).2 hempty ((hend c rfl).1.resolve_right (Ne.symm hc))
    have hsplit : buf.toList = pre ++ skipped ++ word ++ c :: post := by
      rw [hbuf, List.append_assoc, List.append_assoc]
    have hstop : (pre ++ skipped ++ word).length = pre.length + skipped.length + word.length := by
      rw [List.length_append, List.length_append]
    obtain ⟨buf', hstore, htoList⟩ := store_at hsplit nul
    have hafter : buf'.toList.drop ((pre ++ skipped ++ word).length + 1) = post := by
      rw [htoList, List.drop_length_add_append]
      rfl
    rw [hstop] at hstore hafter
    rw [heq, List.head?_cons, Option.bind_some, if_neg hempty, if_neg (Ne.symm hc), hstore] at h
    cases h
    exact ⟨_, _, _, rfl, by rwa [hafter]⟩

theorem length_splitOn_le (cs : List α) : (cs.splitOn delim).length ≤ cs.length + 1 := by
  induction cs with
  | nil => exact Nat.le_refl 1
  | cons c cs ih =>
    rw [List.splitOn_cons_eq_if_modifyHead]
    split
    · exact Nat.succ_le_succ ih
    · rw [List.length_modifyHead]
      exact Nat.le_succ_of_le ih

theorem length_words_le (delim : α) (cs : List α) : (words delim cs).length ≤ cs.length + 1 :=
  Nat.le_trans (List.length_filter_le _ _) (length_splitOn_le cs)

end Strings

end CString
