import Std.Data.TreeMap
import Mathlib.Tactic.TypeStar

/-!
# Sums and counts by key and column

Two dictionaries of dictionaries, one for the sums and one for the counts, are filled value by value. A
value opens its entry if it is the first one for its key and column, and is added to the sum otherwise.
In the end an entry holds the sum, in the order of arrival, and the number of exactly the values that
came with its key and column.
-/

open Std

variable {κ ν : Type*} {cmp : κ → κ → Ordering}

namespace Tally

/-- The sum of some values in their order; there is none of no values. -/
def sumOf [Add ν] : List ν → Option ν
  | [] => none
  | x :: xs => some (xs.foldl (· + ·) x)

def countOf : List ν → Option Nat
  | [] => none
  | xs => some xs.length

/-- What one more value makes of a sum. -/
def push [Add ν] (x : ν) : Option ν → ν
  | none => x
  | some s => s + x

theorem sumOf_append_singleton [Add ν] (xs : List ν) (x : ν) :
    sumOf (xs ++ [x]) = some (push x (sumOf xs)) := by
  cases xs with
  | nil => rfl
  | cons y ys => rw [List.cons_append, sumOf, sumOf, List.foldl_append]; rfl

theorem countOf_append_singleton (xs : List ν) (x : ν) :
    countOf (xs ++ [x]) = some ((countOf xs).getD 0 + 1) := by
  cases xs with
  | nil => rfl
  | cons y ys => simp [countOf]

end Tally

/-- The sums and the counts. -/
structure Tally (κ : Type*) (cmp : κ → κ → Ordering) (ν : Type*) where
  data : TreeMap κ (TreeMap Nat ν) cmp
  iter : TreeMap κ (TreeMap Nat Nat) cmp

namespace Tally

def empty : Tally κ cmp ν := ⟨∅, ∅⟩

variable (t : Tally κ cmp ν)

def sum (key : κ) (column : Nat) : Option ν := t.data[key]?.bind (·[column]?)

def count (key : κ) (column : Nat) : Option Nat := t.iter[key]?.bind (·[column]?)

/-- A key that is not there yet gets empty columns. -/
def enter (key : κ) : Tally κ cmp ν :=
  if key ∈ t.data then t else ⟨t.data.insert key ∅, t.iter.insert key ∅⟩

/-- A value for a column of a key that is there. -/
def add [Add ν] (key : κ) (column : Nat) (x : ν) : Tally κ cmp ν :=
  let sums := t.data.getD key ∅
  let counts := t.iter.getD key ∅
  match sums[column]? with
  | none =>
      ⟨t.data.insert key (sums.insert column x), t.iter.insert key (counts.insert column 1)⟩
  | some s =>
      ⟨t.data.insert key (sums.insert column (s + x)),
        t.iter.insert key (counts.insert column (counts.getD column 0 + 1))⟩

/-- The values of a row, from a column on. -/
def addRow [Add ν] (t : Tally κ cmp ν) (key : κ) : Nat → List ν → Tally κ cmp ν
  | _, [] => t
  | column, x :: xs => (t.add key column x).addRow key (column + 1) xs

/-! ### Entries -/

section Holds

variable [DecidableEq κ]

/-- The values among some entries that came with a key and column. -/
def values (key : κ) (column : Nat) (entries : List ((κ × Nat) × ν)) : List ν :=
  entries.filterMap fun e => if e.1 = (key, column) then some e.2 else none

theorem values_append_singleton (entries : List ((κ × Nat) × ν)) (key k : κ) (column c : Nat) (x : ν) :
    values k c (entries ++ [((key, column), x)]) =
      if key = k ∧ column = c then values k c entries ++ [x] else values k c entries := by
  rw [values, List.filterMap_append]
  split
  · rename_i hsame
    rw [← hsame.1, ← hsame.2]
    simp [values]
  · rename_i hother
    simp [values, hother]

/-- The entries of a row, from a column on. -/
def rowEntries (key : κ) : Nat → List ν → List ((κ × Nat) × ν)
  | _, [] => []
  | column, x :: xs => ((key, column), x) :: rowEntries key (column + 1) xs

def entriesOf (rows : List (κ × List ν)) : List ((κ × Nat) × ν) :=
  rows.flatMap fun row => rowEntries row.1 0 row.2

/-- The values that some rows have in a column under a key. -/
def columnOf (key : κ) (column : Nat) (rows : List (κ × List ν)) : List ν :=
  rows.filterMap fun row => if row.1 = key then row.2[column]? else none

theorem values_rowEntries (key k : κ) (column c : Nat) (xs : List ν) :
    values k c (rowEntries key column xs) =
      (if key = k ∧ column ≤ c then xs[c - column]? else none).toList := by
  induction xs generalizing column with
  | nil => split <;> rfl
  | cons x xs ih =>
    have hcons : values k c (rowEntries key column (x :: xs)) =
        (if (key, column) = (k, c) then [x] else []) ++ values k c (rowEntries key (column + 1) xs) := by
      rw [rowEntries, values, List.filterMap_cons]
      split <;> split <;> simp_all [values]
    rw [hcons, ih]
    simp only [Prod.mk.injEq]
    by_cases hkey : key = k
    · rcases Nat.lt_trichotomy column c with hlt | heq | hgt
      · have hsub : c - column = (c - (column + 1)) + 1 := by omega
        rw [if_neg fun h => Nat.ne_of_lt hlt h.2, if_pos ⟨hkey, hlt⟩, if_pos ⟨hkey, Nat.le_of_lt hlt⟩,
          hsub, List.getElem?_cons_succ]
        rfl
      · rw [if_pos ⟨hkey, heq⟩, if_neg fun h => Nat.ne_of_lt h.2 heq, if_pos ⟨hkey, Nat.le_of_eq heq⟩,
          heq, Nat.sub_self]
        rfl
      · rw [if_neg fun h => Nat.ne_of_gt hgt h.2, if_neg fun h => Nat.lt_asymm hgt h.2,
          if_neg fun h => Nat.not_le_of_gt hgt h.2]
        rfl
    · simp [hkey]

theorem values_entriesOf (key : κ) (column : Nat) (rows : List (κ × List ν)) :
    values key column (entriesOf rows) = columnOf key column rows := by
  induction rows with
  | nil => rfl
  | cons row rows ih =>
    have happend : values key column (entriesOf (row :: rows)) =
        values key column (rowEntries row.1 0 row.2) ++ values key column (entriesOf rows) := by
      rw [entriesOf, List.flatMap_cons, values, List.filterMap_append]
      rfl
    rw [happend, ih, values_rowEntries, columnOf, columnOf, List.filterMap_cons, Nat.sub_zero]
    by_cases hkey : row.1 = key
    · rw [if_pos ⟨hkey, Nat.zero_le _⟩, if_pos hkey]
      cases row.2[column]? <;> rfl
    · rw [if_neg fun h => hkey h.1, if_neg hkey]
      rfl

/-- The tally of exactly these entries. -/
structure Holds [Add ν] (t : Tally κ cmp ν) (entries : List ((κ × Nat) × ν)) : Prop where
  sum : ∀ key column, t.sum key column = sumOf (values key column entries)
  count : ∀ key column, t.count key column = countOf (values key column entries)
  keys : ∀ key ∈ t.iter, key ∈ t.data

/-- Every entry is the sum, and the count, of the values that the rows under its key have in its
column. -/
def Summarizes [Add ν] (t : Tally κ cmp ν) (rows : List (κ × List ν)) : Prop :=
  ∀ key column, t.sum key column = sumOf (columnOf key column rows) ∧
    t.count key column = countOf (columnOf key column rows)

theorem Holds.summarizes [Add ν] {t : Tally κ cmp ν} {rows : List (κ × List ν)} (h : Holds t (entriesOf rows)) :
    t.Summarizes rows := by
  intro key column
  rw [← values_entriesOf]
  exact ⟨h.sum key column, h.count key column⟩

end Holds

section Lookup

variable [TransCmp cmp]

@[simp] theorem sum_empty (key : κ) (column : Nat) :
    (empty : Tally κ cmp ν).sum key column = none := by
  rw [sum, empty, TreeMap.getElem?_emptyc, Option.bind_none]

@[simp] theorem count_empty (key : κ) (column : Nat) :
    (empty : Tally κ cmp ν).count key column = none := by
  rw [count, empty, TreeMap.getElem?_emptyc, Option.bind_none]

theorem getD_getElem? {β : Type*} (m : TreeMap κ (TreeMap Nat β) cmp) (key : κ) (column : Nat) :
    (m.getD key ∅)[column]? = m[key]?.bind (·[column]?) := by
  rw [TreeMap.getD_eq_getD_getElem?]
  cases m[key]? with
  | none => exact TreeMap.getElem?_emptyc
  | some columns => rfl

theorem holds_empty [Add ν] [DecidableEq κ] : Holds (empty : Tally κ cmp ν) [] where
  sum key column := sum_empty key column
  count key column := count_empty key column
  keys _ h := absurd h TreeMap.not_mem_emptyc

end Lookup

section Entries

variable [TransCmp cmp] [LawfulEqCmp cmp] [DecidableEq κ] {t}

theorem getElem?_insert {β : Type*} (m : TreeMap κ β cmp) (key k : κ) (v : β) :
    (m.insert key v)[k]? = if key = k then some v else m[k]? := by
  rw [TreeMap.getElem?_insert]
  by_cases heq : key = k
  · rw [if_pos heq, if_pos (LawfulEqCmp.compare_eq_iff_eq.mpr heq)]
  · rw [if_neg heq, if_neg (mt LawfulEqCmp.compare_eq_iff_eq.mp heq)]

/-- An entry written into columns of columns. -/
theorem bind_insert {β : Type*} (m : TreeMap κ (TreeMap Nat β) cmp) (key k : κ) (column c : Nat)
    (v : β) :
    (m.insert key ((m.getD key ∅).insert column v))[k]?.bind (·[c]?) =
      if key = k ∧ column = c then some v else m[k]?.bind (·[c]?) := by
  rw [getElem?_insert]
  by_cases hkey : key = k
  · subst hkey
    rw [if_pos rfl, Option.bind_some, getElem?_insert, getD_getElem?]
    simp
  · rw [if_neg hkey, if_neg fun h => hkey h.1]

theorem sum_add [Add ν] (key k : κ) (column c : Nat) (x : ν) :
    (t.add key column x).sum k c =
      if key = k ∧ column = c then some (push x (t.sum k c)) else t.sum k c := by
  have hsum : (t.data.getD key ∅)[column]? = t.sum key column := getD_getElem? _ _ _
  have hinsert : ∀ v, (t.data.insert key ((t.data.getD key ∅).insert column v))[k]?.bind (·[c]?) =
      if key = k ∧ column = c then some v else t.sum k c := bind_insert t.data key k column c
  unfold add
  dsimp only
  split <;>
  · rename_i heq
    rw [hsum] at heq
    rw [sum, hinsert]
    split
    · rename_i hsame
      rw [← hsame.1, ← hsame.2, heq, push]
    · rfl

theorem count_add [Add ν] (key k : κ) (column c : Nat) (x : ν) :
    (t.add key column x).count k c =
      if key = k ∧ column = c then
        some (if (t.sum k c).isSome then (t.count k c).getD 0 + 1 else 1)
      else t.count k c := by
  have hsum : (t.data.getD key ∅)[column]? = t.sum key column := getD_getElem? _ _ _
  have hcount : (t.iter.getD key ∅).getD column 0 = (t.count key column).getD 0 := by
    rw [TreeMap.getD_eq_getD_getElem?, getD_getElem?, count]
  have hinsert : ∀ v, (t.iter.insert key ((t.iter.getD key ∅).insert column v))[k]?.bind (·[c]?) =
      if key = k ∧ column = c then some v else t.count k c := bind_insert t.iter key k column c
  unfold add
  dsimp only
  split <;>
  · rename_i heq
    rw [hsum] at heq
    rw [count, hinsert]
    split
    · rename_i hsame
      rw [← hsame.1, ← hsame.2, heq]
      first | rfl | rw [hcount]; rfl
    · rfl

variable [Add ν] {entries : List ((κ × Nat) × ν)}

/-- Empty columns hold no value. -/
theorem bind_insert_empty {β : Type*} {m : TreeMap κ (TreeMap Nat β) cmp} {key : κ}
    (hkey : key ∉ m) (k : κ) (c : Nat) :
    (m.insert key ∅)[k]?.bind (·[c]?) = m[k]?.bind (·[c]?) := by
  rw [getElem?_insert]
  split
  · rename_i heq
    rw [← heq, TreeMap.getElem?_eq_none hkey]
    exact TreeMap.getElem?_emptyc
  · rfl

theorem Holds.enter (h : Holds t entries) (key : κ) : Holds (t.enter key) entries := by
  unfold Tally.enter
  split
  · exact h
  · rename_i hdata
    have hiter : key ∉ t.iter := fun hmem => hdata (h.keys key hmem)
    refine ⟨fun k c => ?_, fun k c => ?_, fun k hk => ?_⟩
    · rw [← h.sum]
      exact bind_insert_empty hdata k c
    · rw [← h.count]
      exact bind_insert_empty hiter k c
    · rw [TreeMap.mem_insert] at hk ⊢
      exact hk.imp_right (h.keys k)

theorem Holds.add (h : Holds t entries) (key : κ) (column : Nat) (x : ν) :
    Holds (t.add key column x) (entries ++ [((key, column), x)]) where
  sum k c := by
    rw [sum_add, values_append_singleton]
    split
    · rw [sumOf_append_singleton, h.sum]
    · exact h.sum k c
  count k c := by
    rw [count_add, values_append_singleton]
    split
    · rw [countOf_append_singleton, h.sum, h.count]
      cases values k c entries <;> rfl
    · exact h.count k c
  keys k hk := by
    unfold Tally.add at hk ⊢
    dsimp only at hk ⊢
    split at hk <;>
    · rw [TreeMap.mem_insert] at hk ⊢
      exact hk.imp_right (h.keys k)

theorem Holds.addRow (h : Holds t entries) (key : κ) (column : Nat) (xs : List ν) :
    Holds (t.addRow key column xs) (entries ++ rowEntries key column xs) := by
  induction xs generalizing t entries column with
  | nil =>
    rw [rowEntries, List.append_nil]
    exact h
  | cons x xs ih =>
    have hrest := ih (h.add key column x) (column + 1)
    rw [List.append_assoc] at hrest
    exact hrest

/-- One more row, under a key that may be new. -/
theorem Holds.row {rows : List (κ × List ν)} (h : Holds t (entriesOf rows)) (key : κ) (xs : List ν) :
    Holds ((t.enter key).addRow key 0 xs) (entriesOf (rows ++ [(key, xs)])) := by
  have hrow := (h.enter key).addRow key 0 xs
  rwa [entriesOf, List.flatMap_append, List.flatMap_singleton]

end Entries

end Tally
