import Std.Data.TreeMap
import Mathlib.Data.List.Nodup
import Mathlib.Data.List.Perm.Subperm

/-!
# Numbering names

A map from names to numbers that hands out its own size as the next number. While no name is
numbered twice, the numbers are those below the size, each with one name. Numbering a name again
overwrites its number, and the numbers handed out agree with the final map only if that never
happens.
-/

namespace Numbering

open Std

variable {α : Type*} {cmp : α → α → Ordering}

/-- Give a name the next number. -/
def number (m : TreeMap α Nat cmp) (x : α) : TreeMap α Nat cmp := m.insert x m.size

/-- Number the names in order. -/
def register (m : TreeMap α Nat cmp) (names : List α) : TreeMap α Nat cmp := names.foldl number m

/-- The numbers handed out on the way. -/
def assign (m : TreeMap α Nat cmp) : List α → List (Nat × α)
  | [] => []
  | x :: names => (m.size, x) :: assign (number m x) names

@[simp] theorem register_cons (m : TreeMap α Nat cmp) (x : α) (names : List α) :
    register m (x :: names) = register (number m x) names := rfl

theorem register_append (m : TreeMap α Nat cmp) (names rest : List α) :
    register m (names ++ rest) = register (register m names) rest := List.foldl_append

theorem assign_append (m : TreeMap α Nat cmp) (names rest : List α) :
    assign m (names ++ rest) = assign m names ++ assign (register m names) rest := by
  induction names generalizing m with
  | nil => rfl
  | cons x names ih =>
    rw [List.cons_append, assign, ih]
    rfl

variable [TransCmp cmp]

@[simp] theorem getElem?_number_self (m : TreeMap α Nat cmp) (x : α) :
    (number m x)[x]? = some m.size := TreeMap.getElem?_insert_self

theorem size_number (m : TreeMap α Nat cmp) {x : α} (hx : m[x]? = none) :
    (number m x).size = m.size + 1 := by
  have hcontains : m.contains x = false := by
    rw [TreeMap.contains_eq_isSome_getElem?, hx]
    rfl
  rw [number, TreeMap.size_insert, hcontains]
  rfl

/-- The numbers are below the size, and no two names share one. -/
structure Numbered (m : TreeMap α Nat cmp) : Prop where
  lt : ∀ (x : α) i, m[x]? = some i → i < m.size
  inj : ∀ (x y : α) i, m[x]? = some i → m[y]? = some i → x = y

theorem numbered_empty : Numbered (∅ : TreeMap α Nat cmp) where
  lt x i h := by simp at h
  inj x y i h := by simp at h

variable [LawfulEqCmp cmp]

theorem getElem?_number_of_ne (m : TreeMap α Nat cmp) {x y : α} (hne : x ≠ y) :
    (number m x)[y]? = m[y]? := by
  rw [number, TreeMap.getElem?_insert, if_neg]
  intro heq
  exact hne (LawfulEqCmp.eq_of_compare heq)

theorem Numbered.number {m : TreeMap α Nat cmp} (h : Numbered m) {x : α} (hx : m[x]? = none) :
    Numbered (number m x) := by
  have hsize := size_number m hx
  have hcases : ∀ y i, (Numbering.number m x)[y]? = some i →
      (x = y ∧ i = m.size) ∨ (x ≠ y ∧ m[y]? = some i) := by
    intro y i hy
    by_cases hxy : x = y
    · subst hxy
      rw [getElem?_number_self] at hy
      exact Or.inl ⟨rfl, (Option.some.inj hy).symm⟩
    · rw [getElem?_number_of_ne m hxy] at hy
      exact Or.inr ⟨hxy, hy⟩
  refine ⟨fun y i hy => ?_, fun y z i hy hz => ?_⟩
  · rcases hcases y i hy with ⟨_, hi⟩ | ⟨_, hy⟩
    · omega
    · have hlt := h.lt y i hy
      omega
  · rcases hcases y i hy with ⟨hy, hi⟩ | ⟨_, hy⟩ <;> rcases hcases z i hz with ⟨hz, hi'⟩ | ⟨_, hz⟩
    · rw [← hy, hz]
    · have hlt := h.lt z i hz
      omega
    · have hlt := h.lt y i hy
      omega
    · exact h.inj y z i hy hz

theorem getElem?_register_of_not_mem (m : TreeMap α Nat cmp) {x : α} {names : List α}
    (hx : x ∉ names) : (register m names)[x]? = m[x]? := by
  induction names generalizing m with
  | nil => rfl
  | cons y names ih =>
    rw [List.mem_cons, not_or] at hx
    rw [register_cons, ih _ hx.2, getElem?_number_of_ne m (Ne.symm hx.1)]

/-- Names of which none has a number yet, each once. -/
def Fresh (m : TreeMap α Nat cmp) (names : List α) : Prop :=
  names.Nodup ∧ ∀ x ∈ names, m[x]? = none

theorem Fresh.tail {m : TreeMap α Nat cmp} {x : α} {names : List α} (h : Fresh m (x :: names)) :
    m[x]? = none ∧ Fresh (number m x) names := by
  obtain ⟨hnodup, hnone⟩ := h
  rw [List.nodup_cons] at hnodup
  refine ⟨hnone x List.mem_cons_self, hnodup.2, fun y hy => ?_⟩
  have hne : x ≠ y := fun hxy => hnodup.1 (hxy ▸ hy)
  rw [getElem?_number_of_ne m hne]
  exact hnone y (List.mem_cons_of_mem x hy)

theorem Fresh.cons {m : TreeMap α Nat cmp} {x : α} {names : List α} (h : Fresh (number m x) names)
    (hx : m[x]? = none) : Fresh m (x :: names) := by
  have hnotMem : x ∉ names := by
    intro hmem
    have hnone := h.2 x hmem
    rw [getElem?_number_self] at hnone
    cases hnone
  refine ⟨List.nodup_cons.mpr ⟨hnotMem, h.1⟩, fun y hy => ?_⟩
  rcases List.mem_cons.mp hy with hy | hy
  · rw [hy, hx]
  · have hne : x ≠ y := fun hxy => hnotMem (hxy ▸ hy)
    rw [← getElem?_number_of_ne m hne]
    exact h.2 y hy

theorem Numbered.register {m : TreeMap α Nat cmp} (h : Numbered m) {names : List α}
    (hfresh : Fresh m names) : Numbered (register m names) := by
  induction names generalizing m with
  | nil => exact h
  | cons x names ih =>
    obtain ⟨hx, htail⟩ := hfresh.tail
    exact ih (h.number hx) htail

/-- Fresh names keep the numbers handed out to them. -/
theorem register_of_mem_assign {m : TreeMap α Nat cmp} {names : List α} (hfresh : Fresh m names) :
    ∀ p ∈ assign m names, (register m names)[p.2]? = some p.1 := by
  induction names generalizing m with
  | nil => simp [assign]
  | cons x names ih =>
    obtain ⟨_, htail⟩ := hfresh.tail
    intro p hp
    rw [assign, List.mem_cons] at hp
    rcases hp with hp | hp
    · subst hp
      have hnotMem : x ∉ names := (List.nodup_cons.mp hfresh.1).1
      rw [register_cons, getElem?_register_of_not_mem _ hnotMem, getElem?_number_self]
    · exact ih htail p hp

/-- If every number handed out is still the one in the final map, then so the names were fresh. -/
theorem fresh_of_assign {m : TreeMap α Nat cmp} {names : List α}
    (hold : ∀ (x : α) i, m[x]? = some i → i < m.size ∧ (register m names)[x]? = some i)
    (hassign : ∀ p ∈ assign m names, (register m names)[p.2]? = some p.1) : Fresh m names := by
  induction names generalizing m with
  | nil => exact ⟨List.nodup_nil, by simp⟩
  | cons x names ih =>
    have hfinal : (register m (x :: names))[x]? = some m.size :=
      hassign (m.size, x) (by simp [assign])
    have hx : m[x]? = none := by
      cases hm : m[x]? with
      | none => rfl
      | some i =>
        obtain ⟨hlt, hi⟩ := hold x i hm
        rw [hfinal] at hi
        have heq := Option.some.inj hi
        omega
    have hsize := size_number m hx
    have htail : Fresh (number m x) names := by
      refine ih (fun y i hy => ?_) fun p hp => hassign p (by simp [assign, hp])
      by_cases hxy : x = y
      · subst hxy
        rw [getElem?_number_self] at hy
        have heq := Option.some.inj hy
        exact ⟨by omega, by rw [← heq]; exact hfinal⟩
      · rw [getElem?_number_of_ne m hxy] at hy
        obtain ⟨hlt, hi⟩ := hold y i hy
        exact ⟨by omega, hi⟩
    exact htail.cons hx

/-! ### Tables indexed by the numbers -/

/-- A table of `n` entries is filled entry by entry exactly by the numbers below `n`, in some order. -/
theorem perm_range_iff {l : List Nat} {n : Nat} :
    l.Perm (List.range n) ↔ (∀ i < n, l.count i = 1) ∧ ∀ i ∈ l, i < n := by
  rw [List.perm_iff_count]
  constructor
  · intro h
    refine ⟨fun i hi => ?_, fun i hi => ?_⟩
    · rw [h, List.count_range, if_pos hi]
    · have hpos := List.count_pos_iff.mpr hi
      rw [h, List.count_pos_iff, List.mem_range] at hpos
      exact hpos
  · rintro ⟨hone, hlt⟩ i
    rw [List.count_range]
    split
    case isTrue hi => exact hone i hi
    case isFalse hi => exact List.count_eq_zero.mpr fun hmem => hi (hlt i hmem)

/-- The names of a numbered map fill a table of its size. -/
theorem Numbered.perm_range {m : TreeMap α Nat cmp} (h : Numbered m) :
    (m.toList.map Prod.snd).Perm (List.range m.size) := by
  have hget : ∀ p ∈ m.toList, m[p.1]? = some p.2 := fun p hp =>
    TreeMap.mem_toList_iff_getElem?_eq_some.mp hp
  have hnodup : (m.toList.map Prod.snd).Nodup := by
    refine List.Nodup.map_on (fun p hp q hq heq => ?_)
      (TreeMap.distinct_keys_toList.imp fun hne heq => hne (by rw [heq]; exact ReflCmp.compare_self))
    have hq' := hget q hq
    rw [← heq] at hq'
    exact Prod.ext (h.inj p.1 q.1 p.2 (hget p hp) hq') heq
  have hsubset : m.toList.map Prod.snd ⊆ List.range m.size := by
    intro i hi
    obtain ⟨p, hp, rfl⟩ := List.mem_map.mp hi
    exact List.mem_range.mpr (h.lt p.1 p.2 (hget p hp))
  have hlength : (List.range m.size).length = (m.toList.map Prod.snd).length := by
    rw [List.length_range, List.length_map, TreeMap.length_toList]
  exact (List.subperm_of_subset hnodup hsubset).perm_of_length_le (Nat.le_of_eq hlength)

/-- A number below the size that no name has any more is not handed out again. -/
theorem register_unused {m : TreeMap α Nat cmp} {i : Nat} (hlt : i < m.size)
    (hunused : ∀ x : α, m[x]? ≠ some i) (names : List α) :
    i < (register m names).size ∧ ∀ x : α, (register m names)[x]? ≠ some i := by
  induction names generalizing m with
  | nil => exact ⟨hlt, hunused⟩
  | cons x names ih =>
    refine ih (Nat.lt_of_lt_of_le hlt TreeMap.size_le_size_insert) fun y => ?_
    by_cases hxy : x = y
    · subst hxy
      rw [getElem?_number_self]
      intro heq
      have hsize := Option.some.inj heq
      omega
    · rw [getElem?_number_of_ne m hxy]
      exact hunused y

/-- Numbering a name again leaves its old number to nobody. If in the end every number has a name,
the names were fresh. -/
theorem fresh_of_onto {m : TreeMap α Nat cmp} (h : Numbered m) {names : List α}
    (honto : ∀ i < (register m names).size, ∃ x : α, (register m names)[x]? = some i) :
    Fresh m names := by
  induction names generalizing m with
  | nil => exact ⟨List.nodup_nil, by simp⟩
  | cons x names ih =>
    cases hx : m[x]? with
    | none => exact (ih (h.number hx) honto).cons hx
    | some i =>
      have hi := h.lt x i hx
      have hunused : ∀ y : α, (number m x)[y]? ≠ some i := by
        intro y
        by_cases hxy : x = y
        · subst hxy
          rw [getElem?_number_self]
          intro heq
          have hsize := Option.some.inj heq
          omega
        · rw [getElem?_number_of_ne m hxy]
          exact fun hy => hxy (h.inj x y i hx hy)
      obtain ⟨hlt, hnone⟩ :=
        register_unused (Nat.lt_of_lt_of_le hi TreeMap.size_le_size_insert) hunused names
      obtain ⟨y, hy⟩ := honto i hlt
      exact absurd hy (hnone y)

/-- The numbers handed out to fresh names continue those of the map. -/
theorem map_fst_assign {m : TreeMap α Nat cmp} {names : List α} (hfresh : Fresh m names) :
    (assign m names).map Prod.fst = List.range' m.size names.length ∧
      (register m names).size = m.size + names.length := by
  induction names generalizing m with
  | nil => exact ⟨rfl, rfl⟩
  | cons x names ih =>
    obtain ⟨hx, htail⟩ := hfresh.tail
    obtain ⟨hassign, hsize⟩ := ih htail
    rw [size_number m hx] at hassign hsize
    refine ⟨?_, ?_⟩
    · rw [assign, List.map_cons, hassign, List.length_cons, List.range'_succ]
    · rw [register_cons, hsize, List.length_cons]
      omega

end Numbering
