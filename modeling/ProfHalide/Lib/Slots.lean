import ProfHalide.Lib.Machine
import Mathlib.Data.List.FinRange
import Mathlib.Data.Finset.Card
import Mathlib.Logic.Function.Basic

/-!
# Slots handed out on first use

A table of `n` slots, each of them free or owned by a key, where a key that owns none gets the first free
one. No slot is ever given back, so the table is the list of its owners in the order of their first use.
-/

namespace Slots

variable {κ : Type*} {n : Nat}

def firstFree (t : Fin n → Option κ) : Option (Fin n) :=
  (List.finRange n).find? fun i => (t i).isNone

/-- The slots are owned by `ks`, in this order, and the others are free. -/
structure OwnedBy (t : Fin n → Option κ) (ks : List κ) : Prop where
  nodup : ks.Nodup
  length_le : ks.length ≤ n
  get : ∀ i : Fin n, t i = ks[i.val]?

variable {t : Fin n → Option κ} {ks : List κ} {k : κ} {i : Fin n}

theorem firstFree_eq_none_iff : firstFree t = none ↔ ∀ i, t i ≠ none := by
  rw [firstFree, List.find?_eq_none]
  simp [Option.isNone_iff_eq_none]

/-- The slots before a slot are the lower ones. -/
theorem mem_before_of_lt {i j : Fin n} {before after : List (Fin n)}
    (h : List.finRange n = before ++ i :: after) (hlt : j < i) : j ∈ before := by
  have hsorted := List.pairwise_lt_finRange n
  have hall := List.mem_finRange j
  rw [h, List.pairwise_append] at hsorted
  rw [h, List.mem_append, List.mem_cons] at hall
  rcases hall with hall | rfl | hall
  · exact hall
  · exact absurd hlt (Fin.lt_irrefl j)
  · exact absurd hlt (Fin.not_lt.mpr (Fin.le_of_lt (List.rel_of_pairwise_cons hsorted.2.1 hall)))

namespace OwnedBy

theorem empty : OwnedBy (fun _ : Fin n => none) ([] : List κ) where
  nodup := List.nodup_nil
  length_le := Nat.zero_le n
  get _ := rfl

theorem unique {t' : Fin n → Option κ} (h : OwnedBy t ks) (h' : OwnedBy t' ks) : t = t' := by
  funext i
  rw [h.get, h'.get]

theorem eq_of_get (h : OwnedBy t ks) {j : Fin n} (hi : t i = some k) (hj : t j = some k) : i = j := by
  rw [h.get] at hi hj
  obtain ⟨hi', hki⟩ := List.getElem?_eq_some_iff.mp hi
  obtain ⟨hj', hkj⟩ := List.getElem?_eq_some_iff.mp hj
  exact Fin.ext ((h.nodup.getElem_inj_iff).mp (hki.trans hkj.symm))

theorem mem_iff (h : OwnedBy t ks) : k ∈ ks ↔ ∃ i, t i = some k := by
  constructor
  · intro hmem
    obtain ⟨i, hi, hk⟩ := List.mem_iff_getElem.mp hmem
    refine ⟨⟨i, Nat.lt_of_lt_of_le hi h.length_le⟩, ?_⟩
    rw [h.get, List.getElem?_eq_getElem hi, hk]
  · intro hget
    obtain ⟨i, hi⟩ := hget
    rw [h.get] at hi
    exact List.mem_of_getElem? hi

theorem firstFree_of_lt (h : OwnedBy t ks) (hlt : ks.length < n) :
    firstFree t = some ⟨ks.length, hlt⟩ := by
  have hfree : t ⟨ks.length, hlt⟩ = none := by
    rw [h.get]
    exact List.getElem?_eq_none (Nat.le_refl _)
  cases hfirst : firstFree t with
  | none => exact absurd hfree (firstFree_eq_none_iff.mp hfirst _)
  | some i =>
    -- The slot found is free, so it is not before the end, and no slot before it is free.
    obtain ⟨hi, before, after, heq, hbefore⟩ := List.find?_eq_some_iff_append.mp hfirst
    have hle : ks.length ≤ i.val := by
      rw [Option.isNone_iff_eq_none, h.get] at hi
      exact List.getElem?_eq_none_iff.mp hi
    refine congrArg some (Fin.ext (Nat.le_antisymm ?_ hle))
    by_contra hgt
    have hbelow : (⟨ks.length, hlt⟩ : Fin n) < i := Fin.lt_def.mpr (Nat.lt_of_not_le hgt)
    have hnot := hbefore _ (mem_before_of_lt heq hbelow)
    simp [hfree] at hnot

theorem firstFree_eq_none_iff (h : OwnedBy t ks) : firstFree t = none ↔ ks.length = n := by
  constructor
  · intro hnone
    by_contra hne
    rw [h.firstFree_of_lt (Nat.lt_of_le_of_ne h.length_le hne)] at hnone
    cases hnone
  · intro hlength
    rw [Slots.firstFree_eq_none_iff]
    intro i hi
    rw [h.get, List.getElem?_eq_none_iff] at hi
    omega

theorem append (h : OwnedBy t ks) (hk : k ∉ ks) (hlt : ks.length < n) :
    OwnedBy (Function.update t ⟨ks.length, hlt⟩ (some k)) (ks ++ [k]) where
  nodup := List.nodup_append.mpr ⟨h.nodup, List.nodup_singleton k, fun a ha b hb heq => by
    rw [List.mem_singleton] at hb
    exact hk (hb ▸ heq ▸ ha)⟩
  length_le := by
    rw [List.length_append]
    exact hlt
  get i := by
    by_cases hi : i = ⟨ks.length, hlt⟩
    · rw [hi, Function.update_self]
      simp
    · have hval : i.val ≠ ks.length := fun heq => hi (Fin.ext heq)
      rw [Function.update_of_ne hi, h.get]
      rcases Nat.lt_or_gt_of_ne hval with hlt | hgt
      · rw [List.getElem?_append_left hlt]
      · rw [List.getElem?_eq_none (Nat.le_of_lt hgt), List.getElem?_eq_none]
        simp only [List.length_append, List.length_singleton]
        omega

end OwnedBy

variable [DecidableEq κ]

def find (t : Fin n → Option κ) (k : κ) : Option (Fin n) :=
  (List.finRange n).find? fun i => t i == some k

theorem eq_some_of_find (h : find t k = some i) : t i = some k := by
  have hfound := List.find?_some h
  simpa using hfound

theorem find_eq_none_iff : find t k = none ↔ ∀ i, t i ≠ some k := by
  rw [find, List.find?_eq_none]
  simp

theorem OwnedBy.find_eq_some_iff (h : OwnedBy t ks) : find t k = some i ↔ t i = some k := by
  refine ⟨eq_some_of_find, fun hi => ?_⟩
  cases hfind : find t k with
  | none => exact absurd hi (Slots.find_eq_none_iff.mp hfind i)
  | some j => rw [h.eq_of_get (eq_some_of_find hfind) hi]

theorem OwnedBy.find_eq_none_iff (h : OwnedBy t ks) : find t k = none ↔ k ∉ ks := by
  rw [Slots.find_eq_none_iff, h.mem_iff]
  exact not_exists.symm

/-! ### Machines that hand out slots

Every input has a key. Inputs of old keys, and of new ones while there are slots, are dealt with as `P`
says exactly if they are good, and inputs of new keys that find no slot are not. -/

open Machine

variable {σ ι ω : Type*} {step : σ → ι → Option (σ × List ω)} {P : σ → ι → σ → List ω → Prop}
  {allowed good : ι → Prop} {key : ι → κ} {inv : σ → List κ → Prop}

/-- One input of each kind. -/
structure HandsOut (step : σ → ι → Option (σ × List ω)) (P : σ → ι → σ → List ω → Prop)
    (allowed good : ι → Prop) (key : ι → κ) (n : Nat) (inv : σ → List κ → Prop) : Prop where
  bound : ∀ s ks, inv s ks → ks.Nodup ∧ ks.length ≤ n
  old : ∀ s ks i, inv s ks → allowed i → key i ∈ ks →
    ∃ s' out, step s i = some (s', out) ∧ (P s i s' out ↔ good i) ∧ inv s' ks
  new : ∀ s ks i, inv s ks → allowed i → key i ∉ ks → ks.length < n →
    ∃ s' out, step s i = some (s', out) ∧ (P s i s' out ↔ good i) ∧ inv s' (ks ++ [key i])
  full : ∀ s ks i, inv s ks → allowed i → key i ∉ ks → ks.length = n →
    ∀ s' out, step s i = some (s', out) → ¬ P s i s' out

/-- All inputs are dealt with exactly if they are good and there are no more keys than slots. -/
theorem HandsOut.along_iff (h : HandsOut step P allowed good key n inv) {s : σ} (ks : List κ) (is : List ι)
    (hallowed : ∀ i ∈ is, allowed i) (hs : inv s ks) :
    Along step P s is ↔ (ks ++ is.map key).toFinset.card ≤ n ∧ ∀ i ∈ is, good i := by
  induction is generalizing s ks with
  | nil =>
    obtain ⟨hnodup, hlength⟩ := h.bound s ks hs
    rw [List.map_nil, List.append_nil, List.toFinset_card_of_nodup hnodup]
    exact iff_of_true trivial ⟨hlength, nofun⟩
  | cons i is ih =>
    have hi := hallowed i (List.mem_cons_self ..)
    have hlater := fun j hj => hallowed j (List.mem_cons_of_mem _ hj)
    -- An input that finds a slot leaves the question to the inputs after it.
    have hnext : ∀ {ks' : List κ},
        (∃ s' out, step s i = some (s', out) ∧ (P s i s' out ↔ good i) ∧ inv s' ks') →
        (Along step P s (i :: is) ↔ (ks' ++ is.map key).toFinset.card ≤ n ∧ ∀ j ∈ i :: is, good j) := by
      intro ks' hstep
      obtain ⟨s', out, hanswer, hP, hs'⟩ := hstep
      have hrest := ih ks' hlater hs'
      rw [List.forall_mem_cons]
      constructor
      · intro halong
        obtain ⟨s₁, out₁, hanswer₁, hP₁, hrest₁⟩ := halong
        rw [hanswer] at hanswer₁
        cases hanswer₁
        obtain ⟨hcard, hgood⟩ := hrest.mp hrest₁
        exact ⟨hcard, hP.mp hP₁, hgood⟩
      · rintro ⟨hcard, hgood, hgoods⟩
        exact ⟨s', out, hanswer, hP.mpr hgood, hrest.mpr ⟨hcard, hgoods⟩⟩
    by_cases hmem : key i ∈ ks
    · rw [hnext (h.old s ks i hs hi hmem)]
      have hsame : (ks ++ (i :: is).map key).toFinset = (ks ++ is.map key).toFinset := by
        ext k
        simp only [List.map_cons, List.mem_toFinset, List.mem_append, List.mem_cons]
        constructor
        · rintro (hk | rfl | hk)
          · exact Or.inl hk
          · exact Or.inl hmem
          · exact Or.inr hk
        · exact Or.imp_right Or.inr
      rw [hsame]
    · obtain ⟨hnodup, hlength⟩ := h.bound s ks hs
      rcases Nat.lt_or_eq_of_le hlength with hlt | hfull
      · rw [hnext (h.new s ks i hs hi hmem hlt), List.append_assoc, List.singleton_append, List.map_cons]
      · refine iff_of_false (fun halong => ?_) (fun hcard => ?_)
        · obtain ⟨s', out, hanswer, hP, _⟩ := halong
          exact h.full s ks i hs hi hmem hfull s' out hanswer hP
        · have hsubset : (key i :: ks).toFinset ⊆ (ks ++ (i :: is).map key).toFinset := by
            intro k hk
            simp only [List.mem_toFinset, List.mem_cons, List.map_cons, List.mem_append] at hk ⊢
            exact hk.symm.imp_right Or.inl
          have hle := Finset.card_le_card hsubset
          rw [List.toFinset_card_of_nodup (List.nodup_cons.mpr ⟨hmem, hnodup⟩), List.length_cons] at hle
          omega

end Slots
