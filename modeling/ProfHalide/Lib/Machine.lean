import Mathlib.Data.List.Basic

/-!
# Partial machines with output

A machine answers an input with a next state and some outputs, or does not answer. Two things are said
about its runs: what holds of every step along a run, and that an invariant which every permitted input
can be answered under is kept until the end.
-/

namespace Machine

variable {σ ι ω : Type*}

def run (step : σ → ι → Option (σ × List ω)) : σ → List ι → Option (σ × List ω)
  | s, [] => some (s, [])
  | s, i :: is => (step s i).bind fun r => (run step r.1 is).map fun r' => (r'.1, r.2 ++ r'.2)

variable {step : σ → ι → Option (σ × List ω)}

theorem run_cons {s s' : σ} {i : ι} {out : List ω} (h : step s i = some (s', out)) (is : List ι) :
    run step s (i :: is) = (run step s' is).map fun r => (r.1, out ++ r.2) := by
  rw [run, h]
  rfl

theorem run_cons_eq_some {s s' : σ} {i : ι} {is : List ι} {out : List ω}
    (h : run step s (i :: is) = some (s', out)) : ∃ s₁ out₁ out₂, step s i = some (s₁, out₁) ∧
      run step s₁ is = some (s', out₂) ∧ out = out₁ ++ out₂ := by
  rw [run] at h
  obtain ⟨⟨s₁, out₁⟩, hstep, hrest⟩ := Option.bind_eq_some_iff.mp h
  obtain ⟨⟨s₂, out₂⟩, hrun, heq⟩ := Option.map_eq_some_iff.mp hrest
  cases heq
  exact ⟨s₁, out₁, out₂, hstep, hrun, rfl⟩

theorem run_append (s : σ) (is js : List ι) :
    run step s (is ++ js) = (run step s is).bind fun r =>
      (run step r.1 js).map fun r' => (r'.1, r.2 ++ r'.2) := by
  induction is generalizing s with
  | nil => cases h : run step s js <;> simp [run, h]
  | cons i is ih =>
    cases hi : step s i with
    | none => simp [run, hi]
    | some next =>
      obtain ⟨s', out⟩ := next
      rw [List.cons_append, run_cons hi, run_cons hi, ih s']
      cases run step s' is with
      | none => rfl
      | some r => cases h : run step r.1 js <;> simp [h]

theorem run_append_eq_some {s s' : σ} {is js : List ι} {out : List ω}
    (h : run step s (is ++ js) = some (s', out)) : ∃ s₁ out₁ out₂, run step s is = some (s₁, out₁) ∧
      run step s₁ js = some (s', out₂) ∧ out = out₁ ++ out₂ := by
  rw [run_append] at h
  obtain ⟨⟨s₁, out₁⟩, hfirst, hrest⟩ := Option.bind_eq_some_iff.mp h
  obtain ⟨⟨s₂, out₂⟩, hrun, heq⟩ := Option.map_eq_some_iff.mp hrest
  cases heq
  exact ⟨s₁, out₁, out₂, hfirst, hrun, rfl⟩

/-- What every step keeps that answers an input of a kind, a run over such inputs keeps. -/
theorem run_keeps {inv : σ → Prop} {allowed : ι → Prop}
    (hkeep : ∀ s i s' out, inv s → allowed i → step s i = some (s', out) → inv s') {s s' : σ}
    {is : List ι} {out : List ω} (hallowed : ∀ i ∈ is, allowed i) (hs : inv s)
    (hrun : run step s is = some (s', out)) : inv s' := by
  induction is generalizing s out with
  | nil =>
    cases hrun
    exact hs
  | cons i is ih =>
    obtain ⟨s₁, _, _, hstep, hrest, _⟩ := run_cons_eq_some hrun
    exact ih (fun i hi => hallowed i (List.mem_cons_of_mem _ hi))
      (hkeep s i s₁ _ hs (hallowed i List.mem_cons_self) hstep) hrest

/-- What steps do to all that is seen of a state, runs do. -/
theorem run_map_congr {τ : Type*} (view : σ → τ)
    (h : ∀ s s' i, view s = view s' →
      (step s i).map (Prod.map view id) = (step s' i).map (Prod.map view id))
    {s s' : σ} (hview : view s = view s') (is : List ι) :
    (run step s is).map (Prod.map view id) = (run step s' is).map (Prod.map view id) := by
  induction is generalizing s s' with
  | nil => rw [run, run, Option.map_some, Option.map_some, Prod.map_apply, Prod.map_apply, hview]
  | cons i is ih =>
    have hstep := h s s' i hview
    cases hs : step s i with
    | none =>
      rw [hs, Option.map_none, eq_comm, Option.map_eq_none_iff] at hstep
      rw [run, run, hs, hstep]
    | some r =>
      rw [hs, Option.map_some, eq_comm, Option.map_eq_some_iff] at hstep
      obtain ⟨r', hs', heq⟩ := hstep
      obtain ⟨hview', hout⟩ := Prod.mk.inj heq
      have hrest := congrArg (Option.map fun next => (next.1, r.2 ++ next.2)) (ih hview'.symm)
      rw [Option.map_map, Option.map_map] at hrest
      rw [run_cons hs, run_cons hs', Option.map_map, Option.map_map]
      have hsame : r'.2 = r.2 := hout
      rw [hsame]
      exact hrest

/-- From states in which the same is seen, runs end in such states, with the same outputs. -/
theorem run_alike {τ : Type*} (view : σ → τ)
    (h : ∀ s s' i, view s = view s' →
      (step s i).map (Prod.map view id) = (step s' i).map (Prod.map view id))
    {s s' : σ} (hview : view s = view s') (is : List ι) :
    (run step s is = none ∧ run step s' is = none) ∨ ∃ t t' out, run step s is = some (t, out) ∧
      run step s' is = some (t', out) ∧ view t = view t' := by
  have hrun := run_map_congr view h hview is
  cases hs : run step s is with
  | none =>
    rw [hs, Option.map_none, eq_comm, Option.map_eq_none_iff] at hrun
    exact Or.inl ⟨rfl, hrun⟩
  | some r =>
    obtain ⟨t, out⟩ := r
    rw [hs, Option.map_some, eq_comm, Option.map_eq_some_iff] at hrun
    obtain ⟨⟨t', out'⟩, ht, heq⟩ := hrun
    obtain ⟨hseen, rfl⟩ := Prod.mk.inj heq
    exact Or.inr ⟨t, t', out', rfl, ht, hseen.symm⟩

/-- Every input is answered, by a step that `P` holds of. -/
def Along (step : σ → ι → Option (σ × List ω)) (P : σ → ι → σ → List ω → Prop) : σ → List ι → Prop
  | _, [] => True
  | s, i :: is => ∃ s' out, step s i = some (s', out) ∧ P s i s' out ∧ Along step P s' is

/-- Every input is permitted in the state that it meets. -/
def Admits (step : σ → ι → Option (σ × List ω)) (allowed : σ → ι → Prop) : σ → List ι → Prop
  | _, [] => True
  | s, i :: is => allowed s i ∧ ∀ s' out, step s i = some (s', out) → Admits step allowed s' is

variable {P : σ → ι → σ → List ω → Prop} {allowed : σ → ι → Prop}

theorem Along.mono {Q : σ → ι → σ → List ω → Prop} (h : ∀ s i s' out, P s i s' out → Q s i s' out)
    {s : σ} {is : List ι} (hP : Along step P s is) : Along step Q s is := by
  induction is generalizing s with
  | nil => trivial
  | cons i is ih =>
    obtain ⟨s', out, hstep, hp, hrest⟩ := hP
    exact ⟨s', out, hstep, h s i s' out hp, ih hrest⟩

/-- Two properties of steps that agree while an invariant holds, which steps with the second keep. -/
theorem along_congr {Q : σ → ι → σ → List ω → Prop} (inv : σ → Prop)
    (hstep : ∀ s i s' out, inv s → step s i = some (s', out) → (P s i s' out ↔ Q s i s' out))
    (hkeep : ∀ s i s' out, inv s → step s i = some (s', out) → Q s i s' out → inv s')
    {s : σ} (is : List ι) (hs : inv s) : Along step P s is ↔ Along step Q s is := by
  induction is generalizing s with
  | nil => exact Iff.rfl
  | cons i is ih =>
    constructor
    · intro h
      obtain ⟨s', out, hanswer, hP, hrest⟩ := h
      have hQ := (hstep s i s' out hs hanswer).mp hP
      exact ⟨s', out, hanswer, hQ, (ih (hkeep s i s' out hs hanswer hQ)).mp hrest⟩
    · intro h
      obtain ⟨s', out, hanswer, hQ, hrest⟩ := h
      have hP := (hstep s i s' out hs hanswer).mpr hQ
      exact ⟨s', out, hanswer, hP, (ih (hkeep s i s' out hs hanswer hQ)).mpr hrest⟩

/-- An invariant under which every permitted input is answered as `P` says, and which such steps keep,
holds until the end of a run of permitted inputs, with `P` along the way. -/
theorem Admits.along (inv : σ → Prop)
    (hstep : ∀ s i, inv s → allowed s i → ∃ s' out, step s i = some (s', out) ∧ P s i s' out ∧ inv s')
    {s : σ} {is : List ι} (h : Admits step allowed s is) (hs : inv s) :
    Along step (fun s i s' out => P s i s' out ∧ inv s ∧ inv s') s is := by
  induction is generalizing s with
  | nil => trivial
  | cons i is ih =>
    obtain ⟨hallowed, hrest⟩ := h
    obtain ⟨s', out, hanswer, hp, hs'⟩ := hstep s i hs hallowed
    exact ⟨s', out, hanswer, ⟨hp, hs, hs'⟩, ih (hrest s' out hanswer) hs'⟩

/-- The same with an invariant about the state and all outputs so far. -/
theorem Admits.run (inv : σ → List ω → Prop)
    (hstep : ∀ s past i, inv s past → allowed s i →
      ∃ s' out, step s i = some (s', out) ∧ inv s' (past ++ out))
    {s : σ} {past : List ω} {is : List ι} (h : Admits step allowed s is) (hs : inv s past) :
    ∃ s' out, Machine.run step s is = some (s', out) ∧ inv s' (past ++ out) := by
  induction is generalizing s past with
  | nil =>
    refine ⟨s, [], rfl, ?_⟩
    rwa [List.append_nil]
  | cons i is ih =>
    obtain ⟨hallowed, hrest⟩ := h
    obtain ⟨s₁, out₁, hanswer, hs₁⟩ := hstep s past i hs hallowed
    obtain ⟨s', out, hrun, hs'⟩ := ih (hrest s₁ out₁ hanswer) hs₁
    refine ⟨s', out₁ ++ out, ?_, ?_⟩
    · rw [run_cons hanswer, hrun]
      rfl
    · rwa [List.append_assoc] at hs'

theorem Admits.of_forall (h : ∀ s i, allowed s i) (s : σ) (is : List ι) : Admits step allowed s is := by
  induction is generalizing s with
  | nil => trivial
  | cons i is ih => exact ⟨h s i, fun s' _ _ => ih s'⟩

/-- A run is admitted step by step. -/
theorem Admits.cons {s s' : σ} {i : ι} {is : List ι} {out : List ω} (h : allowed s i)
    (hstep : step s i = some (s', out)) (hrest : Admits step allowed s' is) :
    Admits step allowed s (i :: is) := by
  refine ⟨h, fun s₁ out₁ h₁ => ?_⟩
  rw [hstep] at h₁
  cases h₁
  exact hrest

theorem Admits.and {allowed' : σ → ι → Prop} {s : σ} {is : List ι} (h : Admits step allowed s is)
    (h' : Admits step allowed' s is) : Admits step (fun s i => allowed s i ∧ allowed' s i) s is := by
  induction is generalizing s with
  | nil => trivial
  | cons i is ih =>
    exact ⟨⟨h.1, h'.1⟩, fun s' out hanswer => ih (h.2 s' out hanswer) (h'.2 s' out hanswer)⟩

theorem Admits.append {s : σ} {is js : List ι} (h : Admits step allowed s (is ++ js)) :
    Admits step allowed s is ∧
      ∀ s' out, Machine.run step s is = some (s', out) → Admits step allowed s' js := by
  induction is generalizing s with
  | nil =>
    refine ⟨trivial, fun s' out hrun => ?_⟩
    rw [Machine.run] at hrun
    cases hrun
    exact h
  | cons i is ih =>
    obtain ⟨hallowed, hrest⟩ := h
    refine ⟨⟨hallowed, fun s' out hanswer => (ih (hrest s' out hanswer)).1⟩, fun s' out hrun => ?_⟩
    obtain ⟨s₁, out₁, out₂, hanswer, hrun₁, _⟩ := run_cons_eq_some hrun
    exact (ih (hrest s₁ out₁ hanswer)).2 s' out₂ hrun₁

end Machine
