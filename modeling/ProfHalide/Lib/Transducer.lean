import ProfHalide.Lib.Behaviour

/-!
# Behaviours read through a transducer

An automaton that also writes: what it makes of an event may depend on the state the event is met in.
What is written for the executions of a piece is a behaviour again, and as long as it is known which
state each piece ends in, the operations of the language carry over to it.
-/

namespace Behaviour

section Written

variable {ε δ σ : Type*} (next : σ → ε → Option σ) (emit : σ → ε → Option δ)

/-- What is written for a trace, up to the first event that is rejected. -/
def written : σ → List ε → List δ
  | _, [] => []
  | q, e :: t => (next q e).elim [] fun q' => (emit q e).toList ++ written q' t

/-- From `q` no execution is rejected, the completed ones end in `q'`, and what is written for the
executions is `R`. -/
structure Yields (q : σ) (P : Behaviour ε) (q' : σ) (R : Behaviour δ) : Prop where
  leads : Leads next q P q'
  writes : ∀ u ok, R u ok ↔ ∃ t, P t ok ∧ written next emit q t = u

end Written

variable {ε δ δ' σ : Type*} {next : σ → ε → Option σ} {emit : σ → ε → Option δ} {q q' q₁ q₂ : σ}
  {P Q : Behaviour ε} {R S : Behaviour δ}

theorem written_append {t : List ε} (h : runAuto next q t = some q') (u : List ε) :
    written next emit q (t ++ u) = written next emit q t ++ written next emit q' u := by
  induction t generalizing q with
  | nil =>
    cases h
    rfl
  | cons e t ih =>
    obtain ⟨r, hr, hrest⟩ := Option.bind_eq_some_iff.mp h
    rw [List.cons_append, written, written, hr, Option.elim_some, Option.elim_some, ih hrest,
      List.append_assoc]

/-- An automaton that passes over what `f` does not see. -/
theorem runAuto_filterMap {next : σ → δ → Option σ} (f : ε → Option δ) (q : σ) (t : List ε) :
    runAuto (fun q e => (f e).elim (some q) (next q)) q t = runAuto next q (t.filterMap f) := by
  induction t generalizing q with
  | nil => rfl
  | cons e t ih =>
    rw [runAuto, List.filterMap_cons]
    cases f e with
    | none => exact ih q
    | some d => exact congrArg (Option.bind (next q d)) (funext ih)

theorem runAuto_filterMap_one {next : σ → δ → Option σ} (f : ε → Option δ) (q : σ) (e : ε) :
    runAuto next q ([e].filterMap f) = (f e).elim (some q) (next q) := by
  rw [← runAuto_filterMap f q [e], runAuto]
  cases (f e).elim (some q) (next q) <;> rfl

namespace Yields

theorem of_written (h : Yields next emit q P q' R) {t : List ε} {ok : Bool} (ht : P t ok) :
    R (written next emit q t) ok := (h.writes _ ok).mpr ⟨t, ht, rfl⟩

theorem done {t : List ε} (h : runAuto next q t = some q') :
    Yields next emit q (done t) q' (done (written next emit q t)) where
  leads := .done h
  writes := by
    intro u ok
    constructor
    · rintro ⟨rfl, hok⟩
      exact ⟨t, ⟨rfl, hok⟩, rfl⟩
    · rintro ⟨_, ⟨rfl, hok⟩, rfl⟩
      exact ⟨rfl, hok⟩

theorem done_nil : Yields next emit q (Behaviour.done []) q (Behaviour.done []) := done rfl

theorem event {e : ε} (h : next q e = some q') :
    Yields next emit q (Behaviour.done [e]) q' (Behaviour.done (emit q e).toList) := by
  have hrun : runAuto next q [e] = some q' := by rw [runAuto, h]; rfl
  have hwritten : written next emit q [e] = (emit q e).toList := by
    rw [written, h]
    exact List.append_nil _
  rw [← hwritten]
  exact done hrun

/-- Events that are passed over. -/
theorem skip {e : ε} (h : next q e = some q') (hemit : emit q e = none) :
    Yields next emit q (Behaviour.done [e]) q' (Behaviour.done []) := by
  have hevent : Yields next emit q (Behaviour.done [e]) q' (Behaviour.done (emit q e).toList) :=
    event h
  rwa [hemit] at hevent

theorem cut {t : List ε} (h : (runAuto next q t).isSome) :
    Yields next emit q (cut t) q' (cut (written next emit q t)) where
  leads := .cut h
  writes := by
    intro u ok
    constructor
    · rintro ⟨rfl, hok⟩
      exact ⟨t, ⟨rfl, hok⟩, rfl⟩
    · rintro ⟨_, ⟨rfl, hok⟩, rfl⟩
      exact ⟨rfl, hok⟩

theorem seq (hP : Yields next emit q P q₁ R) (hQ : Yields next emit q₁ Q q₂ S) :
    Yields next emit q (seq P Q) q₂ (seq R S) where
  leads := hP.leads.seq hQ.leads
  writes := by
    intro u ok
    constructor
    · rintro (⟨v, w, hv, hw, rfl⟩ | ⟨hv, rfl⟩)
      · obtain ⟨t, ht, rfl⟩ := (hP.writes v true).mp hv
        obtain ⟨t', ht', rfl⟩ := (hQ.writes w ok).mp hw
        obtain ⟨r, hr, hend⟩ := hP.leads t true ht
        rw [hend rfl] at hr
        exact ⟨t ++ t', Or.inl ⟨t, t', ht, ht', rfl⟩, written_append hr t'⟩
      · obtain ⟨t, ht, rfl⟩ := (hP.writes u false).mp hv
        exact ⟨t, Or.inr ⟨ht, rfl⟩, rfl⟩
    · rintro ⟨_, ⟨t, t', ht, ht', rfl⟩ | ⟨ht, rfl⟩, rfl⟩
      · obtain ⟨r, hr, hend⟩ := hP.leads t true ht
        rw [hend rfl] at hr
        exact Or.inl ⟨_, _, hP.of_written ht, hQ.of_written ht', written_append hr t'⟩
      · exact Or.inr ⟨hP.of_written ht, rfl⟩

theorem either (hP : Yields next emit q P q' R) (hQ : Yields next emit q Q q' S) :
    Yields next emit q (either P Q) q' (either R S) where
  leads := hP.leads.either hQ.leads
  writes := by
    intro u ok
    constructor
    · rintro (hu | hu)
      · obtain ⟨t, ht, htu⟩ := (hP.writes u ok).mp hu
        exact ⟨t, Or.inl ht, htu⟩
      · obtain ⟨t, ht, htu⟩ := (hQ.writes u ok).mp hu
        exact ⟨t, Or.inr ht, htu⟩
    · rintro ⟨t, ht | ht, rfl⟩
      · exact Or.inl (hP.of_written ht)
      · exact Or.inr (hQ.of_written ht)

theorem iter (hP : Yields next emit q P q R) (n : Nat) :
    Yields next emit q (iter P n) q (iter R n) := by
  induction n with
  | zero => exact done_nil
  | succ n ih => exact hP.seq ih

theorem loop {announce : Nat → List ε} {written : Nat → List δ}
    (hannounce : ∀ n, Yields next emit q (Behaviour.done (announce n)) q (Behaviour.done (written n)))
    (hP : Yields next emit q P q R) :
    Yields next emit q (loop announce P) q (loop written R) where
  leads := by
    rintro t ok ⟨n, hn⟩
    exact ((hannounce n).seq (hP.iter n)).leads t ok hn
  writes := by
    intro u ok
    constructor
    · rintro ⟨n, hn⟩
      obtain ⟨t, ht, htu⟩ := (((hannounce n).seq (hP.iter n)).writes u ok).mp hn
      exact ⟨t, ⟨n, ht⟩, htu⟩
    · rintro ⟨t, ⟨n, hn⟩, rfl⟩
      exact ⟨n, ((hannounce n).seq (hP.iter n)).of_written hn⟩

/-- A piece between two events that are passed over. -/
theorem between {e e' : ε} (hopen : next q e = some q₁) (hopen' : emit q e = none)
    (hP : Yields next emit q₁ P q₂ R) (hclose : next q₂ e' = some q') (hclose' : emit q₂ e' = none) :
    Yields next emit q
      (Behaviour.seq (Behaviour.done [e]) (Behaviour.seq P (Behaviour.done [e']))) q' R := by
  have hseq := (skip hopen hopen').seq (hP.seq (skip hclose hclose'))
  rwa [seq_done_nil, seq_nil_right] at hseq

/-- A piece of which every event leaves the state alone. -/
theorem of_only {f : ε → δ} (h : Only (fun e => next q e = some q ∧ emit q e = some (f e)) P) :
    Yields next emit q P q (P.image fun e => some (f e)) := by
  have htrace : ∀ t : List ε, (∀ e ∈ t, next q e = some q ∧ emit q e = some (f e)) →
      runAuto next q t = some q ∧ written next emit q t = t.filterMap fun e => some (f e) := by
    intro t
    induction t with
    | nil => exact fun _ => ⟨rfl, rfl⟩
    | cons e t ih =>
      intro ht
      obtain ⟨⟨hnext, hemit⟩, hrest⟩ := List.forall_mem_cons.mp ht
      obtain ⟨hrun, hwritten⟩ := ih hrest
      refine ⟨by rw [runAuto, hnext]; exact hrun, ?_⟩
      rw [written, hnext, hemit, Option.elim_some, hwritten]
      rfl
  refine ⟨fun t ok ht => ⟨q, (htrace t (h t ok ht)).1, fun _ => rfl⟩, fun u ok => ?_⟩
  constructor
  · rintro ⟨t, ht, rfl⟩
    exact ⟨t, ht, (htrace t (h t ok ht)).2⟩
  · rintro ⟨t, ht, rfl⟩
    exact ⟨t, ht, ((htrace t (h t ok ht)).2).symm⟩

end Yields

end Behaviour
