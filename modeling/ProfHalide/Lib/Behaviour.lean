import Mathlib.Data.List.Basic
import Mathlib.Data.Set.Basic

/-!
# Executions as sets of traces

A behaviour is the set of finished executions of a piece of a program, each given by its events in
order and by whether it reached the end or was cut short. The operations are those of a structured
language: nothing, a cut, sequencing, choice and repetition. Two ways of reading a behaviour are
developed: its image under an event-wise erasure, which commutes with every operation, and its run
through an automaton, which sequencing and repetition compose.
-/

/-- The finished executions of a program piece: their events, and whether the end was reached. -/
def Behaviour (ε : Type*) := List ε → Bool → Prop

namespace Behaviour

variable {ε δ σ : Type*}

@[ext] theorem ext {P Q : Behaviour ε} (h : ∀ t ok, P t ok ↔ Q t ok) : P = Q :=
  funext fun t => funext fun ok => propext (h t ok)

/-- The events `t`, then the end. -/
def done (t : List ε) : Behaviour ε := fun u ok => u = t ∧ ok = true

/-- The events `t`, then a cut. -/
def cut (t : List ε) : Behaviour ε := fun u ok => u = t ∧ ok = false

/-- One behaviour after another; a cut in the first is a cut of the whole. -/
def seq (P Q : Behaviour ε) : Behaviour ε := fun t ok =>
  (∃ u v, P u true ∧ Q v ok ∧ t = u ++ v) ∨ (P t false ∧ ok = false)

def either (P Q : Behaviour ε) : Behaviour ε := fun t ok => P t ok ∨ Q t ok

/-- `n` rounds of the same behaviour. -/
def iter (P : Behaviour ε) : Nat → Behaviour ε
  | 0 => done []
  | n + 1 => seq P (iter P n)

/-- Any number of rounds, announced by an event. -/
def loop (announce : Nat → List ε) (P : Behaviour ε) : Behaviour ε := fun t ok =>
  ∃ n, seq (done (announce n)) (iter P n) t ok

theorem seq_done_left (t : List ε) (P : Behaviour ε) (u : List ε) (ok : Bool) :
    seq (done t) P u ok ↔ ∃ v, P v ok ∧ u = t ++ v := by
  constructor
  · rintro (⟨t', v, ⟨rfl, _⟩, hv, rfl⟩ | ⟨⟨_, hfalse⟩, _⟩)
    · exact ⟨v, hv, rfl⟩
    · cases hfalse
  · rintro ⟨v, hv, rfl⟩
    exact Or.inl ⟨t, v, ⟨rfl, rfl⟩, hv, rfl⟩

theorem seq_true (P Q : Behaviour ε) (t : List ε) :
    seq P Q t true ↔ ∃ u v, P u true ∧ Q v true ∧ t = u ++ v := by
  constructor
  · rintro (h | ⟨_, hfalse⟩)
    · exact h
    · cases hfalse
  · exact Or.inl

theorem seq_of {P Q : Behaviour ε} {t u : List ε} {ok : Bool} (hP : P t true) (hQ : Q u ok) :
    seq P Q (t ++ u) ok := Or.inl ⟨t, u, hP, hQ, rfl⟩

theorem seq_done_of (t : List ε) {P : Behaviour ε} {u : List ε} {ok : Bool} (hP : P u ok) :
    seq (done t) P (t ++ u) ok := seq_of ⟨rfl, rfl⟩ hP

theorem iter_replicate {P : Behaviour ε} {t : List ε} (h : P t true) (n : Nat) :
    iter P n (List.replicate n t).flatten true := by
  induction n with
  | zero => exact ⟨rfl, rfl⟩
  | succ n ih => exact seq_of h ih

theorem done_seq_done (t u : List ε) : seq (done t) (done u) = done (t ++ u) := by
  ext v ok
  rw [seq_done_left]
  constructor
  · rintro ⟨_, ⟨rfl, hok⟩, rfl⟩
    exact ⟨rfl, hok⟩
  · rintro ⟨rfl, hok⟩
    exact ⟨u, ⟨rfl, hok⟩, rfl⟩

theorem seq_assoc (P Q R : Behaviour ε) : seq (seq P Q) R = seq P (seq Q R) := by
  ext t ok
  constructor
  · rintro (⟨uv, w, huv, hw, rfl⟩ | ⟨h, rfl⟩)
    · obtain ⟨u, v, hu, hv, rfl⟩ := (seq_true P Q uv).mp huv
      exact Or.inl ⟨u, v ++ w, hu, Or.inl ⟨v, w, hv, hw, rfl⟩, List.append_assoc u v w⟩
    · rcases h with ⟨u, v, hu, hv, rfl⟩ | ⟨h, _⟩
      · exact Or.inl ⟨u, v, hu, Or.inr ⟨hv, rfl⟩, rfl⟩
      · exact Or.inr ⟨h, rfl⟩
  · rintro (⟨u, vw, hu, hvw, rfl⟩ | ⟨h, rfl⟩)
    · rcases hvw with ⟨v, w, hv, hw, rfl⟩ | ⟨hv, rfl⟩
      · refine Or.inl ⟨u ++ v, w, ?_, hw, (List.append_assoc u v w).symm⟩
        exact Or.inl ⟨u, v, hu, hv, rfl⟩
      · exact Or.inr ⟨Or.inl ⟨u, vw, hu, hv, rfl⟩, rfl⟩
    · exact Or.inr ⟨Or.inr ⟨h, rfl⟩, rfl⟩

/-! ### Erasing events -/

/-- The executions with some events dropped and the others renamed. -/
def image (f : ε → Option δ) (P : Behaviour ε) : Behaviour δ := fun u ok =>
  ∃ t, P t ok ∧ t.filterMap f = u

theorem image_done (f : ε → Option δ) (t : List ε) : image f (done t) = done (t.filterMap f) := by
  ext u ok
  constructor
  · rintro ⟨_, ⟨rfl, hok⟩, rfl⟩
    exact ⟨rfl, hok⟩
  · rintro ⟨rfl, hok⟩
    exact ⟨t, ⟨rfl, hok⟩, rfl⟩

theorem image_cut (f : ε → Option δ) (t : List ε) : image f (cut t) = cut (t.filterMap f) := by
  ext u ok
  constructor
  · rintro ⟨_, ⟨rfl, hok⟩, rfl⟩
    exact ⟨rfl, hok⟩
  · rintro ⟨rfl, hok⟩
    exact ⟨t, ⟨rfl, hok⟩, rfl⟩

theorem image_either (f : ε → Option δ) (P Q : Behaviour ε) :
    image f (either P Q) = either (image f P) (image f Q) := by
  ext u ok
  constructor
  · rintro ⟨t, hP | hQ, rfl⟩
    · exact Or.inl ⟨t, hP, rfl⟩
    · exact Or.inr ⟨t, hQ, rfl⟩
  · rintro (⟨t, hP, rfl⟩ | ⟨t, hQ, rfl⟩)
    · exact ⟨t, Or.inl hP, rfl⟩
    · exact ⟨t, Or.inr hQ, rfl⟩

theorem image_seq (f : ε → Option δ) (P Q : Behaviour ε) :
    image f (seq P Q) = seq (image f P) (image f Q) := by
  ext u ok
  constructor
  · rintro ⟨t, ⟨t₁, t₂, h₁, h₂, rfl⟩ | ⟨h, rfl⟩, rfl⟩
    · exact Or.inl ⟨_, _, ⟨t₁, h₁, rfl⟩, ⟨t₂, h₂, rfl⟩, List.filterMap_append⟩
    · exact Or.inr ⟨⟨t, h, rfl⟩, rfl⟩
  · rintro (⟨_, _, ⟨t₁, h₁, rfl⟩, ⟨t₂, h₂, rfl⟩, rfl⟩ | ⟨⟨t, h, rfl⟩, rfl⟩)
    · exact ⟨t₁ ++ t₂, Or.inl ⟨t₁, t₂, h₁, h₂, rfl⟩, List.filterMap_append⟩
    · exact ⟨t, Or.inr ⟨h, rfl⟩, rfl⟩

theorem image_iter (f : ε → Option δ) (P : Behaviour ε) (n : Nat) :
    image f (iter P n) = iter (image f P) n := by
  induction n with
  | zero => exact image_done f []
  | succ n ih => rw [iter, iter, image_seq, ih]

theorem image_loop (f : ε → Option δ) (announce : Nat → List ε) (P : Behaviour ε) :
    image f (loop announce P) = loop (fun n => (announce n).filterMap f) (image f P) := by
  ext u ok
  constructor
  · rintro ⟨t, ⟨n, h⟩, rfl⟩
    refine ⟨n, ?_⟩
    rw [← image_done, ← image_iter, ← image_seq]
    exact ⟨t, h, rfl⟩
  · rintro ⟨n, h⟩
    rw [← image_done, ← image_iter, ← image_seq] at h
    obtain ⟨t, ht, rfl⟩ := h
    exact ⟨t, ⟨n, ht⟩, rfl⟩

@[simp] theorem seq_done_nil (P : Behaviour ε) : seq (done []) P = P := by
  ext t ok
  rw [seq_done_left]
  exact ⟨fun ⟨_, hv, ht⟩ => by rwa [ht, List.nil_append], fun h => ⟨t, h, rfl⟩⟩

@[simp] theorem seq_nil_right (P : Behaviour ε) : seq P (done []) = P := by
  ext t ok
  constructor
  · rintro (⟨u, v, hu, ⟨rfl, rfl⟩, rfl⟩ | ⟨h, rfl⟩)
    · rwa [List.append_nil]
    · exact h
  · intro h
    cases ok with
    | true => exact Or.inl ⟨t, [], h, ⟨rfl, rfl⟩, (List.append_nil t).symm⟩
    | false => exact Or.inr ⟨h, rfl⟩

/-! ### Every piece can run to its end -/

/-- Some execution reaches the end. -/
def Inhabited (P : Behaviour ε) : Prop := ∃ t, P t true

theorem Inhabited.done (t : List ε) : (done t).Inhabited := ⟨t, rfl, rfl⟩

theorem Inhabited.seq {P Q : Behaviour ε} (hP : P.Inhabited) (hQ : Q.Inhabited) :
    (seq P Q).Inhabited := by
  obtain ⟨t, ht⟩ := hP
  obtain ⟨u, hu⟩ := hQ
  exact ⟨t ++ u, Or.inl ⟨t, u, ht, hu, rfl⟩⟩

theorem Inhabited.loop (announce : Nat → List ε) (P : Behaviour ε) :
    (loop announce P).Inhabited :=
  ⟨announce 0 ++ [], 0, Or.inl ⟨_, [], ⟨rfl, rfl⟩, ⟨rfl, rfl⟩, rfl⟩⟩

/-! ### Executions of permitted events only -/

/-- Every event of every execution satisfies `p`. -/
def Only (p : ε → Prop) (P : Behaviour ε) : Prop := ∀ t ok, P t ok → ∀ e ∈ t, p e

section Only

variable {p : ε → Prop} {P Q : Behaviour ε}

theorem Only.done {t : List ε} (h : ∀ e ∈ t, p e) : Only p (done t) := by
  intro u ok hu
  rw [hu.1]
  exact h

theorem Only.cut {t : List ε} (h : ∀ e ∈ t, p e) : Only p (cut t) := by
  intro u ok hu
  rw [hu.1]
  exact h

theorem Only.either (hP : Only p P) (hQ : Only p Q) : Only p (either P Q) :=
  fun t ok h => h.elim (hP t ok) (hQ t ok)

theorem Only.seq (hP : Only p P) (hQ : Only p Q) : Only p (seq P Q) := by
  intro t ok ht
  rcases ht with ⟨u, v, hu, hv, rfl⟩ | ⟨hu, _⟩
  · intro e he
    rcases List.mem_append.mp he with he | he
    · exact hP u true hu e he
    · exact hQ v ok hv e he
  · exact hP t false hu

theorem Only.iter (hP : Only p P) (n : Nat) : Only p (iter P n) := by
  induction n with
  | zero => exact Only.done (by simp)
  | succ n ih => exact hP.seq ih

theorem Only.loop {announce : Nat → List ε} (hannounce : ∀ n, ∀ e ∈ announce n, p e)
    (hP : Only p P) : Only p (loop announce P) := by
  intro t ok ht
  obtain ⟨n, hn⟩ := ht
  exact (Only.done (hannounce n)).seq (hP.iter n) t ok hn

end Only

/-! ### Executions with a common beginning -/

/-- Every execution, completed or cut, begins with the events `t`. -/
def Begins (t : List ε) (P : Behaviour ε) : Prop := ∀ u ok, P u ok → ∃ rest, u = t ++ rest

section Begins

variable {t : List ε} {P Q : Behaviour ε}

theorem Begins.nil : Begins [] P := fun u _ _ => ⟨u, rfl⟩

theorem Begins.after (h : Begins t P) (t' : List ε) : Begins (t' ++ t) (Behaviour.seq (done t') P) := by
  intro u ok hu
  obtain ⟨v, hv, rfl⟩ := (seq_done_left t' P u ok).mp hu
  obtain ⟨rest, rfl⟩ := h v ok hv
  exact ⟨rest, (List.append_assoc t' t rest).symm⟩

theorem Begins.seq (h : Begins t P) : Begins t (Behaviour.seq P Q) := by
  intro u ok hu
  rcases hu with ⟨v, w, hv, _, rfl⟩ | ⟨hu, _⟩
  · obtain ⟨rest, rfl⟩ := h v true hv
    exact ⟨rest ++ w, List.append_assoc t rest w⟩
  · exact h u false hu

end Begins

/-! ### Completed executions through an automaton -/

/-- Running a trace through a partial automaton, `none` being the rejecting state. -/
def runAuto (next : σ → ε → Option σ) : σ → List ε → Option σ
  | q, [] => some q
  | q, e :: t => (next q e).bind fun q' => runAuto next q' t

@[simp] theorem runAuto_append (next : σ → ε → Option σ) (q : σ) (t u : List ε) :
    runAuto next q (t ++ u) = (runAuto next q t).bind fun q' => runAuto next q' u := by
  induction t generalizing q with
  | nil => rfl
  | cons e t ih =>
    rw [List.cons_append, runAuto, runAuto]
    cases next q e with
    | none => rfl
    | some q' => exact ih q'

theorem runAuto_of_append {next : σ → ε → Option σ} {q r : σ} {t u : List ε}
    (h : runAuto next q (t ++ u) = some r) : ∃ r', runAuto next q t = some r' := by
  rw [runAuto_append, Option.bind_eq_some_iff] at h
  obtain ⟨r', hr', _⟩ := h
  exact ⟨r', hr'⟩

/-! ### Conditions before and after -/

/-- From a state with `I` no execution is rejected, and every completed one takes the automaton to a state
with `J`. -/
def Triple (next : σ → ε → Option σ) (I : σ → Prop) (P : Behaviour ε) (J : σ → Prop) : Prop :=
  ∀ q, I q → ∀ t ok, P t ok → ∃ r, runAuto next q t = some r ∧ (ok = true → J r)

section Triple

variable {next : σ → ε → Option σ} {I J K : σ → Prop} {P Q : Behaviour ε}

theorem Triple.done_nil : Triple next I (done []) I := by
  intro q hq t ok ht
  rw [ht.1]
  exact ⟨q, rfl, fun _ => hq⟩

theorem Triple.event {e : ε} (h : ∀ q, I q → ∃ r, next q e = some r ∧ J r) :
    Triple next I (done [e]) J := by
  intro q hq t ok ht
  obtain ⟨r, hr, hJ⟩ := h q hq
  rw [ht.1, runAuto, hr]
  exact ⟨r, rfl, fun _ => hJ⟩

theorem Triple.cut {e : ε} (h : ∀ q, I q → ∃ r, next q e = some r) : Triple next I (cut [e]) J := by
  intro q hq t ok ht
  obtain ⟨r, hr⟩ := h q hq
  rw [ht.1, ht.2, runAuto, hr]
  exact ⟨r, rfl, nofun⟩

theorem Triple.seq (hP : Triple next I P J) (hQ : Triple next J Q K) : Triple next I (seq P Q) K := by
  intro q hq t ok ht
  rcases ht with ⟨u, v, hu, hv, rfl⟩ | ⟨hu, hok⟩
  · obtain ⟨r, hr, hJ⟩ := hP q hq u true hu
    rw [runAuto_append, hr]
    exact hQ r (hJ rfl) v ok hv
  · obtain ⟨r, hr, _⟩ := hP q hq t false hu
    refine ⟨r, hr, fun htrue => ?_⟩
    rw [hok] at htrue
    cases htrue

theorem Triple.either (hP : Triple next I P J) (hQ : Triple next I Q J) :
    Triple next I (either P Q) J :=
  fun q hq t ok ht => ht.elim (hP q hq t ok) (hQ q hq t ok)

theorem Triple.iter (hP : Triple next I P I) (n : Nat) : Triple next I (iter P n) I := by
  induction n with
  | zero => exact Triple.done_nil
  | succ n ih => exact hP.seq ih

theorem Triple.loop {announce : Nat → List ε}
    (hannounce : ∀ n, Triple next I (Behaviour.done (announce n)) I) (hP : Triple next I P I) :
    Triple next I (loop announce P) I := by
  intro q hq t ok ht
  obtain ⟨n, hn⟩ := ht
  exact (hannounce n).seq (hP.iter n) q hq t ok hn

end Triple

/-! ### From one state to another -/

/-- No execution is rejected from `q`, and every completed one takes the automaton to `q'`. -/
def Leads (next : σ → ε → Option σ) (q : σ) (P : Behaviour ε) (q' : σ) : Prop :=
  ∀ t ok, P t ok → ∃ r, runAuto next q t = some r ∧ (ok = true → r = q')

/-- Some completed execution is rejected from `q`. -/
def Rejects (next : σ → ε → Option σ) (q : σ) (P : Behaviour ε) : Prop :=
  ∃ t, P t true ∧ runAuto next q t = none

section Automaton

variable {next : σ → ε → Option σ} {q q' : σ} {P Q : Behaviour ε}

theorem Leads.done {t : List ε} (h : runAuto next q t = some q') : Leads next q (done t) q' := by
  intro u ok hu
  rw [hu.1]
  exact ⟨q', h, fun _ => rfl⟩

theorem Leads.cut {t : List ε} (h : (runAuto next q t).isSome) : Leads next q (cut t) q' := by
  intro u ok hu
  rw [hu.1, hu.2]
  exact ⟨_, (Option.some_get h).symm, fun hfalse => nomatch hfalse⟩

theorem leads_iff_triple : Leads next q P q' ↔ Triple next (· = q) P (· = q') :=
  ⟨fun h _ hq => hq ▸ h, fun h => h q rfl⟩

theorem Leads.seq {q₁ q₂ q₃ : σ} (hP : Leads next q₁ P q₂) (hQ : Leads next q₂ Q q₃) :
    Leads next q₁ (seq P Q) q₃ :=
  leads_iff_triple.mpr ((leads_iff_triple.mp hP).seq (leads_iff_triple.mp hQ))

theorem Leads.iter (hP : Leads next q P q) (n : Nat) : Leads next q (iter P n) q :=
  leads_iff_triple.mpr ((leads_iff_triple.mp hP).iter n)

theorem Leads.loop {announce : Nat → List ε}
    (hannounce : ∀ n, runAuto next q (announce n) = some q) (hP : Leads next q P q) :
    Leads next q (loop announce P) q := by
  have hround : ∀ n, Triple next (· = q) (Behaviour.done (announce n)) (· = q) :=
    fun n => leads_iff_triple.mp (Leads.done (hannounce n))
  exact leads_iff_triple.mpr (Triple.loop hround (leads_iff_triple.mp hP))

theorem Leads.either (hP : Leads next q P q') (hQ : Leads next q Q q') :
    Leads next q (either P Q) q' :=
  leads_iff_triple.mpr ((leads_iff_triple.mp hP).either (leads_iff_triple.mp hQ))

/-- A piece that always returns to the state it began in keeps every condition on it. -/
theorem Triple.of_leads {I : σ → Prop} (h : ∀ q, I q → Leads next q P q) : Triple next I P I := by
  intro q hq t ok ht
  obtain ⟨r, hr, hend⟩ := h q hq t ok ht
  refine ⟨r, hr, fun htrue => ?_⟩
  rw [hend htrue]
  exact hq

theorem Rejects.seq_left (hP : Rejects next q P) (hQ : Q.Inhabited) : Rejects next q (seq P Q) := by
  obtain ⟨t, ht, hreject⟩ := hP
  obtain ⟨u, hu⟩ := hQ
  refine ⟨t ++ u, Or.inl ⟨t, u, ht, hu, rfl⟩, ?_⟩
  rw [runAuto_append, hreject]
  rfl

theorem Rejects.seq_right (hP : Leads next q P q') (hinhabited : P.Inhabited)
    (hQ : Rejects next q' Q) : Rejects next q (seq P Q) := by
  obtain ⟨t, ht⟩ := hinhabited
  obtain ⟨u, hu, hreject⟩ := hQ
  obtain ⟨r, hr, hend⟩ := hP t true ht
  refine ⟨t ++ u, Or.inl ⟨t, u, ht, hu, rfl⟩, ?_⟩
  rw [runAuto_append, hr, hend rfl]
  exact hreject

/-- One round is enough to show a rejected body. -/
theorem Rejects.loop {announce : Nat → List ε}
    (hannounce : ∀ n, runAuto next q (announce n) = some q) (hP : Rejects next q P) :
    Rejects next q (loop announce P) := by
  have hround : Rejects next q (Behaviour.seq (Behaviour.done (announce 1)) (iter P 1)) :=
    Rejects.seq_right (Leads.done (hannounce 1)) (Inhabited.done _)
      (hP.seq_left (Inhabited.done []))
  obtain ⟨t, ht, hreject⟩ := hround
  exact ⟨t, ⟨1, ht⟩, hreject⟩

theorem Rejects.not_leads (hP : Rejects next q P) : ¬ Leads next q P q' := by
  intro h
  obtain ⟨t, ht, hreject⟩ := hP
  obtain ⟨r, hr, _⟩ := h t true ht
  rw [hreject] at hr
  cases hr

/-! ### Returning to the same state

A piece either leaves the automaton where it found it or can be rejected; which of the two it does is
composed piece by piece. -/

/-- `P` returns to `q` if `ok`, and can be rejected from `q` if not. -/
def Returns (next : σ → ε → Option σ) (ok : Bool) (q : σ) (P : Behaviour ε) : Prop :=
  if ok then Leads next q P q else Rejects next q P

theorem Returns.iff {ok : Bool} (h : Returns next ok q P) : Leads next q P q ↔ ok = true := by
  cases ok with
  | true => exact ⟨fun _ => rfl, fun _ => h⟩
  | false => exact ⟨fun hleads => absurd hleads (Rejects.not_leads h), fun hfalse => nomatch hfalse⟩

theorem Returns.seq {ok ok' : Bool} (hP : Returns next ok q P) (hQ : Returns next ok' q Q)
    (hinhP : P.Inhabited) (hinhQ : Q.Inhabited) : Returns next (ok && ok') q (seq P Q) := by
  cases ok with
  | false => exact Rejects.seq_left hP hinhQ
  | true =>
    cases ok' with
    | false => exact Rejects.seq_right hP hinhP hQ
    | true => exact Leads.seq hP hQ

theorem Returns.loop {ok : Bool} {announce : Nat → List ε}
    (hannounce : ∀ n, runAuto next q (announce n) = some q) (hP : Returns next ok q P) :
    Returns next ok q (loop announce P) := by
  cases ok with
  | false => exact Rejects.loop hannounce hP
  | true => exact Leads.loop hannounce hP

theorem Returns.either {ok ok' : Bool} (hP : Returns next ok q P) (hQ : Returns next ok' q Q) :
    Returns next (ok && ok') q (either P Q) := by
  cases ok with
  | false =>
    obtain ⟨t, ht, hreject⟩ := hP
    exact ⟨t, Or.inl ht, hreject⟩
  | true =>
    cases ok' with
    | false =>
      obtain ⟨t, ht, hreject⟩ := hQ
      exact ⟨t, Or.inr ht, hreject⟩
    | true => exact Leads.either hP hQ

/-- A piece between two events that the automaton answers by going to `q'` and back. -/
theorem Returns.between {ok : Bool} {e e' : ε} (hopen : next q e = some q')
    (hclose : next q' e' = some q) (hP : Returns next ok q' P) :
    Returns next ok q (Behaviour.seq (Behaviour.done [e]) (Behaviour.seq P (Behaviour.done [e']))) := by
  have hopen' : Leads next q (Behaviour.done [e]) q' := Leads.done (by simp [runAuto, hopen])
  have hclose' : Leads next q' (Behaviour.done [e']) q := Leads.done (by simp [runAuto, hclose])
  cases ok with
  | false =>
    exact Rejects.seq_right hopen' (Inhabited.done _) (Rejects.seq_left hP (Inhabited.done _))
  | true => exact hopen'.seq (Leads.seq hP hclose')

/-- A piece that begins with an event the automaton rejects. -/
theorem Rejects.first {e : ε} (h : next q e = none) (hinh : P.Inhabited) :
    Rejects next q (Behaviour.seq (Behaviour.done [e]) P) := by
  refine Rejects.seq_left ⟨[e], ⟨rfl, rfl⟩, ?_⟩ hinh
  rw [runAuto, h]
  rfl

end Automaton

end Behaviour
