import ProfHalide.Lib.Behaviour
import Mathlib

/-!
# Interleaved strands

A concurrent execution is one list of actions, each tagged with the strand that performs it. Strands
are addressed by paths: the strand that starts a group of tasks keeps its path, and the path of a task
extends it. Any order of the actions is an execution as long as every strand, taken alone, does what
it should; so what holds of every strand is proved strand by strand, through `on`, and what the
strands add up to by `sum_strands`.
-/

namespace Strands

open Behaviour

/-- An action and the strand that performs it. -/
abbrev Tagged (ι α : Type*) := List ι × α

variable {ι α σ : Type*} [DecidableEq ι]

/-- An action of the strand at `path`. -/
def on (path : List ι) (e : Tagged ι α) : Option α := if e.1 = path then some e.2 else none

/-- An action of the child `i` or of a strand below it, as seen from that child. -/
def below (i : ι) : Tagged ι α → Option (Tagged ι α)
  | (j :: path, a) => if j = i then some (path, a) else none
  | ([], _) => none

omit [DecidableEq ι] in
/-- Actions of the strand itself. -/
def own (actions : List α) : List (Tagged ι α) := actions.map ([], ·)

theorem filterMap_on_cons (i : ι) (path : List ι) (t : List (Tagged ι α)) :
    t.filterMap (on (i :: path)) = (t.filterMap (below i)).filterMap (on path) := by
  rw [List.filterMap_filterMap]
  congr 1
  funext e
  obtain ⟨p, a⟩ := e
  cases p with
  | nil => rfl
  | cons j p =>
    by_cases hj : j = i
    · simp [on, below, hj]
    · simp [on, below, hj]

@[simp] theorem filterMap_on_own (actions : List α) :
    (own actions : List (Tagged ι α)).filterMap (on []) = actions := by
  rw [own, List.filterMap_map]
  exact List.filterMap_some

theorem filterMap_on_own_cons (i : ι) (path : List ι) (actions : List α) :
    (own actions).filterMap (on (i :: path)) = [] := by
  rw [own, List.filterMap_map, List.filterMap_eq_nil_iff]
  intro a _
  rfl

/-! ### Groups of tasks -/

/-- A strand of its own: announced, carried out, ended. -/
def task (start finish : α) (P : Behaviour (Tagged ι α)) : Behaviour (Tagged ι α) :=
  seq (done (own [start])) (seq P (done (own [finish])))

/-- How a task ended: `none` if it was never started. -/
def Outcome (P : Behaviour (Tagged ι α)) (t : List (Tagged ι α)) : Option Bool → Prop
  | none => t = []
  | some ok => P t ok

/-- Any number of tasks on strands of their own, in any interleaving or one after the other. When one
of them is cut short, the others may stay unstarted. -/
def tasks (child : Nat → ι) (overlap : Bool) (P : Behaviour (Tagged ι α)) : Behaviour (Tagged ι α) :=
  fun t ok => ∃ (n : Nat) (outcome : Nat → Option Bool),
    (∀ e ∈ t, ∃ i < n, e.1.head? = some (child i)) ∧
    (∀ i < n, Outcome P (t.filterMap (below (child i))) (outcome i)) ∧
    (ok = true → ∀ i < n, outcome i = some true) ∧
    (ok = false → ∃ i < n, outcome i = some false) ∧
    (overlap = false → t.Pairwise fun e e' =>
      ∀ i j, e.1.head? = some (child i) → e'.1.head? = some (child j) → i ≤ j)

/-- An action of the first of two branches, whose children's addresses were shifted to make room for
the second. -/
def first (unshift : ι → Option ι) : Tagged ι α → Option (Tagged ι α)
  | ([], a) => some ([], a)
  | (i :: path, a) => (unshift i).map fun j => (j :: path, a)

/-- Two branches, the first on the same strand and the second as a task on the strand `child`. -/
def beside (unshift : ι → Option ι) (child : ι) (P Q : Behaviour (Tagged ι α)) :
    Behaviour (Tagged ι α) :=
  fun t ok => ∃ (okP : Bool) (outcome : Option Bool),
    P (t.filterMap (first unshift)) okP ∧ Outcome Q (t.filterMap (below child)) outcome ∧
    (∀ e ∈ t, ∀ i ∈ e.1.head?, i = child ∨ (unshift i).isSome) ∧
    (ok = (okP && outcome == some true)) ∧ (outcome = none → okP = false)

/-- The strand that waits for its tasks does nothing meanwhile. -/
theorem filterMap_on_tasks {P : Behaviour (Tagged ι α)} {child : Nat → ι} {overlap ok : Bool}
    {t : List (Tagged ι α)} (ht : tasks child overlap P t ok) : t.filterMap (on []) = [] := by
  obtain ⟨n, _, hchild, _⟩ := ht
  rw [List.filterMap_eq_nil_iff]
  intro e he
  obtain ⟨i, _, hi⟩ := hchild e he
  obtain ⟨path, a⟩ := e
  cases path with
  | nil => cases hi
  | cons j path => rfl

theorem filterMap_below_tasks {child : Nat → ι} {n : Nat} {t : List (Tagged ι α)}
    (hchild : ∀ e ∈ t, ∃ i < n, e.1.head? = some (child i)) {j : ι} (hj : ¬ ∃ i < n, j = child i) :
    t.filterMap (below j) = [] := by
  rw [List.filterMap_eq_nil_iff]
  intro e he
  obtain ⟨i, hi, hhead⟩ := hchild e he
  obtain ⟨path, a⟩ := e
  cases path with
  | nil => rfl
  | cons k path =>
    have hk : k = child i := Option.some.inj hhead
    have hne : k ≠ j := fun h => hj ⟨i, hi, h ▸ hk⟩
    simp [below, hne]

section Leads

variable {next : σ → α → Option σ} {q q' : σ} {P Q : Behaviour (Tagged ι α)}

theorem tasks_on_nil (child : Nat → ι) (overlap : Bool) :
    Leads next q (image (on []) (tasks child overlap P)) q := by
  intro u ok hu
  obtain ⟨t, ht, rfl⟩ := hu
  rw [filterMap_on_tasks ht]
  exact ⟨q, rfl, fun _ => rfl⟩

/-- A strand at or below a task does what it does in that task. -/
theorem tasks_on_cons {child : Nat → ι} {overlap : Bool} {path : List ι}
    (hP : Leads next q (image (on path) P) q) (j : ι) :
    Leads next q (image (on (j :: path)) (tasks child overlap P)) q := by
  intro u ok hu
  obtain ⟨t, ⟨n, outcome, hchild, houtcome, hok, _⟩, rfl⟩ := hu
  rw [filterMap_on_cons]
  by_cases hj : ∃ i < n, j = child i
  · obtain ⟨i, hi, rfl⟩ := hj
    have hi' := houtcome i hi
    cases ho : outcome i with
    | none =>
      rw [ho] at hi'
      rw [hi']
      exact ⟨q, rfl, fun _ => rfl⟩
    | some okTask =>
      rw [ho] at hi'
      obtain ⟨r, hr, hend⟩ := hP _ okTask ⟨_, hi', rfl⟩
      refine ⟨r, hr, fun htrue => hend ?_⟩
      have hsome := hok htrue i hi
      rw [ho] at hsome
      exact Option.some.inj hsome
  · rw [filterMap_below_tasks hchild hj]
    exact ⟨q, rfl, fun _ => rfl⟩

/-- The strand of the first branch. -/
theorem beside_on_nil {unshift : ι → Option ι} {child : ι} (hP : Leads next q (image (on []) P) q') :
    Leads next q (image (on []) (beside unshift child P Q)) q' := by
  intro u ok hu
  obtain ⟨t, ⟨okP, outcome, ht, _, _, hok, _⟩, rfl⟩ := hu
  have hfirst : t.filterMap (on []) = (t.filterMap (first unshift)).filterMap (on []) := by
    rw [List.filterMap_filterMap]
    congr 1
    funext e
    obtain ⟨path, a⟩ := e
    cases path with
    | nil => rfl
    | cons i path => cases hi : unshift i <;> simp [on, first, hi]
  rw [hfirst]
  obtain ⟨r, hr, hend⟩ := hP _ okP ⟨_, ht, rfl⟩
  refine ⟨r, hr, fun htrue => hend ?_⟩
  rw [htrue] at hok
  exact (Bool.and_eq_true_iff.mp hok.symm).1

/-- A strand of the first branch whose address is not shifted. -/
theorem beside_on_cons {unshift : ι → Option ι} {child : ι} {path : List ι} {i : ι}
    (hi : ∀ j, unshift j = some i ↔ j = i) (hP : Leads next q (image (on (i :: path)) P) q') :
    Leads next q (image (on (i :: path)) (beside unshift child P Q)) q' := by
  intro u ok hu
  obtain ⟨t, ⟨okP, outcome, ht, _, _, hok, _⟩, rfl⟩ := hu
  have hfirst : t.filterMap (on (i :: path)) =
      (t.filterMap (first unshift)).filterMap (on (i :: path)) := by
    rw [List.filterMap_filterMap]
    congr 1
    funext e
    obtain ⟨path', a⟩ := e
    cases path' with
    | nil => rfl
    | cons j path' =>
      by_cases hj : j = i
      · subst hj
        simp [on, first, (hi j).mpr rfl]
      · have hne : unshift j ≠ some i := fun h => hj ((hi j).mp h)
        cases hu : unshift j with
        | none => simp [on, first, hu, hj]
        | some k =>
          have hk : k ≠ i := fun h => hne (by rw [hu, h])
          simp [on, first, hu, hj, hk]
  rw [hfirst]
  obtain ⟨r, hr, hend⟩ := hP _ okP ⟨_, ht, rfl⟩
  refine ⟨r, hr, fun htrue => hend ?_⟩
  rw [htrue] at hok
  exact (Bool.and_eq_true_iff.mp hok.symm).1

end Leads

/-! ### Actions of any strand -/

section Only

variable {p : α → Prop} {P Q : Behaviour (Tagged ι α)}

omit [DecidableEq ι] in
theorem only_own {actions : List α} (h : ∀ a ∈ actions, p a) :
    ∀ e ∈ (own actions : List (Tagged ι α)), p e.2 := by
  intro e he
  obtain ⟨a, ha, rfl⟩ := List.mem_map.mp he
  exact h a ha

omit [DecidableEq ι] in
theorem only_task {start finish : α} (hstart : p start) (hfinish : p finish)
    (hP : Only (fun e => p e.2) P) : Only (fun e => p e.2) (task start finish P) :=
  (Only.done (only_own (by simpa using hstart))).seq
    (hP.seq (Only.done (only_own (by simpa using hfinish))))

omit [DecidableEq ι] in
theorem Only.outcome {q : Tagged ι α → Prop} (hP : Only q P) {t : List (Tagged ι α)}
    {outcome : Option Bool} (h : Outcome P t outcome) : ∀ e ∈ t, q e := by
  cases outcome with
  | none =>
    rw [Outcome] at h
    simp [h]
  | some ok => exact hP t ok h

theorem only_tasks {child : Nat → ι} {overlap : Bool} (hP : Only (fun e => p e.2) P) :
    Only (fun e => p e.2) (tasks child overlap P) := by
  intro t ok ht e he
  obtain ⟨n, outcome, hchild, houtcome, _⟩ := ht
  obtain ⟨i, hi, hhead⟩ := hchild e he
  obtain ⟨path, a⟩ := e
  cases path with
  | nil => cases hhead
  | cons j path =>
    cases hhead
    apply Only.outcome hP (houtcome i hi) (path, a)
    exact List.mem_filterMap.mpr ⟨_, he, if_pos rfl⟩

theorem only_beside {unshift : ι → Option ι} {child : ι} (hP : Only (fun e => p e.2) P)
    (hQ : Only (fun e => p e.2) Q) : Only (fun e => p e.2) (beside unshift child P Q) := by
  intro t ok ht e he
  obtain ⟨okP, outcome, hfirst, hsecond, hwhose, _⟩ := ht
  obtain ⟨path, a⟩ := e
  cases path with
  | nil => exact hP _ okP hfirst ([], a) (List.mem_filterMap.mpr ⟨_, he, rfl⟩)
  | cons i path =>
    by_cases hchild : i = child
    · exact Only.outcome hQ hsecond (path, a) (List.mem_filterMap.mpr ⟨_, he, if_pos hchild⟩)
    · have hsome : (unshift i).isSome := (hwhose _ he i rfl).resolve_left hchild
      obtain ⟨j, hj⟩ := Option.isSome_iff_exists.mp hsome
      refine hP _ okP hfirst (j :: path, a) (List.mem_filterMap.mpr ⟨_, he, ?_⟩)
      rw [first, hj]
      rfl

end Only

/-! ### Adding up over the strands -/

omit [DecidableEq ι] in
/-- A sum over a list whose elements' weights are split among parts. -/
theorem sum_parts {ε β κ : Type*} {w : ε → Int} {part : κ → ε → Option β} {v : κ → β → Int}
    {s : Finset κ} {t : List ε} (h : ∀ e ∈ t, w e = ∑ k ∈ s, (part k e).elim 0 (v k)) :
    (t.map w).sum = ∑ k ∈ s, ((t.filterMap (part k)).map (v k)).sum := by
  induction t with
  | nil => simp
  | cons e t ih =>
    rw [List.forall_mem_cons] at h
    have hstep : ∀ k ∈ s, (((e :: t).filterMap (part k)).map (v k)).sum =
        (part k e).elim 0 (v k) + ((t.filterMap (part k)).map (v k)).sum := by
      intro k _
      cases hk : part k e <;> simp [hk]
    rw [Finset.sum_congr rfl hstep, Finset.sum_add_distrib, ← ih h.2, ← h.1, List.map_cons,
      List.sum_cons]

/-- The strands that have done something. -/
def strands (t : List (Tagged ι α)) : Finset (List ι) := (t.map Prod.fst).toFinset

/-- A sum over all actions is the sum of the strands' sums. -/
theorem sum_strands (weight : List ι → α → Int) (t : List (Tagged ι α)) :
    (t.map fun e => weight e.1 e.2).sum =
      ∑ path ∈ strands t, ((t.filterMap (on path)).map (weight path)).sum := by
  apply sum_parts
  intro e he
  have hmem : e.1 ∈ strands t := List.mem_toFinset.mpr (List.mem_map_of_mem he)
  have hpart : ∀ path ∈ strands t, (on path e).elim 0 (weight path) =
      if e.1 = path then weight e.1 e.2 else 0 := by
    intro path _
    by_cases hpath : e.1 = path
    · simp [on, hpath]
    · simp [on, hpath]
  rw [Finset.sum_congr rfl hpart, Finset.sum_ite_eq, if_pos hmem]

/-- What the events of a completed execution add up to. -/
def Adds {ε : Type*} (w : ε → Int) (m : Int) (P : Behaviour ε) : Prop :=
  ∀ t, P t true → (t.map w).sum = m

section Adds

variable {w : Tagged ι α → Int} {m m' : Int} {P Q : Behaviour (Tagged ι α)}

omit [DecidableEq ι] in
theorem Adds.done (t : List (Tagged ι α)) : Adds w (t.map w).sum (done t) := by
  intro u hu
  rw [hu.1]

omit [DecidableEq ι] in
theorem Adds.cut (t : List (Tagged ι α)) : Adds w m (cut t) := by
  intro u hu
  cases hu.2

omit [DecidableEq ι] in
theorem Adds.seq (hP : Adds w m P) (hQ : Adds w m' Q) : Adds w (m + m') (seq P Q) := by
  intro t ht
  obtain ⟨u, v, hu, hv, rfl⟩ := (seq_true P Q t).mp ht
  rw [List.map_append, List.sum_append, hP u hu, hQ v hv]

omit [DecidableEq ι] in
theorem Adds.either (hP : Adds w m P) (hQ : Adds w m Q) : Adds w m (either P Q) :=
  fun t ht => ht.elim (hP t) (hQ t)

omit [DecidableEq ι] in
theorem Adds.loop (hP : Adds w 0 P) : Adds w 0 (loop (fun _ => []) P) := by
  have hiter : ∀ n, Adds w 0 (iter P n) := by
    intro n
    induction n with
    | zero => exact Adds.done []
    | succ n ih => exact hP.seq ih
  intro t ht
  obtain ⟨n, hn⟩ := ht
  exact (Adds.done []).seq (hiter n) t hn

omit [DecidableEq ι] in
theorem Adds.task {start finish : α} (hstart : w ([], start) = 0) (hfinish : w ([], finish) = 0)
    (hP : Adds w m P) : Adds w m (task start finish P) := by
  have hown : ∀ a, w ([], a) = 0 → Adds w 0 (Behaviour.done (own [a])) := by
    intro a ha
    have hdone := Adds.done (w := w) (own [a])
    simpa [own, ha] using hdone
  have hseq := (hown start hstart).seq (hP.seq (hown finish hfinish))
  rwa [zero_add, add_zero] at hseq

/-- Tasks that each add up to nothing. -/
theorem Adds.tasks {child : Nat → ι} {overlap : Bool}
    (hP : ∀ i, Adds (fun e => w (child i :: e.1, e.2)) 0 P) : Adds w 0 (tasks child overlap P) := by
  intro t ht
  obtain ⟨n, outcome, hchild, houtcome, hok, _⟩ := ht
  have hparts : ∀ e ∈ t, w e = ∑ i ∈ (Finset.range n).image child,
      (below i e).elim 0 fun e => w (i :: e.1, e.2) := by
    intro e he
    obtain ⟨i, hi, hhead⟩ := hchild e he
    obtain ⟨path, a⟩ := e
    cases path with
    | nil => cases hhead
    | cons j path =>
      cases hhead
      have hmem : child i ∈ (Finset.range n).image child :=
        Finset.mem_image_of_mem child (Finset.mem_range.mpr hi)
      have hpart : ∀ k ∈ (Finset.range n).image child,
          ((below k (child i :: path, a)).elim 0 fun e => w (k :: e.1, e.2)) =
            if child i = k then w (child i :: path, a) else 0 := by
        intro k _
        by_cases hk : child i = k
        · simp [below, hk]
        · simp [below, hk]
      rw [Finset.sum_congr rfl hpart, Finset.sum_ite_eq, if_pos hmem]
  rw [sum_parts hparts]
  apply Finset.sum_eq_zero
  intro k hk
  obtain ⟨i, hi, rfl⟩ := Finset.mem_image.mp hk
  have hdone := houtcome i (Finset.mem_range.mp hi)
  rw [hok rfl i (Finset.mem_range.mp hi)] at hdone
  exact hP i _ hdone

/-- Two branches, the first with its children's addresses shifted. -/
theorem Adds.beside {unshift : ι → Option ι} {shift : ι → ι} {child : ι}
    (hshift : ∀ i j, unshift i = some j → shift j = i) (hchild : unshift child = none)
    (hP : Adds (fun e => w (e.1.modifyHead shift, e.2)) m P)
    (hQ : Adds (fun e => w (child :: e.1, e.2)) m' Q) :
    Adds w (m + m') (beside unshift child P Q) := by
  intro t ht
  obtain ⟨okP, outcome, hfirst, hsecond, hwhose, hok, _⟩ := ht
  obtain ⟨rfl, houtcome⟩ := Bool.and_eq_true_iff.mp hok.symm
  rw [beq_iff_eq.mp houtcome] at hsecond
  let part : Bool → Tagged ι α → Option (Tagged ι α) := fun b =>
    if b then first unshift else below child
  let v : Bool → Tagged ι α → Int := fun b e =>
    if b then w (e.1.modifyHead shift, e.2) else w (child :: e.1, e.2)
  have hparts : ∀ e ∈ t, w e = ∑ b, (part b e).elim 0 (v b) := by
    intro e he
    rw [Fintype.sum_bool]
    obtain ⟨path, a⟩ := e
    cases path with
    | nil => simp [part, v, first, below]
    | cons i path =>
      by_cases hi : i = child
      · simp [part, v, first, below, hi, hchild]
      · have hsome : (unshift i).isSome := (hwhose _ he i rfl).resolve_left hi
        obtain ⟨j, hj⟩ := Option.isSome_iff_exists.mp hsome
        simp [part, v, first, below, hi, hj, hshift i j hj]
  rw [sum_parts hparts, Fintype.sum_bool]
  have hleft := hP _ hfirst
  have hright := hQ _ hsecond
  exact congrArg₂ (· + ·) hleft hright

end Adds

end Strands
