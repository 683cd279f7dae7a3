import Mathlib.Data.List.Nodup
import Mathlib.Data.List.Perm.Subperm

/-!
# Linked lists in a store

A store gives each allocated node the link it holds; a link is null or an address. A chain from a link
is the list of nodes met on the way to null. A link has at most one chain, without repetition, so a
loop that follows links ends within as many steps as there are nodes exactly when there is a chain.
-/

namespace Chain

variable {α : Type*}

/-- From link `q`, the nodes of `l` are met in this order, and then null. -/
inductive IsChain (next : α → Option (Option α)) : Option α → List α → Prop where
  | nil : IsChain next none []
  | cons {p : α} {q : Option α} {l : List α} (hp : next p = some q) (hl : IsChain next q l) :
      IsChain next (some p) (p :: l)

/-- The nodes met from a link, by a loop of at most so many rounds: `none` if it reads a node that is
not allocated, or is not at its end. -/
def follow (next : α → Option (Option α)) : Nat → Option α → Option (List α)
  | _, none => some []
  | 0, some _ => none
  | rounds + 1, some p => do
      let q ← next p
      let l ← follow next rounds q
      return p :: l

/-- The first node from a link that satisfies `hit`, with the node before it. -/
def search (next : α → Option (Option α)) (hit : α → Bool) :
    Nat → Option α → Option α → Option (Option (Option α × α))
  | _, _, none => some none
  | 0, _, some _ => none
  | rounds + 1, prev, some p => do
      let q ← next p
      if hit p then return some (prev, p)
      else search next hit rounds (some p) q

variable {next next' : α → Option (Option α)} {q : Option α} {l l' : List α}

namespace IsChain

theorem unique (h : IsChain next q l) (h' : IsChain next q l') : l = l' := by
  induction h generalizing l' with
  | nil => cases h' with | nil => rfl
  | cons hp _ ih =>
    cases h' with
    | cons hp' hl' =>
      rw [hp] at hp'
      cases hp'
      rw [ih hl']

theorem head (h : IsChain next q l) : q = l.head? := by
  cases h <;> rfl

/-- The nodes after the first are a chain from its link. -/
theorem tail {p : α} (h : IsChain next q (p :: l)) : ∃ q', next p = some q' ∧ IsChain next q' l := by
  cases h with
  | cons hp hl => exact ⟨_, hp, hl⟩

/-- Each node of a chain starts a chain. -/
theorem suffix {p : α} (h : IsChain next q l) (hp : p ∈ l) :
    ∃ pre post, l = pre ++ p :: post ∧ IsChain next (some p) (p :: post) := by
  induction h with
  | nil => cases hp
  | @cons p' q' l hp' hl ih =>
    rcases List.mem_cons.mp hp with heq | hmem
    · rw [heq]
      exact ⟨[], l, rfl, .cons hp' hl⟩
    · obtain ⟨pre, post, heq, hchain⟩ := ih hmem
      refine ⟨p' :: pre, post, ?_, hchain⟩
      rw [heq]
      rfl

/-- A node met twice would have chains of different lengths. -/
theorem nodup (h : IsChain next q l) : l.Nodup := by
  induction h with
  | nil => exact List.nodup_nil
  | @cons p q' l hp hl ih =>
    refine List.nodup_cons.mpr ⟨fun hmem => ?_, ih⟩
    obtain ⟨pre, post, heq, hchain⟩ := hl.suffix hmem
    have hpost : post = l := List.tail_eq_of_cons_eq (hchain.unique (.cons hp hl))
    have hlength := congrArg List.length heq
    rw [hpost, List.length_append, List.length_cons] at hlength
    omega

theorem allocated {p : α} (h : IsChain next q l) (hp : p ∈ l) : (next p).isSome := by
  obtain ⟨_, _, _, hchain⟩ := h.suffix hp
  cases hchain with
  | cons hnext _ => rw [hnext]; rfl

/-- A link out of a chain leads into it. -/
theorem mem_of_next {p p' : α} (h : IsChain next q l) (hp : p ∈ l) (hnext : next p = some (some p')) :
    p' ∈ l := by
  induction h with
  | nil => cases hp
  | @cons r q l hr hl ih =>
    rcases List.mem_cons.mp hp with heq | hp
    · rw [heq, hr] at hnext
      cases hnext
      cases hl
      simp
    · exact List.mem_cons_of_mem _ (ih hp)

theorem congr (h : IsChain next q l) (heq : ∀ p ∈ l, next' p = next p) : IsChain next' q l := by
  induction h with
  | nil => exact .nil
  | @cons p q' l hp _ ih =>
    refine .cons ?_ (ih fun p hmem => heq p (List.mem_cons_of_mem _ hmem))
    rw [heq p List.mem_cons_self, hp]

theorem follow_eq (h : IsChain next q l) {rounds : Nat} (hrounds : l.length ≤ rounds) :
    follow next rounds q = some l := by
  induction h generalizing rounds with
  | nil => cases rounds <;> rfl
  | cons hp _ ih =>
    cases rounds with
    | zero => cases hrounds
    | succ rounds =>
      rw [follow, hp]
      simp [ih (Nat.le_of_succ_le_succ hrounds)]

theorem search_none {hit : α → Bool} (h : IsChain next q l) (hhit : ∀ p ∈ l, hit p = false)
    {rounds : Nat} (hrounds : l.length ≤ rounds) (prev : Option α) :
    search next hit rounds prev q = some none := by
  induction h generalizing rounds prev with
  | nil => cases rounds <;> rfl
  | @cons p q' l hp _ ih =>
    cases rounds with
    | zero => cases hrounds
    | succ rounds =>
      rw [search, hp]
      simp only [Option.bind_eq_bind, Option.bind_some, hhit p List.mem_cons_self, Bool.false_eq_true,
        if_false]
      exact ih (fun p hmem => hhit p (List.mem_cons_of_mem _ hmem)) (Nat.le_of_succ_le_succ hrounds) _

theorem search_some {hit : α → Bool} {pre post : List α} {p : α}
    (h : IsChain next q (pre ++ p :: post)) (hpre : ∀ p ∈ pre, hit p = false) (hp : hit p = true)
    {rounds : Nat} (hrounds : pre.length < rounds) (prev : Option α) :
    search next hit rounds prev q = some (some (pre.getLast?.or prev, p)) := by
  induction pre generalizing q rounds prev with
  | nil =>
    cases h with
    | cons hnext _ =>
      obtain ⟨rounds, rfl⟩ := Nat.exists_eq_add_of_lt hrounds
      simp [search, hnext, hp]
  | cons p' pre ih =>
    cases h with
    | cons hnext hl =>
      cases rounds with
      | zero => cases hrounds
      | succ rounds =>
        rw [search, hnext]
        simp only [Option.bind_eq_bind, Option.bind_some, hpre p' List.mem_cons_self,
          Bool.false_eq_true, if_false]
        rw [ih hl (fun p hmem => hpre p (List.mem_cons_of_mem _ hmem)) (Nat.lt_of_succ_lt_succ hrounds)]
        cases pre with
        | nil => rfl
        | cons p'' pre =>
          rw [List.getLast?_cons_cons]
          cases hlast : (p'' :: pre).getLast? with
          | none => simp at hlast
          | some r => rfl

/-- Where the links before a node are kept, a chain still meets that node. -/
theorem mem_of_agree {pre post : List α} {p : α} (h : IsChain next q (pre ++ p :: post))
    (heq : ∀ r ∈ pre, next' r = next r) (h' : IsChain next' q l') : p ∈ l' := by
  induction pre generalizing q l' with
  | nil =>
    cases h with
    | cons _ _ => cases h' with | cons _ _ => exact List.mem_cons_self
  | cons r pre ih =>
    cases h with
    | cons hr hl =>
      cases h' with
      | cons hr' hl' =>
        rw [heq r List.mem_cons_self, hr] at hr'
        cases hr'
        exact List.mem_cons_of_mem _ (ih hl (fun r hmem => heq r (List.mem_cons_of_mem _ hmem)) hl')

/-- Taking a node that is not the first out of a chain: the link before it leads past it. -/
theorem unlink {pre post : List α} {prev p : α} (h : IsChain next q (pre ++ prev :: p :: post))
    (heq : ∀ r ∈ pre ++ post, next' r = next r) (hprev : next' prev = next p) :
    IsChain next' q (pre ++ prev :: post) := by
  induction pre generalizing q with
  | nil =>
    cases h with
    | cons _ hl =>
      cases hl with
      | cons hp hl =>
        refine .cons (hprev.trans hp) (hl.congr fun r hr => heq r hr)
  | cons r pre ih =>
    cases h with
    | cons hr hl =>
      refine .cons ((heq r List.mem_cons_self).trans hr) (ih hl fun r hmem => ?_)
      exact heq r (List.mem_cons_of_mem _ hmem)

/-- A node put behind the last one. -/
theorem snoc {last p : α} (h : IsChain next q (l ++ [last])) (heq : ∀ r ∈ l, next' r = next r)
    (hlast : next' last = some (some p)) (hp : next' p = some none) :
    IsChain next' q (l ++ [last, p]) := by
  induction l generalizing q with
  | nil =>
    cases h with
    | cons _ _ => exact .cons hlast (.cons hp .nil)
  | cons r l ih =>
    cases h with
    | cons hr hl =>
      exact .cons ((heq r List.mem_cons_self).trans hr) (ih hl fun r hmem => heq r (List.mem_cons_of_mem _ hmem))

end IsChain

/-- A loop that ends has followed a chain. -/
theorem isChain_of_follow {rounds : Nat} (h : follow next rounds q = some l) : IsChain next q l := by
  induction rounds generalizing q l with
  | zero =>
    cases q with
    | none => cases h; exact .nil
    | some p => cases h
  | succ rounds ih =>
    cases q with
    | none => cases h; exact .nil
    | some p =>
      rw [follow] at h
      simp only [Option.bind_eq_bind, Option.bind_eq_some_iff] at h
      obtain ⟨q', hp, l', hl', heq⟩ := h
      cases heq
      exact .cons hp (ih hl')

/-- With as many rounds as there are nodes, a loop along links ends exactly when a chain is there. -/
theorem follow_eq_some_iff {nodes : List α} (hnodes : ∀ p, (next p).isSome → p ∈ nodes) :
    follow next nodes.length q = some l ↔ IsChain next q l := by
  constructor
  · exact isChain_of_follow
  · intro h
    exact h.follow_eq (List.subperm_of_subset h.nodup fun p hp => hnodes p (h.allocated hp)).length_le

/-! ### What a loop along links meets

Without a chain a loop may still find what it looks for, before it meets a node twice or one that is not
allocated. -/

/-- Link `q` leads to `p`, which need not be allocated itself. -/
inductive Meets (next : α → Option (Option α)) : Option α → α → Prop where
  | head {p : α} : Meets next (some p) p
  | tail {p r : α} {q : Option α} (hp : next p = some q) (h : Meets next q r) : Meets next (some p) r

theorem IsChain.mem_of_meets {p : α} (h : IsChain next q l) (hp : Meets next q p) : p ∈ l := by
  induction hp generalizing l with
  | head =>
    cases h
    exact List.mem_cons_self
  | tail hnext _ ih =>
    obtain ⟨hl, hq⟩ : ∃ l', l = _ :: l' ∧ IsChain next _ l' := by
      cases h with
      | cons hp hl =>
        rw [hnext] at hp
        cases hp
        exact ⟨_, rfl, hl⟩
    rw [hq.1]
    exact List.mem_cons_of_mem _ (ih hq.2)

/-- A search that finds nothing has met null. -/
theorem isChain_of_search {hit : α → Bool} {rounds : Nat} {prev : Option α}
    (h : search next hit rounds prev q = some none) : ∃ l, IsChain next q l := by
  induction rounds generalizing q prev with
  | zero =>
    cases q with
    | none => exact ⟨[], .nil⟩
    | some p => cases h
  | succ rounds ih =>
    cases q with
    | none => exact ⟨[], .nil⟩
    | some p =>
      obtain ⟨q', hp, hrest⟩ := Option.bind_eq_some_iff.mp h
      split at hrest
      · cases hrest
      · obtain ⟨l, hl⟩ := ih hrest
        exact ⟨p :: l, .cons hp hl⟩

/-- A search finds what its link leads to. -/
theorem meets_of_search {hit : α → Bool} {rounds : Nat} {prev prev' : Option α} {p : α}
    (h : search next hit rounds prev q = some (some (prev', p))) :
    Meets next q p ∧ (next p).isSome ∧ hit p = true := by
  induction rounds generalizing q prev with
  | zero => cases q <;> cases h
  | succ rounds ih =>
    cases q with
    | none => cases h
    | some p' =>
      obtain ⟨q', hp, hrest⟩ := Option.bind_eq_some_iff.mp h
      split at hrest
      · next hhit =>
        cases hrest
        exact ⟨.head, by rw [hp]; rfl, hhit⟩
      · obtain ⟨hmeets, hfound⟩ := ih hrest
        exact ⟨.tail hp hmeets, hfound⟩

theorem search_mono {hit : α → Bool} (hnext : ∀ p q, next' p = some q → next p = some q)
    {rounds rounds' : Nat} (hrounds : rounds' ≤ rounds) {prev prev' : Option α} {r : Option α × α}
    (h : search next' hit rounds' prev' q = some (some r)) :
    ∃ r', search next hit rounds prev q = some (some r') := by
  induction rounds' generalizing q rounds prev prev' with
  | zero => cases q <;> cases h
  | succ rounds' ih =>
    cases q with
    | none => cases h
    | some p =>
      obtain ⟨rounds, rfl⟩ : ∃ n, rounds = n + 1 := ⟨rounds - 1, by omega⟩
      obtain ⟨q', hp, hrest⟩ := Option.bind_eq_some_iff.mp h
      rw [search, hnext p q' hp]
      dsimp only [Option.bind_eq_bind, Option.bind_some]
      split at hrest
      · next hhit =>
        rw [if_pos hhit]
        exact ⟨_, rfl⟩
      · next hmiss =>
        rw [if_neg hmiss]
        exact ih (by omega) hrest

section Meets

variable [DecidableEq α]

/-- On the way to another node, a node need be passed once only, at the beginning. -/
theorem Meets.avoid {p p₀ : α} (h : Meets next q p) (hne : p ≠ p₀) :
    Meets (fun r => if r = p₀ then none else next r) q p ∨
    ∃ q₀, next p₀ = some q₀ ∧ Meets (fun r => if r = p₀ then none else next r) q₀ p := by
  induction h with
  | head => exact Or.inl .head
  | @tail r p q hr _ ih =>
    rcases ih hne with hrest | hlater
    · by_cases heq : r = p₀
      · rw [heq] at hr
        exact Or.inr ⟨q, hr, hrest⟩
      · exact Or.inl (.tail (by rw [if_neg heq, hr]) hrest)
    · exact Or.inr hlater

/-- With as many rounds as there are nodes, a search finds a node if its link leads to one. -/
theorem Meets.search {hit : α → Bool} {p : α} (h : Meets next q p) (hp : (next p).isSome)
    (hhit : hit p = true) {nodes : List α} (hnodes : ∀ p, (next p).isSome → p ∈ nodes) {rounds : Nat}
    (hrounds : nodes.length ≤ rounds) (prev : Option α) :
    ∃ r, Chain.search next hit rounds prev q = some (some r) := by
  induction rounds generalizing next q nodes prev with
  | zero =>
    rw [List.length_eq_zero_iff.mp (Nat.le_zero.mp hrounds)] at hnodes
    cases hnodes p hp
  | succ rounds ih =>
    cases q with
    | none => cases h
    | some p₀ =>
      obtain ⟨q', hnext⟩ : ∃ q', next p₀ = some q' := by
        cases h with
        | head => exact Option.isSome_iff_exists.mp hp
        | tail hp₀ _ => exact ⟨_, hp₀⟩
      rw [Chain.search, hnext]
      dsimp only [Option.bind_eq_bind, Option.bind_some]
      split
      · exact ⟨_, rfl⟩
      · next hmiss =>
        have hne : p ≠ p₀ := fun heq => hmiss (heq ▸ hhit)
        have hrest : Meets (fun r => if r = p₀ then none else next r) q' p := by
          have htail : Meets next q' p := by
            cases h with
            | head => exact absurd rfl hne
            | tail hp₀ h =>
              rw [hnext] at hp₀
              cases hp₀
              exact h
          rcases htail.avoid hne with hrest | ⟨q₀, hq₀, hrest⟩
          · exact hrest
          · rw [hnext] at hq₀
            cases hq₀
            exact hrest
        have hmem : p₀ ∈ nodes := hnodes p₀ (by rw [hnext]; rfl)
        have hlength := List.length_erase_of_mem hmem
        have hpos := List.length_pos_of_mem hmem
        have hothers : ∀ r, (if r = p₀ then none else next r).isSome → r ∈ nodes.erase p₀ := by
          intro r hr
          split at hr
          · cases hr
          · next hother => exact (List.mem_erase_of_ne hother).mpr (hnodes r hr)
        obtain ⟨r, hr⟩ := ih hrest (by rwa [if_neg hne]) hothers (by omega) (some p₀)
        refine search_mono (fun r q hr => ?_) (Nat.le_refl _) hr
        split at hr
        · cases hr
        · exact hr

end Meets

end Chain
