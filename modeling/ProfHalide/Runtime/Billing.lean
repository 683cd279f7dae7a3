import ProfHalide.Runtime.SoundList
import Mathlib

/-!
# Billing samples

What a sequence of samples leaves in the records is what a plain map would hold that has one account for
each pipeline and one for each func: a sample adds to the two accounts of its func id and to no other.
That the records are a list, and that the list is rearranged while it is searched, cannot be seen.
-/

namespace ProfHalide

open Std Chain

structure Sample where
  funcId : Int
  time : UInt64
  activeThreads : Int
  deriving DecidableEq, Repr

instance Int32.addCommMonoid : AddCommMonoid Int32 where
  add_assoc := Int32.add_assoc
  zero_add := Int32.zero_add
  add_zero := Int32.add_zero
  add_comm := Int32.add_comm
  nsmul := nsmulRec

/-- Time, samples, active threads, and how often these were added up, with the arithmetic of the fields that
hold them. -/
abbrev Amounts := UInt64 × Int32 × UInt64 × UInt64

/-- What a sample adds to its func. -/
def Sample.funcAmounts (c : Sample) : Amounts := (c.time, 0, UInt64.ofInt c.activeThreads, 1)

/-- What it adds to the pipeline. -/
def Sample.pipelineAmounts (c : Sample) : Amounts := (c.time, 1, UInt64.ofInt c.activeThreads, 1)

inductive Account where
  | pipeline (p : Ptr)
  | func (p : Ptr) (i : Nat)
  deriving DecidableEq, Repr

abbrev Book := Account → Amounts

/-- What a sample adds to each account, given the record and the index of each func id. -/
def Sample.entry (place : Int → Option (Ptr × Nat)) (c : Sample) : Book :=
  match place c.funcId with
  | none => 0
  | some (p, i) => fun
    | .pipeline q => if p = q then c.pipelineAmounts else 0
    | .func q j => if p = q ∧ i = j then c.funcAmounts else 0

/-- The plain map. -/
def Book.bill (place : Int → Option (Ptr × Nat)) (book : Book) (c : Sample) : Book :=
  book + c.entry place

theorem Book.foldl_bill_perm {place : Int → Option (Ptr × Nat)} {samples samples' : List Sample}
    (h : samples'.Perm samples) (book : Book) :
    samples'.foldl (Book.bill place) book = samples.foldl (Book.bill place) book := by
  apply h.foldl_eq'
  intro c _ c' _ book
  exact add_right_comm book (c.entry place) (c'.entry place)

/-! ### The accounts in the records -/

def FuncStats.amounts (fs : FuncStats) : Amounts :=
  (fs.time, 0, fs.activeThreadsNumerator, fs.activeThreadsDenominator)

def FuncStats.unbilled (fs : FuncStats) : FuncStats :=
  { fs with time := 0, activeThreadsNumerator := 0, activeThreadsDenominator := 0 }

namespace PipelineStats

variable (stats : PipelineStats)

def amounts : Amounts :=
  (stats.time, stats.samples, stats.activeThreadsNumerator, stats.activeThreadsDenominator)

/-- All of a record that samples do not touch. -/
def unbilled : PipelineStats :=
  { stats with
    time := 0
    samples := 0
    activeThreadsNumerator := 0
    activeThreadsDenominator := 0
    funcs := stats.funcs.map FuncStats.unbilled }

/-- Where the func ids of a record begin, how many it says there are, and how many funcs it has. -/
def ids : Int × Int × Nat := (stats.firstFuncId, stats.numFuncs, stats.funcs.length)

variable {stats} {funcId : Int} {time : UInt64} {activeThreads : Int}

theorem unbilled_bill : (stats.bill funcId time activeThreads).unbilled = stats.unbilled := by
  have hfuncs : (stats.bill funcId time activeThreads).funcs.map FuncStats.unbilled
      = stats.funcs.map FuncStats.unbilled := by
    apply List.ext_getElem?
    intro i
    rw [bill, List.getElem?_map, List.getElem?_modify, List.getElem?_map]
    cases stats.funcs[i]? with
    | none => rfl
    | some fs => split <;> rfl
  rw [unbilled, hfuncs]
  rfl

theorem ids_of_unbilled {stats' : PipelineStats} (h : stats'.unbilled = stats.unbilled) :
    stats'.ids = stats.ids := by
  have hids : ∀ stats : PipelineStats, stats.unbilled.ids = stats.ids := by
    intro stats
    simp [ids, unbilled]
  rw [← hids stats', h, hids]

theorem containsFunc_of_ids {stats' : PipelineStats} (h : stats'.ids = stats.ids) (funcId : Int) :
    stats'.containsFunc funcId = stats.containsFunc funcId := by
  simp only [ids, Prod.mk.injEq] at h
  rw [containsFunc, containsFunc, h.1, h.2.1]

theorem amounts_bill (stats : PipelineStats) (c : Sample) :
    (stats.bill c.funcId c.time c.activeThreads).amounts = stats.amounts + c.pipelineAmounts := rfl

/-- A sample is added to its func, where the array has one. -/
theorem getElem?_funcs_bill (i : Nat) :
    ((stats.bill funcId time activeThreads).funcs[i]?).map FuncStats.amounts
      = (stats.funcs[i]?).map fun fs => fs.amounts +
        if (funcId - stats.firstFuncId).toNat = i then (Sample.mk funcId time activeThreads).funcAmounts
        else 0 := by
  rw [bill, List.getElem?_modify]
  cases stats.funcs[i]? with
  | none => rfl
  | some fs =>
    split
    · rfl
    · simp

end PipelineStats

namespace PapiState

/-- What the records hold. -/
def book (s : PapiState) : Book
  | .pipeline p => ((s.content p).map (·.amounts)).getD 0
  | .func p i => (((s.content p).bind (·.funcs[i]?)).map (·.amounts)).getD 0

/-- The record of a list that contains a func, and the index there. -/
def place (s : PapiState) (l : List Ptr) (funcId : Int) : Option (Ptr × Nat) := do
  let p ← l.find? fun p => s.test p (·.containsFunc funcId)
  let stats ← s.content p
  return (p, (funcId - stats.firstFuncId).toNat)

def billAll (s : PapiState) (samples : List Sample) : Option PapiState :=
  samples.foldlM
    (fun s c => (s.billFunc c.funcId c.time c.activeThreads).map (·.state)) s

/-- The list meets these records and then null, each record has as many funcs as it says, and no func id
belongs to two of them. -/
structure Listed (s : PapiState) (l : List Ptr) : Prop where
  chain : IsChain s.next s.pipelines l
  sized : ∀ p ∈ l, ∀ stats, s.content p = some stats → stats.funcs.length = stats.numFuncs.toNat
  disjoint : ∀ p ∈ l, ∀ q ∈ l, p ≠ q → ∀ statsP statsQ, s.content p = some statsP →
    s.content q = some statsQ → ∀ funcId,
    ¬ (statsP.containsFunc funcId = true ∧ statsQ.containsFunc funcId = true)

/-- The samples have been added to the records as to a plain map; the list meets the same records. -/
structure BilledAs (s : PapiState) (l : List Ptr) (samples : List Sample) (s' : PapiState) : Prop where
  list : ∃ l', IsChain s'.next s'.pipelines l' ∧ l'.Perm l
  book : s'.book = samples.foldl (Book.bill (s.place l)) s.book
  /-- Nothing else changes in a record, and no record comes or goes. -/
  others : ∀ p, (s'.content p).map (·.unbilled) = (s.content p).map (·.unbilled)
  globals : s' = { s with pipelines := s'.pipelines, records := s'.records }

variable {s s' t : PapiState} {l l' : List Ptr} {funcId : Int}

theorem test_eq (p : Ptr) (funcId : Int) :
    s.test p (·.containsFunc funcId) = (s.content p).any (·.containsFunc funcId) := by
  rw [test, content, Option.any_map]
  rfl

theorem Listed.exists_content (h : s.Listed l) {p : Ptr} (hp : p ∈ l) : ∃ stats, s.content p = some stats :=
  Option.isSome_iff_exists.mp (mem_iff_content.mp (mem_of_next (h.chain.allocated hp)))

theorem Listed.place_eq_some_iff (h : s.Listed l) {p : Ptr} {i : Nat} :
    s.place l funcId = some (p, i) ↔ p ∈ l ∧ ∃ stats, s.content p = some stats ∧
      stats.containsFunc funcId = true ∧ (funcId - stats.firstFuncId).toNat = i := by
  constructor
  · intro hplace
    simp only [place, Option.bind_eq_bind, Option.bind_eq_some_iff, Option.pure_def, Option.some.injEq,
      Prod.mk.injEq] at hplace
    obtain ⟨q, hfind, stats, hstats, rfl, hi⟩ := hplace
    have htest := List.find?_some hfind
    rw [test_eq, hstats] at htest
    exact ⟨List.mem_of_find?_eq_some hfind, stats, hstats, htest, hi⟩
  · intro hp
    obtain ⟨hmem, stats, hstats, hcontains, hi⟩ := hp
    have hhit : s.test p (·.containsFunc funcId) = true := by
      rw [test_eq, hstats]
      exact hcontains
    cases hfind : l.find? fun p => s.test p (·.containsFunc funcId) with
    | none => exact absurd hhit (List.find?_eq_none.mp hfind p hmem)
    | some q =>
      have htest := List.find?_some hfind
      obtain ⟨statsQ, hstatsQ⟩ := h.exists_content (List.mem_of_find?_eq_some hfind)
      rw [test_eq, hstatsQ] at htest
      have heq : p = q := by
        by_contra hne
        exact h.disjoint p hmem q (List.mem_of_find?_eq_some hfind) hne stats statsQ hstats hstatsQ
          funcId ⟨hcontains, htest⟩
      rw [place, hfind, ← heq]
      simp [hstats, hi]

theorem Listed.place_eq_none_iff (h : s.Listed l) :
    s.place l funcId = none ↔ ∀ p ∈ l, s.test p (·.containsFunc funcId) = false := by
  constructor
  · intro hplace p hp
    apply Bool.eq_false_iff.mpr
    intro htest
    obtain ⟨stats, hstats⟩ := h.exists_content hp
    rw [test_eq, hstats] at htest
    have hsome := h.place_eq_some_iff.mpr ⟨hp, stats, hstats, htest, rfl⟩
    rw [hplace] at hsome
    cases hsome
  · intro hnone
    rw [place, List.find?_eq_none.mpr fun p hp => by simp [hnone p hp]]
    rfl

/-- Records that keep their func ids stay a list, in whatever order. -/
theorem Listed.of_ids (h : s.Listed l) (hperm : l'.Perm l) (hchain : IsChain s'.next s'.pipelines l')
    (hids : ∀ p ∈ l, (s'.content p).map (·.ids) = (s.content p).map (·.ids)) :
    s'.Listed l' ∧ s'.place l' = s.place l := by
  have hold : ∀ p ∈ l', ∀ stats', s'.content p = some stats' → ∃ stats, s.content p = some stats ∧
      stats'.ids = stats.ids := by
    intro p hp stats' hstats'
    have heq := hids p (hperm.mem_iff.mp hp)
    rw [hstats'] at heq
    obtain ⟨stats, hstats, heq⟩ := Option.map_eq_some_iff.mp heq.symm
    exact ⟨stats, hstats, heq.symm⟩
  have hlisted : s'.Listed l' := by
    refine ⟨hchain, fun p hp stats' hstats' => ?_, fun p hp q hq hne statsP statsQ hP hQ funcId => ?_⟩
    · obtain ⟨stats, hstats, heq⟩ := hold p hp stats' hstats'
      simp only [PipelineStats.ids, Prod.mk.injEq] at heq
      rw [heq.2.1, heq.2.2]
      exact h.sized p (hperm.mem_iff.mp hp) stats hstats
    · obtain ⟨oldP, holdP, heqP⟩ := hold p hp statsP hP
      obtain ⟨oldQ, holdQ, heqQ⟩ := hold q hq statsQ hQ
      rw [PipelineStats.containsFunc_of_ids heqP, PipelineStats.containsFunc_of_ids heqQ]
      exact h.disjoint p (hperm.mem_iff.mp hp) q (hperm.mem_iff.mp hq) hne oldP oldQ holdP holdQ funcId
  refine ⟨hlisted, funext fun funcId => Option.ext fun r => ?_⟩
  obtain ⟨p, i⟩ := r
  rw [hlisted.place_eq_some_iff, h.place_eq_some_iff, hperm.mem_iff]
  refine and_congr_right fun hp => ⟨fun hr => ?_, fun hr => ?_⟩
  · obtain ⟨stats', hstats', hhit, hi⟩ := hr
    obtain ⟨stats, hstats, heq⟩ := hold p (hperm.mem_iff.mpr hp) stats' hstats'
    rw [PipelineStats.containsFunc_of_ids heq] at hhit
    simp only [PipelineStats.ids, Prod.mk.injEq] at heq
    rw [heq.1] at hi
    exact ⟨stats, hstats, hhit, hi⟩
  · obtain ⟨stats, hstats, hhit, hi⟩ := hr
    obtain ⟨stats', hstats'⟩ := hlisted.exists_content (hperm.mem_iff.mpr hp)
    obtain ⟨old, hold, heq⟩ := hold p (hperm.mem_iff.mpr hp) stats' hstats'
    rw [hstats] at hold
    cases hold
    rw [← PipelineStats.containsFunc_of_ids heq] at hhit
    simp only [PipelineStats.ids, Prod.mk.injEq] at heq
    rw [← heq.1] at hi
    exact ⟨stats', hstats', hhit, hi⟩

theorem map_ids_of_unbilled {p : Ptr}
    (h : (s'.content p).map (·.unbilled) = (s.content p).map (·.unbilled)) :
    (s'.content p).map (·.ids) = (s.content p).map (·.ids) := by
  cases hstats' : s'.content p with
  | none =>
    rw [hstats'] at h
    rw [Option.map_eq_none_iff.mp h.symm]
  | some stats' =>
    rw [hstats'] at h
    obtain ⟨stats, hstats, heq⟩ := Option.map_eq_some_iff.mp h.symm
    rw [hstats]
    exact congrArg some (PipelineStats.ids_of_unbilled heq.symm)

/-! ### One sample -/

/-- The books after a sample of a record of the list. -/
theorem Listed.book_bill (h : s.Listed l) {p : Ptr} (hp : p ∈ l) {stats : PipelineStats}
    (hstats : s.content p = some stats) {c : Sample} (hcontains : stats.containsFunc c.funcId = true)
    (hcontent : ∀ q, s'.content q = if p = q then some (stats.bill c.funcId c.time c.activeThreads)
      else s.content q) : s'.book = s.book.bill (s.place l) c := by
  have hplace := h.place_eq_some_iff.mpr ⟨hp, stats, hstats, hcontains, rfl⟩
  have hindex : (c.funcId - stats.firstFuncId).toNat < stats.funcs.length := by
    rw [PipelineStats.containsFunc, Bool.and_eq_true, decide_eq_true_eq, decide_eq_true_eq] at hcontains
    rw [h.sized p hp stats hstats]
    omega
  funext account
  rw [Book.bill, Pi.add_apply, Sample.entry, hplace]
  cases account with
  | pipeline q =>
    rw [book, hcontent, book]
    by_cases heq : p = q
    · rw [if_pos heq, ← heq, hstats]
      simp [PipelineStats.amounts_bill]
    · rw [if_neg heq]
      simp [heq]
  | func q i =>
    rw [book, hcontent, book]
    by_cases heq : p = q
    · rw [if_pos heq, Option.bind_some, PipelineStats.getElem?_funcs_bill, ← heq, hstats,
        Option.bind_some]
      cases hfs : stats.funcs[i]? with
      | none =>
        have hne : (c.funcId - stats.firstFuncId).toNat ≠ i := by
          have hlength := List.getElem?_eq_none_iff.mp hfs
          omega
        simp [hne]
      | some fs => simp
    · rw [if_neg heq]
      simp [heq]

/-- What one sample does to the list `l`, which becomes `l'`. -/
structure BillsOnce (s : PapiState) (l : List Ptr) (c : Sample) (s' : PapiState) (l' : List Ptr) :
    Prop where
  listed : s'.Listed l'
  perm : l'.Perm l
  place : s'.place l' = s.place l
  book : s'.book = s.book.bill (s.place l) c
  others : ∀ p, (s'.content p).map (·.unbilled) = (s.content p).map (·.unbilled)
  globals : s' = { s with pipelines := s'.pipelines, records := s'.records }
  head : l'.head? = ((s.place l c.funcId).map Prod.fst).or l.head?
  none : s.place l c.funcId = none → s' = s
  outside : ∀ q ∉ l, s'.records[q]? = s.records[q]?

/-- One sample: added to the accounts of its func, or to none. -/
theorem Listed.billFunc (h : s.Listed l) (c : Sample) :
    ∃ s' l', s.billFunc c.funcId c.time c.activeThreads = some { ret := 0, state := s', effects := [] } ∧
      s.BillsOnce l c s' l' := by
  rcases billFunc_chain h.chain c.funcId c.time c.activeThreads with ⟨hbill, hnone⟩ |
    ⟨pre, p, post, s', stats, rfl, _, hbill, hchain, hglobals, hstats, hcontains, hcontent,
      houtside⟩
  · have hplace := h.place_eq_none_iff.mpr hnone
    refine ⟨s, l, hbill, h, .rfl, rfl, ?_, fun _ => rfl, rfl, ?_, fun _ => rfl, fun _ _ => rfl⟩
    · rw [Book.bill, Sample.entry, hplace]
      exact (add_zero s.book).symm
    · rw [hplace]
      rfl
  · have hmem : p ∈ pre ++ p :: post := by simp
    have hothers : ∀ q, (s'.content q).map (·.unbilled) = (s.content q).map (·.unbilled) := by
      intro q
      rw [hcontent]
      split
      · next heq =>
        rw [← heq, hstats]
        exact congrArg some PipelineStats.unbilled_bill
      · rfl
    have hperm : (p :: (pre ++ post)).Perm (pre ++ p :: post) := List.perm_middle.symm
    obtain ⟨hlisted, hsame⟩ := h.of_ids hperm hchain fun q _ => map_ids_of_unbilled (hothers q)
    have hplace := h.place_eq_some_iff.mpr ⟨hmem, stats, hstats, hcontains, rfl⟩
    refine ⟨s', _, hbill, hlisted, hperm, hsame, h.book_bill hmem hstats hcontains hcontent, hothers,
      hglobals, ?_, fun hnone => ?_, houtside⟩
    · rw [hplace]
      rfl
    · rw [hplace] at hnone
      cases hnone

/-- Whatever the func ids are, a sample leaves a list of the same records. -/
theorem exists_chain_billFunc (h : IsChain s.next s.pipelines l) (c : Sample) :
    ∃ s' l', s.billFunc c.funcId c.time c.activeThreads = some { ret := 0, state := s', effects := [] } ∧
      IsChain s'.next s'.pipelines l' ∧ l'.Perm l ∧
      (∀ p, (s'.content p).map (·.ids) = (s.content p).map (·.ids)) ∧
      s' = { s with pipelines := s'.pipelines, records := s'.records } := by
  rcases billFunc_chain h c.funcId c.time c.activeThreads with ⟨hbill, _⟩ |
    ⟨pre, p, post, s', stats, rfl, _, hbill, hchain, hglobals, hstats, _, hcontent, _⟩
  · exact ⟨s, l, hbill, h, .rfl, fun _ => rfl, rfl⟩
  · refine ⟨s', _, hbill, hchain, List.perm_middle.symm, fun q => ?_, hglobals⟩
    rw [hcontent]
    split
    · next heq =>
      rw [← heq, hstats]
      exact congrArg some (PipelineStats.ids_of_unbilled PipelineStats.unbilled_bill)
    · rfl

/-! ### Runs -/

theorem Listed.billAll (h : s.Listed l) (samples : List Sample) :
    ∃ s', s.billAll samples = some s' ∧ s.BilledAs l samples s' := by
  induction samples generalizing s l with
  | nil => exact ⟨s, rfl, ⟨l, h.chain, .rfl⟩, rfl, fun _ => rfl, rfl⟩
  | cons c samples ih =>
    obtain ⟨s₁, l₁, hbill, honce⟩ := h.billFunc c
    obtain ⟨s', hall, hbilled⟩ := ih honce.listed
    obtain ⟨l', hchain, hperm⟩ := hbilled.list
    refine ⟨s', ?_, ⟨l', hchain, hperm.trans honce.perm⟩, ?_, fun p => ?_, ?_⟩
    · rw [PapiState.billAll, List.foldlM_cons, hbill]
      exact hall
    · rw [hbilled.book, honce.place, honce.book]
      rfl
    · exact (hbilled.others p).trans (honce.others p)
    · rw [hbilled.globals, honce.globals]

/-- A sample of no record leaves everything as it is, wherever it comes. -/
theorem Listed.billAll_of_place_eq_none (h : s.Listed l) (before : List Sample) {c : Sample}
    (hnone : s.place l c.funcId = none) : s.billAll (before ++ [c]) = s.billAll before := by
  obtain ⟨s', hall, hbilled⟩ := h.billAll before
  obtain ⟨l', hchain, hperm⟩ := hbilled.list
  obtain ⟨hlisted, hplace⟩ := h.of_ids hperm hchain fun p _ =>
    map_ids_of_unbilled (hbilled.others p)
  obtain ⟨s'', _, hbill, honce⟩ := hlisted.billFunc c
  have hlast : s'.billAll [c] = some s' := by
    rw [PapiState.billAll, List.foldlM_cons, hbill, honce.none (by rw [hplace, hnone])]
    rfl
  have happend : s.billAll (before ++ [c]) = (s.billAll before).bind (·.billAll [c]) :=
    List.foldlM_append
  rw [happend, hall, Option.bind_some, hlast]

/-- The order of the list and of the samples makes no difference to the accounts, which are those of a
plain map. -/
theorem billAll_unobservable (hs : s.Listed l) {k : List Ptr} (ht : IsChain t.next t.pipelines k)
    (hperm : k.Perm l) (hcontent : ∀ p, t.content p = s.content p) {samples samples' : List Sample}
    (hsamples : samples'.Perm samples) :
    ∃ s' t', s.billAll samples = some s' ∧ t.billAll samples' = some t' ∧
      s.BilledAs l samples s' ∧ t.BilledAs k samples' t' ∧ t'.book = s'.book ∧
      ∀ before c after, samples = before ++ c :: after → s.place l c.funcId = none →
        s.billAll (before ++ [c]) = s.billAll before := by
  obtain ⟨hlisted, hplace⟩ := hs.of_ids hperm ht fun p _ => by rw [hcontent]
  obtain ⟨s', hall, hbilled⟩ := hs.billAll samples
  obtain ⟨t', hall', hbilled'⟩ := hlisted.billAll samples'
  have hbook : t.book = s.book := by
    funext account
    cases account <;> simp only [book, hcontent]
  refine ⟨s', t', hall, hall', hbilled, hbilled', ?_, fun before c _ _ hnone => ?_⟩
  · rw [hbilled'.book, hplace, hbook, Book.foldl_bill_perm hsamples, hbilled.book]
  · exact hs.billAll_of_place_eq_none before hnone

/-- The lists that starts and samples make are of this kind. -/
theorem Linked.listed (h : s.Linked l) (hapart : s.Apart)
    (hsized : ∀ p stats, s.content p = some stats → stats.funcs.length = stats.numFuncs.toNat) :
    s.Listed l where
  chain := h.chain
  sized p _ := hsized p
  disjoint p _ q _ hne statsP statsQ hP hQ := hapart.disjoint p q statsP statsQ hP hQ hne

/-- Two pipelines of one func each. -/
def twoStarted : PapiState := (initial.install (oneFunc 7) 1).install (oneFunc 8) 2

theorem twoStarted_listed : twoStarted.Listed [2, 1] := by
  have hfirst := linked_initial.install (oneFunc 7) (p := 1) (by decide)
  refine (hfirst.install (oneFunc 8) (p := 2) (by decide)).listed ?_ fun p stats hstats => ?_
  · exact ((emptied_initial.apart le_rfl).install (a := oneFunc 7) (by decide) 1).install
      (a := oneFunc 8) (by decide) 2
  · rw [content_install, content_install] at hstats
    split at hstats
    · cases hstats
      rfl
    · split at hstats
      · cases hstats
        rfl
      · cases hstats

theorem billAll_unobservable_twoStarted : ∃ s' t',
    twoStarted.billAll [⟨0, 5, 2⟩, ⟨1, 3, 1⟩, ⟨9, 1, 1⟩] = some s' ∧
      twoStarted.billAll [⟨9, 1, 1⟩, ⟨1, 3, 1⟩, ⟨0, 5, 2⟩] = some t' ∧ t'.book = s'.book := by
  obtain ⟨s', t', hs', ht', _, _, hbook, _⟩ := billAll_unobservable twoStarted_listed
    twoStarted_listed.chain .rfl (fun _ => rfl)
    (List.reverse_perm [(⟨0, 5, 2⟩ : Sample), ⟨1, 3, 1⟩, ⟨9, 1, 1⟩])
  exact ⟨s', t', hs', ht', hbook⟩

end PapiState

end ProfHalide
