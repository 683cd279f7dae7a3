import ProfHalide.Perfctr.Library
import Mathlib.Algebra.Order.Field.Rat
import Mathlib.Tactic.NormNum

/-!
# One session after another

Starting up clears less than the sessions before have left: the threads keep their places in both libraries,
the start times and the bytes of the names stay in one, and the counters and most of the flags in the other.
Two pasts are told apart by some later session exactly if they differ in one of these.
-/

namespace ProfHalide

open Machine

namespace ThreadTable

variable {ε : Type} {fresh : ε → ε} {s t : ThreadTable ε} {ks ks' : List (BitVec 32)}
  {self : Pthread} {i : Fin MAX_THREADS}

/-- The place that a call finds. -/
def foundIdx (fresh : ε → ε) (s : ThreadTable ε) (self : Pthread) : Option (Option (Fin MAX_THREADS)) :=
  (s.findOrInsertThread fresh self).map fun r => r.1.idx

theorem foundIdx_eq_iff (h : Slots.OwnedBy s.owners ks) (hunlocked : s.locked = false)
    (fresh : ε → ε) (self : Pthread) (i : Fin MAX_THREADS) :
    s.foundIdx fresh self = some (some i) ↔
      s.owners i = some self.thid ∨ self.thid ∉ ks ∧ ks.length = i.val := by
  by_cases hmem : self.thid ∈ ks
  · obtain ⟨j, hj, hfound⟩ := findOrInsertThread_of_mem fresh h hmem
    rw [foundIdx, hfound]
    constructor
    · intro heq
      cases heq
      exact Or.inl hj
    · rintro (hi | ⟨hnot, _⟩)
      · rw [h.eq_of_get hi hj]
        rfl
      · exact absurd hmem hnot
  · have hnone : s.owners i ≠ some self.thid := fun hi => hmem (h.mem_iff.mpr ⟨i, hi⟩)
    rcases Nat.lt_or_eq_of_le h.length_le with hlt | hfull
    · obtain ⟨hfound, _⟩ := findOrInsertThread_of_lt fresh h hunlocked hmem hlt
      rw [foundIdx, hfound]
      constructor
      · intro heq
        cases heq
        exact Or.inr ⟨hmem, rfl⟩
      · rintro (hi | ⟨_, hlength⟩)
        · exact absurd hi hnone
        · exact congrArg (fun j => some (some j)) (Fin.ext hlength)
    · rw [foundIdx, findOrInsertThread_of_full fresh h hunlocked hmem hfull]
      constructor
      · intro heq
        cases heq
      · rintro (hi | ⟨_, hlength⟩)
        · exact absurd hi hnone
        · omega

theorem exists_not_mem (ks : List (BitVec 32)) (h : ks.length ≤ 2 * MAX_THREADS) : ∃ k, k ∉ ks := by
  by_contra hall
  push Not at hall
  have hnodup : ((List.range (2 * MAX_THREADS + 1)).map (BitVec.ofNat 32)).Nodup := by decide
  have hle := (hnodup.subperm fun k _ => hall k).length_le
  rw [List.length_map, List.length_range] at hle
  omega

theorem thid_setWidth (k : BitVec 32) : Pthread.thid (k.setWidth 64) = k := by
  rw [Pthread.thid]
  exact BitVec.setWidth_setWidth_of_le _ (by decide)

/-- A place that is set in one table is set in the other, if all calls find the same. -/
theorem owners_eq_some (h : Slots.OwnedBy s.owners ks) (h' : Slots.OwnedBy t.owners ks')
    (hs : s.locked = false) (ht : t.locked = false)
    (hsame : ∀ self, s.foundIdx fresh self = t.foundIdx fresh self) {k : BitVec 32}
    (hi : s.owners i = some k) : t.owners i = some k := by
  have hfound := (foundIdx_eq_iff h hs fresh (k.setWidth 64) i).mpr
    (by rw [thid_setWidth]; exact Or.inl hi)
  rw [hsame, foundIdx_eq_iff h' ht, thid_setWidth] at hfound
  rcases hfound with hfound | ⟨_, hlength⟩
  · exact hfound
  · -- Another thread is new to both tables, and finds this place in one of them only.
    obtain ⟨z, hz⟩ := exists_not_mem (ks ++ ks') (by
      have hle := h.length_le
      have hle' := h'.length_le
      rw [List.length_append]
      omega)
    rw [List.mem_append, not_or] at hz
    have hnew := (foundIdx_eq_iff h' ht fresh (z.setWidth 64) i).mpr
      (by rw [thid_setWidth]; exact Or.inr ⟨hz.2, hlength⟩)
    rw [← hsame, foundIdx_eq_iff h hs, thid_setWidth] at hnew
    rcases hnew with hnew | ⟨_, hlength'⟩
    · exact absurd (h.mem_iff.mpr ⟨i, hnew⟩) hz.1
    · rw [h.get, List.getElem?_eq_none (Nat.le_of_eq hlength')] at hi
      cases hi

theorem owners_eq (fresh : ε → ε) (h : Slots.OwnedBy s.owners ks) (h' : Slots.OwnedBy t.owners ks')
    (hs : s.locked = false) (ht : t.locked = false)
    (hsame : ∀ self, s.foundIdx fresh self = t.foundIdx fresh self) : s.owners = t.owners := by
  funext i
  cases hi : s.owners i with
  | some k => rw [owners_eq_some h h' hs ht hsame hi]
  | none =>
    cases hi' : t.owners i with
    | none => rfl
    | some k =>
      rw [owners_eq_some h' h ht hs (fun self => (hsame self).symm) hi'] at hi
      cases hi

end ThreadTable

/-! ### The time library -/

namespace TimeApi

/-- The state after a session, shut down. -/
def session (s : State) (events : List (Pthread × Call)) : Option State :=
  (run step (s.init 0).2 events).map Prod.fst

def sessions (s : State) (past : List (List (Pthread × Call))) : Option State := past.foldlM session s

def Call.registers (m : Marker) : Call → Bool
  | .register _ m' => m' = m
  | _ => false

/-- What is to be seen of a session. -/
structure Observed where
  timersAccum : Marker → Fin MAX_THREADS → ℚ
  timersAccumFlag : Marker → Fin MAX_THREADS → Bool
  /-- The names of the markers that are registered. -/
  names : Marker → Option (List Char)
  returned : List Returned
  text : List Char

/-- A session that starts successfully, as far as its shutdown. -/
def observe (percentF : ℚ → List Char) (s : State) (events : List (Pthread × Call)) :
    Option Observed :=
  (run step (s.init 0).2 events).map fun (s', returned) => {
    timersAccum := s'.timersAccum
    timersAccumFlag := s'.timersAccumFlag
    names := fun m => if events.any fun e => e.2.registers m then some (s'.markerName m) else none
    returned := returned
    text := s'.shutdown.flatMap (Line.text percentF) }

/-- What starting up does not clear. -/
structure SameLeft (s t : State) : Prop where
  owners : s.table.owners = t.table.owners
  startTimes : s.startTimes = t.startTimes
  markerNames : s.markerNames = t.markerNames

/-- The table has been filled in order, and the places that are not set have not been used. -/
structure Sound (s : State) : Prop where
  owned : ∃ ks, Slots.OwnedBy s.table.owners ks
  unused : ∀ i, s.table.owners i = none → s.startTimes i = 0

section

variable {s t : State} {self : Pthread} {events : List (Pthread × Call)}

theorem Sound.init (h : Sound s) : Sound (s.init 0).2 := ⟨h.owned, h.unused⟩

theorem Sound.step (h : Sound s) {call : Call} {out : List Returned}
    (hstep : TimeApi.step s (self, call) = some (t, out)) : Sound t := by
  obtain ⟨ks, howned⟩ := h.owned
  rcases step_cases hstep with ⟨marker, m, _, rfl, _⟩ | ⟨⟨idx, inserted⟩, table, hfound, hcall⟩
  · exact ⟨⟨ks, howned⟩, h.unused⟩
  · obtain ⟨howned', hcaller, hfree⟩ := ThreadTable.findOrInsertThread_sound howned hfound
    have hunused : ∀ i, table.owners i = none → s.startTimes i = 0 := fun i hi => h.unused i (hfree i hi)
    rcases hcall with ⟨m, now, _, heq⟩ | ⟨m, now, _, heq⟩ <;> cases idx <;> cases heq
    · exact ⟨howned', hunused⟩
    · next j =>
      refine ⟨howned', fun i hi => ?_⟩
      have hne : i ≠ j := fun heq => by
        have hcaller := hcaller j rfl
        rw [← heq] at hcaller
        exact absurd (hcaller.symm.trans hi) nofun
      exact (Function.update_of_ne hne ..).trans (hunused i hi)
    · exact ⟨howned', hunused⟩
    · exact ⟨howned', hunused⟩

theorem Sound.run {out : List Returned} (h : Sound s)
    (hrun : Machine.run TimeApi.step s events = some (t, out)) : Sound t :=
  run_keeps (fun _ _ _ _ hs (_ : True) hstep => hs.step hstep) (fun _ _ => trivial) h hrun

theorem Sound.sessions {past : List (List (Pthread × Call))} (h : Sound s)
    (hpast : TimeApi.sessions s past = some t) : Sound t := by
  induction past generalizing s with
  | nil =>
    cases hpast
    exact h
  | cons events past ih =>
    obtain ⟨s₁, hsession, hrest⟩ := Option.bind_eq_some_iff.mp hpast
    obtain ⟨⟨s₂, out⟩, hrun, rfl⟩ := Option.map_eq_some_iff.mp hsession
    exact ih (h.init.run hrun) hrest

theorem sound_initial : Sound State.initial :=
  ⟨⟨[], ThreadTable.owners_initial ()⟩, fun _ _ => rfl⟩

/-- What later calls depend on. -/
def State.seen (s : State) :=
  (s.table.owners, s.table.locked, s.startTimes, s.timersAccum, s.timersAccumFlag, s.markerNames)

theorem step_congr (e : Pthread × Call) (h : s.seen = t.seen) :
    (step s e).map (Prod.map State.seen id) = (step t e).map (Prod.map State.seen id) := by
  obtain ⟨self, call⟩ := e
  obtain ⟨table, startTimes, timersAccum, timersAccumFlag, markerNames⟩ := s
  obtain ⟨table', _, _, _, _⟩ := t
  simp only [State.seen, Prod.mk.injEq] at h
  obtain ⟨howners, hlocked, rfl, rfl, rfl, rfl⟩ := h
  have halike := ThreadTable.findOrInsertThread_alike howners hlocked id self
  cases call with
  | register marker m =>
    simp only [step, answer, State.markerRegister]
    split <;> simp [State.seen, howners, hlocked]
  | start m now =>
    rcases halike with ⟨hnone, hnone'⟩ | ⟨⟨idx, inserted⟩, s', t', hs, ht, howners', hlocked'⟩
    · simp [step, answer, State.markerStart, State.findOrInsertThread, hnone, hnone']
    · rw [step_start hs, step_start ht]
      cases idx <;> simp [State.startFound, State.setStart, State.seen, howners', hlocked']
  | stop m now =>
    rcases halike with ⟨hnone, hnone'⟩ | ⟨⟨idx, inserted⟩, s', t', hs, ht, howners', hlocked'⟩
    · simp [step, answer, State.markerStop, State.findOrInsertThread, hnone, hnone']
    · rw [step_stop hs, step_stop ht]
      cases idx <;> simp [State.stopFound, State.addTime, State.seen, howners', hlocked']

theorem markerName_congr (h : s.markerNames = t.markerNames) (m : Marker) :
    s.markerName m = t.markerName m := by
  rw [State.markerName, State.markerName, h]

theorem shutdown_congr (haccum : s.timersAccum = t.timersAccum)
    (hflag : s.timersAccumFlag = t.timersAccumFlag) (hnames : s.markerNames = t.markerNames) :
    s.shutdown = t.shutdown := by
  have hslowest : s.slowestOf = t.slowestOf := by
    funext m acc th
    rw [State.slowestOf, State.slowestOf, haccum, hflag, markerName_congr hnames]
  have hadd : s.addSlowest = t.addSlowest := by
    funext acc m
    rw [State.addSlowest, State.addSlowest, hslowest, markerName_congr hnames]
  rw [State.shutdown, State.shutdown, hadd]

theorem seen_init (s : State) : (s.init 0).2.seen
    = (s.table.owners, false, s.startTimes, fun _ _ => 0, fun _ _ => false, s.markerNames) := rfl

/-- Sessions are alike after pasts that have left the same. -/
theorem SameLeft.observe_eq (h : SameLeft s t) (percentF : ℚ → List Char)
    (events : List (Pthread × Call)) : observe percentF s events = observe percentF t events := by
  have hseen : (s.init 0).2.seen = (t.init 0).2.seen := by
    rw [seen_init, seen_init, h.owners, h.startTimes, h.markerNames]
  rw [observe, observe]
  rcases run_alike State.seen (fun s t e h => step_congr e h) hseen events with
    ⟨hs, ht⟩ | ⟨s', t', out, hs, ht, heq⟩
  · rw [hs, ht]
  · simp only [State.seen, Prod.mk.injEq] at heq
    obtain ⟨_, _, _, haccum, hflag, hnames⟩ := heq
    have hshutdown := shutdown_congr haccum hflag hnames
    rw [hs, ht, Option.map_some, Option.map_some]
    simp only [hshutdown, haccum, hflag, markerName_congr hnames]

/-! #### Sessions that tell pasts apart -/

def Returned.at (idx : Option (Fin MAX_THREADS)) : List Returned :=
  [⟨0, [Found.threadIdx ⟨idx, none⟩]⟩]

theorem Returned.at_injective : Function.Injective Returned.at := by
  intro idx idx' h
  cases idx <;> cases idx' <;> simp [Returned.at, Found.threadIdx] at h ⊢
  exact Fin.ext h

theorem returned_start (percentF : ℚ → List Char) (s : State) (self : Pthread) (m : Marker) :
    (observe percentF s [(self, .start m 0)]).map Observed.returned
      = ((s.init 0).2.table.foundIdx id self).map Returned.at := by
  rw [observe, ThreadTable.foundIdx, Option.map_map, Option.map_map]
  cases hfound : (s.init 0).2.table.findOrInsertThread id self with
  | none =>
    have hnone : step (s.init 0).2 (self, .start m 0) = none := by
      simp [step, answer, State.markerStart, State.findOrInsertThread, hfound]
    simp [run, hnone]
  | some r =>
    obtain ⟨⟨idx, inserted⟩, table⟩ := r
    rw [run_cons (step_start hfound m 0)]
    cases idx <;> rfl

theorem foundIdx_eq_of_observe {percentF : ℚ → List Char}
    (h : ∀ events, observe percentF s events = observe percentF t events) (self : Pthread) :
    (s.init 0).2.table.foundIdx id self = (t.init 0).2.table.foundIdx id self := by
  have hreturned := congrArg (Option.map Observed.returned) (h [(self, .start ⟨0, 0⟩ 0)])
  rw [returned_start, returned_start] at hreturned
  exact Option.map_injective Returned.at_injective hreturned

/-- A stop without a start adds what the thread's start was left at. -/
theorem timersAccum_stop (percentF : ℚ → List Char) (hs : Sound s) {i : Fin MAX_THREADS}
    {k : BitVec 32} (hi : s.table.owners i = some k) (m : Marker) :
    (observe percentF s [(k.setWidth 64, .stop m 0)]).map (fun o => o.timersAccum m i)
      = some ((-s.startTimes i : Int) / CLOCKS_PER_SEC) := by
  obtain ⟨ks, howned⟩ := hs.init.owned
  have hmem : Pthread.thid (k.setWidth 64) ∈ ks := by
    rw [ThreadTable.thid_setWidth]
    exact howned.mem_iff.mpr ⟨i, hi⟩
  obtain ⟨j, hj, hfound⟩ := ThreadTable.findOrInsertThread_of_mem id howned hmem
  rw [ThreadTable.thid_setWidth] at hj
  cases howned.eq_of_get hi hj
  rw [observe, run_cons (step_stop hfound m 0)]
  simp [run, State.stopFound, (State.addTime_self _ m i 0).1, State.init]

theorem startTimes_eq_of_observe {percentF : ℚ → List Char} (hs : Sound s) (ht : Sound t)
    (howners : s.table.owners = t.table.owners)
    (h : ∀ events, observe percentF s events = observe percentF t events) :
    s.startTimes = t.startTimes := by
  funext i
  cases hi : s.table.owners i with
  | none =>
    rw [hs.unused i hi, ht.unused i (howners ▸ hi)]
  | some k =>
    have hs' := timersAccum_stop percentF hs hi ⟨0, 0⟩
    rw [h, timersAccum_stop percentF ht (howners ▸ hi), Option.some_inj] at hs'
    have hclocks : CLOCKS_PER_SEC ≠ 0 := by norm_num [CLOCKS_PER_SEC]
    have hneg := Int.cast_injective ((div_left_inj' hclocks).mp hs')
    omega

/-- The marker whose name a byte belongs to. -/
def markerAt (p : Fin NAMES_SIZE) : Marker where
  type := ⟨p.val / 512, by
    have hp : p.val < 2048 := p.isLt
    change p.val / 512 < 4
    omega⟩
  id := ⟨p.val / 128 % 4, Nat.mod_lt _ (by decide)⟩

theorem offset_markerAt (p : Fin NAMES_SIZE) :
    (markerAt p).offset + p.val % MAX_MARKER_NAME_LEN = p.val := by
  change (p.val / 512 * 4 + p.val / 128 % 4) * 128 + p.val % 128 = p.val
  omega

/-- A name that ends right before a byte. -/
def nameBefore (p : Fin NAMES_SIZE) : List Char := List.replicate (p.val % MAX_MARKER_NAME_LEN) 'x'

theorem takeWhile_nameBefore (p : Fin NAMES_SIZE) (rest : List Char) :
    cString (nameBefore p ++ rest) = nameBefore p ++ cString rest :=
  List.takeWhile_append_of_pos fun c hc => by
    rw [List.eq_of_mem_replicate hc]
    decide

theorem finRange_drop (p : Fin NAMES_SIZE) :
    (List.finRange NAMES_SIZE).drop (markerAt p).offset
      = ((List.finRange NAMES_SIZE).drop (markerAt p).offset).take (p.val % MAX_MARKER_NAME_LEN) ++
        p :: (List.finRange NAMES_SIZE).drop (p.val + 1) := by
  have hp : p.val < (List.finRange NAMES_SIZE).length := by
    rw [List.length_finRange]
    exact p.isLt
  have hdrop := List.drop_eq_getElem_cons hp
  rw [List.getElem_finRange] at hdrop
  conv_lhs => rw [← List.take_append_drop (p.val % MAX_MARKER_NAME_LEN)
    ((List.finRange NAMES_SIZE).drop (markerAt p).offset)]
  rw [List.drop_drop, offset_markerAt, hdrop]
  rfl

/-- With this name registered, the byte is the next that is printed. -/
theorem markerName_register (s : State) (p : Fin NAMES_SIZE) :
    ∃ rest, State.markerName { s with
        markerNames := State.copyName s.markerNames (markerAt p) (nameBefore p) } (markerAt p)
      = nameBefore p ++ cString (s.markerNames p :: rest) := by
  let names := State.copyName s.markerNames (markerAt p) (nameBefore p)
  let before := ((List.finRange NAMES_SIZE).drop (markerAt p).offset).take (p.val % MAX_MARKER_NAME_LEN)
  have hoffset := offset_markerAt p
  have hbefore : before.map names = nameBefore p := by
    refine List.eq_replicate_iff.mpr ⟨?_, fun c hc => ?_⟩
    · have hp := p.isLt
      rw [List.length_map, List.length_take, List.length_drop, List.length_finRange]
      omega
    · obtain ⟨q, hq, rfl⟩ := List.mem_map.mp hc
      obtain ⟨j, hj, rfl⟩ := List.mem_iff_getElem.mp hq
      have hval : (before[j]).val = (markerAt p).offset + j := by simp [before]
      have hlt : j < p.val % MAX_MARKER_NAME_LEN :=
        Nat.lt_of_lt_of_le hj (List.length_take_le ..)
      change State.copyName s.markerNames (markerAt p) (nameBefore p) before[j] = 'x'
      rw [State.copyName, hval, if_pos (Nat.le_add_right ..), Nat.add_sub_cancel_left, nameBefore,
        List.getElem?_replicate, if_pos hlt]
      rfl
  have hbyte : names p = s.markerNames p := by
    have hle : (markerAt p).offset ≤ p.val := by omega
    have hend : (nameBefore p)[p.val - (markerAt p).offset]? = none := by
      rw [List.getElem?_eq_none_iff, nameBefore, List.length_replicate]
      omega
    change State.copyName s.markerNames (markerAt p) (nameBefore p) p = _
    rw [State.copyName, if_pos hle, hend]
    rfl
  refine ⟨((List.finRange NAMES_SIZE).drop (p.val + 1)).map names, ?_⟩
  rw [State.markerName, finRange_drop, List.map_append, List.map_cons]
  change cString (before.map names ++ names p :: _) = _
  rw [hbefore, hbyte, takeWhile_nameBefore]

theorem names_register (percentF : ℚ → List Char) (s : State) (p : Fin NAMES_SIZE) :
    ∃ rest, (observe percentF s [(0, .register (nameBefore p) (markerAt p))]).map
        (fun o => o.names (markerAt p))
      = some (some (nameBefore p ++ cString (s.markerNames p :: rest))) := by
  obtain ⟨rest, hname⟩ := markerName_register (s.init 0).2 p
  have hsame : cString (nameBefore p) = nameBefore p := by
    have happend := takeWhile_nameBefore p []
    rwa [List.append_nil, show cString [] = [] from rfl, List.append_nil] at happend
  have hfits : (markerAt p).offset + (nameBefore p).length ≤ NAMES_SIZE := by
    rw [nameBefore, List.length_replicate, offset_markerAt]
    exact Nat.le_of_lt p.isLt
  refine ⟨rest, ?_⟩
  have hstep : step (s.init 0).2 (0, .register (nameBefore p) (markerAt p)) = some ({ (s.init 0).2 with
      markerNames := State.copyName (s.init 0).2.markerNames (markerAt p) (nameBefore p) },
      [⟨0, []⟩]) := by
    simp [step, answer, State.markerRegister, hsame, hfits]
  rw [observe, run_cons hstep]
  simp only [run, Option.map_some, List.any_cons, Call.registers, decide_true, Bool.true_or, if_true]
  exact congrArg (fun name => some (some name)) hname

theorem eq_of_cString_eq {c c' : Char} {rest rest' : List Char}
    (h : cString (c :: rest) = cString (c' :: rest')) : c = c' := by
  rw [cString, cString, List.takeWhile_cons, List.takeWhile_cons] at h
  split at h <;> split at h
  · exact (List.cons.inj h).1
  · cases h
  · cases h
  · next hc hc' =>
    simp only [bne_iff_ne, ne_eq, not_not] at hc hc'
    rw [hc, hc']

theorem markerNames_eq_of_observe {percentF : ℚ → List Char}
    (h : ∀ events, observe percentF s events = observe percentF t events) :
    s.markerNames = t.markerNames := by
  funext p
  obtain ⟨rest, hs⟩ := names_register percentF s p
  obtain ⟨rest', ht⟩ := names_register percentF t p
  rw [h, ht, Option.some_inj, Option.some_inj] at hs
  exact (eq_of_cString_eq (List.append_cancel_left hs)).symm

theorem observe_eq_iff {percentF : ℚ → List Char} (hs : Sound s) (ht : Sound t) :
    (∀ events, observe percentF s events = observe percentF t events) ↔ SameLeft s t := by
  refine ⟨fun h => ?_, fun h => h.observe_eq percentF⟩
  obtain ⟨ks, howned⟩ := hs.owned
  obtain ⟨ks', howned'⟩ := ht.owned
  have howners : s.table.owners = t.table.owners :=
    ThreadTable.owners_eq id (s := (s.init 0).2.table) (t := (t.init 0).2.table)
      howned howned' rfl rfl (foundIdx_eq_of_observe h)
  exact ⟨howners, startTimes_eq_of_observe hs ht howners h, markerNames_eq_of_observe h⟩

end

end TimeApi

/-! ### The PAPI library -/

namespace PapiApi

/-- The library after a start. PAPI starts anew, since `perfctr_halide_shutdown` calls `PAPI_shutdown`. -/
def Library.init (s : State) (papi : InitAnswers) : Library where
  api := (s.init papi).2
  registered _ := false
  sets _ := none

/-- The state after a session, shut down; it starts successfully. -/
def session (s : State) (e : InitAnswers × List (Pthread × Library.Call)) : Option State :=
  if (s.init e.1).1 = 0 then
    (run Library.step (Library.init s e.1) e.2).map fun r => r.1.api.shutdown
  else none

def sessions (s : State) (past : List (InitAnswers × List (Pthread × Library.Call))) : Option State :=
  past.foldlM session s

def State.flag (s : State) (m : Marker) (th : Fin MAX_THREADS) : Bool :=
  s.countersSetFlag (flagIndex m.id m.type th)

/-- What is to be seen of a session; no names are kept. -/
structure Observed where
  counters : Marker → Fin MAX_THREADS → Fin MAX_EVENTS_PER_THREAD → Int
  flag : Marker → Fin MAX_THREADS → Bool
  returned : List Returned

def observe (s : State) (papi : InitAnswers) (events : List (Pthread × Library.Call)) : Option Observed :=
  (run Library.step (Library.init s papi) events).map fun (s', returned) => {
    counters := s'.api.counters
    flag := s'.api.flag
    returned := returned }

/-- Where the flags begin that starting up does not clear: with marker 35 and type 3. -/
def CLEARED_FLAGS : Nat := flagIndex 35 3 0

/-- What starting up does not clear. -/
structure SameLeft (s t : State) : Prop where
  /-- The threads that have places, and the event sets in these. -/
  owned : s.table.owned = t.table.owned
  counters : s.counters = t.counters
  flag : ∀ (m : Marker) (th : Fin MAX_THREADS), CLEARED_FLAGS ≤ flagIndex m.id m.type th →
    s.flag m th = t.flag m th

theorem mem_clearedFlags (p : Nat) : p ∈ State.clearedFlags ↔ p < CLEARED_FLAGS := by
  simp only [State.clearedFlags, List.mem_flatMap, List.mem_map, List.mem_range]
  constructor
  · rintro ⟨t, ht, m, hm, th, hth, rfl⟩
    have ht' : t < 4 := ht
    have hm' : m < 128 := hm
    have hth' : th < 128 := hth
    change (t * 4 + m) * 32 + th < 4576
    omega
  · intro hp
    have hp' : p < 4576 := hp
    by_cases hlast : p < 4064
    · refine ⟨0, by decide, p / 32, ?_, p % 32, ?_, ?_⟩
      · change p / 32 < 128
        omega
      · change p % 32 < 128
        omega
      · change (0 * 4 + p / 32) * 32 + p % 32 = p
        omega
    · refine ⟨(p - 4064) / 128, ?_, 127, by decide, (p - 4064) % 128, Nat.mod_lt _ (by decide), ?_⟩
      · change (p - 4064) / 128 < 4
        omega
      · change ((p - 4064) / 128 * 4 + 127) * 32 + (p - 4064) % 128 = p
        omega

theorem foldl_update (ps : List Nat) (flags : Nat → Bool) (p : Nat) :
    ps.foldl (fun flags p => Function.update flags p false) flags p
      = if p ∈ ps then false else flags p := by
  induction ps generalizing flags with
  | nil => simp
  | cons q ps ih =>
    rw [List.foldl_cons, ih, Function.update_apply]
    by_cases hp : p ∈ ps <;> by_cases hq : p = q <;> simp [hp, hq]

section

variable {s t : State} {self : Pthread} {events : List (Pthread × Library.Call)} {papi : InitAnswers}

theorem flag_init (h : (s.init papi).1 = 0) (m : Marker) (th : Fin MAX_THREADS) :
    (s.init papi).2.flag m th
      = if flagIndex m.id m.type th < CLEARED_FLAGS then false else s.flag m th := by
  rw [State.init_eq h]
  simp only [State.flag, foldl_update, mem_clearedFlags]

/-- What later calls depend on. -/
def State.seen (s : State) := (s.table.owned, s.table.locked, s.eventArray, s.counters, s.flag)

theorem setEventSet_congr (h : s.seen = t.seen) (idx : Option (Fin MAX_THREADS)) (eventSet : Int) :
    (s.setEventSet idx eventSet).seen = (t.setEventSet idx eventSet).seen := by
  cases idx with
  | none => exact h
  | some i =>
    simp only [State.seen, Prod.mk.injEq] at h
    obtain ⟨howned, hlocked, hevents, hcounters, hflag⟩ := h
    have hflag' : (s.setEventSet (some i) eventSet).flag = (t.setEventSet (some i) eventSet).flag := hflag
    have howned' : (s.table.setRest i eventSet).owned = (t.table.setRest i eventSet).owned := by
      rw [ThreadTable.owned_setRest, ThreadTable.owned_setRest, howned,
        ThreadTable.owners_eq_of_owned howned]
    rw [State.seen, hflag']
    simp only [State.setEventSet, State.seen, howned', hevents, hcounters]
    exact congrArg (fun locked => (_, locked, _)) hlocked

theorem startFound_congr (h : s.seen = t.seen) (found : Found) (papi : StartAnswers) :
    (s.startFound found papi).1 = (t.startFound found papi).1 ∧
      (s.startFound found papi).2.seen = (t.startFound found papi).2.seen := by
  have hevents : s.eventArray = t.eventArray := congrArg (fun seen => seen.2.2.1) h
  have hset := setEventSet_congr h found.idx papi.eventSet
  simp only [State.startFound, State.eventArray_setEventSet, hevents]
  split_ifs <;> simp [hset, h]

theorem stopThread_congr (h : s.seen = t.seen) (found : Found) (papi : StopAnswers) :
    (s.stopThread found papi).1 = (t.stopThread found papi).1 ∧
      (s.stopThread found papi).2.seen = (t.stopThread found papi).2.seen := by
  have hevents : s.eventArray = t.eventArray := congrArg (fun seen => seen.2.2.1) h
  have hset := setEventSet_congr h found.idx PAPI_NULL
  simp only [State.stopThread, hevents]
  split_ifs <;> simp [hset, h]

theorem accumulate_congr (h : s.seen = t.seen) (idx : Option (Fin MAX_THREADS)) (m : Marker)
    (values : Fin MAX_EVENTS_PER_THREAD → Int) :
    (s.accumulate idx m values).seen = (t.accumulate idx m values).seen := by
  cases idx with
  | none => exact h
  | some i =>
    simp only [State.seen, Prod.mk.injEq] at h
    obtain ⟨howned, hlocked, hevents, hcounters, hflag⟩ := h
    have hflag' : (s.accumulate (some i) m values).flag = (t.accumulate (some i) m values).flag := by
      funext m' th
      have hsame := congrFun (congrFun hflag m') th
      simp only [State.flag, State.accumulate, Function.update_apply] at hsame ⊢
      rw [hsame]
    rw [State.seen, hflag']
    simp [State.seen, State.accumulate, howned, hlocked, hevents, hcounters]

theorem stopFound_congr (h : s.seen = t.seen) (found : Found) (m : Marker) (papi : StopAnswers) :
    (s.stopFound found m papi).1 = (t.stopFound found m papi).1 ∧
      (s.stopFound found m papi).2.seen = (t.stopFound found m papi).2.seen := by
  obtain ⟨hreturned, hseen⟩ :=
    stopThread_congr (accumulate_congr h found.idx m papi.accum) found papi
  rw [State.stopFound, State.stopFound]
  exact ⟨by simp only [hreturned], hseen⟩

theorem step_congr (e : Pthread × Call) (h : s.seen = t.seen) :
    (step s e).map (Prod.map State.seen id) = (step t e).map (Prod.map State.seen id) := by
  obtain ⟨self, call⟩ := e
  have hfields := h
  simp only [State.seen, Prod.mk.injEq] at hfields
  obtain ⟨howned, hlocked, hevents, hcounters, hflag⟩ := hfields
  have halike := ThreadTable.findOrInsertThread_owned howned hlocked PAPI_NULL self
  -- The states once the thread has its place.
  have hplaced : ∀ {s' t' : ThreadTable Int}, s'.owned = t'.owned → s'.locked = t'.locked →
      State.seen { s with table := s' } = State.seen { t with table := t' } := by
    intro s' t' howned' hlocked'
    have hflag' : State.flag { s with table := s' } = State.flag { t with table := t' } := hflag
    rw [State.seen, State.seen, hflag', howned', hlocked', hevents, hcounters]
  cases call with
  | register m => simp [step, answer, State.markerRegister, h]
  | start m papi =>
    rcases halike with ⟨hnone, hnone'⟩ | ⟨found, s', t', hs, ht, howned', hlocked'⟩
    · simp [step, answer, State.markerStart, State.startThread, State.findOrInsertThread, hnone, hnone']
    · obtain ⟨hreturned, hseen⟩ := startFound_congr (hplaced howned' hlocked') found papi
      rw [step_start hs, step_start ht]
      simp [hreturned, hseen]
  | stop m papi =>
    rcases halike with ⟨hnone, hnone'⟩ | ⟨found, s', t', hs, ht, howned', hlocked'⟩
    · simp [step, answer, State.markerStop, State.findOrInsertThread, hnone, hnone']
    · obtain ⟨hreturned, hseen⟩ := stopFound_congr (hplaced howned' hlocked') found m papi
      rw [step_stop hs, step_stop ht]
      simp [hreturned, hseen]

/-- What later calls depend on, with PAPI. -/
def Library.seen (s : Library) := (s.api.seen, s.registered, s.sets)

/-- PAPI answers alike where the same is seen. -/
theorem Library.answered_congr {s t : Library} (h : s.seen = t.seen) (self : Pthread) (call : Library.Call) :
    s.answered self call = t.answered self call := by
  obtain ⟨api, registered, sets⟩ := s
  obtain ⟨api', _, _⟩ := t
  simp only [Library.seen, State.seen, Prod.mk.injEq] at h
  obtain ⟨⟨howned, hlocked, hevents, _, _⟩, rfl, rfl⟩ := h
  have halike := ThreadTable.findOrInsertThread_owned howned hlocked PAPI_NULL self
  have hhandle : ∀ {found : Found} {s' t' : ThreadTable Int} (before : Int),
      api.table.findOrInsertThread (fun _ => PAPI_NULL) self = some (found, s') → s'.owned = t'.owned →
      eventSet s' before found.idx = eventSet t' before found.idx := by
    intro found s' t' before hfound howned'
    cases hi : found.idx with
    | none => rfl
    | some i => exact ThreadTable.rest_eq_of_owned howned' (ThreadTable.owner_of_found hfound hi)
  cases call with
  | register m => rfl
  | start m f =>
    rcases halike with ⟨hnone, hnone'⟩ | ⟨found, s', t', hs, ht, howned', _⟩
    · simp only [answered, hnone, hnone', Option.map_none]
    · simp only [answered, hs, ht, Option.map_some, hhandle f.before hs howned', hevents, papi]
  | stop m f before =>
    rcases halike with ⟨hnone, hnone'⟩ | ⟨found, s', t', hs, ht, howned', _⟩
    · simp only [answered, hnone, hnone', Option.map_none]
    · simp only [answered, hs, ht, Option.map_some, hhandle before hs howned', hevents, papi]

theorem Library.step_congr {s t : Library} (e : Pthread × Library.Call) (h : s.seen = t.seen) :
    (s.step e).map (Prod.map Library.seen id) = (t.step e).map (Prod.map Library.seen id) := by
  have hseen := h
  simp only [Library.seen, Prod.mk.injEq] at hseen
  obtain ⟨hapi, hregistered, _⟩ := hseen
  rw [Library.step, Library.step, answered_congr h]
  cases hanswered : t.answered e.1 e.2 with
  | none => rfl
  | some r =>
    obtain ⟨call, papi⟩ := r
    have hstep := PapiApi.step_congr (e.1, call) hapi
    simp only [Option.bind_some]
    cases hs : PapiApi.step s.api (e.1, call) with
    | none =>
      rw [hs, Option.map_none, eq_comm, Option.map_eq_none_iff] at hstep
      rw [hstep]
      rfl
    | some r =>
      rw [hs, Option.map_some, eq_comm, Option.map_eq_some_iff] at hstep
      obtain ⟨r', ht, heq⟩ := hstep
      obtain ⟨hview, hout⟩ := Prod.mk.inj heq
      have hout : r'.2 = r.2 := hout
      rw [ht]
      simp only [Option.map_some, Prod.map_apply, seen, after, hregistered, hview, hout]

theorem seen_init (h : (s.init papi).1 = 0) : (s.init papi).2.seen
    = (s.table.owned, false, papi.events, s.counters, fun (m : Marker) (th : Fin MAX_THREADS) =>
        if flagIndex m.id m.type th < CLEARED_FLAGS then false else s.flag m th) := by
  have hflag : (s.init papi).2.flag = fun (m : Marker) (th : Fin MAX_THREADS) =>
      if flagIndex m.id m.type th < CLEARED_FLAGS then false else s.flag m th :=
    funext fun m => funext fun th => flag_init h m th
  rw [State.seen, hflag, State.init_eq h]
  rfl

theorem ret_init (s t : State) (papi : InitAnswers) : (s.init papi).1 = (t.init papi).1 := by
  simp only [State.init]
  split_ifs <;> rfl

theorem SameLeft.observe_eq (h : SameLeft s t) (hinit : (s.init papi).1 = 0)
    (events : List (Pthread × Library.Call)) : observe s papi events = observe t papi events := by
  have hapi : (s.init papi).2.seen = (t.init papi).2.seen := by
    rw [seen_init hinit, seen_init (ret_init s t papi ▸ hinit), h.owned, h.counters]
    simp only [Prod.mk.injEq, true_and]
    funext m th
    split
    · rfl
    · next hle => exact h.flag m th (Nat.le_of_not_lt hle)
  have hseen : (Library.init s papi).seen = (Library.init t papi).seen := by
    rw [Library.seen, Library.seen]
    exact congrArg (fun seen => (seen, _)) hapi
  rw [observe, observe]
  rcases run_alike Library.seen (fun s t e h => Library.step_congr e h) hseen events with
    ⟨hs, ht⟩ | ⟨s', t', out, hs, ht, heq⟩
  · rw [hs, ht]
  · simp only [Library.seen, State.seen, Prod.mk.injEq] at heq
    obtain ⟨⟨_, _, _, hcounters, hflag⟩, _⟩ := heq
    rw [hs, ht, Option.map_some, Option.map_some]
    simp only [hcounters, hflag]

/-! #### Sessions that tell pasts apart -/

/-- Every place holds the handle of a set, or none. -/
def Handles (table : ThreadTable Int) : Prop :=
  ∀ i k handle, table.owned i = some (k, handle) → handle = PAPI_NULL ∨ ∃ created : Nat, handle = created

/-- The table has been filled in order, with handles. -/
structure Sound (s : State) : Prop where
  ordered : ∃ ks, Slots.OwnedBy s.table.owners ks
  handles : Handles s.table

theorem Sound.init (h : Sound s) (hinit : (s.init papi).1 = 0) : Sound (s.init papi).2 := by
  rw [State.init_eq hinit]
  exact ⟨h.ordered, h.handles⟩

theorem Handles.update {table table' : ThreadTable Int} (h : Handles table) {i : Fin MAX_THREADS}
    (owner : Option (BitVec 32)) {eventSet : Int}
    (heventSet : eventSet = PAPI_NULL ∨ ∃ created : Nat, eventSet = created)
    (htable : table'.owned = Function.update table.owned i (owner.map (·, eventSet))) : Handles table' := by
  intro j k handle hj
  rw [htable, Function.update_apply] at hj
  split at hj
  · obtain ⟨_, _, heq⟩ := Option.map_eq_some_iff.mp hj
    cases heq
    exact heventSet
  · exact h j k handle hj

/-- A thread that finds a place, or gets one. -/
theorem Sound.found (h : Sound s) {found : Found} {table : ThreadTable Int}
    (hfound : s.table.findOrInsertThread (fun _ => PAPI_NULL) self = some (found, table)) :
    Sound { s with table := table } := by
  obtain ⟨ks, howned⟩ := h.ordered
  obtain ⟨howned', _, _⟩ := ThreadTable.findOrInsertThread_sound howned hfound
  refine ⟨howned', ?_⟩
  have htable := ThreadTable.owned_of_found hfound
  split at htable
  · exact h.handles.update (some self.thid) (Or.inl rfl) htable
  · show Handles table
    rw [Handles, htable]
    exact h.handles

theorem Sound.setEventSet (h : Sound s) (idx : Option (Fin MAX_THREADS)) {eventSet : Int}
    (heventSet : eventSet = PAPI_NULL ∨ ∃ created : Nat, eventSet = created) :
    Sound (s.setEventSet idx eventSet) := by
  refine ⟨by rw [State.owners_setEventSet]; exact h.ordered, ?_⟩
  cases idx with
  | none => exact h.handles
  | some i => exact h.handles.update (s.table.owners i) heventSet (ThreadTable.owned_setRest ..)

theorem Sound.accumulate (h : Sound s) (idx : Option (Fin MAX_THREADS)) (m : Marker)
    (values : Fin MAX_EVENTS_PER_THREAD → Int) : Sound (s.accumulate idx m values) := by
  constructor
  · rw [State.table_accumulate]
    exact h.ordered
  · rw [State.table_accumulate]
    exact h.handles

theorem eventSet_markerStart (p : Papi) (idx : Option (Fin MAX_THREADS)) (eventSet : Int)
    (events : List Int) (f : StartFaults) :
    (p.markerStart idx eventSet events f).1.eventSet = f.eventSet :=
  Papi.eventSet_startThread ..

theorem Sound.step {s t : Library} (h : Sound s.api) {e : Pthread × Library.Call} {out : List Returned}
    (hstep : s.step e = some (t, out)) : Sound t.api := by
  obtain ⟨self, call⟩ := e
  cases call with
  | register m =>
    cases hstep
    exact h
  | start m f =>
    cases hfound : s.api.table.findOrInsertThread (fun _ => PAPI_NULL) self with
    | none => simp [Library.step, Library.answered, hfound] at hstep
    | some r =>
      obtain ⟨found, table⟩ := r
      simp only [Library.step, Library.answered, hfound, Option.map_some, Option.bind_some,
        step_start hfound] at hstep
      cases hstep
      have hplaced := h.found hfound
      rcases State.startFound_spec { s.api with table := table } found
        ((s.papi self).markerStart found.idx (Library.eventSet table f.before found.idx)
          s.api.eventArray f).1 with heq | heq
      · show Sound (State.startFound _ _ _).2
        rw [heq]
        exact hplaced
      · show Sound (State.startFound _ _ _).2
        rw [heq]
        exact hplaced.setEventSet found.idx (Or.inr ⟨f.eventSet, eventSet_markerStart ..⟩)
  | stop m f before =>
    cases hfound : s.api.table.findOrInsertThread (fun _ => PAPI_NULL) self with
    | none => simp [Library.step, Library.answered, hfound] at hstep
    | some r =>
      obtain ⟨found, table⟩ := r
      simp only [Library.step, Library.answered, hfound, Option.map_some, Option.bind_some,
        step_stop hfound] at hstep
      cases hstep
      have hplaced := (h.found hfound).accumulate found.idx m
        ((s.papi self).markerStop (Library.eventSet table before found.idx) s.api.eventArray f).1.accum
      rcases State.stopThread_spec _ found
        ((s.papi self).markerStop (Library.eventSet table before found.idx)
          s.api.eventArray f).1 with heq | heq
      · show Sound (State.stopThread _ _ _).2
        rw [heq]
        exact hplaced
      · show Sound (State.stopThread _ _ _).2
        rw [heq]
        exact hplaced.setEventSet found.idx (Or.inl rfl)

theorem Sound.run {s t : Library} {out : List Returned} (h : Sound s.api)
    (hrun : Machine.run Library.step s events = some (t, out)) : Sound t.api :=
  run_keeps (fun s _ _ _ (hs : Sound (Library.api s)) (_ : True) hstep => hs.step hstep)
    (fun _ _ => trivial) h hrun

theorem Sound.sessions {past : List (InitAnswers × List (Pthread × Library.Call))} (h : Sound s)
    (hpast : PapiApi.sessions s past = some t) : Sound t := by
  induction past generalizing s with
  | nil =>
    cases hpast
    exact h
  | cons e past ih =>
    obtain ⟨s₁, hsession, hrest⟩ := Option.bind_eq_some_iff.mp hpast
    rw [session] at hsession
    split at hsession
    · next hinit =>
      obtain ⟨⟨s₂, out⟩, hrun, rfl⟩ := Option.map_eq_some_iff.mp hsession
      have hsound : Sound s₂.api := Sound.run (s := Library.init s e.1) (h.init hinit) hrun
      exact ih (s := s₂.api.shutdown) ⟨hsound.ordered, hsound.handles⟩ hrest
    · cases hsession

theorem sound_initial : Sound State.initial :=
  ⟨⟨[], ThreadTable.owners_initial 0⟩, fun _ _ _ hset => nomatch hset⟩

/-- A stop that PAPI refuses. -/
def refused : StopFaults where
  accum := false
  stop := false
  removeEvent _ := false
  destroyEventset := false
  unregisterThread := false
  atAccum := .zero
  atStop := .zero

def Returned.at (idx : Option (Fin MAX_THREADS)) : List Returned :=
  let i := Found.threadIdx ⟨idx, none⟩
  [⟨0, [i, i, i, i]⟩]

theorem Returned.at_injective : Function.Injective Returned.at := by
  intro idx idx' h
  cases idx <;> cases idx' <;> simp [Returned.at, Found.threadIdx] at h ⊢
  exact Fin.ext h

theorem returned_stop (s : State) (papi : InitAnswers) (self : Pthread) (m : Marker) :
    (observe s papi [(self, .stop m refused PAPI_NULL)]).map Observed.returned
      = ((s.init papi).2.table.foundIdx (fun _ => PAPI_NULL) self).map Returned.at := by
  rw [observe, ThreadTable.foundIdx, Option.map_map, Option.map_map]
  cases hfound : (s.init papi).2.table.findOrInsertThread (fun _ => PAPI_NULL) self with
  | none =>
    have hnone : (Library.init s papi).step (self, .stop m refused PAPI_NULL) = none := by
      simp [Library.step, Library.answered, Library.init, hfound]
    simp [run, hnone]
  | some r =>
    obtain ⟨⟨idx, inserted⟩, table⟩ := r
    obtain ⟨s', hstep⟩ : ∃ s', (Library.init s papi).step (self, .stop m refused PAPI_NULL)
        = some (s', Returned.at idx) := by
      simp only [Library.step, Library.answered, Library.init, hfound, Option.map_some, Option.bind_some,
        step_stop hfound]
      cases idx <;> exact ⟨_, rfl⟩
    rw [run_cons hstep]
    rfl

/-- PAPI with one event, and without errors. -/
def oneEvent : InitAnswers where
  mutexInit := 0
  allocated := true
  version := true
  events := [7]
  threadInit := PAPI_OK

/-- A start that creates this set and counts from zero on. -/
def creating (created : Nat) : StartFaults :=
  ⟨true, true, created, fun _ => true, true, true, .zero, .zero, PAPI_NULL⟩

/-- A stop that adds what is counted up to one, and is refused then. -/
def adding : StopFaults := { refused with
  accum := true
  atAccum := fun _ => 1 }

/-- The set runs. -/
theorem markerStart_creating (idx : Option (Fin MAX_THREADS)) (created : Nat) :
    (Papi.initial.markerStart idx PAPI_NULL [7] (creating created)).2
      = Papi.known.put created (some ⟨[7], .zero, none⟩) := by
  have hregister : Papi.initial.registerThread true = some Papi.known := rfl
  have hadded : Papi.each (fun k event p => p.addEvent true created event) 0 [7]
      (Papi.known.put created (some ⟨[], .zero, some .zero⟩))
      = (true, Papi.known.put created (some ⟨[7], .zero, some .zero⟩)) :=
    Papi.addEvents_eq Papi.known created fun _ _ => rfl
  have hstart : (Papi.known.put created (some ⟨[7], .zero, some .zero⟩)).start true created .zero
      = some (Papi.known.put created (some ⟨[7], .zero, none⟩)) := by
    rw [Papi.start, Papi.changeStopped_put rfl]
    rfl
  simp only [Papi.markerStart, Papi.startThread, creating, hregister, Papi.createEventset_known, hadded,
    hstart, Bool.not_true, Bool.false_eq_true, if_false, true_and, or_true, if_true]
  rw [Papi.reset, if_pos rfl, Papi.sets_put, Option.map_some, Papi.put_put]
  rfl

/-- A new thread starts a set, and the places of others stay as they are. -/
theorem step_creating {ks : List (BitVec 32)} (howned : Slots.OwnedBy s.table.owners ks)
    (hnew : self.thid ∉ ks) (m : Marker) (created : Nat) :
    ∃ s' out, (Library.init s oneEvent).step (self, .start m (creating created)) = some (s', out) ∧
      (∀ i k, s.table.owners i = some k → s'.api.table.threadsInfo i = s.table.threadsInfo i) ∧
      s'.api.counters = s.counters ∧
      s'.sets = Function.update (fun _ => none) (created : Int) (some ⟨[7], .zero, none⟩) := by
  have hinit : (s.init oneEvent).2 = _ := State.init_eq rfl
  have htable : (s.init oneEvent).2.table = { s.table with locked := false } := by rw [hinit]
  have hplaced : ∃ found table, (s.init oneEvent).2.table.findOrInsertThread (fun _ => PAPI_NULL) self
      = some (found, table) ∧ Library.eventSet table PAPI_NULL found.idx = PAPI_NULL ∧
      ∀ i k, s.table.owners i = some k → found.idx ≠ some i ∧ table.threadsInfo i = s.table.threadsInfo i := by
    rw [htable]
    have howned' : Slots.OwnedBy ({ s.table with locked := false } : ThreadTable Int).owners ks := howned
    rcases Nat.lt_or_eq_of_le howned.length_le with hlt | hfull
    · obtain ⟨hfound, _⟩ :=
        ThreadTable.findOrInsertThread_of_lt (fun _ => PAPI_NULL) howned' rfl hnew hlt
      refine ⟨_, _, hfound, by simp [Library.eventSet, ThreadTable.place], fun i k hi => ?_⟩
      have hne : i ≠ ⟨ks.length, hlt⟩ := by
        rintro rfl
        rw [howned.get, List.getElem?_eq_none (Nat.le_refl _)] at hi
        cases hi
      exact ⟨fun heq => hne (Option.some_inj.mp heq).symm, Function.update_of_ne hne _ _⟩
    · exact ⟨_, _, ThreadTable.findOrInsertThread_of_full (fun _ => PAPI_NULL) howned' rfl hnew hfull, rfl,
        fun _ _ _ => ⟨(Option.some_ne_none _).symm, rfl⟩⟩
  obtain ⟨found, table, hfound, hhandle, hothers⟩ := hplaced
  have hevents : (s.init oneEvent).2.eventArray = [7] := by
    rw [hinit]
    rfl
  have hanswered : (Library.init s oneEvent).answered self (.start m (creating created))
      = let r := Papi.initial.markerStart found.idx PAPI_NULL [7] (creating created)
        some (.start m r.1, r.2) := by
    have hapi : (Library.init s oneEvent).api = (s.init oneEvent).2 := rfl
    have hbefore : (creating created).before = PAPI_NULL := rfl
    rw [Library.answered, hapi, hfound, Option.map_some, hbefore]
    dsimp only
    rw [hhandle, hevents]
    rfl
  obtain ⟨_, _, hkept, _⟩ := State.keeps_startFound { (s.init oneEvent).2 with table := table } found
    (Papi.initial.markerStart found.idx PAPI_NULL [7] (creating created)).1
  have hcounters : ({ (s.init oneEvent).2 with table := table }.startFound found
      (Papi.initial.markerStart found.idx PAPI_NULL [7] (creating created)).1).2.counters = s.counters := by
    have hsame : (s.init oneEvent).2.counters = s.counters := by rw [hinit]
    rcases State.startFound_spec { (s.init oneEvent).2 with table := table } found
      (Papi.initial.markerStart found.idx PAPI_NULL [7] (creating created)).1 with heq | heq <;> rw [heq]
    · exact hsame
    · cases found.idx <;> exact hsame
  have hstep := step_start (s := (s.init oneEvent).2) hfound m
    (Papi.initial.markerStart found.idx PAPI_NULL [7] (creating created)).1
  refine ⟨_, _, by rw [Library.step, hanswered]; exact congrArg (Option.map _) hstep, fun i k hi => ?_,
    hcounters, congrArg Papi.sets (markerStart_creating found.idx created)⟩
  exact (hkept i (hothers i k hi).1).trans (hothers i k hi).2

/-- A stop adds what the set in the thread's place counts. -/
theorem counters_adding {s : Library} {i : Fin MAX_THREADS} (hscan : s.api.table.scan self.thid = some i)
    (created : Nat)
    (hsets : s.sets = Function.update (fun _ => none) (created : Int) (some ⟨[7], .zero, none⟩))
    (m : Marker) : ∃ s' out, s.step (self, .stop m adding PAPI_NULL) = some (s', out) ∧
      s'.api.counters m i 0 = s.api.counters m i 0 +
        if (s.api.table.threadsInfo i).rest = created then 1 else 0 := by
  have hfound : s.api.table.findOrInsertThread (fun _ => PAPI_NULL) self
      = some (⟨some i, some false⟩, s.api.table) := by
    rw [ThreadTable.findOrInsertThread, hscan]
  let handle := (s.api.table.threadsInfo i).rest
  let papi := ((s.papi self).markerStop handle s.api.eventArray adding).1
  have hadded : papi.accum 0 = if handle = created then 1 else 0 := by
    have hset : (s.papi self).sets handle = if handle = created then some ⟨[7], .zero, none⟩ else none := by
      have happ := congrFun hsets handle
      rwa [Function.update_apply] at happ
    simp only [papi, Papi.markerStop, Papi.accum_stopThread, Papi.accum, adding, if_true, hset]
    split <;> rfl
  have hcounters := (State.stopFound_spec { s.api with table := s.api.table } i (some false) m papi).2.1
  have hstep := step_stop (s := s.api) hfound m papi
  refine ⟨_, _, by
    rw [Library.step, Library.answered, hfound]
    exact congrArg (Option.map _) hstep, ?_⟩
  refine (congrFun (congrFun (congrFun hcounters m) i) 0).trans ?_
  simp [State.accumulate, hadded, handle]

/-- A thread stops a set that another has started, if this is the one in its place. -/
theorem counters_stolen (hs : Sound s) {ks : List (BitVec 32)} (howned : Slots.OwnedBy s.table.owners ks)
    {i : Fin MAX_THREADS} {k z : BitVec 32} (hi : s.table.owners i = some k) (hz : z ∉ ks) (m : Marker)
    (created : Nat) :
    (observe s oneEvent [(z.setWidth 64, .start m (creating created)),
        (k.setWidth 64, .stop m adding PAPI_NULL)]).map (fun o => o.counters m i 0)
      = some (s.counters m i 0 + if (s.table.threadsInfo i).rest = created then 1 else 0) := by
  have hnew : Pthread.thid (z.setWidth 64) ∉ ks := by rwa [ThreadTable.thid_setWidth]
  obtain ⟨s₁, out₁, hstart, hothers, hcounters, hsets⟩ := step_creating howned hnew m created
  have hkept := hothers i k hi
  have hsound : Sound s₁.api := Sound.step (s := Library.init s oneEvent) (hs.init rfl) hstart
  obtain ⟨ks₁, howned₁⟩ := hsound.ordered
  have hi₁ : s₁.api.table.owners i = some (Pthread.thid (k.setWidth 64)) := by
    rw [ThreadTable.thid_setWidth, ThreadTable.owners, hkept]
    exact hi
  have hscan := howned₁.find_eq_some_iff.mpr hi₁
  rw [← ThreadTable.scan_eq] at hscan
  obtain ⟨s₂, out₂, hstop, hadded⟩ := counters_adding hscan created hsets m
  rw [observe, run_cons hstart, run_cons hstop, ← hkept, ← hcounters, ← hadded]
  rfl

/-- Two pasts that all later sessions follow alike have left the same sets. -/
theorem handle_eq_of_observe (hs : Sound s) (ht : Sound t) (howners : s.table.owners = t.table.owners)
    (hcounters : s.counters = t.counters)
    (h : ∀ events, observe s oneEvent events = observe t oneEvent events) {i : Fin MAX_THREADS}
    {k : BitVec 32} (hi : s.table.owners i = some k) {created : Nat}
    (hhandle : (s.table.threadsInfo i).rest = created) : (t.table.threadsInfo i).rest = created := by
  obtain ⟨ks, howned⟩ := hs.ordered
  obtain ⟨z, hz⟩ := ThreadTable.exists_not_mem ks (by
    have hle := howned.length_le
    omega)
  have hsame := counters_stolen hs howned hi hz ⟨0, 0⟩ created
  rw [h, counters_stolen ht (howners ▸ howned) (howners ▸ hi) hz, Option.some_inj, hcounters,
    if_pos hhandle] at hsame
  by_contra hne
  rw [if_neg hne] at hsame
  omega

theorem owned_eq_of_observe (hs : Sound s) (ht : Sound t) (howners : s.table.owners = t.table.owners)
    (hcounters : s.counters = t.counters)
    (h : ∀ events, observe s oneEvent events = observe t oneEvent events) : s.table.owned = t.table.owned := by
  funext i
  cases hi : s.table.owned i with
  | none =>
    have hnone : t.table.owners i = none := by
      rw [← howners, ThreadTable.owners_eq_map, hi]
      rfl
    rw [ThreadTable.owners_eq_map, Option.map_eq_none_iff] at hnone
    exact hnone.symm
  | some r =>
    obtain ⟨k, handle⟩ := r
    have howner : s.table.owners i = some k := by
      rw [ThreadTable.owners_eq_map, hi]
      rfl
    obtain ⟨handle', hi'⟩ := ThreadTable.exists_owned_of_owners (howners ▸ howner)
    have hrest := ThreadTable.rest_of_owned hi
    have hrest' := ThreadTable.rest_of_owned hi'
    rw [hi']
    -- One of the handles is that of a set, or both are null.
    rcases hs.handles i k handle hi with hnull | ⟨created, hcreated⟩
    · rcases ht.handles i k handle' hi' with hnull' | ⟨created, hcreated⟩
      · rw [hnull, hnull']
      · have hsame := handle_eq_of_observe ht hs howners.symm hcounters.symm (fun events => (h events).symm)
          (howners ▸ howner) (hrest'.trans hcreated)
        rw [hcreated, ← hsame, hrest]
    · have hsame := handle_eq_of_observe hs ht howners hcounters h howner (hrest.trans hcreated)
      rw [hcreated, ← hsame, hrest']

theorem observe_eq_iff (hs : Sound s) (ht : Sound t) :
    (∀ papi events, (s.init papi).1 = 0 → observe s papi events = observe t papi events) ↔
      SameLeft s t := by
  refine ⟨fun h => ?_, fun h papi events hinit => h.observe_eq hinit events⟩
  have hinit : (s.init oneEvent).1 = 0 := ret_init s .initial oneEvent
  have hinit' : (t.init oneEvent).1 = 0 := ret_init t .initial oneEvent
  obtain ⟨ks, howned⟩ := (hs.init hinit).ordered
  obtain ⟨ks', howned'⟩ := (ht.init hinit').ordered
  have hunlocked := congrArg (fun seen => seen.2.1) (seen_init hinit)
  have hunlocked' := congrArg (fun seen => seen.2.1) (seen_init hinit')
  have howners := ThreadTable.owners_eq (fun _ => PAPI_NULL) howned howned' hunlocked
    hunlocked' fun self => by
      have hreturned :=
        congrArg (Option.map Observed.returned) (h oneEvent [(self, .stop ⟨0, 0⟩ refused PAPI_NULL)] hinit)
      rw [returned_stop, returned_stop] at hreturned
      exact Option.map_injective Returned.at_injective hreturned
  have hempty := Option.some_inj.mp (h oneEvent [] hinit)
  have hcounters := congrArg Observed.counters hempty
  simp only [Library.init] at hcounters
  rw [State.init_eq hinit, State.init_eq hinit'] at howners hcounters
  refine ⟨?_, hcounters, fun m th hle => ?_⟩
  · exact owned_eq_of_observe hs ht howners hcounters fun events => h oneEvent events hinit
  · have hflag := congrFun (congrFun (congrArg Observed.flag hempty) m) th
    simp only [Library.init] at hflag
    rwa [flag_init hinit, flag_init hinit', if_neg (Nat.not_lt.mpr hle),
      if_neg (Nat.not_lt.mpr hle)] at hflag

end

end PapiApi

/-- In both libraries, all later sessions are alike after two pasts exactly if these have left alike what
starting up does not clear. -/
theorem sessions_alike_iff (percentF : ℚ → List Char) :
    (∀ past past' s t, TimeApi.sessions .initial past = some s →
      TimeApi.sessions .initial past' = some t →
      ((∀ events, TimeApi.observe percentF s events = TimeApi.observe percentF t events) ↔
        TimeApi.SameLeft s t)) ∧
    (∀ past past' s t, PapiApi.sessions .initial past = some s →
      PapiApi.sessions .initial past' = some t →
      ((∀ papi events, (s.init papi).1 = 0 →
          PapiApi.observe s papi events = PapiApi.observe t papi events) ↔ PapiApi.SameLeft s t)) :=
  ⟨fun _ _ _ _ hs ht => TimeApi.observe_eq_iff (TimeApi.sound_initial.sessions hs)
      (TimeApi.sound_initial.sessions ht),
    fun _ _ _ _ hs ht => PapiApi.observe_eq_iff (PapiApi.sound_initial.sessions hs)
      (PapiApi.sound_initial.sessions ht)⟩

def TimeApi.firstMarker : TimeApi.Marker := ⟨⟨0, by decide⟩, ⟨0, by decide⟩⟩

/-- A session of each library that starts and stops a marker. -/
def timed : List (Pthread × TimeApi.Call) :=
  [(1, .start TimeApi.firstMarker 5), (1, .stop TimeApi.firstMarker 9)]

/-- A stop with no call failing. -/
def finishing : PapiApi.StopFaults where
  accum := true
  stop := true
  removeEvent _ := true
  destroyEventset := true
  unregisterThread := true
  atAccum _ := 7
  atStop _ := 7

def counted : PapiApi.InitAnswers × List (Pthread × PapiApi.Library.Call) :=
  (PapiApi.oneEvent, [(1, .start PapiApi.lastMarker (PapiApi.creating 0)),
    (1, .stop PapiApi.lastMarker finishing PapiApi.PAPI_NULL)])

/-- A session that leaves its set in the place of the thread. -/
def unfinished : PapiApi.InitAnswers × List (Pthread × PapiApi.Library.Call) :=
  (PapiApi.oneEvent, [(1, .start PapiApi.lastMarker (PapiApi.creating 0))])

theorem sessions_alike_iff_once (percentF : ℚ → List Char) : ∃ s t s' t',
    ((∀ events, TimeApi.observe percentF s events = TimeApi.observe percentF t events) ↔
      TimeApi.SameLeft s t) ∧
    ((∀ papi events, (s'.init papi).1 = 0 →
      PapiApi.observe s' papi events = PapiApi.observe t' papi events) ↔ PapiApi.SameLeft s' t') :=
  ⟨_, _, _, _, (sessions_alike_iff percentF).1 [] [timed] _ _ rfl rfl,
    (sessions_alike_iff percentF).2 [counted] [unfinished] _ _ rfl rfl⟩

theorem not_sessions_alike_once :
    ¬ (∀ percentF past past' s t, TimeApi.sessions .initial past = some s →
      TimeApi.sessions .initial past' = some t →
      ∀ events, TimeApi.observe percentF s events = TimeApi.observe percentF t events) ∧
    ¬ (∀ past past' s t, PapiApi.sessions .initial past = some s →
      PapiApi.sessions .initial past' = some t → ∀ papi events, (s.init papi).1 = 0 →
      PapiApi.observe s papi events = PapiApi.observe t papi events) := by
  constructor
  · intro h
    obtain ⟨t, ht, howner⟩ : ∃ t, TimeApi.sessions .initial [timed] = some t ∧
        t.table.owners 0 = some 1 := ⟨_, rfl, rfl⟩
    have hleft := (TimeApi.observe_eq_iff TimeApi.sound_initial (TimeApi.sound_initial.sessions ht)).mp
      (h (fun _ => []) [] [timed] _ t rfl ht)
    rw [← hleft.owners] at howner
    cases howner
  · intro h
    obtain ⟨t, ht, hflag⟩ : ∃ t, PapiApi.sessions .initial [counted] = some t ∧
        t.flag PapiApi.lastMarker 0 = true := ⟨_, rfl, rfl⟩
    have hleft := (PapiApi.observe_eq_iff PapiApi.sound_initial (PapiApi.sound_initial.sessions ht)).mp
      (h [] [counted] _ t rfl ht)
    rw [← hleft.flag PapiApi.lastMarker 0 (by decide)] at hflag
    cases hflag

end ProfHalide
