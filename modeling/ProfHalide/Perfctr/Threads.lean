import ProfHalide.Lib.Slots
import ProfHalide.Lib.Machine
import Mathlib.Data.Finset.Card

/-!
# The thread tables of the counter libraries

`papi_api.c` and `time_api.c` find a thread's place in a table by its id, or give it the first place that
is not set. The table is searched without the lock, and extended under it.
-/

namespace ProfHalide

open Machine

abbrev MAX_THREADS : Nat := 32

/-- A thread as `pthread_self()` names it. -/
abbrev Pthread := BitVec 64

/-- `int thid = pthread_self();` -/
def Pthread.thid (self : Pthread) : BitVec 32 := self.setWidth 32

/-- A `struct threadInfo`, with `ε` for what a library keeps beside the id. -/
structure ThreadInfo (ε : Type) where
  threadId : BitVec 32
  set : Bool
  rest : ε
  deriving DecidableEq, Repr

/-- The thread that a place is set for. -/
def ThreadInfo.owner {ε : Type} (info : ThreadInfo ε) : Option (BitVec 32) :=
  if info.set then some info.threadId else none

/-- `threadsInfo` and `lock`. -/
structure ThreadTable (ε : Type) where
  threadsInfo : Fin MAX_THREADS → ThreadInfo ε
  locked : Bool

/-- The table of a process that starts. -/
def ThreadTable.initial {ε : Type} (rest : ε) : ThreadTable ε where
  threadsInfo _ := ⟨0, false, rest⟩
  locked := false

/-- What `find_or_insert_thread` returns, and stores in `*inserted`. -/
structure Found where
  /-- `none` for -1. -/
  idx : Option (Fin MAX_THREADS)
  inserted : Option Bool
  deriving DecidableEq, Repr

def Found.threadIdx (found : Found) : Int :=
  match found.idx with
  | none => -1
  | some i => i.val

/-- What a call of a library returns, and the indices at which it accesses the tables that have a place for
each thread. An access at -1 is noted; what lies there is not part of the state. -/
structure Returned where
  ret : Int
  indices : List Int
  deriving DecidableEq, Repr

namespace ThreadTable

variable {ε : Type}

def owners (s : ThreadTable ε) (i : Fin MAX_THREADS) : Option (BitVec 32) := (s.threadsInfo i).owner

/-- The places that are set, with what is kept in them. -/
def owned (s : ThreadTable ε) (i : Fin MAX_THREADS) : Option (BitVec 32 × ε) :=
  if (s.threadsInfo i).set then some ((s.threadsInfo i).threadId, (s.threadsInfo i).rest) else none

/-- The loop without the lock. -/
def scan (s : ThreadTable ε) (thid : BitVec 32) : Option (Fin MAX_THREADS) :=
  (List.finRange MAX_THREADS).find? fun i =>
    (s.threadsInfo i).set && (s.threadsInfo i).threadId == thid

def firstAvailableIdx (s : ThreadTable ε) : Option (Fin MAX_THREADS) :=
  (List.finRange MAX_THREADS).find? fun i => !(s.threadsInfo i).set

/-- A place is set for a thread; `fresh` is what becomes of the other fields. -/
def place (fresh : ε → ε) (s : ThreadTable ε) (i : Fin MAX_THREADS) (thid : BitVec 32) :
    ThreadTable ε :=
  let info : ThreadInfo ε :=
    { threadId := thid, set := true, rest := fresh (s.threadsInfo i).rest }
  { s with threadsInfo := Function.update s.threadsInfo i info }

/-- The rest, from taking the lock. A call that finds the lock taken never returns. -/
def insert (fresh : ε → ε) (s : ThreadTable ε) (thid : BitVec 32) : Option (Found × ThreadTable ε) :=
  if s.locked then none
  else match s.firstAvailableIdx with
    | none =>
      -- The error path returns with the lock taken.
      some (⟨none, none⟩, { s with locked := true })
    | some i => some (⟨some i, some true⟩, s.place fresh i thid)

def findOrInsertThread (fresh : ε → ε) (s : ThreadTable ε) (self : Pthread) :
    Option (Found × ThreadTable ε) :=
  match s.scan self.thid with
  | some i => some (⟨some i, some false⟩, s)
  | none => s.insert fresh self.thid

/-- A store to the fields beside the id. -/
def setRest (s : ThreadTable ε) (i : Fin MAX_THREADS) (rest : ε) : ThreadTable ε :=
  let info : ThreadInfo ε := { s.threadsInfo i with rest := rest }
  { s with threadsInfo := Function.update s.threadsInfo i info }

/-! ### The table as slots -/

variable {fresh : ε → ε} {s : ThreadTable ε} {ks : List (BitVec 32)} {k : BitVec 32}

theorem scan_eq (s : ThreadTable ε) (k : BitVec 32) : s.scan k = Slots.find s.owners k := by
  refine congrArg (fun p => (List.finRange MAX_THREADS).find? p) (funext fun i => ?_)
  rw [owners, ThreadInfo.owner]
  cases (s.threadsInfo i).set <;> rfl

theorem firstAvailableIdx_eq (s : ThreadTable ε) : s.firstAvailableIdx = Slots.firstFree s.owners := by
  refine congrArg (fun p => (List.finRange MAX_THREADS).find? p) (funext fun i => ?_)
  rw [owners, ThreadInfo.owner]
  cases (s.threadsInfo i).set <;> rfl

@[simp] theorem locked_place (s : ThreadTable ε) (i : Fin MAX_THREADS) (k : BitVec 32) :
    (s.place fresh i k).locked = s.locked := rfl

theorem owners_place (s : ThreadTable ε) (i : Fin MAX_THREADS) (k : BitVec 32) :
    (s.place fresh i k).owners = Function.update s.owners i (some k) := by
  funext j
  simp only [owners, place, Function.update_apply]
  split <;> rfl

@[simp] theorem owners_setRest (s : ThreadTable ε) (i : Fin MAX_THREADS) (rest : ε) :
    (s.setRest i rest).owners = s.owners := by
  funext j
  simp only [owners, setRest, Function.update_apply]
  split
  · next heq =>
    rw [heq]
    rfl
  · rfl

theorem owners_initial (rest : ε) : Slots.OwnedBy (initial rest).owners [] := Slots.OwnedBy.empty

/-- A thread that is new to the table gets the next place. -/
theorem insert_of_lt (fresh : ε → ε) (h : Slots.OwnedBy s.owners ks) (hlocked : s.locked = false) (hk : k ∉ ks)
    (hlt : ks.length < MAX_THREADS) :
    s.insert fresh k
        = some (⟨some ⟨ks.length, hlt⟩, some true⟩, s.place fresh ⟨ks.length, hlt⟩ k) ∧
      Slots.OwnedBy (s.place fresh ⟨ks.length, hlt⟩ k).owners (ks ++ [k]) := by
  have hfirst := h.firstFree_of_lt hlt
  rw [← firstAvailableIdx_eq] at hfirst
  constructor
  · rw [insert, hlocked, hfirst]
    rfl
  · rw [owners_place]
    exact h.append hk hlt

/-- With no place left, the lock stays taken. -/
theorem insert_of_full (h : Slots.OwnedBy s.owners ks) (hlocked : s.locked = false)
    (hfull : ks.length = MAX_THREADS) :
    s.insert fresh k = some (⟨none, none⟩, { s with locked := true }) := by
  have hfirst := h.firstFree_eq_none_iff.mpr hfull
  rw [← firstAvailableIdx_eq] at hfirst
  rw [insert, hlocked, hfirst]
  rfl

/-! ### Whole calls -/

variable {self : Pthread}

theorem findOrInsertThread_of_mem (fresh : ε → ε) (h : Slots.OwnedBy s.owners ks) (hmem : self.thid ∈ ks) :
    ∃ i, s.owners i = some self.thid ∧
      s.findOrInsertThread fresh self = some (⟨some i, some false⟩, s) := by
  obtain ⟨i, hi⟩ := h.mem_iff.mp hmem
  have hscan := h.find_eq_some_iff.mpr hi
  rw [← scan_eq] at hscan
  refine ⟨i, hi, ?_⟩
  rw [findOrInsertThread, hscan]

theorem scan_of_not_mem (h : Slots.OwnedBy s.owners ks) (hk : k ∉ ks) : s.scan k = none := by
  rw [scan_eq, h.find_eq_none_iff]
  exact hk

theorem findOrInsertThread_of_lt (fresh : ε → ε) (h : Slots.OwnedBy s.owners ks)
    (hlocked : s.locked = false) (hk : self.thid ∉ ks) (hlt : ks.length < MAX_THREADS) :
    s.findOrInsertThread fresh self
        = some (⟨some ⟨ks.length, hlt⟩, some true⟩, s.place fresh ⟨ks.length, hlt⟩ self.thid) ∧
      Slots.OwnedBy (s.place fresh ⟨ks.length, hlt⟩ self.thid).owners (ks ++ [self.thid]) := by
  obtain ⟨hinsert, howned⟩ := insert_of_lt fresh h hlocked hk hlt
  refine ⟨?_, howned⟩
  rw [findOrInsertThread, scan_of_not_mem h hk, hinsert]

theorem findOrInsertThread_of_full (fresh : ε → ε) (h : Slots.OwnedBy s.owners ks)
    (hlocked : s.locked = false) (hk : self.thid ∉ ks) (hfull : ks.length = MAX_THREADS) :
    s.findOrInsertThread fresh self = some (⟨none, none⟩, { s with locked := true }) := by
  rw [findOrInsertThread, scan_of_not_mem h hk, insert_of_full h hlocked hfull]

/-- What a call finds, and leaves, depends on the owners and the lock alone. -/
theorem findOrInsertThread_congr {t : ThreadTable ε} (howners : s.owners = t.owners)
    (hlocked : s.locked = t.locked) (fresh : ε → ε) (self : Pthread) :
    (s.findOrInsertThread fresh self).map (fun r => (r.1, r.2.owners, r.2.locked))
      = (t.findOrInsertThread fresh self).map (fun r => (r.1, r.2.owners, r.2.locked)) := by
  have hscan : s.scan self.thid = t.scan self.thid := by rw [scan_eq, scan_eq, howners]
  have hfirst : s.firstAvailableIdx = t.firstAvailableIdx := by
    rw [firstAvailableIdx_eq, firstAvailableIdx_eq, howners]
  rw [findOrInsertThread, findOrInsertThread, hscan]
  cases t.scan self.thid with
  | some i => simp [howners, hlocked]
  | none =>
    simp only [insert, hlocked, hfirst]
    cases t.locked
    · cases t.firstAvailableIdx with
      | none => simp [owners, funext_iff] at howners ⊢; exact howners
      | some i => simp [owners_place, howners, hlocked]
    · rfl

theorem findOrInsertThread_alike {t : ThreadTable ε} (howners : s.owners = t.owners)
    (hlocked : s.locked = t.locked) (fresh : ε → ε) (self : Pthread) :
    (s.findOrInsertThread fresh self = none ∧ t.findOrInsertThread fresh self = none) ∨
      ∃ found s' t', s.findOrInsertThread fresh self = some (found, s') ∧
        t.findOrInsertThread fresh self = some (found, t') ∧ s'.owners = t'.owners ∧
        s'.locked = t'.locked := by
  have hcongr := findOrInsertThread_congr howners hlocked fresh self
  cases hs : s.findOrInsertThread fresh self with
  | none =>
    rw [hs, Option.map_none, eq_comm, Option.map_eq_none_iff] at hcongr
    exact Or.inl ⟨rfl, hcongr⟩
  | some r =>
    rw [hs, Option.map_some, eq_comm, Option.map_eq_some_iff] at hcongr
    obtain ⟨⟨found, t'⟩, ht, heq⟩ := hcongr
    simp only [Prod.mk.injEq] at heq
    obtain ⟨rfl, howners', hlocked'⟩ := heq
    exact Or.inr ⟨r.1, r.2, t', rfl, ht, howners'.symm, hlocked'.symm⟩

/-! ### What is kept in the places -/

theorem owners_eq_map (s : ThreadTable ε) (i : Fin MAX_THREADS) : s.owners i = (s.owned i).map Prod.fst := by
  rw [owners, ThreadInfo.owner, owned]
  split <;> rfl

theorem owners_eq_of_owned {t : ThreadTable ε} (h : s.owned = t.owned) : s.owners = t.owners := by
  funext i
  rw [owners_eq_map, owners_eq_map, h]

theorem rest_of_owned {i : Fin MAX_THREADS} {rest : ε} (h : s.owned i = some (k, rest)) :
    (s.threadsInfo i).rest = rest := by
  rw [owned] at h
  split at h
  · cases h
    rfl
  · cases h

theorem exists_owned_of_owners {i : Fin MAX_THREADS} (h : s.owners i = some k) :
    ∃ rest, s.owned i = some (k, rest) := by
  rw [owners_eq_map, Option.map_eq_some_iff] at h
  obtain ⟨⟨k', rest⟩, howned, rfl⟩ := h
  exact ⟨rest, howned⟩

/-- Tables that keep the same agree on the fields of the places that are set. -/
theorem rest_eq_of_owned {t : ThreadTable ε} (h : s.owned = t.owned) {i : Fin MAX_THREADS}
    (hi : s.owners i = some k) : (s.threadsInfo i).rest = (t.threadsInfo i).rest := by
  obtain ⟨rest, howned⟩ := exists_owned_of_owners hi
  rw [rest_of_owned howned, rest_of_owned (h ▸ howned)]

theorem owned_place (s : ThreadTable ε) (i : Fin MAX_THREADS) (k : BitVec 32) :
    (s.place fresh i k).owned = Function.update s.owned i (some (k, fresh (s.threadsInfo i).rest)) := by
  funext j
  simp only [owned, place, Function.update_apply]
  split <;> rfl

theorem owned_setRest (s : ThreadTable ε) (i : Fin MAX_THREADS) (rest : ε) :
    (s.setRest i rest).owned = Function.update s.owned i ((s.owners i).map (·, rest)) := by
  funext j
  simp only [owned, setRest, owners, ThreadInfo.owner, Function.update_apply]
  split
  · split <;> rfl
  · rfl

/-- The caller gets a place whose fields are fresh, or the table keeps what it has. -/
theorem owned_of_found {e : ε} {found : Found} {t : ThreadTable ε} :
    s.findOrInsertThread (fun _ => e) self = some (found, t) →
    t.owned = match found with
      | ⟨some i, some true⟩ => Function.update s.owned i (some (self.thid, e))
      | _ => s.owned := by
  intro h
  rw [findOrInsertThread] at h
  split at h
  · cases h
    rfl
  · rw [insert] at h
    split at h
    · cases h
    · split at h
      · cases h
        rfl
      · cases h
        exact owned_place ..

theorem owner_of_found {found : Found} {t : ThreadTable ε} {i : Fin MAX_THREADS}
    (h : s.findOrInsertThread fresh self = some (found, t)) (hi : found.idx = some i) :
    t.owners i = some self.thid := by
  rw [findOrInsertThread] at h
  split at h
  · next hscan =>
    cases h
    cases hi
    rw [scan_eq] at hscan
    exact Slots.eq_some_of_find hscan
  · rw [insert] at h
    split at h
    · cases h
    · split at h
      · cases h
        cases hi
      · cases h
        cases hi
        rw [owners_place, Function.update_self]

/-- With tables that keep the same, calls find the same and leave the same. -/
theorem findOrInsertThread_owned {t : ThreadTable ε} (howned : s.owned = t.owned)
    (hlocked : s.locked = t.locked) (e : ε) (self : Pthread) :
    (s.findOrInsertThread (fun _ => e) self = none ∧ t.findOrInsertThread (fun _ => e) self = none) ∨
      ∃ found s' t', s.findOrInsertThread (fun _ => e) self = some (found, s') ∧
        t.findOrInsertThread (fun _ => e) self = some (found, t') ∧ s'.owned = t'.owned ∧
        s'.locked = t'.locked := by
  rcases findOrInsertThread_alike (owners_eq_of_owned howned) hlocked (fun _ => e) self with
    hnone | ⟨found, s', t', hs, ht, _, hlocked'⟩
  · exact Or.inl hnone
  · refine Or.inr ⟨found, s', t', hs, ht, ?_, hlocked'⟩
    rw [owned_of_found hs, owned_of_found ht, howned]

/-- Whatever a call finds, the table stays a list of owners, with the caller in the place found. -/
theorem findOrInsertThread_sound (h : Slots.OwnedBy s.owners ks) {found : Found} {t : ThreadTable ε}
    (hfound : s.findOrInsertThread fresh self = some (found, t)) :
    (∃ ks', Slots.OwnedBy t.owners ks') ∧ (∀ i, found.idx = some i → t.owners i = some self.thid) ∧
      ∀ i, t.owners i = none → s.owners i = none := by
  by_cases hmem : self.thid ∈ ks
  · obtain ⟨i, hi, hfound'⟩ := findOrInsertThread_of_mem fresh h hmem
    rw [hfound] at hfound'
    cases hfound'
    refine ⟨⟨ks, h⟩, fun j hj => ?_, fun _ => id⟩
    cases hj
    exact hi
  · have hunlocked : s.locked = false := by
      by_contra htaken
      rw [findOrInsertThread, scan_of_not_mem h hmem, insert, if_pos (by simpa using htaken)] at hfound
      cases hfound
    rcases Nat.lt_or_eq_of_le h.length_le with hlt | hfull
    · obtain ⟨hplace, howned⟩ := findOrInsertThread_of_lt fresh h hunlocked hmem hlt
      rw [hfound] at hplace
      cases hplace
      refine ⟨⟨_, howned⟩, fun j hj => ?_, fun j hj => ?_⟩
      · cases hj
        rw [owners_place, Function.update_self]
      · rw [owners_place, Function.update_apply] at hj
        split at hj
        · cases hj
        · exact hj
    · have hnone := findOrInsertThread_of_full fresh h hunlocked hmem hfull
      rw [hfound] at hnone
      cases hnone
      exact ⟨⟨ks, h⟩, nofun, fun _ => id⟩

end ThreadTable

end ProfHalide
