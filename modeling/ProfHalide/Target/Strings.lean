import ProfHalide.Target.Feature
import Mathlib.Data.Vector.Basic

/-!
# Target strings

A target is printed as its architecture, bits, operating system and features, with dashes between them,
and parsed token by token. Asking for a feature whose number is beyond the sentinel fails, and printing
asks for every feature that has a name; since `papi` was given the number of an earlier feature, some
are beyond the sentinel, and no target can be printed at all.
-/

namespace ProfHalide

inductive OS where
  | osUnknown | linux | windows | osx | android | ios | qurt | noOS | fuchsia | webAssemblyRuntime
  deriving DecidableEq, Repr

inductive Arch where
  | archUnknown | x86 | arm | mips | hexagon | powerpc | webAssembly | riscv
  deriving DecidableEq, Repr

def osNameMap : List (String × OS) :=
  [("android", .android), ("fuchsia", .fuchsia), ("ios", .ios), ("linux", .linux), ("noos", .noOS),
    ("os_unknown", .osUnknown), ("osx", .osx), ("qurt", .qurt), ("wasmrt", .webAssemblyRuntime),
    ("windows", .windows)]

def archNameMap : List (String × Arch) :=
  [("arch_unknown", .archUnknown), ("arm", .arm), ("hexagon", .hexagon), ("mips", .mips),
    ("powerpc", .powerpc), ("riscv", .riscv), ("wasm", .webAssembly), ("x86", .x86)]

structure Target where
  os : OS := .osUnknown
  arch : Arch := .archUnknown
  bits : Int := 0
  features : Vector Bool Feature.FeatureEnd := Vector.replicate _ false
  deriving DecidableEq

/-- What the machine and the rest of the compiler are asked for. -/
structure Host where
  getHostTarget : Target
  getHostCudaCapability : Target → Feature
  /-- All occurrences of a string, replaced by another. -/
  replaceAll : String → String → String → String

/-- The name that a map gives to a value. -/
def nameOf {α : Type} [DecidableEq α] (map : List (String × α)) (a : α) : Option String :=
  (map.find? (·.2 = a)).map (·.1)

namespace Target

open Feature (FeatureEnd)

def hasUnknowns (t : Target) : Bool := t.os = .osUnknown || t.arch = .archUnknown || t.bits = 0

def invalidFeature : String := "Invalid Target feature.\n"

def setFeature (t : Target) (f : Feature) (value : Bool) : Except String Target :=
  if f.value = FeatureEnd then .ok t
  else if h : f.value < FeatureEnd then .ok { t with features := t.features.set f.value value h }
  else .error invalidFeature

def setFeatures (t : Target) (fs : List Feature) (value : Bool) : Except String Target :=
  fs.foldlM (fun t f => t.setFeature f value) t

def hasFeature (t : Target) (f : Feature) : Except String Bool :=
  if f.value = FeatureEnd then .ok true
  else if h : f.value < FeatureEnd then .ok t.features[f.value]
  else .error invalidFeature

/-! ### Printing -/

def printFeatures (t : Target) (result : String) : Except String String :=
  featureNameMap.foldlM (fun result entry => do
    if ← t.hasFeature entry.2 then return result ++ "-" ++ entry.1 else return result) result

/-- Whether a target has all of some features, asked in order until one is missing. -/
def hasAll (t : Target) : List Feature → Except String Bool
  | [] => .ok true
  | f :: fs => do if ← t.hasFeature f then t.hasAll fs else return false

def hasAny (t : Target) : List Feature → Except String Bool
  | [] => .ok false
  | f :: fs => do if ← t.hasFeature f then return true else t.hasAny fs

def toString (host : Host) (t : Target) : Except String String := do
  let arch := (nameOf archNameMap t.arch).getD ""
  let os := ((nameOf osNameMap t.os).map ("-" ++ ·)).getD ""
  let result ← t.printFeatures (arch ++ "-" ++ t.bits.repr ++ os)
  if ← t.hasAll [.traceLoads, .traceStores, .traceRealizations] then
    return host.replaceAll result "trace_loads-trace_realizations-trace_stores" "trace_all"
  else return result

/-! ### Parsing -/

/-- The state of the loop over the tokens. -/
structure Merge where
  t : Target
  osSpecified : Bool := false
  archSpecified : Bool := false
  bitsSpecified : Bool := false
  featuresSpecified : Bool := false
  isHost : Bool := false

def bitsOf (tok : String) : Option Int :=
  if tok = "32" then some 32 else if tok = "64" then some 64 else if tok = "0" then some 0 else none

/-- One token; `none` is a string that is not understood. -/
def Merge.token (host : Host) (first : Bool) (m : Merge) (tok : String) :
    Except String (Option Merge) :=
  if tok = "host" then
    if first then .ok (some { m with t := host.getHostTarget, isHost := true }) else .ok none
  else match bitsOf tok with
  | some bits =>
    if m.bitsSpecified then .ok none
    else .ok (some { m with t := { m.t with bits := bits }, bitsSpecified := true })
  | none => match archNameMap.lookup tok with
  | some arch =>
    if m.archSpecified then .ok none
    else .ok (some { m with t := { m.t with arch := arch }, archSpecified := true })
  | none => match osNameMap.lookup tok with
  | some os =>
    if m.osSpecified then .ok none
    else .ok (some { m with t := { m.t with os := os }, osSpecified := true })
  | none => match featureNameMap.lookup tok with
  | some feature => do
    let t ← m.t.setFeature feature true
    return some { m with t := t, featuresSpecified := true }
  | none =>
    if tok = "trace_all" then do
      let t ← m.t.setFeatures [.traceLoads, .traceStores, .traceRealizations] true
      return some { m with t := t, featuresSpecified := true }
    else .ok none

def Merge.tokens (host : Host) : Bool → Merge → List String → Except String (Option Merge)
  | _, m, [] => .ok (some m)
  | first, m, tok :: rest => do
    match ← m.token host first tok with
    | none => return none
    | some m => Merge.tokens host false m rest

/-- A host target with CUDA is given the capability of the host. -/
def Merge.cudaCapability (host : Host) (m : Merge) : Except String Target := do
  if !m.isHost then return m.t
  if !(← m.t.hasFeature .cuda) then return m.t
  if ← m.t.hasAny [.cudaCapability30, .cudaCapability32, .cudaCapability35, .cudaCapability50,
      .cudaCapability61, .cudaCapability70, .cudaCapability75, .cudaCapability80] then return m.t
  m.t.setFeature (host.getHostCudaCapability m.t) true

def mergeString (host : Host) (t : Target) (target : String) : Except String (Option Target) := do
  match ← Merge.tokens host true { t := t } (target.splitOn "-") with
  | none => return none
  | some m =>
    let t ← m.cudaCapability host
    if m.archSpecified && !m.bitsSpecified then return none
    -- No bits are allowed for the target without a name, which has no features either.
    if m.bitsSpecified && t.bits = 0 then
      if !(m.archSpecified && t.arch = .archUnknown) || !(m.osSpecified && t.os = .osUnknown) ||
        m.featuresSpecified then return none
    return some t

def joined (names : List String) : String := ", ".intercalate names

/-- The names of the features, with a line break after more than 70 characters; the first line starts
with a text of 13. -/
def featureLines : String :=
  (featureNameMap.foldl (fun (acc : String × String × Int) entry =>
    let features := acc.1 ++ acc.2.1 ++ entry.1
    if (features.length : Int) - acc.2.2 > 70 then (features, "\n", features.length)
    else (features, ", ", acc.2.2)) ("", "", -13)).1

def badTargetString (host : Host) (target : String) : Except String Target := do
  let hostName ← host.getHostTarget.toString host
  .error ("Did not understand Halide target " ++ target ++ "\n" ++
    "Expected format is arch-bits-os-feature1-feature2-...\n" ++
    "Where arch is: " ++ joined (archNameMap.map (·.1)) ++ ".\n" ++
    "bits is either 32 or 64.\n" ++
    "os is: " ++ joined (osNameMap.map (·.1)) ++ ".\n" ++
    "\n" ++
    "If arch, bits, or os are omitted, they default to the host.\n" ++
    "\n" ++
    "Features are: " ++ featureLines ++ ".\n" ++
    "\n" ++
    "The target can also begin with \"host\", which sets the " ++
    "host's architecture, os, and feature set, with the " ++
    "exception of the GPU runtimes, which default to off.\n" ++
    "\n" ++
    "On this platform, the host target is: " ++ hostName ++ "\n")

/-- The target that a string names. -/
def ofString (host : Host) (target : String) : Except String Target := do
  if target = "" then return host.getHostTarget
  match ← mergeString host {} target with
  | some t => if t.hasUnknowns then badTargetString host target else return t
  | none => badTargetString host target

/-! ### Features by number -/

variable {t t' : Target} {f g : Feature}

theorem setFeature_isOk_iff (t : Target) (f : Feature) (value : Bool) :
    (∃ t', t.setFeature f value = .ok t') ↔ f.value ≤ FeatureEnd := by
  rw [setFeature]
  split
  · next hend => exact iff_of_true ⟨t, rfl⟩ hend.le
  · next hend =>
    split
    · next hlt => exact iff_of_true ⟨_, rfl⟩ hlt.le
    · next hlt => exact iff_of_false nofun (by omega)

theorem hasFeature_eq_error_iff (t : Target) (f : Feature) (e : String) :
    t.hasFeature f = .error e ↔ FeatureEnd < f.value ∧ e = invalidFeature := by
  rw [hasFeature]
  split
  · next hend => exact iff_of_false nofun (by omega)
  · next hend =>
    split
    · next hlt => exact iff_of_false nofun (by omega)
    · next hlt =>
      rw [Except.error.injEq, eq_comm]
      exact (and_iff_right (by omega)).symm

theorem hasFeature_of_lt (h : g.value < FeatureEnd) :
    t.hasFeature g = .ok t.features[g.value] := by
  rw [hasFeature, if_neg h.ne, dif_pos h]

theorem hasFeature_setFeature {value : Bool} (h : t.setFeature f value = .ok t')
    (hg : g.value < FeatureEnd) :
    t'.hasFeature g = if f.value = g.value then .ok value else t.hasFeature g := by
  rw [hasFeature_of_lt hg, hasFeature_of_lt hg]
  rw [setFeature] at h
  split at h
  · next hend =>
    cases h
    rw [if_neg (by omega)]
  · split at h
    · next hlt =>
      cases h
      rw [Vector.getElem_set]
      split <;> rfl
    · cases h

/-- After a number of features have been set, a feature is set if one of its number is. -/
theorem hasFeature_setFeatures {fs : List Feature} (h : t.setFeatures fs true = .ok t')
    (hg : g.value < FeatureEnd) :
    t'.hasFeature g = (t.hasFeature g).map (· || fs.any (·.value = g.value)) := by
  induction fs generalizing t with
  | nil =>
    cases h
    rw [hasFeature_of_lt hg]
    simp [Except.map]
  | cons f fs ih =>
    rw [setFeatures, List.foldlM_cons] at h
    cases hset : t.setFeature f true with
    | error e =>
      rw [hset] at h
      cases h
    | ok t₁ =>
      rw [hset] at h
      rw [ih h, hasFeature_setFeature hset hg, hasFeature_of_lt hg]
      by_cases heq : f.value = g.value <;> simp [heq, Except.map]

/-- The new feature is not told from an old one. -/
theorem setFeature_papi (t : Target) (value : Bool) :
    t.setFeature .papi value = t.setFeature .hvxV66 value := rfl

theorem hasFeature_papi (t : Target) : t.hasFeature .papi = t.hasFeature .hvxV66 := rfl

/-- A feature that every target has, and that cannot be set. -/
theorem hasFeature_clHalf (t : Target) : t.hasFeature .clHalf = .ok true := rfl

theorem setFeature_clHalf (t : Target) (value : Bool) : t.setFeature .clHalf value = .ok t := rfl

/-! ### No target is printed -/

/-- A loop that fails in one way only, and at some element whatever came before, fails. -/
theorem foldlM_eq_error {α β ε : Type} {step : β → α → Except ε β} {e : ε}
    (herror : ∀ b a e', step b a = .error e' → e' = e) {l : List α}
    (hfails : ∃ a ∈ l, ∀ b, ∃ e', step b a = .error e') (b : β) : l.foldlM step b = .error e := by
  induction l generalizing b with
  | nil =>
    obtain ⟨a, ha, _⟩ := hfails
    cases ha
  | cons a l ih =>
    rw [List.foldlM_cons]
    cases hstep : step b a with
    | error e' =>
      rw [herror b a e' hstep]
      rfl
    | ok b' =>
      refine ih ?_ b'
      obtain ⟨a', ha', hall⟩ := hfails
      rcases List.mem_cons.mp ha' with rfl | ha'
      · obtain ⟨e', he'⟩ := hall b
        rw [hstep] at he'
        cases he'
      · exact ⟨a', ha', hall⟩

theorem printFeatures_eq_error (t : Target) (result : String) :
    t.printFeatures result = .error invalidFeature := by
  refine foldlM_eq_error (fun result entry e' h => ?_) ⟨("strict_float", .strictFloat), ?_, ?_⟩ result
  · cases hhas : t.hasFeature entry.2 with
    | error e =>
      rw [hhas] at h
      cases h
      exact ((hasFeature_eq_error_iff t entry.2 _).mp hhas).2
    | ok b =>
      rw [hhas] at h
      cases b <;> cases h
  · simp [featureNameMap]
  · intro result
    rw [(hasFeature_eq_error_iff t .strictFloat invalidFeature).mpr ⟨by decide, rfl⟩]
    exact ⟨_, rfl⟩

theorem toString_eq_error (host : Host) (t : Target) :
    t.toString host = .error invalidFeature := by
  rw [toString, printFeatures_eq_error]
  rfl

/-- Setting some features of a target with a name returns a target with exactly these, which is printed
and parsed back. -/
def RoundTrips (host : Host) (os : OS) (arch : Arch) (bits : Int) (fs : List Feature) : Prop :=
  ∃ t, setFeatures { os := os, arch := arch, bits := bits } fs true = .ok t ∧
    (∀ f ∈ featureNameMap.map Prod.snd, t.hasFeature f = .ok (decide (f ∈ fs))) ∧
    ∃ s, t.toString host = .ok s ∧ ofString host s = .ok t

theorem not_roundTrips (host : Host) (os : OS) (arch : Arch) (bits : Int) (fs : List Feature) :
    ¬ RoundTrips host os arch bits fs := by
  intro h
  obtain ⟨t, _, _, s, hprint, _⟩ := h
  rw [toString_eq_error] at hprint
  cases hprint

theorem not_roundTrips_papi :
    ¬ ∀ (host : Host) (os : OS) (arch : Arch) (bits : Int) (fs : List Feature),
      os ≠ .osUnknown → arch ≠ .archUnknown → bits = 32 ∨ bits = 64 →
      (∀ f ∈ fs, f ∈ featureNameMap.map Prod.snd) → RoundTrips host os arch bits fs := by
  intro h
  have hhost : Host := ⟨{}, fun _ => .end_, fun s _ _ => s⟩
  obtain ⟨t, _, _, s, hprint, _⟩ :=
    h hhost .linux .x86 64 [.papi] nofun nofun (Or.inr rfl) (by simp [featureNameMap])
  rw [toString_eq_error] at hprint
  cases hprint

end Target

end ProfHalide
