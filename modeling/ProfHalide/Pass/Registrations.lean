import ProfHalide.Pass.Nesting

/-!
# Registrations of other pipelines

The registrations are kept in vectors of the whole process, which are never emptied: when a pipeline is
lowered they hold what was registered for others, and what was registered more than once. The pass asks them
for each produce and consume node, with the func of the innermost produce node around it, and for each loop.
The first match is the answer, so that nothing else of the vectors has any effect.
-/

namespace ProfHalide

open InjectPAPIProfiling

/-- What the pass wants to know of a produce or consume node. -/
structure Ask where
  name : String
  isProducer : Bool
  parentName : String
  deriving DecidableEq, Repr

/-- The nodes that the mutator enters, inside a produce node of `parentName`. -/
def asks (parentName : String) : Stmt Empty → List Ask
  | .leaf _ => []
  | .scope _ body | .ifThen _ body => asks parentName body
  | .producerConsumer name isProducer body =>
      ⟨name, isProducer, parentName⟩ ::
        asks (if isProducer then normalizeName name else parentName) body
  | .for_ _ _ _ _ api body => if api.isGpu then [] else asks parentName body
  | .block a b | .fork a b | .ifThenElse _ a b => asks parentName a ++ asks parentName b

/-- The loops that the mutator comes by. -/
def loopsVisited : Stmt Empty → List String
  | .leaf _ => []
  | .scope _ body | .ifThen _ body | .producerConsumer _ _ body => loopsVisited body
  | .for_ name _ _ _ api body => name :: if api.isGpu then [] else loopsVisited body
  | .block a b | .fork a b | .ifThenElse _ a b => loopsVisited a ++ loopsVisited b

def ProfilerDef.answers (d : ProfilerDef) (ask : Ask) : Bool :=
  d.matches ask.name ask.isProducer ask.parentName

/-! ### The first match -/

section FirstMatch

variable {α : Type}

/-- The entries that are marked. -/
def effective (entries : List (α × Bool)) : List α := (entries.filter (·.2)).map (·.1)

/-- An entry that is not marked matches only what an entry before it matches. -/
def OthersLate (p : α → Bool) (entries : List (α × Bool)) : Prop :=
  ∀ i : Fin entries.length, entries[i].2 = false → p entries[i].1 = true → ∃ e ∈ entries.take i, p e.1 = true

instance (p : α → Bool) (entries : List (α × Bool)) : Decidable (OthersLate p entries) :=
  inferInstanceAs (Decidable (∀ _, _))

variable {p : α → Bool}

/-- The entries that are not marked may stand anywhere. -/
theorem find?_effective {entries : List (α × Bool)} (h : OthersLate p entries) :
    (entries.map (·.1)).find? p = (effective entries).find? p := by
  induction entries with
  | nil => rfl
  | cons e entries ih =>
    rw [List.map_cons]
    cases hmatch : p e.1 with
    | true =>
      -- Nothing comes before the first entry, so that it is marked if it matches.
      have hmarked : e.2 = true := by
        by_contra hnot
        obtain ⟨e', he', _⟩ := h ⟨0, Nat.succ_pos _⟩ (by simpa using hnot) hmatch
        cases he'
      rw [effective, List.filter_cons_of_pos hmarked, List.map_cons, List.find?_cons_of_pos hmatch,
        List.find?_cons_of_pos hmatch]
    | false =>
      have hlate : OthersLate p entries := by
        intro i hi hp
        obtain ⟨e', he', hp'⟩ := h i.succ hi hp
        rcases List.mem_cons.mp he' with rfl | he'
        · rw [hmatch] at hp'
          cases hp'
        · exact ⟨e', he', hp'⟩
      have hskip : (effective (e :: entries)).find? p = (effective entries).find? p := by
        cases hmarked : e.2 <;> simp [effective, hmarked, hmatch]
      rw [hskip, List.find?_cons_of_neg (by simp [hmatch])]
      exact ih hlate

end FirstMatch

/-! ### The mutator -/

/-- Whatever the mutator asks of a statement, two pairs of vectors give the same answers. -/
structure SameAnswers (defs defs' : List ProfilerDef) (loopDefs loopDefs' : List ProfilerLoop)
    (parentName : String) (s : Stmt Empty) : Prop where
  nodes : ∀ ask ∈ asks parentName s, defs.find? (·.answers ask) = defs'.find? (·.answers ask)
  loops : ∀ name ∈ loopsVisited s, loopDefs.find? (·.matches name) = loopDefs'.find? (·.matches name)

section SameAnswers

variable {defs defs' : List ProfilerDef} {loopDefs loopDefs' : List ProfilerLoop} {parentName : String}

/-- The parts of a statement that are mutated one after the other. -/
theorem SameAnswers.pair {s a b : Stmt Empty} (h : SameAnswers defs defs' loopDefs loopDefs' parentName s)
    (hasks : asks parentName s = asks parentName a ++ asks parentName b)
    (hnames : loopsVisited s = loopsVisited a ++ loopsVisited b) :
    SameAnswers defs defs' loopDefs loopDefs' parentName a ∧
      SameAnswers defs defs' loopDefs loopDefs' parentName b := by
  obtain ⟨hnodes, hloops⟩ := h
  rw [hasks] at hnodes
  rw [hnames] at hloops
  exact ⟨⟨fun ask hask => hnodes ask (List.mem_append_left _ hask),
      fun name hname => hloops name (List.mem_append_left _ hname)⟩,
    ⟨fun ask hask => hnodes ask (List.mem_append_right _ hask),
      fun name hname => hloops name (List.mem_append_right _ hname)⟩⟩

theorem mutate_congr (s : Stmt Empty) {around : Option (String × Bool)} {st : InjectPAPIProfiling}
    (hat : At around .idle st none)
    (h : SameAnswers defs defs' loopDefs loopDefs' (around.elim "overhead" (·.1)) s) :
    mutate defs loopDefs s st = mutate defs' loopDefs' s st := by
  induction s generalizing around st with
  | leaf l => rfl
  | scope header body ih => simp only [mutate, ih hat ⟨h.nodes, h.loops⟩]
  | ifThen c t ih => simp only [mutate, ih hat ⟨h.nodes, h.loops⟩]
  | producerConsumer name isProducer body ih =>
    have hregistration : registration defs name isProducer st = registration defs' name isProducer st := by
      rw [registration, registration, hat.parentName_eq]
      exact h.nodes _ List.mem_cons_self
    have hidle : Slot.idle.Is (ProfHalide.beforeBody defs name isProducer st).indices none := rfl
    have hinside := hat.beforeBody defs name isProducer hidle
    have hbefore : beforeBody defs name isProducer st = beforeBody defs' name isProducer st := by
      rw [beforeBody, beforeBody, hregistration]
    have hbody : mutate defs loopDefs body (beforeBody defs name isProducer st) =
        mutate defs' loopDefs' body (beforeBody defs' name isProducer st) := by
      rw [← hbefore]
      refine ih hinside ⟨fun ask hask => h.nodes ask (List.mem_cons_of_mem _ ?_), h.loops⟩
      cases isProducer <;> exact hask
    have hvisited : visitedBody defs name isProducer (mutate defs loopDefs body) st =
        visitedBody defs' name isProducer (mutate defs' loopDefs' body) st := by
      cases isProducer with
      | true => exact congrArg (fun r => ((st.countChild.getFuncId name).1, r.1, r.2.popProducer)) hbody
      | false => exact congrArg (fun r => (r.2.stackBack.1, r.1, r.2.stackBack.2)) hbody
    rw [mutate, mutate, visitProducerConsumer_eq, visitProducerConsumer_eq, hregistration, hvisited]
  | for_ name min extent forType api body ih =>
    have hvisited : visitForBody forType api body (mutate defs loopDefs body) st =
        visitForBody forType api body (mutate defs' loopDefs' body) st := by
      have hbody : api.isGpu = false → mutate defs loopDefs body st = mutate defs' loopDefs' body st := by
        intro hhost
        have hasks : asks (around.elim "overhead" (·.1)) (.for_ name min extent forType api body) =
            asks (around.elim "overhead" (·.1)) body := by
          rw [asks, hhost, if_neg Bool.false_ne_true]
        have hnames : loopsVisited (.for_ name min extent forType api body) = name :: loopsVisited body := by
          rw [loopsVisited, hhost, if_neg Bool.false_ne_true]
        refine ih hat ⟨fun ask hask => h.nodes ask (hasks ▸ hask), fun x hx => h.loops x ?_⟩
        rw [hnames]
        exact List.mem_cons_of_mem _ hx
      cases api with
      | none | host | hexagon => simp only [visitForBody, hbody rfl]
      | _ => rfl
    have hloop : loopDefs.find? (·.matches name) = loopDefs'.find? (·.matches name) :=
      h.loops name List.mem_cons_self
    rw [mutate, mutate, visitFor, visitFor, hvisited]
    unfold bracketLoop
    rw [hloop]
  | block a b iha ihb | fork a b iha ihb | ifThenElse c a b iha ihb =>
    obtain ⟨ha, hb⟩ := h.pair rfl rfl
    have hbody := ihb (hat.frame (mutate_frame defs' loopDefs' a st)) hb
    simp only [mutate, iha hat ha, hbody]

end SameAnswers

/-! ### The pass -/

/-- Registrations that match nothing in a program, or only what ones before them match, change nothing of
what the pass makes of it, wherever they stand. -/
theorem inject_amid {defs : List (ProfilerDef × Bool)} {loopDefs : List (ProfilerLoop × Bool)} {s : Stmt Empty}
    (hdefs : ∀ ask ∈ asks "overhead" s, OthersLate (·.answers ask) defs)
    (hloops : ∀ name ∈ loopsVisited s, OthersLate (·.matches name) loopDefs) (pipelineName : String) :
    injectPapiProfiling (defs.map (·.1)) (loopDefs.map (·.1)) s pipelineName =
      injectPapiProfiling (effective defs) (effective loopDefs) s pipelineName := by
  have hsame : SameAnswers (defs.map (·.1)) (effective defs) (loopDefs.map (·.1)) (effective loopDefs)
      "overhead" s :=
    ⟨fun ask hask => find?_effective (hdefs ask hask), fun name hname => find?_effective (hloops name hname)⟩
  rw [inject_eq, inject_eq, mutate_congr s at_init hsame]

/-- A func computed inside of another one. -/
def inlinedProducer : Stmt Empty :=
  .producerConsumer "f" true (.for_ "f.s0.x" (.intImm 0) (.intImm 4) .serial .host (.block
    (.producerConsumer "g" true (.leaf (.provide "g" [.intImm 2] [.intImm 0])))
    (.producerConsumer "g" false (.leaf (.provide "f" [.intImm 3] [.variable "f.s0.x"])))))

/-- Registrations of other pipelines in front of, between and behind those of this one, and late ones. -/
theorem inject_amid_inlinedProducer : injectPapiProfiling
    [profile "h" PROFILE_PRODUCTION false true, profile "f" PROFILE_PRODUCTION false true,
      profileIn "k" "g" PROFILE_PRODUCTION false true, profile "f" PROFILE_PRODUCTION true false,
      profileIn "f" "g" PROFILE_CONSUMPTION false false, profile "g" PROFILE_CONSUMPTION true true]
    [⟨"g", "x", false⟩, ⟨"f", "x", false⟩, ⟨"f", "x", true⟩] inlinedProducer "p" =
    injectPapiProfiling
      [profile "f" PROFILE_PRODUCTION false true, profileIn "f" "g" PROFILE_CONSUMPTION false false]
      [⟨"f", "x", false⟩] inlinedProducer "p" :=
  @inject_amid
    [(profile "h" PROFILE_PRODUCTION false true, false), (profile "f" PROFILE_PRODUCTION false true, true),
      (profileIn "k" "g" PROFILE_PRODUCTION false true, false),
      (profile "f" PROFILE_PRODUCTION true false, false),
      (profileIn "f" "g" PROFILE_CONSUMPTION false false, true),
      (profile "g" PROFILE_CONSUMPTION true true, false)]
    [(⟨"g", "x", false⟩, false), (⟨"f", "x", false⟩, true), (⟨"f", "x", true⟩, false)]
    inlinedProducer (by decide) (by decide) "p"

end ProfHalide
