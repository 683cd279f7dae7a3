import ProfHalide.Halide.Serial

/-!
# Walks

A serial execution with the borders it passes: of produce and consume nodes, and between the host and a
device. Without the borders a walk is an execution.
-/

namespace ProfHalide

open Behaviour

/-- The devices whose memory the host's profiler state is not in. -/
def DeviceAPI.isDevice (api : DeviceAPI) : Bool := api == .hexagon || api.isGpu

/-- An event, or a border that is passed. -/
inductive Mark (κ : Type) where
  | event (e : Event κ)
  | enter (name : String) (isProducer : Bool)
  | leave (name : String) (isProducer : Bool)
  | toDevice
  | fromDevice
  deriving Repr

variable {κ : Type}

def Mark.event? : Mark κ → Option (Event κ)
  | .event e => some e
  | _ => none

/-- Whether the walk goes between the host and a device. -/
def Mark.crosses : Mark κ → Bool
  | .toDevice | .fromDevice => true
  | _ => false

/-- Whether a leaf statement is carried out, or fails. -/
def Event.isLeaf : Event κ → Bool
  | .exec _ | .fails _ _ => true
  | _ => false

def Leaf.walk (l : Leaf κ) : Behaviour (Mark κ) := image (fun e => some (.event e)) l.exec

/-- A loop, between the borders if it runs on a device. -/
def DeviceAPI.launch (api : DeviceAPI) (P : Behaviour (Mark κ)) : Behaviour (Mark κ) :=
  if api.isDevice then seq (done [.toDevice]) (seq P (done [.fromDevice])) else P

namespace Stmt

def walk : Stmt κ → Behaviour (Mark κ)
  | .leaf l => l.walk
  | .scope h body => seq (done (h.events.map .event)) body.walk
  | .producerConsumer name isProducer body =>
      seq (done [.enter name isProducer]) (seq body.walk (done [.leave name isProducer]))
  | .for_ x min extent _ api body =>
      api.launch (loop (fun n => [.event (.loop x min extent n)]) body.walk)
  | .block a b | .fork a b => seq a.walk b.walk
  | .ifThen c t =>
      either (seq (done [.event (.branch c true)]) t.walk) (done [.event (.branch c false)])
  | .ifThenElse c t e =>
      either (seq (done [.event (.branch c true)]) t.walk)
        (seq (done [.event (.branch c false)]) e.walk)

@[simp] theorem walk_blockMake (a b : Stmt κ) : (blockMake a b).walk = seq a.walk b.walk :=
  blockMake_invariant walk (fun _ _ _ => seq_assoc _ _ _)
    (fun _ _ _ h => by rw [walk, walk, h]) a b

end Stmt

theorem Leaf.image_walk (l : Leaf κ) : image Mark.event? l.walk = l.exec := by
  ext t ok
  constructor
  · rintro ⟨_, ⟨u, hu, rfl⟩, rfl⟩
    rw [List.filterMap_filterMap]
    simpa [Mark.event?] using hu
  · intro ht
    refine ⟨_, ⟨t, ht, rfl⟩, ?_⟩
    rw [List.filterMap_filterMap]
    simp [Mark.event?]

/-- Borders in front and behind leave no event. -/
theorem image_between {e e' : Mark κ} (he : e.event? = none) (he' : e'.event? = none)
    (P : Behaviour (Mark κ)) :
    image Mark.event? (seq (done [e]) (seq P (done [e']))) = image Mark.event? P := by
  rw [image_seq, image_seq, image_done, image_done, List.filterMap_cons_none he,
    List.filterMap_cons_none he', List.filterMap_nil, seq_done_nil, seq_nil_right]

theorem DeviceAPI.image_launch (api : DeviceAPI) (P : Behaviour (Mark κ)) :
    image Mark.event? (api.launch P) = image Mark.event? P := by
  unfold launch
  split
  · exact image_between rfl rfl P
  · rfl

/-- The executions are the walks without their borders. -/
theorem Stmt.image_walk (s : Stmt κ) : image Mark.event? s.walk = s.exec := by
  induction s with
  | leaf l => exact l.image_walk
  | scope h body ih =>
    rw [walk, image_seq, ih, image_done, List.filterMap_map]
    simp [exec, Function.comp_def, Mark.event?]
  | producerConsumer name isProducer body ih => exact (image_between rfl rfl body.walk).trans ih
  | for_ x min extent forType api body ih =>
    rw [walk, DeviceAPI.image_launch, image_loop, ih]
    rfl
  | block a b iha ihb | fork a b iha ihb => rw [walk, image_seq, iha, ihb, exec]
  | ifThen c t ih =>
    rw [walk, image_either, image_seq, ih, image_done, image_done]
    rfl
  | ifThenElse c t e iht ihe =>
    rw [walk, image_either, image_seq, image_seq, iht, ihe, image_done, image_done]
    rfl

/-! ### The walk straight ahead

Every condition and assertion holds, and every loop runs once. -/

def Leaf.straight : Leaf κ → List (Mark κ)
  | .evaluate (.call fn args) => [.event (.call fn args)]
  | l => [.event (.exec l)]

def Stmt.straight : Stmt κ → List (Mark κ)
  | .leaf l => l.straight
  | .scope h body => h.events.map .event ++ body.straight
  | .producerConsumer name isProducer body =>
      .enter name isProducer :: (body.straight ++ [.leave name isProducer])
  | .for_ x min extent _ api body =>
      let round := .event (.loop x min extent 1) :: body.straight
      if api.isDevice then .toDevice :: (round ++ [.fromDevice]) else round
  | .block a b | .fork a b => a.straight ++ b.straight
  | .ifThen c t | .ifThenElse c t _ => .event (.branch c true) :: t.straight

theorem Leaf.walk_straight (l : Leaf κ) : l.walk l.straight true := by
  cases l with
  | assertStmt c m => exact ⟨[.exec (.assertStmt c m)], Or.inl ⟨rfl, rfl⟩, rfl⟩
  | evaluate e => cases e <;> exact ⟨_, ⟨rfl, rfl⟩, rfl⟩
  | _ => exact ⟨_, ⟨rfl, rfl⟩, rfl⟩

theorem Stmt.walk_straight (s : Stmt κ) : s.walk s.straight true := by
  induction s with
  | leaf l => exact l.walk_straight
  | scope h body ih => exact seq_done_of _ ih
  | producerConsumer name isProducer body ih => exact seq_done_of [_] (seq_of ih ⟨rfl, rfl⟩)
  | for_ x min extent forType api body ih =>
    have hround : loop (fun n => [Mark.event (.loop x min extent n)]) body.walk
        (.event (.loop x min extent 1) :: body.straight) true := by
      refine ⟨1, seq_done_of [_] ?_⟩
      rw [iter, iter, seq_nil_right]
      exact ih
    rw [walk, straight, DeviceAPI.launch]
    split
    · exact seq_done_of [_] (seq_of hround ⟨rfl, rfl⟩)
    · exact hround
  | block a b iha ihb | fork a b iha ihb => exact seq_of iha ihb
  | ifThen c t ih | ifThenElse c t e ih _ => exact Or.inl (seq_done_of [_] ih)

end ProfHalide
