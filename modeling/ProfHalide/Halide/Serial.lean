import ProfHalide.Halide.Ir
import ProfHalide.Lib.Behaviour

/-!
# Serial execution

One thread carries out a statement: iterations in order, the branches of a fork one after the other.
Expressions stay uninterpreted, so a condition may go either way and a loop may run any number of
times; what was decided is part of the trace, next to the leaf statements carried out and the runtime
functions called. An execution is cut short by a failing assertion and by nothing else.
-/

namespace ProfHalide

inductive Event (κ : Type) where
  | call (fn : κ) (args : List (Expr κ))
  | exec (l : Leaf κ)
  | fails (condition message : Expr κ)
  | enter (h : Scope κ)
  | branch (condition : Expr κ) (taken : Bool)
  | loop (name : String) (min extent : Expr κ) (iterations : Nat)
  deriving Repr

open Behaviour

variable {κ : Type}

def Leaf.exec : Leaf κ → Behaviour (Event κ)
  | .evaluate (.call fn args) => done [.call fn args]
  | .assertStmt c m => either (done [.exec (.assertStmt c m)]) (cut [.fails c m])
  | l => done [.exec l]

/-- A let evaluates its value first, which is where a called function runs. -/
def Scope.events : Scope κ → List (Event κ)
  | .letStmt x (.call fn args) => [.call fn args, .enter (.letStmt x (.call fn args))]
  | h => [.enter h]

theorem Leaf.exec_inhabited (l : Leaf κ) : l.exec.Inhabited := by
  cases l with
  | assertStmt c m => exact ⟨_, Or.inl ⟨rfl, rfl⟩⟩
  | evaluate e => cases e <;> exact ⟨_, rfl, rfl⟩
  | _ => exact ⟨_, rfl, rfl⟩

namespace Stmt

def exec : Stmt κ → Behaviour (Event κ)
  | .leaf l => l.exec
  | .scope h body => seq (done h.events) body.exec
  | .producerConsumer _ _ body => body.exec
  | .for_ x min extent _ _ body => loop (fun n => [.loop x min extent n]) body.exec
  | .block a b => seq a.exec b.exec
  | .fork a b => seq a.exec b.exec
  | .ifThen c t => either (seq (done [.branch c true]) t.exec) (done [.branch c false])
  | .ifThenElse c t e =>
      either (seq (done [.branch c true]) t.exec) (seq (done [.branch c false]) e.exec)

@[simp] theorem exec_blockMake (a b : Stmt κ) : (blockMake a b).exec = seq a.exec b.exec :=
  blockMake_invariant exec (fun _ _ _ => seq_assoc _ _ _)
    (fun _ _ _ h => by rw [exec, exec, h]) a b

@[simp] theorem exec_evaluate_call (fn : κ) (args : List (Expr κ)) :
    (evaluate (.call fn args)).exec = done [.call fn args] := rfl

/-- With every condition free to go either way, any statement can be carried out to its end. -/
theorem exec_inhabited (s : Stmt κ) : s.exec.Inhabited := by
  induction s with
  | leaf l => exact l.exec_inhabited
  | scope h body ih => exact (Inhabited.done _).seq ih
  | producerConsumer _ _ body ih => exact ih
  | for_ x min extent _ _ body ih => exact Inhabited.loop _ _
  | block a b iha ihb => exact iha.seq ihb
  | fork a b iha ihb => exact iha.seq ihb
  | ifThen c t ih => exact ⟨_, Or.inr ⟨rfl, rfl⟩⟩
  | ifThenElse c t e iht ihe =>
    obtain ⟨u, hu⟩ := (Inhabited.done [Event.branch c true]).seq iht
    exact ⟨u, Or.inl hu⟩

end Stmt

end ProfHalide
