import ProfHalide.Papi
import ProfHalide.Lib.Strands

/-!
# Concurrent execution

The iterations of a parallel loop are tasks of their own, and so is the second branch of a fork; the
thread that launches a loop waits until its tasks have ended. A loop on Hexagon is carried out by tasks
on the remote device, one for each iteration. The body of a loop on a GPU is device code: its threads
are none of ours, and all that is seen of it is that the launching thread waits.

Of what a thread does, an execution keeps the calls into the profiler, the failing assertions, and
where tasks start and end and loops are launched and waited for.
-/

namespace ProfHalide

open Behaviour Strands

/-- From a thread to a task it starts. -/
inductive Step where
  | iteration (i : Nat)
  /-- An iteration of a loop on Hexagon. -/
  | remote (i : Nat)
  /-- The second branch of a fork, numbered by the forks around it on the same thread. -/
  | async (depth : Nat)
  deriving DecidableEq, Repr

inductive Act where
  | call (c : PapiCall)
  | start | finish
  /-- From here the thread waits for a parallel or device loop. -/
  | launch
  | resume
  | fails
  deriving DecidableEq, Repr

/-- The addresses inside the first branch of a fork, as seen from that branch. -/
def Step.unshift : Step → Option Step
  | .async 0 => none
  | .async (depth + 1) => some (.async depth)
  | i => some i

abbrev Thread := List Step

/-- A loop carried out by tasks, which the thread waits for. -/
def launched (P : Behaviour (Tagged Step Act)) : Behaviour (Tagged Step Act) :=
  seq (done (own [.launch])) (seq P (done (own [.resume])))

namespace Stmt

def threads : Stmt PapiFn → Behaviour (Tagged Step Act)
  | .leaf l =>
      if l.isAssert then either (done []) (cut (own [.fails]))
      else done (own (l.papiCall.toList.map .call))
  | .scope h body => seq (done (own (h.papiCall.toList.map .call))) body.threads
  | .producerConsumer _ _ body => body.threads
  | .for_ _ _ _ forType api body =>
      if api = .hexagon then
        launched (tasks .remote forType.isParallel (task .start .finish body.threads))
      else if api.isGpu then
        if forType.isParallel then launched (done []) else done []
      else if forType.isParallel then
        launched (tasks .iteration true (task .start .finish body.threads))
      else loop (fun _ => []) body.threads
  | .block a b => seq a.threads b.threads
  | .fork a b =>
      beside Step.unshift (.async 0) a.threads (task .start .finish b.threads)
  | .ifThen _ t => either t.threads (done [])
  | .ifThenElse _ t e => either t.threads e.threads

@[simp] theorem threads_blockMake (a b : Stmt PapiFn) :
    (blockMake a b).threads = seq a.threads b.threads :=
  blockMake_invariant threads (fun _ _ _ => seq_assoc _ _ _)
    (fun _ _ _ h => by rw [threads, threads, h]) a b

theorem threads_call {fn : PapiFn} {args : List (Expr PapiFn)} {c : PapiCall}
    (h : fn.decode args = some c) : (evaluate (.call fn args)).threads = done (own [.call c]) := by
  simp [threads, Leaf.isAssert, Leaf.papiCall, h]

/-- Renaming the state pointer changes nothing that threads do. -/
theorem threads_substitute (name newName : String) (s : Stmt PapiFn) :
    (s.substitute name newName).threads = s.threads := by
  induction s with
  | leaf l =>
    rw [substitute, threads, threads, Leaf.papiCall_substitute, Leaf.isAssert_substitute]
  | scope h body ih =>
    rw [substitute, threads, threads, Scope.papiCall_substitute]
    split
    · rfl
    · rw [ih]
  | for_ x min extent forType api body ih =>
    have hbody : (if x = name then body else body.substitute name newName).threads = body.threads := by
      split
      · rfl
      · exact ih
    rw [substitute, threads, threads, hbody]
  | producerConsumer n p body ih => exact ih
  | block a b iha ihb => rw [substitute, threads, threads, iha, ihb]
  | fork a b iha ihb => rw [substitute, threads, threads, iha, ihb]
  | ifThen c t ih => rw [substitute, threads, threads, ih]
  | ifThenElse c t e iht ihe => rw [substitute, threads, threads, iht, ihe]

end Stmt

end ProfHalide
