import HmclPe.Lib.Runs
import Mathlib.Data.List.Nodup

/-! The asynchronous executor on a task tree as a step relation. A step completes one stage
of one chain of futures; any task may fail and the executor be cancelled at any time. -/
namespace HmclPe.Tasks.Executor
open HmclPe.Lib.Runs

inductive TaskState where
  | ready
  | running
  | executed
  | succeeded
  | failed
  deriving DecidableEq

/-- How the future of a task completes; an error is no exception. -/
inductive Outcome where
  | succeeded
  | exception
  | error
  deriving DecidableEq

inductive Role where
  | dependents
  | dependencies
  deriving DecidableEq

/-- How far the chain of futures of a task is. A task that was aborted has been given a
CancellationException in place of being launched. -/
inductive Phase where
  | idle
  | aborted
  | launched
  | prepared
  | awaitingDependents
  | dependentsDone (exception : Bool)
  | running
  | executed
  | awaitingDependencies
  | dependenciesDone (exception : Bool)
  | ended (outcome : Outcome)
  deriving DecidableEq

namespace Phase

def Started : Phase → Prop
  | idle => False
  | aborted => False
  | _ => True

def Ended : Phase → Prop
  | ended _ => True
  | _ => False

def Active (phase : Phase) : Prop := phase.Started ∧ ¬phase.Ended

/-- Nothing happens to the task any more once its parent has seen to it. -/
def Over (phase : Phase) : Prop := phase = aborted ∨ phase.Ended

/-- The stages that run code of the task or of the executor on its behalf. -/
def Own : Phase → Prop
  | launched => True
  | prepared => True
  | dependentsDone _ => True
  | running => True
  | executed => True
  | dependenciesDone _ => True
  | _ => False

end Phase

open Phase

namespace Role

/-- The stage after which `executeTasks` is called for the tasks of this role. -/
def calls : Role → Phase
  | dependents => prepared
  | dependencies => Phase.executed

def waits : Role → Phase
  | dependents => awaitingDependents
  | dependencies => awaitingDependencies

def done : Role → Bool → Phase
  | dependents => dependentsDone
  | dependencies => dependenciesDone

end Role

/-- A tree of tasks. Each task but the root belongs to one other task. -/
structure TaskTree (ν : Type) where
  root : ν
  tasks : Role → ν → List ν
  relying : Role → ν → Bool
  depth : ν → Nat
  deeper : ∀ n role c, c ∈ tasks role n → depth n < depth c
  nodup : ∀ n role, (tasks role n).Nodup
  single : ∀ n role m role' c, c ∈ tasks role n → c ∈ tasks role' m → n = m ∧ role = role'
  top : ∀ n role, root ∉ tasks role n
  owned : ∀ c, c ≠ root → ∃ n role, c ∈ tasks role n

structure Node where
  phase : Phase
  state : TaskState
  executions : Nat
  completions : Nat
  deriving DecidableEq

/-- What `start` waits for and does in the end. -/
inductive Top where
  | started
  | awaiting
  | done (exception : Bool)
  | stopped (success : Bool)
  | uncaught
  deriving DecidableEq

structure State (ν : Type) where
  nodes : ν → Node
  cancelled : Bool
  top : Top

def fresh : Node := ⟨idle,.ready,0,0⟩

variable {ν : Type} [DecidableEq ν]

def initial : State ν := ⟨fun _ => fresh,false,.started⟩

abbrev State.phase (s : State ν) (n : ν) : Phase := (s.nodes n).phase

def State.set (s : State ν) (n : ν) (node : Node) : State ν :=
  { s with nodes := fun m => if m = n then node else s.nodes m }

/-- One task changes while its given subtasks are launched or aborted. -/
def State.fork (s : State ν) (n : ν) (node : Node) (subtasks : List ν) (theirs : Phase) :
    State ν :=
  { s with nodes := fun m =>
      if m = n then node
      else if m ∈ subtasks then { s.nodes m with phase := theirs }
      else s.nodes m }

/-- `CompletableFuture.allOf` completes once all members have, with the outcome of one that
failed if there is any. -/
def Join (s : State ν) (subtasks : List ν) (outcome : Outcome) : Prop :=
  (∀ c ∈ subtasks, (s.phase c).Ended) ∧
    match outcome with
    | .succeeded => ∀ c ∈ subtasks, s.phase c = ended .succeeded
    | _ => ∃ c ∈ subtasks, s.phase c = ended outcome

/-- `exceptionally` sets the state of a task for exceptions only. -/
def failedState (node : Node) : Outcome → TaskState
  | .exception => .failed
  | _ => if node.phase = running then .executed else node.state

/-- The steps of one task that leave all others as they are. -/
inductive Local (tree : TaskTree ν) (s : State ν) (n : ν) : Node → Prop
  | ready (launched_ : (s.nodes n).phase = launched) (running_ : s.cancelled = false) :
      Local tree s n { s.nodes n with phase := prepared, state := .ready }
  | none (role : Role) (called : (s.nodes n).phase = role.calls) (empty : tree.tasks role n = []) :
      Local tree s n { s.nodes n with phase := role.done false }
  | join (role : Role) (outcome : Outcome) (waiting : (s.nodes n).phase = role.waits)
      (joined : Join s (tree.tasks role n) outcome) (caught : outcome ≠ .error) :
      Local tree s n { s.nodes n with phase := role.done (outcome = .exception) }
  | rethrow (role : Role) (waiting : (s.nodes n).phase = role.waits)
      (joined : Join s (tree.tasks role n) .error) :
      Local tree s n { s.nodes n with phase := ended .error }
  | execute (exception : Bool) (joined : (s.nodes n).phase = dependentsDone exception)
      (goesOn : exception = true → tree.relying .dependents n = false) :
      Local tree s n { s.nodes n with
        phase := running, state := .running, executions := (s.nodes n).executions + 1 }
  | executed (running_ : (s.nodes n).phase = running) :
      Local tree s n { s.nodes n with
        phase := Phase.executed, state := .executed, completions := (s.nodes n).completions + 1 }
  | succeed (exception : Bool) (joined : (s.nodes n).phase = dependenciesDone exception)
      (goesOn : exception = true → tree.relying .dependencies n = false)
      (running_ : s.cancelled = false) :
      Local tree s n { s.nodes n with phase := ended .succeeded, state := .succeeded }
  | fail (outcome : Outcome) (own : (s.nodes n).phase.Own) (failed : outcome ≠ .succeeded) :
      Local tree s n { s.nodes n with
        phase := ended outcome, state := failedState (s.nodes n) outcome }

/-- `executeTasksExceptionally` looks at the cancellation once, before it launches any task. -/
inductive Step (tree : TaskTree ν) : State ν → State ν → Prop
  | cancel (s : State ν) : Step tree s { s with cancelled := true }
  | own (s : State ν) (n : ν) (node : Node) (step : Local tree s n node) :
      Step tree s (s.set n node)
  | launch (s : State ν) (n : ν) (role : Role) (called : s.phase n = role.calls)
      (some_ : tree.tasks role n ≠ []) (running_ : s.cancelled = false) :
      Step tree s
        (s.fork n { s.nodes n with phase := role.waits } (tree.tasks role n) launched)
  | abort (s : State ν) (n : ν) (role : Role) (called : s.phase n = role.calls)
      (some_ : tree.tasks role n ≠ []) (cancelled_ : s.cancelled = true) :
      Step tree s
        (s.fork n { s.nodes n with phase := role.done true } (tree.tasks role n) aborted)
  | launchRoot (s : State ν) (started : s.top = .started) (running_ : s.cancelled = false) :
      Step tree s { s.set tree.root { s.nodes tree.root with phase := launched } with
        top := .awaiting }
  | abortRoot (s : State ν) (started : s.top = .started) (cancelled_ : s.cancelled = true) :
      Step tree s { s.set tree.root { s.nodes tree.root with phase := aborted } with
        top := .done true }
  | joinRoot (s : State ν) (outcome : Outcome) (awaiting : s.top = .awaiting)
      (joined : s.phase tree.root = ended outcome) (caught : outcome ≠ .error) :
      Step tree s { s with top := .done (outcome = .exception) }
  | rethrowRoot (s : State ν) (awaiting : s.top = .awaiting)
      (joined : s.phase tree.root = ended .error) : Step tree s { s with top := .uncaught }
  | stop (s : State ν) (exception : Bool) (done_ : s.top = .done exception) :
      Step tree s { s with top := .stopped (!exception) }

def executor (tree : TaskTree ν) : System (State ν) := ⟨(· = initial),Step tree⟩

end HmclPe.Tasks.Executor
