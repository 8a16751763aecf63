import Mathlib.Data.List.Basic
import Mathlib.Tactic

/-! The exception that a task holds once the executor is through with it, and what the
callback of `whenComplete` is given. Runs are those of an executor that is not cancelled. -/
namespace HmclPe.Tasks

/-- What a future completes with after `resolveException`; errors are no exceptions. -/
inductive Throwable where
  | exception (id : Nat)
  | interrupted (message : Nat)
  | cancellation (message : Nat)
  | error (id : Nat)
  deriving DecidableEq

namespace Throwable

def isException : Throwable → Bool
  | error _ => false
  | _ => true

/-- The two exceptions that a task of its own future takes as an abort. -/
def aborts : Throwable → Bool
  | interrupted _ => true
  | cancellation _ => true
  | _ => false

def convertInterruptedException : Throwable → Throwable
  | interrupted message => cancellation message
  | e => e

end Throwable

open Throwable

/-- A task with the outcome of its own code: what it throws, or none. The dependencies are
those that the task has after its own code. -/
inductive Task where
  | completableFuture (outcome : Option Throwable)
  | normal (dependents : List Task) (relyingOnDependents : Bool) (thrown : Option Throwable)
      (dependencies : List Task)

namespace Task

def runAsync (outcome : Option Throwable) : Task := normal [] true outcome []

def fromCompletableFuture (outcome : Option Throwable) : Task := completableFuture outcome

def composeAsync (thrown : Option Throwable) (then_ : Option Task) : Task :=
  normal [] true thrown then_.toList

def uniCompose (pred : Task) (thrown : Option Throwable) (succ : Option Task)
    (relyingOnDependents : Bool) : Task := normal [pred] relyingOnDependents thrown succ.toList

def thenCompose (pred : Task) (thrown : Option Throwable) (succ : Option Task) : Task :=
  uniCompose pred thrown succ true

def withRun (pred : Task) (outcome : Option Throwable) : Task :=
  uniCompose pred none (some (runAsync outcome)) false

def allOf (tasks : List Task) : Task := normal tasks true none []

def runSequentially : List Task → Task
  | [] => runAsync none
  | task :: tasks => tasks.foldl (fun task next => thenCompose task none (some next)) task

end Task

open HmclPe.Tasks.Task

/-- `getException` of a task that has ended, and what its future completed with. -/
structure Ended where
  exception : Option Throwable
  thrown : Option Throwable

/-- The last stage of a normal task that failed. -/
def exceptionally (held : Option Throwable) (e : Throwable) : Ended :=
  if e.isException then ⟨some e.convertInterruptedException,some e⟩ else ⟨held,some e⟩

def executeCompletableFutureTask : Option Throwable → Ended
  | none => ⟨none,none⟩
  | some e =>
    if e.isException then
      if e.aborts then ⟨none,some e⟩ else ⟨some e,some e⟩
    else ⟨none,some e⟩

/-- An exception of the dependents is stored even where the task does not rely on them. -/
def afterDependents (relyingOnDependents : Bool) :
    Option Throwable → Except Ended (Option Throwable)
  | none => .ok none
  | some e =>
    if e.isException then
      if relyingOnDependents then .error (exceptionally (some e) e) else .ok (some e)
    else .error (exceptionally none e)

def afterDependencies (held : Option Throwable) : Option Throwable → Ended
  | none => ⟨held,none⟩
  | some e => exceptionally (if e.isException then some e else held) e

/-- `CompletableFuture.allOf` completes with the throwable of one of the failed members. -/
def Joined (ended : List Ended) : Option Throwable → Prop
  | none => ∀ r ∈ ended, r.thrown = none
  | some e => ∃ r ∈ ended, r.thrown = some e

mutual

def Runs : Task → Ended → Prop
  | completableFuture outcome, r => r = executeCompletableFutureTask outcome
  | normal dependents relyingOnDependents thrown dependencies, r =>
    ∃ before joined, RunsAll dependents before ∧ Joined before joined ∧
      match afterDependents relyingOnDependents joined with
      | .error failed => r = failed
      | .ok held =>
        match thrown with
        | some e => r = exceptionally held e
        | none => ∃ after joined', RunsAll dependencies after ∧ Joined after joined' ∧
            r = afterDependencies held joined'

def RunsAll : List Task → List Ended → Prop
  | [], ended => ended = []
  | task :: tasks, ended => ∃ r rest, ended = r :: rest ∧ Runs task r ∧ RunsAll tasks rest

end

/-- What the task that `whenComplete` returns does to the callback. -/
structure Completion where
  guardRaised : Bool
  calls : List (Option Throwable)
  thrown : Option Throwable

/-- `execute` of the task that `whenComplete` returns. Once the guard has passed, a failed
task has an exception to throw again. -/
def executeFinal (action : Option Throwable → Option Throwable) (dependentsSucceeded : Bool)
    (held : Option Throwable) : Completion :=
  if dependentsSucceeded ≠ held.isNone then ⟨true,[],none⟩
  else
    match action held with
    | some e => ⟨false,[held],some e⟩
    | none => ⟨false,[held],if dependentsSucceeded then none else held⟩

/-- The task that `whenComplete` returns has `t` as its dependent and does not rely on it. -/
def whenComplete (action : Option Throwable → Option Throwable) (t : Ended) : Completion :=
  match afterDependents false t.thrown with
  | .error _ => ⟨false,[],t.thrown⟩
  | .ok dependentsException => executeFinal action dependentsException.isNone t.exception

/-- The callback runs at most once, with the exception that made the task fail or with null,
and the guard before it never raises. -/
structure Contract (t : Ended) (completion : Completion) : Prop where
  once : completion.calls.length ≤ 1
  argument : ∀ given ∈ completion.calls, given = t.thrown.map convertInterruptedException
  guard : completion.guardRaised = false

def bodyRaises (thrown : Option Throwable) (dependencies : Bool) : Bool :=
  match thrown with
  | some e => e.isException
  | none => dependencies

mutual

def succeeds : Task → Bool
  | completableFuture outcome => outcome.isNone
  | normal dependents relyingOnDependents thrown dependencies =>
    (succeedsAll dependents || (!relyingOnDependents && raisesAny dependents)) &&
      thrown.isNone && succeedsAll dependencies

def succeedsAll : List Task → Bool
  | [] => true
  | task :: tasks => succeeds task && succeedsAll tasks

def raises : Task → Bool
  | completableFuture outcome => outcome.any isException
  | normal dependents relyingOnDependents thrown dependencies =>
    (relyingOnDependents && raisesAny dependents) ||
      ((succeedsAll dependents || (!relyingOnDependents && raisesAny dependents)) &&
        bodyRaises thrown (raisesAny dependencies))

def raisesAny : List Task → Bool
  | [] => false
  | task :: tasks => raises task || raisesAny tasks

end

/-- No future that was cancelled, and no failure of the dependents that the task gets over. -/
def Consistent : Task → Prop
  | completableFuture outcome => ∀ e ∈ outcome, e.aborts = false
  | normal dependents relyingOnDependents thrown dependencies =>
    ¬(relyingOnDependents = false ∧ raisesAny dependents = true ∧ thrown = none ∧
      succeedsAll dependencies = true)

instance : DecidablePred Consistent
  | completableFuture outcome => inferInstanceAs (Decidable (∀ e ∈ outcome, e.aborts = false))
  | normal _ _ _ _ => inferInstanceAs (Decidable (¬_))

/-- A failure leaves its exception in the task, and a success leaves none. -/
def Holds (r : Ended) : Prop :=
  match r.thrown with
  | none => r.exception = none
  | some e => e.isException = true → r.exception = some e.convertInterruptedException

section Stages

theorem exceptionally_thrown (held : Option Throwable) (e : Throwable) :
    (exceptionally held e).thrown = some e := by
  unfold exceptionally
  split <;> rfl

theorem exceptionally_holds (held : Option Throwable) (e : Throwable) :
    Holds (exceptionally held e) := by
  unfold Holds
  rw [exceptionally_thrown]
  intro isException
  rw [exceptionally,if_pos isException]

theorem executeCompletableFutureTask_thrown (outcome : Option Throwable) :
    (executeCompletableFutureTask outcome).thrown = outcome := by
  cases outcome with
  | none => rfl
  | some e =>
    rw [executeCompletableFutureTask]
    split
    · split <;> rfl
    · rfl

def Reaches (dependents : List Task) (relyingOnDependents : Bool) (held : Option Throwable) : Prop :=
  ∃ before joined, RunsAll dependents before ∧ Joined before joined ∧
    afterDependents relyingOnDependents joined = .ok held

def Stops (dependents : List Task) (relyingOnDependents : Bool) (r : Ended) : Prop :=
  ∃ before joined, RunsAll dependents before ∧ Joined before joined ∧
    afterDependents relyingOnDependents joined = .error r

/-- The stages from `execute` on. -/
def Body (thrown : Option Throwable) (dependencies : List Task) (held : Option Throwable)
    (r : Ended) : Prop :=
  match thrown with
  | some e => r = exceptionally held e
  | none => ∃ after joined, RunsAll dependencies after ∧ Joined after joined ∧
      r = afterDependencies held joined

theorem runs_normal (dependents dependencies : List Task) (relyingOnDependents : Bool)
    (thrown : Option Throwable) (r : Ended) :
    Runs (normal dependents relyingOnDependents thrown dependencies) r ↔
      Stops dependents relyingOnDependents r ∨
        ∃ held, Reaches dependents relyingOnDependents held ∧ Body thrown dependencies held r := by
  unfold Runs
  constructor
  · rintro ⟨before,joined,runs,joins,rest⟩
    cases stage : afterDependents relyingOnDependents joined with
    | error failed =>
      rw [stage] at rest
      obtain rfl : r = failed := rest
      exact Or.inl ⟨before,joined,runs,joins,stage⟩
    | ok held =>
      rw [stage] at rest
      exact Or.inr ⟨held,⟨before,joined,runs,joins,stage⟩,rest⟩
  · rintro (⟨before,joined,runs,joins,stage⟩ | ⟨held,⟨before,joined,runs,joins,stage⟩,body⟩)
    · refine ⟨before,joined,runs,joins,?_⟩
      rw [stage]
    · refine ⟨before,joined,runs,joins,?_⟩
      rw [stage]
      exact body

theorem afterDependents_ok {relyingOnDependents : Bool} {joined held : Option Throwable}
    (reached : afterDependents relyingOnDependents joined = .ok held) : held = joined ∧
      ∀ e ∈ joined, relyingOnDependents = false ∧ e.isException = true := by
  cases joined with
  | none =>
    obtain rfl := Except.ok.inj reached
    exact ⟨rfl,by simp⟩
  | some e =>
    rw [afterDependents] at reached
    split at reached
    · rename_i isException
      cases relyingOnDependents with
      | true => simp at reached
      | false =>
        obtain rfl := Except.ok.inj reached
        exact ⟨rfl,fun _ same => ⟨rfl,Option.some.inj same ▸ isException⟩⟩
    · simp at reached

theorem afterDependents_error {relyingOnDependents : Bool} {joined : Option Throwable} {r : Ended}
    (stopped : afterDependents relyingOnDependents joined = .error r) :
    ∃ e, joined = some e ∧ r.thrown = some e ∧ Holds r ∧
      (e.isException = true → relyingOnDependents = true) := by
  cases joined with
  | none => simp [afterDependents] at stopped
  | some e =>
    rw [afterDependents] at stopped
    split at stopped
    · cases relyingOnDependents with
      | true =>
        obtain rfl := Except.error.inj stopped
        exact ⟨e,rfl,exceptionally_thrown _ _,exceptionally_holds _ _,fun _ => rfl⟩
      | false => simp at stopped
    · rename_i error_
      obtain rfl := Except.error.inj stopped
      exact ⟨e,rfl,exceptionally_thrown _ _,exceptionally_holds _ _,fun kind => absurd kind error_⟩

theorem afterDependencies_thrown (held joined : Option Throwable) :
    (afterDependencies held joined).thrown = joined := by
  cases joined with
  | none => rfl
  | some e => exact exceptionally_thrown _ _

theorem body_cases {thrown : Option Throwable} {dependencies : List Task} {held : Option Throwable}
    {r : Ended} (body : Body thrown dependencies held r) :
    (r = ⟨held,none⟩ ∧ thrown = none ∧ ∃ after, RunsAll dependencies after ∧ Joined after none) ∨
      ∃ e, r.thrown = some e ∧ Holds r ∧ (thrown = some e ∨ (thrown = none ∧
        ∃ after, RunsAll dependencies after ∧ Joined after (some e))) := by
  cases thrown with
  | some e =>
    obtain rfl : r = exceptionally held e := body
    exact Or.inr ⟨e,exceptionally_thrown _ _,exceptionally_holds _ _,Or.inl rfl⟩
  | none =>
    obtain ⟨after,joined,runs,joins,rfl⟩ := body
    cases joined with
    | none => exact Or.inl ⟨rfl,rfl,after,runs,joins⟩
    | some e =>
      exact Or.inr ⟨e,exceptionally_thrown _ _,exceptionally_holds _ _,
        Or.inr ⟨rfl,after,runs,joins⟩⟩

end Stages

section Semantics

structure JoinSpec (tasks : List Task) : Prop where
  success : (∃ ended, RunsAll tasks ended ∧ Joined ended none) ↔ succeedsAll tasks = true
  failure : (∃ ended e, RunsAll tasks ended ∧ Joined ended (some e) ∧ e.isException = true) ↔
    raisesAny tasks = true
  total : ∃ ended, RunsAll tasks ended

structure RunSpec (task : Task) : Prop where
  success : (∃ r, Runs task r ∧ r.thrown = none) ↔ succeeds task = true
  failure : (∃ r e, Runs task r ∧ r.thrown = some e ∧ e.isException = true) ↔ raises task = true
  total : ∃ r, Runs task r

theorem exists_joined (ended : List Ended) : ∃ joined, Joined ended joined := by
  by_cases all : ∀ r ∈ ended, r.thrown = none
  · exact ⟨none,all⟩
  · push Not at all
    obtain ⟨r,member,failed⟩ := all
    obtain ⟨e,same⟩ := Option.ne_none_iff_exists'.mp failed
    exact ⟨some e,r,member,same⟩

theorem runSpec_future (outcome : Option Throwable) : RunSpec (completableFuture outcome) := by
  have thrown := executeCompletableFutureTask_thrown outcome
  refine ⟨?_,?_,⟨_,rfl⟩⟩
  · simp only [Runs,exists_eq_left,thrown,succeeds,Option.isNone_iff_eq_none]
  · simp only [Runs,raises]
    constructor
    · rintro ⟨_,e,rfl,same,isException⟩
      rw [thrown] at same
      simp [same,isException]
    · intro some_
      cases outcome with
      | none => simp at some_
      | some e => exact ⟨_,e,rfl,thrown,by simpa using some_⟩

theorem joinSpec_nil : JoinSpec [] := by
  refine ⟨?_,?_,⟨[],rfl⟩⟩
  · simp [RunsAll,Joined,succeedsAll]
  · simp [RunsAll,Joined,raisesAny]

theorem joinSpec_cons {task : Task} {tasks : List Task} (first : RunSpec task)
    (rest : JoinSpec tasks) : JoinSpec (task :: tasks) := by
  refine ⟨?_,?_,?_⟩
  · rw [succeedsAll,Bool.and_eq_true,← first.success,← rest.success]
    constructor
    · rintro ⟨_,⟨r,ended,rfl,run,runs⟩,joins⟩
      exact ⟨⟨r,run,joins r (by simp)⟩,ended,runs,fun s member => joins s (by simp [member])⟩
    · rintro ⟨⟨r,run,fine⟩,ended,runs,joins⟩
      exact ⟨r :: ended,⟨r,ended,rfl,run,runs⟩,List.forall_mem_cons.mpr ⟨fine,joins⟩⟩
  · rw [raisesAny,Bool.or_eq_true,← first.failure,← rest.failure]
    constructor
    · rintro ⟨_,e,⟨r,ended,rfl,run,runs⟩,⟨s,member,failed⟩,isException⟩
      rcases List.mem_cons.mp member with rfl | inside
      · exact Or.inl ⟨s,e,run,failed,isException⟩
      · exact Or.inr ⟨ended,e,runs,⟨s,inside,failed⟩,isException⟩
    · rintro (⟨r,e,run,failed,isException⟩ | ⟨ended,e,runs,⟨s,inside,failed⟩,isException⟩)
      · obtain ⟨ended,runs⟩ := rest.total
        exact ⟨r :: ended,e,⟨r,ended,rfl,run,runs⟩,⟨r,by simp,failed⟩,isException⟩
      · obtain ⟨r,run⟩ := first.total
        exact ⟨r :: ended,e,⟨r,ended,rfl,run,runs⟩,⟨s,by simp [inside],failed⟩,isException⟩
  · obtain ⟨r,run⟩ := first.total
    obtain ⟨ended,runs⟩ := rest.total
    exact ⟨r :: ended,r,ended,rfl,run,runs⟩

theorem reaches_iff {dependents : List Task} (before : JoinSpec dependents)
    (relyingOnDependents : Bool) : (∃ held, Reaches dependents relyingOnDependents held) ↔
      (succeedsAll dependents || (!relyingOnDependents && raisesAny dependents)) = true := by
  rw [Bool.or_eq_true,Bool.and_eq_true,Bool.not_eq_true',← before.success,← before.failure]
  constructor
  · rintro ⟨held,ended,joined,runs,joins,reached⟩
    have kinds := (afterDependents_ok reached).2
    cases joined with
    | none => exact Or.inl ⟨ended,runs,joins⟩
    | some e => exact Or.inr ⟨(kinds e rfl).1,ended,e,runs,joins,(kinds e rfl).2⟩
  · rintro (⟨ended,runs,joins⟩ | ⟨rfl,ended,e,runs,joins,isException⟩)
    · exact ⟨none,ended,none,runs,joins,rfl⟩
    · exact ⟨some e,ended,some e,runs,joins,by simp [afterDependents,isException]⟩

theorem stops_iff {dependents : List Task} (before : JoinSpec dependents)
    (relyingOnDependents : Bool) :
    (∃ r e, Stops dependents relyingOnDependents r ∧ r.thrown = some e ∧ e.isException = true) ↔
      (relyingOnDependents && raisesAny dependents) = true := by
  rw [Bool.and_eq_true,← before.failure]
  constructor
  · rintro ⟨r,e,⟨ended,joined,runs,joins,stopped⟩,failed,isException⟩
    obtain ⟨e',rfl,failed',_,relying⟩ := afterDependents_error stopped
    obtain rfl : e = e' := Option.some.inj (failed.symm.trans failed')
    exact ⟨relying isException,ended,e,runs,joins,isException⟩
  · rintro ⟨rfl,ended,e,runs,joins,isException⟩
    refine ⟨exceptionally (some e) e,e,⟨ended,some e,runs,joins,?_⟩,exceptionally_thrown _ _,isException⟩
    simp [afterDependents,isException]

theorem body_success {dependencies : List Task} (after : JoinSpec dependencies)
    (thrown held : Option Throwable) :
    (∃ r, Body thrown dependencies held r ∧ r.thrown = none) ↔
      (thrown.isNone && succeedsAll dependencies) = true := by
  rw [Bool.and_eq_true,Option.isNone_iff_eq_none,← after.success]
  constructor
  · rintro ⟨r,body,fine⟩
    rcases body_cases body with ⟨_,none_,ended,runs,joins⟩ | ⟨e,failed,_⟩
    · exact ⟨none_,ended,runs,joins⟩
    · rw [fine] at failed
      exact absurd failed (by simp)
  · rintro ⟨rfl,ended,runs,joins⟩
    exact ⟨⟨held,none⟩,⟨ended,none,runs,joins,rfl⟩,rfl⟩

theorem body_failure {dependencies : List Task} (after : JoinSpec dependencies)
    (thrown held : Option Throwable) :
    (∃ r e, Body thrown dependencies held r ∧ r.thrown = some e ∧ e.isException = true) ↔
      bodyRaises thrown (raisesAny dependencies) = true := by
  cases thrown with
  | some e =>
    constructor
    · rintro ⟨r,e',rfl,failed,isException⟩
      rw [exceptionally_thrown] at failed
      obtain rfl := Option.some.inj failed
      exact isException
    · intro isException
      exact ⟨_,e,rfl,exceptionally_thrown _ _,isException⟩
  | none =>
    rw [bodyRaises,← after.failure]
    constructor
    · rintro ⟨_,e,⟨ended,joined,runs,joins,rfl⟩,failed,isException⟩
      rw [afterDependencies_thrown] at failed
      subst failed
      exact ⟨ended,e,runs,joins,isException⟩
    · rintro ⟨ended,e,runs,joins,isException⟩
      exact ⟨_,e,⟨ended,some e,runs,joins,rfl⟩,afterDependencies_thrown held (some e),isException⟩

theorem body_total {dependencies : List Task} (after : JoinSpec dependencies)
    (thrown held : Option Throwable) : ∃ r, Body thrown dependencies held r := by
  cases thrown with
  | some e => exact ⟨_,rfl⟩
  | none =>
    obtain ⟨ended,runs⟩ := after.total
    obtain ⟨joined,joins⟩ := exists_joined ended
    exact ⟨_,ended,joined,runs,joins,rfl⟩

theorem runSpec_normal {dependents dependencies : List Task} (relyingOnDependents : Bool)
    (thrown : Option Throwable) (before : JoinSpec dependents) (after : JoinSpec dependencies) :
    RunSpec (normal dependents relyingOnDependents thrown dependencies) := by
  refine ⟨?_,?_,?_⟩
  · rw [succeeds,Bool.and_assoc,Bool.and_eq_true,← reaches_iff before]
    constructor
    · rintro ⟨r,run,fine⟩
      rcases (runs_normal _ _ _ _ r).mp run with ⟨_,_,_,_,stopped⟩ | ⟨held,reached,body⟩
      · obtain ⟨e,_,failed,_⟩ := afterDependents_error stopped
        rw [fine] at failed
        exact absurd failed (by simp)
      · exact ⟨⟨held,reached⟩,(body_success after thrown held).mp ⟨r,body,fine⟩⟩
    · rintro ⟨⟨held,reached⟩,rest⟩
      obtain ⟨r,body,fine⟩ := (body_success after thrown held).mpr rest
      exact ⟨r,(runs_normal _ _ _ _ r).mpr (Or.inr ⟨held,reached,body⟩),fine⟩
  · rw [raises,Bool.or_eq_true,Bool.and_eq_true (_ || _),← stops_iff before,← reaches_iff before]
    constructor
    · rintro ⟨r,e,run,failed,isException⟩
      rcases (runs_normal _ _ _ _ r).mp run with stopped | ⟨held,reached,body⟩
      · exact Or.inl ⟨r,e,stopped,failed,isException⟩
      · exact Or.inr ⟨⟨held,reached⟩,
          (body_failure after thrown held).mp ⟨r,e,body,failed,isException⟩⟩
    · rintro (⟨r,e,stopped,failed,isException⟩ | ⟨⟨held,reached⟩,rest⟩)
      · exact ⟨r,e,(runs_normal _ _ _ _ r).mpr (Or.inl stopped),failed,isException⟩
      · obtain ⟨r,e,body,failed,isException⟩ := (body_failure after thrown held).mpr rest
        exact ⟨r,e,(runs_normal _ _ _ _ r).mpr (Or.inr ⟨held,reached,body⟩),failed,isException⟩
  · obtain ⟨ended,runs⟩ := before.total
    obtain ⟨joined,joins⟩ := exists_joined ended
    cases stage : afterDependents relyingOnDependents joined with
    | error r => exact ⟨r,(runs_normal _ _ _ _ r).mpr (Or.inl ⟨ended,joined,runs,joins,stage⟩)⟩
    | ok held =>
      obtain ⟨r,body⟩ := body_total after thrown held
      exact ⟨r,(runs_normal _ _ _ _ r).mpr
        (Or.inr ⟨held,⟨ended,joined,runs,joins,stage⟩,body⟩)⟩

mutual

theorem runSpec : (task : Task) → RunSpec task
  | completableFuture outcome => runSpec_future outcome
  | normal dependents relyingOnDependents thrown dependencies =>
    runSpec_normal relyingOnDependents thrown (joinSpec dependents) (joinSpec dependencies)

theorem joinSpec : (tasks : List Task) → JoinSpec tasks
  | [] => joinSpec_nil
  | task :: tasks => joinSpec_cons (runSpec task) (joinSpec tasks)

end

end Semantics

section Callback

theorem executeFinal_called (action : Option Throwable → Option Throwable)
    {dependentsSucceeded : Bool} {held : Option Throwable} (same : dependentsSucceeded = held.isNone) :
    (executeFinal action dependentsSucceeded held).calls = [held] ∧
      (executeFinal action dependentsSucceeded held).guardRaised = false := by
  rw [executeFinal,if_neg (by simp [same])]
  cases action held <;> exact ⟨rfl,rfl⟩

/-- The guard passes and the callback gets its argument where the stored exception is that. -/
theorem executeFinal_contract (action : Option Throwable → Option Throwable) (r : Ended)
    {dependentsSucceeded : Bool} (state : dependentsSucceeded = r.thrown.isNone) :
    Contract r (executeFinal action dependentsSucceeded r.exception) ↔
      r.exception = r.thrown.map convertInterruptedException := by
  constructor
  · intro contract
    have guard := contract.guard
    by_cases same : dependentsSucceeded = r.exception.isNone
    · have given := (executeFinal_called action same).1
      exact contract.argument r.exception (by rw [given]; exact List.mem_singleton_self _)
    · rw [executeFinal,if_pos same] at guard
      exact absurd guard (by simp)
  · intro stored
    have same : dependentsSucceeded = r.exception.isNone := by
      rw [state,stored,Option.isNone_map]
    obtain ⟨calls,guard⟩ := executeFinal_called action same
    refine ⟨by rw [calls]; exact Nat.le_refl 1,?_,guard⟩
    intro given member
    rw [calls] at member
    rw [List.mem_singleton.mp member,stored]

/-- The contract is kept by the runs that leave the exception as it should be. -/
theorem contract_iff (action : Option Throwable → Option Throwable) (r : Ended) :
    Contract r (whenComplete action r) ↔ Holds r := by
  unfold Holds whenComplete
  cases failed : r.thrown with
  | none =>
    have final := @executeFinal_contract action r true (by rw [failed]; rfl)
    rw [failed] at final
    exact final
  | some e =>
    by_cases isException : e.isException = true
    · have stage : afterDependents false (some e) = .ok (some e) := by
        simp [afterDependents,isException]
      have final := @executeFinal_contract action r false (by rw [failed]; rfl)
      rw [failed] at final
      rw [stage]
      exact final.trans (by simp [isException])
    · have stage : afterDependents false (some e) = .error (exceptionally none e) := by
        simp [afterDependents,isException]
      rw [stage]
      exact iff_of_true ⟨by simp,by simp,rfl⟩ fun kind => absurd kind isException

theorem holds_future_iff (outcome : Option Throwable) :
    Holds (executeCompletableFutureTask outcome) ↔ ∀ e ∈ outcome, e.aborts = false := by
  cases outcome with
  | none => simp [Holds,executeCompletableFutureTask]
  | some e =>
    cases e <;> simp [Holds,executeCompletableFutureTask,isException,aborts,convertInterruptedException]

theorem holds_normal_iff (dependents dependencies : List Task) (relyingOnDependents : Bool)
    (thrown : Option Throwable) :
    (∀ r, Runs (normal dependents relyingOnDependents thrown dependencies) r → Holds r) ↔
      Consistent (normal dependents relyingOnDependents thrown dependencies) := by
  have before := joinSpec dependents
  have after := joinSpec dependencies
  unfold Consistent
  constructor
  · rintro holds ⟨rfl,some_,rfl,fine⟩
    obtain ⟨ended,e,runs,joins,isException⟩ := before.failure.mpr some_
    obtain ⟨ended',runs',joins'⟩ := after.success.mpr fine
    have reached : Reaches dependents false (some e) :=
      ⟨ended,some e,runs,joins,by simp [afterDependents,isException]⟩
    have stale := holds ⟨some e,none⟩ ((runs_normal _ _ _ _ _).mpr
      (Or.inr ⟨some e,reached,ended',none,runs',joins',rfl⟩))
    simp [Holds] at stale
  · intro consistent r run
    rcases (runs_normal _ _ _ _ r).mp run with ⟨_,_,_,_,stopped⟩ | ⟨held,reached,body⟩
    · obtain ⟨_,_,_,holds,_⟩ := afterDependents_error stopped
      exact holds
    · rcases body_cases body with ⟨rfl,rfl,ended',runs',joins'⟩ | ⟨_,_,holds,_⟩
      · obtain ⟨ended,joined,runs,joins,stage⟩ := reached
        obtain ⟨rfl,kinds⟩ := afterDependents_ok stage
        cases held with
        | none => rfl
        | some e =>
          obtain ⟨rfl,isException⟩ := kinds e rfl
          exact absurd ⟨rfl,before.failure.mp ⟨ended,e,runs,joins,isException⟩,rfl,
            after.success.mp ⟨ended',runs',joins'⟩⟩ consistent
      · exact holds

/-- The callback gets what it should in every run of a task exactly if the task is consistent. -/
theorem whenComplete_contract_iff (action : Option Throwable → Option Throwable) (t : Task) :
    (∀ r, Runs t r → Contract r (whenComplete action r)) ↔ Consistent t := by
  simp only [contract_iff]
  cases t with
  | completableFuture outcome =>
    have future := holds_future_iff outcome
    constructor
    · exact fun holds => future.mp (holds _ rfl)
    · rintro consistent _ rfl
      exact future.mpr consistent
  | normal dependents relyingOnDependents thrown dependencies =>
    exact holds_normal_iff dependents dependencies relyingOnDependents thrown

/-- A failure that `withRun` gets over stays in the task, and a cancelled future has none. -/
theorem guard_raised :
    (Runs (withRun (runAsync (some (exception 0))) none) ⟨some (exception 0),none⟩ ∧
      (whenComplete (fun _ => none) ⟨some (exception 0),none⟩).guardRaised = true) ∧
    (Runs (fromCompletableFuture (some (cancellation 0))) ⟨none,some (cancellation 0)⟩ ∧
      (whenComplete (fun _ => none) ⟨none,some (cancellation 0)⟩).guardRaised = true) := by
  refine ⟨⟨?_,rfl⟩,rfl,rfl⟩
  have failed : Runs (runAsync (some (exception 0))) ⟨some (exception 0),some (exception 0)⟩ :=
    ⟨[],none,rfl,by simp [Joined],rfl⟩
  have ran : Runs (runAsync none) ⟨none,none⟩ :=
    ⟨[],none,rfl,by simp [Joined],[],none,rfl,by simp [Joined],rfl⟩
  refine ⟨[_],some (exception 0),⟨_,[],rfl,failed,rfl⟩,by simp [Joined],?_⟩
  exact ⟨[_],none,⟨_,[],rfl,ran,rfl⟩,by simp [Joined],rfl⟩

theorem relying_consistent (dependents dependencies : List Task) (thrown : Option Throwable) :
    Consistent (normal dependents true thrown dependencies) := by simp [Consistent]

/-- Tasks that run one after another, each relying on the one before. -/
theorem runSequentially_consistent {tasks : List Task} (first : ∀ t ∈ tasks.head?, Consistent t) :
    Consistent (runSequentially tasks) := by
  cases tasks with
  | nil => exact relying_consistent _ _ _
  | cons t tasks =>
    have chain (t : Task) (consistent : Consistent t) :
        Consistent (tasks.foldl (fun task next => thenCompose task none (some next)) t) := by
      clear first
      induction tasks generalizing t with
      | nil => exact consistent
      | cons next tasks ih => exact ih _ (relying_consistent _ _ _)
    exact chain t (first t rfl)

theorem withRun_consistent_iff (pred : Task) (outcome : Option Throwable) :
    Consistent (withRun pred outcome) ↔ ¬(raises pred = true ∧ outcome = none) := by
  cases outcome <;> simp [withRun,uniCompose,Consistent,runAsync,raisesAny,succeedsAll,succeeds]

end Callback

end HmclPe.Tasks
