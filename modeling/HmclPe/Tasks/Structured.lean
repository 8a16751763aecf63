import HmclPe.Tasks.Progress

/-! Structured concurrency: no task runs outside the time of the tasks that it belongs to. -/
namespace HmclPe.Tasks.Executor
open HmclPe.Lib.Runs
open Phase

variable {ν : Type}

/-- What holds in a state of a run, where `Settled` is what each dependent has to be before
the code of its task is run. -/
structure Structured (tree : TaskTree ν) (Settled : Phase → Prop) (s : State ν) : Prop where
  once : ∀ n, (s.nodes n).executions ≤ 1
  dependents : ∀ n c, c ∈ tree.tasks .dependents n → 0 < (s.nodes n).executions →
    Settled (s.phase c)
  relied : ∀ n c, c ∈ tree.tasks .dependents n → 0 < (s.nodes n).executions →
    tree.relying .dependents n = true → (s.nodes c).state = .succeeded
  dependencies : ∀ n c, c ∈ tree.tasks .dependencies n → (s.phase c).Started →
    0 < (s.nodes n).completions
  succeeded : ∀ n, (s.nodes n).state = .succeeded → 0 < (s.nodes n).completions ∧
    ∀ role c, c ∈ tree.tasks role n → tree.relying role n = true →
      (s.nodes c).state = .succeeded
  stopped : ∀ success, s.top = .stopped success →
    (∀ n, (s.phase n).Started → (s.phase n).Ended) ∧
      (success = true ↔ (s.nodes tree.root).state = .succeeded)

theorem executions_le_one {node : Node} (counted : Counted node) : node.executions ≤ 1 := by
  rw [Counted] at counted
  split at counted <;> omega

theorem satisfied_of_succeeded {relying : Bool} {node : Node} {subtask : Phase} {role : Role}
    (fits : Fits relying node subtask role) (succeeded : node.phase = ended .succeeded) :
    Satisfied relying subtask := by
  rw [Fits,succeeded] at fits
  cases role <;> exact fits

theorem over_root {tree : TaskTree ν} {s : State ν} {success : Bool}
    (progressed : Progressed tree s) (stopped : s.top = .stopped success) :
    (s.phase tree.root).Over ∧ (success = true ↔ s.phase tree.root = ended .succeeded) := by
  have fits := progressed.top
  rwa [stopped] at fits

variable [DecidableEq ν]

/-- A dependent that was not started was given its CancellationException by an executor that
had been cancelled. -/
theorem structured {tree : TaskTree ν} {s : State ν} (reached : (executor tree).Reachable s) :
    Structured tree (fun phase => phase.Ended ∨ phase = aborted ∧ s.cancelled = true) s := by
  have progressed := (progressed_invariant tree).reachable reached
  have counted := fun n => (progressed.sound n).counted
  have state_iff := fun n => (progressed.sound n).succeeded
  refine ⟨fun n => executions_le_one (counted n),?_,?_,?_,?_,?_⟩
  · intro n c inside executed
    have done := (satisfied_of_executed (counted n) (progressed.fits n _ c inside) executed).1
    cases done with
    | inl aborted => exact Or.inr ⟨aborted,progressed.cancels c aborted⟩
    | inr ended => exact Or.inl ended
  · intro n c inside executed relies
    have satisfied := satisfied_of_executed (counted n) (progressed.fits n _ c inside) executed
    exact (state_iff c).mpr (satisfied.2 relies)
  · intro n c inside started
    refine completed_of_begun (counted n) (progressed.fits n _ c inside) ?_
    intro idle
    rw [idle] at started
    exact started
  · intro n succeeded
    have done := (state_iff n).mp succeeded
    refine ⟨?_,?_⟩
    · have both := counted n
      rw [Counted,done] at both
      exact both.2 ▸ Nat.one_pos
    · intro role c inside relies
      have satisfied := satisfied_of_succeeded (progressed.fits n role c inside) done
      exact (state_iff c).mpr (satisfied.2 relies)
  · intro success stopped
    obtain ⟨done,success_iff⟩ := over_root progressed stopped
    refine ⟨?_,success_iff.trans (state_iff tree.root).symm⟩
    intro n started
    by_contra running
    exact not_active_of_over done (root_active progressed n ⟨started,running⟩)

/-- A task that does without its one dependent. -/
def orphan : TaskTree Bool where
  root := true
  tasks role n := match role,n with
    | .dependents,true => [false]
    | _,_ => []
  relying _ _ := false
  depth n := if n then 0 else 1
  deeper := by
    intro n role c inside
    cases n <;> cases role <;> cases c <;> simp_all
  nodup := by
    intro n role
    cases n <;> cases role <;> simp
  single := by
    intro n role m role' c left right
    cases n <;> cases role <;> cases m <;> cases role' <;> simp_all
  top := by
    intro n role
    cases n <;> cases role <;> simp
  owned := by
    intro c other
    refine ⟨true,.dependents,?_⟩
    cases c <;> simp_all

/-- The executor is cancelled before the dependent is started. -/
theorem orphan_cancelled : ∃ s, (executor orphan).Reachable s ∧
    0 < (s.nodes true).executions ∧ s.phase false = aborted := by
  have start : (executor orphan).Reachable initial := .start _ rfl
  have root := System.Reachable.step _ _ start (.launchRoot _ rfl rfl)
  have ready := System.Reachable.step _ _ root (.own _ true _ (.ready rfl rfl))
  have cancel := System.Reachable.step _ _ ready (.cancel _)
  have abort := System.Reachable.step _ _ cancel
    (.abort _ true .dependents rfl (by simp [orphan]) rfl)
  exact ⟨_,.step _ _ abort (.own _ true _ (.execute true rfl (fun _ => rfl))),Nat.one_pos,rfl⟩

theorem structured_orphan : ∃ s, 0 < (s.nodes true).executions ∧
    Structured orphan (fun phase => phase.Ended ∨ phase = aborted ∧ s.cancelled = true) s := by
  obtain ⟨s,reached,executed,_⟩ := orphan_cancelled
  exact ⟨s,executed,structured reached⟩

/-- The code of the task is run while its dependent has not ended and never will. -/
theorem orphan_not_structured :
    ¬∀ s, (executor orphan).Reachable s → Structured orphan Phase.Ended s := by
  intro holds
  obtain ⟨s,reached,executed,aborted_⟩ := orphan_cancelled
  have ended := (holds s reached).dependents true false (List.mem_singleton_self _) executed
  rw [aborted_] at ended
  exact ended

end HmclPe.Tasks.Executor
