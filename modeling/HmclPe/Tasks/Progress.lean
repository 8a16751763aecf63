import HmclPe.Tasks.Executor

/-! What a task and its subtasks may have done at each stage of the task, in all runs of the
executor. -/
namespace HmclPe.Tasks.Executor
open HmclPe.Lib.Runs
open Phase

/-- How far a task is with its subtasks of one role. -/
inductive Progress where
  | before
  | waiting
  | joined (exception : Bool)
  | past
  | broken

def Role.progress (role : Role) : Phase → Progress
  | idle | aborted | launched | prepared => .before
  | awaitingDependents => match role with | dependents => .waiting | dependencies => .before
  | dependentsDone exception =>
    match role with | dependents => .joined exception | dependencies => .before
  | running | executed => match role with | dependents => .past | dependencies => .before
  | awaitingDependencies => match role with | dependents => .past | dependencies => .waiting
  | dependenciesDone exception =>
    match role with | dependents => .past | dependencies => .joined exception
  | ended .succeeded => .past
  | ended _ => .broken

/-- A subtask with nothing left to do, and with success where the task relies on it. -/
def Satisfied (relying : Bool) (subtask : Phase) : Prop :=
  subtask.Over ∧ (relying = true → subtask = ended .succeeded)

/-- What the call of the subtasks of a task that failed leaves behind. -/
def Left (relying : Bool) (node : Node) (subtask : Phase) : Role → Prop
  | .dependents => 0 < node.executions → Satisfied relying subtask
  | .dependencies => subtask ≠ idle → 0 < node.completions

def Fits (relying : Bool) (node : Node) (subtask : Phase) (role : Role) : Prop :=
  match role.progress node.phase with
  | .before => subtask = idle
  | .waiting => subtask.Started
  | .joined exception => subtask.Over ∧ (exception = false → subtask = ended .succeeded)
  | .past => Satisfied relying subtask
  | .broken => (subtask = idle ∨ subtask.Over) ∧ Left relying node subtask role

/-- The runs of a task's own code at each stage. -/
def Counted (node : Node) : Prop :=
  match node.phase with
  | running => node.executions = 1 ∧ node.completions = 0
  | executed | awaitingDependencies | dependenciesDone _ | ended .succeeded =>
    node.executions = 1 ∧ node.completions = 1
  | ended _ => node.completions ≤ node.executions ∧ node.executions ≤ 1
  | _ => node.executions = 0 ∧ node.completions = 0

structure Sound (node : Node) : Prop where
  counted : Counted node
  succeeded : node.state = .succeeded ↔ node.phase = ended .succeeded

def TopFits (root : Phase) : Top → Prop
  | .started => root = idle
  | .awaiting => root.Started
  | .done exception => root.Over ∧ (exception = false ↔ root = ended .succeeded)
  | .stopped success => root.Over ∧ (success = true ↔ root = ended .succeeded)
  | .uncaught => True

variable {ν : Type}

structure Progressed (tree : TaskTree ν) (s : State ν) : Prop where
  sound : ∀ n, Sound (s.nodes n)
  fits : ∀ n role c, c ∈ tree.tasks role n →
    Fits (tree.relying role n) (s.nodes n) (s.phase c) role
  cancels : ∀ n, s.phase n = aborted → s.cancelled = true
  top : TopFits (s.phase tree.root) s.top

theorem not_active_of_over {phase : Phase} (done : phase.Over) : ¬phase.Active := by
  intro active
  cases done with
  | inl aborted => exact (aborted ▸ active).1
  | inr ended => exact active.2 ended

theorem over_of_ended {phase : Phase} (ended : phase.Ended) : phase.Over := Or.inr ended

theorem waits_of_active {relying : Bool} {node : Node} {subtask : Phase} {role : Role}
    (fits : Fits relying node subtask role) (active : subtask.Active) :
    role.progress node.phase = .waiting := by
  rw [Fits] at fits
  cases progress : role.progress node.phase with
  | waiting => rfl
  | before =>
    rw [progress] at fits
    exact absurd (fits ▸ active).1 (by simp [Started])
  | joined exception =>
    rw [progress] at fits
    exact absurd active (not_active_of_over fits.1)
  | past =>
    rw [progress] at fits
    exact absurd active (not_active_of_over fits.1)
  | broken =>
    rw [progress] at fits
    cases fits.1 with
    | inl idle => exact absurd (idle ▸ active).1 (by simp [Started])
    | inr done => exact absurd active (not_active_of_over done)

theorem waiting_iff {phase : Phase} {role : Role} :
    role.progress phase = .waiting ↔ phase = role.waits := by
  cases phase with
  | ended outcome => cases outcome <;> cases role <;> simp [Role.progress,Role.waits]
  | _ => cases role <;> simp [Role.progress,Role.waits]

theorem active_waits (role : Role) : role.waits.Active := by
  cases role <;> exact ⟨trivial,fun ended => ended⟩

theorem active_of_own {phase : Phase} (own : phase.Own) : phase.Active := by
  cases phase <;> first | exact ⟨trivial,fun ended => ended⟩ | exact absurd own (fun h => h)

theorem active_calls (role : Role) : role.calls.Active := by
  cases role <;> exact ⟨trivial,fun ended => ended⟩

theorem fits_started {relying : Bool} {node : Node} {subtask : Phase} {role : Role}
    (waiting : role.progress node.phase = .waiting) (started : subtask.Started) :
    Fits relying node subtask role := by
  rw [Fits,waiting]
  exact started

theorem fits_idle {relying : Bool} {node : Node} {role : Role}
    (before : role.progress node.phase = .before) : Fits relying node idle role := by
  rw [Fits,before]

theorem idle_of_fits {relying : Bool} {node : Node} {subtask : Phase} {role : Role}
    (before : role.progress node.phase = .before) (fits : Fits relying node subtask role) :
    subtask = idle := by
  rw [Fits,before] at fits
  exact fits

theorem fits_congr {relying : Bool} {node node' : Node} {subtask : Phase} {role : Role}
    (fits : Fits relying node subtask role)
    (same : role.progress node'.phase = role.progress node.phase)
    (executions : node'.executions = node.executions)
    (completions : node'.completions = node.completions) : Fits relying node' subtask role := by
  rw [Fits] at fits ⊢
  rw [same]
  cases role <;> simpa only [Left,executions,completions] using fits

theorem satisfied_of_executed {relying : Bool} {node : Node} {subtask : Phase}
    (counted : Counted node) (fits : Fits relying node subtask .dependents)
    (executed : 0 < node.executions) : Satisfied relying subtask := by
  obtain ⟨phase,state,executions,completions⟩ := node
  rw [Fits] at fits
  cases phase with
  | running | executed | awaitingDependencies | dependenciesDone => exact fits
  | ended outcome =>
    cases outcome with
    | succeeded => exact fits
    | exception | error => exact fits.2 executed
  | _ => exact absurd counted.1 (Nat.ne_of_gt executed)

theorem completed_of_begun {relying : Bool} {node : Node} {subtask : Phase}
    (counted : Counted node) (fits : Fits relying node subtask .dependencies)
    (begun : subtask ≠ idle) : 0 < node.completions := by
  obtain ⟨phase,state,executions,completions⟩ := node
  rw [Fits] at fits
  cases phase with
  | awaitingDependencies | dependenciesDone => exact counted.2 ▸ Nat.one_pos
  | ended outcome =>
    cases outcome with
    | succeeded => exact counted.2 ▸ Nat.one_pos
    | exception | error => exact fits.2 begun
  | _ => exact absurd fits begun

theorem left_of_fits {relying : Bool} {node : Node} {subtask : Phase} {role : Role}
    (counted : Counted node) (fits : Fits relying node subtask role) :
    Left relying node subtask role := by
  cases role with
  | dependents => exact satisfied_of_executed counted fits
  | dependencies => exact completed_of_begun counted fits

theorem idle_or_over {relying : Bool} {node : Node} {subtask : Phase} {role : Role}
    (fits : Fits relying node subtask role) (goesOn : node.phase ≠ role.waits) :
    subtask = idle ∨ subtask.Over := by
  rw [Fits] at fits
  cases progress : role.progress node.phase with
  | waiting => exact absurd (waiting_iff.mp progress) goesOn
  | before => rw [progress] at fits; exact Or.inl fits
  | joined exception => rw [progress] at fits; exact Or.inr fits.1
  | past => rw [progress] at fits; exact Or.inr fits.1
  | broken => rw [progress] at fits; exact fits.1

theorem fits_failed {relying : Bool} {node : Node} {state : TaskState} {outcome : Outcome}
    {subtask : Phase} {role : Role} (failed : outcome ≠ .succeeded)
    (seen : subtask = idle ∨ subtask.Over) (left : Left relying node subtask role) :
    Fits relying { node with phase := ended outcome, state := state } subtask role := by
  cases outcome with
  | succeeded => exact absurd rfl failed
  | exception | error => cases role <;> exact ⟨seen,left⟩

theorem progress_done {role other : Role} (different : other ≠ role) (exception : Bool) :
    other.progress (role.done exception) = other.progress role.calls ∧
      other.progress (role.done exception) = other.progress role.waits := by
  cases role <;> cases other <;> first | exact ⟨rfl,rfl⟩ | exact absurd rfl different

theorem progress_done_self (role : Role) (exception : Bool) :
    role.progress (role.done exception) = .joined exception := by
  cases role <;> rfl

theorem local_active {tree : TaskTree ν} {s : State ν} {n : ν} {node : Node}
    (step : Local tree s n node) : (s.nodes n).phase.Active ∧ node.phase.Started := by
  cases step with
  | ready launched_ => rw [launched_]; exact ⟨active_of_own trivial,trivial⟩
  | none role called => rw [called]; exact ⟨active_calls role,by cases role <;> trivial⟩
  | join role outcome waiting => rw [waiting]; exact ⟨active_waits role,by cases role <;> trivial⟩
  | rethrow role waiting => rw [waiting]; exact ⟨active_waits role,trivial⟩
  | execute exception joined => rw [joined]; exact ⟨active_of_own trivial,trivial⟩
  | executed running_ => rw [running_]; exact ⟨active_of_own trivial,trivial⟩
  | succeed exception joined => rw [joined]; exact ⟨active_of_own trivial,trivial⟩
  | fail outcome own => exact ⟨active_of_own own,trivial⟩

theorem failedState_ne_succeeded {node : Node} {outcome : Outcome}
    (not_yet : node.state ≠ .succeeded) : failedState node outcome ≠ .succeeded := by
  cases outcome with
  | exception => exact fun same => TaskState.noConfusion same
  | succeeded | error =>
    rw [failedState]
    · split
      next => exact fun same => TaskState.noConfusion same
      next => exact not_yet
    · exact fun same => Outcome.noConfusion same

theorem counted_failed {node : Node} {state : TaskState} {outcome : Outcome}
    (counted : Counted node) (failed : outcome ≠ .succeeded) :
    Counted { node with phase := ended outcome, state := state } := by
  have bounds : node.completions ≤ node.executions ∧ node.executions ≤ 1 := by
    rw [Counted] at counted
    split at counted <;> omega
  cases outcome with
  | succeeded => exact absurd rfl failed
  | exception | error => exact bounds

theorem local_sound {tree : TaskTree ν} {s : State ν} {n : ν} {node : Node}
    (step : Local tree s n node) (sound : Sound (s.nodes n)) : Sound node := by
  have active := (local_active step).1
  obtain ⟨counted,succeeded⟩ := sound
  have not_yet : (s.nodes n).state ≠ .succeeded := by
    intro done
    rw [succeeded.mp done] at active
    exact active.2 trivial
  cases step with
  | ready launched_ =>
    rw [Counted,launched_] at counted
    exact ⟨counted,by simp⟩
  | none role called =>
    rw [Counted,called] at counted
    exact ⟨by cases role <;> exact counted,by cases role <;> simpa [Role.done] using not_yet⟩
  | join role outcome waiting =>
    rw [Counted,waiting] at counted
    exact ⟨by cases role <;> exact counted,by cases role <;> simpa [Role.done] using not_yet⟩
  | rethrow => exact ⟨counted_failed counted (by simp),by simpa using not_yet⟩
  | execute exception joined =>
    rw [Counted,joined] at counted
    exact ⟨⟨congrArg (· + 1) counted.1,counted.2⟩,by simp⟩
  | executed running_ =>
    rw [Counted,running_] at counted
    exact ⟨⟨counted.1,congrArg (· + 1) counted.2⟩,by simp⟩
  | succeed exception joined =>
    rw [Counted,joined] at counted
    exact ⟨counted,by simp⟩
  | fail outcome own failed =>
    refine ⟨counted_failed counted failed,?_⟩
    simpa [failed] using failedState_ne_succeeded not_yet

theorem local_below {tree : TaskTree ν} {s : State ν} {n c : ν} {node : Node} {other : Role}
    (step : Local tree s n node) (inside : c ∈ tree.tasks other n) (counted : Counted (s.nodes n))
    (fits : Fits (tree.relying other n) (s.nodes n) (s.phase c) other) :
    Fits (tree.relying other n) node (s.phase c) other := by
  cases step with
  | ready launched_ => exact fits_congr fits (by rw [launched_]; rfl) rfl rfl
  | none role called empty =>
    have different : other ≠ role := by
      intro same
      rw [same,empty] at inside
      exact List.not_mem_nil inside
    exact fits_congr fits (by rw [called]; exact (progress_done different _).1) rfl rfl
  | join role outcome waiting joined caught =>
    by_cases same : other = role
    · rw [same] at inside ⊢
      rw [Fits,progress_done_self]
      refine ⟨over_of_ended (joined.1 c inside),?_⟩
      intro none_
      cases outcome with
      | succeeded => exact joined.2 c inside
      | exception => exact absurd none_ (by simp)
      | error => exact absurd rfl caught
    · exact fits_congr fits (by rw [waiting]; exact (progress_done same _).2) rfl rfl
  | rethrow role waiting joined =>
    refine fits_failed (by simp) ?_ (left_of_fits counted fits)
    by_cases same : other = role
    · rw [same] at inside
      exact Or.inr (over_of_ended (joined.1 c inside))
    · refine idle_or_over fits ?_
      rw [waiting]
      cases role <;> cases other <;> first | exact absurd rfl same | simp [Role.waits]
  | execute exception joined goesOn =>
    rw [Fits,joined] at fits
    cases other with
    | dependents =>
      refine ⟨fits.1,?_⟩
      intro relies
      cases exception with
      | false => exact fits.2 rfl
      | true => exact absurd (goesOn rfl) (by simp [relies])
    | dependencies => exact fits
  | executed running_ =>
    rw [Fits,running_] at fits
    cases other <;> exact fits
  | succeed exception joined goesOn =>
    rw [Fits,joined] at fits
    cases other with
    | dependents => exact fits
    | dependencies =>
      refine ⟨fits.1,?_⟩
      intro relies
      cases exception with
      | false => exact fits.2 rfl
      | true => exact absurd (goesOn rfl) (by simp [relies])
  | fail outcome own failed =>
    refine fits_failed failed (idle_or_over fits ?_) (left_of_fits counted fits)
    intro waiting
    rw [waiting] at own
    cases other <;> exact own

theorem progressed_initial (tree : TaskTree ν) : Progressed tree initial := by
  refine ⟨fun n => ⟨⟨rfl,rfl⟩,by simp [initial,fresh]⟩,fun n role c inside => ?_,?_,rfl⟩
  · cases role <;> rfl
  · intro n is
    exact absurd is (by simp [initial,fresh])

theorem progressed_top {tree : TaskTree ν} {s : State ν} {top : Top}
    (progressed : Progressed tree s) (top_ : TopFits (s.phase tree.root) top) :
    Progressed tree { s with top := top } :=
  ⟨progressed.sound,progressed.fits,progressed.cancels,top_⟩

variable [DecidableEq ν]

section Fork

variable {s : State ν} {n m : ν} {node : Node} {subtasks : List ν} {theirs : Phase}

theorem fork_self : (s.fork n node subtasks theirs).nodes n = node := if_pos rfl

theorem fork_subtask (other : m ≠ n) (member : m ∈ subtasks) :
    (s.fork n node subtasks theirs).nodes m = { s.nodes m with phase := theirs } :=
  (if_neg other).trans (if_pos member)

theorem fork_other (other : m ≠ n) (outside : m ∉ subtasks) :
    (s.fork n node subtasks theirs).nodes m = s.nodes m :=
  (if_neg other).trans (if_neg outside)

theorem set_eq_fork (theirs : Phase) : s.set n node = s.fork n node [] theirs := by
  simp [State.set,State.fork]

end Fork

theorem sound_idle {node : Node} {theirs : Phase} (sound : Sound node) (idle_ : node.phase = idle)
    (theirs_ : theirs = launched ∨ theirs = aborted) : Sound { node with phase := theirs } := by
  obtain ⟨counted,succeeded⟩ := sound
  rw [Counted,idle_] at counted
  rw [idle_] at succeeded
  cases theirs_ with
  | inl launched => exact ⟨by rw [launched]; exact counted,by simpa [launched] using succeeded⟩
  | inr aborted => exact ⟨by rw [aborted]; exact counted,by simpa [aborted] using succeeded⟩

theorem Progressed.fork {tree : TaskTree ν} {s : State ν} (progressed : Progressed tree s)
    {n : ν} {node : Node} {subtasks : List ν} {theirs : Phase} {top : Top}
    (members : ∀ c ∈ subtasks, s.phase c = idle ∧ ∃ role, c ∈ tree.tasks role n)
    (theirs_ : theirs = launched ∨ theirs = aborted ∧ s.cancelled = true)
    (sound : Sound node)
    (above : ∀ m role, n ∈ tree.tasks role m →
      Fits (tree.relying role m) (s.nodes m) node.phase role)
    (below : ∀ role c, c ∈ tree.tasks role n →
      Fits (tree.relying role n) node (if c ∈ subtasks then theirs else s.phase c) role)
    (aborted_ : node.phase = aborted → s.cancelled = true)
    (top_ : TopFits (if tree.root = n then node.phase else s.phase tree.root) top) :
    Progressed tree { s.fork n node subtasks theirs with top := top } := by
  have theirs_before : ∀ role, Role.progress role theirs = .before := by
    intro role
    cases theirs_ with
    | inl launched => rw [launched]; rfl
    | inr aborted => rw [aborted.1]; rfl
  refine ⟨?_,?_,?_,?_⟩
  · intro m
    change Sound ((s.fork n node subtasks theirs).nodes m)
    by_cases same : m = n
    · rw [same,fork_self]
      exact sound
    by_cases member : m ∈ subtasks
    · rw [fork_subtask same member]
      exact sound_idle (progressed.sound m) (members m member).1 (theirs_.imp id And.left)
    · rw [fork_other same member]
      exact progressed.sound m
  · intro m role c below_
    change Fits _ ((s.fork n node subtasks theirs).nodes m)
      ((s.fork n node subtasks theirs).nodes c).phase role
    have deeper := tree.deeper m role c below_
    by_cases same : m = n
    · rw [same] at below_ deeper
      have other : c ≠ n := by
        intro same
        rw [same] at deeper
        exact Nat.lt_irrefl _ deeper
      rw [same,fork_self]
      have fits := below role c below_
      by_cases member : c ∈ subtasks
      · rw [fork_subtask other member]
        rwa [if_pos member] at fits
      · rw [fork_other other member]
        rwa [if_neg member] at fits
    have outside : c ∉ subtasks := by
      intro member
      obtain ⟨_,theirs⟩ := (members c member).2
      exact same (tree.single _ _ _ _ _ below_ theirs).1
    by_cases child : c = n
    · have free : m ∉ subtasks := by
        intro member
        obtain ⟨role',up⟩ := (members m member).2
        have := tree.deeper n role' m up
        rw [child] at deeper
        exact Nat.lt_asymm deeper this
      rw [child,fork_self,fork_other same free]
      exact above m role (child ▸ below_)
    rw [fork_other child outside]
    have fits := progressed.fits m role c below_
    by_cases member : m ∈ subtasks
    · have idle_ := (members m member).1
      have begun : role.progress (s.nodes m).phase = .before := by
        rw [show (s.nodes m).phase = idle from idle_]
        rfl
      have still : s.phase c = idle := idle_of_fits begun fits
      rw [fork_subtask same member]
      change Fits _ _ (s.phase c) role
      rw [still]
      exact fits_idle (theirs_before role)
    · rw [fork_other same member]
      exact fits
  · intro m
    change ((s.fork n node subtasks theirs).nodes m).phase = aborted → s.cancelled = true
    by_cases same : m = n
    · rw [same,fork_self]
      exact aborted_
    by_cases member : m ∈ subtasks
    · rw [fork_subtask same member]
      intro is
      cases theirs_ with
      | inl launched => exact absurd (launched.symm.trans is) (by simp)
      | inr aborted => exact aborted.2
    · rw [fork_other same member]
      exact progressed.cancels m
  · change TopFits ((s.fork n node subtasks theirs).nodes tree.root).phase top
    by_cases same : tree.root = n
    · rw [same,fork_self]
      rwa [if_pos same] at top_
    have outside : tree.root ∉ subtasks := by
      intro member
      obtain ⟨role,inside⟩ := (members _ member).2
      exact tree.top n role inside
    rw [fork_other same outside]
    rwa [if_neg same] at top_

theorem top_of_active {phase phase' : Phase} {top : Top} (fits : TopFits phase top)
    (active : phase.Active) (started : phase'.Started) : TopFits phase' top := by
  cases top with
  | started =>
    rw [fits] at active
    exact absurd active.1 (fun begun => begun)
  | awaiting => exact started
  | done exception => exact absurd active (not_active_of_over fits.1)
  | stopped success => exact absurd active (not_active_of_over fits.1)
  | uncaught => trivial

/-- The frame of a step of a task that is between its start and its end. -/
theorem Progressed.advance {tree : TaskTree ν} {s : State ν} (progressed : Progressed tree s)
    {n : ν} {node : Node} {subtasks : List ν} {theirs : Phase}
    (members : ∀ c ∈ subtasks, s.phase c = idle ∧ ∃ role, c ∈ tree.tasks role n)
    (theirs_ : theirs = launched ∨ theirs = aborted ∧ s.cancelled = true)
    (active : (s.phase n).Active) (started : node.phase.Started) (sound : Sound node)
    (below : ∀ role c, c ∈ tree.tasks role n →
      Fits (tree.relying role n) node (if c ∈ subtasks then theirs else s.phase c) role) :
    Progressed tree (s.fork n node subtasks theirs) := by
  have fork := @Progressed.fork ν _ tree s progressed n node subtasks theirs s.top
    members theirs_ sound
  refine fork ?_ below ?_ ?_
  · intro m role inside
    exact fits_started (waits_of_active (progressed.fits m role n inside) active) started
  · intro is
    rw [is] at started
    exact absurd started (fun begun => begun)
  · split
    next same => exact top_of_active (same ▸ progressed.top) active started
    next => exact progressed.top

theorem progressed_own {tree : TaskTree ν} {s : State ν} {n : ν} {node : Node}
    (progressed : Progressed tree s) (step : Local tree s n node) :
    Progressed tree (s.set n node) := by
  obtain ⟨active,started⟩ := local_active step
  rw [set_eq_fork launched]
  refine progressed.advance (by simp) (Or.inl rfl) active started
    (local_sound step (progressed.sound n)) ?_
  intro role c inside
  rw [if_neg List.not_mem_nil]
  exact local_below step inside (progressed.sound n).counted (progressed.fits n role c inside)

theorem progressed_call {tree : TaskTree ν} {s : State ν} {n : ν} {role : Role}
    {phase theirs : Phase} (progressed : Progressed tree s) (called : s.phase n = role.calls)
    (goes : phase = role.waits ∧ theirs = launched ∨
      phase = role.done true ∧ theirs = aborted ∧ s.cancelled = true) :
    Progressed tree (s.fork n { s.nodes n with phase := phase } (tree.tasks role n) theirs) := by
  have same : ∀ other, other ≠ role → other.progress phase = other.progress (s.phase n) := by
    intro other different
    have unchanged := progress_done different true
    rw [called]
    rcases goes with ⟨waits,_⟩ | ⟨done,_⟩
    · rw [waits,← unchanged.2,unchanged.1]
    · rw [done,unchanged.1]
  have begun : role.progress (s.phase n) = .before := by
    rw [called]
    cases role <;> rfl
  refine progressed.advance ?_ ?_ (called ▸ active_calls role) ?_ ?_ ?_
  · intro c inside
    exact ⟨idle_of_fits begun (progressed.fits n role c inside),role,inside⟩
  · exact goes.imp And.right And.right
  · rcases goes with ⟨waits,_⟩ | ⟨done,_⟩
    · rw [waits]
      cases role <;> trivial
    · rw [done]
      cases role <;> trivial
  · obtain ⟨counted,succeeded⟩ := progressed.sound n
    have called' : (s.nodes n).phase = role.calls := called
    rw [Counted,called'] at counted
    rw [called'] at succeeded
    rcases goes with ⟨waits,_⟩ | ⟨done,_⟩
    · rw [waits]
      cases role <;> exact ⟨counted,by simpa [Role.calls,Role.waits] using succeeded⟩
    · rw [done]
      cases role <;> exact ⟨counted,by simpa [Role.calls,Role.done] using succeeded⟩
  · intro other c inside
    by_cases own : other = role
    · rw [own] at inside ⊢
      rw [if_pos inside]
      rcases goes with ⟨waits,launched_⟩ | ⟨done,aborted_,_⟩
      · rw [launched_]
        exact fits_started (waiting_iff.mpr waits) trivial
      · rw [done,Fits,progress_done_self,aborted_]
        exact ⟨Or.inl rfl,fun none_ => absurd none_ (by simp)⟩
    · have outside : c ∉ tree.tasks role n := by
        intro mine
        exact own (tree.single _ _ _ _ _ inside mine).2
      rw [if_neg outside]
      exact fits_congr (progressed.fits n other c inside) (same other own) rfl rfl

theorem progressed_root {tree : TaskTree ν} {s : State ν} {theirs : Phase} {top : Top}
    (progressed : Progressed tree s) (started : s.top = .started)
    (theirs_ : theirs = launched ∨ theirs = aborted)
    (cancels : theirs = aborted → s.cancelled = true) (top_ : TopFits theirs top) :
    Progressed tree
      { s.set tree.root { s.nodes tree.root with phase := theirs } with top := top } := by
  have idle_ : (s.nodes tree.root).phase = idle := by
    have fits := progressed.top
    rwa [started] at fits
  rw [set_eq_fork launched]
  refine progressed.fork (by simp) (Or.inl rfl)
    (sound_idle (progressed.sound tree.root) idle_ theirs_) ?_ ?_ cancels ?_
  · intro m role inside
    exact absurd inside (tree.top m role)
  · intro role c inside
    rw [if_neg List.not_mem_nil]
    refine fits_congr (progressed.fits tree.root role c inside) ?_ rfl rfl
    rw [idle_]
    rcases theirs_ with launched_ | aborted_
    · rw [launched_]
      rfl
    · rw [aborted_]
      rfl
  · rwa [if_pos rfl]

theorem progressed_step {tree : TaskTree ν} {s s' : State ν} (progressed : Progressed tree s)
    (step : Step tree s s') : Progressed tree s' := by
  have top_ := progressed.top
  cases step with
  | cancel => exact ⟨progressed.sound,progressed.fits,fun _ _ => rfl,progressed.top⟩
  | own n node own_ => exact progressed_own progressed own_
  | launch n role called => exact progressed_call progressed called (Or.inl ⟨rfl,rfl⟩)
  | abort n role called some_ cancelled_ =>
    exact progressed_call progressed called (Or.inr ⟨rfl,rfl,cancelled_⟩)
  | launchRoot started =>
    exact progressed_root progressed started (Or.inl rfl) (fun is => absurd is (by simp)) trivial
  | abortRoot started cancelled_ =>
    exact progressed_root progressed started (Or.inr rfl) (fun _ => cancelled_)
      ⟨Or.inl rfl,by simp⟩
  | joinRoot outcome awaiting joined caught =>
    apply progressed_top progressed
    rw [joined]
    refine ⟨Or.inr trivial,?_⟩
    cases outcome with
    | succeeded => simp
    | exception => simp
    | error => exact absurd rfl caught
  | rethrowRoot awaiting joined => exact progressed_top progressed trivial
  | stop exception done_ =>
    apply progressed_top progressed
    rw [done_] at top_
    refine ⟨top_.1,?_⟩
    rw [← top_.2]
    cases exception <;> simp

theorem progressed_invariant (tree : TaskTree ν) :
    (executor tree).Invariant (Progressed tree) := by
  refine ⟨?_,fun s s' _ progressed step => progressed_step progressed step⟩
  intro s starts
  rw [show s = initial from starts]
  exact progressed_initial tree

/-- Once the root is over nothing is active, however the tree was run. -/
theorem root_active {tree : TaskTree ν} {s : State ν} (progressed : Progressed tree s) (n : ν)
    (active : (s.phase n).Active) : (s.phase tree.root).Active := by
  by_cases root : n = tree.root
  · exact root ▸ active
  obtain ⟨m,role,inside⟩ := tree.owned n root
  have above : (s.phase m).Active := by
    have waits := waits_of_active (progressed.fits m role n inside) active
    have waiting : s.phase m = role.waits := waiting_iff.mp waits
    exact waiting ▸ active_waits role
  have := tree.deeper m role n inside
  exact root_active progressed m above
termination_by tree.depth n

end HmclPe.Tasks.Executor
