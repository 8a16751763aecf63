import Mathlib.Logic.Relation

/-! Transition systems, the states of their runs and the rules for what holds in all of them. -/
namespace HmclPe.Lib.Runs

structure System (σ : Type) where
  Start : σ → Prop
  Step : σ → σ → Prop

variable {σ τ : Type}

/-- The states of the runs from a starting state. -/
inductive System.Reachable (system : System σ) : σ → Prop
  | start (s : σ) (starts : system.Start s) : Reachable system s
  | step (s s' : σ) (reached : Reachable system s) (steps : system.Step s s') :
      Reachable system s'

/-- What holds at the start and is kept by each step from a reachable state. -/
structure System.Invariant (system : System σ) (holds : σ → Prop) : Prop where
  start : ∀ s, system.Start s → holds s
  step : ∀ s s', system.Reachable s → holds s → system.Step s s' → holds s'

theorem System.Invariant.reachable {system : System σ} {holds : σ → Prop}
    (invariant : system.Invariant holds) {s : σ} (reached : system.Reachable s) : holds s := by
  induction reached with
  | start s starts => exact invariant.start s starts
  | step s s' reached steps before => exact invariant.step s s' reached before steps

theorem System.Reachable.run {system : System σ} {s s' : σ} (reached : system.Reachable s)
    (steps : Relation.ReflTransGen system.Step s s') : system.Reachable s' := by
  induction steps with
  | refl => exact reached
  | tail _ last before => exact .step _ _ before last

/-- The runs whose steps are all made in states that meet a condition. -/
def System.whenever (system : System σ) (meets : σ → Prop) : System σ :=
  ⟨system.Start,fun s s' => meets s ∧ system.Step s s'⟩

theorem System.Reachable.of_whenever {system : System σ} {meets : σ → Prop} {s : σ}
    (reached : (system.whenever meets).Reachable s) : system.Reachable s := by
  induction reached with
  | start s starts => exact .start s starts
  | step s s' _ steps before => exact .step s s' before steps.2

section Calls

variable {γ : Type} {step : σ → γ → σ}

/-- Each call of a run meets a condition in the state it is made in. -/
def Along (step : σ → γ → σ) (meets : σ → γ → Prop) : σ → List γ → Prop
  | _, [] => True
  | s, call :: calls => meets s call ∧ Along step meets (step s call) calls

/-- Two conditions on calls agree along a run when they agree in the states that the calls met so
far lead to. -/
theorem along_iff {holds : σ → Prop} {meets meets' : σ → γ → Prop}
    (same : ∀ s call, holds s → (meets s call ↔ meets' s call))
    (keeps : ∀ s call, holds s → meets s call → holds (step s call))
    {s : σ} (starts : holds s) (calls : List γ) :
    Along step meets s calls ↔ Along step meets' s calls := by
  induction calls generalizing s with
  | nil => exact Iff.rfl
  | cons call calls ih =>
    constructor
    · intro along
      have next := keeps s call starts along.1
      exact ⟨(same s call starts).mp along.1,(ih next).mp along.2⟩
    · intro along
      have met := (same s call starts).mpr along.1
      exact ⟨met,(ih (keeps s call starts met)).mpr along.2⟩

theorem along_congr {meets meets' : σ → γ → Prop} (same : ∀ s call, meets s call ↔ meets' s call)
    (s : σ) (calls : List γ) : Along step meets s calls ↔ Along step meets' s calls :=
  @along_iff _ _ _ (fun _ => True) _ _ (fun s call _ => same s call) (fun _ _ _ _ => True.intro)
    s True.intro calls

theorem Along.at {meets : σ → γ → Prop} {s : σ} {done rest : List γ} {call : γ}
    (along : Along step meets s (done ++ call :: rest)) : meets (done.foldl step s) call := by
  induction done generalizing s with
  | nil => exact along.1
  | cons first done ih => exact ih along.2

/-- Where each admitted call keeps a property exactly under a condition, the property holds in all
states of a run of admitted calls exactly when all its calls meet the condition. -/
theorem admitted_throughout_iff {always holds : σ → Prop} {admits meets : σ → γ → Prop}
    (stays : ∀ s call, always s → holds s → admits s call → meets s call → always (step s call))
    (keeps : ∀ s call, always s → holds s → admits s call →
      (holds (step s call) ↔ meets s call))
    {s : σ} (first : always s) (starts : holds s) {calls : List γ}
    (admitted : Along step admits s calls) :
    (∀ done rest, calls = done ++ rest → holds (done.foldl step s)) ↔ Along step meets s calls := by
  induction calls generalizing s with
  | nil =>
    constructor
    · intro _
      exact True.intro
    · intro _ done rest cut
      obtain ⟨rfl,-⟩ := List.append_eq_nil_iff.mp cut.symm
      exact starts
  | cons call calls ih =>
    obtain ⟨here,later_⟩ := admitted
    constructor
    · intro throughout
      have next : holds (step s call) := throughout [call] calls rfl
      have met := (keeps s call first starts here).mp next
      refine ⟨met,(ih (stays s call first starts here met) next later_).mp ?_⟩
      intro done rest cut
      exact throughout (call :: done) rest (by rw [cut]; rfl)
    · intro along done rest cut
      have next := (keeps s call first starts here).mpr along.1
      cases done with
      | nil => exact starts
      | cons head done =>
        obtain ⟨rfl,later⟩ := List.cons.inj cut
        have running := stays s call first starts here along.1
        exact (ih running next later_).mpr along.2 done rest later

theorem Along.trivially (s : σ) (calls : List γ) : Along step (fun _ _ => True) s calls := by
  induction calls generalizing s with
  | nil => exact True.intro
  | cons call calls ih => exact ⟨True.intro,ih _⟩

/-- The same for runs of any calls. -/
theorem throughout_iff {always holds : σ → Prop} {meets : σ → γ → Prop}
    (stays : ∀ s call, always s → holds s → meets s call → always (step s call))
    (keeps : ∀ s call, always s → holds s → (holds (step s call) ↔ meets s call))
    {s : σ} (first : always s) (starts : holds s) (calls : List γ) :
    (∀ done rest, calls = done ++ rest → holds (done.foldl step s)) ↔ Along step meets s calls := by
  have admitted := @Along.trivially σ γ step s calls
  exact admitted_throughout_iff (fun s call before held _ => stays s call before held)
    (fun s call before held _ => keeps s call before held) first starts admitted

end Calls

end HmclPe.Lib.Runs
