import Mathlib.Tactic

/-! Work on a state that only grows, failures included: what holds of the state is kept, and what was
in it stays. -/
namespace HmclPe.Lib.Growth
universe u

/-- Work on a state, which a failure leaves as it is by then. -/
abbrev Work (ε σ : Type u) := ExceptT ε (StateM σ)

/-- What holds of a state, and what it is for another to extend it. -/
structure Growing (σ : Type u) where
  holds : σ → Prop
  extends_ : σ → σ → Prop
  refl : ∀ s, extends_ s s
  trans : ∀ {first second third}, extends_ first second → extends_ second third →
    extends_ first third

variable {ε σ α β : Type u} {growing : Growing σ} {before : σ → Prop}

/-- What work that begins with `before` leaves, and what it gives when it does not fail. -/
def Growing.Keeps (growing : Growing σ) (before : σ → Prop) (work : Work ε σ α)
    (after : α → σ → Prop) : Prop :=
  ∀ s, growing.holds s → before s →
    growing.holds (work.run.run s).2 ∧ growing.extends_ s (work.run.run s).2 ∧
      ∀ a, (work.run.run s).1 = .ok a → after a (work.run.run s).2

theorem keeps_pure {a : α} {after : α → σ → Prop} (given : ∀ s, before s → after a s) :
    growing.Keeps before (pure a : Work ε σ α) after := by
  intro s holds begun
  refine ⟨holds,growing.refl s,?_⟩
  rintro _ ⟨⟩
  exact given s begun

theorem keeps_throw {failure : ε} {after : α → σ → Prop} :
    growing.Keeps before (throw failure : Work ε σ α) after :=
  fun s holds _ => ⟨holds,growing.refl s,nofun⟩

theorem run_bind (work : Work ε σ α) (next : α → Work ε σ β) (s : σ) :
    (work >>= next).run.run s =
      match work.run.run s with
      | (.ok a,later) => (next a).run.run later
      | (.error failure,later) => (.error failure,later) := by
  change (ExceptT.bindCont next (work.run.run s).1).run (work.run.run s).2 = _
  rcases work.run.run s with ⟨result,later⟩
  cases result <;> rfl

theorem Growing.Keeps.bind {work : Work ε σ α} {next : α → Work ε σ β} {between : α → σ → Prop}
    {after : β → σ → Prop} (first : growing.Keeps before work between)
    (second : ∀ a, growing.Keeps (between a) (next a) after) :
    growing.Keeps before (work >>= next) after := by
  intro s holds begun
  have kept := first s holds begun
  cases ran : work.run.run s with
  | mk result later =>
    rw [ran] at kept
    rw [run_bind,ran]
    obtain ⟨holds,grown,given⟩ := kept
    cases result with
    | error failure => exact ⟨holds,grown,nofun⟩
    | ok a =>
      obtain ⟨holdsNow,grownNow,givenNow⟩ := second a later holds (given a rfl)
      exact ⟨holdsNow,growing.trans grown grownNow,givenNow⟩

/-- What growing keeps is kept. -/
theorem Growing.Keeps.frame {work : Work ε σ α} {after : α → σ → Prop}
    (kept : growing.Keeps before work after)
    (stable : ∀ {s later}, growing.extends_ s later → before s → before later) :
    growing.Keeps before work fun a s => after a s ∧ before s := by
  intro s holds begun
  obtain ⟨holds,grown,given⟩ := kept s holds begun
  exact ⟨holds,grown,fun a ended => ⟨given a ended,stable grown begun⟩⟩

end HmclPe.Lib.Growth
