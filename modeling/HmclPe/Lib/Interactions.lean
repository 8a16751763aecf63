import Mathlib.Logic.Relation

/-! Programs that ask questions of a shared state, which others change in between. A question may
have many answers, each with the state it leaves. -/
namespace HmclPe.Lib.Interactions
open Relation

inductive Program (Query : Type) (Answer : Query → Type) (α : Type) : Type
  | returns (result : α)
  | throws
  | ask (query : Query) (next : Answer query → Program Query Answer α)

variable {Query : Type} {Answer : Query → Type} {σ α β : Type}

namespace Program

def bind : Program Query Answer α → (α → Program Query Answer β) → Program Query Answer β
  | returns result, f => f result
  | throws, _ => throws
  | ask query next, f => ask query fun answer => bind (next answer) f

instance : Monad (Program Query Answer) where
  pure := returns
  bind := bind

/-- A missing value is an exception. -/
def orThrow : Option α → Program Query Answer α
  | some value => returns value
  | none => throws

@[simp] theorem pure_eq (a : α) : (pure a : Program Query Answer α) = returns a := rfl

@[simp] theorem returns_bind (a : α) (f : α → Program Query Answer β) :
    (returns a >>= f) = f a := rfl

@[simp] theorem ask_bind (query : Query) (next : Answer query → Program Query Answer α)
    (f : α → Program Query Answer β) :
    (ask query next >>= f) = ask query fun answer => next answer >>= f := rfl

@[simp] theorem orThrow_some (a : α) : (orThrow (some a) : Program Query Answer α) = returns a :=
  rfl

end Program

/-- Who answers the questions, and what others do to the state at any time. -/
structure Environment (Query : Type) (Answer : Query → Type) (σ : Type) where
  Answers : (query : Query) → σ → Answer query → σ → Prop
  Disturbs : σ → σ → Prop

namespace Environment

variable (env : Environment Query Answer σ)

def Disturbed : σ → σ → Prop := ReflTransGen env.Disturbs

inductive Step : Program Query Answer α × σ → Program Query Answer α × σ → Prop
  | answered (query : Query) (next : Answer query → Program Query Answer α) (s s' : σ)
      (answer : Answer query) (answers : env.Answers query s answer s') :
      Step (.ask query next,s) (next answer,s')

/-- No run of the program throws, one condition holds in all its states and another of what it
returns, whatever the others do. -/
def Meets (always : σ → Prop) (post : α → σ → Prop) : Program Query Answer α → σ → Prop
  | .returns result, s => ∀ s', env.Disturbed s s' → always s' ∧ post result s'
  | .throws, _ => False
  | .ask query next, s => ∀ s', env.Disturbed s s' → always s' ∧ ∀ answer after,
      env.Answers query s' answer after → Meets always post (next answer) after

/-- A run that nobody disturbs. -/
inductive Yields : Program Query Answer α → σ → α → σ → Prop
  | returns (result : α) (s : σ) : Yields (.returns result) s result s
  | ask (query : Query) (next : Answer query → Program Query Answer α) (s s' s'' : σ)
      (answer : Answer query) (result : α) (answers : env.Answers query s answer s')
      (rest : Yields (next answer) s' result s'') : Yields (.ask query next) s result s''

inductive Raises : Program Query Answer α → σ → Prop
  | throws (s : σ) : Raises .throws s
  | ask (query : Query) (next : Answer query → Program Query Answer α) (s s' : σ)
      (answer : Answer query) (answers : env.Answers query s answer s')
      (rest : Raises (next answer) s') : Raises (.ask query next) s

/-- There is a state in which no run throws that nobody disturbs. -/
def Survives (program : Program Query Answer α) : Prop := ∃ s, ¬env.Raises program s

variable {env}

section Rules

variable {always : σ → Prop} {post post' : α → σ → Prop} {program : Program Query Answer α}
  {s s' s'' : σ}

theorem Meets.disturbed (meets : env.Meets always post program s) (disturbed : env.Disturbed s s') :
    env.Meets always post program s' := by
  cases program with
  | returns result => exact fun later again => meets later (disturbed.trans again)
  | throws => exact meets
  | ask query next => exact fun later again => meets later (disturbed.trans again)

theorem Meets.now (meets : env.Meets always post program s) : always s := by
  cases program with
  | returns result => exact (meets s .refl).1
  | throws => exact meets.elim
  | ask query next => exact (meets s .refl).1

theorem Meets.mono (meets : env.Meets always post program s)
    (weaker : ∀ result s, post result s → post' result s) : env.Meets always post' program s := by
  induction program generalizing s with
  | returns result =>
    intro later disturbed
    obtain ⟨holds,ends⟩ := meets later disturbed
    exact ⟨holds,weaker result later ends⟩
  | throws => exact meets
  | ask query next ih =>
    intro later disturbed
    obtain ⟨holds,goes⟩ := meets later disturbed
    exact ⟨holds,fun answer after answers => ih answer (goes answer after answers)⟩

theorem Meets.bind {f : α → Program Query Answer β} {goal : β → σ → Prop}
    (meets : env.Meets always post program s)
    (goes : ∀ result s, post result s → env.Meets always goal (f result) s) :
    env.Meets always goal (program >>= f) s := by
  induction program generalizing s with
  | returns result => exact goes result s (meets s .refl).2
  | throws => exact meets
  | ask query next ih =>
    intro later disturbed
    obtain ⟨holds,rest⟩ := meets later disturbed
    exact ⟨holds,fun answer after answers => ih answer (rest answer after answers)⟩

theorem meets_returns {result : α} (ends : post result s)
    (stable : ∀ s s', post result s → env.Disturbs s s' → post result s')
    (holds : ∀ s, post result s → always s) : env.Meets always post (.returns result) s := by
  intro later disturbed
  have still : post result later := by
    induction disturbed with
    | refl => exact ends
    | tail _ disturbs ih => exact stable _ _ ih disturbs
  exact ⟨holds later still,still⟩

theorem Meets.step {program' : Program Query Answer α} (meets : env.Meets always post program s)
    (step : env.Step (program,s) (program',s')) : env.Meets always post program' s' := by
  cases step with
  | answered query next _ _ answer answers => exact (meets s .refl).2 answer s' answers

theorem Meets.returned {result : α} (meets : env.Meets always post (.returns result) s) :
    post result s := (meets s .refl).2

theorem not_meets_throws : ¬env.Meets always post .throws s := id

theorem yields_ask {query : Query} {answer : Answer query} (answers : env.Answers query s answer s') :
    env.Yields (.ask query fun answer => .returns answer) s answer s' :=
  .ask query _ s s' s' answer answer answers (.returns answer s')

theorem Yields.bind {f : α → Program Query Answer β} {result : α} {last : β}
    (yields : env.Yields program s result s') (rest : env.Yields (f result) s' last s'') :
    env.Yields (program >>= f) s last s'' := by
  induction yields with
  | returns result s => exact rest
  | ask query next s t s' answer result answers _ ih =>
    exact .ask query _ s t s'' answer last answers (ih rest)

/-- A program that never throws comes to its end where each question has an answer. -/
theorem Meets.yields (meets : env.Meets always post program s)
    (answered : ∀ query s, ∃ answer s', env.Answers query s answer s') :
    ∃ result s', env.Yields program s result s' := by
  induction program generalizing s with
  | returns result => exact ⟨result,s,.returns result s⟩
  | throws => exact meets.elim
  | ask query next ih =>
    obtain ⟨answer,after,answers⟩ := answered query s
    obtain ⟨result,last,rest⟩ := ih answer ((meets s .refl).2 answer after answers)
    exact ⟨result,last,.ask query next s after last answer result answers rest⟩

theorem Yields.run {result : α} (yields : env.Yields program s result s') :
    ReflTransGen env.Step (program,s) (.returns result,s') := by
  induction yields with
  | returns result s => exact .refl
  | ask query next s t s' answer result answers _ ih =>
    exact .head (.answered query next s t answer answers) ih

theorem Yields.raises {f : α → Program Query Answer β} {result : α}
    (yields : env.Yields program s result s') (rest : env.Raises (f result) s') :
    env.Raises (program >>= f) s := by
  induction yields with
  | returns result s => exact rest
  | ask query next s t s' answer result answers _ ih =>
    exact .ask query _ s t answer answers (ih rest)

theorem Raises.run (raises : env.Raises program s) :
    ∃ s', ReflTransGen env.Step (program,s) (.throws,s') := by
  induction raises with
  | throws s => exact ⟨s,.refl⟩
  | ask query next s t answer answers _ ih =>
    obtain ⟨s',run⟩ := ih
    exact ⟨s',.head (.answered query next s t answer answers) run⟩

theorem not_survives_throws : ¬env.Survives (.throws : Program Query Answer α) := by
  rintro ⟨s,safe⟩
  exact safe (.throws s)

theorem Survives.next {f : α → Program Query Answer β} {result : α}
    (survives : env.Survives (program >>= f)) (yields : ∀ s, ∃ s', env.Yields program s result s') :
    env.Survives (f result) := by
  obtain ⟨s,safe⟩ := survives
  obtain ⟨s',ends⟩ := yields s
  exact ⟨s',fun raises => safe (ends.raises raises)⟩

theorem Survives.orThrow {f : α → Program Query Answer β} {o : Option α}
    (survives : env.Survives (Program.orThrow o >>= f)) : ∃ a, o = some a ∧ env.Survives (f a) := by
  cases o with
  | none => exact absurd survives not_survives_throws
  | some a => exact ⟨a,rfl,survives⟩

end Rules

end Environment

end HmclPe.Lib.Interactions
