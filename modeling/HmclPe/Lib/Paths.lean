import Mathlib.Data.List.Basic
import Mathlib.Tactic

/-! Places in a tree of names and walks over them: a move stays, goes down to a name or up to the
parent, and the root is its own parent. -/
namespace HmclPe.Lib.Paths

variable {α : Type}

inductive Move (α : Type)
  | stay
  | up
  | down (name : α)
deriving DecidableEq

abbrev Place (α : Type) := List α

def go (place : Place α) : Move α → Place α
  | .stay => place
  | .up => place.dropLast
  | .down name => place ++ [name]

def walk (place : Place α) (moves : List (Move α)) : Place α := moves.foldl go place

/-- What a walk comes to: how far it climbs above its start, and the names it goes down then. -/
structure Net (α : Type) where
  climb : Nat
  below : List α

def Net.go (net : Net α) : Move α → Net α
  | .stay => net
  | .up => if net.below = [] then ⟨net.climb + 1,[]⟩ else ⟨net.climb,net.below.dropLast⟩
  | .down name => ⟨net.climb,net.below ++ [name]⟩

def net (moves : List (Move α)) : Net α := moves.foldl Net.go ⟨0,[]⟩

def Net.place (net : Net α) (start : Place α) : Place α :=
  start.take (start.length - net.climb) ++ net.below

def Inside (base place : Place α) : Prop := ∃ below, below ≠ [] ∧ place = base ++ below

/-- The walk does not climb above its start, or comes back through the names it climbed. -/
def Net.Returns (net : Net α) (start : Place α) : Prop :=
  ∃ below, below ≠ [] ∧ net.below = start.drop (start.length - net.climb) ++ below

theorem walk_append (place : Place α) (moves later : List (Move α)) :
    walk place (moves ++ later) = walk (walk place moves) later := List.foldl_append

theorem Net.go_place (net : Net α) (start : Place α) (move : Move α) :
    (net.go move).place start = Paths.go (net.place start) move := by
  cases move with
  | stay => rfl
  | down name => simp [Net.go,Net.place,Paths.go]
  | up =>
    by_cases empty : net.below = []
    · have shorter : (start.take (start.length - net.climb)).dropLast =
          start.take (start.length - (net.climb + 1)) := by
        rw [List.dropLast_eq_take,List.take_take,List.length_take]
        congr 1
        omega
      simp [Net.go,Net.place,Paths.go,empty,shorter]
    · simp [Net.go,Net.place,Paths.go,empty,List.dropLast_append_of_ne_nil]

theorem walk_net (start : Place α) (moves : List (Move α)) :
    walk start moves = (net moves).place start := by
  induction moves using List.reverseRecOn with
  | nil => simp [walk,net,Net.place]
  | append_singleton moves move ih =>
    have last : walk start (moves ++ [move]) = go (walk start moves) move :=
      walk_append start moves [move]
    have lastNet : net (moves ++ [move]) = (net moves).go move := List.foldl_append
    rw [last,lastNet,ih,Net.go_place]

theorem inside_walk (start : Place α) (moves : List (Move α)) :
    Inside start (walk start moves) ↔ (net moves).Returns start := by
  rw [walk_net]
  set taken := start.length - (net moves).climb
  have whole := List.take_append_drop taken start
  constructor
  · rintro ⟨below,some_,same⟩
    have cut : start.take taken ++ (net moves).below =
        start.take taken ++ (start.drop taken ++ below) := by
      rw [← List.append_assoc,whole]
      exact same
    exact ⟨below,some_,List.append_cancel_left cut⟩
  · rintro ⟨below,some_,same⟩
    exact ⟨below,some_,by rw [Net.place,same,← List.append_assoc,whole]⟩

/-- Whoever arrives inside by one move came from the base or from inside. -/
theorem base_of_inside {base place : Place α} {move : Move α}
    (inside : Inside base (go place move)) : base <+: place := by
  obtain ⟨below,some_,same⟩ := inside
  cases move with
  | stay => exact ⟨below,same.symm⟩
  | up =>
    have parent : base ++ below <+: place := same ▸ List.dropLast_prefix place
    exact (List.prefix_append base below).trans parent
  | down name =>
    rcases List.eq_nil_or_concat below with rfl | ⟨front,last,rfl⟩
    · exact absurd rfl some_
    · rw [List.concat_eq_append,← List.append_assoc] at same
      exact ⟨front,(List.append_inj_left' same rfl).symm⟩

end HmclPe.Lib.Paths
