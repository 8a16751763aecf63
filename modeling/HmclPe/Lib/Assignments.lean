import Mathlib.Data.List.Perm.Basic
import Mathlib.Data.List.Nodup
import Mathlib.Logic.Function.Basic

/-! Sequences of assignments to the places of a store. Where no assignment reads what another one
writes, all of them read the first store, whatever their order. -/
namespace HmclPe.Lib.Assignments

variable {π ν : Type}

structure Assignment (π ν : Type) where
  target : π
  value : (π → ν) → ν

def targets (list : List (Assignment π ν)) : List π := list.map Assignment.target

/-- A value that does not depend on what stands at some places. -/
def Unread (places : List π) (value : (π → ν) → ν) : Prop :=
  ∀ store store' : π → ν, (∀ place, place ∉ places → store place = store' place) →
    value store = value store'

structure Independent (list : List (Assignment π ν)) : Prop where
  distinct : (targets list).Nodup
  unread : ∀ assignment ∈ list, Unread (targets list) assignment.value

variable {list list' : List (Assignment π ν)}

theorem Independent.perm (independent : Independent list) (same : list.Perm list') :
    Independent list' := by
  obtain ⟨distinct,unread⟩ := independent
  have places : (targets list).Perm (targets list') := same.map _
  refine ⟨places.nodup_iff.mp distinct,?_⟩
  intro assignment member store store' agree
  apply unread assignment (same.mem_iff.mpr member)
  intro place outside
  exact agree place fun inside => outside (places.mem_iff.mpr inside)

variable [DecidableEq π] {store : π → ν}

def assign (store : π → ν) (assignment : Assignment π ν) : π → ν :=
  Function.update store assignment.target (assignment.value store)

def run (list : List (Assignment π ν)) (store : π → ν) : π → ν := list.foldl assign store

theorem run_append (store : π → ν) : run (list ++ list') store = run list' (run list store) :=
  List.foldl_append

theorem run_other {place : π} (other : place ∉ targets list) : run list store place = store place := by
  induction list generalizing store with
  | nil => rfl
  | cons assignment list ih =>
    obtain ⟨different,later⟩ := not_or.mp (mt List.mem_cons.mpr other)
    rw [run,List.foldl_cons,← run,ih later]
    exact Function.update_of_ne different _ _

theorem Unread.run {places : List π} {value : (π → ν) → ν} (unread : Unread places value)
    (within : targets list ⊆ places) : value (run list store) = value store :=
  unread _ _ fun _ outside => run_other fun inside => outside (within inside)

/-- Each target ends with the value that its assignment has in the first store. -/
theorem run_target (store : π → ν) (independent : Independent list) {assignment : Assignment π ν}
    (member : assignment ∈ list) : run list store assignment.target = assignment.value store := by
  obtain ⟨distinct,unread⟩ := independent
  obtain ⟨before,after,rfl⟩ := List.append_of_mem member
  have here := unread assignment member
  have cut : run (before ++ assignment :: after) store =
      run after (assign (run before store) assignment) := by
    rw [run,List.foldl_append,List.foldl_cons]
    rfl
  have later : assignment.target ∉ targets after := by
    rw [targets,List.map_append,List.nodup_append,List.map_cons,List.nodup_cons] at distinct
    exact distinct.2.1.1
  rw [cut,run_other later,assign,Function.update_self]
  apply here.run
  intro place inside
  rw [targets,List.map_append]
  exact List.mem_append_left _ inside

theorem run_perm (independent : Independent list) (same : list.Perm list') (store : π → ν) :
    run list store = run list' store := by
  funext place
  by_cases written : place ∈ targets list
  · obtain ⟨assignment,member,rfl⟩ := List.mem_map.mp written
    rw [run_target store independent member,
      run_target store (independent.perm same) (same.mem_iff.mp member)]
  · have also : place ∉ targets list' := fun inside =>
      written ((same.map Assignment.target).mem_iff.mpr inside)
    rw [run_other written,run_other also]

end HmclPe.Lib.Assignments
