import Mathlib.Data.List.Basic
import Mathlib.Tactic

/-! Removing list elements one at a time by a key. Each request takes the first
element that has the key, so only how often a key is requested matters. -/
namespace HmclPe.Lib.KeyedRemoval

variable {α κ : Type} [DecidableEq κ] (key : α → κ)

def removeFirst (l : List α) (k : κ) : List α := l.eraseP fun x => key x = k

def removeAll (l : List α) (requests : List κ) : List α := requests.foldl (removeFirst key) l

@[simp] theorem removeAll_nil (requests : List κ) : removeAll key ([] : List α) requests = [] := by
  induction requests with
  | nil => rfl
  | cons k rest ih => exact ih

theorem removeAll_append_requests (l : List α) (first second : List κ) :
    removeAll key l (first ++ second) = removeAll key (removeAll key l first) second :=
  List.foldl_append

theorem removeAll_cons (x : α) (l : List α) (requests : List κ) :
    removeAll key (x :: l) requests =
      if key x ∈ requests then removeAll key l (requests.erase (key x))
      else x :: removeAll key l requests := by
  induction requests generalizing l with
  | nil => rfl
  | cons k rest ih =>
    unfold removeAll removeFirst at ih ⊢
    rw [List.foldl_cons]
    by_cases same : key x = k
    · subst k
      simp
    · have later : key x ∈ k :: rest ↔ key x ∈ rest := by simp [same]
      rw [List.eraseP_cons_of_neg (by simpa using same),ih]
      have skipped : (k :: rest).erase (key x) = k :: rest.erase (key x) :=
        List.erase_cons_tail (by simpa using Ne.symm same)
      simp only [later,skipped,List.foldl_cons]

theorem removeAll_sublist (l : List α) (requests : List κ) : (removeAll key l requests).Sublist l := by
  induction requests generalizing l with
  | nil => exact List.Sublist.refl l
  | cons k rest ih => exact (ih (removeFirst key l k)).trans List.eraseP_sublist

theorem countP_removeAll (l : List α) (requests : List κ) (k : κ) :
    (removeAll key l requests).countP (fun x => key x = k) =
      l.countP (fun x => key x = k) - requests.count k := by
  induction l generalizing requests with
  | nil => simp
  | cons x rest ih =>
    rw [removeAll_cons,List.countP_cons]
    by_cases requested : key x ∈ requests
    · have positive : 0 < requests.count (key x) := List.count_pos_iff.mpr requested
      rw [if_pos requested,ih,List.count_erase]
      by_cases same : key x = k
      · simp only [same,decide_true,if_true,beq_self_eq_true] at positive ⊢
        omega
      · simp [same]
    · rw [if_neg requested,List.countP_cons,ih]
      by_cases same : key x = k
      · have none : requests.count k = 0 := List.count_eq_zero.mpr (same ▸ requested)
        simp [same,none]
      · simp [same]

theorem removeAll_of_forall_notMem {l : List α} {requests : List κ}
    (absent : ∀ x ∈ l, key x ∉ requests) : removeAll key l requests = l := by
  induction l with
  | nil => simp
  | cons x rest ih =>
    rw [removeAll_cons,if_neg (absent x (by simp)),ih]
    intro y member
    exact absent y (by simp [member])

/-- Enough requests for every requested key of the front, and none left for the back. -/
theorem removeAll_append (front back : List α) (requests : List κ)
    (enough : ∀ x ∈ front, key x ∈ requests →
      front.countP (fun y => key y = key x) ≤ requests.count (key x))
    (spared : ∀ x ∈ back, requests.count (key x) ≤ front.countP (fun y => key y = key x)) :
    removeAll key (front ++ back) requests =
      front.filter (fun x => key x ∉ requests) ++ back := by
  induction front generalizing requests with
  | nil =>
    apply removeAll_of_forall_notMem
    intro x member
    have none := spared x member
    rw [List.countP_nil,Nat.le_zero,List.count_eq_zero] at none
    exact none
  | cons x rest ih =>
    rw [List.cons_append,removeAll_cons]
    by_cases requested : key x ∈ requests
    · have counts (k : κ) : (requests.erase (key x)).count k =
          requests.count k - if key x = k then 1 else 0 := by
        rw [List.count_erase]
        simp
      have positive : 0 < requests.count (key x) := List.count_pos_iff.mpr requested
      rw [if_pos requested,ih]
      · rw [List.filter_cons_of_neg (by simpa using requested)]
        congr 1
        apply List.filter_congr
        intro y member
        by_cases same : key x = key y
        · have bound := enough x (by simp) requested
          have seen : 0 < rest.countP (fun z => key z = key x) :=
            List.countP_pos_iff.mpr ⟨y,member,by simp [same]⟩
          rw [List.countP_cons_of_pos (by simp)] at bound
          have left : key y ∈ requests.erase (key x) := by
            rw [← List.count_pos_iff,← same,counts,if_pos rfl]
            omega
          have before : key y ∈ requests := List.mem_of_mem_erase left
          simp [left,before]
        · simp [List.mem_erase_of_ne (Ne.symm same)]
      · intro y member inside
        have bound := enough y (by simp [member]) (List.mem_of_mem_erase inside)
        rw [List.countP_cons] at bound
        rw [counts]
        by_cases same : key x = key y <;> simp [same] at bound ⊢ <;> omega
      · intro y member
        have bound := spared y member
        rw [List.countP_cons] at bound
        rw [counts]
        by_cases same : key x = key y <;> simp [same] at bound ⊢ <;> omega
    · rw [if_neg requested,ih,List.filter_cons_of_pos (by simpa using requested),List.cons_append]
      · intro y member inside
        have bound := enough y (by simp [member]) inside
        rw [List.countP_cons] at bound
        omega
      · intro y member
        have bound := spared y member
        by_cases same : key x = key y
        · rw [← same,List.count_eq_zero.mpr requested]
          exact Nat.zero_le _
        · rwa [List.countP_cons_of_neg (by simpa using same)] at bound

end HmclPe.Lib.KeyedRemoval
