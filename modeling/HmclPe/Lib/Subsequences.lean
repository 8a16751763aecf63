import Mathlib.Data.List.Sublists
import Mathlib.Data.Finset.Lattice.Fold
import Mathlib.Tactic

/-! The length of the longest common subsequences of two lists, and how it grows with the lists. -/
namespace HmclPe.Lib.Subsequences

/-- A part of a longer list leaves the last element out, or ends with it. -/
theorem sublist_concat_cases {α : Type} {a s : List α} {x : α}
    (inside : s.Sublist (a ++ [x])) :
    s.Sublist a ∨ ∃ t, s = t ++ [x] ∧ t.Sublist a := by
  obtain ⟨front,last,rfl,inFront,inLast⟩ := List.sublist_append_iff.mp inside
  rcases List.sublist_singleton.mp inLast with rfl | rfl
  · rw [List.append_nil]
    exact .inl inFront
  · exact .inr ⟨front,rfl,inFront⟩

variable {α : Type} [DecidableEq α]

def longestCommon (a b : List α) : Nat :=
  (a.sublists.toFinset.filter (List.Sublist · b)).sup List.length

variable {a b s : List α}

theorem length_le_longestCommon (inA : s.Sublist a) (inB : s.Sublist b) :
    s.length ≤ longestCommon a b := by
  apply Finset.le_sup (f := List.length)
  exact Finset.mem_filter.mpr ⟨List.mem_toFinset.mpr (List.mem_sublists.mpr inA),inB⟩

theorem longestCommon_le {n : Nat}
    (bound : ∀ s : List α, s.Sublist a → s.Sublist b → s.length ≤ n) : longestCommon a b ≤ n := by
  apply Finset.sup_le
  intro s member
  obtain ⟨listed,inB⟩ := Finset.mem_filter.mp member
  exact bound s (List.mem_sublists.mp (List.mem_toFinset.mp listed)) inB

theorem exists_longestCommon (a b : List α) :
    ∃ s : List α, s.Sublist a ∧ s.Sublist b ∧ s.length = longestCommon a b := by
  have some_ : (a.sublists.toFinset.filter (List.Sublist · b)).Nonempty := by
    refine ⟨[],Finset.mem_filter.mpr ⟨?_,List.nil_sublist b⟩⟩
    exact List.mem_toFinset.mpr (List.mem_sublists.mpr (List.nil_sublist a))
  obtain ⟨s,member,same⟩ := Finset.exists_mem_eq_sup _ some_ List.length
  obtain ⟨listed,inB⟩ := Finset.mem_filter.mp member
  exact ⟨s,List.mem_sublists.mp (List.mem_toFinset.mp listed),inB,same.symm⟩

theorem isGreatest_longestCommon (a b : List α) :
    IsGreatest {n | ∃ s : List α, s.Sublist a ∧ s.Sublist b ∧ s.length = n} (longestCommon a b) := by
  refine ⟨exists_longestCommon a b,?_⟩
  rintro n ⟨s,inA,inB,rfl⟩
  exact length_le_longestCommon inA inB

theorem longestCommon_le_left (a b : List α) : longestCommon a b ≤ a.length :=
  longestCommon_le fun _ inA _ => inA.length_le

theorem longestCommon_nil_left (b : List α) : longestCommon [] b = 0 :=
  Nat.le_zero.mp (longestCommon_le_left [] b)

theorem longestCommon_nil_right (a : List α) : longestCommon a [] = 0 :=
  Nat.le_zero.mp (longestCommon_le fun _ _ inB => inB.length_le)

theorem longestCommon_mono {a' b' : List α} (wider : a.Sublist a') (wider' : b.Sublist b') :
    longestCommon a b ≤ longestCommon a' b' :=
  longestCommon_le fun _ inA inB => length_le_longestCommon (inA.trans wider) (inB.trans wider')

theorem longestCommon_concat_same (a b : List α) (x : α) :
    longestCommon (a ++ [x]) (b ++ [x]) = 1 + longestCommon a b := by
  apply Nat.le_antisymm
  · apply longestCommon_le
    intro s inA inB
    rcases List.eq_nil_or_concat s with rfl | ⟨t,y,rfl⟩
    · exact Nat.zero_le _
    · rw [List.concat_eq_append] at inA inB ⊢
      have front : t.Sublist a ∧ t.Sublist b := by
        have cut : ∀ {c : List α}, (t ++ [y]).Sublist (c ++ [x]) → t.Sublist c := by
          intro c inside
          rcases sublist_concat_cases inside with early | ⟨u,same,early⟩
          · exact (List.sublist_append_left t [y]).trans early
          · obtain ⟨rfl,-⟩ := List.append_inj' same rfl
            exact early
        exact ⟨cut inA,cut inB⟩
      have bound := length_le_longestCommon front.1 front.2
      rw [List.length_append,List.length_singleton]
      omega
  · obtain ⟨s,inA,inB,length⟩ := exists_longestCommon a b
    have longer := length_le_longestCommon (inA.append_right [x]) (inB.append_right [x])
    rw [List.length_append,List.length_singleton,length] at longer
    omega

theorem longestCommon_concat_ne (a b : List α) {x y : α} (different : x ≠ y) :
    longestCommon (a ++ [x]) (b ++ [y]) =
      max (longestCommon a (b ++ [y])) (longestCommon (a ++ [x]) b) := by
  apply Nat.le_antisymm
  · apply longestCommon_le
    intro s inA inB
    rcases sublist_concat_cases inA with early | ⟨t,rfl,-⟩
    · exact (length_le_longestCommon early inB).trans (Nat.le_max_left _ _)
    · rcases sublist_concat_cases inB with early | ⟨u,same,-⟩
      · exact (length_le_longestCommon inA early).trans (Nat.le_max_right _ _)
      · obtain ⟨-,last⟩ := List.append_inj' same rfl
        exact absurd (List.cons.inj last).1 different
  · apply Nat.max_le.mpr
    exact ⟨longestCommon_mono (List.sublist_append_left a [x]) (List.Sublist.refl _),
      longestCommon_mono (List.Sublist.refl _) (List.sublist_append_left b [y])⟩

end HmclPe.Lib.Subsequences
