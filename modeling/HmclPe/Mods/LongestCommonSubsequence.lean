import HmclPe.Lib.Subsequences
import HmclPe.Versioning.VersionNumber

/-! The dynamic program for the longest common subsequence of two texts. One array serves all calls
and is never cleared; what an earlier call left behind is written over before it is read. -/
namespace HmclPe.Mods
open HmclPe.Lib.Subsequences HmclPe.Versioning

section Model

/-- The array has a row more than the first bound, and a column more than the second; that is none
where the bound is -1. -/
structure LongestCommonSubsequence where
  f : Nat → Nat → Nat
  maxLengthA : Int
  maxLengthB : Int

namespace LongestCommonSubsequence

def new (maxLengthA maxLengthB : Int) : LongestCommonSubsequence :=
  ⟨fun _ _ => 0,maxLengthA,maxLengthB⟩

variable (lcs : LongestCommonSubsequence)

/-- None is an access outside of the array. -/
def get (i j : Nat) : Option Nat :=
  if i ≤ lcs.maxLengthA ∧ j ≤ lcs.maxLengthB then some (lcs.f i j) else none

def set (i j value : Nat) : Option LongestCommonSubsequence :=
  if i ≤ lcs.maxLengthA ∧ j ≤ lcs.maxLengthB then
    some {lcs with f := Function.update lcs.f i (Function.update (lcs.f i) j value)}
  else none

def calcCell (a b : JavaString) (i : Nat) (lcs : LongestCommonSubsequence) (j : Nat) :
    Option LongestCommonSubsequence := do
  let charA ← a[i - 1]?
  let charB ← b[j - 1]?
  if charA = charB then lcs.set i j (1 + (← lcs.get (i - 1) (j - 1)))
  else lcs.set i j (max (← lcs.get (i - 1) j) (← lcs.get i (j - 1)))

def calcRow (a b : JavaString) (lcs : LongestCommonSubsequence) (i : Nat) :
    Option LongestCommonSubsequence :=
  (List.range' 1 b.length).foldlM (calcCell a b i) lcs

/-- `calc`: the value and the array after the call; none is the exception. -/
def calculate (a b : JavaString) : Option (Nat × LongestCommonSubsequence) := do
  if a.length > lcs.maxLengthA ∨ b.length > lcs.maxLengthB then none
  else
    let lcs ← (List.range' 1 a.length).foldlM (calcRow a b) lcs
    return (← lcs.get a.length b.length,lcs)

end LongestCommonSubsequence

end Model

namespace LongestCommonSubsequence

/-- Nothing is ever written to the first row and the first column. -/
structure Bordered (lcs : LongestCommonSubsequence) : Prop where
  row : ∀ j, lcs.f 0 j = 0
  column : ∀ i, lcs.f i 0 = 0

structure SameSize (lcs lcs' : LongestCommonSubsequence) : Prop where
  a : lcs'.maxLengthA = lcs.maxLengthA
  b : lcs'.maxLengthB = lcs.maxLengthB

variable {lcs lcs' lcs'' : LongestCommonSubsequence} {a b : JavaString} {i j : Nat}

theorem SameSize.trans (first : SameSize lcs lcs') (second : SameSize lcs' lcs'') :
    SameSize lcs lcs'' :=
  ⟨second.a.trans first.a,second.b.trans first.b⟩

theorem new_bordered (maxLengthA maxLengthB : Int) : Bordered (new maxLengthA maxLengthB) :=
  ⟨fun _ => rfl,fun _ => rfl⟩

theorem get_inside (inA : (i : Int) ≤ lcs.maxLengthA) (inB : (j : Int) ≤ lcs.maxLengthB) :
    lcs.get i j = some (lcs.f i j) := if_pos ⟨inA,inB⟩

def put (lcs : LongestCommonSubsequence) (i j value : Nat) : LongestCommonSubsequence :=
  {lcs with f := Function.update lcs.f i (Function.update (lcs.f i) j value)}

theorem set_inside (inA : (i : Int) ≤ lcs.maxLengthA) (inB : (j : Int) ≤ lcs.maxLengthB)
    (value : Nat) : lcs.set i j value = some (lcs.put i j value) := if_pos ⟨inA,inB⟩

theorem put_self (value : Nat) : (lcs.put i j value).f i j = value := by
  simp only [put,Function.update_self]

theorem put_other {i' j' : Nat} (value : Nat) (other : i' ≠ i ∨ j' ≠ j) :
    (lcs.put i j value).f i' j' = lcs.f i' j' := by
  simp only [put]
  by_cases row : i' = i
  · subst row
    have column : j' ≠ j := other.resolve_left fun different => different rfl
    rw [Function.update_self,Function.update_of_ne column]
  · rw [Function.update_of_ne row]

def part (a b : JavaString) (i j : Nat) : Nat := longestCommon (a.take i) (b.take j)

theorem part_zero_left (a b : JavaString) (j : Nat) : part a b 0 j = 0 := longestCommon_nil_left _

theorem part_zero_right (a b : JavaString) (i : Nat) : part a b i 0 = 0 := longestCommon_nil_right _

theorem part_succ (inA : i < a.length) (inB : j < b.length) :
    part a b (i + 1) (j + 1) =
      if a[i] = b[j] then 1 + part a b i j else max (part a b i (j + 1)) (part a b (i + 1) j) := by
  rw [part,part,part,part,List.take_succ_eq_append_getElem inA,List.take_succ_eq_append_getElem inB]
  split
  · next same =>
    rw [same]
    exact longestCommon_concat_same _ _ _
  · next different => exact longestCommon_concat_ne _ _ different

/-- All rows up to one are solved, and the next one up to a column. -/
structure Solved (a b : JavaString) (i j : Nat) (lcs : LongestCommonSubsequence) : Prop where
  bordered : Bordered lcs
  rows : ∀ i' ≤ i, ∀ j' ≤ b.length, lcs.f i' j' = part a b i' j'
  next : ∀ j' ≤ j, lcs.f (i + 1) j' = part a b (i + 1) j'

theorem calcCell_eq (fitsA : (a.length : Int) ≤ lcs.maxLengthA)
    (fitsB : (b.length : Int) ≤ lcs.maxLengthB) (inA : i < a.length) (inB : j < b.length) :
    calcCell a b (i + 1) lcs (j + 1) = some (lcs.put (i + 1) (j + 1)
      (if a[i] = b[j] then 1 + lcs.f i j else max (lcs.f i (j + 1)) (lcs.f (i + 1) j))) := by
  have charA : a[i + 1 - 1]? = some a[i] := List.getElem?_eq_getElem inA
  have charB : b[j + 1 - 1]? = some b[j] := List.getElem?_eq_getElem inB
  have row : ((i + 1 : Nat) : Int) ≤ lcs.maxLengthA := by omega
  have column : ((j + 1 : Nat) : Int) ≤ lcs.maxLengthB := by omega
  have row' : ((i : Nat) : Int) ≤ lcs.maxLengthA := by omega
  have column' : ((j : Nat) : Int) ≤ lcs.maxLengthB := by omega
  rw [calcCell,charA,charB,Option.bind_eq_bind,Option.bind_some,Option.bind_eq_bind,
    Option.bind_some,Nat.add_sub_cancel,Nat.add_sub_cancel,get_inside row' column',
    get_inside row' column,get_inside row column']
  split
  · exact set_inside row column _
  · exact set_inside row column _

theorem calcCell_solved (fitsA : (a.length : Int) ≤ lcs.maxLengthA)
    (fitsB : (b.length : Int) ≤ lcs.maxLengthB) (inA : i < a.length) (inB : j < b.length)
    (solved : Solved a b i j lcs) :
    ∃ lcs', calcCell a b (i + 1) lcs (j + 1) = some lcs' ∧ SameSize lcs lcs' ∧
      Solved a b i (j + 1) lcs' := by
  obtain ⟨⟨row,column⟩,rows,next⟩ := solved
  refine ⟨_,calcCell_eq fitsA fitsB inA inB,⟨rfl,rfl⟩,?_⟩
  rw [rows i le_rfl j inB.le,rows i le_rfl (j + 1) inB,next j le_rfl,← part_succ inA inB]
  refine ⟨⟨?_,?_⟩,?_,?_⟩
  · intro j'
    rw [put_other _ (.inl (by omega))]
    exact row j'
  · intro i'
    rw [put_other _ (.inr (by omega))]
    exact column i'
  · intro i' above j' inside
    rw [put_other _ (.inl (by omega))]
    exact rows i' above j' inside
  · intro j' inside
    by_cases last : j' = j + 1
    · subst last
      exact put_self _
    · rw [put_other _ (.inr last)]
      exact next j' (by omega)

theorem calcRow_solved (fitsA : (a.length : Int) ≤ lcs.maxLengthA)
    (fitsB : (b.length : Int) ≤ lcs.maxLengthB) (inA : i < a.length)
    (solved : Solved a b i 0 lcs) (n : Nat) (inB : n ≤ b.length) :
    ∃ lcs', (List.range' 1 n).foldlM (calcCell a b (i + 1)) lcs = some lcs' ∧ SameSize lcs lcs' ∧
      Solved a b i n lcs' := by
  induction n with
  | zero => exact ⟨lcs,rfl,⟨rfl,rfl⟩,solved⟩
  | succ n ih =>
    obtain ⟨between,done,same,solved⟩ := ih (Nat.le_of_succ_le inB)
    obtain ⟨lcs',cell,same',solved'⟩ := calcCell_solved (same.a ▸ fitsA) (same.b ▸ fitsB) inA inB solved
    refine ⟨lcs',?_,same.trans same',solved'⟩
    rw [List.range'_1_concat,List.foldlM_append,done,Option.bind_eq_bind,Option.bind_some,
      Nat.add_comm 1 n,List.foldlM_cons,cell]
    rfl

/-- A row that is solved to its end is a solved row. -/
theorem Solved.nextRow (solved : Solved a b i b.length lcs) : Solved a b (i + 1) 0 lcs := by
  obtain ⟨bordered,rows,next⟩ := solved
  refine ⟨bordered,?_,?_⟩
  · intro i' above j' inside
    rcases Nat.le_succ_iff.mp above with earlier | rfl
    · exact rows i' earlier j' inside
    · exact next j' inside
  · intro j' first
    obtain rfl := Nat.le_zero.mp first
    rw [bordered.column,part_zero_right]

theorem Bordered.solved (bordered : Bordered lcs) (a b : JavaString) : Solved a b 0 0 lcs := by
  refine ⟨bordered,?_,?_⟩
  · intro i' above j' _
    obtain rfl := Nat.le_zero.mp above
    rw [bordered.row,part_zero_left]
  · intro j' first
    obtain rfl := Nat.le_zero.mp first
    rw [bordered.column,part_zero_right]

theorem calcRows_solved (fitsA : (a.length : Int) ≤ lcs.maxLengthA)
    (fitsB : (b.length : Int) ≤ lcs.maxLengthB) (bordered : Bordered lcs) (n : Nat)
    (inA : n ≤ a.length) :
    ∃ lcs', (List.range' 1 n).foldlM (calcRow a b) lcs = some lcs' ∧ SameSize lcs lcs' ∧
      Solved a b n 0 lcs' := by
  induction n with
  | zero => exact ⟨lcs,rfl,⟨rfl,rfl⟩,bordered.solved a b⟩
  | succ n ih =>
    obtain ⟨between,done,same,solved⟩ := ih (Nat.le_of_succ_le inA)
    obtain ⟨lcs',row,same',solved'⟩ := calcRow_solved (same.a ▸ fitsA) (same.b ▸ fitsB) inA solved
      b.length le_rfl
    refine ⟨lcs',?_,same.trans same',solved'.nextRow⟩
    rw [List.range'_1_concat,List.foldlM_append,done,Option.bind_eq_bind,Option.bind_some,
      Nat.add_comm 1 n,List.foldlM_cons,calcRow,row]
    rfl

/-- Texts that fit into the array have the length of their longest common subsequence computed,
whatever earlier calls left in the array. -/
theorem calculate_eq (fitsA : (a.length : Int) ≤ lcs.maxLengthA)
    (fitsB : (b.length : Int) ≤ lcs.maxLengthB)
    (bordered : Bordered lcs) :
    ∃ lcs', lcs.calculate a b = some (longestCommon a b,lcs') ∧ SameSize lcs lcs' ∧ Bordered lcs' := by
  obtain ⟨lcs',done,same,solved⟩ := calcRows_solved fitsA fitsB bordered a.length le_rfl
  have value : lcs'.get a.length b.length = some (longestCommon a b) := by
    rw [get_inside (same.a ▸ fitsA) (same.b ▸ fitsB),solved.rows _ le_rfl _ le_rfl,part,
      List.take_length,List.take_length]
  refine ⟨lcs',?_,same,solved.bordered⟩
  rw [calculate,if_neg (by omega),done,Option.bind_eq_bind,Option.bind_some,value]
  rfl

end LongestCommonSubsequence

end HmclPe.Mods
