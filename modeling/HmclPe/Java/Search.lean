import HmclPe.Java.Text

/-! Searching and cutting Java strings by index. An index counts characters here;
every index a caller uses comes from a search in the same text. -/
namespace HmclPe.Java.Text

/-- `String.indexOf` of a text: the first place it stands at. -/
def indexOf (s part : Text) : Int :=
  match s.tails.findIdx? part.isPrefixOf with
  | some i => i
  | none => -1

/-- `String.indexOf` of a character; a negative start is the start of the text. -/
def indexOfChar (s : Text) (c : Char) (fromIndex : Int) : Int :=
  match (s.drop fromIndex.toNat).findIdx? (· == c) with
  | some i => fromIndex.toNat + i
  | none => -1

/-- `String.substring`, without value where it throws. -/
def substring (s : Text) (beginIndex endIndex : Int) : Option Text :=
  if 0 ≤ beginIndex ∧ beginIndex ≤ endIndex ∧ endIndex ≤ s.length then
    some ((s.drop beginIndex.toNat).take (endIndex.toNat - beginIndex.toNat))
  else none

theorem indexOf_missing {s part : Text} (missing : ¬ part <:+: s) : s.indexOf part = -1 := by
  have none_ : s.tails.findIdx? part.isPrefixOf = none := by
    rw [List.findIdx?_eq_none_iff]
    intro tail member
    rw [List.mem_tails] at member
    rw [Bool.eq_false_iff]
    intro starts
    rw [List.isPrefixOf_iff_prefix] at starts
    exact missing (starts.isInfix.trans member.isInfix)
  rw [indexOf,none_]

theorem indexOf_found {s part : Text} (found : part <:+: s) :
    ∃ before after, s = before ++ part ++ after ∧ s.indexOf part = before.length := by
  cases searched : s.tails.findIdx? part.isPrefixOf with
  | none =>
    rw [List.findIdx?_eq_none_iff] at searched
    obtain ⟨before,after,whole⟩ := found
    have tail : part ++ after ∈ s.tails := by
      rw [List.mem_tails,← whole,List.append_assoc]
      apply List.suffix_append
    have refused := searched _ tail
    rw [Bool.eq_false_iff] at refused
    exact absurd (List.isPrefixOf_iff_prefix.mpr (List.prefix_append part after)) refused
  | some i =>
    obtain ⟨bound,starts,-⟩ := List.findIdx?_eq_some_iff_getElem.mp searched
    rw [List.length_tails] at bound
    rw [List.getElem_tails,List.isPrefixOf_iff_prefix] at starts
    obtain ⟨after,rest⟩ := starts
    refine ⟨s.take i,after,?_,?_⟩
    · rw [List.append_assoc,rest,List.take_append_drop]
    · rw [indexOf,searched,List.length_take,Nat.min_eq_left (by omega)]

theorem indexOfChar_after {c : Char} {between : Text} (before after : Text) (free : c ∉ between) :
    (before ++ between ++ c :: after).indexOfChar c before.length =
      (before.length + between.length : Nat) := by
  have rest : (before ++ between ++ c :: after).drop before.length = between ++ c :: after := by
    rw [List.append_assoc,List.drop_left]
  have found : (between ++ c :: after).findIdx? (· == c) = some between.length := by
    rw [List.findIdx?_append]
    have none_ : between.findIdx? (· == c) = none := by
      rw [List.findIdx?_eq_none_iff]
      intro d member
      rw [beq_eq_false_iff_ne]
      rintro rfl
      exact free member
    rw [none_,List.findIdx?_cons]
    simp
  rw [indexOfChar,Int.toNat_natCast,rest,found]
  simp

theorem substring_between (before between after : Text) :
    (before ++ between ++ after).substring before.length (before.length + between.length : Nat) =
      some between := by
  rw [substring,if_pos]
  · rw [Int.toNat_natCast,Int.toNat_natCast,List.append_assoc,List.drop_left,
      Nat.add_sub_cancel_left,List.take_left]
  · simp

theorem substring_negative (s : Text) {beginIndex : Int} (endIndex : Int) (negative : beginIndex < 0) :
    s.substring beginIndex endIndex = none := by
  rw [substring,if_neg]
  omega

end HmclPe.Java.Text
