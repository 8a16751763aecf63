import HmclPe.Java.Text

/-! The UTF-16 code units of a text, by which `String.compareTo` orders. -/
namespace HmclPe.Java.Text

def charUnits (c : Char) : List Nat :=
  if c.toNat < 0x10000 then [c.toNat]
  else [0xd800 + (c.toNat - 0x10000) / 0x400,0xdc00 + (c.toNat - 0x10000) % 0x400]

def codeUnits (s : Text) : List Nat := s.flatMap charUnits

/-- A character is no surrogate. -/
theorem toNat_apart (c : Char) : c.toNat < 0xd800 ∨ 0xdfff < c.toNat ∧ c.toNat < 0x110000 := c.valid

theorem eq_of_charUnits {c d : Char} {rest rest' : List Nat}
    (same : charUnits c ++ rest = charUnits d ++ rest') : c = d ∧ rest = rest' := by
  have validC := toNat_apart c
  have validD := toNat_apart d
  have equal : c.toNat = d.toNat ∧ rest = rest' := by
    rw [charUnits,charUnits] at same
    split at same <;> split at same
    · obtain ⟨head,tail⟩ := List.cons.inj same
      exact ⟨head,tail⟩
    · obtain ⟨head,-⟩ := List.cons.inj same
      omega
    · obtain ⟨head,-⟩ := List.cons.inj same
      omega
    · obtain ⟨high,same⟩ := List.cons.inj same
      obtain ⟨low,tail⟩ := List.cons.inj same
      exact ⟨by omega,tail⟩
  exact ⟨Char.ext (UInt32.toNat_inj.mp equal.1),equal.2⟩

theorem codeUnits_injective : Function.Injective codeUnits := by
  intro s t same
  induction s generalizing t with
  | nil =>
    cases t with
    | nil => rfl
    | cons d t =>
      rw [codeUnits,codeUnits,List.flatMap_nil,List.flatMap_cons,charUnits] at same
      split at same <;> exact absurd same (by simp)
  | cons c s ih =>
    cases t with
    | nil =>
      rw [codeUnits,codeUnits,List.flatMap_nil,List.flatMap_cons,charUnits] at same
      split at same <;> exact absurd same (by simp)
    | cons d t =>
      rw [codeUnits,codeUnits,List.flatMap_cons,List.flatMap_cons] at same
      obtain ⟨rfl,rest⟩ := eq_of_charUnits same
      rw [ih rest]

end HmclPe.Java.Text
