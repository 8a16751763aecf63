import HmclPe.Java.Text
import HmclPe.Lib.Numerals

/-! UUIDs as the launcher writes them, without hyphens. -/
namespace HmclPe.Auth
open HmclPe.Java HmclPe.Lib.Numerals

/-- `java.util.UUID`. -/
structure UUID where
  mostSigBits : BitVec 64
  leastSigBits : BitVec 64
deriving DecidableEq

/-- `Character.digit` in base sixteen. -/
def hexDigit (c : Char) : Option Nat :=
  if '0' ≤ c ∧ c ≤ '9' then some (c.toNat - 48)
  else if 'a' ≤ c ∧ c ≤ 'f' then some (c.toNat - 87)
  else if 'A' ≤ c ∧ c ≤ 'F' then some (c.toNat - 55)
  else none

/-- `Long.decode` behind the mark of base sixteen; `none` is a `NumberFormatException`. -/
def decode (digits : Text) : Option (BitVec 64) := do
  if digits = [] then none
  let n ← read 16 hexDigit digits
  if n < 2 ^ 63 then some (BitVec.ofNat 64 n) else none

namespace UUID

def digits (val : Nat) (count : Nat) : Text := write 16 Nat.digitChar count val

def toString (uuid : UUID) : Text :=
  let most := uuid.mostSigBits.toNat
  let least := uuid.leastSigBits.toNat
  digits (most / 2 ^ 32) 8 ++ '-' :: digits (most / 2 ^ 16) 4 ++ '-' :: digits most 4 ++
    '-' :: digits (least / 2 ^ 48) 4 ++ '-' :: digits least 12

/-- `none` is an `IllegalArgumentException`. -/
def fromString (name : Text) : Option UUID :=
  match name.split '-' with
  | [first,second,third,fourth,fifth] => do
    let most ← decode first
    let more ← decode second
    let most := most <<< 16 ||| more
    let more ← decode third
    let most := most <<< 16 ||| more
    let least ← decode fourth
    let more ← decode fifth
    return ⟨most,least <<< 48 ||| more⟩
  | _ => none

end UUID

namespace UUIDTypeAdapter

def fromUUID (value : UUID) : Text := Text.replace ['-'] [] value.toString

/-- A word character of a pattern. -/
def isWord (c : Char) : Bool := c.isAlphanum || c = '_'

/-- The five groups of a match with hyphens between them. -/
def hyphenated (word : Text) : Text :=
  word.take 8 ++ '-' :: (word.drop 8).take 4 ++ '-' :: (word.drop 12).take 4 ++
    '-' :: (word.drop 16).take 4 ++ '-' :: word.drop 20

/-- `replaceFirst` of thirty-two word characters. -/
def insertHyphens : Text → Text
  | [] => []
  | c :: input =>
    let word := (c :: input).take 32
    if word.length = 32 ∧ word.all isWord then hyphenated word ++ (c :: input).drop 32
    else c :: insertHyphens input

def fromString (input : Text) : Option UUID := UUID.fromString (insertHyphens input)

end UUIDTypeAdapter

section Digits

theorem hexDigit_digitChar : ∀ d < 16, hexDigit (Nat.digitChar d) = some d := by decide

def hexDigits : List Char := ("0123456789abcdef" : String).toList

theorem digitChar_mem : ∀ d < 16, Nat.digitChar d ∈ hexDigits := by decide

theorem mem_digits {val count : Nat} {c : Char} (member : c ∈ UUID.digits val count) :
    c ∈ hexDigits := by
  obtain ⟨d,small,rfl⟩ := mem_write (by omega) member
  exact digitChar_mem d small

@[simp] theorem length_digits (val count : Nat) : (UUID.digits val count).length = count :=
  length_write count val

theorem decode_digits {val count : Nat} (some_ : 0 < count) (short : 4 * count < 64) :
    decode (UUID.digits val count) = some (BitVec.ofNat 64 (val % 16 ^ count)) := by
  have present : UUID.digits val count ≠ [] := by
    apply List.ne_nil_of_length_pos
    rw [length_digits]
    exact some_
  have parsed : read 16 hexDigit (UUID.digits val count) = some (val % 16 ^ count) :=
    read_write hexDigit_digitChar (by omega) count val
  have inside : val % 16 ^ count < 2 ^ 63 := by
    calc val % 16 ^ count < 16 ^ count := Nat.mod_lt val (by positivity)
      _ = 2 ^ (4 * count) := by rw [Nat.pow_mul]
      _ ≤ 2 ^ 63 := Nat.pow_le_pow_right (by omega) (by omega)
  rw [decode,if_neg present]
  simp only [Option.bind_eq_bind]
  rw [parsed,Option.bind_some,if_pos inside]

theorem hyphen_free {val count : Nat} : '-' ∉ UUID.digits val count :=
  fun member => absurd (mem_digits member) (by decide)

end Digits

section RoundTrip

/-- Bits that are cut off below are put back under the ones above. -/
theorem shifted_or {w : Nat} (x : BitVec w) (high low : Nat) :
    BitVec.ofNat w (x.toNat / 2 ^ low % 2 ^ high) =
      (x.extractLsb' low high).setWidth w := by
  apply BitVec.eq_of_toNat_eq
  rw [BitVec.toNat_ofNat,BitVec.toNat_setWidth,BitVec.extractLsb'_toNat,Nat.shiftRight_eq_div_pow]

theorem most_restored (x : BitVec 64) :
    ((x.extractLsb' 32 32).setWidth 64 <<< 16 ||| (x.extractLsb' 16 16).setWidth 64) <<< 16 |||
      (x.extractLsb' 0 16).setWidth 64 = x := by
  ext i bound
  simp only [BitVec.getElem_or,BitVec.getElem_shiftLeft,BitVec.getElem_setWidth,
    BitVec.getLsbD_extractLsb']
  grind

theorem least_restored (x : BitVec 64) :
    (x.extractLsb' 48 16).setWidth 64 <<< 48 ||| (x.extractLsb' 0 48).setWidth 64 = x := by
  ext i bound
  simp only [BitVec.getElem_or,BitVec.getElem_shiftLeft,BitVec.getElem_setWidth,
    BitVec.getLsbD_extractLsb']
  grind

theorem split_pieces {pieces : List Text} (two : 2 ≤ pieces.length)
    (free : ∀ piece ∈ pieces, '-' ∉ piece) (shown : ∀ piece ∈ pieces, piece ≠ []) :
    Text.split '-' (['-'].intercalate pieces) = pieces := by
  have some_ : pieces ≠ [] := List.ne_nil_of_length_pos (by omega)
  have cut : (['-'].intercalate pieces).splitOn '-' = pieces :=
    List.splitOn_intercalate '-' free some_
  have present : '-' ∈ ['-'].intercalate pieces := by
    by_contra absent
    have whole := List.splitOn_eq_singleton absent
    rw [cut] at whole
    rw [whole] at two
    simp at two
  rw [Text.split,if_pos present,cut,List.rdropWhile_eq_self_iff]
  intro nonempty empty
  exact shown _ (List.getLast_mem nonempty) (List.isEmpty_iff.mp empty)

namespace UUID

def pieces (uuid : UUID) : List Text :=
  let most := uuid.mostSigBits.toNat
  let least := uuid.leastSigBits.toNat
  [digits (most / 2 ^ 32) 8,digits (most / 2 ^ 16) 4,digits most 4,digits (least / 2 ^ 48) 4,
    digits least 12]

theorem toString_eq (uuid : UUID) : uuid.toString = ['-'].intercalate uuid.pieces := by
  simp [toString,pieces,List.intercalate]

theorem split_toString (uuid : UUID) : uuid.toString.split '-' = uuid.pieces := by
  rw [toString_eq]
  apply split_pieces
  · simp [pieces]
  · intro piece member
    simp only [pieces,List.mem_cons,List.not_mem_nil,or_false] at member
    rcases member with rfl | rfl | rfl | rfl | rfl <;> exact hyphen_free
  · intro piece member empty
    have length := congrArg List.length empty
    simp only [pieces,List.mem_cons,List.not_mem_nil,or_false] at member
    rcases member with rfl | rfl | rfl | rfl | rfl <;> simp at length

theorem fromString_toString (uuid : UUID) : fromString uuid.toString = some uuid := by
  obtain ⟨most,least⟩ := uuid
  have first := @decode_digits (most.toNat / 2 ^ 32) 8 (by omega) (by omega)
  have second := @decode_digits (most.toNat / 2 ^ 16) 4 (by omega) (by omega)
  have third := @decode_digits most.toNat 4 (by omega) (by omega)
  have fourth := @decode_digits (least.toNat / 2 ^ 48) 4 (by omega) (by omega)
  have fifth := @decode_digits least.toNat 12 (by omega) (by omega)
  have upper := most_restored most
  have lower := least_restored least
  simp only [← shifted_or,Nat.pow_zero,Nat.div_one] at upper lower
  rw [fromString,split_toString,pieces]
  simp only [first,second,third,fourth,fifth,Option.bind_eq_bind,Option.bind_some,Option.pure_def]
  norm_num at upper lower ⊢
  rw [upper,lower]
  exact ⟨rfl,rfl⟩

end UUID

namespace UUIDTypeAdapter

theorem replace_hyphens (s : Text) : Text.replace ['-'] [] s = s.filter (· ≠ '-') := by
  unfold Text.replace
  induction s with
  | nil => rfl
  | cons c s ih =>
    rw [Text.replaceFrom]
    by_cases hyphen : c = '-'
    · subst hyphen
      simpa using ih
    · have other : List.isPrefixOf ['-'] (c :: s) = false := by
        rw [List.isPrefixOf_cons_cons,beq_eq_false_iff_ne.mpr (Ne.symm hyphen),Bool.false_and]
      rw [other,List.filter_cons_of_pos (by simpa using hyphen),ih]
      rfl

theorem fromUUID_eq (value : UUID) : fromUUID value = value.pieces.flatten := by
  have kept {val count : Nat} : (UUID.digits val count).filter (· ≠ '-') = UUID.digits val count := by
    rw [List.filter_eq_self]
    intro c member
    apply decide_eq_true
    rintro rfl
    exact hyphen_free member
  rw [fromUUID,replace_hyphens,UUID.toString]
  simp only [List.filter_append,List.filter_cons,kept]
  simp [UUID.pieces]

@[simp] theorem length_fromUUID (value : UUID) : (fromUUID value).length = 32 := by
  simp [fromUUID_eq,UUID.pieces]

theorem mem_fromUUID {value : UUID} {c : Char} (member : c ∈ fromUUID value) : c ∈ hexDigits := by
  rw [fromUUID_eq] at member
  simp only [UUID.pieces,List.flatten_cons,List.flatten_nil,List.append_nil,
    List.mem_append] at member
  rcases member with first | second | third | fourth | fifth
  · exact mem_digits first
  · exact mem_digits second
  · exact mem_digits third
  · exact mem_digits fourth
  · exact mem_digits fifth

theorem insertHyphens_fromUUID (value : UUID) : insertHyphens (fromUUID value) = value.toString := by
  have words : (fromUUID value).all isWord = true := by
    rw [List.all_eq_true]
    intro c member
    have word : hexDigits.all isWord = true := rfl
    exact List.all_eq_true.mp word c (mem_fromUUID member)
  have length := length_fromUUID value
  have whole : hyphenated (fromUUID value) = value.toString := by
    rw [fromUUID_eq]
    simp [hyphenated,UUID.pieces,UUID.toString,List.drop_append,List.drop_of_length_le]
  cases written : fromUUID value with
  | nil => simp [written] at length
  | cons c rest =>
    rw [written] at words length whole
    rw [insertHyphens,List.take_of_length_le (by omega),if_pos ⟨length,words⟩,whole,
      List.drop_of_length_le (by omega),List.append_nil]

/-- What is written without hyphens is read back. -/
theorem fromString_fromUUID (value : UUID) : fromString (fromUUID value) = some value := by
  rw [fromString,insertHyphens_fromUUID,UUID.fromString_toString]

end UUIDTypeAdapter

end RoundTrip

end HmclPe.Auth
