import HmclPe.Java.Text

/-! The encoding of form data as `URLEncoder` and `URLDecoder` promise it, and an encoding
by UTF-8 that keeps the promise. -/
namespace HmclPe.Java

/-- `URLEncoder.encode` and `URLDecoder.decode` for one charset. `none` is the
exception for an illegal pattern. -/
structure UrlCoding where
  encode : Text → Text
  decode : Text → Option Text
  decode_encode : ∀ s, decode (encode s) = some s
  encode_nil : encode [] = []
  /-- Letters, digits, dots, hyphens, stars and underscores, plus signs and percents. -/
  encode_plain : ∀ s, ∀ c ∈ encode s, c.isAlphanum ∨ c ∈ ['.','-','*','_','+','%']

namespace UrlCoding

theorem encode_ne_nil (coding : UrlCoding) {s : Text} (some_ : s ≠ []) : coding.encode s ≠ [] := by
  intro empty
  have decoded := coding.decode_encode s
  rw [empty,← coding.encode_nil,coding.decode_encode] at decoded
  exact some_ (Option.some.inj decoded).symm

theorem encode_free (coding : UrlCoding) (s : Text) {c : Char} (other : c.isAlphanum = false)
    (no_mark : c ∉ ['.','-','*','_','+','%']) : c ∉ coding.encode s := by
  intro member
  rcases coding.encode_plain s c member with plain | mark
  · rw [other] at plain
    simp at plain
  · exact no_mark mark

section Utf8

def hexChar (n : Nat) : Char := if n < 10 then Char.ofNat (48 + n) else Char.ofNat (55 + n)

def hexDigit (c : Char) : Option Nat :=
  if 48 ≤ c.toNat ∧ c.toNat < 58 then some (c.toNat - 48)
  else if 65 ≤ c.toNat ∧ c.toNat < 71 then some (c.toNat - 55)
  else if 97 ≤ c.toNat ∧ c.toNat < 103 then some (c.toNat - 87)
  else none

def percent (b : UInt8) : Text := ['%',hexChar (b.toNat / 16),hexChar (b.toNat % 16)]

def plain (c : Char) : Bool := c.isAlphanum || c ∈ ['.','-','*','_']

def encodeChar (c : Char) : Text :=
  if plain c then [c] else if c = ' ' then ['+'] else (String.utf8EncodeChar c).flatMap percent

def decodeBytes : Text → Option (List UInt8)
  | [] => some []
  | c :: s =>
    if c = '%' then match s with
      | h :: l :: s => do
        let high ← hexDigit h
        let low ← hexDigit l
        (decodeBytes s).map (UInt8.ofNat (16 * high + low) :: ·)
      | _ => none
    else (decodeBytes s).map (String.utf8EncodeChar (if c = '+' then ' ' else c) ++ ·)

/-- Bytes that are no UTF-8, which Java replaces, are not decoded. -/
def decodeUtf8 (s : Text) : Option Text := do
  let bytes ← decodeBytes s
  let chars ← bytes.toByteArray.utf8Decode?
  return chars.toList

theorem hexDigit_hexChar {n : Nat} (bound : n < 16) : hexDigit (hexChar n) = some n := by
  interval_cases n <;> decide

theorem decodeBytes_cons {c : Char} (other : c ≠ '%') (s : Text) : decodeBytes (c :: s) =
    (decodeBytes s).map (String.utf8EncodeChar (if c = '+' then ' ' else c) ++ ·) := by
  match s with
  | [] => simp [decodeBytes,other]
  | [d] => simp [decodeBytes,other]
  | h :: l :: s => rw [decodeBytes,if_neg other]

theorem decodeBytes_percent (b : UInt8) (s : Text) :
    decodeBytes (percent b ++ s) = (decodeBytes s).map (b :: ·) := by
  have small : b.toNat < 256 := b.toNat_lt_size
  have high := @hexDigit_hexChar (b.toNat / 16) (by omega)
  have low := @hexDigit_hexChar (b.toNat % 16) (by omega)
  have whole : UInt8.ofNat (16 * (b.toNat / 16) + b.toNat % 16) = b := by
    rw [Nat.div_add_mod]
    exact UInt8.ofNat_toNat
  have cut : percent b ++ s = '%' :: hexChar (b.toNat / 16) :: hexChar (b.toNat % 16) :: s := rfl
  rw [cut,decodeBytes,if_pos rfl,high,low]
  exact congrArg (fun b => (decodeBytes s).map (b :: ·)) whole

theorem decodeBytes_percents (bytes : List UInt8) (s : Text) :
    decodeBytes (bytes.flatMap percent ++ s) = (decodeBytes s).map (bytes ++ ·) := by
  induction bytes with
  | nil => simp
  | cons b bytes ih =>
    rw [List.flatMap_cons,List.append_assoc,decodeBytes_percent,ih,Option.map_map]
    rfl

theorem decodeBytes_encodeChar (c : Char) (s : Text) :
    decodeBytes (encodeChar c ++ s) = (decodeBytes s).map (String.utf8EncodeChar c ++ ·) := by
  unfold encodeChar
  split
  · rename_i shown
    have no_plus : c ≠ '+' := by
      rintro rfl
      exact absurd shown (by decide)
    have no_percent : c ≠ '%' := by
      rintro rfl
      exact absurd shown (by decide)
    rw [List.singleton_append,decodeBytes_cons no_percent,if_neg no_plus]
  · split
    · rename_i blank
      rw [List.singleton_append,decodeBytes_cons (by decide),if_pos rfl,blank]
    · exact decodeBytes_percents _ s

theorem decodeBytes_encode (s : Text) :
    decodeBytes (s.flatMap encodeChar) = some (s.flatMap String.utf8EncodeChar) := by
  induction s with
  | nil => rfl
  | cons c s ih =>
    rw [List.flatMap_cons,decodeBytes_encodeChar,ih]
    rfl

theorem hexChar_isAlphanum {n : Nat} (bound : n < 16) : (hexChar n).isAlphanum = true := by
  interval_cases n <;> decide

theorem encodeChar_plain (c : Char) :
    ∀ d ∈ encodeChar c, d.isAlphanum ∨ d ∈ ['.','-','*','_','+','%'] := by
  intro d member
  unfold encodeChar at member
  split at member
  · rename_i shown
    obtain rfl := List.mem_singleton.mp member
    unfold plain at shown
    simp only [Bool.or_eq_true,decide_eq_true_eq] at shown
    rcases shown with letter | mark
    · exact Or.inl letter
    · exact Or.inr (List.mem_append_left ['+','%'] mark)
  · split at member
    · obtain rfl := List.mem_singleton.mp member
      exact Or.inr (by decide)
    · obtain ⟨b,_,inside⟩ := List.mem_flatMap.mp member
      have small : b.toNat < 256 := b.toNat_lt_size
      simp only [percent,List.mem_cons,List.not_mem_nil,or_false] at inside
      rcases inside with rfl | rfl | rfl
      · exact Or.inr (by decide)
      · exact Or.inl (hexChar_isAlphanum (by omega))
      · exact Or.inl (hexChar_isAlphanum (by omega))

def utf8 : UrlCoding where
  encode s := s.flatMap encodeChar
  decode := decodeUtf8
  decode_encode s := by
    have decoded := @List.utf8Decode?_utf8Encode s
    unfold List.utf8Encode at decoded
    unfold decodeUtf8
    rw [decodeBytes_encode,Option.bind_eq_bind,Option.bind_some,decoded]
    rfl
  encode_nil := rfl
  encode_plain s c member := by
    obtain ⟨d,_,inside⟩ := List.mem_flatMap.mp member
    exact encodeChar_plain d c inside

end Utf8

end UrlCoding

end HmclPe.Java
