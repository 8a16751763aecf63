import HmclPe.N2n.Speck

/-! The checksum that n2n takes of a whole packet, and what cannot change without changing it. -/
namespace HmclPe.N2n
open Lib.Mixing Function

namespace Pearson
open Speck

def permute64 (word : Word) : Word :=
  let word := word ^^^ word >>> 30
  let word := word * 0xbf58476d1ce4e5b9
  let word := word ^^^ word >>> 27
  let word := word * 0x94d049bb133111eb
  word ^^^ word >>> 31

def dec1 (word : Word) : Word := word - 1

def hashRound (hash1 word : Word) : Word := permute64 (dec1 (hash1 ^^^ word))

/-- Whole words, and the bytes that are left. -/
def digestWords (hash1 : Word) (bytes : List Byte) : Word × List Byte :=
  if 7 < bytes.length then digestWords (hashRound hash1 (load bytes 0)) (bytes.drop 8)
  else (hash1,bytes)
termination_by bytes.length

def digestByte (hash1 : Word) (byte : Byte) : Word := hashRound hash1 (byte.setWidth 64)

def hash64 (bytes : List Byte) : Word :=
  let (hash1,rest) := digestWords 0 bytes
  let hash1 := ~~~hash1
  let hash1 := rest.foldl digestByte hash1
  let hash1 := ~~~hash1
  hashRound hash1 (BitVec.ofNat 64 bytes.length)

theorem permute64_bijective : Bijective permute64 := by
  have unit : (0x96de1b173f119089 : Word) * 0xbf58476d1ce4e5b9 = 1 := by decide
  have unit' : (0x319642b2d24d8ec3 : Word) * 0x94d049bb133111eb = 1 := by decide
  have first : Bijective fun x : Word => x * 0xbf58476d1ce4e5b9 := mul_bijective unit
  have second : Bijective fun x : Word => x * 0x94d049bb133111eb := mul_bijective unit'
  exact (xorShift_bijective (by decide)).comp (second.comp
    ((xorShift_bijective (by decide)).comp (first.comp (xorShift_bijective (by decide)))))

theorem dec1_bijective : Bijective dec1 := by
  apply bijective_iff_has_inverse.mpr
  refine ⟨fun x => x + 1,?_,?_⟩
  · intro x
    exact BitVec.sub_add_cancel x 1
  · intro x
    exact BitVec.add_sub_cancel x 1

theorem hashRound_lossless : Lossless hashRound where
  state word := permute64_bijective.comp (dec1_bijective.comp (xor_bijective word))
  block hash1 := permute64_bijective.comp (dec1_bijective.comp (xor_bijective_right hash1))

theorem digestByte_injective (hash1 : Word) : Injective (digestByte hash1) := by
  intro b c equal
  have words := (hashRound_lossless.block hash1).injective equal
  have bytes := congrArg (BitVec.setWidth 8) words
  simpa using bytes

theorem digestBytes_bijective (bytes : List Byte) :
    Bijective fun hash1 => bytes.foldl digestByte hash1 := by
  induction bytes with
  | nil => exact bijective_id
  | cons b bytes ih => exact ih.comp (hashRound_lossless.state (b.setWidth 64))

theorem not_bijective : Bijective fun word : Word => ~~~word := by
  apply Involutive.bijective
  intro word
  exact BitVec.not_not

/-- The hash of what is left of a packet of some length. -/
def hashFrom (hash1 : Word) (bytes : List Byte) (length : Nat) : Word :=
  hashRound (~~~((digestWords hash1 bytes).2.foldl digestByte (~~~(digestWords hash1 bytes).1)))
    (BitVec.ofNat 64 length)

theorem digestWords_word (hash1 : Word) {word : List Byte} (size : word.length = 8)
    (rest : List Byte) :
    digestWords hash1 (word ++ rest) =
      digestWords (hashRound hash1 (littleEndian 64 word)) rest := by
  have whole : 7 < (word ++ rest).length := by
    rw [List.length_append,size]
    omega
  rw [digestWords,if_pos whole,load,List.drop_zero,List.take_left' size,List.drop_left' size]

/-- What is left does not depend on the hash, and the hash is never forgotten. -/
theorem digestWords_state (bytes : List Byte) :
    (∀ h h', (digestWords h bytes).2 = (digestWords h' bytes).2) ∧
      Injective fun h => (digestWords h bytes).1 := by
  by_cases whole : 7 < bytes.length
  · have step (h : Word) : digestWords h bytes =
        digestWords (hashRound h (load bytes 0)) (bytes.drop 8) := by
      rw [digestWords,if_pos whole]
    obtain ⟨rest,state⟩ := digestWords_state (bytes.drop 8)
    simp only [step]
    exact ⟨fun h h' => rest _ _,state.comp (hashRound_lossless.state (load bytes 0)).injective⟩
  · have stop (h : Word) : digestWords h bytes = (h,bytes) := by
      rw [digestWords,if_neg whole]
    simp only [stop,implies_true,true_and]
    exact injective_id
termination_by bytes.length
decreasing_by
  rw [List.length_drop]
  omega

theorem hashFrom_injective (bytes : List Byte) (length : Nat) :
    Injective fun hash1 => hashFrom hash1 bytes length := by
  intro h h' equal
  obtain ⟨rest,state⟩ := digestWords_state bytes
  have last := (hashRound_lossless.state (BitVec.ofNat 64 length)).injective equal
  have bytes := not_bijective.injective last
  rw [rest h h'] at bytes
  exact state (not_bijective.injective ((digestBytes_bijective _).injective bytes))

theorem digestWords_append (hash1 : Word) {before : List Byte} {n : Nat}
    (aligned : before.length = 8 * n) (rest : List Byte) :
    digestWords hash1 (before ++ rest) = digestWords (digestWords hash1 before).1 rest := by
  induction n generalizing hash1 before with
  | zero =>
    obtain rfl := List.length_eq_zero_iff.mp aligned
    rw [digestWords.eq_def hash1 [],if_neg (by decide),List.nil_append]
  | succ n ih =>
    have first : (before.take 8).length = 8 := List.length_take_of_le (by omega)
    have later : (before.drop 8).length = 8 * n := by
      rw [List.length_drop]
      omega
    rw [← List.take_append_drop 8 before,List.append_assoc,digestWords_word _ first,
      digestWords_word _ first,ih _ later]

/-- Bytes that do not fill a word. -/
theorem hashFrom_short (hash1 : Word) {bytes : List Byte} (short : bytes.length < 8)
    (length : Nat) : hashFrom hash1 bytes length =
      hashRound (~~~(bytes.foldl digestByte (~~~hash1))) (BitVec.ofNat 64 length) := by
  have stop : digestWords hash1 bytes = (hash1,bytes) := by
    rw [digestWords,if_neg (by omega)]
  rw [hashFrom,stop]

/-- Two packets of one length that differ in a word, or in one of the bytes behind the words. -/
inductive Differ : List Byte → List Byte → Prop
  | word {n : Nat} {before u v after : List Byte} (aligned : before.length = 8 * n)
      (size : u.length = 8) (size' : v.length = 8) (ne : u ≠ v) :
      Differ (before ++ (u ++ after)) (before ++ (v ++ after))
  | byte {n : Nat} {before front back : List Byte} {b c : Byte} (aligned : before.length = 8 * n)
      (short : front.length + back.length < 7) (ne : b ≠ c) :
      Differ (before ++ (front ++ b :: back)) (before ++ (front ++ c :: back))

theorem Differ.length {p q : List Byte} (differ : Differ p q) : p.length = q.length := by
  cases differ with
  | word aligned size size' ne => simp only [List.length_append,size,size']
  | byte aligned short ne => simp only [List.length_append,List.length_cons]

theorem hash64_append {before : List Byte} {n : Nat} (aligned : before.length = 8 * n)
    (rest : List Byte) : hash64 (before ++ rest) =
      hashFrom (digestWords 0 before).1 rest (before ++ rest).length := by
  rw [hashFrom,← digestWords_append 0 aligned]
  rfl

/-- The checksum tells the two apart. -/
theorem Differ.hash64_ne {p q : List Byte} (differ : Differ p q) : hash64 p ≠ hash64 q := by
  have sizes := differ.length
  cases differ with
  | @word n before u v after aligned size size' ne =>
    rw [hash64_append aligned,hash64_append aligned,sizes]
    intro equal
    unfold hashFrom at equal
    rw [digestWords_word _ size,digestWords_word _ size'] at equal
    have words := (hashRound_lossless.block _).injective (hashFrom_injective after _ equal)
    exact ne (littleEndian_inj (size.trans size'.symm) (by omega) words)
  | @byte n before front back b c aligned short ne =>
    rw [hash64_append aligned,hash64_append aligned,sizes]
    intro equal
    rw [hashFrom_short _ (by simp; omega),hashFrom_short _ (by simp; omega)] at equal
    have last := not_bijective.injective ((hashRound_lossless.state _).injective equal)
    simp only [List.foldl_append,List.foldl_cons] at last
    exact ne (digestByte_injective _ ((digestBytes_bijective back).injective last))

end Pearson
end HmclPe.N2n
