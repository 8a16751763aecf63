import Mathlib.Data.BitVec
import Mathlib.Data.Fintype.EquivFin
import Mathlib.Data.List.GetD

/-! Steps of word hashes that lose nothing, and what they absorb. -/
namespace HmclPe.Lib.Mixing
open Function

variable {w : Nat}

theorem mul_bijective {m inverse : BitVec w} (unit : inverse * m = 1) :
    Bijective fun x => x * m := by
  apply bijective_iff_has_inverse.mpr
  refine ⟨fun x => x * inverse,?_,?_⟩
  · intro x
    change x * m * inverse = x
    rw [mul_assoc,mul_comm m,unit,mul_one]
  · intro x
    change x * inverse * m = x
    rw [mul_assoc,unit,mul_one]

theorem xor_twice (x y : BitVec w) : x ^^^ y ^^^ y = x := by
  rw [BitVec.xor_assoc,BitVec.xor_self,BitVec.xor_zero]

theorem xor_twice_left (x y : BitVec w) : x ^^^ (x ^^^ y) = y := by
  rw [← BitVec.xor_assoc,BitVec.xor_self,BitVec.zero_xor]

theorem xor_bijective (y : BitVec w) : Bijective fun x => x ^^^ y := by
  apply Involutive.bijective
  intro x
  exact xor_twice x y

theorem xor_bijective_right (x : BitVec w) : Bijective fun y => x ^^^ y := by
  have same : (fun y => x ^^^ y) = fun y => y ^^^ x := by
    funext y
    exact BitVec.xor_comm x y
  rw [same]
  exact xor_bijective x

/-- The upper bits stay and give back the lower ones. -/
theorem xorShift_injective {r : Nat} (positive : 0 < r) :
    Injective fun x : BitVec w => x ^^^ x >>> r := by
  intro x y equal
  have bits (i : Nat) : (x.getLsbD i ^^ x.getLsbD (r + i)) =
      (y.getLsbD i ^^ y.getLsbD (r + i)) := by
    have bit := congrArg (fun z => z.getLsbD i) equal
    simpa using bit
  -- From the top down, by how far a bit is from there.
  have upper (n : Nat) : ∀ i, w ≤ i + n → x.getLsbD i = y.getLsbD i := by
    induction n with
    | zero =>
      intro i above
      rw [BitVec.getLsbD_of_ge x i above,BitVec.getLsbD_of_ge y i above]
    | succ n ih =>
      intro i above
      have later := ih (r + i) (by omega)
      have bit := bits i
      rw [later] at bit
      exact Bool.xor_left_inj.mp bit
  apply BitVec.eq_of_getLsbD_eq
  intro i _
  exact upper w i (Nat.le_add_left w i)

theorem xorShift_bijective {r : Nat} (positive : 0 < r) :
    Bijective fun x : BitVec w => x ^^^ x >>> r := by
  have finite : Finite (BitVec w) := Finite.of_injective BitVec.toFin BitVec.toFin_injective
  exact Finite.injective_iff_bijective.mp (xorShift_injective positive)

section Absorption

variable {σ κ : Type} {absorb : σ → κ → σ}

/-- Neither what is absorbed nor the state before is lost. -/
structure Lossless (absorb : σ → κ → σ) : Prop where
  state : ∀ k, Bijective fun s => absorb s k
  block : ∀ s, Bijective fun k => absorb s k

theorem Lossless.fold_state (lossless : Lossless absorb) (blocks : List κ) :
    Bijective fun s => blocks.foldl absorb s := by
  induction blocks with
  | nil => exact bijective_id
  | cons block blocks ih => exact ih.comp (lossless.state block)

theorem Lossless.fold_block (lossless : Lossless absorb) (s : σ) (before after : List κ) :
    Bijective fun block => (before ++ block :: after).foldl absorb s := by
  simp only [List.foldl_append,List.foldl_cons]
  exact (lossless.fold_state after).comp (lossless.block _)

end Absorption

/-- Bytes as a word, the first one lowest. -/
def littleEndian (w : Nat) : List (BitVec 8) → BitVec w
  | [] => 0
  | b :: bytes => b.setWidth w ||| littleEndian w bytes <<< 8

theorem getLsbD_littleEndian (bytes : List (BitVec 8)) {i : Nat} (inside : i < w) :
    (littleEndian w bytes).getLsbD i = (bytes.getD (i / 8) 0).getLsbD (i % 8) := by
  induction bytes generalizing i with
  | nil => simp [littleEndian]
  | cons b bytes ih =>
    rw [littleEndian,BitVec.getLsbD_or,BitVec.getLsbD_shiftLeft,BitVec.getLsbD_setWidth]
    rcases Nat.lt_or_ge i 8 with low | high
    · have first : i / 8 = 0 := Nat.div_eq_of_lt low
      simp [low,inside,first,Nat.mod_eq_of_lt low]
    · have later : i / 8 = (i - 8) / 8 + 1 := by omega
      have bit : (i - 8) % 8 = i % 8 := by omega
      have none_ : b.getLsbD i = false := BitVec.getLsbD_of_ge b i high
      rw [later,List.getD_cons_succ,ih (by omega),bit,none_]
      simp [inside,Nat.not_lt.mpr high]

/-- Bytes beside each other do not overlap. -/
theorem littleEndian_snoc (bytes : List (BitVec 8)) (b : BitVec 8) :
    littleEndian w (bytes ++ [b]) =
      b.setWidth w <<< (8 * bytes.length) ^^^ littleEndian w bytes := by
  apply BitVec.eq_of_getLsbD_eq
  intro i inside
  rw [BitVec.getLsbD_xor,BitVec.getLsbD_shiftLeft,BitVec.getLsbD_setWidth,
    getLsbD_littleEndian _ inside,getLsbD_littleEndian _ inside]
  rcases Nat.lt_trichotomy (i / 8) bytes.length with less | equal | more
  · have below : i < 8 * bytes.length := by omega
    rw [List.getD_append _ _ _ _ less]
    simp [below]
  · have above : ¬ i < 8 * bytes.length := by omega
    have place : i - 8 * bytes.length = i % 8 := by omega
    have fits : i % 8 < w := by omega
    rw [List.getD_append_right _ _ _ _ (by omega),List.getD_eq_default _ _ (by omega : _ ≤ i / 8),
      place]
    simp [inside,above,fits,equal]
  · have above : ¬ i < 8 * bytes.length := by omega
    have none_ : b.getLsbD (i - 8 * bytes.length) = false := BitVec.getLsbD_of_ge b _ (by omega)
    have outside : (bytes ++ [b]).length ≤ i / 8 := by
      rw [List.length_append]
      exact more
    rw [List.getD_eq_default _ _ outside,List.getD_eq_default _ _ (Nat.le_of_lt more),none_]
    simp

theorem littleEndian_inj {bytes bytes' : List (BitVec 8)} (size : bytes.length = bytes'.length)
    (fits : 8 * bytes.length ≤ w) (equal : littleEndian w bytes = littleEndian w bytes') :
    bytes = bytes' := by
  apply List.ext_getElem size
  intro n bound bound'
  apply BitVec.eq_of_getLsbD_eq
  intro i low
  have place : (8 * n + i) / 8 = n := by omega
  have bit : (8 * n + i) % 8 = i := by omega
  have same := congrArg (fun word => word.getLsbD (8 * n + i)) equal
  change (littleEndian w bytes).getLsbD (8 * n + i) =
    (littleEndian w bytes').getLsbD (8 * n + i) at same
  rw [getLsbD_littleEndian bytes (by omega),getLsbD_littleEndian bytes' (by omega),place,bit,
    List.getD_eq_getElem _ _ bound,List.getD_eq_getElem _ _ bound'] at same
  exact same

def bytesOf (size : Nat) (word : BitVec w) : List (BitVec 8) :=
  List.ofFn fun n : Fin size => word.extractLsb' (8 * n.val) 8

theorem length_bytesOf (size : Nat) (word : BitVec w) : (bytesOf size word).length = size :=
  List.length_ofFn

theorem getElem_bytesOf {size i : Nat} (word : BitVec w) (bound : i < (bytesOf size word).length) :
    (bytesOf size word)[i] = word.extractLsb' (8 * i) 8 := by
  simp only [bytesOf,List.getElem_ofFn]

theorem littleEndian_bytesOf {size : Nat} (fits : w = 8 * size) (word : BitVec w) :
    littleEndian w (bytesOf size word) = word := by
  apply BitVec.eq_of_getLsbD_eq
  intro i inside
  have bound : i / 8 < (bytesOf size word).length := by
    rw [length_bytesOf]
    omega
  have place : 8 * (i / 8) + i % 8 = i := Nat.div_add_mod i 8
  have low : i % 8 < 8 := Nat.mod_lt _ (by decide)
  rw [getLsbD_littleEndian _ inside,List.getD_eq_getElem _ _ bound]
  simp [bytesOf,low,place]

theorem bytesOf_littleEndian {size : Nat} (fits : 8 * size ≤ w) {bytes : List (BitVec 8)}
    (length : bytes.length = size) : bytesOf size (littleEndian w bytes) = bytes := by
  apply List.ext_getElem ((length_bytesOf size _).trans length.symm)
  intro n bound bound'
  apply BitVec.eq_of_getLsbD_eq
  intro i low
  have place : (8 * n + i) / 8 = n := by omega
  have bit : (8 * n + i) % 8 = i := by omega
  simp only [bytesOf,List.getElem_ofFn]
  rw [BitVec.getLsbD_extractLsb',getLsbD_littleEndian bytes (by omega),place,bit,
    List.getD_eq_getElem _ _ bound']
  simp [low]

theorem bytesOf_xor (size : Nat) (x y : BitVec w) :
    bytesOf size (x ^^^ y) = List.zipWith (· ^^^ ·) (bytesOf size x) (bytesOf size y) := by
  apply List.ext_getElem
  · simp [length_bytesOf]
  · intro n bound _
    simp [bytesOf,BitVec.extractLsb'_xor]

/-- Every word is one list of bytes. -/
theorem exists_unique_bytes {size : Nat} (fits : w = 8 * size) (word : BitVec w) :
    ∃! bytes : List (BitVec 8), bytes.length = size ∧ littleEndian w bytes = word := by
  refine ⟨bytesOf size word,⟨length_bytesOf size word,littleEndian_bytesOf fits word⟩,?_⟩
  rintro bytes ⟨length,same⟩
  have fits_ : 8 * bytes.length ≤ w := by
    rw [length,fits]
  apply littleEndian_inj (length.trans (length_bytesOf size word).symm) fits_
  rw [same,littleEndian_bytesOf fits word]

end HmclPe.Lib.Mixing
