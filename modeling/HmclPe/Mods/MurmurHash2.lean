import HmclPe.Lib.Mixing

/-! The 32 and 64 bit hashes, and the fingerprint by which CurseForge knows a mod's file. -/
namespace HmclPe.Mods
open Lib.Mixing Function

abbrev Byte := BitVec 8

namespace MurmurHash2

def M32 : BitVec 32 := 0x5bd1e995
def R32 : Nat := 24
def M64 : BitVec 64 := 0xc6a4a7935bd1e995
def R64 : Nat := 47

/-- Nothing where the array has no such index. -/
def byteAt (data : List Byte) (index : Int) : Option Byte :=
  if index < 0 then none else data[index.toNat]?

def getLittleEndianInt (data : List Byte) (index : Int) : Option (BitVec 32) := do
  let b0 ← byteAt data index
  let b1 ← byteAt data (index + 1)
  let b2 ← byteAt data (index + 2)
  let b3 ← byteAt data (index + 3)
  pure (b0.setWidth 32 ||| b1.setWidth 32 <<< 8 ||| b2.setWidth 32 <<< 16 |||
    b3.setWidth 32 <<< 24)

def getLittleEndianLong (data : List Byte) (index : Int) : Option (BitVec 64) := do
  let b0 ← byteAt data index
  let b1 ← byteAt data (index + 1)
  let b2 ← byteAt data (index + 2)
  let b3 ← byteAt data (index + 3)
  let b4 ← byteAt data (index + 4)
  let b5 ← byteAt data (index + 5)
  let b6 ← byteAt data (index + 6)
  let b7 ← byteAt data (index + 7)
  pure (b0.setWidth 64 ||| b1.setWidth 64 <<< 8 ||| b2.setWidth 64 <<< 16 |||
    b3.setWidth 64 <<< 24 ||| b4.setWidth 64 <<< 32 ||| b5.setWidth 64 <<< 40 |||
    b6.setWidth 64 <<< 48 ||| b7.setWidth 64 <<< 56)

/-- The cases of the last few bytes, each goes on with the one before it. -/
def lastBytes {w : Nat} (m : BitVec w) (data : List Byte) (index : Int) :
    Nat → BitVec w → Option (BitVec w)
  | 0, h => some h
  | n + 1, h => do
    let b ← byteAt data (index + n)
    let h := h ^^^ b.setWidth w <<< (8 * n)
    if n = 0 then pure (h * m) else lastBytes m data index n h

/-- What the two variants share: blocks of so many bytes, then the last few. -/
def hash {w : Nat} (size : Nat) (m : BitVec w) (getBlock : List Byte → Int → Option (BitVec w))
    (mix : BitVec w → BitVec w → BitVec w) (finish : BitVec w → BitVec w) (data : List Byte)
    (length : Int) (h : BitVec w) : Option (BitVec w) := do
  let nblocks := length / size
  let h ← (List.range nblocks.toNat).foldlM
    (fun h i => do
      let k ← getBlock data (size * i : Nat)
      pure (mix h k)) h
  let index := nblocks * size
  let h ← lastBytes m data index (length - index).toNat h
  pure (finish h)

def mix32 (h k : BitVec 32) : BitVec 32 :=
  let k := k * M32
  let k := k ^^^ k >>> R32
  let k := k * M32
  let h := h * M32
  h ^^^ k

def finish32 (h : BitVec 32) : BitVec 32 :=
  let h := h ^^^ h >>> 13
  let h := h * M32
  h ^^^ h >>> 15

def hash32 (data : List Byte) (length : Int) (seed : BitVec 32) : Option (BitVec 32) :=
  hash 4 M32 getLittleEndianInt mix32 finish32 data length (seed ^^^ BitVec.ofInt 32 length)

def mix64 (h k : BitVec 64) : BitVec 64 :=
  let k := k * M64
  let k := k ^^^ k >>> R64
  let k := k * M64
  let h := h ^^^ k
  h * M64

def finish64 (h : BitVec 64) : BitVec 64 :=
  let h := h ^^^ h >>> R64
  let h := h * M64
  h ^^^ h >>> R64

def hash64 (data : List Byte) (length : Int) (seed : BitVec 32) : Option (BitVec 64) :=
  hash 8 M64 getLittleEndianLong mix64 finish64 data length
    (seed.setWidth 64 ^^^ BitVec.ofInt 64 length * M64)

theorem unit_M32 : 0xe59b19bd * M32 = 1 := by decide

theorem unit_M64 : 0x5f7a0ea7e59b19bd * M64 = 1 := by decide

theorem mul_M32 : Bijective fun x => x * M32 := mul_bijective unit_M32

theorem mul_M64 : Bijective fun x => x * M64 := mul_bijective unit_M64

theorem mix32_lossless : Lossless mix32 where
  state k := (xor_bijective _).comp mul_M32
  block h := (xor_bijective_right _).comp
    (mul_M32.comp ((xorShift_bijective (by decide)).comp mul_M32))

theorem finish32_bijective : Bijective finish32 :=
  (xorShift_bijective (by decide)).comp (mul_M32.comp (xorShift_bijective (by decide)))

theorem mix64_lossless : Lossless mix64 where
  state k := mul_M64.comp (xor_bijective _)
  block h := mul_M64.comp ((xor_bijective_right h).comp
    (mul_M64.comp ((xorShift_bijective (by decide)).comp mul_M64)))

theorem finish64_bijective : Bijective finish64 :=
  (xorShift_bijective (by decide)).comp (mul_M64.comp (xorShift_bijective (by decide)))

/-! ### Blocks -/

theorem byteAt_append (before bytes after : List Byte) {n : Nat} (bound : n < bytes.length) :
    byteAt (before ++ bytes ++ after) (before.length + n : Nat) = some bytes[n] := by
  have index : ¬ ((before.length + n : Nat) : Int) < 0 := by omega
  rw [byteAt,if_neg index,Int.toNat_natCast,List.append_assoc,
    List.getElem?_append_right (Nat.le_add_right ..),Nat.add_sub_cancel_left,
    List.getElem?_append_left bound]
  exact List.getElem?_eq_getElem bound

theorem getLittleEndianInt_eq (before block after : List Byte) (size : block.length = 4) :
    getLittleEndianInt (before ++ block ++ after) before.length =
      some (littleEndian 32 block) := by
  have at_ {n : Nat} (bound : n < block.length) := byteAt_append before block after bound
  have b0 := @at_ 0 (by omega)
  have b1 := @at_ 1 (by omega)
  have b2 := @at_ 2 (by omega)
  have b3 := @at_ 3 (by omega)
  push_cast at b0 b1 b2 b3
  rw [Int.add_zero] at b0
  rw [getLittleEndianInt,b0,b1,b2,b3]
  obtain ⟨_,_,_,_,rfl⟩ := List.length_eq_four.mp size
  simp [littleEndian,BitVec.shiftLeft_or_distrib,← BitVec.shiftLeft_add,BitVec.or_assoc]

theorem length_eq_eight {bytes : List Byte} (size : bytes.length = 8) :
    ∃ b0 b1 b2 b3 b4 b5 b6 b7, bytes = [b0,b1,b2,b3,b4,b5,b6,b7] := by
  obtain ⟨b0,b1,b2,b3,first⟩ := List.length_eq_four.mp
    (by rw [List.length_take,size]; rfl : (bytes.take 4).length = 4)
  obtain ⟨b4,b5,b6,b7,last⟩ := List.length_eq_four.mp
    (by rw [List.length_drop,size] : (bytes.drop 4).length = 4)
  have whole := List.take_append_drop 4 bytes
  rw [first,last] at whole
  exact ⟨b0,b1,b2,b3,b4,b5,b6,b7,whole.symm⟩

theorem getLittleEndianLong_eq (before block after : List Byte) (size : block.length = 8) :
    getLittleEndianLong (before ++ block ++ after) before.length =
      some (littleEndian 64 block) := by
  have at_ {n : Nat} (bound : n < block.length) := byteAt_append before block after bound
  have b0 := @at_ 0 (by omega)
  have b1 := @at_ 1 (by omega)
  have b2 := @at_ 2 (by omega)
  have b3 := @at_ 3 (by omega)
  have b4 := @at_ 4 (by omega)
  have b5 := @at_ 5 (by omega)
  have b6 := @at_ 6 (by omega)
  have b7 := @at_ 7 (by omega)
  push_cast at b0 b1 b2 b3 b4 b5 b6 b7
  rw [Int.add_zero] at b0
  rw [getLittleEndianLong,b0,b1,b2,b3,b4,b5,b6,b7]
  obtain ⟨_,_,_,_,_,_,_,_,rfl⟩ := length_eq_eight size
  simp [littleEndian,BitVec.shiftLeft_or_distrib,← BitVec.shiftLeft_add,BitVec.or_assoc]

variable {w : Nat}

def absorbLast (m : BitVec w) (bytes : List Byte) (h : BitVec w) : BitVec w :=
  if bytes = [] then h else (h ^^^ littleEndian w bytes) * m

theorem lastBytes_eq (m : BitVec w) (before bytes : List Byte) (h : BitVec w) {n : Nat}
    (bound : n ≤ bytes.length) :
    lastBytes m (before ++ bytes) before.length n h =
      some (absorbLast m (bytes.take n) h) := by
  induction n generalizing h with
  | zero => rfl
  | succ n ih =>
    have here := byteAt_append before bytes [] bound
    rw [List.append_nil] at here
    push_cast at here
    have some_ : bytes.take (n + 1) ≠ [] := by
      intro nothing
      have size := congrArg List.length nothing
      rw [List.length_take_of_le bound] at size
      exact absurd size (Nat.succ_ne_zero n)
    have snoc := @littleEndian_snoc w (bytes.take n) bytes[n]
    rw [List.take_append_getElem bound,List.length_take_of_le (Nat.le_of_lt bound)] at snoc
    rw [lastBytes,here,absorbLast,if_neg some_,snoc,← BitVec.xor_assoc]
    rcases Nat.eq_zero_or_pos n with rfl | positive
    · simp [littleEndian]
    · have nonzero : n ≠ 0 := Nat.ne_of_gt positive
      have rest : bytes.take n ≠ [] := by
        intro nothing
        have size := congrArg List.length nothing
        rw [List.length_take_of_le (Nat.le_of_lt bound)] at size
        exact nonzero size
      simp only [Option.bind_eq_bind,Option.bind_some,nonzero,if_false]
      rw [ih _ (Nat.le_of_lt bound),absorbLast,if_neg rest]

section Variant

variable {size : Nat} {m : BitVec w} {getBlock : List Byte → Int → Option (BitVec w)}
  {mix : BitVec w → BitVec w → BitVec w} {finish : BitVec w → BitVec w}

def Reads (size : Nat) (getBlock : List Byte → Int → Option (BitVec w)) : Prop :=
  ∀ before block after : List Byte, block.length = size →
    getBlock (before ++ block ++ after) before.length = some (littleEndian w block)

theorem length_flatten {blocks : List (List Byte)} (sizes : ∀ block ∈ blocks, block.length = size) :
    blocks.flatten.length = size * blocks.length := by
  induction blocks with
  | nil => rfl
  | cons block blocks ih =>
    rw [List.flatten_cons,List.length_append,sizes block (by simp),
      ih fun other member => sizes other (by simp [member]),List.length_cons,Nat.mul_succ,
      Nat.add_comm]

theorem body_eq (reads : Reads size getBlock) {blocks : List (List Byte)}
    (sizes : ∀ block ∈ blocks, block.length = size) (rest : List Byte) (h : BitVec w) :
    (List.range blocks.length).foldlM
      (fun h i => do
        let k ← getBlock (blocks.flatten ++ rest) (size * i : Nat)
        pure (mix h k)) h = some ((blocks.map (littleEndian w)).foldl mix h) := by
  induction blocks using List.reverseRecOn generalizing rest with
  | nil => rfl
  | append_singleton blocks block ih =>
    have before : ∀ other ∈ blocks, other.length = size := by
      intro other member
      exact sizes other (by simp [member])
    have here := reads blocks.flatten block rest (sizes block (by simp))
    rw [length_flatten before] at here
    rw [List.length_append,List.length_singleton,List.range_succ,List.foldlM_append,
      List.flatten_append,List.append_assoc,ih before]
    simp only [List.flatten_singleton,Option.bind_eq_bind,Option.bind_some,List.foldlM_cons,
      List.foldlM_nil]
    rw [← List.append_assoc,here]
    simp

/-- The hash over the whole array. -/
theorem hash_eq (reads : Reads size getBlock) {blocks : List (List Byte)}
    (sizes : ∀ block ∈ blocks, block.length = size) {last : List Byte} (few : last.length < size)
    (h : BitVec w) :
    hash size m getBlock mix finish (blocks.flatten ++ last) (blocks.flatten ++ last).length h =
      some (finish (absorbLast m last ((blocks.map (littleEndian w)).foldl mix h))) := by
  have whole : (blocks.flatten ++ last).length = last.length + size * blocks.length := by
    rw [List.length_append,length_flatten sizes,Nat.add_comm]
  have positive : 0 < size := Nat.zero_lt_of_lt few
  have nblocks : (((blocks.flatten ++ last).length : Nat) : Int) / size = blocks.length := by
    rw [whole]
    norm_cast
    rw [Nat.add_mul_div_left _ _ positive,Nat.div_eq_of_lt few,Nat.zero_add]
  have rest : ((((blocks.flatten ++ last).length : Nat) : Int) -
      (blocks.length : Int) * size).toNat = last.length := by
    rw [whole]
    push_cast
    rw [Int.mul_comm]
    omega
  have index : (blocks.length : Int) * size = (blocks.flatten.length : Nat) := by
    rw [length_flatten sizes]
    push_cast
    exact Int.mul_comm ..
  have body := @body_eq w size getBlock mix reads blocks sizes last h
  rw [hash]
  simp only [nblocks,rest,Int.toNat_natCast]
  rw [body]
  simp only [Option.bind_eq_bind,Option.bind_some]
  rw [index,lastBytes_eq m blocks.flatten last _ (Nat.le_refl _),List.take_length]
  rfl

theorem exists_blocks (positive : 0 < size) (data : List Byte) :
    ∃ (blocks : List (List Byte)) (last : List Byte), data = blocks.flatten ++ last ∧
      (∀ block ∈ blocks, block.length = size) ∧ last.length < size := by
  induction length : data.length using Nat.strong_induction_on generalizing data with
  | h n ih =>
    rcases Nat.lt_or_ge data.length size with few | enough
    · exact ⟨[],data,rfl,by simp,few⟩
    · obtain ⟨blocks,last,cut,sizes,few⟩ := ih (data.drop size).length
        (by rw [List.length_drop]; omega) (data.drop size) rfl
      refine ⟨data.take size :: blocks,last,?_,?_,few⟩
      · rw [List.flatten_cons,List.append_assoc,← cut,List.take_append_drop]
      · intro block member
        rcases List.mem_cons.mp member with rfl | later
        · exact List.length_take_of_le enough
        · exact sizes block later

theorem exists_whole_blocks (positive : 0 < size) {data : List Byte}
    (aligned : size ∣ data.length) :
    ∃ blocks : List (List Byte), data = blocks.flatten ∧ ∀ block ∈ blocks, block.length = size := by
  obtain ⟨blocks,last,rfl,sizes,few⟩ := exists_blocks positive data
  rw [List.length_append,length_flatten sizes,Nat.dvd_add_right (Nat.dvd_mul_right ..)] at aligned
  obtain rfl := List.eq_nil_of_length_eq_zero (Nat.eq_zero_of_dvd_of_lt aligned few)
  exact ⟨blocks,List.append_nil _,sizes⟩

theorem absorbLast_state {inverse : BitVec w} (unit : inverse * m = 1) (bytes : List Byte) :
    Bijective fun h => absorbLast m bytes h := by
  unfold absorbLast
  split_ifs
  · exact bijective_id
  · exact (mul_bijective unit).comp (xor_bijective _)

theorem absorbLast_bytes {inverse : BitVec w} (unit : inverse * m = 1) (h : BitVec w)
    {bytes bytes' : List Byte} (same : bytes.length = bytes'.length)
    (fits : 8 * bytes.length ≤ w) (equal : absorbLast m bytes h = absorbLast m bytes' h) :
    bytes = bytes' := by
  rcases bytes with _ | ⟨b,bytes⟩
  · exact (List.eq_nil_of_length_eq_zero same.symm).symm
  rcases bytes' with _ | ⟨b',bytes'⟩
  · exact absurd same (Nat.succ_ne_zero _)
  have mixed := (mul_bijective unit).1 equal
  exact littleEndian_inj same fits ((xor_bijective_right h).1 mixed)

/-- Where all else stays, each value comes from just one block. -/
theorem hash_block (reads : Reads size getBlock) (lossless : Lossless mix)
    (finishes : Bijective finish) {inverse : BitVec w} (unit : inverse * m = 1)
    (fits : w = 8 * size) (positive : 0 < size) {before : List Byte} (after : List Byte)
    (aligned : size ∣ before.length) (h target : BitVec w) :
    ∃! block : List Byte, block.length = size ∧
      hash size m getBlock mix finish (before ++ block ++ after)
        (before.length + size + after.length : Nat) h = some target := by
  obtain ⟨first,rfl,firsts⟩ := exists_whole_blocks positive aligned
  obtain ⟨rest,last,rfl,rests,few⟩ := exists_blocks positive after
  have value (block : List Byte) (length : block.length = size) :
      hash size m getBlock mix finish (first.flatten ++ block ++ (rest.flatten ++ last))
        (first.flatten.length + size + (rest.flatten ++ last).length : Nat) h =
      some (finish (absorbLast m last ((first.map (littleEndian w) ++
        littleEndian w block :: rest.map (littleEndian w)).foldl mix h))) := by
    have sizes : ∀ other ∈ first ++ block :: rest, other.length = size := by
      intro other member
      rcases List.mem_append.mp member with early | late
      · exact firsts other early
      · rcases List.mem_cons.mp late with rfl | later
        · exact length
        · exact rests other later
    have whole := @hash_eq w size m getBlock mix finish reads _ sizes last few h
    rw [List.map_append,List.map_cons] at whole
    rw [← whole]
    have cut : first.flatten ++ block ++ (rest.flatten ++ last) =
        (first ++ block :: rest).flatten ++ last := by simp
    have long : first.flatten.length + size + (rest.flatten ++ last).length =
        ((first ++ block :: rest).flatten ++ last).length := by
      rw [← cut]
      simp only [List.length_append]
      rw [length]
    rw [cut,long]
  have bijective := finishes.comp ((@absorbLast_state w m inverse unit last).comp
    (lossless.fold_block h (first.map (littleEndian w)) (rest.map (littleEndian w))))
  obtain ⟨word,hits,only⟩ := bijective.existsUnique target
  obtain ⟨block,⟨length,same⟩,unique⟩ := exists_unique_bytes fits word
  refine ⟨block,⟨length,?_⟩,?_⟩
  · rw [value block length,same]
    exact congrArg some hits
  · rintro other ⟨length_,hits_⟩
    rw [value other length_] at hits_
    exact unique other ⟨length_,only _ (Option.some.inj hits_)⟩

/-- Nor are two last few bytes confused. -/
theorem hash_last (reads : Reads size getBlock) (finishes : Bijective finish)
    {inverse : BitVec w} (unit : inverse * m = 1) (fits : w = 8 * size) {before : List Byte}
    (aligned : size ∣ before.length) {last last' : List Byte} (few : last.length < size)
    (same : last.length = last'.length) (h : BitVec w)
    (equal : hash size m getBlock mix finish (before ++ last) (before ++ last).length h =
      hash size m getBlock mix finish (before ++ last') (before ++ last').length h) :
    last = last' := by
  obtain ⟨blocks,rfl,sizes⟩ := exists_whole_blocks (Nat.zero_lt_of_lt few) aligned
  rw [hash_eq reads sizes few,hash_eq reads sizes (same ▸ few)] at equal
  have mixed := finishes.1 (Option.some.inj equal)
  exact absorbLast_bytes unit _ same (by omega) mixed

end Variant

theorem hash32_block (seed : BitVec 32) {before : List Byte} (aligned : 4 ∣ before.length)
    (after : List Byte) (target : BitVec 32) : ∃! block : List Byte, block.length = 4 ∧
      hash32 (before ++ block ++ after) (before.length + 4 + after.length : Nat) seed =
        some target :=
  hash_block getLittleEndianInt_eq mix32_lossless finish32_bijective unit_M32 rfl (by decide)
    after aligned _ target

theorem hash32_last (seed : BitVec 32) {before last last' : List Byte}
    (aligned : 4 ∣ before.length) (few : last.length < 4) (same : last.length = last'.length)
    (equal : hash32 (before ++ last) (before ++ last).length seed =
      hash32 (before ++ last') (before ++ last').length seed) : last = last' := by
  have long : (before ++ last).length = (before ++ last').length := by
    rw [List.length_append,List.length_append,same]
  rw [hash32,hash32,← long] at equal
  apply hash_last getLittleEndianInt_eq finish32_bijective unit_M32 rfl aligned few same
  rw [← long]
  exact equal

/-- In a whole array any four bytes at an aligned place can make the hash anything, in one way,
and the last few bytes are not confused. -/
theorem hash32_bytes (seed : BitVec 32) {before : List Byte} (aligned : 4 ∣ before.length) :
    (∀ (after : List Byte) (target : BitVec 32), ∃! block : List Byte, block.length = 4 ∧
      hash32 (before ++ block ++ after) (before.length + 4 + after.length : Nat) seed =
        some target) ∧
    ∀ last last' : List Byte, last.length < 4 → last.length = last'.length →
      hash32 (before ++ last) (before ++ last).length seed =
        hash32 (before ++ last') (before ++ last').length seed → last = last' :=
  ⟨hash32_block seed aligned,fun _ _ few same => hash32_last seed aligned few same⟩

theorem hash32_bytes_seven : ∃! block : List Byte, block.length = 4 ∧
    hash32 ([1,2,3,4] ++ block ++ [5,6,7]) (11 : Nat) 1 = some 0 :=
  (hash32_bytes 1 (by decide : 4 ∣ [1,2,3,4].length)).1 [5,6,7] 0

/-- The same with eight bytes in the other variant. -/
theorem hash64_bytes (seed : BitVec 32) {before : List Byte} (aligned : 8 ∣ before.length) :
    (∀ (after : List Byte) (target : BitVec 64), ∃! block : List Byte, block.length = 8 ∧
      hash64 (before ++ block ++ after) (before.length + 8 + after.length : Nat) seed =
        some target) ∧
    ∀ last last' : List Byte, last.length < 8 → last.length = last'.length →
      hash64 (before ++ last) (before ++ last).length seed =
        hash64 (before ++ last') (before ++ last').length seed → last = last' := by
  constructor
  · intro after target
    exact hash_block getLittleEndianLong_eq mix64_lossless finish64_bijective unit_M64 rfl
      (by decide) after aligned _ target
  · intro last last' few same equal
    have long : (before ++ last).length = (before ++ last').length := by
      rw [List.length_append,List.length_append,same]
    rw [hash64,hash64,← long] at equal
    apply hash_last getLittleEndianLong_eq finish64_bijective unit_M64 rfl aligned few same
    rw [← long]
    exact equal

theorem hash64_bytes_three : ∃! block : List Byte, block.length = 8 ∧
    hash64 ([] ++ block ++ [5,6,7]) (11 : Nat) 1 = some 0 :=
  (hash64_bytes 1 (by decide : 8 ∣ ([] : List Byte).length)).1 [5,6,7] 0

end MurmurHash2

/-! ### The fingerprint of a file -/

/-- The loop that drops blanks, over what each call of `read` gave. -/
def withoutBlanks (reads : List (List Byte)) : List Byte :=
  reads.foldl (fun baos buf => buf.foldl (fun baos b =>
    if b != 0x9 && b != 0xa && b != 0xd && b != 0x20 then baos ++ [b] else baos) baos) []

def fingerprint (reads : List (List Byte)) : Option Nat := do
  let baos := withoutBlanks reads
  let hash ← MurmurHash2.hash32 baos baos.length 1
  pure hash.toNat

def isBlank (b : Byte) : Bool := b == 0x9 || b == 0xa || b == 0xd || b == 0x20

theorem withoutBlanks_eq (reads : List (List Byte)) :
    withoutBlanks reads = reads.flatten.filter (fun b => !isBlank b) := by
  have inner (buf baos : List Byte) : buf.foldl (fun baos b =>
      if b != 0x9 && b != 0xa && b != 0xd && b != 0x20 then baos ++ [b] else baos) baos =
      baos ++ buf.filter (fun b => !isBlank b) := by
    induction buf generalizing baos with
    | nil => simp
    | cons b buf ih =>
      have same : (b != 0x9 && b != 0xa && b != 0xd && b != 0x20) = !isBlank b := by
        simp [isBlank,bne,Bool.and_assoc]
      rw [List.foldl_cons,ih,same,List.filter_cons]
      split <;> simp
  have outer (reads : List (List Byte)) (baos : List Byte) : reads.foldl (fun baos buf =>
      buf.foldl (fun baos b =>
        if b != 0x9 && b != 0xa && b != 0xd && b != 0x20 then baos ++ [b] else baos) baos) baos =
      baos ++ reads.flatten.filter (fun b => !isBlank b) := by
    induction reads generalizing baos with
    | nil => simp
    | cons buf reads ih =>
      rw [List.foldl_cons,inner,ih,List.flatten_cons,List.filter_append,List.append_assoc]
  exact outer reads []

open MurmurHash2 in
theorem hash32_defined (data : List Byte) (seed : BitVec 32) :
    ∃ hash, hash32 data data.length seed = some hash := by
  obtain ⟨blocks,last,rfl,sizes,few⟩ := exists_blocks (by decide : 0 < 4) data
  exact ⟨_,hash_eq getLittleEndianInt_eq sizes few _⟩

open MurmurHash2 in
/-- A file has a fingerprint however it is read and wherever its blanks are. Files whose other
bytes differ in a group of four of them, or in the last few, have not the same one. -/
theorem fingerprint_iff {reads reads' : List (List Byte)} {before block block' after : List Byte}
    (first : reads.flatten.filter (fun b => !isBlank b) = before ++ block ++ after)
    (second : reads'.flatten.filter (fun b => !isBlank b) = before ++ block' ++ after)
    (aligned : 4 ∣ before.length) (same : block.length = block'.length)
    (group : block.length = 4 ∨ after = [] ∧ block.length < 4) :
    (∃ number, fingerprint reads = some number) ∧
      (fingerprint reads = fingerprint reads' ↔ block = block') := by
  rw [← withoutBlanks_eq] at first second
  obtain ⟨hash,defined⟩ := hash32_defined (withoutBlanks reads) 1
  obtain ⟨hash',defined'⟩ := hash32_defined (withoutBlanks reads') 1
  have number : fingerprint reads = some hash.toNat := by
    simp only [fingerprint,defined]
    rfl
  have number' : fingerprint reads' = some hash'.toNat := by
    simp only [fingerprint,defined']
    rfl
  refine ⟨⟨_,number⟩,?_⟩
  rw [number,number']
  constructor
  · intro equal
    obtain rfl := BitVec.toNat_injective (Option.some.inj equal)
    rw [first] at defined
    rw [second] at defined'
    rcases group with four | ⟨rfl,few⟩
    · have long : (before ++ block ++ after).length = before.length + 4 + after.length := by
        rw [List.length_append,List.length_append,four]
      have long' : (before ++ block' ++ after).length = before.length + 4 + after.length := by
        rw [List.length_append,List.length_append,← same,four]
      rw [long] at defined
      rw [long'] at defined'
      obtain ⟨_,-,only⟩ := hash32_block 1 aligned after hash
      exact (only block ⟨four,defined⟩).trans (only block' ⟨same.symm.trans four,defined'⟩).symm
    · rw [List.append_nil] at defined defined'
      exact hash32_last 1 aligned few same (defined.trans defined'.symm)
  · rintro rfl
    rw [first] at defined
    rw [second] at defined'
    exact congrArg (some ∘ BitVec.toNat) (Option.some.inj (defined.symm.trans defined'))

/-- A blank more, and another letter. -/
theorem fingerprint_letters :
    fingerprint [[97,98],[32,99,100]] = fingerprint [[97,10,98,99],[],[100]] ∧
      fingerprint [[97,98,99,100]] ≠ fingerprint [[97,98,99,101]] := by
  constructor
  · exact (@fingerprint_iff [[97,98],[32,99,100]] [[97,10,98,99],[],[100]] [] [97,98,99,100]
      [97,98,99,100] [] rfl rfl (by decide) rfl (Or.inl rfl)).2.mpr rfl
  · intro equal
    exact absurd ((@fingerprint_iff [[97,98,99,100]] [[97,98,99,101]] [] [97,98,99,100]
      [97,98,99,101] [] rfl rfl (by decide) rfl (Or.inl rfl)).2.mp equal) (by decide)

end HmclPe.Mods
