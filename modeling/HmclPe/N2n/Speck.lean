import HmclPe.Lib.Ciphers
import HmclPe.Lib.Mixing
import HmclPe.N2n.Wire

/-! The block cipher of n2n in plain C: single blocks, and texts of any length by a counter. -/
namespace HmclPe.N2n
open Lib.Mixing Lib.Ciphers

namespace Speck

abbrev Word := BitVec 64

structure Context where
  key : List.Vector Word 34
  keysize : BitVec 32

/-- The round key of this index, of which there are 34. -/
def Context.roundKey (ctx : Context) (i : Nat) : Word := ctx.key.toList.getD i 0

def ROR (x : Word) (r : Nat) : Word := x >>> r ||| x <<< (64 - r)
def ROL (x : Word) (r : Nat) : Word := x <<< r ||| x >>> (64 - r)

def R (s : Word × Word) (k : Word) : Word × Word :=
  let x := ROR s.1 8
  let x := x + s.2
  let x := x ^^^ k
  let y := ROL s.2 3
  let y := y ^^^ x
  (x,y)

def encrypt (s : Word × Word) (ctx : Context) (numrounds : Nat) : Word × Word :=
  (List.range numrounds).foldl (fun s i => R s (ctx.roundKey i)) s

def DR128 (s : Word × Word) (k : Word) : Word × Word :=
  let y := s.2 ^^^ s.1
  let y := ROR y 3
  let x := s.1 ^^^ k
  let x := x - y
  let x := ROL x 8
  (x,y)

def ER128 (s : Word × Word) (k : Word) : Word × Word :=
  let x := (ROR s.1 8 + s.2) ^^^ k
  (x,ROL s.2 3 ^^^ x)

/-- The word that starts at some byte. -/
def load (bytes : List Byte) (start : Nat) : Word := littleEndian 64 ((bytes.drop start).take 8)

def speck128Decrypt (inout : List Byte) (ctx : Context) : List Byte :=
  let (x,y) := (List.range 32).reverse.foldl (fun s i => DR128 s (ctx.roundKey i))
    (load inout 8,load inout 0)
  bytesOf 8 y ++ bytesOf 8 x ++ inout.drop 16

def speck128Encrypt (inout : List Byte) (ctx : Context) : List Byte :=
  let (x,y) := (List.range 32).foldl (fun s i => ER128 s (ctx.roundKey i))
    (load inout 8,load inout 0)
  bytesOf 8 y ++ bytesOf 8 x ++ inout.drop 16

/-- Whole blocks first, then what is left. -/
def ctrFrom (ctx : Context) (numrounds : Nat) (nonce0 nonce1 : Word) (input : List Byte) :
    List Byte :=
  let s := encrypt (nonce1,nonce0) ctx numrounds
  if 16 ≤ input.length then
    bytesOf 8 (s.2 ^^^ load input 0) ++ bytesOf 8 (s.1 ^^^ load input 8) ++
      ctrFrom ctx numrounds (nonce0 + 1) nonce1 (input.drop 16)
  else List.zipWith (· ^^^ ·) (bytesOf 8 s.2 ++ bytesOf 8 s.1) input
termination_by input.length

def speckCtr (input n : List Byte) (ctx : Context) : List Byte :=
  let numrounds := if ctx.keysize = 256 then 34 else 32
  ctrFrom ctx numrounds (load n 0) (load n 8) input

theorem rol_ror_three (x : Word) : ROR (ROL x 3) 3 = x := by
  unfold ROR ROL
  ext i bound
  simp
  grind

theorem ror_rol_three (x : Word) : ROL (ROR x 3) 3 = x := by
  unfold ROR ROL
  ext i bound
  simp
  grind

theorem ror_rol_eight (x : Word) : ROR (ROL x 8) 8 = x := by
  unfold ROR ROL
  ext i bound
  simp
  grind

theorem rol_ror_eight (x : Word) : ROL (ROR x 8) 8 = x := by
  unfold ROR ROL
  ext i bound
  simp
  grind

theorem DR128_undoes : Undoes DR128 ER128 := by
  intro s k
  unfold DR128 ER128
  simp only
  rw [xor_twice (ROL s.2 3),rol_ror_three,xor_twice,BitVec.add_sub_cancel,rol_ror_eight]

theorem ER128_undoes : Undoes ER128 DR128 := by
  intro s k
  unfold DR128 ER128
  simp only
  rw [ror_rol_three,ror_rol_eight]
  rw [BitVec.sub_add_cancel,xor_twice,xor_twice]

theorem load_append {front : List Byte} {start : Nat} (inside : start + 8 ≤ front.length)
    (back : List Byte) : load (front ++ back) start = load front start := by
  have enough : 8 ≤ (front.drop start).length := by
    rw [List.length_drop]
    omega
  rw [load,List.drop_append_of_le_length (by omega),List.take_append_of_le_length enough]
  rfl

/-- Two words and what lies behind them. -/
theorem load_words (x y : Word) (back : List Byte) :
    load (bytesOf 8 y ++ bytesOf 8 x ++ back) 0 = y ∧
      load (bytesOf 8 y ++ bytesOf 8 x ++ back) 8 = x ∧
      (bytesOf 8 y ++ bytesOf 8 x ++ back).drop 16 = back := by
  have low := length_bytesOf 8 y
  have high := length_bytesOf 8 x
  refine ⟨?_,?_,?_⟩
  · rw [load,List.drop_zero,List.append_assoc,List.take_left' low]
    exact @littleEndian_bytesOf 64 8 rfl y
  · rw [load,List.append_assoc,List.drop_left' low,List.take_left' high]
    exact @littleEndian_bytesOf 64 8 rfl x
  · apply List.drop_left'
    rw [List.length_append,low,high]

theorem bytesOf_load {bytes : List Byte} {start : Nat} (inside : start + 8 ≤ bytes.length) :
    bytesOf 8 (load bytes start) = (bytes.drop start).take 8 := by
  apply bytesOf_littleEndian (by decide)
  rw [List.length_take,List.length_drop]
  omega

theorem words_load {block : List Byte} (size : 16 ≤ block.length) :
    bytesOf 8 (load block 0) ++ bytesOf 8 (load block 8) ++ block.drop 16 = block := by
  have rest : block.drop 16 = (block.drop 8).drop 8 := by rw [List.drop_drop]
  rw [bytesOf_load (by omega),bytesOf_load (by omega),List.drop_zero,List.append_assoc,rest,
    List.take_append_drop,List.take_append_drop]

section Behind

variable (ctx : Context) {block : List Byte} (size : block.length = 16) (back : List Byte)
include size

/-- What lies behind a block stays. -/
theorem encrypt_append : speck128Encrypt (block ++ back) ctx =
    speck128Encrypt block ctx ++ back := by
  unfold speck128Encrypt
  rw [load_append (by omega),load_append (by omega),List.drop_left' size,
    List.drop_of_length_le (Nat.le_of_eq size)]
  simp only [List.append_nil]

theorem decrypt_append : speck128Decrypt (block ++ back) ctx =
    speck128Decrypt block ctx ++ back := by
  unfold speck128Decrypt
  rw [load_append (by omega),load_append (by omega),List.drop_left' size,
    List.drop_of_length_le (Nat.le_of_eq size)]
  simp only [List.append_nil]

theorem length_encrypt : (speck128Encrypt block ctx).length = 16 := by
  simp only [speck128Encrypt,List.length_append,length_bytesOf,List.length_drop]
  omega

theorem length_decrypt : (speck128Decrypt block ctx).length = 16 := by
  simp only [speck128Decrypt,List.length_append,length_bytesOf,List.length_drop]
  omega

/-- The counter starts from the first block alone. -/
theorem speckCtr_append (text : List Byte) :
    speckCtr text (block ++ back) ctx = speckCtr text block ctx := by
  rw [speckCtr,load_append (by omega),load_append (by omega)]
  rfl

end Behind

theorem decrypt_encrypt (ctx : Context) {block : List Byte} (size : 16 ≤ block.length) :
    speck128Decrypt (speck128Encrypt block ctx) ctx = block := by
  unfold speck128Decrypt speck128Encrypt
  simp only [load_words]
  rw [(DR128_undoes.comap ctx.roundKey).fold,words_load size]

theorem encrypt_decrypt (ctx : Context) {block : List Byte} (size : 16 ≤ block.length) :
    speck128Encrypt (speck128Decrypt block ctx) ctx = block := by
  unfold speck128Decrypt speck128Encrypt
  simp only [load_words]
  rw [(ER128_undoes.comap ctx.roundKey).fold_reverse,words_load size]

/-- The byte that the counter gives for a place of the text. -/
def pad (ctx : Context) (numrounds : Nat) (nonce0 nonce1 : Word) (i : Nat) : Byte :=
  let s := encrypt (nonce1,nonce0 + BitVec.ofNat 64 (i / 16)) ctx numrounds
  (bytesOf 8 s.2 ++ bytesOf 8 s.1).getD (i % 16) 0

theorem pad_add (ctx : Context) (numrounds : Nat) (nonce0 nonce1 : Word) (i : Nat) :
    pad ctx numrounds nonce0 nonce1 (i + 16) = pad ctx numrounds (nonce0 + 1) nonce1 i := by
  have next : (i + 16) / 16 = i / 16 + 1 := Nat.add_div_right i (by decide)
  have counter : nonce0 + BitVec.ofNat 64 (i / 16 + 1) = nonce0 + 1 + BitVec.ofNat 64 (i / 16) := by
    rw [BitVec.ofNat_add,BitVec.add_comm (BitVec.ofNat 64 (i / 16)),← BitVec.add_assoc]
    rfl
  unfold pad
  rw [next,counter,Nat.add_mod_right]

theorem block_eq (ctx : Context) (numrounds : Nat) (nonce0 nonce1 : Word) {text : List Byte}
    (short : text.length ≤ 16) :
    let s := encrypt (nonce1,nonce0) ctx numrounds
    List.zipWith (· ^^^ ·) (bytesOf 8 s.2 ++ bytesOf 8 s.1) text =
      masked (fun a k => k ^^^ a) (pad ctx numrounds nonce0 nonce1) text := by
  intro s
  have size : (bytesOf 8 s.2 ++ bytesOf 8 s.1).length = 16 := by
    rw [List.length_append,length_bytesOf,length_bytesOf]
  apply zipWith_eq_masked (short.trans (Nat.le_of_eq size.symm))
  intro i bound
  rw [size] at bound
  have first : nonce0 + BitVec.ofNat 64 (i / 16) = nonce0 := by
    rw [Nat.div_eq_of_lt bound]
    exact BitVec.add_zero _
  unfold pad
  rw [first,Nat.mod_eq_of_lt bound]
  exact (List.getD_eq_getElem ..).symm

theorem xor_load (word : Word) {bytes : List Byte} {start : Nat}
    (inside : start + 8 ≤ bytes.length) : bytesOf 8 (word ^^^ load bytes start) =
      List.zipWith (· ^^^ ·) (bytesOf 8 word) ((bytes.drop start).take 8) := by
  rw [bytesOf_xor,bytesOf_load inside]

/-- The text is masked, one block of the pad after the other. -/
theorem ctrFrom_eq (ctx : Context) (numrounds : Nat) (nonce0 nonce1 : Word) (input : List Byte) :
    ctrFrom ctx numrounds nonce0 nonce1 input =
      masked (fun a k => k ^^^ a) (pad ctx numrounds nonce0 nonce1) input := by
  fun_induction ctrFrom ctx numrounds nonce0 nonce1 input with
  | case1 nonce0 input s whole ih =>
    have first := block_eq ctx numrounds nonce0 nonce1 (List.length_take_le 16 input)
    have size : (input.take 16).length = 16 := List.length_take_of_le whole
    have halves : input.take 16 = (input.drop 0).take 8 ++ (input.drop 8).take 8 := by
      rw [List.drop_zero,← List.take_add]
    have later : (fun i => pad ctx numrounds nonce0 nonce1 (i + (input.take 16).length)) =
        pad ctx numrounds (nonce0 + 1) nonce1 := by
      funext i
      rw [size,pad_add]
    rw [← List.take_append_drop 16 input,masked_append,later,List.take_append_drop,← ih,← first,
      xor_load _ (by omega),xor_load _ (by omega),halves,List.zipWith_append]
    rw [length_bytesOf,List.drop_zero,List.length_take_of_le (by omega)]
  | case2 nonce0 input s part =>
    exact block_eq ctx numrounds nonce0 nonce1 (Nat.le_of_not_le part)

section Ctr

variable (ctx : Context) (n text : List Byte)

theorem speckCtr_eq : ∃ pad, ∀ text, speckCtr text n ctx = masked (fun a k => k ^^^ a) pad text :=
  ⟨_,fun text => ctrFrom_eq ctx _ (load n 0) (load n 8) text⟩

theorem length_speckCtr : (speckCtr text n ctx).length = text.length := by
  obtain ⟨pad,eq⟩ := speckCtr_eq ctx n
  rw [eq,length_masked]

/-- The same nonce gives the text back. -/
theorem speckCtr_speckCtr : speckCtr (speckCtr text n ctx) n ctx = text := by
  obtain ⟨pad,eq⟩ := speckCtr_eq ctx n
  rw [eq,eq]
  apply masked_masked
  intro a k
  exact xor_twice_left k a

theorem take_speckCtr (size : Nat) :
    (speckCtr text n ctx).take size = speckCtr (text.take size) n ctx := by
  obtain ⟨pad,eq⟩ := speckCtr_eq ctx n
  rw [eq,eq,take_masked]

end Ctr

end Speck
end HmclPe.N2n
