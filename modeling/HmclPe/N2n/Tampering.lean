import HmclPe.N2n.HeaderEncryption

/-! What is altered behind the header comes with another stamp, or is not taken at all. -/
namespace HmclPe.N2n
open Lib.Mixing Lib.Ciphers Speck Pearson

/-- The pad of the hidden bytes, and nothing over the others. -/
theorem hide_eq (iv : List Byte) (ctx : Context) (n : Nat) :
    ∃ pad, ∀ text, hide iv ctx n text = masked (fun a k => k ^^^ a) pad text := by
  obtain ⟨pad,eq⟩ := speckCtr_eq ctx iv
  refine ⟨fun i => if i < n then pad i else 0,fun text => ?_⟩
  have taken : speckCtr (text.take n) iv ctx =
      masked (fun a k => k ^^^ a) (fun i => if i < n then pad i else 0) (text.take n) := by
    rw [eq]
    apply masked_congr
    intro i bound
    rw [List.length_take] at bound
    exact (if_pos (bound.trans_le (Nat.min_le_left ..))).symm
  have left : masked (fun a k => k ^^^ a)
      (fun i => if i + (text.take n).length < n then pad (i + (text.take n).length) else 0)
      (text.drop n) = text.drop n := by
    apply masked_idle
    intro i bound a
    rw [List.length_drop] at bound
    have past : ¬ i + (text.take n).length < n := by
      rw [List.length_take]
      omega
    rw [if_neg past]
    exact BitVec.zero_xor
  rw [hide,taken]
  conv_rhs => rw [← List.take_append_drop n text]
  rw [masked_append,left]

namespace Pearson

/-- A mask leaves the places where two packets differ. -/
theorem Differ.masked {p q : List Byte} (differ : Differ p q) (pad : Nat → Byte) :
    Differ (masked (fun a k => k ^^^ a) pad p) (masked (fun a k => k ^^^ a) pad q) := by
  have involutive (a k : Byte) : k ^^^ (k ^^^ a) = a := xor_twice_left k a
  cases differ with
  | @word n before u v after aligned size size' ne =>
    simp only [masked_append,size,size']
    refine .word (by rw [length_masked,aligned]) (by rw [length_masked,size])
      (by rw [length_masked,size']) ?_
    intro same
    apply ne
    have twice := congrArg (Lib.Ciphers.masked (fun a k => k ^^^ a)
      fun i => pad (i + before.length)) same
    rwa [masked_masked involutive,masked_masked involutive] at twice
  | @byte n before front last b c aligned short ne =>
    simp only [masked_append,masked_cons]
    refine .byte (by rw [length_masked,aligned]) (by simp only [length_masked]; exact short) ?_
    intro same
    apply ne
    have twice := congrArg (pad (0 + front.length + before.length) ^^^ ·) same
    simp only [xor_twice_left] at twice
    exact twice

theorem Differ.behind {p q front : List Byte} (differ : Differ p q) {n : Nat}
    (aligned : front.length = 8 * n) : Differ (front ++ p) (front ++ q) := by
  cases differ with
  | @word m before u v after aligned' size size' ne =>
    rw [← List.append_assoc front,← List.append_assoc front]
    refine .word (n := n + m) ?_ size size' ne
    rw [List.length_append,aligned,aligned',Nat.mul_add]
  | @byte m before first last b c aligned' short ne =>
    rw [← List.append_assoc front,← List.append_assoc front]
    refine .byte (n := n + m) ?_ short ne
    rw [List.length_append,aligned,aligned',Nat.mul_add]

end Pearson

/-- Of two checksums with one upper half, each gives a stamp of its own. -/
theorem stamp_ne {checksum checksum' : Word} (ne : checksum ≠ checksum')
    (upper : checksum >>> 32 = checksum' >>> 32) (seen : Word) :
    seen ^^^ checksum <<< 32 ≠ seen ^^^ checksum' <<< 32 := by
  intro same
  apply ne
  have lower := (xor_bijective_right seen).injective same
  apply BitVec.eq_of_getLsbD_eq
  intro i bound
  by_cases low : i < 32
  · have bit := congrArg (fun x : Word => x.getLsbD (32 + i)) lower
    have inside : 32 + i < 64 := by omega
    have above : ¬ 32 + i < 32 := by omega
    simp only [BitVec.getLsbD_shiftLeft,inside,above,decide_true,decide_false,Bool.not_false,
      Bool.true_and,Nat.add_sub_cancel_left] at bit
    exact bit
  · have bit := congrArg (fun x : Word => x.getLsbD (i - 32)) upper
    have place : 32 + (i - 32) = i := by omega
    simp only [BitVec.getLsbD_ushiftRight,place] at bit
    exact bit

section Altered

variable {ctx ctxIv : Context} {packetLen : BitVec 16} {community : Bytes N2N_COMMUNITY_SIZE}
  {before stamp : Word} {plain : List Byte}

theorem shown_append {head : List Byte} (eight : head.length = 8) (community rest : List Byte) :
    shown community (head ++ rest) = bytesAt head 4 4 ++ community ++ rest := by
  rw [shown,bytesAt_append (Nat.le_of_eq eight.symm),List.drop_left' eight,List.append_assoc]

/-- No packet that differs behind the header, in a word or a last byte, is taken with this stamp. -/
theorem altered {front back back' : List Byte} (size : front.length = 24)
    (whole : packetLen.toNat = (front ++ back).length) (differ : Differ back back')
    (taken : packetHeaderDecrypt (front ++ back) packetLen community ctx ctxIv before =
      some (1,plain,stamp)) (before' : Word) (plain' : List Byte) :
    packetHeaderDecrypt (front ++ back') packetLen community ctx ctxIv before' ≠
      some (1,plain',stamp) := by
  intro taken'
  obtain ⟨iv,head,rfl,sixteen,eight⟩ := cut size (by decide : 16 ≤ 24)
  rw [List.append_assoc] at taken taken'
  have long (rest : List Byte) : 8 ≤ (head ++ rest).length := by
    rw [List.length_append,eight]
    omega
  have said : saidHeaderLen (iv ++ (head ++ back')) ctx =
      saidHeaderLen (iv ++ (head ++ back)) ctx := by
    rw [said_eq sixteen,said_eq sixteen,List.take_append_of_le_length (by omega),
      List.take_append_of_le_length (by omega)]
  obtain ⟨plain_,upper,stamp_⟩ := taken_eq ctx ctxIv sixteen (long back) taken
  obtain ⟨plain_',upper',stamp_'⟩ := taken_eq ctx ctxIv sixteen (long back') taken'
  rw [said] at plain_'
  obtain ⟨pad,masks⟩ := hide_eq iv ctx ((saidHeaderLen (iv ++ (head ++ back)) ctx).toNat - 16)
  rw [masks,masked_append,shown_append (by rw [length_masked,eight])] at plain_ plain_'
  have name : community.toList.length = 20 := community.toList_length
  have twentyFour : (bytesAt (masked (fun a k => k ^^^ a) pad head) 4 4 ++
      community.toList).length = 8 * 3 := by
    simp [bytesAt,eight,name]
  have apart := (differ.masked fun i => pad (i + head.length)).behind twentyFour
  rw [← plain_,← plain_'] at apart
  have length : plain.length = packetLen.toNat := by
    simp only [plain_,List.length_append,length_masked] at whole twentyFour ⊢
    omega
  rw [List.take_of_length_le (Nat.le_of_eq length)] at upper stamp_
  rw [List.take_of_length_le (Nat.le_of_eq (apart.length.symm.trans length))] at upper' stamp_'
  exact stamp_ne apart.hash64_ne (upper.trans upper'.symm) _ (stamp_.symm.trans stamp_')

end Altered

theorem map_not_ne {bytes : List Byte} (some_ : bytes ≠ []) : bytes ≠ bytes.map (~~~·) := by
  have flips (b : Byte) : b ≠ ~~~b := by
    revert b
    decide
  cases bytes with
  | nil => exact absurd rfl some_
  | cons b bytes =>
    intro same
    exact flips b (List.head_eq_of_cons_eq same)

theorem altered_zeros :
    packetHeaderDecrypt (zerosSent.take 24 ++ (zerosSent.drop 24).map (~~~·)) 32 (zeros _)
      plainKeys plainKeys 0 ≠ some (1,List.replicate 32 0,7) := by
  obtain ⟨sent,length⟩ := zeros_sent
  have front : (zerosSent.take 24).length = 24 := List.length_take_of_le (by omega)
  have last : (zerosSent.drop 24).length = 8 := by
    rw [List.length_drop,length]
  have nonempty : zerosSent.drop 24 ≠ [] := by
    intro none_
    rw [none_] at last
    cases last
  have differ : Differ (zerosSent.drop 24) ((zerosSent.drop 24).map (~~~·)) := by
    have word := @Differ.word 0 [] (zerosSent.drop 24) ((zerosSent.drop 24).map (~~~·)) [] rfl last
      (by rw [List.length_map,last]) (map_not_ne nonempty)
    simpa only [List.nil_append,List.append_nil] using word
  have taken := (decrypt_of_encrypt plainKeys plainKeys (by decide) (by decide) (by decide)
    (by decide) (by decide : bytesAt (List.replicate 32 0) 4 20 = (zeros _).toList) sent 0).2
  rw [← List.take_append_drop 24 zerosSent] at taken
  exact altered front (by rw [List.take_append_drop,length]; rfl) differ taken 0 _

end HmclPe.N2n
