import HmclPe.N2n.Pearson

/-! Packets whose header is hidden behind the name of the community, with a stamp and a checksum. -/
namespace HmclPe.N2n
open Lib.Mixing Speck Pearson

/-- Some bytes of a packet. -/
def bytesAt (packet : List Byte) (start size : Nat) : List Byte := (packet.drop start).take size

/-- A packet once some of its bytes are written. -/
def writeAt (packet : List Byte) (start : Nat) (bytes : List Byte) : List Byte :=
  packet.take start ++ (bytes ++ packet.drop (start + bytes.length))

/-- A number as the network has it. -/
def htobe {w : Nat} (size : Nat) (word : BitVec w) : List Byte := (bytesOf size word).reverse

def betoh (w : Nat) (bytes : List Byte) : BitVec w := littleEndian w bytes.reverse

/-- The letters n2 of an ASCII n2__. -/
def magic : BitVec 32 := 0x6E320000

/-- What the four bytes behind the IV say, under a key. -/
def saidHeaderLen (packet : List Byte) (ctx : Context) : BitVec 32 :=
  betoh 32 (speckCtr (bytesAt packet 16 4) packet ctx) - magic

/-- The result, the packet and the stamp; a fault where a buffer is left. -/
def packetHeaderDecrypt (packet : List Byte) (packetLen : BitVec 16)
    (communityName : Bytes N2N_COMMUNITY_SIZE) (ctx ctxIv : Context) (stamp : Word) :
    Option (Int × List Byte × Word) :=
  if packet.length < 24 ∨ packet.length < packetLen.toNat then none
  else
    let headerLen := saidHeaderLen packet ctx
    if headerLen.toNat ≤ packetLen.toNat then
      -- A shorter header wraps around, and all of the memory would be decrypted.
      if headerLen.toNat < 16 then none
      else
        let packet := writeAt packet 16
          (speckCtr (bytesAt packet 16 (headerLen.toNat - 16)) packet ctx)
        let packet := speck128Decrypt packet ctxIv
        let stamp := betoh 64 (bytesAt packet 4 8)
        let checksumHigh := betoh 32 (bytesAt packet 0 4)
        let packet := writeAt packet 0 (bytesAt packet 20 4)
        let packet := writeAt packet 4 communityName.toList
        let checksum := hash64 (packet.take packetLen.toNat)
        if checksum >>> 32 ≠ checksumHigh.setWidth 64 then some (0,packet,stamp)
        else some (1,packet,stamp ^^^ checksum <<< 32)
    else some (0,packet,stamp)

/-- The packet in its new order, with checksum, time stamp and noise in its first block. -/
def writePreIv (packet : List Byte) (checksum stamp : Word) (rand : BitVec 32) : List Byte :=
  let packet := writeAt packet 20 (bytesAt packet 0 4)
  let packet := writeAt packet 0 (htobe 8 checksum)
  let packet := writeAt packet 4 (List.zipWith (· ^^^ ·) (bytesAt packet 4 4)
    (htobe 4 ((stamp >>> 32).setWidth 32 : BitVec 32)))
  let packet := writeAt packet 8 (htobe 4 (stamp.setWidth 32 : BitVec 32))
  writeAt packet 12 (bytesOf 4 rand)

def packetHeaderEncrypt (packet : List Byte) (headerLen packetLen : BitVec 16)
    (ctx ctxIv : Context) (stamp : Word) (rand : BitVec 32) : Option (Int × List Byte) :=
  if packetLen.toNat < 24 then some (-1,packet)
  else if packet.length < packetLen.toNat ∨ packet.length < headerLen.toNat ∨
      headerLen.toNat < 16 then none
  else
    let checksum := hash64 (packet.take packetLen.toNat)
    let packet := speck128Encrypt (writePreIv packet checksum stamp rand) ctxIv
    let packet := writeAt packet 16 (htobe 4 (magic + headerLen.setWidth 32))
    let packet := writeAt packet 16 (speckCtr (bytesAt packet 16 (headerLen.toNat - 16)) packet ctx)
    some (0,packet)

section Bytes

theorem length_htobe {w : Nat} (size : Nat) (word : BitVec w) :
    (htobe size word).length = size := by
  rw [htobe,List.length_reverse,length_bytesOf]

/-- Some bytes that start a list. -/
theorem cut {bytes : List Byte} {total : Nat} (length : bytes.length = total) {size : Nat}
    (enough : size ≤ total) : ∃ front back, bytes = front ++ back ∧ front.length = size ∧
      back.length = total - size :=
  ⟨bytes.take size,bytes.drop size,(List.take_append_drop ..).symm,
    List.length_take_of_le (enough.trans (Nat.le_of_eq length.symm)),
    by rw [List.length_drop,length]⟩

theorem bytesAt_eq {front bytes back : List Byte} {start size : Nat} (at_ : front.length = start)
    (length : bytes.length = size) : bytesAt (front ++ (bytes ++ back)) start size = bytes := by
  rw [bytesAt,List.drop_left' at_,List.take_left' length]

theorem writeAt_eq {front bytes back new : List Byte} {start : Nat} (at_ : front.length = start)
    (length : new.length = bytes.length) :
    writeAt (front ++ (bytes ++ back)) start new = front ++ (new ++ back) := by
  have behind : front ++ (bytes ++ back) = front ++ bytes ++ back := (List.append_assoc ..).symm
  rw [writeAt,List.take_left' at_,behind,List.drop_left' (by rw [List.length_append,at_,length])]

theorem bytesOf_halves (word : Word) : bytesOf 8 word =
    bytesOf 4 (word.setWidth 32 : BitVec 32) ++
      bytesOf 4 ((word >>> 32).setWidth 32 : BitVec 32) := by
  apply List.ext_getElem
  · simp [length_bytesOf]
  · intro i bound _
    rw [length_bytesOf] at bound
    rw [getElem_bytesOf]
    by_cases low : i < 4
    · rw [List.getElem_append_left (by rw [length_bytesOf]; exact low),getElem_bytesOf]
      ext j small
      simp
      omega
    · rw [List.getElem_append_right (by rw [length_bytesOf]; omega),getElem_bytesOf]
      ext j small
      have place : 32 + (8 * (i - 4) + j) = 8 * i + j := by omega
      have inside : 8 * (i - 4) + j < 32 := by omega
      simp [length_bytesOf,place,inside]

/-- The upper half goes first. -/
theorem htobe_halves (word : Word) : htobe 8 word =
    htobe 4 ((word >>> 32).setWidth 32 : BitVec 32) ++ htobe 4 (word.setWidth 32 : BitVec 32) := by
  rw [htobe,bytesOf_halves,List.reverse_append]
  rfl

theorem htobe_xor {w : Nat} (size : Nat) (x y : BitVec w) :
    List.zipWith (· ^^^ ·) (htobe size x) (htobe size y) = htobe size (x ^^^ y) := by
  have sizes : (bytesOf size x).length = (bytesOf size y).length := by
    rw [length_bytesOf,length_bytesOf]
  rw [htobe,htobe,htobe,bytesOf_xor,List.reverse_zipWith sizes]

theorem betoh_htobe {w size : Nat} (fits : w = 8 * size) (word : BitVec w) :
    betoh w (htobe size word) = word := by
  rw [betoh,htobe,List.reverse_reverse,littleEndian_bytesOf fits]

theorem htobe_betoh {w size : Nat} (fits : 8 * size ≤ w) {bytes : List Byte}
    (length : bytes.length = size) : htobe size (betoh w bytes) = bytes := by
  rw [betoh,htobe,bytesOf_littleEndian fits (by rw [List.length_reverse,length]),
    List.reverse_reverse]

end Bytes

/-- The first block before it is hidden: the checksum, the stamp over its lower half, and noise. -/
def preIv (checksum stamp : Word) (rand : BitVec 32) : List Byte :=
  htobe 4 ((checksum >>> 32).setWidth 32 : BitVec 32) ++
    (htobe 4 (checksum.setWidth 32 ^^^ (stamp >>> 32).setWidth 32 : BitVec 32) ++
      (htobe 4 (stamp.setWidth 32 : BitVec 32) ++ bytesOf 4 rand))

/-- The lower half of the checksum is the upper half of what is seen of the stamp. -/
theorem preIv_eq (checksum stamp : Word) (rand : BitVec 32) : preIv checksum stamp rand =
    htobe 4 ((checksum >>> 32).setWidth 32 : BitVec 32) ++
      (htobe 8 (stamp ^^^ checksum <<< 32) ++ bytesOf 4 rand) := by
  have upper : ((stamp ^^^ checksum <<< 32) >>> 32).setWidth 32 =
      (checksum.setWidth 32 ^^^ (stamp >>> 32).setWidth 32 : BitVec 32) := by
    ext i bound
    simp
    grind
  have lower : (stamp ^^^ checksum <<< 32).setWidth 32 = (stamp.setWidth 32 : BitVec 32) := by
    ext i bound
    simp
  rw [htobe_halves,upper,lower,List.append_assoc]
  rfl

theorem preIv_seen (checksum stamp : Word) (rand : BitVec 32) :
    betoh 32 (bytesAt (preIv checksum stamp rand) 0 4) = (checksum >>> 32).setWidth 32 ∧
      betoh 64 (bytesAt (preIv checksum stamp rand) 4 8) = stamp ^^^ checksum <<< 32 := by
  have first := @bytesAt_eq [] (htobe 4 ((checksum >>> 32).setWidth 32 : BitVec 32))
    (htobe 8 (stamp ^^^ checksum <<< 32) ++ bytesOf 4 rand) 0 4 rfl (length_htobe ..)
  rw [List.nil_append] at first
  rw [preIv_eq,first,bytesAt_eq (length_htobe ..) (length_htobe ..),betoh_htobe (by decide),
    betoh_htobe (by decide)]
  exact ⟨rfl,rfl⟩

/-- Every block is the one of a checksum, a stamp and noise. -/
theorem preIv_of_seen {pre : List Byte} (size : pre.length = 16) {checksum : Word}
    (same : checksum >>> 32 = (betoh 32 (bytesAt pre 0 4)).setWidth 64) :
    preIv checksum (betoh 64 (bytesAt pre 4 8) ^^^ checksum <<< 32)
      (littleEndian 32 (bytesAt pre 12 4)) = pre := by
  obtain ⟨high,more,rfl,s1,left⟩ := cut size (by decide : 4 ≤ 16)
  obtain ⟨seen,noise,rfl,s2,s3⟩ := cut left (by decide : 8 ≤ 12)
  have first : bytesAt (high ++ (seen ++ noise)) 0 4 = high := @bytesAt_eq [] high _ 0 4 rfl s1
  have last : bytesAt (high ++ (seen ++ noise)) 12 4 = noise := by
    have taken := @bytesAt_eq (high ++ seen) noise [] 12 4 (by simp [s1,s2]) s3
    simpa only [List.append_assoc,List.append_nil] using taken
  rw [first] at same
  have upper : (checksum >>> 32).setWidth 32 = betoh 32 high := by
    rw [same]
    ext i bound
    simp
  rw [bytesAt_eq s1 s2,last,preIv_eq,upper,xor_twice,htobe_betoh (by decide) s1,
    htobe_betoh (by decide) s2,bytesOf_littleEndian (by decide) s3]

theorem upper_again (checksum : Word) :
    checksum >>> 32 = ((checksum >>> 32).setWidth 32 : BitVec 32).setWidth 64 := by
  ext i bound
  simp
  grind

/-- The first bytes of a text under the counter, and the others as they are. -/
def hide (iv : List Byte) (ctx : Context) (size : Nat) (text : List Byte) : List Byte :=
  speckCtr (text.take size) iv ctx ++ text.drop size

theorem length_preIv (checksum stamp : Word) (rand : BitVec 32) :
    (preIv checksum stamp rand).length = 16 := by
  simp only [preIv,List.length_append,length_htobe,length_bytesOf]

/-- What stands behind the first block: what was in the magic's place, the header, the rest. -/
theorem writePreIv_eq {first community rest : List Byte} (four : first.length = 4)
    (twenty : community.length = 20) (checksum stamp : Word) (rand : BitVec 32) :
    writePreIv (first ++ (community ++ rest)) checksum stamp rand =
      preIv checksum stamp rand ++ (bytesAt community 12 4 ++ (first ++ rest)) := by
  -- The five words of the community, which the writes come to one by one.
  obtain ⟨c1,more,rfl,s1,left⟩ := cut twenty (by decide : 4 ≤ 20)
  obtain ⟨c2,more,rfl,s2,left⟩ := cut left (by decide : 4 ≤ 16)
  obtain ⟨c3,more,rfl,s3,left⟩ := cut left (by decide : 4 ≤ 12)
  obtain ⟨c4,c5,rfl,s4,s5⟩ := cut left (by decide : 4 ≤ 8)
  have moved : writeAt (first ++ (c1 ++ (c2 ++ (c3 ++ (c4 ++ (c5 ++ rest)))))) 20
      (bytesAt (first ++ (c1 ++ (c2 ++ (c3 ++ (c4 ++ (c5 ++ rest)))))) 0 4) =
      first ++ (c1 ++ (c2 ++ (c3 ++ (c4 ++ (first ++ rest))))) := by
    have taken := @bytesAt_eq [] first (c1 ++ (c2 ++ (c3 ++ (c4 ++ (c5 ++ rest))))) 0 4 rfl four
    rw [List.nil_append] at taken
    have written := @writeAt_eq (first ++ (c1 ++ (c2 ++ (c3 ++ c4)))) c5 rest first 20
      (by simp [four,s1,s2,s3,s4]) (four.trans s5.symm)
    rw [taken]
    simpa only [List.append_assoc] using written
  have summed : writeAt (first ++ (c1 ++ (c2 ++ (c3 ++ (c4 ++ (first ++ rest)))))) 0
      (htobe 8 checksum) = htobe 8 checksum ++ (c2 ++ (c3 ++ (c4 ++ (first ++ rest)))) := by
    have written := @writeAt_eq [] (first ++ c1) (c2 ++ (c3 ++ (c4 ++ (first ++ rest))))
      (htobe 8 checksum) 0 rfl (by simp [length_htobe,four,s1])
    simpa only [List.append_assoc,List.nil_append] using written
  have fourth : bytesAt (c1 ++ (c2 ++ (c3 ++ (c4 ++ c5)))) 12 4 = c4 := by
    have taken := @bytesAt_eq (c1 ++ (c2 ++ c3)) c4 c5 12 4 (by simp [s1,s2,s3]) s4
    simpa only [List.append_assoc] using taken
  unfold writePreIv
  simp only [List.append_assoc,moved,summed,fourth]
  rw [htobe_halves,List.append_assoc,bytesAt_eq (length_htobe ..) (length_htobe ..),htobe_xor,
    writeAt_eq (length_htobe ..) ((length_htobe ..).trans (length_htobe ..).symm),
    ← List.append_assoc (htobe 4 _) (htobe 4 _),
    writeAt_eq (by simp [length_htobe]) ((length_htobe ..).trans s2.symm),
    ← List.append_assoc (_ ++ _) (htobe 4 _),
    writeAt_eq (by simp [length_htobe]) ((length_bytesOf ..).trans s3.symm)]
  simp only [preIv,List.append_assoc]

/-- The bytes behind the first block, some of which are hidden in place. -/
theorem writeAt_hide {iv text : List Byte} (size : iv.length = 16) {n : Nat}
    (inside : n ≤ text.length) (ctx : Context) :
    writeAt (iv ++ text) 16 (speckCtr (bytesAt (iv ++ text) 16 n) (iv ++ text) ctx) =
      iv ++ hide iv ctx n text := by
  have taken : (text.take n).length = n := List.length_take_of_le inside
  have split : iv ++ text = iv ++ (text.take n ++ text.drop n) := by
    rw [List.take_append_drop]
  rw [speckCtr_append ctx size,split,bytesAt_eq size taken,
    writeAt_eq size (length_speckCtr ctx iv (text.take n))]
  rfl

theorem encrypt_eq {first community rest : List Byte} (four : first.length = 4)
    (twenty : community.length = 20) {headerLen packetLen : BitVec 16}
    (least : 24 ≤ packetLen.toNat) (most : packetLen.toNat ≤ 24 + rest.length)
    (enough : 16 ≤ headerLen.toNat) (inside : headerLen.toNat ≤ 24 + rest.length)
    (ctx ctxIv : Context) (stamp : Word) (rand : BitVec 32) :
    let plain := first ++ (community ++ rest)
    let iv := speck128Encrypt (preIv (hash64 (plain.take packetLen.toNat)) stamp rand) ctxIv
    packetHeaderEncrypt plain headerLen packetLen ctx ctxIv stamp rand = some (0,iv ++
      hide iv ctx (headerLen.toNat - 16)
        (htobe 4 (magic + headerLen.setWidth 32) ++ (first ++ rest))) := by
  intro plain iv
  have length : plain.length = 24 + rest.length := by
    simp only [plain,List.length_append,four,twenty]
    omega
  have long : ¬ packetLen.toNat < 24 := Nat.not_lt.mpr least
  have fine : ¬ (plain.length < packetLen.toNat ∨ plain.length < headerLen.toNat ∨
      headerLen.toNat < 16) := by
    omega
  rw [packetHeaderEncrypt,if_neg long,if_neg fine]
  have block := length_preIv (hash64 (plain.take packetLen.toNat)) stamp rand
  have size : iv.length = 16 := length_encrypt ctxIv block
  have old : (bytesAt community 12 4).length = 4 := by
    simp [bytesAt,twenty]
  have written : speck128Encrypt
      (writePreIv plain (hash64 (plain.take packetLen.toNat)) stamp rand) ctxIv =
      iv ++ (bytesAt community 12 4 ++ (first ++ rest)) := by
    rw [writePreIv_eq four twenty,encrypt_append ctxIv block]
  have within : headerLen.toNat - 16 ≤
      (htobe 4 (magic + headerLen.setWidth 32) ++ (first ++ rest)).length := by
    simp only [List.length_append,length_htobe,four]
    omega
  simp only [written]
  rw [writeAt_eq size ((length_htobe ..).trans old.symm),writeAt_hide size within]

theorem length_hide (iv : List Byte) (ctx : Context) (n : Nat) (text : List Byte) :
    (hide iv ctx n text).length = text.length := by
  rw [hide,List.length_append,length_speckCtr,← List.length_append,List.take_append_drop]

/-- What is hidden twice is seen again. -/
theorem hide_hide (iv : List Byte) (ctx : Context) (n : Nat) (text : List Byte) :
    hide iv ctx n (hide iv ctx n text) = text := by
  by_cases inside : n ≤ text.length
  · have taken : (speckCtr (text.take n) iv ctx).length = n := by
      rw [length_speckCtr,List.length_take_of_le inside]
    unfold hide
    rw [List.take_left' taken,List.drop_left' taken,speckCtr_speckCtr,List.take_append_drop]
  · have short : text.length ≤ n := Nat.le_of_not_le inside
    have all : hide iv ctx n text = speckCtr text iv ctx := by
      rw [hide,List.take_of_length_le short,List.drop_of_length_le short,List.append_nil]
    rw [all,hide,List.take_of_length_le (by rw [length_speckCtr]; exact short),
      List.drop_of_length_le (by rw [length_speckCtr]; exact short),List.append_nil,
      speckCtr_speckCtr]

theorem take_hide (iv : List Byte) (ctx : Context) {n size : Nat} (less : size ≤ n)
    {text : List Byte} (inside : n ≤ text.length) :
    (hide iv ctx n text).take size = speckCtr (text.take size) iv ctx := by
  have enough : size ≤ (speckCtr (text.take n) iv ctx).length := by
    rw [length_speckCtr,List.length_take_of_le inside]
    exact less
  rw [hide,List.take_append_of_le_length enough,take_speckCtr,List.take_take,Nat.min_eq_left less]

theorem said_eq {iv body : List Byte} (size : iv.length = 16) (ctx : Context) :
    saidHeaderLen (iv ++ body) ctx = betoh 32 (speckCtr (body.take 4) iv ctx) - magic := by
  have taken : bytesAt (iv ++ body) 16 4 = body.take 4 := by
    rw [bytesAt,List.drop_left' size]
  rw [saidHeaderLen,taken,speckCtr_append ctx size]

/-- The community's name and the header where they belong, and what lies behind them. -/
def shown (community : List Byte) (text : List Byte) : List Byte :=
  bytesAt text 4 4 ++ (community ++ text.drop 8)

theorem shown_eq {mark first rest : List Byte} (four : mark.length = 4) (four' : first.length = 4)
    (community : List Byte) :
    shown community (mark ++ (first ++ rest)) = first ++ (community ++ rest) := by
  have behind : (mark ++ (first ++ rest)).drop 8 = rest := by
    rw [← List.append_assoc]
    exact List.drop_left' (by rw [List.length_append,four,four'])
  rw [shown,bytesAt_eq four four',behind]

theorem bytesAt_append {front : List Byte} {start size : Nat}
    (inside : start + size ≤ front.length) (back : List Byte) :
    bytesAt (front ++ back) start size = bytesAt front start size := by
  have enough : size ≤ (front.drop start).length := by
    rw [List.length_drop]
    omega
  rw [bytesAt,List.drop_append_of_le_length (by omega),List.take_append_of_le_length enough]
  rfl

/-- The header goes back over the first block, and the name over what hid it. -/
theorem restore_eq {pre text : List Byte} (size : pre.length = 16) (eight : 8 ≤ text.length)
    (community : Bytes N2N_COMMUNITY_SIZE) :
    writeAt (writeAt (pre ++ text) 0 (bytesAt (pre ++ text) 20 4)) 4 community.toList =
      shown community.toList text := by
  obtain ⟨p,q,rfl,s1,s2⟩ := cut size (by decide : 4 ≤ 16)
  obtain ⟨m,more,rfl,s3,left⟩ := cut rfl (by omega : 4 ≤ text.length)
  obtain ⟨f,rest,rfl,s4,-⟩ := cut left (by omega : 4 ≤ (m ++ more).length - 4)
  have twenty : community.toList.length = 20 := community.toList_length
  have taken : bytesAt (p ++ q ++ (m ++ (f ++ rest))) 20 4 = f := by
    have taken := @bytesAt_eq (p ++ (q ++ m)) f rest 20 4 (by simp [s1,s2,s3]) s4
    simpa only [List.append_assoc] using taken
  have first := @writeAt_eq [] p (q ++ (m ++ (f ++ rest))) f 0 rfl (s4.trans s1.symm)
  have second := @writeAt_eq f (q ++ (m ++ f)) rest community.toList 4 s4
    (by simp [twenty,s2,s3,s4])
  simp only [List.append_assoc,List.nil_append] at first second taken ⊢
  rw [taken,first,second,shown_eq s3 s4]

theorem decrypt_eq {iv body : List Byte} (size : iv.length = 16) {packetLen : BitVec 16}
    (eight : 8 ≤ body.length) (most : packetLen.toNat ≤ 16 + body.length) (ctx ctxIv : Context)
    (enough : 16 ≤ (saidHeaderLen (iv ++ body) ctx).toNat)
    (inside : (saidHeaderLen (iv ++ body) ctx).toNat ≤ packetLen.toNat)
    (community : Bytes N2N_COMMUNITY_SIZE) (stamp : Word) :
    let text := hide iv ctx ((saidHeaderLen (iv ++ body) ctx).toNat - 16) body
    let pre := speck128Decrypt iv ctxIv
    let plain := shown community.toList text
    let checksum := hash64 (plain.take packetLen.toNat)
    let seen := betoh 64 (bytesAt pre 4 8)
    packetHeaderDecrypt (iv ++ body) packetLen community ctx ctxIv stamp =
      if checksum >>> 32 ≠ (betoh 32 (bytesAt pre 0 4)).setWidth 64 then some ((0 : Int),plain,seen)
      else some (1,plain,seen ^^^ checksum <<< 32) := by
  intro text pre plain checksum seen
  have length : (iv ++ body).length = 16 + body.length := by rw [List.length_append,size]
  have fine : ¬ ((iv ++ body).length < 24 ∨ (iv ++ body).length < packetLen.toNat) := by omega
  have long : ¬ (saidHeaderLen (iv ++ body) ctx).toNat < 16 := Nat.not_lt.mpr enough
  have hidden := writeAt_hide size
    (by omega : (saidHeaderLen (iv ++ body) ctx).toNat - 16 ≤ body.length) ctx
  have opened := decrypt_append ctxIv size text
  have size' : pre.length = 16 := length_decrypt ctxIv size
  have restored := restore_eq size' ((length_hide ..).symm ▸ eight : 8 ≤ text.length) community
  have four := bytesAt_append (by omega : 0 + 4 ≤ pre.length) text
  have later := bytesAt_append (by omega : 4 + 8 ≤ pre.length) text
  rw [packetHeaderDecrypt,if_neg fine]
  simp only
  rw [if_pos inside,if_neg long,hidden]
  simp only [text] at opened
  rw [opened,four,later,restored]

section Header

variable {packetLen headerLen : BitVec 16} (ctx ctxIv : Context)

theorem magic_say (headerLen : BitVec 16) :
    magic + headerLen.setWidth 32 - magic = headerLen.setWidth 32 := by
  rw [BitVec.add_comm,BitVec.add_sub_cancel]

theorem toNat_said (headerLen : BitVec 16) :
    (headerLen.setWidth 32 : BitVec 32).toNat = headerLen.toNat :=
  BitVec.toNat_setWidth_of_le (by decide)

/-- Behind the hidden mark is the header length. -/
theorem said_hide {iv text : List Byte} (size : iv.length = 16) {n : Nat} (four : 4 ≤ n)
    (inside : n ≤ text.length) :
    saidHeaderLen (iv ++ hide iv ctx n text) ctx = betoh 32 (text.take 4) - magic := by
  rw [said_eq size,take_hide iv ctx four inside,speckCtr_speckCtr]

/-- What a packet that is taken says: its checksum, and its stamp by what is seen. -/
theorem taken_eq {iv body : List Byte} (size : iv.length = 16) (eight : 8 ≤ body.length)
    {community : Bytes N2N_COMMUNITY_SIZE} {stamp before : Word} {plain : List Byte}
    (taken : packetHeaderDecrypt (iv ++ body) packetLen community ctx ctxIv before =
      some (1,plain,stamp)) :
    let text := hide iv ctx ((saidHeaderLen (iv ++ body) ctx).toNat - 16) body
    let pre := speck128Decrypt iv ctxIv
    let checksum := hash64 (plain.take packetLen.toNat)
    plain = shown community.toList text ∧
      checksum >>> 32 = (betoh 32 (bytesAt pre 0 4)).setWidth 64 ∧
      stamp = betoh 64 (bytesAt pre 4 8) ^^^ checksum <<< 32 := by
  intro text pre checksum
  have fine : ¬ ((iv ++ body).length < 24 ∨ (iv ++ body).length < packetLen.toNat) := by
    intro short
    rw [packetHeaderDecrypt,if_pos short] at taken
    cases taken
  have inside : (saidHeaderLen (iv ++ body) ctx).toNat ≤ packetLen.toNat := by
    by_contra beyond
    rw [packetHeaderDecrypt,if_neg fine] at taken
    simp only [if_neg beyond] at taken
    cases taken
  have enough : ¬ (saidHeaderLen (iv ++ body) ctx).toNat < 16 := by
    intro short
    rw [packetHeaderDecrypt,if_neg fine] at taken
    simp only [if_pos inside,if_pos short] at taken
    cases taken
  rw [List.length_append,size] at fine
  rw [decrypt_eq size eight (by omega) ctx ctxIv (by omega) inside] at taken
  split at taken
  · cases taken
  · rename_i same
    cases taken
    exact ⟨rfl,not_ne_iff.mp same,rfl⟩

/-- What the sender hides is what the receiver sees. -/
theorem decrypt_of_encrypt {plain packet : List Byte} (least : 24 ≤ packetLen.toNat)
    (most : packetLen.toNat ≤ plain.length) (enough : 20 ≤ headerLen.toNat)
    (inside : headerLen.toNat ≤ packetLen.toNat) {community : Bytes N2N_COMMUNITY_SIZE}
    (named : bytesAt plain 4 20 = community.toList) {stamp : Word} {rand : BitVec 32}
    (sent : packetHeaderEncrypt plain headerLen packetLen ctx ctxIv stamp rand = some (0,packet))
    (before : Word) :
    saidHeaderLen packet ctx = headerLen.setWidth 32 ∧
      packetHeaderDecrypt packet packetLen community ctx ctxIv before = some (1,plain,stamp) := by
  obtain ⟨first,more,rfl,four,left⟩ := cut rfl (by omega : 4 ≤ plain.length)
  obtain ⟨name,rest,rfl,twenty,left⟩ := cut left (by omega : 20 ≤ (first ++ more).length - 4)
  obtain rfl : name = community.toList := (bytesAt_eq four twenty).symm.trans named
  have length : (first ++ (community.toList ++ rest)).length = 24 + rest.length := by
    simp only [List.length_append,four,twenty]
    omega
  rw [encrypt_eq four twenty least (most.trans (Nat.le_of_eq length)) (by omega) (by omega)] at sent
  obtain rfl := (Prod.mk.inj (Option.some.inj sent)).2
  generalize sum : hash64 (List.take packetLen.toNat (first ++ (community.toList ++ rest))) =
    checksum
  have block := length_preIv checksum stamp rand
  have size := length_encrypt ctxIv block
  have opened := decrypt_encrypt ctxIv (Nat.le_of_eq block.symm)
  generalize speck128Encrypt (preIv checksum stamp rand) ctxIv = iv at size opened ⊢
  generalize written : htobe 4 (magic + headerLen.setWidth 32) ++ (first ++ rest) = text
  have eight : 8 ≤ text.length := by
    simp only [← written,List.length_append,length_htobe,four]
    omega
  have total : text.length = 8 + rest.length := by
    simp only [← written,List.length_append,length_htobe,four]
    omega
  have size' : 8 ≤ (hide iv ctx (headerLen.toNat - 16) text).length := by
    rw [length_hide]
    exact eight
  have said : saidHeaderLen (iv ++ hide iv ctx (headerLen.toNat - 16) text) ctx =
      headerLen.setWidth 32 := by
    rw [said_hide ctx size (by omega) (by omega),← written,List.take_left' (length_htobe ..),
      betoh_htobe (by decide),magic_say]
  have wide := toNat_said headerLen
  refine ⟨said,?_⟩
  rw [decrypt_eq size size' (by rw [length_hide]; omega) ctx ctxIv (by rw [said,wide]; omega)
    (by rw [said,wide]; exact inside)]
  rw [said,wide,hide_hide,opened]
  have seen : shown community.toList text = first ++ (community.toList ++ rest) := by
    rw [← written,shown_eq (length_htobe ..) four]
  obtain ⟨high,low⟩ := preIv_seen checksum stamp rand
  rw [seen,sum,high,low,if_neg (not_not_intro (upper_again checksum)),xor_twice]

/-- What the receiver takes is what some sender hid. -/
theorem encrypt_of_decrypt {plain packet : List Byte} (least : 24 ≤ packetLen.toNat)
    (most : packetLen.toNat ≤ packet.length) (enough : 20 ≤ headerLen.toNat)
    (inside : headerLen.toNat ≤ packetLen.toNat) {community : Bytes N2N_COMMUNITY_SIZE}
    {stamp before : Word} (said : saidHeaderLen packet ctx = headerLen.setWidth 32)
    (taken : packetHeaderDecrypt packet packetLen community ctx ctxIv before =
      some (1,plain,stamp)) :
    packetLen.toNat ≤ plain.length ∧ bytesAt plain 4 20 = community.toList ∧
      ∃ rand, packetHeaderEncrypt plain headerLen packetLen ctx ctxIv stamp rand =
        some (0,packet) := by
  obtain ⟨iv,body,rfl,size,left⟩ := cut rfl (by omega : 16 ≤ packet.length)
  rw [List.length_append] at most left
  obtain ⟨plain_,upper,stamp_⟩ := taken_eq ctx ctxIv size (by omega) taken
  rw [said,toNat_said] at plain_
  have hidden := hide_hide iv ctx (headerLen.toNat - 16) body
  have total := length_hide iv ctx (headerLen.toNat - 16) body
  generalize hide iv ctx (headerLen.toNat - 16) body = text at plain_ hidden total
  obtain ⟨mark,more,rfl,four,left'⟩ := cut rfl (by omega : 4 ≤ text.length)
  obtain ⟨first,rest,rfl,four',left'⟩ := cut left' (by omega : 4 ≤ (mark ++ more).length - 4)
  have twenty : community.toList.length = 20 := community.toList_length
  have marked : mark = htobe 4 (magic + headerLen.setWidth 32) := by
    rw [← hidden,said_hide ctx size (by omega) (by omega),List.take_left' four] at said
    have sum : betoh 32 mark = magic + headerLen.setWidth 32 := by
      rw [← said,BitVec.add_comm,BitVec.sub_add_cancel]
    rw [← sum,htobe_betoh (by decide) four]
  rw [shown_eq four four'] at plain_
  have length : plain.length = 24 + rest.length := by
    simp only [plain_,List.length_append,four',twenty]
    omega
  simp only [List.length_append,four,four'] at total
  subst plain_ stamp_
  refine ⟨by omega,bytesAt_eq four' twenty,
    littleEndian 32 (bytesAt (speck128Decrypt iv ctxIv) 12 4),?_⟩
  rw [encrypt_eq four' twenty least (by omega) (by omega) (by omega)]
  rw [preIv_of_seen (length_decrypt ctxIv size) upper,
    encrypt_decrypt ctxIv (Nat.le_of_eq size.symm),← marked,hidden]

/-- A packet is taken exactly if its header length, stamp and some noise give it again. -/
theorem decrypt_iff (least : 24 ≤ packetLen.toNat) (enough : 20 ≤ headerLen.toNat)
    (inside : headerLen.toNat ≤ packetLen.toNat) (community : Bytes N2N_COMMUNITY_SIZE)
    (packet plain : List Byte) (stamp before : Word) :
    (saidHeaderLen packet ctx = headerLen.setWidth 32 ∧
      packetHeaderDecrypt packet packetLen community ctx ctxIv before = some (1,plain,stamp)) ↔
    (bytesAt plain 4 20 = community.toList ∧ ∃ rand,
      packetHeaderEncrypt plain headerLen packetLen ctx ctxIv stamp rand = some (0,packet)) := by
  constructor
  · rintro ⟨said,taken⟩
    have most : packetLen.toNat ≤ packet.length := by
      by_contra beyond
      rw [packetHeaderDecrypt,if_pos (.inr (Nat.not_le.mp beyond))] at taken
      cases taken
    exact (encrypt_of_decrypt ctx ctxIv least most enough inside said taken).2
  · rintro ⟨named,rand,sent⟩
    have most : packetLen.toNat ≤ plain.length := by
      by_contra beyond
      rw [packetHeaderEncrypt,if_neg (Nat.not_lt.mpr least),
        if_pos (.inl (Nat.not_le.mp beyond))] at sent
      cases sent
    exact decrypt_of_encrypt ctx ctxIv least most enough inside named sent before

end Header

/-- Keys of zeros. -/
def plainKeys : Context := ⟨List.Vector.replicate 34 0,128⟩

/-- What is sent of some zeros under keys of zeros. -/
def zerosSent : List Byte :=
  ((packetHeaderEncrypt (List.replicate 32 0) 24 32 plainKeys plainKeys 7 0).map Prod.snd).getD []

theorem zeros_sent : packetHeaderEncrypt (List.replicate 32 0) 24 32 plainKeys plainKeys 7 0 =
    some (0,zerosSent) ∧ zerosSent.length = 32 := by
  have sent := @encrypt_eq (List.replicate 4 0) (List.replicate 20 0) (List.replicate 8 0)
    List.length_replicate List.length_replicate 24 32 (by decide) (by decide) (by decide)
    (by decide) plainKeys plainKeys 7 0
  have joined : List.replicate 4 (0 : Byte) ++ (List.replicate 20 0 ++ List.replicate 8 0) =
      List.replicate 32 0 := by
    rw [← List.replicate_add,← List.replicate_add]
  simp only [joined] at sent
  rw [zerosSent,sent]
  refine ⟨rfl,?_⟩
  simp only [Option.map_some,Option.getD_some,List.length_append,length_hide,length_htobe,
    List.length_replicate,length_encrypt plainKeys (length_preIv ..)]

theorem decrypt_iff_zeros :
    saidHeaderLen zerosSent plainKeys = BitVec.setWidth 32 (24 : BitVec 16) ∧
    packetHeaderDecrypt zerosSent 32 (zeros _) plainKeys plainKeys 0 =
      some (1,List.replicate 32 0,7) :=
  (decrypt_iff plainKeys plainKeys (by decide) (by decide) (by decide) (zeros _) zerosSent
    (List.replicate 32 0) 7 0).mpr ⟨by decide,0,zeros_sent.1⟩

end HmclPe.N2n
