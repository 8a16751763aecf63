import HmclPe.N2n.RoundTrip

/-! Which packets make the decoders write behind the arrays they fill. -/
namespace HmclPe.N2n
open Lib.Reading

/-- No array of fixed size is longer than this. -/
def longest : Nat := 20

theorem longest_pos : 0 < longest := by decide

def octet (r : Reader Byte) : Byte := r.base.getD r.idx 0

/-- The number in the next two bytes. -/
def word (r : Reader Byte) : BitVec 16 :=
  (r.base.getD r.idx 0).setWidth 16 <<< 8 ||| (r.base.getD (r.idx + 1) 0).setWidth 16

theorem runs_uint8 {r : Reader Byte} (inside : r.Inside) (enough : 1 ≤ r.rem) (out : Byte) :
    decodeUint8 out r = some (octet r,r.advance 1) := by
  have left : ¬ r.rem < 1 := Nat.not_lt.mpr enough
  rw [decodeUint8,if_neg left,cell_inside inside enough 0]
  simp only [Option.bind_eq_bind,Option.bind_some,full8,octet,Nat.add_zero]

theorem runs_uint16 {r : Reader Byte} (inside : r.Inside) (enough : 2 ≤ r.rem)
    (out : BitVec 16) : decodeUint16 out r = some (word r,r.advance 2) := by
  have left : ¬ r.rem < 2 := Nat.not_lt.mpr enough
  rw [decodeUint16,if_neg left,cell_inside inside (Nat.zero_lt_of_lt enough) 0,
    cell_inside inside enough 0]
  simp only [Option.bind_eq_bind,Option.bind_some,full8,word,Nat.add_zero]

theorem takes_uint8 (out : Byte) : Takes longest (decodeUint8 out) fun _ => 1 := by
  apply takes_of_short longest_pos (by decide)
  · intro r short
    exact ⟨out,if_pos short⟩
  · intro r inside enough
    exact ⟨_,runs_uint8 inside enough out⟩

theorem takes_uint16 (out : BitVec 16) : Takes longest (decodeUint16 out) fun _ => 2 := by
  apply takes_of_short longest_pos (by decide)
  · intro r short
    exact ⟨out,if_pos short⟩
  · intro r inside enough
    exact ⟨_,runs_uint16 inside enough out⟩

theorem takes_uint32 (out : BitVec 32) : Takes longest (decodeUint32 out) fun _ => 4 := by
  apply takes_of_short longest_pos (by decide)
  · intro r short
    exact ⟨out,if_pos short⟩
  · intro r inside enough
    have left : ¬ r.rem < 4 := Nat.not_lt.mpr enough
    have found (distance : Nat) (bound : distance < 4) :=
      cell_inside inside (bound.trans_le enough) (0 : Byte)
    rw [decodeUint32,if_neg left,found 0 (by decide),found 1 (by decide),found 2 (by decide),
      found 3 (by decide)]
    exact ⟨_,rfl⟩

/-- All that copying into an array needs is that the array is large enough. -/
theorem copies {n : Nat} (out : Bytes n) {s : Nat} (fits : s ≤ n) {r : Reader Byte}
    (inside : r.Inside) (enough : s ≤ r.rem) :
    ∃ p, decodeBuf out s r = some (p,r.advance s) := by
  have left : ¬ r.rem < s := Nat.not_lt.mpr enough
  have taken : ((r.base.drop r.idx).take s).length = s := by
    unfold Reader.Inside at inside
    rw [List.length_take,List.length_drop]
    omega
  rw [decodeBuf,if_neg left]
  simp only
  rw [dif_pos ⟨taken,fits⟩]
  exact ⟨_,rfl⟩

theorem takes_buf {n : Nat} (out : Bytes n) {s : Nat} (fits : s ≤ n) (small : s ≤ longest) :
    Takes longest (decodeBuf out s) fun _ => s := by
  apply takes_of_short longest_pos small
  · intro r short
    exact ⟨out,if_pos short⟩
  · intro r inside enough
    exact copies out fits inside enough

theorem takes_array {n : Nat} (out : Bytes n) (small : n ≤ longest) :
    Takes longest (decodeArray out) fun _ => n := takes_buf out le_rfl small

/-- An array of a size that the packet says. -/
theorem runs_buf {n : Nat} (out : Bytes n) (s : Nat) (large : longest ≤ n) :
    Runs longest (decodeBuf out s) (fun r => n < s ∧ s ≤ r.rem)
      (fun r => if s ≤ r.rem then r.advance s else r) where
  fault := by
    rintro r inside ⟨beyond,enough⟩
    have left : ¬ r.rem < s := Nat.not_lt.mpr enough
    rw [decodeBuf,if_neg left]
    simp only
    exact dif_neg fun fits => absurd fits.2 (Nat.not_le.mpr beyond)
  large r overrun := large.trans (overrun.1.le.trans overrun.2)
  less := by
    intro r
    split
    · exact Nat.sub_le ..
    · exact le_rfl
  run := by
    intro r inside calm
    by_cases enough : s ≤ r.rem
    · have fits : s ≤ n := Nat.not_lt.mp fun beyond => calm ⟨beyond,enough⟩
      obtain ⟨p,ran⟩ := copies out fits inside enough
      rw [if_pos enough]
      exact ⟨p,_,ran,inside.advance enough,Nat.sub_le ..,.inl rfl⟩
    · rw [if_neg enough]
      exact ⟨out,r,if_pos (Nat.not_le.mp enough),inside,le_rfl,.inl rfl⟩

theorem finds_uint8 (out : Byte) : Finds longest (decodeUint8 out) octet := by
  intro r a later ran
  unfold decodeUint8 at ran
  split at ran
  · rename_i short
    cases ran
    exact .inr (short.trans (by decide))
  · obtain ⟨b,found,ran⟩ := Option.bind_eq_some_iff.mp ran
    cases ran
    apply Or.inl
    rw [full8,octet,List.getD_eq_getElem?_getD]
    exact (congrArg (Option.getD · 0) found).symm

theorem finds_uint16 (out : BitVec 16) : Finds longest (decodeUint16 out) word := by
  intro r a later ran
  unfold decodeUint16 at ran
  split at ran
  · rename_i short
    cases ran
    exact .inr (short.trans (by decide))
  · obtain ⟨b0,found0,ran⟩ := Option.bind_eq_some_iff.mp ran
    obtain ⟨b1,found1,ran⟩ := Option.bind_eq_some_iff.mp ran
    cases ran
    apply Or.inl
    have first : b0 = r.base.getD r.idx 0 := by
      rw [List.getD_eq_getElem?_getD]
      exact (congrArg (Option.getD · 0) found0).symm
    have second : b1 = r.base.getD (r.idx + 1) 0 := by
      rw [List.getD_eq_getElem?_getD]
      exact (congrArg (Option.getD · 0) found1).symm
    rw [full8,full8,word,first,second]

/-- What a socket takes, by the family it says. -/
def sockSize (r : Reader Byte) : Nat := if word r &&& 0x8000 ≠ 0 then 20 else 8

theorem takes_sock (out : Sock) : Takes longest (decodeSock out) sockSize := by
  have rest (f : BitVec 16) : Takes longest
      (if f &&& 0x8000 ≠ 0 then do
        let port ← decodeUint16 out.port
        let addr ← decodeArray out.addr
        pure (⟨AF_INET6,port,addr⟩ : Sock)
      else do
        let port ← decodeUint16 out.port
        let addr ← decodeBuf (zeros IPV6_SIZE) IPV4_SIZE
        pure ⟨AF_INET,port,addr⟩) fun _ => if f &&& 0x8000 ≠ 0 then 18 else 6 := by
    split
    · exact (takes_uint16 _).bind longest_pos fun _ =>
        (takes_array _ (by decide)).bind longest_pos fun _ => takes_pure _
    · exact (takes_uint16 _).bind longest_pos fun _ =>
        (takes_buf _ (by decide) (by decide)).bind longest_pos fun _ => takes_pure _
  have runs := Runs.bind_value (takes_uint16 0) (finds_uint16 0) rest
  simp only [or_self,Reader.advance_advance] at runs
  have size (r : Reader Byte) : sockSize r = 2 + if word r &&& 0x8000 ≠ 0 then 18 else 6 := by
    unfold sockSize
    split <;> rfl
  unfold Takes
  simp only [size]
  exact runs

/-- Only where the flags tell of a socket. -/
def sockSizeIf (hasSocket : Bool) (r : Reader Byte) : Nat := if hasSocket then sockSize r else 0

theorem takes_sockIf (common : Common) :
    Takes longest (decodeSockIf common {}) (sockSizeIf common.hasSocket) := by
  unfold decodeSockIf sockSizeIf
  split
  · exact takes_sock _
  · exact takes_pure _

theorem takes_subnet (out : IpSubnet) : Takes longest (decodeSubnet out) fun _ => 5 :=
  (takes_uint32 _).bind longest_pos fun _ => (takes_uint8 _).bind longest_pos fun _ => takes_pure _

/-- A token that is there, and is longer than the array for it. -/
def AuthOverruns (r : Reader Byte) : Prop :=
  let size := (word (r.advance 2)).toNat
  N2N_AUTH_MAX_TOKEN_SIZE < size ∧ size ≤ (r.advance 4).rem

/-- A token that is not all there is left where it is. -/
def afterAuth (r : Reader Byte) : Reader Byte :=
  let size := (word (r.advance 2)).toNat
  if size ≤ (r.advance 4).rem then (r.advance 4).advance size else r.advance 4

theorem runs_auth : Runs longest (decodeAuth ⟨0,0,zeros _⟩) AuthOverruns afterAuth := by
  have token (scheme size : BitVec 16) : Runs longest
      (do pure (⟨scheme,size,← decodeBuf (zeros _) size.toNat⟩ : Auth))
      (fun r => N2N_AUTH_MAX_TOKEN_SIZE < size.toNat ∧ size.toNat ≤ r.rem)
      (fun r => if size.toNat ≤ r.rem then r.advance size.toNat else r) := by
    have runs := runs_buf (zeros N2N_AUTH_MAX_TOKEN_SIZE) size.toNat (by decide)
    exact runs.followed longest_pos fun _ => takes_pure _
  have sized (scheme : BitVec 16) :=
    Runs.bind_value (takes_uint16 0) (finds_uint16 0) (token scheme)
  have runs := Takes.before longest_pos (takes_uint16 0) sized
  simp only [false_or,Reader.advance_advance] at runs
  unfold AuthOverruns afterAuth
  simp only [Reader.advance_advance]
  exact runs

/-- Supernodes that are there, and are more than the payload holds. -/
def PayloadOverruns (r : Reader Byte) : Prop :=
  REG_SUPER_ACK_PAYLOAD_SPACE < payloadSize (octet r) ∧ payloadSize (octet r) ≤ (r.advance 1).rem

/-- By the type of a packet, behind what all of them share. -/
def BodyOverruns (pc : Byte) (hasSocket : Bool) : Reader Byte → Prop :=
  match pc.toNat with
  | 5 => fun r => AuthOverruns (r.advance (10 + sockSizeIf hasSocket (r.advance 10) + 21))
  | 6 => AuthOverruns
  | 7 => fun r =>
    let auth := r.advance (17 + sockSize (r.advance 17))
    AuthOverruns auth ∨ PayloadOverruns (afterAuth auth)
  | 8 => fun r => AuthOverruns (r.advance 10)
  | _ => fun _ => False

section Bodies

variable (common : Common)

theorem never_register : Faults longest (decodeRegister common) fun _ => False :=
  (takes_uint32 _).before_faults longest_pos fun _ =>
  (takes_array _ (by decide)).before_faults longest_pos fun _ =>
  (takes_array _ (by decide)).before_faults longest_pos fun _ =>
  (takes_sockIf common).before_faults longest_pos fun _ =>
  (takes_subnet _).before_faults longest_pos fun _ =>
  (takes_array _ (by decide)).before_faults longest_pos fun _ => (takes_pure _).never

theorem never_packet : Faults longest (decodePacket common) fun _ => False :=
  (takes_array _ (by decide)).before_faults longest_pos fun _ =>
  (takes_array _ (by decide)).before_faults longest_pos fun _ =>
  (takes_sockIf common).before_faults longest_pos fun _ =>
  (takes_uint8 _).before_faults longest_pos fun _ =>
  (takes_uint8 _).before_faults longest_pos fun _ => (takes_pure _).never

theorem never_registerAck : Faults longest (decodeRegisterAck common) fun _ => False :=
  (takes_uint32 _).before_faults longest_pos fun _ =>
  (takes_array _ (by decide)).before_faults longest_pos fun _ =>
  (takes_array _ (by decide)).before_faults longest_pos fun _ =>
  (takes_sockIf common).before_faults longest_pos fun _ => (takes_pure _).never

theorem never_peerInfo : Faults longest (decodePeerInfo common) fun _ => False :=
  (takes_uint16 _).before_faults longest_pos fun _ =>
  (takes_array _ (by decide)).before_faults longest_pos fun _ =>
  (takes_array _ (by decide)).before_faults longest_pos fun _ =>
  (takes_sock _).before_faults longest_pos fun _ =>
  (takes_sockIf common).before_faults longest_pos fun _ =>
  (takes_uint32 _).before_faults longest_pos fun _ =>
  (takes_uint32 _).before_faults longest_pos fun _ =>
  (takes_array _ (by decide)).before_faults longest_pos fun _ => (takes_pure _).never

theorem never_queryPeer : Faults longest decodeQueryPeer fun _ => False :=
  (takes_array _ (by decide)).before_faults longest_pos fun _ =>
  (takes_array _ (by decide)).before_faults longest_pos fun _ =>
  (takes_uint16 _).before_faults longest_pos fun _ => (takes_pure _).never

theorem faults_registerSuper : Faults longest (decodeRegisterSuper common) fun r =>
    AuthOverruns (r.advance (10 + sockSizeIf common.hasSocket (r.advance 10) + 21)) := by
  have tail (cookie : BitVec 32) (edgeMac : Mac) (sock : Sock) (devAddr : IpSubnet)
      (devDesc : Bytes N2N_DESC_SIZE) : Faults longest
        (do
          let auth ← decodeAuth ⟨0,0,zeros _⟩
          let keyTime ← decodeUint32 0
          pure (⟨cookie,edgeMac,sock,devAddr,devDesc,auth,keyTime⟩ : RegisterSuper))
        AuthOverruns :=
    ⟨_,runs_auth.followed longest_pos fun _ =>
      (takes_uint32 _).bind longest_pos fun _ => takes_pure _⟩
  have faults :=
    (takes_uint32 0).before_faults longest_pos fun cookie =>
    (takes_array (zeros N2N_MAC_SIZE) (by decide)).before_faults longest_pos fun edgeMac =>
    (takes_sockIf common).before_faults longest_pos fun sock =>
    (takes_subnet ⟨0,0⟩).before_faults longest_pos fun devAddr =>
    (takes_array (zeros N2N_DESC_SIZE) (by decide)).before_faults longest_pos fun devDesc =>
      tail cookie edgeMac sock devAddr devDesc
  simp only [Reader.advance_advance] at faults
  exact faults

theorem faults_unregisterSuper : Faults longest decodeUnregisterSuper AuthOverruns :=
  ⟨_,runs_auth.followed longest_pos fun _ =>
    (takes_array _ (by decide)).bind longest_pos fun _ => takes_pure _⟩

theorem faults_registerSuperNak : Faults longest decodeRegisterSuperNak fun r =>
    AuthOverruns (r.advance 10) := by
  have faults :=
    (takes_uint32 0).before_faults longest_pos fun cookie =>
    (takes_array (zeros N2N_MAC_SIZE) (by decide)).before_faults longest_pos fun srcMac =>
    ⟨_,runs_auth.followed longest_pos fun auth =>
      takes_pure (⟨cookie,srcMac,auth⟩ : RegisterSuperNak)⟩
  simp only [Reader.advance_advance] at faults
  exact faults

theorem faults_registerSuperAck (tmpbuf : Payload) :
    Faults longest (decodeRegisterSuperAck tmpbuf) fun r =>
      let auth := r.advance (17 + sockSize (r.advance 17))
      AuthOverruns auth ∨ PayloadOverruns (afterAuth auth) := by
  -- From the back to the front: the payload, then the token and the number of supernodes.
  have payload (numSn : Byte) (f : Payload → BitVec 32 → RegisterSuperAck × Payload) :
      Runs longest
        (do
          let tmpbuf ← decodeBuf tmpbuf (payloadSize numSn)
          let keyTime ← decodeUint32 0
          pure (f tmpbuf keyTime))
        (fun r => REG_SUPER_ACK_PAYLOAD_SPACE < payloadSize numSn ∧ payloadSize numSn ≤ r.rem) _ :=
    (runs_buf tmpbuf (payloadSize numSn) (by decide)).followed longest_pos fun _ =>
      (takes_uint32 _).bind longest_pos fun _ => takes_pure _
  have entries (f : Byte → Payload → BitVec 32 → RegisterSuperAck × Payload) :=
    Runs.bind_value (takes_uint8 0) (finds_uint8 0) fun numSn => payload numSn (f numSn)
  simp only [false_or] at entries
  have tail (cookie : BitVec 32) (srcMac : Mac) (devAddr : IpSubnet) (lifetime : BitVec 16)
      (sock : Sock) : Faults longest
        (do
          let auth ← decodeAuth ⟨0,0,zeros _⟩
          let numSn ← decodeUint8 0
          let tmpbuf ← decodeBuf tmpbuf (payloadSize numSn)
          let keyTime ← decodeUint32 0
          pure ((⟨cookie,srcMac,devAddr,lifetime,sock,auth,numSn,keyTime⟩ : RegisterSuperAck),
            tmpbuf))
        fun r => AuthOverruns r ∨ PayloadOverruns (afterAuth r) :=
    ⟨_,runs_auth.bind longest_pos fun auth => entries fun numSn tmpbuf keyTime =>
      (⟨cookie,srcMac,devAddr,lifetime,sock,auth,numSn,keyTime⟩,tmpbuf)⟩
  have faults :=
    (takes_uint32 0).before_faults longest_pos fun cookie =>
    (takes_array (zeros N2N_MAC_SIZE) (by decide)).before_faults longest_pos fun srcMac =>
    (takes_subnet ⟨0,0⟩).before_faults longest_pos fun devAddr =>
    (takes_uint16 0).before_faults longest_pos fun lifetime =>
    (takes_sock {}).before_faults longest_pos fun sock =>
      tail cookie srcMac devAddr lifetime sock
  simp only [Reader.advance_advance] at faults
  exact faults

end Bodies

theorem faults_body (common : Common) (tmpbuf : Payload) :
    Faults longest (Message.decodeBody common tmpbuf)
      (BodyOverruns common.pc common.hasSocket) := by
  unfold Message.decodeBody BodyOverruns
  generalize common.pc.toNat = pc
  split
  · exact (never_register common).map longest_pos _
  · exact (never_packet common).map longest_pos _
  · exact (never_registerAck common).map longest_pos _
  · exact (faults_registerSuper common).map longest_pos _
  · exact faults_unregisterSuper.map longest_pos _
  · exact (faults_registerSuperAck tmpbuf).map longest_pos fun read =>
      some (Message.registerSuperAck read.1 read.2)
  · exact faults_registerSuperNak.map longest_pos _
  · exact (never_peerInfo common).map longest_pos _
  · exact never_queryPeer.map longest_pos _
  next unknown =>
    split
    · contradiction
    · contradiction
    · contradiction
    · contradiction
    · exact (takes_pure none).never

/-- By the version and the flags that a packet starts with. -/
def Overruns (packet : List Byte) : Prop :=
  let r : Reader Byte := ⟨packet,packet.length,0⟩
  let flags := word (r.advance 2)
  octet r = N2N_PKT_VERSION ∧
    BodyOverruns ((flags &&& N2N_FLAGS_TYPE_MASK).setWidth 8) (flags &&& N2N_FLAGS_SOCKET ≠ 0)
      (r.advance 24)

/-- What becomes of a packet once its version is read. -/
def decodeFlagged (out : Common) (tmpbuf : Payload) (version : Byte) :
    Decoder Byte (Option (Common × Message)) :=
  if version ≠ N2N_PKT_VERSION then pure none
  else do
    let ttl ← decodeUint8 out.ttl
    let flags ← decodeUint16 out.flags
    let community ← decodeArray out.community
    let common : Common := ⟨ttl,(flags &&& N2N_FLAGS_TYPE_MASK).setWidth 8,
      flags &&& N2N_FLAGS_BITS_MASK,community⟩
    let message ← Message.decodeBody common tmpbuf
    pure (message.map (common,·))

theorem decode_eq (out : Common) (tmpbuf : Payload) :
    Message.decode out tmpbuf = decodeUint8 0 >>= decodeFlagged out tmpbuf := by
  unfold Message.decode decodeCommon decodeFlagged
  simp only [bind_assoc]
  congr 1
  funext version
  split
  · simp only [pure_bind]
  · simp only [bind_assoc,pure_bind]

theorem faults_flagged (out : Common) (tmpbuf : Payload) (version : Byte) :
    Faults longest (decodeFlagged out tmpbuf version) fun r => version = N2N_PKT_VERSION ∧
      BodyOverruns ((word (r.advance 1) &&& N2N_FLAGS_TYPE_MASK).setWidth 8)
        (word (r.advance 1) &&& N2N_FLAGS_SOCKET ≠ 0) (r.advance 23) := by
  unfold decodeFlagged
  split
  · rename_i other
    simp only [other,false_and]
    exact (takes_pure none).never
  · rename_i same
    simp only [not_ne_iff.mp same,true_and]
    have socket (flags : BitVec 16) : flags &&& N2N_FLAGS_BITS_MASK &&& N2N_FLAGS_SOCKET =
        flags &&& N2N_FLAGS_SOCKET := by
      rw [BitVec.and_assoc]
      rfl
    have body (ttl : Byte) (flags : BitVec 16) (community : Bytes N2N_COMMUNITY_SIZE) :
        Faults longest
          (do
            let common : Common := ⟨ttl,(flags &&& N2N_FLAGS_TYPE_MASK).setWidth 8,
              flags &&& N2N_FLAGS_BITS_MASK,community⟩
            let message ← Message.decodeBody common tmpbuf
            pure (message.map (common,·)))
          (BodyOverruns ((flags &&& N2N_FLAGS_TYPE_MASK).setWidth 8)
            (flags &&& N2N_FLAGS_SOCKET ≠ 0)) := by
      have paired (common : Common) := (faults_body common tmpbuf).map longest_pos fun message =>
        message.map fun message => (common,message)
      have faults := paired ⟨ttl,(flags &&& N2N_FLAGS_TYPE_MASK).setWidth 8,
        flags &&& N2N_FLAGS_BITS_MASK,community⟩
      simp only [Common.hasSocket,socket] at faults
      exact faults
    have flagged (ttl : Byte) := (takes_uint16 out.flags).bind_faults (finds_uint16 out.flags)
      fun flags => (takes_array out.community (by decide)).before_faults longest_pos
        fun community => body ttl flags community
    have faults := (takes_uint8 out.ttl).before_faults longest_pos flagged
    simp only [Reader.advance_advance,false_or] at faults
    exact faults

/-- A packet is read outside of it, or into what lies behind an array, by these alone. -/
theorem decode_none_iff (out : Common) (tmpbuf : Payload) (packet : List Byte) :
    Message.decode out tmpbuf ⟨packet,packet.length,0⟩ = none ↔ Overruns packet := by
  obtain ⟨after,runs⟩ :=
    (takes_uint8 0).bind_faults (finds_uint8 0) (faults_flagged out tmpbuf)
  rw [← decode_eq] at runs
  rw [runs.none_iff (Nat.le_of_eq (Nat.zero_add _))]
  simp only [Overruns,false_or,Reader.advance_advance]

/-- A token of one byte more than there is room for. -/
example : Overruns ([3,0,0,6] ++ List.replicate 22 0 ++ [0,49] ++ List.replicate 49 0) := by
  refine ⟨rfl,?_,?_⟩ <;> decide

end HmclPe.N2n
