import HmclPe.N2n.Wire

/-! What is read of a packet is what was written, and nothing else is ever read. -/
namespace HmclPe.N2n
open Lib.Reading

theorem full8 (b : Byte) : b &&& 0xff = b := BitVec.and_allOnes

theorem low8 {w : Nat} (v mask : BitVec w) (ones : mask.setWidth 8 = (0xff : Byte)) :
    (v &&& mask).setWidth 8 = v.setWidth 8 := by
  rw [BitVec.setWidth_and,ones,full8]

theorem join16 (v : BitVec 16) :
    ((v >>> 8).setWidth 8).setWidth 16 <<< 8 ||| (v.setWidth 8).setWidth 16 = v := by
  ext i bound
  simp
  grind

theorem join32 (v : BitVec 32) :
    ((v >>> 24).setWidth 8).setWidth 32 <<< 24 ||| ((v >>> 16).setWidth 8).setWidth 32 <<< 16 |||
      ((v >>> 8).setWidth 8).setWidth 32 <<< 8 ||| (v.setWidth 8).setWidth 32 = v := by
  ext i bound
  simp
  grind

theorem reads_uint8 (out v : Byte) : Reads (decodeUint8 out) (encodeUint8 v) v := by
  apply reads_of_cells
  intro r enough at_
  have b0 := at_ 0 (by simp [encodeUint8])
  have left : ¬ r.rem < 1 := Nat.not_lt.mpr enough
  rw [decodeUint8,if_neg left,b0]
  simp only [encodeUint8,List.getElem_cons_zero,full8]
  rfl

theorem encodeUint16_eq (v : BitVec 16) : encodeUint16 v = [(v >>> 8).setWidth 8,v.setWidth 8] := by
  rw [encodeUint16,low8 _ _ rfl,low8 _ _ rfl]

theorem reads_uint16 (out v : BitVec 16) : Reads (decodeUint16 out) (encodeUint16 v) v := by
  rw [encodeUint16_eq]
  apply reads_of_cells
  intro r enough at_
  have b0 := at_ 0 (by simp)
  have b1 := at_ 1 (by simp)
  have left : ¬ r.rem < 2 := Nat.not_lt.mpr enough
  rw [decodeUint16,if_neg left,b0,b1]
  simp only [Option.bind_eq_bind,Option.bind_some,List.getElem_cons_zero,List.getElem_cons_succ,
    full8]
  rw [join16]
  rfl

theorem encodeUint32_eq (v : BitVec 32) : encodeUint32 v =
    [(v >>> 24).setWidth 8,(v >>> 16).setWidth 8,(v >>> 8).setWidth 8,v.setWidth 8] := by
  rw [encodeUint32,low8 _ _ rfl,low8 _ _ rfl,low8 _ _ rfl,low8 _ _ rfl]

theorem reads_uint32 (out v : BitVec 32) : Reads (decodeUint32 out) (encodeUint32 v) v := by
  rw [encodeUint32_eq]
  apply reads_of_cells
  intro r enough at_
  have b0 := at_ 0 (by simp)
  have b1 := at_ 1 (by simp)
  have b2 := at_ 2 (by simp)
  have b3 := at_ 3 (by simp)
  have left : ¬ r.rem < 4 := Nat.not_lt.mpr enough
  rw [decodeUint32,if_neg left,b0,b1,b2,b3]
  simp only [Option.bind_eq_bind,Option.bind_some,List.getElem_cons_zero,List.getElem_cons_succ,
    full8]
  rw [join32]
  rfl

theorem reads_buf {n : Nat} (out p : Bytes n) (s : Nat) (fits : s ≤ n)
    (behind : p.toList.drop s = out.toList.drop s) :
    Reads (decodeBuf out s) (p.toList.take s) p := by
  intro front back
  have size : (p.toList.take s).length = s := by simp [fits]
  have left : ¬ (Reader.between front (p.toList.take s ++ back)).rem < s := by
    simp [Reader.between,fits]
  have found : (((Reader.between front (p.toList.take s ++ back)).base.drop
      (Reader.between front (p.toList.take s ++ back)).idx).take s) = p.toList.take s := by
    simp only [Reader.between]
    rw [List.drop_left,List.take_left' size]
  rw [decodeBuf,if_neg left]
  simp only [found]
  rw [dif_pos ⟨size,fits⟩]
  congr 2
  · apply Subtype.ext
    simp only [overwrite,size]
    rw [← behind,List.take_append_drop]
    rfl
  · rw [← Reader.advance_between,size]

theorem reads_array {n : Nat} (out p : Bytes n) : Reads (decodeArray out) (encodeArray p) p := by
  have all : p.toList.take n = encodeArray p := List.take_of_length_le (le_of_eq p.toList_length)
  have behind : p.toList.drop n = out.toList.drop n := by
    rw [List.drop_of_length_le (le_of_eq p.toList_length),
      List.drop_of_length_le (le_of_eq out.toList_length)]
  have reads := reads_buf out p n le_rfl behind
  rwa [all] at reads

/-- Its type and its flags have no bit in common. -/
def Common.WellFormed (common : Common) : Prop :=
  common.pc.toNat < 32 ∧ common.flags &&& N2N_FLAGS_TYPE_MASK = 0#16

/-- Of one of the two families, with nothing behind the four bytes of the shorter address. -/
def Sock.WellFormed (sock : Sock) : Prop :=
  sock.family = AF_INET6 ∨
    sock.family = AF_INET ∧
      sock.addr.toList.drop IPV4_SIZE = (zeros IPV6_SIZE).toList.drop IPV4_SIZE

def Auth.WellFormed (auth : Auth) : Prop :=
  auth.token.toList.drop auth.tokenSize.toNat =
    (zeros N2N_AUTH_MAX_TOKEN_SIZE).toList.drop auth.tokenSize.toNat

/-- A socket is there only where the flags say so. -/
def Sock.WellFormedIf (common : Common) (sock : Sock) : Prop :=
  if common.hasSocket then sock.WellFormed else sock = {}

/-- The bits of a type and of flags can be told apart. -/
theorem pc_flags {pc flags : BitVec 16} (small : pc.toNat < 32)
    (high : flags &&& N2N_FLAGS_TYPE_MASK = 0#16) :
    let sent := pc &&& N2N_FLAGS_TYPE_MASK ||| flags &&& N2N_FLAGS_BITS_MASK
    sent &&& N2N_FLAGS_TYPE_MASK = pc ∧ sent &&& N2N_FLAGS_BITS_MASK = flags := by
  have apart : N2N_FLAGS_TYPE_MASK &&& N2N_FLAGS_BITS_MASK = 0#16 := by decide
  have all : N2N_FLAGS_TYPE_MASK ||| N2N_FLAGS_BITS_MASK = BitVec.allOnes 16 := by decide
  have low : pc &&& N2N_FLAGS_TYPE_MASK = pc := by
    apply BitVec.eq_of_toNat_eq
    rw [BitVec.toNat_and]
    exact Nat.and_two_pow_sub_one_of_lt_two_pow (n := 5) small
  have upper : flags &&& N2N_FLAGS_BITS_MASK = flags := by
    calc
      flags &&& N2N_FLAGS_BITS_MASK
          = flags &&& N2N_FLAGS_TYPE_MASK ||| flags &&& N2N_FLAGS_BITS_MASK := by
        rw [high,BitVec.zero_or]
      _ = flags := by rw [← BitVec.and_or_distrib_left,all,BitVec.and_allOnes]
  have none_low : pc &&& N2N_FLAGS_BITS_MASK = 0#16 := by
    rw [← low,BitVec.and_assoc,apart,BitVec.and_zero]
  rw [low,upper]
  constructor
  · rw [BitVec.and_or_distrib_right,low,high,BitVec.or_zero]
  · rw [BitVec.and_or_distrib_right,none_low,upper,BitVec.zero_or]

theorem reads_common (out : Common) {common : Common} (wellFormed : common.WellFormed) :
    Reads (decodeCommon out) (encodeCommon common) (some common) := by
  obtain ⟨small,high⟩ := wellFormed
  have wide : (common.pc.setWidth 16).toNat = common.pc.toNat := by
    rw [BitVec.toNat_setWidth_of_le (by omega)]
  have split := pc_flags (wide.symm ▸ small) high
  simp only [encodeCommon,List.flatten_cons,List.flatten_nil]
  apply Reads.bind (reads_uint8 _ _)
  rw [if_neg (by simp)]
  apply Reads.bind (reads_uint8 _ _)
  apply Reads.bind (reads_uint16 _ _)
  apply Reads.bind (reads_array _ _)
  rw [split.1,split.2]
  have same : (common.pc.setWidth 16).setWidth 8 = common.pc := by
    apply BitVec.eq_of_toNat_eq
    rw [BitVec.toNat_setWidth,wide,Nat.mod_eq_of_lt common.pc.isLt]
  rw [same]
  apply reads_pure

theorem reads_sock (out : Sock) {sock : Sock} (wellFormed : sock.WellFormed) :
    Reads (decodeSock out) (encodeSock sock) sock := by
  cases sock with
  | mk family port addr =>
    rcases wellFormed with rfl | ⟨rfl,behind⟩
    · simp only [encodeSock]
      rw [if_neg (by decide),if_true]
      simp only [List.flatten_cons,List.flatten_nil]
      apply Reads.bind (reads_uint16 _ _)
      rw [if_pos (by decide)]
      apply Reads.bind (reads_uint16 _ _)
      apply Reads.bind (reads_array _ _)
      apply reads_pure
    · simp only [encodeSock]
      rw [if_true]
      simp only [List.flatten_cons,List.flatten_nil]
      apply Reads.bind (reads_uint16 _ _)
      rw [if_neg (by decide)]
      apply Reads.bind (reads_uint16 _ _)
      apply Reads.bind (reads_buf _ _ _ (by decide) behind)
      apply reads_pure

theorem reads_sockIf {common : Common} {sock : Sock} (wellFormed : sock.WellFormedIf common) :
    Reads (decodeSockIf common {}) (encodeSockIf common sock) sock := by
  unfold Sock.WellFormedIf at wellFormed
  unfold decodeSockIf encodeSockIf
  split at wellFormed
  · rename_i present
    rw [if_pos present,if_pos present]
    exact reads_sock _ wellFormed
  · rename_i absent
    rw [if_neg absent,if_neg absent,wellFormed]
    apply reads_pure

theorem reads_subnet (out subnet : IpSubnet) :
    Reads (decodeSubnet out) (encodeSubnet subnet) subnet := by
  simp only [encodeSubnet,List.flatten_cons,List.flatten_nil]
  apply Reads.bind (reads_uint32 _ _)
  apply Reads.bind (reads_uint8 _ _)
  apply reads_pure

theorem encodeBuf_some {n : Nat} {p : Bytes n} {s : Nat} {bytes : List Byte}
    (encoded : encodeBuf p s = some bytes) : s ≤ n ∧ bytes = p.toList.take s := by
  unfold encodeBuf at encoded
  split at encoded
  · rename_i fits
    exact ⟨fits,(Option.some.inj encoded).symm⟩
  · cases encoded

theorem reads_auth {auth : Auth} (wellFormed : auth.WellFormed) {bytes : List Byte}
    (encoded : encodeAuth auth = some bytes) :
    Reads (decodeAuth ⟨0,0,zeros _⟩) bytes auth := by
  obtain ⟨token,taken,encoded⟩ := Option.bind_eq_some_iff.mp encoded
  obtain ⟨fits,rfl⟩ := encodeBuf_some taken
  obtain rfl := Option.some.inj encoded
  simp only [List.flatten_cons,List.flatten_nil]
  apply Reads.bind (reads_uint16 _ _)
  apply Reads.bind (reads_uint16 _ _)
  apply Reads.bind (reads_buf _ _ _ fits wellFormed)
  apply reads_pure

namespace Message

/-- What survives a packet: `tmpbuf` is what the payload is read over. -/
def WellFormed (common : Common) (tmpbuf : Payload) : Message → Prop
  | register reg => reg.sock.WellFormedIf common
  | packet pkt => pkt.sock.WellFormedIf common
  | registerAck reg => reg.sock.WellFormedIf common
  | registerSuper reg => reg.sock.WellFormedIf common ∧ reg.auth.WellFormed
  | unregisterSuper unreg => unreg.auth.WellFormed
  | registerSuperAck reg payload => reg.sock.WellFormed ∧ reg.auth.WellFormed ∧
      payload.toList.drop (payloadSize reg.numSn) = tmpbuf.toList.drop (payloadSize reg.numSn)
  | registerSuperNak nak => nak.auth.WellFormed
  | peerInfo pkt => pkt.sock.WellFormed ∧ pkt.preferredSock.WellFormedIf common ∧
      pkt.uptime.toNat < 2 ^ 32
  | queryPeer pkt => pkt.sock = {}

end Message

section Bodies

variable {common : Common} {bytes : List Byte}

theorem reads_register {reg : Register} (sock : reg.sock.WellFormedIf common) :
    ∃ body, encodeRegister common reg = encodeCommon common ++ body ∧
      Reads (decodeRegister common) body reg := by
  refine ⟨_,List.flatten_cons,?_⟩
  simp only [List.flatten_cons,List.flatten_nil]
  apply Reads.bind (reads_uint32 _ _)
  apply Reads.bind (reads_array _ _)
  apply Reads.bind (reads_array _ _)
  apply Reads.bind (reads_sockIf sock)
  apply Reads.bind (reads_subnet _ _)
  apply Reads.bind (reads_array _ _)
  apply reads_pure

theorem reads_registerSuper {reg : RegisterSuper} (sock : reg.sock.WellFormedIf common)
    (token : reg.auth.WellFormed) (encoded : encodeRegisterSuper common reg = some bytes) :
    ∃ body, bytes = encodeCommon common ++ body ∧
      Reads (decodeRegisterSuper common) body reg := by
  obtain ⟨auth,written,encoded⟩ := Option.bind_eq_some_iff.mp encoded
  obtain rfl := Option.some.inj encoded
  refine ⟨_,List.flatten_cons,?_⟩
  simp only [List.flatten_cons,List.flatten_nil]
  apply Reads.bind (reads_uint32 _ _)
  apply Reads.bind (reads_array _ _)
  apply Reads.bind (reads_sockIf sock)
  apply Reads.bind (reads_subnet _ _)
  apply Reads.bind (reads_array _ _)
  apply Reads.bind (reads_auth token written)
  apply Reads.bind (reads_uint32 _ _)
  apply reads_pure

theorem reads_unregisterSuper {unreg : UnregisterSuper} (token : unreg.auth.WellFormed)
    (encoded : encodeUnregisterSuper common unreg = some bytes) :
    ∃ body, bytes = encodeCommon common ++ body ∧ Reads decodeUnregisterSuper body unreg := by
  obtain ⟨auth,written,encoded⟩ := Option.bind_eq_some_iff.mp encoded
  obtain rfl := Option.some.inj encoded
  refine ⟨_,List.flatten_cons,?_⟩
  simp only [List.flatten_cons,List.flatten_nil]
  apply Reads.bind (reads_auth token written)
  apply Reads.bind (reads_array _ _)
  apply reads_pure

theorem reads_registerAck {reg : RegisterAck} (sock : reg.sock.WellFormedIf common) :
    ∃ body, encodeRegisterAck common reg = encodeCommon common ++ body ∧
      Reads (decodeRegisterAck common) body reg := by
  refine ⟨_,List.flatten_cons,?_⟩
  simp only [List.flatten_cons,List.flatten_nil]
  apply Reads.bind (reads_uint32 _ _)
  apply Reads.bind (reads_array _ _)
  apply Reads.bind (reads_array _ _)
  apply Reads.bind (reads_sockIf sock)
  apply reads_pure

theorem reads_registerSuperAck {reg : RegisterSuperAck} {payload tmpbuf : Payload}
    (sock : reg.sock.WellFormed) (token : reg.auth.WellFormed)
    (behind : payload.toList.drop (payloadSize reg.numSn) =
      tmpbuf.toList.drop (payloadSize reg.numSn))
    (encoded : encodeRegisterSuperAck common reg payload = some bytes) :
    ∃ body, bytes = encodeCommon common ++ body ∧
      Reads (decodeRegisterSuperAck tmpbuf) body (reg,payload) := by
  obtain ⟨auth,written,encoded⟩ := Option.bind_eq_some_iff.mp encoded
  obtain ⟨entries,taken,encoded⟩ := Option.bind_eq_some_iff.mp encoded
  obtain ⟨fits,rfl⟩ := encodeBuf_some taken
  obtain rfl := Option.some.inj encoded
  refine ⟨_,List.flatten_cons,?_⟩
  simp only [List.flatten_cons,List.flatten_nil]
  apply Reads.bind (reads_uint32 _ _)
  apply Reads.bind (reads_array _ _)
  apply Reads.bind (reads_subnet _ _)
  apply Reads.bind (reads_uint16 _ _)
  apply Reads.bind (reads_sock _ sock)
  apply Reads.bind (reads_auth token written)
  apply Reads.bind (reads_uint8 _ _)
  apply Reads.bind (reads_buf _ _ _ fits behind)
  apply Reads.bind (reads_uint32 _ _)
  apply reads_pure

theorem reads_registerSuperNak {nak : RegisterSuperNak} (token : nak.auth.WellFormed)
    (encoded : encodeRegisterSuperNak common nak = some bytes) :
    ∃ body, bytes = encodeCommon common ++ body ∧ Reads decodeRegisterSuperNak body nak := by
  obtain ⟨auth,written,encoded⟩ := Option.bind_eq_some_iff.mp encoded
  obtain rfl := Option.some.inj encoded
  refine ⟨_,List.flatten_cons,?_⟩
  simp only [List.flatten_cons,List.flatten_nil]
  apply Reads.bind (reads_uint32 _ _)
  apply Reads.bind (reads_array _ _)
  apply Reads.bind (reads_auth token written)
  apply reads_pure

theorem reads_packet {pkt : Packet} (sock : pkt.sock.WellFormedIf common) :
    ∃ body, encodePacket common pkt = encodeCommon common ++ body ∧
      Reads (decodePacket common) body pkt := by
  refine ⟨_,List.flatten_cons,?_⟩
  simp only [List.flatten_cons,List.flatten_nil]
  apply Reads.bind (reads_array _ _)
  apply Reads.bind (reads_array _ _)
  apply Reads.bind (reads_sockIf sock)
  apply Reads.bind (reads_uint8 _ _)
  apply Reads.bind (reads_uint8 _ _)
  apply reads_pure

theorem reads_peerInfo {pkt : PeerInfo} (sock : pkt.sock.WellFormed)
    (preferred : pkt.preferredSock.WellFormedIf common) (low : pkt.uptime.toNat < 2 ^ 32) :
    ∃ body, encodePeerInfo common pkt = encodeCommon common ++ body ∧
      Reads (decodePeerInfo common) body pkt := by
  refine ⟨_,List.flatten_cons,?_⟩
  simp only [List.flatten_cons,List.flatten_nil]
  apply Reads.bind (reads_uint16 _ _)
  apply Reads.bind (reads_array _ _)
  apply Reads.bind (reads_array _ _)
  apply Reads.bind (reads_sock _ sock)
  apply Reads.bind (reads_sockIf preferred)
  apply Reads.bind (reads_uint32 _ _)
  apply Reads.bind (reads_uint32 _ _)
  apply Reads.bind (reads_array _ _)
  have whole : (pkt.uptime.setWidth 32).setWidth 64 = pkt.uptime := by
    apply BitVec.eq_of_toNat_eq
    rw [BitVec.toNat_setWidth,BitVec.toNat_setWidth,Nat.mod_eq_of_lt low,
      Nat.mod_eq_of_lt pkt.uptime.isLt]
  rw [whole]
  apply reads_pure

theorem reads_queryPeer {pkt : QueryPeer} (unsent : pkt.sock = {}) :
    ∃ body, encodeQueryPeer common pkt = encodeCommon common ++ body ∧
      Reads decodeQueryPeer body pkt := by
  refine ⟨_,List.flatten_cons,?_⟩
  simp only [List.flatten_cons,List.flatten_nil]
  apply Reads.bind (reads_array _ _)
  apply Reads.bind (reads_array _ _)
  apply Reads.bind (reads_uint16 _ _)
  rw [← unsent]
  apply reads_pure

end Bodies

namespace Message

/-- What a decoder reads survives being wrapped. -/
theorem reads_map {α : Type} {decoder : Decoder Byte α} {body : List Byte} {a : α}
    (reads : Reads decoder body a) (wrap : α → Message) :
    Reads (do pure (some (wrap (← decoder)))) body (some (wrap a)) := by
  rw [← List.append_nil body]
  apply reads.bind
  apply reads_pure

theorem reads_body {common : Common} {tmpbuf : Payload} {message : Message}
    (typed : common.pc = message.pc) (wellFormed : message.WellFormed common tmpbuf)
    {bytes : List Byte} (encoded : message.encode common = some bytes) :
    ∃ body, bytes = encodeCommon common ++ body ∧
      Reads (decodeBody common tmpbuf) body (some message) := by
  cases message with
  | register reg =>
    obtain ⟨body,written,reads⟩ := reads_register wellFormed
    refine ⟨body,(Option.some.inj encoded).symm.trans written,?_⟩
    rw [decodeBody,typed]
    exact reads_map reads register
  | packet pkt =>
    obtain ⟨body,written,reads⟩ := reads_packet wellFormed
    refine ⟨body,(Option.some.inj encoded).symm.trans written,?_⟩
    rw [decodeBody,typed]
    exact reads_map reads packet
  | registerAck reg =>
    obtain ⟨body,written,reads⟩ := reads_registerAck wellFormed
    refine ⟨body,(Option.some.inj encoded).symm.trans written,?_⟩
    rw [decodeBody,typed]
    exact reads_map reads registerAck
  | registerSuper reg =>
    obtain ⟨body,written,reads⟩ := reads_registerSuper wellFormed.1 wellFormed.2 encoded
    refine ⟨body,written,?_⟩
    rw [decodeBody,typed]
    exact reads_map reads registerSuper
  | unregisterSuper unreg =>
    obtain ⟨body,written,reads⟩ := reads_unregisterSuper wellFormed encoded
    refine ⟨body,written,?_⟩
    rw [decodeBody,typed]
    exact reads_map reads unregisterSuper
  | registerSuperAck reg payload =>
    obtain ⟨sock,token,behind⟩ := wellFormed
    obtain ⟨body,written,reads⟩ := reads_registerSuperAck sock token behind encoded
    refine ⟨body,written,?_⟩
    rw [decodeBody,typed,← List.append_nil body]
    apply reads.bind
    apply reads_pure
  | registerSuperNak nak =>
    obtain ⟨body,written,reads⟩ := reads_registerSuperNak wellFormed encoded
    refine ⟨body,written,?_⟩
    rw [decodeBody,typed]
    exact reads_map reads registerSuperNak
  | peerInfo pkt =>
    obtain ⟨sock,preferred,low⟩ := wellFormed
    obtain ⟨body,written,reads⟩ := reads_peerInfo sock preferred low
    refine ⟨body,(Option.some.inj encoded).symm.trans written,?_⟩
    rw [decodeBody,typed]
    exact reads_map reads peerInfo
  | queryPeer pkt =>
    obtain ⟨body,written,reads⟩ := reads_queryPeer wellFormed
    refine ⟨body,(Option.some.inj encoded).symm.trans written,?_⟩
    rw [decodeBody,typed]
    exact reads_map reads queryPeer

theorem reads_encoded (out : Common) {common : Common} {tmpbuf : Payload} {message : Message}
    (shared : common.WellFormed) (typed : common.pc = message.pc)
    (wellFormed : message.WellFormed common tmpbuf) {bytes : List Byte}
    (encoded : message.encode common = some bytes) :
    Reads (decode out tmpbuf) bytes (some (common,message)) := by
  obtain ⟨body,rfl,reads⟩ := reads_body typed wellFormed encoded
  apply (reads_common out shared).bind
  rw [← List.append_nil body]
  apply reads.bind
  apply reads_pure

end Message

/-! ### What is read is well formed -/

theorem yields_buf {n : Nat} (out : Bytes n) (s : Nat) :
    Yields (decodeBuf out s) fun p => p.toList.drop s = out.toList.drop s := by
  intro r p later ran
  unfold decodeBuf at ran
  split at ran
  · cases ran
    rfl
  · simp only at ran
    split at ran
    · rename_i fits
      cases ran
      change (_ ++ out.toList.drop _).drop s = _
      rw [fits.1,List.drop_left' fits.1]
    · cases ran

theorem yields_common (out : Common) :
    Yields (decodeCommon out) fun read => ∀ common, read = some common → common.WellFormed := by
  apply yields_after
  intro version
  split
  · apply yields_pure
    intro common none
    cases none
  · apply yields_after
    intro ttl
    apply yields_after
    intro flags
    apply yields_after
    intro community
    apply yields_pure
    intro common read
    obtain rfl := Option.some.inj read
    constructor
    · rw [BitVec.toNat_setWidth]
      apply (Nat.mod_le _ _).trans_lt
      rw [BitVec.toNat_and]
      exact Nat.and_lt_two_pow (n := 5) _ (by decide)
    · change flags &&& N2N_FLAGS_BITS_MASK &&& N2N_FLAGS_TYPE_MASK = 0#16
      have apart : N2N_FLAGS_BITS_MASK &&& N2N_FLAGS_TYPE_MASK = 0#16 := by decide
      rw [BitVec.and_assoc,apart,BitVec.and_zero]

theorem yields_sock (out : Sock) : Yields (decodeSock out) Sock.WellFormed := by
  apply yields_after
  intro f
  split
  · apply yields_after
    intro port
    apply yields_after
    intro addr
    apply yields_pure
    exact .inl rfl
  · apply yields_after
    intro port
    refine Yields.bind (yields_buf _ _) ?_
    intro addr behind
    apply yields_pure
    exact .inr ⟨rfl,behind⟩

theorem yields_sockIf (common : Common) :
    Yields (decodeSockIf common {}) (Sock.WellFormedIf common) := by
  unfold decodeSockIf Sock.WellFormedIf
  split
  · exact yields_sock _
  · exact yields_pure rfl

theorem yields_auth : Yields (decodeAuth ⟨0,0,zeros _⟩) Auth.WellFormed := by
  apply yields_after
  intro scheme
  apply yields_after
  intro tokenSize
  refine Yields.bind (yields_buf _ _) ?_
  intro token behind
  exact yields_pure behind

section Bodies

variable {common : Common}

theorem yields_register :
    Yields (decodeRegister common) fun reg => reg.sock.WellFormedIf common := by
  refine yields_after fun cookie => yields_after fun srcMac => yields_after fun dstMac => ?_
  refine (yields_sockIf common).bind fun sock wellFormed => ?_
  refine yields_after fun devAddr => yields_after fun devDesc => ?_
  exact yields_pure wellFormed

theorem yields_registerSuper : Yields (decodeRegisterSuper common) fun reg =>
    reg.sock.WellFormedIf common ∧ reg.auth.WellFormed := by
  refine yields_after fun cookie => yields_after fun edgeMac => ?_
  refine (yields_sockIf common).bind fun sock wellFormed => ?_
  refine yields_after fun devAddr => yields_after fun devDesc => ?_
  refine yields_auth.bind fun auth token => yields_after fun keyTime => ?_
  exact yields_pure ⟨wellFormed,token⟩

theorem yields_unregisterSuper :
    Yields decodeUnregisterSuper fun unreg => unreg.auth.WellFormed := by
  refine yields_auth.bind fun auth token => yields_after fun srcMac => ?_
  exact yields_pure token

theorem yields_registerAck :
    Yields (decodeRegisterAck common) fun reg => reg.sock.WellFormedIf common := by
  refine yields_after fun cookie => yields_after fun dstMac => yields_after fun srcMac => ?_
  refine (yields_sockIf common).bind fun sock wellFormed => ?_
  exact yields_pure wellFormed

theorem yields_registerSuperAck (tmpbuf : Payload) :
    Yields (decodeRegisterSuperAck tmpbuf) fun read =>
      read.1.sock.WellFormed ∧ read.1.auth.WellFormed ∧
        read.2.toList.drop (payloadSize read.1.numSn) =
          tmpbuf.toList.drop (payloadSize read.1.numSn) := by
  refine yields_after fun cookie => yields_after fun srcMac => yields_after fun devAddr => ?_
  refine yields_after fun lifetime => (yields_sock {}).bind fun sock wellFormed => ?_
  refine yields_auth.bind fun auth token => yields_after fun numSn => ?_
  refine (yields_buf tmpbuf _).bind fun payload behind => yields_after fun keyTime => ?_
  exact yields_pure ⟨wellFormed,token,behind⟩

theorem yields_registerSuperNak :
    Yields decodeRegisterSuperNak fun nak => nak.auth.WellFormed := by
  refine yields_after fun cookie => yields_after fun srcMac => ?_
  exact yields_auth.bind fun auth token => yields_pure token

theorem yields_packet :
    Yields (decodePacket common) fun pkt => pkt.sock.WellFormedIf common := by
  refine yields_after fun srcMac => yields_after fun dstMac => ?_
  refine (yields_sockIf common).bind fun sock wellFormed => ?_
  refine yields_after fun compression => yields_after fun transform => ?_
  exact yields_pure wellFormed

theorem yields_peerInfo : Yields (decodePeerInfo common) fun pkt =>
    pkt.sock.WellFormed ∧ pkt.preferredSock.WellFormedIf common ∧ pkt.uptime.toNat < 2 ^ 32 := by
  refine yields_after fun aflags => yields_after fun srcMac => yields_after fun mac => ?_
  refine (yields_sock {}).bind fun sock wellFormed => ?_
  refine (yields_sockIf common).bind fun preferredSock preferred => ?_
  refine yields_after fun load => yields_after fun uptime => yields_after fun version => ?_
  have low : (uptime.setWidth 64).toNat < 2 ^ 32 := by
    rw [BitVec.toNat_setWidth]
    exact (Nat.mod_le _ _).trans_lt uptime.isLt
  exact yields_pure ⟨wellFormed,preferred,low⟩

theorem yields_queryPeer : Yields decodeQueryPeer fun pkt => pkt.sock = {} := by
  refine yields_after fun srcMac => yields_after fun targetMac => yields_after fun aflags => ?_
  exact yields_pure rfl

end Bodies

namespace Message

/-- Read from a packet of this common part. -/
def Read (common : Common) (tmpbuf : Payload) (read : Option Message) : Prop :=
  ∀ message, read = some message → common.pc = message.pc ∧ message.WellFormed common tmpbuf

theorem read_some {common : Common} {tmpbuf : Payload} {message : Message}
    (typed : common.pc = message.pc) (wellFormed : message.WellFormed common tmpbuf) :
    Yields (pure (some message) : Decoder Byte _) (Read common tmpbuf) := by
  apply yields_pure
  intro _ same
  obtain rfl := Option.some.inj same
  exact ⟨typed,wellFormed⟩

/-- Each packet type comes with its own decoder. -/
theorem yields_body (common : Common) (tmpbuf : Payload) :
    Yields (decodeBody common tmpbuf) (Read common tmpbuf) := by
  unfold decodeBody
  split
  next typed =>
    exact yields_register.bind fun _ sock => read_some (BitVec.eq_of_toNat_eq typed) sock
  next typed =>
    exact yields_packet.bind fun _ sock => read_some (BitVec.eq_of_toNat_eq typed) sock
  next typed =>
    exact yields_registerAck.bind fun _ sock => read_some (BitVec.eq_of_toNat_eq typed) sock
  next typed =>
    exact yields_registerSuper.bind fun _ both => read_some (BitVec.eq_of_toNat_eq typed) both
  next typed =>
    exact yields_unregisterSuper.bind fun _ token => read_some (BitVec.eq_of_toNat_eq typed) token
  next typed =>
    exact (yields_registerSuperAck tmpbuf).bind fun _ all =>
      read_some (BitVec.eq_of_toNat_eq typed) all
  next typed =>
    exact yields_registerSuperNak.bind fun _ token => read_some (BitVec.eq_of_toNat_eq typed) token
  next typed =>
    exact yields_peerInfo.bind fun _ all => read_some (BitVec.eq_of_toNat_eq typed) all
  next typed =>
    exact yields_queryPeer.bind fun _ unsent => read_some (BitVec.eq_of_toNat_eq typed) unsent
  next =>
    apply yields_pure
    intro message none
    cases none

theorem yields_decode (out : Common) (tmpbuf : Payload) :
    Yields (decode out tmpbuf) fun read => ∀ common message, read = some (common,message) →
      common.WellFormed ∧ common.pc = message.pc ∧ message.WellFormed common tmpbuf := by
  refine (yields_common out).bind fun cmn shared => ?_
  cases cmn with
  | none =>
    apply yields_pure
    intro common message none
    cases none
  | some cmn =>
    refine (yields_body cmn tmpbuf).bind fun body read => ?_
    apply yields_pure
    intro common message same
    obtain ⟨_,rfl,same⟩ := Option.map_eq_some_iff.mp same
    cases same
    exact ⟨shared _ rfl,read _ rfl⟩

/-- Well formed messages are read as they were written, and no others are ever read. -/
theorem read_iff_written (tmpbuf : Payload) :
    (∀ (out common : Common) (message : Message) (bytes : List Byte), common.WellFormed →
      common.pc = message.pc → message.WellFormed common tmpbuf →
      message.encode common = some bytes →
      Reads (decode out tmpbuf) bytes (some (common,message))) ∧
    ∀ out common message r later,
      decode out tmpbuf r = some (some (common,message),later) →
      common.WellFormed ∧ common.pc = message.pc ∧ message.WellFormed common tmpbuf := by
  constructor
  · intro out common message bytes shared typed wellFormed encoded
    exact reads_encoded out shared typed wellFormed encoded
  · intro out common message r later ran
    exact yields_decode out tmpbuf r _ later ran common message rfl

end Message

end HmclPe.N2n
