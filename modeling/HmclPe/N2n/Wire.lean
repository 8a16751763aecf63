import HmclPe.Lib.Reading

/-! How the edges and supernodes of n2n lay their messages out in a packet, and read them back. -/
namespace HmclPe.N2n
open Lib.Reading

abbrev Byte := BitVec 8
abbrev Bytes (n : Nat) := List.Vector Byte n

def zeros (n : Nat) : Bytes n := List.Vector.replicate n 0

def N2N_PKT_VERSION : Byte := 3
def N2N_COMMUNITY_SIZE : Nat := 20
def N2N_MAC_SIZE : Nat := 6
def N2N_DESC_SIZE : Nat := 16
def N2N_VERSION_STRING_SIZE : Nat := 20
def N2N_AUTH_MAX_TOKEN_SIZE : Nat := 48
def N2N_FLAGS_SOCKET : BitVec 16 := 0x0040
def N2N_FLAGS_TYPE_MASK : BitVec 16 := 0x001f
def N2N_FLAGS_BITS_MASK : BitVec 16 := 0xffe0
def IPV4_SIZE : Nat := 4
def IPV6_SIZE : Nat := 16
def AF_INET : Byte := 2
def AF_INET6 : Byte := 10

/-- An MTU of 1290, less a common part of 24 and an acknowledgement of 100. -/
def REG_SUPER_ACK_PAYLOAD_SPACE : Nat := 1166

/-- A socket and the address of a supernode. -/
def REG_SUPER_ACK_PAYLOAD_ENTRY_SIZE : Nat := 26

abbrev Mac := Bytes N2N_MAC_SIZE

/-- The four bytes of `v4` are the first ones of `v6`. -/
structure Sock where
  family : Byte := 0
  port : BitVec 16 := 0
  addr : Bytes IPV6_SIZE := zeros _
deriving DecidableEq

structure IpSubnet where
  netAddr : BitVec 32
  netBitlen : Byte
deriving DecidableEq

structure Auth where
  scheme : BitVec 16
  tokenSize : BitVec 16
  token : Bytes N2N_AUTH_MAX_TOKEN_SIZE
deriving DecidableEq

structure Common where
  ttl : Byte
  pc : Byte
  flags : BitVec 16
  community : Bytes N2N_COMMUNITY_SIZE
deriving DecidableEq

structure Register where
  cookie : BitVec 32
  srcMac : Mac
  dstMac : Mac
  sock : Sock
  devAddr : IpSubnet
  devDesc : Bytes N2N_DESC_SIZE
deriving DecidableEq

structure RegisterAck where
  cookie : BitVec 32
  srcMac : Mac
  dstMac : Mac
  sock : Sock
deriving DecidableEq

structure Packet where
  srcMac : Mac
  dstMac : Mac
  sock : Sock
  transform : Byte
  compression : Byte
deriving DecidableEq

structure RegisterSuper where
  cookie : BitVec 32
  edgeMac : Mac
  sock : Sock
  devAddr : IpSubnet
  devDesc : Bytes N2N_DESC_SIZE
  auth : Auth
  keyTime : BitVec 32
deriving DecidableEq

structure RegisterSuperAck where
  cookie : BitVec 32
  srcMac : Mac
  devAddr : IpSubnet
  lifetime : BitVec 16
  sock : Sock
  auth : Auth
  numSn : Byte
  keyTime : BitVec 32
deriving DecidableEq

structure RegisterSuperNak where
  cookie : BitVec 32
  srcMac : Mac
  auth : Auth
deriving DecidableEq

structure UnregisterSuper where
  auth : Auth
  srcMac : Mac
deriving DecidableEq

structure PeerInfo where
  aflags : BitVec 16
  srcMac : Mac
  mac : Mac
  sock : Sock
  preferredSock : Sock
  load : BitVec 32
  version : Bytes N2N_VERSION_STRING_SIZE
  uptime : BitVec 64
deriving DecidableEq

/-- Its socket is not sent. -/
structure QueryPeer where
  aflags : BitVec 16
  srcMac : Mac
  sock : Sock
  targetMac : Mac
deriving DecidableEq

/-! ### Numbers and arrays -/

def encodeUint8 (v : Byte) : List Byte := [v &&& 0xff]

def decodeUint8 (out : Byte) : Decoder Byte Byte := fun r =>
  if r.rem < 1 then some (out,r)
  else do
    let b ← cell 0 r
    some (b &&& 0xff,r.advance 1)

def encodeUint16 (v : BitVec 16) : List Byte :=
  [(v >>> 8 &&& 0xff).setWidth 8,(v &&& 0xff).setWidth 8]

def decodeUint16 (out : BitVec 16) : Decoder Byte (BitVec 16) := fun r =>
  if r.rem < 2 then some (out,r)
  else do
    let b0 ← cell 0 r
    let b1 ← cell 1 r
    some ((b0 &&& 0xff).setWidth 16 <<< 8 ||| (b1 &&& 0xff).setWidth 16,r.advance 2)

def encodeUint32 (v : BitVec 32) : List Byte :=
  [(v >>> 24 &&& 0xff).setWidth 8,(v >>> 16 &&& 0xff).setWidth 8,(v >>> 8 &&& 0xff).setWidth 8,
    (v &&& 0xff).setWidth 8]

def decodeUint32 (out : BitVec 32) : Decoder Byte (BitVec 32) := fun r =>
  if r.rem < 4 then some (out,r)
  else do
    let b0 ← cell 0 r
    let b1 ← cell 1 r
    let b2 ← cell 2 r
    let b3 ← cell 3 r
    some ((b0 &&& 0xff).setWidth 32 <<< 24 ||| (b1 &&& 0xff).setWidth 32 <<< 16 |||
      (b2 &&& 0xff).setWidth 32 <<< 8 ||| (b3 &&& 0xff).setWidth 32,r.advance 4)

/-- A fault where the array to copy from is shorter. -/
def encodeBuf {n : Nat} (p : Bytes n) (s : Nat) : Option (List Byte) :=
  if s ≤ n then some (p.toList.take s) else none

/-- The array once its first cells are overwritten. -/
def overwrite {n : Nat} (out : Bytes n) (bytes : List Byte) (fits : bytes.length ≤ n) : Bytes n :=
  ⟨bytes ++ out.toList.drop bytes.length,by simp [fits]⟩

/-- A fault where the array to copy to is shorter. -/
def decodeBuf {n : Nat} (out : Bytes n) (bufsize : Nat) : Decoder Byte (Bytes n) := fun r =>
  if r.rem < bufsize then some (out,r)
  else
    let bytes := (r.base.drop r.idx).take bufsize
    if fits : bytes.length = bufsize ∧ bufsize ≤ n then
      some (overwrite out bytes (by omega),r.advance bufsize)
    else none

def encodeArray {n : Nat} (p : Bytes n) : List Byte := p.toList

def decodeArray {n : Nat} (out : Bytes n) : Decoder Byte (Bytes n) := decodeBuf out n

/-! ### What the messages share -/

def encodeCommon (common : Common) : List Byte :=
  let flags := common.pc.setWidth 16 &&& N2N_FLAGS_TYPE_MASK |||
    common.flags &&& N2N_FLAGS_BITS_MASK
  [encodeUint8 N2N_PKT_VERSION,encodeUint8 common.ttl,encodeUint16 flags,
    encodeArray common.community].flatten

/-- Nothing for another version. -/
def decodeCommon (out : Common) : Decoder Byte (Option Common) := do
  let version ← decodeUint8 0
  if version ≠ N2N_PKT_VERSION then pure none
  else do
    let ttl ← decodeUint8 out.ttl
    let flags ← decodeUint16 out.flags
    let community ← decodeArray out.community
    pure (some ⟨ttl,(flags &&& N2N_FLAGS_TYPE_MASK).setWidth 8,flags &&& N2N_FLAGS_BITS_MASK,
      community⟩)

def encodeSock (sock : Sock) : List Byte :=
  if sock.family = AF_INET then
    [encodeUint16 0,encodeUint16 sock.port,sock.addr.toList.take IPV4_SIZE].flatten
  else if sock.family = AF_INET6 then
    [encodeUint16 0x8000,encodeUint16 sock.port,encodeArray sock.addr].flatten
  else []

def decodeSock (sock : Sock) : Decoder Byte Sock := do
  let f ← decodeUint16 0
  if f &&& 0x8000 ≠ 0 then do
    let port ← decodeUint16 sock.port
    let addr ← decodeArray sock.addr
    pure ⟨AF_INET6,port,addr⟩
  else do
    let port ← decodeUint16 sock.port
    let addr ← decodeBuf (zeros IPV6_SIZE) IPV4_SIZE
    pure ⟨AF_INET,port,addr⟩

def Common.hasSocket (common : Common) : Bool := common.flags &&& N2N_FLAGS_SOCKET ≠ 0

def encodeSockIf (common : Common) (sock : Sock) : List Byte :=
  if common.hasSocket then encodeSock sock else []

def decodeSockIf (cmn : Common) (sock : Sock) : Decoder Byte Sock :=
  if cmn.hasSocket then decodeSock sock else pure sock

/-- Its scheme, its size and as many bytes. -/
def encodeAuth (auth : Auth) : Option (List Byte) := do
  let token ← encodeBuf auth.token auth.tokenSize.toNat
  some [encodeUint16 auth.scheme,encodeUint16 auth.tokenSize,token].flatten

def decodeAuth (auth : Auth) : Decoder Byte Auth := do
  let scheme ← decodeUint16 auth.scheme
  let tokenSize ← decodeUint16 auth.tokenSize
  let token ← decodeBuf auth.token tokenSize.toNat
  pure ⟨scheme,tokenSize,token⟩

def encodeSubnet (subnet : IpSubnet) : List Byte :=
  [encodeUint32 subnet.netAddr,encodeUint8 subnet.netBitlen].flatten

def decodeSubnet (subnet : IpSubnet) : Decoder Byte IpSubnet := do
  let netAddr ← decodeUint32 subnet.netAddr
  let netBitlen ← decodeUint8 subnet.netBitlen
  pure ⟨netAddr,netBitlen⟩

/-! ### The messages -/

def encodeRegister (common : Common) (reg : Register) : List Byte :=
  [encodeCommon common,encodeUint32 reg.cookie,encodeArray reg.srcMac,encodeArray reg.dstMac,
    encodeSockIf common reg.sock,encodeSubnet reg.devAddr,encodeArray reg.devDesc].flatten

def decodeRegister (cmn : Common) : Decoder Byte Register := do
  let cookie ← decodeUint32 0
  let srcMac ← decodeArray (zeros _)
  let dstMac ← decodeArray (zeros _)
  let sock ← decodeSockIf cmn {}
  let devAddr ← decodeSubnet ⟨0,0⟩
  let devDesc ← decodeArray (zeros _)
  pure ⟨cookie,srcMac,dstMac,sock,devAddr,devDesc⟩

def encodeRegisterSuper (common : Common) (reg : RegisterSuper) : Option (List Byte) := do
  let auth ← encodeAuth reg.auth
  some [encodeCommon common,encodeUint32 reg.cookie,encodeArray reg.edgeMac,
    encodeSockIf common reg.sock,encodeSubnet reg.devAddr,encodeArray reg.devDesc,auth,
    encodeUint32 reg.keyTime].flatten

def decodeRegisterSuper (cmn : Common) : Decoder Byte RegisterSuper := do
  let cookie ← decodeUint32 0
  let edgeMac ← decodeArray (zeros _)
  let sock ← decodeSockIf cmn {}
  let devAddr ← decodeSubnet ⟨0,0⟩
  let devDesc ← decodeArray (zeros _)
  let auth ← decodeAuth ⟨0,0,zeros _⟩
  let keyTime ← decodeUint32 0
  pure ⟨cookie,edgeMac,sock,devAddr,devDesc,auth,keyTime⟩

def encodeUnregisterSuper (common : Common) (unreg : UnregisterSuper) : Option (List Byte) := do
  let auth ← encodeAuth unreg.auth
  some [encodeCommon common,auth,encodeArray unreg.srcMac].flatten

def decodeUnregisterSuper : Decoder Byte UnregisterSuper := do
  let auth ← decodeAuth ⟨0,0,zeros _⟩
  let srcMac ← decodeArray (zeros _)
  pure ⟨auth,srcMac⟩

def encodeRegisterAck (common : Common) (reg : RegisterAck) : List Byte :=
  [encodeCommon common,encodeUint32 reg.cookie,encodeArray reg.dstMac,encodeArray reg.srcMac,
    encodeSockIf common reg.sock].flatten

def decodeRegisterAck (cmn : Common) : Decoder Byte RegisterAck := do
  let cookie ← decodeUint32 0
  let dstMac ← decodeArray (zeros _)
  let srcMac ← decodeArray (zeros _)
  let sock ← decodeSockIf cmn {}
  pure ⟨cookie,srcMac,dstMac,sock⟩

abbrev Payload := Bytes REG_SUPER_ACK_PAYLOAD_SPACE

/-- What the entries of so many supernodes take of the payload. -/
def payloadSize (numSn : Byte) : Nat := numSn.toNat * REG_SUPER_ACK_PAYLOAD_ENTRY_SIZE

def encodeRegisterSuperAck (common : Common) (reg : RegisterSuperAck) (tmpbuf : Payload) :
    Option (List Byte) := do
  let auth ← encodeAuth reg.auth
  let payload ← encodeBuf tmpbuf (payloadSize reg.numSn)
  some [encodeCommon common,encodeUint32 reg.cookie,encodeArray reg.srcMac,
    encodeSubnet reg.devAddr,encodeUint16 reg.lifetime,encodeSock reg.sock,auth,
    encodeUint8 reg.numSn,payload,encodeUint32 reg.keyTime].flatten

def decodeRegisterSuperAck (tmpbuf : Payload) : Decoder Byte (RegisterSuperAck × Payload) := do
  let cookie ← decodeUint32 0
  let srcMac ← decodeArray (zeros _)
  let devAddr ← decodeSubnet ⟨0,0⟩
  let lifetime ← decodeUint16 0
  let sock ← decodeSock {}
  let auth ← decodeAuth ⟨0,0,zeros _⟩
  let numSn ← decodeUint8 0
  let tmpbuf ← decodeBuf tmpbuf (payloadSize numSn)
  let keyTime ← decodeUint32 0
  pure (⟨cookie,srcMac,devAddr,lifetime,sock,auth,numSn,keyTime⟩,tmpbuf)

def encodeRegisterSuperNak (common : Common) (nak : RegisterSuperNak) : Option (List Byte) := do
  let auth ← encodeAuth nak.auth
  some [encodeCommon common,encodeUint32 nak.cookie,encodeArray nak.srcMac,auth].flatten

def decodeRegisterSuperNak : Decoder Byte RegisterSuperNak := do
  let cookie ← decodeUint32 0
  let srcMac ← decodeArray (zeros _)
  let auth ← decodeAuth ⟨0,0,zeros _⟩
  pure ⟨cookie,srcMac,auth⟩

def encodePacket (common : Common) (pkt : Packet) : List Byte :=
  [encodeCommon common,encodeArray pkt.srcMac,encodeArray pkt.dstMac,
    encodeSockIf common pkt.sock,encodeUint8 pkt.compression,encodeUint8 pkt.transform].flatten

def decodePacket (cmn : Common) : Decoder Byte Packet := do
  let srcMac ← decodeArray (zeros _)
  let dstMac ← decodeArray (zeros _)
  let sock ← decodeSockIf cmn {}
  let compression ← decodeUint8 0
  let transform ← decodeUint8 0
  pure ⟨srcMac,dstMac,sock,transform,compression⟩

def encodePeerInfo (cmn : Common) (pkt : PeerInfo) : List Byte :=
  [encodeCommon cmn,encodeUint16 pkt.aflags,encodeArray pkt.srcMac,encodeArray pkt.mac,
    encodeSock pkt.sock,encodeSockIf cmn pkt.preferredSock,encodeUint32 pkt.load,
    encodeUint32 (pkt.uptime.setWidth 32),encodeArray pkt.version].flatten

/-- Only the low half of the time is read, over zeros. -/
def decodePeerInfo (cmn : Common) : Decoder Byte PeerInfo := do
  let aflags ← decodeUint16 0
  let srcMac ← decodeArray (zeros _)
  let mac ← decodeArray (zeros _)
  let sock ← decodeSock {}
  let preferredSock ← decodeSockIf cmn {}
  let load ← decodeUint32 0
  let uptime ← decodeUint32 0
  let version ← decodeArray (zeros _)
  pure ⟨aflags,srcMac,mac,sock,preferredSock,load,version,uptime.setWidth 64⟩

def encodeQueryPeer (common : Common) (pkt : QueryPeer) : List Byte :=
  [encodeCommon common,encodeArray pkt.srcMac,encodeArray pkt.targetMac,
    encodeUint16 pkt.aflags].flatten

def decodeQueryPeer : Decoder Byte QueryPeer := do
  let srcMac ← decodeArray (zeros _)
  let targetMac ← decodeArray (zeros _)
  let aflags ← decodeUint16 0
  pure ⟨aflags,srcMac,{},targetMac⟩

inductive Message where
  | register (reg : Register)
  | packet (pkt : Packet)
  | registerAck (reg : RegisterAck)
  | registerSuper (reg : RegisterSuper)
  | unregisterSuper (unreg : UnregisterSuper)
  | registerSuperAck (reg : RegisterSuperAck) (tmpbuf : Payload)
  | registerSuperNak (nak : RegisterSuperNak)
  | peerInfo (pkt : PeerInfo)
  | queryPeer (pkt : QueryPeer)

namespace Message

/-- The packet type that announces it. -/
def pc : Message → Byte
  | register _ => 1
  | packet _ => 3
  | registerAck _ => 4
  | registerSuper _ => 5
  | unregisterSuper _ => 6
  | registerSuperAck .. => 7
  | registerSuperNak _ => 8
  | peerInfo _ => 10
  | queryPeer _ => 11

def encode (common : Common) : Message → Option (List Byte)
  | register reg => some (encodeRegister common reg)
  | packet pkt => some (encodePacket common pkt)
  | registerAck reg => some (encodeRegisterAck common reg)
  | registerSuper reg => encodeRegisterSuper common reg
  | unregisterSuper unreg => encodeUnregisterSuper common unreg
  | registerSuperAck reg tmpbuf => encodeRegisterSuperAck common reg tmpbuf
  | registerSuperNak nak => encodeRegisterSuperNak common nak
  | peerInfo pkt => some (encodePeerInfo common pkt)
  | queryPeer pkt => some (encodeQueryPeer common pkt)

/-- The decoder that the switch over the packet type comes to, none where it does nothing. -/
def decodeBody (cmn : Common) (tmpbuf : Payload) : Decoder Byte (Option Message) :=
  match cmn.pc.toNat with
  | 1 => do pure (some (register (← decodeRegister cmn)))
  | 3 => do pure (some (packet (← decodePacket cmn)))
  | 4 => do pure (some (registerAck (← decodeRegisterAck cmn)))
  | 5 => do pure (some (registerSuper (← decodeRegisterSuper cmn)))
  | 6 => do pure (some (unregisterSuper (← decodeUnregisterSuper)))
  | 7 => do
    let (reg,tmpbuf) ← decodeRegisterSuperAck tmpbuf
    pure (some (registerSuperAck reg tmpbuf))
  | 8 => do pure (some (registerSuperNak (← decodeRegisterSuperNak)))
  | 10 => do pure (some (peerInfo (← decodePeerInfo cmn)))
  | 11 => do pure (some (queryPeer (← decodeQueryPeer)))
  | _ => pure none

/-- Into the given common part and payload. -/
def decode (cmn : Common) (tmpbuf : Payload) : Decoder Byte (Option (Common × Message)) := do
  match ← decodeCommon cmn with
  | none => pure none
  | some cmn =>
    let message ← decodeBody cmn tmpbuf
    pure (message.map (cmn,·))

end Message

end HmclPe.N2n
