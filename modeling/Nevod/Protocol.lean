import Nevod.Crypto

/-!
`node/protocol.py`. A packet read from the wire has whatever the sender put
into its fields, so the fields are dynamically typed; the annotated form of the
dataclass is `TypedPacket`.
-/

set_option autoImplicit false

namespace Nevod
open Text

def protoVersion : Int := 1

namespace T

def msg := "msg"
def ack := "ack"
def ping := "ping"
def pong := "pong"
def gossip := "gossip"
def nodeRemove := "node_remove"
def nodeLeaving := "node_leaving"
def presenceQuery := "presence_query"
def presenceResponse := "presence_response"
def cellRegister := "cell_register"
def authChallenge := "auth_challenge"
def authResponse := "auth_response"

end T

structure Packet where
  type : Val
  payload : Val
  id : Val
  fromAddr : Val := .str ""
  toAddr : Val := .str ""
  sig : Val := .bin []
  ts : Val
  v : Val := .int protoVersion

/-- The `uuid4` text and the clock reading a constructor call draws. -/
structure Stamp where
  id : String
  ts : Int
  deriving DecidableEq, Repr

variable (L : Lib)

def Val.encode : Val → Except Err Bytes
  | .str s => .ok (utf8 s)
  | _ => .error .attributeError

/-- A value used as the right operand of `bytes + v`. -/
def Val.asBin : Val → Except Err Bytes
  | .bin b => .ok b
  | _ => .error .typeError

theorem Val.encode_ok {v : Val} {b : Bytes} (h : v.encode = .ok b) : ∃ s, v = .str s := by
  cases v with
  | str s => exact ⟨s,rfl⟩
  | _ => cases h

theorem Val.asBin_ok {v : Val} {b : Bytes} (h : v.asBin = .ok b) : v = .bin b := by
  cases v with
  | bin b' => exact congrArg Val.bin (Except.ok.inj h)
  | _ => cases h

def Packet.signData (p : Packet) : Except Err Bytes := do
  let id ← p.id.encode
  let type ← p.type.encode
  let fromAddr ← p.fromAddr.encode
  let toAddr ← p.toAddr.encode
  let payload ← p.payload.asBin
  pure (id ++ type ++ fromAddr ++ toAddr ++ payload ++ utf8 (p.ts.pyStr L.repr))

def Packet.toDict (p : Packet) : Val :=
  .map [(.str "v",p.v),(.str "id",p.id),(.str "type",p.type),(.str "from",p.fromAddr),
    (.str "to",p.toAddr),(.str "payload",p.payload),(.str "sig",p.sig),(.str "ts",p.ts)]

def pack (p : Packet) : Except Err Bytes := L.packb p.toDict

def Packet.ofDict (d : Val) : Except Err Packet := do
  let v ← d.get "v" (.int protoVersion)
  let id ← d.get "id" (.str "")
  let type ← d.get "type" (.str "")
  let fromAddr ← d.get "from" (.str "")
  let toAddr ← d.get "to" (.str "")
  let payload ← d.get "payload" (.bin [])
  let sig ← d.get "sig" (.bin [])
  let ts ← d.get "ts" (.int 0)
  pure { v, id, type, fromAddr, toAddr, payload := payload.orEmpty, sig := sig.orEmpty, ts }

def unpack (data : Bytes) : Except Err Packet := do
  let d ← L.unpackb data
  Packet.ofDict d

def signPacket (p : Packet) (kp : SigningKeypair L) : Except Err Packet := do
  let m ← p.signData L
  pure { p with sig := .bin (sign m kp) }

def verifyPacket (p : Packet) (signingPubkey : Bytes) : Except Err Bool := do
  if !p.sig.truthy then
    pure false
  else
    let m ← p.signData L
    verify L m p.sig (.bin signingPubkey)

def encodePayload (data : Val) : Except Err Bytes := L.packb data

/-- `unpackb` of anything but bytes raises. -/
def decodePayload : Val → Except Err Val
  | .bin b => L.unpackb b
  | _ => .error .typeError

def makePing (st : Stamp) (fromNode toNode : Val) : Packet :=
  { type := .str T.ping, payload := .bin [], id := .str st.id, ts := .int st.ts,
    fromAddr := fromNode, toAddr := toNode }

/-- The constructors that encode a payload first. -/
def makeEncoded (st : Stamp) (type : String) (data fromNode toNode : Val) :
    Except Err Packet := do
  let payload ← encodePayload L data
  pure { type := .str type, payload := .bin payload, id := .str st.id, ts := .int st.ts,
         fromAddr := fromNode, toAddr := toNode }

def makePong (st : Stamp) (fromNode toNode pingId : Val) : Except Err Packet :=
  makeEncoded L st T.pong (.map [(.str "ping_id",pingId)]) fromNode toNode

def makeGossip (st : Stamp) (fromNode : Val) (nodeTableEntries : List Val) :
    Except Err Packet :=
  makeEncoded L st T.gossip (.map [(.str "nodes",.arr nodeTableEntries)]) fromNode (.str "")

def makeAuthChallenge (st : Stamp) (fromNode toNode : Val) (nonce : Bytes) :
    Except Err Packet :=
  makeEncoded L st T.authChallenge (.map [(.str "nonce",.bin nonce)]) fromNode toNode

def makeAuthResponse (st : Stamp) (fromNode toNode : Val)
    (nonce signature signingPubkey encPubkey : Bytes) : Except Err Packet :=
  makeEncoded L st T.authResponse
    (.map [(.str "nonce",.bin nonce),(.str "sig",.bin signature),
      (.str "signing_pubkey",.bin signingPubkey),(.str "enc_pubkey",.bin encPubkey)])
    fromNode toNode

/-- A packet whose fields have the types the dataclass declares. -/
structure TypedPacket where
  id : String
  type : String
  fromAddr : String
  toAddr : String
  payload : Bytes
  ts : Int
  sig : Bytes := []
  v : Int := protoVersion
  deriving DecidableEq, Repr

def TypedPacket.packet (p : TypedPacket) : Packet :=
  { type := .str p.type, payload := .bin p.payload, id := .str p.id,
    fromAddr := .str p.fromAddr, toAddr := .str p.toAddr, sig := .bin p.sig,
    ts := .int p.ts, v := .int p.v }

/-- The bytes `sign_data` returns on a well-typed packet. -/
def TypedPacket.signBytes (p : TypedPacket) : Bytes :=
  utf8 p.id ++ utf8 p.type ++ utf8 p.fromAddr ++ utf8 p.toAddr ++ p.payload ++ decimal p.ts

@[simp] theorem TypedPacket.signData_packet (p : TypedPacket) :
    p.packet.signData L = .ok p.signBytes := rfl

variable {L}

theorem unpack_pack (h : L.PackLaws) {p : Packet} {frame : Bytes}
    (hp : pack L p = .ok frame) :
    unpack L frame = .ok { p with payload := p.payload.orEmpty, sig := p.sig.orEmpty } := by
  have hu := h.unpackb_packb _ _ hp
  unfold unpack
  rw [hu]
  rfl

/-- Neither a typed payload nor a typed signature is changed by `or b""`. -/
theorem unpack_pack_typed (h : L.PackLaws) {p : TypedPacket} {frame : Bytes}
    (hp : pack L p.packet = .ok frame) : unpack L frame = .ok p.packet := by
  rw [unpack_pack h hp]
  simp [TypedPacket.packet]

/-- A packet that verifies carries text in its four text fields and bytes in
its payload and signature; only `ts` and `v` stay unchecked. -/
theorem verifyPacket_true {p : Packet} {pub : Bytes} (h : verifyPacket L p pub = .ok true) :
    ∃ m s, p.signData L = .ok m ∧ p.sig = .bin s ∧ s ≠ [] ∧
      L.edKeyOk pub = true ∧ L.edValid pub s m = true := by
  unfold verifyPacket at h
  by_cases ht : p.sig.truthy = true
  · simp only [ht,Bool.not_true,Bool.false_eq_true,if_false] at h
    obtain ⟨m,hm,h⟩ := exists_of_bind h
    obtain ⟨s,pk,hs,hpk,hk,hv⟩ := verify_true h
    cases hpk
    refine ⟨m,s,hm,hs,?_,hk,hv⟩
    rintro rfl
    simp [hs,Val.truthy] at ht
  · simp only [ht,Bool.not_false,if_true] at h
    cases h

theorem signData_ok {p : Packet} {m : Bytes} (h : p.signData L = .ok m) :
    ∃ id type fromAddr toAddr payload, p.id = .str id ∧ p.type = .str type ∧
      p.fromAddr = .str fromAddr ∧ p.toAddr = .str toAddr ∧ p.payload = .bin payload := by
  obtain ⟨_,hid,h⟩ := exists_of_bind h
  obtain ⟨_,hty,h⟩ := exists_of_bind h
  obtain ⟨_,hfr,h⟩ := exists_of_bind h
  obtain ⟨_,hto,h⟩ := exists_of_bind h
  obtain ⟨payload,hpl,h⟩ := exists_of_bind h
  obtain ⟨id,hid⟩ := Val.encode_ok hid
  obtain ⟨type,hty⟩ := Val.encode_ok hty
  obtain ⟨fromAddr,hfr⟩ := Val.encode_ok hfr
  obtain ⟨toAddr,hto⟩ := Val.encode_ok hto
  exact ⟨id,type,fromAddr,toAddr,payload,hid,hty,hfr,hto,Val.asBin_ok hpl⟩

/-- The signature covers neither the old signature nor the version. -/
theorem signData_sig (p : Packet) (s : Val) :
    ({ p with sig := s } : Packet).signData L = p.signData L := rfl

/-- Putting a signature into a packet leaves it within what msgpack can encode. -/
theorem packable_sig {pkt : Packet} (h : pkt.toDict.packable packDepth = true) {s : Bytes}
    (hs : s.length = 64) :
    ({ pkt with sig := .bin s } : Packet).toDict.packable packDepth = true := by
  simp only [packDepth,Packet.toDict,Val.packable,List.all_cons,List.all_nil,
    Bool.and_eq_true] at h ⊢
  simp only [MapKey.toVal,Val.packable] at h ⊢
  simp_all

theorem signPacket_ok {p q : Packet} {kp : SigningKeypair L} (h : signPacket L p kp = .ok q) :
    ∃ m, p.signData L = .ok m ∧ q = { p with sig := .bin (sign m kp) } := by
  obtain ⟨m,hm,h⟩ := exists_of_bind h
  exact ⟨m,hm,(Except.ok.inj h).symm⟩

/-- A packet that was signed comes through the wire as it is. -/
theorem unpack_pack_signed (h : L.PackLaws) {p q : Packet} {kp : SigningKeypair L}
    {frame : Bytes} (hs : signPacket L p kp = .ok q) (hf : pack L q = .ok frame) :
    unpack L frame = .ok q := by
  obtain ⟨m,hm,rfl⟩ := signPacket_ok hs
  obtain ⟨_,_,_,_,payload,_,_,_,_,hp⟩ := signData_ok hm
  rw [unpack_pack h hf]
  simp [hp]

theorem verifyPacket_signPacket (h : L.SigLaws) {p q : Packet} {kp : SigningKeypair L}
    (hs : signPacket L p kp = .ok q) : verifyPacket L q kp.pub = .ok true := by
  obtain ⟨m,hm,rfl⟩ := signPacket_ok hs
  have hl := h.length kp.priv m
  have hne : sign m kp ≠ [] := by
    intro he
    simp only [sign] at he
    simp [he] at hl
  have ht : (Val.bin (sign m kp)).truthy = true := by
    simpa [Val.truthy] using hne
  unfold verifyPacket
  rw [signData_sig,hm]
  simp [ht,bind,Except.bind,verify_sign h]

end Nevod
