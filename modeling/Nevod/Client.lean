import Nevod.Node

/-!
`node/client.py`: what a cell puts on its socket, and what one frame from the
node makes it do.
-/

set_option autoImplicit false

namespace Nevod
open Text

variable {L : Lib}

/-- A cell's client; `ws` is the socket of the last `connect`, while it is open. -/
structure CellClient (L : Lib) where
  identity : Identity L
  onMessage : Bool
  ws : Option Nat := none
  nodeId : String := ""
  nodeSigningPubkey : Bytes := []

namespace CellClient

def cellId (self : CellClient L) : String := self.identity.id

/-- The client after the handshake in `connect`. -/
def joined (self : CellClient L) (ws : Nat) (nodeSigningPub : Bytes) : CellClient L :=
  { self with ws := some ws, nodeId := hex nodeSigningPub, nodeSigningPubkey := nodeSigningPub }

/-- The CELL_REGISTER frame at the end of `connect`. -/
def registration (self : CellClient L) (st : Stamp) : Except Err Bytes := do
  let payload ← encodePayload L (.map [(.str "cell_id",.str self.cellId),
    (.str "signing_pubkey",.bin self.identity.signing.pub),
    (.str "enc_pubkey",.bin self.identity.encryption.pub),(.str "is_home",.bool true)])
  let reg ← signPacket L
    { type := .str T.cellRegister, payload := .bin payload, id := .str st.id, ts := .int st.ts,
      fromAddr := .str self.cellId, toAddr := .str self.nodeId } self.identity.signing
  pack L reg

def address (cellId nodeId : String) : String := cellId ++ "@" ++ nodeId

/-- The MSG packet with a payload that has been sealed. -/
def message (self : CellClient L) (st : Stamp) (toCellId toNodeId : String) (payload : Bytes) :
    Packet :=
  { type := .str T.msg, payload := .bin payload, id := .str st.id, ts := .int st.ts,
    fromAddr := .str (address self.cellId self.nodeId),
    toAddr := .str (address toCellId toNodeId) }

/-- The packet and the frame that `send` puts on the socket. -/
def send (self : CellClient L) (st : Stamp) (rnd : SealRandom) (toCellId toNodeId : String)
    (recipientEncPubkey plaintext : Bytes) : Except Err (Packet × Bytes) := do
  if self.ws.isNone then throw (.runtimeError "CellClient: not connected")
  let enc ← encrypt L rnd plaintext recipientEncPubkey
  let payload ← encodePayload L (Node.sealedPayload enc)
  let pkt ← signPacket L (self.message st toCellId toNodeId payload) self.identity.signing
  let frame ← pack L pkt
  pure (pkt,frame)

/-- The plaintext of a MSG packet. -/
def openPayload (self : CellClient L) (pkt : Packet) : Except Err Bytes := do
  let data ← decodePayload L pkt.payload
  let ciphertext ← (← data.item "ciphertext").toBytes
  let nonce ← (← data.item "nonce").toBytes
  let ephemeralPubkey ← (← data.item "ephemeral_pubkey").toBytes
  decrypt ciphertext nonce ephemeralPubkey self.identity.encryption

/-- `_handle_msg`: the plaintext handed to the callback, if it is called. -/
def handleMsg (self : CellClient L) (pkt : Packet) : Except Err (Option Bytes) :=
  match self.openPayload pkt with
  | .error _ => do
    pkt.fromAddr.slice
    pure none
  | .ok plaintext => pure (if self.onMessage then some plaintext else none)

/-- One frame in `_recv_loop`: the packet and the plaintext for which the
callback is called, with the packet's `from_addr`. An exception ends the loop. -/
def receive (self : CellClient L) (raw : Bytes) : Except Err (Option (Packet × Bytes)) := do
  let pkt ← unpack L raw
  let valid ← verifyPacket L pkt self.nodeSigningPubkey
  if !valid then pure none
  else if pkt.type.eqStr T.msg then
    let plaintext ← self.handleMsg pkt
    pure (plaintext.map (fun p => (pkt,p)))
  else pure none

theorem registration_ok {self : CellClient L} {st : Stamp} {frame : Bytes}
    (h : self.registration st = .ok frame) :
    ∃ reg signed, reg.type = .str T.cellRegister ∧
      signPacket L reg self.identity.signing = .ok signed ∧ pack L signed = .ok frame := by
  obtain ⟨payload,_,h⟩ := exists_of_bind h
  obtain ⟨signed,hs,h⟩ := exists_of_bind h
  exact ⟨_,signed,rfl,hs,h⟩

theorem send_ok {self : CellClient L} {st : Stamp} {rnd : SealRandom} {toCellId toNodeId : String}
    {key plaintext : Bytes} {pkt : Packet} {frame : Bytes}
    (h : self.send st rnd toCellId toNodeId key plaintext = .ok (pkt,frame)) :
    ∃ enc payload, encrypt L rnd plaintext key = .ok enc ∧
      encodePayload L (Node.sealedPayload enc) = .ok payload ∧
      signPacket L (self.message st toCellId toNodeId payload) self.identity.signing = .ok pkt ∧
      pack L pkt = .ok frame := by
  unfold send at h
  split at h
  · cases h
  · obtain ⟨enc,he,h⟩ := exists_of_bind h
    obtain ⟨payload,hp,h⟩ := exists_of_bind h
    obtain ⟨signed,hs,h⟩ := exists_of_bind h
    obtain ⟨f,hf,h⟩ := exists_of_bind h
    cases h
    exact ⟨enc,payload,he,hp,hs,hf⟩

/-- Whatever packet brings the payload that was sealed for a cell, the cell reads
the plaintext from it. -/
theorem openPayload_sealed (hp : L.PackLaws) (hs : L.SealLaws) {self : CellClient L}
    {rnd : SealRandom} {plaintext : Bytes} {enc : Encrypted} {payload : Bytes} {pkt : Packet}
    (he : encrypt L rnd plaintext self.identity.encryption.pub = .ok enc)
    (hpay : encodePayload L (Node.sealedPayload enc) = .ok payload)
    (hpkt : pkt.payload = .bin payload) : self.openPayload pkt = .ok plaintext := by
  have hu : L.unpackb payload = .ok (Node.sealedPayload enc) := hp.unpackb_packb _ _ hpay
  unfold openPayload
  rw [hpkt]
  simp only [decodePayload,hu,bind,Except.bind,Node.sealedPayload,Val.item,Val.lookup]
  exact decrypt_encrypt hs he

theorem receive_ok {self : CellClient L} {raw : Bytes} {pkt : Packet} {plaintext : Bytes}
    (hu : unpack L raw = .ok pkt) (hv : verifyPacket L pkt self.nodeSigningPubkey = .ok true)
    (hty : pkt.type = .str T.msg) (hm : self.onMessage = true)
    (ho : self.openPayload pkt = .ok plaintext) : self.receive raw = .ok (some (pkt,plaintext)) := by
  unfold receive handleMsg
  simp [hu,hv,hty,hm,ho,bind,Except.bind,pure,Except.pure,Val.eqStr]

theorem handleMsg_some {self : CellClient L} {pkt : Packet} {plaintext : Bytes}
    (h : self.handleMsg pkt = .ok (some plaintext)) : self.openPayload pkt = .ok plaintext := by
  unfold handleMsg at h
  cases ho : self.openPayload pkt with
  | error e =>
    rw [ho] at h
    obtain ⟨_,_,h⟩ := exists_of_bind h
    cases h
  | ok text =>
    rw [ho] at h
    by_cases hm : self.onMessage = true
    · simp only [hm,if_true] at h
      cases h
      rfl
    · simp [hm,pure,Except.pure] at h

/-- What is handed to the callback has passed the checks. -/
theorem receive_some {self : CellClient L} {raw : Bytes} {pkt : Packet} {plaintext : Bytes}
    (h : self.receive raw = .ok (some (pkt,plaintext))) :
    unpack L raw = .ok pkt ∧ verifyPacket L pkt self.nodeSigningPubkey = .ok true ∧
      pkt.type = .str T.msg ∧ self.openPayload pkt = .ok plaintext := by
  obtain ⟨p,hu,h⟩ := exists_of_bind h
  obtain ⟨valid,hv,h⟩ := exists_of_bind h
  cases valid with
  | false => cases h
  | true =>
    by_cases hty : p.type.eqStr T.msg = true
    · simp only [hty,Bool.not_true,Bool.false_eq_true,if_false,if_true] at h
      obtain ⟨read,hread,h⟩ := exists_of_bind h
      obtain ⟨text,rfl,he⟩ := Option.map_eq_some_iff.mp (Except.ok.inj h)
      cases he
      exact ⟨hu,hv,Val.eqStr_iff.mp hty,handleMsg_some hread⟩
    · simp [hty,pure,Except.pure] at h

end CellClient

end Nevod
