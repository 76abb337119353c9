import Nevod.Gossip

/-! `node/node.py`: the dispatcher and the operations of a node. -/

set_option autoImplicit false

namespace Nevod
open Text Resume

variable {L : Lib}

namespace Node

def handleNodeRemove (L : Lib) (pkt : Packet) : NodeProg Unit :=
  match (decodePayload L pkt.payload).bind (fun data => data.item "node_id") with
  | .error _ => pure ()
  | .ok nodeId => do
    Storage.dropNode L nodeId
    Prog.ofExcept nodeId.slice

/-- `connections.remove` of a value: only a text can be the key of an entry. -/
def removeConnection : Val → NodeProg Unit
  | .str nodeId => NodeProg.connRemove nodeId
  | .arr _ | .map _ => Prog.raise .typeError
  | _ => pure ()

def handleNodeLeaving (L : Lib) (pkt : Packet) : NodeProg Unit := do
  let nodeId := pkt.fromAddr
  Storage.dropNode L nodeId
  removeConnection nodeId
  Prog.ofExcept nodeId.slice

/-- The row of a value; the keys of the table are texts. -/
def presenceOf (L : Lib) (cellId : Val) : NodeProg (Option PresenceEntry) := do
  match ← Prog.ofExcept (SqlText.ofVal L.realText cellId) with
  | some (.text c) => NodeProg.store (.getPresence c)
  | _ => pure none

def optStr : Option String → Val
  | some s => .str s
  | none => .none

def handlePresenceQuery (self : Node L) (pkt : Packet) (conn : PeerConnection) :
    NodeProg Unit :=
  match (decodePayload L pkt.payload).bind (fun data => data.item "cell_id") with
  | .error _ => pure ()
  | .ok cellId => do
    let presence ← presenceOf L cellId
    let payload ← Prog.ofExcept (encodePayload L (.map [(.str "cell_id",cellId),
      (.str "home_node_id",optStr (presence.map PresenceEntry.homeNodeId)),
      (.str "visiting_node_id",optStr (presence.bind PresenceEntry.visitingNodeId))]))
    let st ← NodeProg.stamp
    let _ ← Transport.sendVia self conn
      { type := .str T.presenceResponse, payload := .bin payload, id := .str st.id,
        ts := .int st.ts, fromAddr := .str self.id, toAddr := pkt.fromAddr }
    pure ()

structure CellClaim where
  cellId : Val
  signingPub : Bytes
  encPub : Bytes
  isHome : Bool

/-- What `_handle_cell_register` reads from the packet. -/
def cellClaim (L : Lib) (pkt : Packet) : Except Err CellClaim := do
  let data ← decodePayload L pkt.payload
  let cellId ← data.item "cell_id"
  let signing ← data.item "signing_pubkey"
  let signingPub ← signing.toBytes
  let enc ← data.item "enc_pubkey"
  let encPub ← enc.toBytes
  let isHome ← data.get "is_home" (.bool true)
  pure ⟨cellId,signingPub,encPub,isHome.truthy⟩

/-- An accepted registration, and the messages that were waiting for the cell. -/
def accept (self : Node L) (conn : PeerConnection) (c : CellClaim) : NodeProg Unit := do
  NodeProg.store (.registerCell conn.peerNodeId c.signingPub c.encPub c.isHome)
  NodeProg.store (.updatePresence conn.peerNodeId self.id none)
  Router.flushBuffer self conn.peerNodeId

/-- `_handle_cell_register`: the claimed identity has to match the key proven in
the handshake. -/
def handleCellRegister (self : Node L) (pkt : Packet) (conn : PeerConnection) : NodeProg Unit :=
  match cellClaim L pkt with
  | .error _ => pure ()
  | .ok c =>
    if c.signingPub ≠ conn.peerSigningPubkey then pure ()
    else if !c.cellId.eqStr conn.peerNodeId then pure ()
    else accept self conn c

def dispatch (self : Node L) (pkt : Packet) (conn : PeerConnection) : NodeProg Unit :=
  if pkt.type.eqStr T.ping then GossipEngine.handlePing self pkt conn
  else if pkt.type.eqStr T.pong then GossipEngine.handlePong L pkt
  else if pkt.type.eqStr T.gossip then GossipEngine.handleGossip L pkt
  else if pkt.type.eqStr T.msg then Router.route self pkt
  else if pkt.type.eqStr T.nodeRemove then handleNodeRemove L pkt
  else if pkt.type.eqStr T.nodeLeaving then handleNodeLeaving L pkt
  else if pkt.type.eqStr T.presenceQuery then handlePresenceQuery self pkt conn
  else if pkt.type.eqStr T.presenceResponse then pure ()
  else if pkt.type.eqStr T.cellRegister then handleCellRegister self pkt conn
  else Prog.ofExcept pkt.fromAddr.slice

def join (L : Lib) (bootstrapAddress : String) : NodeProg Unit := do
  let conn ← Transport.connect bootstrapAddress
  let lastSeen ← NodeProg.time
  let addedAt ← NodeProg.time
  Storage.putNode L { nodeId := .str conn.peerNodeId, address := .str bootstrapAddress,
                      type := .str "permanent", access := .str "open", lastSeen,
                      status := "online", addedAt }

/-- `create_genesis`, once its identity is saved and its storage is open. -/
def createGenesis (self : Node L) (address access : String) : NodeProg Unit := do
  let lastSeen ← NodeProg.time
  let addedAt ← NodeProg.time
  Storage.putNode L { nodeId := .str self.id, address := .str address, type := .str "permanent",
                      access := .str access, lastSeen, status := "online", addedAt }

/-- The fields `encrypt` returns, as the payload of a MSG packet. -/
def sealedPayload (enc : Encrypted) : Val :=
  .map [(.str "ephemeral_pubkey",.bin enc.ephemeralPubkey),(.str "nonce",.bin enc.nonce),
    (.str "ciphertext",.bin enc.ciphertext)]

/-- `send_message`: the caller says on whose behalf it sends. -/
def sendMessage (self : Node L) (toCellAtNode : String) (plaintext : Bytes)
    (fromCellId : Option String) : NodeProg Unit :=
  match splitAddr toCellAtNode with
  | none => Prog.raise (.valueError "not enough values to unpack")
  | some (cellId,_) => do
    match ← NodeProg.store (.getCell cellId) with
    | none => Prog.raise (.valueError "unknown cell: no enc_pubkey")
    | some cell => do
      let rnd ← NodeProg.sealRandom
      let encrypted ← Prog.ofExcept (encrypt L rnd plaintext cell.encPubkey)
      let payload ← Prog.ofExcept (encodePayload L (sealedPayload encrypted))
      let st ← NodeProg.stamp
      let fromAddr := match fromCellId with
        | some c => if c = "" then self.id else c ++ "@" ++ self.id
        | none => self.id
      Router.route self
        { type := .str T.msg, payload := .bin payload, id := .str st.id, ts := .int st.ts,
          fromAddr := .str fromAddr, toAddr := .str toCellAtNode }

def registerCellLocally (self : Node L) (cellId : String) (signingPubkey encPubkey : Bytes) :
    NodeProg Unit := do
  NodeProg.store (.registerCell cellId signingPubkey encPubkey true)
  NodeProg.store (.updatePresence cellId self.id none)

/-- The receive loop of a connection, with the dispatcher as its packet handler. -/
def recvRound (self : Node L) (conn : PeerConnection) (incoming : Bool) : NodeProg Unit :=
  Transport.recvRound L (dispatch self) conn incoming

end Node

section

variable {L : Lib} {self : Node L} {pkt : Packet}

theorem dispatch_gossip (conn : PeerConnection) (h : pkt.type = .str T.gossip) :
    Node.dispatch self pkt conn = GossipEngine.handleGossip L pkt := by
  simp [Node.dispatch,h,Val.eqStr,T.gossip,T.ping,T.pong]

theorem dispatch_msg (conn : PeerConnection) (h : pkt.type = .str T.msg) :
    Node.dispatch self pkt conn = Router.route self pkt := by
  simp [Node.dispatch,h,Val.eqStr,T.msg,T.ping,T.pong,T.gossip]

theorem dispatch_cellRegister (conn : PeerConnection) (h : pkt.type = .str T.cellRegister) :
    Node.dispatch self pkt conn = Node.handleCellRegister self pkt conn := by
  simp [Node.dispatch,h,Val.eqStr,T.cellRegister,T.msg,T.ping,T.pong,T.gossip,T.nodeRemove,
    T.nodeLeaving,T.presenceQuery,T.presenceResponse]

end

end Nevod
