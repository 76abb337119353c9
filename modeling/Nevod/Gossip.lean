import Nevod.Router

/-! `node/gossip.py`: synchronization of the node tables. -/

set_option autoImplicit false

namespace Nevod
open Text Resume

variable {L : Lib}

def gossipFanout : Nat := 3

namespace Storage

/-- The parameters of the statement in `upsert_node`. Every column but the key is
`NOT NULL`; a NULL key makes a row no lookup finds, which is left out. -/
def bindNode (L : Lib) (entry : NodeEntry) (added : Int) : Except Err (Option NodeRow) := do
  let nodeId ← SqlText.ofVal L.realText entry.nodeId
  let address ← SqlText.ofVal L.realText entry.address
  let type ← SqlText.ofVal L.realText entry.type
  let access ← SqlText.ofVal L.realText entry.access
  match address,type,access with
  | some address,some type,some access =>
    pure (nodeId.map (fun nodeId => ⟨nodeId,address,type,access,entry.cert,entry.parentNode,
      entry.lastSeen,entry.missedPings,entry.status,added⟩))
  | _,_,_ => throw .sqlError

def addedAt (entry : NodeEntry) : NodeProg Int :=
  if entry.addedAt = 0 then NodeProg.time else pure entry.addedAt

/-- `upsert_node`. -/
def putNode (L : Lib) (entry : NodeEntry) : NodeProg Unit := do
  let added ← addedAt entry
  match ← Prog.ofExcept (bindNode L entry added) with
  | none => pure ()
  | some row => NodeProg.store (.upsertNode row)

/-- No row has the key NULL. -/
def pingNode (L : Lib) (nodeId : Val) (success : Bool) : NodeProg Unit := do
  match ← Prog.ofExcept (SqlText.ofVal L.realText nodeId) with
  | none => pure ()
  | some k => NodeProg.store (.updateNodePing k success)

def dropNode (L : Lib) (nodeId : Val) : NodeProg Unit := do
  match ← Prog.ofExcept (SqlText.ofVal L.realText nodeId) with
  | none => pure ()
  | some k => NodeProg.store (.removeNode k)

end Storage

def NodeRow.toDict (r : NodeRow) : Val :=
  .map [(.str "node_id",r.nodeId.toVal),(.str "address",r.address.toVal),
    (.str "type",r.type.toVal),(.str "access",r.access.toVal),(.str "cert",.str (hex r.cert)),
    (.str "parent_node",.str r.parentNode),(.str "last_seen",.int r.lastSeen),
    (.str "status",.str r.status)]

section

variable (r : NodeRow) (d : Val)

@[simp] theorem NodeRow.toDict_nodeId : r.toDict.get "node_id" d = .ok r.nodeId.toVal := by
  simp [toDict,Val.get,Val.lookup]

@[simp] theorem NodeRow.toDict_address : r.toDict.get "address" d = .ok r.address.toVal := by
  simp [toDict,Val.get,Val.lookup]

@[simp] theorem NodeRow.toDict_type : r.toDict.get "type" d = .ok r.type.toVal := by
  simp [toDict,Val.get,Val.lookup]

@[simp] theorem NodeRow.toDict_access : r.toDict.get "access" d = .ok r.access.toVal := by
  simp [toDict,Val.get,Val.lookup]

end

/-- What `handle_gossip` enters for a node it did not know. -/
abbrev learntEntry (nodeId address type access : Val) (lastSeen addedAt : Int) : NodeEntry :=
  { nodeId, address, type, access, lastSeen, status := "online", addedAt }

namespace GossipEngine

/-- A packet sent over a connection: no exception is left unhandled, and only
success counts. -/
def trySend (self : Node L) (conn : PeerConnection) (pkt : Packet) : NodeProg Bool :=
  Prog.rescue (do
    let _ ← Transport.sendVia self conn pkt
    pure true) (fun _ => pure false)

/-- `_ping_node`. A peer is never authenticated under an id that is no text. -/
def pingNode (self : Node L) (entry : NodeRow) : NodeProg Unit := do
  let conn ← match entry.nodeId with
    | .blob _ => pure none
    | .text nodeId => do
      match ← NodeProg.connGet nodeId with
      | some conn => pure (some conn)
      | none =>
        Prog.rescue (do
          let conn ← Transport.connectToNode L nodeId entry.address.toVal
          pure (some conn)) (fun _ => pure none)
  match conn with
  | none => NodeProg.store (.updateNodePing entry.nodeId false)
  | some conn =>
    let st ← NodeProg.stamp
    let sent ← trySend self conn (makePing st (.str self.id) entry.nodeId.toVal)
    NodeProg.store (.updateNodePing entry.nodeId sent)

def exchange (self : Node L) (peer : NodeRow) : NodeProg Unit := do
  let conn ← match peer.nodeId with
    | .blob _ => pure none
    | .text nodeId => NodeProg.connGet nodeId
  match conn with
  | none => pure ()
  | some conn => do
    let allNodes ← NodeProg.store .getAllNodes
    let st ← NodeProg.stamp
    let pkt ← Prog.ofExcept
      (makeGossip L st (.str self.id) (allNodes.map NodeRow.toDict))
    let _ ← trySend self conn pkt
    pure ()

def round (self : Node L) : NodeProg Unit := do
  let nodes ← NodeProg.store .getAllNodes
  Prog.forEach (nodes.filter (fun r => r.nodeId ≠ .text self.id)) (pingNode self)
  NodeProg.store .cleanupExpiredNodes
  NodeProg.store .cleanupExpiredMessages
  let online := nodes.filter (fun r => r.status = "online" ∧ r.nodeId ≠ .text self.id)
  let peers ← NodeProg.sample online.length (min gossipFanout online.length)
  Prog.forEach (peers.filterMap (fun i => online[i]?)) (exchange self)

/-- One turn of `_loop`. -/
def turn (self : Node L) : NodeProg Unit := (round self).rescue (fun _ => pure ())

/-- What `handle_gossip` reads from the packet; on an exception it returns. -/
def remoteNodes (L : Lib) (pkt : Packet) : Except Err Val := do
  let data ← decodePayload L pkt.payload
  data.get "nodes" (.arr [])

/-- A node this one did not know is entered as online. -/
def learnNode (L : Lib) (n nodeId address : Val) : NodeProg Unit := do
  let type ← Prog.ofExcept (n.get "type" (.str "permanent"))
  let access ← Prog.ofExcept (n.get "access" (.str "closed"))
  let lastSeen ← NodeProg.time
  let addedAt ← NodeProg.time
  Storage.putNode L { nodeId, address, type, access, lastSeen, status := "online", addedAt }
  Prog.ofExcept nodeId.slice

/-- One round of the loop in `handle_gossip`. -/
def mergeNode (L : Lib) (n : Val) : NodeProg Unit := do
  let nodeId ← Prog.ofExcept (n.get "node_id" (.str ""))
  let address ← Prog.ofExcept (n.get "address" (.str ""))
  if !nodeId.truthy || !address.truthy then pure ()
  else
    match ← Storage.getNode L nodeId with
    | some _ => pure ()
    | none => learnNode L n nodeId address

def handleGossip (L : Lib) (pkt : Packet) : NodeProg Unit :=
  match remoteNodes L pkt with
  | .error _ => pure ()
  | .ok nodes => do
    let items ← Prog.ofExcept nodes.iter
    Prog.forEach items (mergeNode L)

def handlePing (self : Node L) (pkt : Packet) (conn : PeerConnection) : NodeProg Unit := do
  let st ← NodeProg.stamp
  let pong ← Prog.ofExcept (makePong L st (.str self.id) pkt.fromAddr pkt.id)
  let _ ← Transport.sendVia self conn pong
  pure ()

/-- The node that is marked alive is the one the packet names. -/
def handlePong (L : Lib) (pkt : Packet) : NodeProg Unit :=
  Storage.pingNode L pkt.fromAddr true

end GossipEngine

end Nevod
