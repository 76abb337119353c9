import Nevod.Handshake
import Nevod.Storage

/-!
`node/transport.py` after the handshake: the connection registry, sending and
dialling. A node's code is a program over the requests it awaits; the packet an
operation signs is passed on, as the source signs it in place.
-/

set_option autoImplicit false

namespace Nevod
open Text Resume

structure ConnectionRegistry where
  conns : String → Option PeerConnection

namespace ConnectionRegistry

def empty : ConnectionRegistry := ⟨fun _ => none⟩

def add (self : ConnectionRegistry) (conn : PeerConnection) : ConnectionRegistry :=
  ⟨Function.update self.conns conn.peerNodeId (some conn)⟩

def remove (self : ConnectionRegistry) (nodeId : String) : ConnectionRegistry :=
  ⟨Function.update self.conns nodeId none⟩

def get (self : ConnectionRegistry) (nodeId : String) : Option PeerConnection :=
  self.conns nodeId

@[simp] theorem get_empty (nodeId : String) : empty.get nodeId = none := rfl

theorem get_add (self : ConnectionRegistry) (conn : PeerConnection) (nodeId : String) :
    (self.add conn).get nodeId =
      if nodeId = conn.peerNodeId then some conn else self.get nodeId := by
  simp [add,get,Function.update_apply]

theorem get_remove (self : ConnectionRegistry) (k nodeId : String) :
    (self.remove k).get nodeId = if nodeId = k then none else self.get nodeId := by
  simp [remove,get,Function.update_apply]

end ConnectionRegistry

/-- What the code of a node awaits, or draws from outside. `dial` is
`websockets.connect` followed by the handshake and `accept` the handshake on an
incoming socket. The receive loop of a connection runs from `startRecv` to
`endRecv`, in a task of its own or inside `_handle_incoming`. -/
inductive Req where
  | store (op : StoreOp)
  | connGet (nodeId : String)
  | connAdd (conn : PeerConnection)
  | connRemove (nodeId : String)
  | wsSend (conn : PeerConnection) (frame : Bytes)
  | wsRecv (conn : PeerConnection)
  | dial (expectedNodeId : Option String) (address : String)
  | accept
  | startRecv (conn : PeerConnection) (incoming : Bool)
  | endRecv (conn : PeerConnection)
  | onMessage (pkt : Packet)
  | stamp
  | time
  | sample (population k : Nat)
  | sealRandom

abbrev Ans : Req → Type
  | .store op => op.Result
  | .connGet _ => Option PeerConnection
  | .connAdd _ => Unit
  | .connRemove _ => Unit
  | .wsSend _ _ => Except Err Unit
  | .wsRecv _ => Option Bytes
  | .dial _ _ => Except Err PeerConnection
  | .accept => Except Err PeerConnection
  | .startRecv _ _ => Unit
  | .endRecv _ => Unit
  | .onMessage _ => Except Err Unit
  | .stamp => Stamp
  | .time => Int
  | .sample _ _ => List Nat
  | .sealRandom => SealRandom

abbrev NodeProg := Prog Req Ans Err

namespace NodeProg

abbrev store (op : StoreOp) : NodeProg op.Result := .ask (.store op) .ret

abbrev connGet (nodeId : String) : NodeProg (Option PeerConnection) :=
  .ask (.connGet nodeId) .ret

abbrev connAdd (conn : PeerConnection) : NodeProg Unit := .ask (.connAdd conn) .ret

abbrev connRemove (nodeId : String) : NodeProg Unit := .ask (.connRemove nodeId) .ret

abbrev startRecv (conn : PeerConnection) (incoming : Bool) : NodeProg Unit :=
  .ask (.startRecv conn incoming) .ret

abbrev endRecv (conn : PeerConnection) : NodeProg Unit := .ask (.endRecv conn) .ret

abbrev stamp : NodeProg Stamp := .ask .stamp .ret

abbrev time : NodeProg Int := .ask .time .ret

abbrev sample (population k : Nat) : NodeProg (List Nat) := .ask (.sample population k) .ret

abbrev sealRandom : NodeProg SealRandom := .ask .sealRandom .ret

abbrev wsSend (conn : PeerConnection) (frame : Bytes) : NodeProg Unit :=
  .ask (.wsSend conn frame) (fun a => .ofExcept a)

abbrev dial (expectedNodeId : Option String) (address : String) : NodeProg PeerConnection :=
  .ask (.dial expectedNodeId address) (fun a => .ofExcept a)

abbrev onMessage (pkt : Packet) : NodeProg Unit :=
  .ask (.onMessage pkt) (fun a => .ofExcept a)

end NodeProg

/-- A node: its keys, and whether an `on_message` callback is set. -/
structure Node (L : Lib) where
  identity : Identity L
  onMessage : Bool

variable {L : Lib}

def Node.id (self : Node L) : String := self.identity.id

/-- What `storage.py` and the registry hold. -/
structure NodeState where
  storage : Storage
  connections : ConnectionRegistry

namespace Transport

def connectToNode (L : Lib) (nodeId : String) (address : Val) : NodeProg PeerConnection := do
  let conn ← NodeProg.dial (some nodeId) (address.pyStr L.repr)
  NodeProg.connAdd conn
  NodeProg.startRecv conn false
  pure conn

/-- An address without a colon is refused before anything is opened. -/
def connect (address : String) : NodeProg PeerConnection := do
  if !address.toList.contains ':' then
    Prog.raise (.valueError ("invalid address: " ++ address))
  else
    let conn ← NodeProg.dial none address
    NodeProg.connAdd conn
    NodeProg.startRecv conn false
    pure conn

def sign (self : Node L) (pkt : Packet) : Except Err Packet :=
  signPacket L pkt self.identity.signing

/-- The packet as it is put on the wire: signed by this node and packed. -/
def wireForm (self : Node L) (pkt : Packet) : Except Err (Packet × Bytes) := do
  let signed ← sign self pkt
  let frame ← pack L signed
  pure (signed,frame)

def sendVia (self : Node L) (conn : PeerConnection) (pkt : Packet) : NodeProg Packet := do
  let (signed,frame) ← Prog.ofExcept (Transport.wireForm self pkt)
  NodeProg.wsSend conn frame
  pure signed

/-- Only `ConnectionClosed` is caught: the entry under `nodeId` is removed,
whatever it is by then. -/
def sendTo (self : Node L) (nodeId : String) (pkt : Packet) : NodeProg (Bool × Packet) := do
  match ← NodeProg.connGet nodeId with
  | none => pure (false,pkt)
  | some conn =>
    let (signed,frame) ← Prog.ofExcept (Transport.wireForm self pkt)
    .ask (.wsSend conn frame) (fun sent =>
      match sent with
      | .ok _ => pure (true,signed)
      | .error .connectionClosed => do
        NodeProg.connRemove nodeId
        pure (false,signed)
      | .error e => .raise e)

/-- `_handle_incoming` up to its receive loop. -/
def handleIncoming : NodeProg Unit :=
  .ask .accept (fun accepted =>
    match accepted with
    | .error _ => pure ()
    | .ok conn => do
      NodeProg.connAdd conn
      NodeProg.startRecv conn true)

/-- The `finally` blocks: an incoming connection is removed twice. -/
def finishRecv (conn : PeerConnection) (incoming : Bool) : NodeProg Unit := do
  NodeProg.endRecv conn
  NodeProg.connRemove conn.peerNodeId
  if incoming then NodeProg.connRemove conn.peerNodeId else pure ()

/-- One frame in `_recv_loop`. Only what the packet handler raises is caught. -/
def handleFrame (L : Lib) (onPacket : Packet → PeerConnection → NodeProg Unit)
    (conn : PeerConnection) (raw : Bytes) : NodeProg Unit := do
  let pkt ← Prog.ofExcept (unpack L raw)
  let valid ← Prog.ofExcept (verifyPacket L pkt conn.peerSigningPubkey)
  if valid then (onPacket pkt conn).rescue (fun _ => pure ())
  else pure ()

/-- One round of `_recv_loop`; it is over when the socket is closed, or when
reading or checking a frame raises. -/
def recvRound (L : Lib) (onPacket : Packet → PeerConnection → NodeProg Unit)
    (conn : PeerConnection) (incoming : Bool) : NodeProg Unit :=
  .ask (.wsRecv conn) (fun frame =>
    match frame with
    | none => finishRecv conn incoming
    | some raw => (handleFrame L onPacket conn raw).rescue (fun _ => finishRecv conn incoming))

end Transport

def SealRandom.zero : SealRandom :=
  ⟨⟨List.replicate 32 0,by simp⟩,List.replicate 12 0,by simp⟩

/-- How the world outside answers, and what the clock shows, at each request. -/
structure Env where
  now : Nat → Int
  stamp : Nat → Stamp
  wsSend : Nat → PeerConnection → Bytes → Except Err Unit
  dial : Nat → Option String → String → Except Err PeerConnection
  onMessage : Nat → Packet → Except Err Unit
  wsRecv : Nat → PeerConnection → Option Bytes := fun _ _ => none
  accept : Nat → Except Err PeerConnection := fun _ => .error .connectionClosed
  sample : Nat → Nat → Nat → List Nat := fun _ _ k => List.range k
  sealRandom : Nat → SealRandom := fun _ => .zero

/-- A node's state, and how many requests it has made. -/
structure World where
  state : NodeState
  step : Nat

def World.next (w : World) (state : NodeState) : World := ⟨state,w.step+1⟩

/-- One task of the node running alone. -/
def Env.handler (env : Env) : Handler Req Ans World
  | .store op, w =>
    let r := w.state.storage.exec (env.now w.step) op
    (r.1,w.next { w.state with storage := r.2 })
  | .connGet nodeId, w => (w.state.connections.get nodeId,w.next w.state)
  | .connAdd conn, w =>
    ((),w.next { w.state with connections := w.state.connections.add conn })
  | .connRemove nodeId, w =>
    ((),w.next { w.state with connections := w.state.connections.remove nodeId })
  | .wsSend conn frame, w => (env.wsSend w.step conn frame,w.next w.state)
  | .dial expected address, w => (env.dial w.step expected address,w.next w.state)
  | .wsRecv conn, w => (env.wsRecv w.step conn,w.next w.state)
  | .accept, w => (env.accept w.step,w.next w.state)
  | .startRecv _ _, w => ((),w.next w.state)
  | .endRecv _, w => ((),w.next w.state)
  | .onMessage pkt, w => (env.onMessage w.step pkt,w.next w.state)
  | .stamp, w => (env.stamp w.step,w.next w.state)
  | .time, w => (env.now w.step,w.next w.state)
  | .sample population k, w => (env.sample w.step population k,w.next w.state)
  | .sealRandom, w => (env.sealRandom w.step,w.next w.state)

def sampleNode (onMessage : Bool) : Node shortSigLib := ⟨sampleIdentity shortSigLib 1,onMessage⟩

end Nevod
