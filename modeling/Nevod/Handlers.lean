import Nevod.Node

/-!
What the handler of one packet may ask for, whatever the packet holds: one
statement for each handler, and one for the dispatcher.
-/

set_option autoImplicit false

namespace Nevod
open Text Resume Keyed

variable {L : Lib}

/-- The row the parameters of `upsert_node` make. -/
structure Binds (L : Lib) (entry : NodeEntry) (row : NodeRow) : Prop where
  nodeId : SqlText.ofVal L.realText entry.nodeId = .ok (some row.nodeId)
  address : SqlText.ofVal L.realText entry.address = .ok (some row.address)
  type : SqlText.ofVal L.realText entry.type = .ok (some row.type)
  access : SqlText.ofVal L.realText entry.access = .ok (some row.access)
  cert : row.cert = entry.cert
  parentNode : row.parentNode = entry.parentNode
  lastSeen : row.lastSeen = entry.lastSeen
  missedPings : row.missedPings = entry.missedPings
  status : row.status = entry.status

theorem bindNode_ok {entry : NodeEntry} {added : Int} {row : NodeRow}
    (h : Storage.bindNode L entry added = .ok (some row)) : Binds L entry row := by
  obtain ⟨nodeId,hn,h⟩ := exists_of_bind h
  obtain ⟨address,ha,h⟩ := exists_of_bind h
  obtain ⟨type,ht,h⟩ := exists_of_bind h
  obtain ⟨access,hc,h⟩ := exists_of_bind h
  split at h
  · obtain ⟨k,rfl,rfl⟩ := Option.map_eq_some_iff.mp (Except.ok.inj h)
    exact ⟨hn,ha,ht,hc,rfl,rfl,rfl,rfl,rfl⟩
  · cases h

/-- Only a row without a key is left out. -/
theorem bindNode_none {entry : NodeEntry} {added : Int}
    (h : Storage.bindNode L entry added = .ok none) :
    SqlText.ofVal L.realText entry.nodeId = .ok none := by
  obtain ⟨nodeId,hn,h⟩ := exists_of_bind h
  obtain ⟨address,ha,h⟩ := exists_of_bind h
  obtain ⟨type,ht,h⟩ := exists_of_bind h
  obtain ⟨access,hc,h⟩ := exists_of_bind h
  split at h
  · rw [hn,Option.map_eq_none_iff.mp (Except.ok.inj h)]
  · cases h

/-- All that `upsert_node` asks for: the time, and the statement with its row. -/
def Puts (L : Lib) (entry : NodeEntry) (q : Req) : Prop :=
  q = .time ∨ ∃ row, Binds L entry row ∧ q = .store (.upsertNode row)

theorem putNode_puts {entry : NodeEntry} :
    Obeys (Puts L entry) (fun _ _ => True) (fun _ => True) (Storage.putNode L entry) := by
  have hadded : Obeys (Puts L entry) (fun _ _ => True) (fun _ => True)
      (Storage.addedAt entry) := by
    unfold Storage.addedAt
    split
    · exact ⟨.inl rfl,fun _ _ => trivial⟩
    · trivial
  refine hadded.bind (fun added _ => ?_)
  cases hb : Storage.bindNode L entry added with
  | error e => trivial
  | ok row =>
    cases row with
    | none => trivial
    | some row => exact ⟨.inr ⟨row,bindNode_ok hb,rfl⟩,fun _ _ => trivial⟩

/-- An entry of a GOSSIP packet and the row made from it. -/
def Offers (L : Lib) (n : Val) (row : NodeRow) : Prop :=
  ∃ nodeId address type access lastSeen addedAt,
    n.get "node_id" (.str "") = .ok nodeId ∧ n.get "address" (.str "") = .ok address ∧
    nodeId.truthy = true ∧ address.truthy = true ∧
    n.get "type" (.str "permanent") = .ok type ∧ n.get "access" (.str "closed") = .ok access ∧
    Binds L (learntEntry nodeId address type access lastSeen addedAt) row

/-- The packet lists the node of the row. -/
def Learns (L : Lib) (pkt : Packet) (row : NodeRow) : Prop :=
  ∃ nodes items n, GossipEngine.remoteNodes L pkt = .ok nodes ∧ nodes.iter = .ok items ∧
    n ∈ items ∧ Offers L n row

/-- The packet itself, or one that was waiting for the cell that registers. -/
def Routed (L : Lib) (waiting : BufferedMessage → Prop) (pkt p : Packet) : Prop :=
  (pkt.type = .str T.msg ∧ p = pkt) ∨
    (pkt.type = .str T.cellRegister ∧ ∃ m, waiting m ∧ deserializePacket L m.payload = some p)

/-- The claim of an accepted registration. -/
def Accepts (L : Lib) (pkt : Packet) (conn : PeerConnection) (c : Node.CellClaim) : Prop :=
  pkt.type = .str T.cellRegister ∧ Node.cellClaim L pkt = .ok c ∧
    c.signingPub = conn.peerSigningPubkey ∧ c.cellId = .str conn.peerNodeId

/-- The node that the packet removes. -/
def Removes (L : Lib) (pkt : Packet) (k : SqlText) : Prop :=
  (pkt.type = .str T.nodeRemove ∧ ∃ v,
    (decodePayload L pkt.payload).bind (fun data => data.item "node_id") = .ok v ∧
    SqlText.ofVal L.realText v = .ok (some k)) ∨
  (pkt.type = .str T.nodeLeaving ∧ SqlText.ofVal L.realText pkt.fromAddr = .ok (some k))

/-- The requests made while a packet is handled. -/
def Handles (self : Node L) (waiting : BufferedMessage → Prop) (pkt : Packet)
    (conn : PeerConnection) : Req → Prop
  | .store (.upsertNode row) => pkt.type = .str T.gossip ∧ Learns L pkt row
  | .store (.updateNodePing k success) =>
    pkt.type = .str T.pong ∧ success = true ∧
      SqlText.ofVal L.realText pkt.fromAddr = .ok (some k)
  | .store (.removeNode k) => Removes L pkt k
  | .store (.registerCell cellId signingPub encPub isHome) =>
    ∃ c, Accepts L pkt conn c ∧ cellId = conn.peerNodeId ∧ signingPub = c.signingPub ∧
      encPub = c.encPub ∧ isHome = c.isHome
  | .store (.updatePresence cellId home visiting) =>
    (∃ c, Accepts L pkt conn c) ∧ cellId = conn.peerNodeId ∧ home = self.id ∧ visiting = none
  | .store (.getBuffered cellId) => (∃ c, Accepts L pkt conn c) ∧ cellId = conn.peerNodeId
  | .store (.deleteBuffered k) => (∃ c, Accepts L pkt conn c) ∧ ∃ m, waiting m ∧ k = m.messageId
  | .store (.bufferMessage k cellId home payload) =>
    ∃ p, Routed L waiting pkt p ∧ Router.Buffers L p (.store (.bufferMessage k cellId home payload))
  | .store (.getNode _) | .store (.getPresence _) | .store (.getCell _) => True
  | .store .getAllNodes | .store .cleanupExpiredNodes | .store .cleanupExpiredMessages => False
  | .wsSend c frame =>
    (∃ p signed, Routed L waiting pkt p ∧ Transport.wireForm self p = .ok (signed,frame)) ∨
    (c = conn ∧ ∃ p signed, (p.type = .str T.pong ∨ p.type = .str T.presenceResponse) ∧
      Transport.wireForm self p = .ok (signed,frame))
  | .onMessage p => ∃ q, Routed L waiting pkt q ∧ Resigned q p
  | .connRemove nodeId => (∃ p, Routed L waiting pkt p) ∨
      (pkt.type = .str T.nodeLeaving ∧ pkt.fromAddr = .str nodeId)
  | .connGet _ | .connAdd _ | .dial _ _ => ∃ p, Routed L waiting pkt p
  | .startRecv _ incoming => incoming = false
  | .stamp | .time => True
  | .accept | .wsRecv _ | .endRecv _ | .sample _ _ | .sealRandom => False

/-- The rows of the mailbox that is flushed. -/
def ReadsWaiting (waiting : BufferedMessage → Prop) : (q : Req) → Ans q → Prop
  | .store (.getBuffered _),rows => ∀ m ∈ rows, waiting m
  | _,_ => True

section

variable {self : Node L} {waiting : BufferedMessage → Prop} {pkt : Packet}
  {conn : PeerConnection}

/-- Every request of the program is one that handling the packet may make. -/
abbrev Within (self : Node L) (waiting : BufferedMessage → Prop) (pkt : Packet)
    (conn : PeerConnection) {α : Type} (p : NodeProg α) : Prop :=
  Obeys (Handles self waiting pkt conn) (ReadsWaiting waiting) (fun _ => True) p

theorem within_sendVia {p : Packet} (hp : p.type = .str T.pong ∨ p.type = .str T.presenceResponse) :
    Within self waiting pkt conn (Transport.sendVia self conn p) := by
  unfold Transport.sendVia
  cases hw : Transport.wireForm self p with
  | error e => trivial
  | ok x =>
    refine ⟨.inr ⟨rfl,p,x.1,hp,hw⟩,fun a _ => ?_⟩
    cases a <;> trivial

theorem within_handlePing : Within self waiting pkt conn (GossipEngine.handlePing self pkt conn) := by
  refine ⟨trivial,fun st _ => ?_⟩
  simp only [Prog.bind_ret]
  cases hp : makePong L st (.str self.id) pkt.fromAddr pkt.id with
  | error e => trivial
  | ok pong =>
    have hty : pong.type = .str T.pong := by
      obtain ⟨_,_,hp⟩ := exists_of_bind hp
      cases hp
      rfl
    simp only [Prog.ofExcept_ok,Prog.bind_eq,Prog.bind_ret]
    exact (within_sendVia (.inl hty)).bind (fun _ _ => trivial)

theorem within_handlePong (hty : pkt.type = .str T.pong) :
    Within self waiting pkt conn (GossipEngine.handlePong L pkt) := by
  unfold GossipEngine.handlePong Storage.pingNode
  cases hk : SqlText.ofVal L.realText pkt.fromAddr with
  | error e => trivial
  | ok k =>
    cases k with
    | none => trivial
    | some k => exact ⟨⟨hty,rfl,hk⟩,fun _ _ => trivial⟩

theorem within_putNode {entry : NodeEntry} (hty : pkt.type = .str T.gossip)
    (hrow : ∀ row, Binds L entry row → Learns L pkt row) :
    Within self waiting pkt conn (Storage.putNode L entry) := by
  refine (putNode_puts.mono_guard (fun q hq => ?_)).mono_rely (fun _ _ _ => trivial)
  rcases hq with rfl | ⟨row,hb,rfl⟩
  · trivial
  · exact ⟨hty,hrow row hb⟩

theorem within_mergeNode {nodes n : Val} {items : List Val} (hty : pkt.type = .str T.gossip)
    (hnodes : GossipEngine.remoteNodes L pkt = .ok nodes) (hitems : nodes.iter = .ok items)
    (hn : n ∈ items) : Within self waiting pkt conn (GossipEngine.mergeNode L n) := by
  unfold GossipEngine.mergeNode
  cases hid : n.get "node_id" (.str "") with
  | error e => trivial
  | ok nodeId =>
    cases haddr : n.get "address" (.str "") with
    | error e => trivial
    | ok address =>
      simp only [Prog.ofExcept_ok,Prog.bind_eq,Prog.bind_ret]
      split
      · trivial
      · rename_i htruthy
        simp only [Bool.or_eq_true,Bool.not_eq_true',not_or,Bool.not_eq_false] at htruthy
        have hget : Within self waiting pkt conn (Storage.getNode L nodeId) := by
          unfold Storage.getNode
          refine (obeys_ofExcept _).bind (fun k _ => ?_)
          cases k with
          | none => trivial
          | some k => exact ⟨trivial,fun _ _ => trivial⟩
        refine hget.bind (fun existing _ => ?_)
        cases existing with
        | some row => trivial
        | none =>
          unfold GossipEngine.learnNode
          cases ht : n.get "type" (.str "permanent") with
          | error e => trivial
          | ok type =>
            cases hac : n.get "access" (.str "closed") with
            | error e => trivial
            | ok access =>
              refine ⟨trivial,fun lastSeen _ => ⟨trivial,fun addedAt _ => ?_⟩⟩
              refine (within_putNode hty (fun row hrow => ?_)).bind
                (fun _ _ => obeys_ofExcept _)
              exact ⟨nodes,items,n,hnodes,hitems,hn,nodeId,address,type,access,lastSeen,addedAt,
                hid,haddr,htruthy.1,htruthy.2,ht,hac,hrow⟩

theorem within_handleGossip (hty : pkt.type = .str T.gossip) :
    Within self waiting pkt conn (GossipEngine.handleGossip L pkt) := by
  unfold GossipEngine.handleGossip
  cases hnodes : GossipEngine.remoteNodes L pkt with
  | error e => trivial
  | ok nodes =>
    cases hitems : nodes.iter with
    | error e => simp only [hitems]; trivial
    | ok items =>
      simp only [hitems,Prog.ofExcept_ok,Prog.bind_eq,Prog.bind_ret]
      exact Obeys.forEach (fun n hn => within_mergeNode hty hnodes hitems hn)

theorem within_route {p : Packet} (hp : Routed L waiting pkt p) :
    Within self waiting pkt conn (Router.route self p) := by
  refine ((Router.route_allowed p).mono_guard (fun q hq => ?_)).mono_rely (fun _ _ _ => trivial)
  rcases hq with hq | hq
  · cases q with
    | store op => cases op <;> trivial
    | wsSend c frame =>
      obtain ⟨signed,hw⟩ := hq
      exact .inl ⟨p,signed,hp,hw⟩
    | onMessage p' => exact ⟨p,hp,hq⟩
    | connRemove nodeId => exact .inl ⟨p,hp⟩
    | connGet nodeId => exact ⟨p,hp⟩
    | connAdd c => exact ⟨p,hp⟩
    | dial expected address => exact ⟨p,hp⟩
    | startRecv c incoming => exact hq
    | _ => exact hq.elim
  · cases q with
    | store op =>
      cases op with
      | bufferMessage k cellId home payload => exact ⟨p,hp,hq⟩
      | _ => exact hq.elim
    | _ => exact hq.elim

theorem within_dropNode {v : Val}
    (hv : ∀ k, SqlText.ofVal L.realText v = .ok (some k) → Removes L pkt k) :
    Within self waiting pkt conn (Storage.dropNode L v) := by
  unfold Storage.dropNode
  cases hk : SqlText.ofVal L.realText v with
  | error e => trivial
  | ok k =>
    cases k with
    | none => trivial
    | some k => exact ⟨hv k hk,fun _ _ => trivial⟩

theorem within_handleNodeRemove (hty : pkt.type = .str T.nodeRemove) :
    Within self waiting pkt conn (Node.handleNodeRemove L pkt) := by
  unfold Node.handleNodeRemove
  cases hv : (decodePayload L pkt.payload).bind (fun data => data.item "node_id") with
  | error e => trivial
  | ok v =>
    exact (within_dropNode (fun k hk => .inl ⟨hty,v,hv,hk⟩)).bind (fun _ _ => obeys_ofExcept _)

theorem within_handleNodeLeaving (hty : pkt.type = .str T.nodeLeaving) :
    Within self waiting pkt conn (Node.handleNodeLeaving L pkt) := by
  refine (within_dropNode (fun k hk => .inr ⟨hty,hk⟩)).bind (fun _ _ => ?_)
  have hremove : Within self waiting pkt conn (Node.removeConnection pkt.fromAddr) := by
    unfold Node.removeConnection
    split
    · rename_i nodeId hf
      exact ⟨.inr ⟨hty,hf⟩,fun _ _ => trivial⟩
    all_goals trivial
  exact hremove.bind (fun _ _ => obeys_ofExcept _)

theorem within_handlePresenceQuery :
    Within self waiting pkt conn (Node.handlePresenceQuery self pkt conn) := by
  have hof : ∀ v : Val, Within self waiting pkt conn (Node.presenceOf L v) := by
    intro v
    refine (obeys_ofExcept _).bind (fun k _ => ?_)
    cases k with
    | none => trivial
    | some k =>
      cases k with
      | blob b => trivial
      | text c => exact ⟨trivial,fun _ _ => trivial⟩
  unfold Node.handlePresenceQuery
  split
  · trivial
  · refine (hof _).bind (fun _ _ => (obeys_ofExcept _).bind (fun _ _ => ⟨trivial,fun _ _ => ?_⟩))
    exact (within_sendVia (.inr rfl)).bind (fun _ _ => trivial)

theorem within_flushBuffer {c : Node.CellClaim} (hc : Accepts L pkt conn c) :
    Within self waiting pkt conn (Router.flushBuffer self conn.peerNodeId) := by
  refine ⟨⟨⟨c,hc⟩,rfl⟩,fun rows hrows => Obeys.forEach (fun m hm => ?_)⟩
  have hwait : waiting m := hrows m hm
  unfold Router.flushMessage
  cases hd : deserializePacket L m.payload with
  | none => trivial
  | some p =>
    exact (within_route (.inr ⟨hc.1,m,hwait,hd⟩)).bind
      (fun _ _ => ⟨⟨⟨c,hc⟩,m,hwait,rfl⟩,fun _ _ => trivial⟩)

theorem within_handleCellRegister (hty : pkt.type = .str T.cellRegister) :
    Within self waiting pkt conn (Node.handleCellRegister self pkt conn) := by
  unfold Node.handleCellRegister
  cases hc : Node.cellClaim L pkt with
  | error e => trivial
  | ok c =>
    simp only []
    split
    · trivial
    · rename_i hkey
      split
      · trivial
      · rename_i hid
        have hacc : Accepts L pkt conn c :=
          ⟨hty,hc,not_not.mp hkey,Val.eqStr_iff.mp (by simpa using hid)⟩
        exact ⟨⟨c,hacc,rfl,rfl,rfl,rfl⟩,fun _ _ => ⟨⟨⟨c,hacc⟩,rfl,rfl,rfl⟩,
          fun _ _ => within_flushBuffer hacc⟩⟩

theorem within_dispatch : Within self waiting pkt conn (Node.dispatch self pkt conn) := by
  unfold Node.dispatch
  split
  · exact within_handlePing
  split
  · rename_i h
    exact within_handlePong (Val.eqStr_iff.mp h)
  split
  · rename_i h
    exact within_handleGossip (Val.eqStr_iff.mp h)
  split
  · rename_i h
    exact within_route (.inl ⟨Val.eqStr_iff.mp h,rfl⟩)
  split
  · rename_i h
    exact within_handleNodeRemove (Val.eqStr_iff.mp h)
  split
  · rename_i h
    exact within_handleNodeLeaving (Val.eqStr_iff.mp h)
  split
  · exact within_handlePresenceQuery
  split
  · trivial
  split
  · rename_i h
    exact within_handleCellRegister (Val.eqStr_iff.mp h)
  · exact obeys_ofExcept _

end

end Nevod
