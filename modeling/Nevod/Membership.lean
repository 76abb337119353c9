import Nevod.Flush
import Nevod.Handlers

/-!
What the packets of one peer can do to the node table and to the connection
registry of a node.
-/

set_option autoImplicit false

namespace Nevod
open Text Resume Keyed

variable {L : Lib}

/-- The entries of the registry that are removed while `tr` happens. -/
def ConnectionRegistry.removals : ConnectionRegistry → List (Exchange Req Ans) → List String
  | _,[] => []
  | conns,⟨.connAdd conn,_⟩ :: tr => removals (conns.add conn) tr
  | conns,⟨.connRemove nodeId,_⟩ :: tr =>
    (if (conns.get nodeId).isSome then [nodeId] else []) ++ removals (conns.remove nodeId) tr
  | conns,_ :: tr => removals conns tr

/-- The entries a program removes when it is executed alone. -/
def Env.severs (env : Env) {α : Type} (p : NodeProg α) (w : World) : List String :=
  w.state.connections.removals (run env.handler p w).trace

section Severing

variable {env : Env} {α β : Type}

@[simp] theorem severs_ret (a : α) (w : World) : env.severs (.ret a : NodeProg α) w = [] := rfl

@[simp] theorem severs_raise (e : Err) (w : World) :
    env.severs (.raise e : NodeProg α) w = [] := rfl

/-- What one request removes. -/
def World.cut (w : World) : Req → List String
  | .connRemove nodeId => if (w.state.connections.get nodeId).isSome then [nodeId] else []
  | _ => []

theorem severs_ask (q : Req) (k : Ans q → NodeProg α) (w : World) :
    env.severs (.ask q k) w =
      w.cut q ++ env.severs (k (env.handler q w).1) (env.handler q w).2 := by
  cases q <;> rfl

theorem severs_bind (p : NodeProg α) (f : α → NodeProg β) (w : World) :
    env.severs (p.bind f) w = env.severs p w ++
      match (run env.handler p w).result with
      | .ok a => env.severs (f a) (run env.handler p w).final
      | .error _ => [] := by
  induction p generalizing w with
  | ret a => simp
  | raise e => simp
  | ask q k ih => simp only [Prog.bind_ask,severs_ask,ih,run_ask,List.append_assoc]

/-- Requests that leave the registry's entries in place. -/
def KeepsEntries : Req → Prop
  | .connRemove _ => False
  | _ => True

theorem severs_of_obeys {p : NodeProg α}
    (hp : Obeys KeepsEntries (fun _ _ => True) (fun _ => True) p) (w : World) :
    env.severs p w = [] := by
  induction p generalizing w with
  | ret a => rfl
  | raise e => rfl
  | ask q k ih =>
    rw [severs_ask,ih _ (hp.2 _ trivial)]
    cases q <;> first | rfl | exact hp.1.elim

end Severing

namespace Env

/-- The entry of `nodeId` goes when the socket behind it turns out to be closed. -/
def severedBySend (env : Env) (self : Node L) (w : World) (nodeId : String) (pkt : Packet) :
    List String :=
  match w.state.connections.get nodeId with
  | none => []
  | some conn =>
    match Transport.wireForm self pkt with
    | .error _ => []
    | .ok (_,frame) =>
      match env.wsSend (w.step+1) conn frame with
      | .error .connectionClosed => [nodeId]
      | _ => []

def severedLocal (env : Env) (self : Node L) (w : World) (pkt : Packet) : List String :=
  match parseAddr pkt.toAddr with
  | .ok (some cellId,_) => if cellId = "" then [] else env.severedBySend self w cellId pkt
  | _ => []

def severedAt (env : Env) (self : Node L) (w : World) (nodeId : String) (pkt : Packet) :
    List String :=
  if nodeId = self.id then env.severedLocal self w pkt else env.severedBySend self w nodeId pkt

def presenceSevered (env : Env) (self : Node L) (w : World) (presence : PresenceEntry)
    (pkt : Packet) : List String :=
  match Router.visiting presence with
  | none => env.severedAt self w presence.homeNodeId pkt
  | some nodeId =>
    env.severedAt self w nodeId pkt ++
      if nodeId = self.id then []
      else match env.afterRemote self w nodeId pkt with
        | none => []
        | some (w1,pkt1) => env.severedAt self w1 presence.homeNodeId pkt1

/-- The entries whose sockets routing the packet finds closed. -/
def severed (env : Env) (self : Node L) (w : World) (pkt : Packet) : List String :=
  match parseAddr pkt.toAddr with
  | .error _ => []
  | .ok (none,nodeId) => env.severedAt self w nodeId pkt
  | .ok (some cellId,_) =>
    match w.state.storage.presenceTable.find cellId with
    | some presence => env.presenceSevered self ⟨w.state,w.step+1⟩ presence pkt
    | none =>
      if (w.state.storage.cells.find cellId).isSome then
        env.severedLocal self ⟨w.state,w.step+2⟩ pkt
      else []

theorem severs_sendTo (env : Env) (self : Node L) (w : World) (nodeId : String) (pkt : Packet) :
    env.severs (Transport.sendTo self nodeId pkt) w = env.severedBySend self w nodeId pkt := by
  unfold Transport.sendTo severedBySend
  rw [Prog.bind_eq,Prog.bind_ask,severs_ask]
  cases hg : w.state.connections.get nodeId with
  | none => simp [handler,hg,World.cut]
  | some conn =>
    cases hw : Transport.wireForm self pkt with
    | error e => simp [handler,hg,World.cut]
    | ok x =>
      obtain ⟨signed,frame⟩ := x
      simp only [handler,hg,World.next,World.cut,Prog.bind_ret,Prog.ofExcept_ok,Prog.bind_eq,
        List.nil_append,severs_ask]
      cases hs : env.wsSend (w.step+1) conn frame with
      | ok u => simp
      | error e =>
        cases e with
        | connectionClosed => simp [severs_ask,World.cut,hg]
        | _ => simp

theorem severs_callback (env : Env) (self : Node L) (w : World) (r : Bool × Packet) :
    env.severs (Router.callback self r) w = [] := by
  refine severs_of_obeys ?_ w
  unfold Router.callback
  split
  · trivial
  · split
    · refine ⟨trivial,fun a _ => ?_⟩
      cases a <;> trivial
    · trivial

theorem severs_deliverLocal (env : Env) (self : Node L) (w : World) (pkt : Packet) :
    env.severs (Router.deliverLocal self pkt) w = env.severedLocal self w pkt := by
  rw [Router.deliverLocal_eq]
  unfold severedLocal
  cases ha : parseAddr pkt.toAddr with
  | error e => rfl
  | ok x =>
    obtain ⟨cellId,n⟩ := x
    cases cellId with
    | none => exact severs_callback env self w (false,pkt)
    | some cellId =>
      by_cases hc : cellId = ""
      · simp only [if_pos hc]
        exact severs_callback env self w (false,pkt)
      · simp only [if_neg hc]
        rw [severs_bind,severs_sendTo]
        cases (run env.handler (Transport.sendTo self cellId pkt) w).result with
        | error e => simp
        | ok r => simpa using severs_callback env self _ r

theorem keepsEntries_dialAndSend (self : Node L) (nodeId : String) (address : Val)
    (pkt : Packet) :
    Obeys KeepsEntries (fun _ _ => True) (fun _ => True)
      (Router.dialAndSend self nodeId address pkt) := by
  refine ((Router.dialAndSend_dials pkt nodeId address (.refl pkt)).mono_guard
    (fun q hq => ?_)).mono (fun _ _ => trivial)
  cases q <;> trivial

theorem severs_sendToNode (env : Env) (self : Node L) (w : World) (nodeId : String)
    (pkt : Packet) :
    env.severs (Router.sendToNode self nodeId pkt) w = env.severedAt self w nodeId pkt := by
  unfold Router.sendToNode severedAt
  by_cases hid : nodeId = self.id
  · rw [if_pos hid,if_pos hid,Prog.bind_eq,severs_bind,severs_deliverLocal]
    cases (run env.handler (Router.deliverLocal self pkt) w).result <;> simp
  · rw [if_neg hid,if_neg hid,Prog.bind_eq,severs_bind,severs_sendTo]
    cases (run env.handler (Transport.sendTo self nodeId pkt) w).result with
    | error e => simp
    | ok r =>
      obtain ⟨sent,p1⟩ := r
      cases sent with
      | true => simp
      | false =>
        simp only [if_neg Bool.false_ne_true]
        refine (List.append_right_eq_self).mpr (severs_of_obeys ?_ _)
        refine ⟨trivial,fun entry _ => ?_⟩
        cases entry with
        | none => trivial
        | some entry =>
          simp only [Prog.bind_ret]
          split
          · trivial
          · exact keepsEntries_dialAndSend self nodeId _ p1

theorem severs_bufferFor (env : Env) (w : World) (cellId home : String) (pkt : Packet) :
    env.severs (Router.bufferFor L cellId home pkt) w = [] := by
  refine severs_of_obeys ?_ w
  rcases Router.bufferFor_cases L cellId home pkt with ⟨e,hb⟩ | ⟨k,payload,_,_,hb⟩
  · rw [hb]
    trivial
  · rw [hb]
    exact ⟨trivial,fun _ _ => trivial⟩

theorem severs_tryHome (env : Env) (self : Node L) (w : World) (cellId home : String)
    (pkt : Packet) :
    env.severs (Router.tryHome self cellId home pkt) w = env.severedAt self w home pkt := by
  unfold Router.tryHome
  rw [severs_bind,severs_sendToNode]
  cases (run env.handler (Router.sendToNode self home pkt) w).result with
  | error e => simp
  | ok r =>
    obtain ⟨sent,p1⟩ := r
    cases sent with
    | true => simp
    | false => simp [severs_bufferFor]

theorem severs_tryPresence (env : Env) (self : Node L) (w : World) (cellId : String)
    (presence : PresenceEntry) (pkt : Packet) :
    env.severs (Router.tryPresence self cellId presence pkt) w =
      env.presenceSevered self w presence pkt := by
  unfold Router.tryPresence presenceSevered
  cases hv : Router.visiting presence with
  | none => exact severs_tryHome env self w cellId presence.homeNodeId pkt
  | some nodeId =>
    simp only [severs_bind,severs_sendToNode]
    congr 1
    by_cases hn : nodeId = self.id
    · rw [if_pos hn]
      unfold Router.sendToNode
      rw [if_pos hn,Prog.bind_eq,run_bind]
      cases (run env.handler (Router.deliverLocal self pkt) w).result <;> simp
    · rw [if_neg hn]
      have hr := env.run_sendToNode_remote self w hn pkt
      cases ho : env.afterRemote self w nodeId pkt with
      | none =>
        rw [ho] at hr
        rcases hr with ⟨p1,hres,_⟩ | ⟨e,hres⟩ <;> simp [hres]
      | some x =>
        obtain ⟨w1,p1⟩ := x
        rw [ho] at hr
        have hrefused : Refused _ w1 p1 := hr
        simp [hrefused.result,hrefused.final,severs_tryHome]

/-- Routing removes exactly the entries whose sockets it finds closed. -/
theorem severs_route (env : Env) (self : Node L) (w : World) (pkt : Packet) :
    env.severs (Router.route self pkt) w = env.severed self w pkt := by
  unfold severed
  cases ha : parseAddr pkt.toAddr with
  | error e =>
    rw [Router.route_error ha]
    rfl
  | ok x =>
    obtain ⟨cellId,n⟩ := x
    cases cellId with
    | none =>
      rw [Router.route_node ha,severs_bind,severs_sendToNode]
      cases (run env.handler (Router.sendToNode self n pkt) w).result <;> simp
    | some cellId =>
      rw [Router.route_cell ha,severs_ask]
      cases hp : w.state.storage.presenceTable.find cellId with
      | some presence =>
        simp only [handler,Storage.exec,World.next,World.cut,hp,List.nil_append]
        exact severs_tryPresence env self ⟨w.state,w.step+1⟩ cellId presence pkt
      | none =>
        simp only [handler,Storage.exec,World.next,World.cut,hp,List.nil_append,severs_ask]
        cases hc : w.state.storage.cells.find cellId with
        | none => simp
        | some cell =>
          exact severs_deliverLocal env self ⟨w.state,w.step+2⟩ pkt

end Env

theorem severs_flush {env : Env} {self : Node L} {rows : List BufferedMessage} {w : World}
    {nodeId : String} :
    nodeId ∈ env.severs (Prog.forEach rows (Router.flushMessage self)) w ↔
      ∃ r v pkt, Reached env self rows w r v ∧ deserializePacket L r.payload = some pkt ∧
        nodeId ∈ env.severed self v pkt := by
  induction rows generalizing w with
  | nil => simp [reached_nil]
  | cons m rows ih =>
    have hm : env.severs (Router.flushMessage self m) w =
        (deserializePacket L m.payload).elim [] (env.severed self w) := by
      unfold Router.flushMessage
      cases hd : deserializePacket L m.payload with
      | none => rfl
      | some pkt =>
        simp only [Prog.bind_eq]
        rw [severs_bind,env.severs_route]
        cases (run env.handler (Router.route self pkt) w).result <;>
          simp [severs_ask,World.cut]
    rw [Prog.forEach_cons,severs_bind,List.mem_append,hm]
    constructor
    · rintro (h | h)
      · cases hd : deserializePacket L m.payload with
        | none => simp [hd] at h
        | some pkt =>
          rw [hd] at h
          exact ⟨m,w,pkt,reached_cons.mpr (.inl ⟨rfl,rfl⟩),hd,h⟩
      · cases hres : (run env.handler (Router.flushMessage self m) w).result with
        | error e => simp [hres] at h
        | ok u =>
          rw [hres] at h
          obtain ⟨r,v,pkt,hr,hd,hs⟩ := ih.mp h
          exact ⟨r,v,pkt,reached_cons.mpr (.inr ⟨hres,hr⟩),hd,hs⟩
    · rintro ⟨r,v,pkt,hr,hd,hs⟩
      rcases reached_cons.mp hr with ⟨rfl,rfl⟩ | ⟨hres,hr⟩
      · rw [hd]
        exact .inl hs
      · rw [hres]
        exact .inr (ih.mpr ⟨r,v,pkt,hr,hd,hs⟩)

/-- Requests that write no row of the node table but new ones. -/
def InsertsOnly (t : Table NodeRow.nodeId) : Req → Prop
  | .store (.upsertNode row) => t.find row.nodeId = none
  | .store (.updateNodePing _ _) | .store (.removeNode _) | .store .cleanupExpiredNodes => False
  | _ => True

/-- Looking up a key that has no row. -/
def Misses (t : Table NodeRow.nodeId) : (q : Req) → Ans q → Prop
  | .store (.getNode k),none => t.find k = none
  | _,_ => True

/-- The rows of `t` are still there. -/
def Extends (t : Table NodeRow.nodeId) (w : World) : Prop :=
  ∀ k row, t.find k = some row → w.state.storage.nodeTable.find k = some row

theorem Extends.handler {t : Table NodeRow.nodeId} (env : Env) (q : Req) (w : World)
    (hq : InsertsOnly t q) (hw : Extends t w) :
    Misses t q (env.handler q w).1 ∧ Extends t (env.handler q w).2 := by
  constructor
  · cases q with
    | store op =>
      cases op with
      | getNode k =>
        cases hf : w.state.storage.nodeTable.find k with
        | some row => simp only [Env.handler,Storage.exec,hf,Misses]
        | none =>
          simp only [Env.handler,Storage.exec,hf,Misses]
          cases ht : t.find k with
          | none => rfl
          | some row =>
            rw [hw k row ht] at hf
            contradiction
      | _ => trivial
    | _ => trivial
  · cases q with
    | store op =>
      cases op with
      | upsertNode new =>
        intro k row h
        have hne : k ≠ new.nodeId := by
          rintro rfl
          have hnew : t.find new.nodeId = none := hq
          rw [hnew] at h
          contradiction
        simp only [Env.handler,Storage.exec,World.next,Storage.upsertNode,Table.find_upsert,
          if_neg hne]
        exact hw k row h
      | updateNodePing k success => exact hq.elim
      | removeNode k => exact hq.elim
      | cleanupExpiredNodes => exact hq.elim
      | _ => exact hw
    | _ => exact hw

theorem rows_of_obeys {env : Env} {α : Type} {p : NodeProg α} {t : Table NodeRow.nodeId}
    {w : World} (hp : Obeys (InsertsOnly t) (Misses t) (fun _ => True) p) (hw : Extends t w) :
    Extends t (run env.handler p w).final :=
  hp.run_inv env.handler (Extends t) (fun q w' => Extends.handler env q w') hw

section Harmless

variable {self : Node L} {t : Table NodeRow.nodeId}

/-- Neither an entry of the registry nor a row that exists is touched. -/
def Harmless (t : Table NodeRow.nodeId) {α : Type} (p : NodeProg α) : Prop :=
  Obeys (fun q => KeepsEntries q ∧ InsertsOnly t q) (Misses t) (fun _ => True) p

theorem Harmless.bind {α β : Type} {p : NodeProg α} {f : α → NodeProg β} (hp : Harmless t p)
    (hf : ∀ a, Harmless t (f a)) : Harmless t (p.bind f) :=
  Obeys.bind hp (fun a _ => hf a)

theorem Harmless.severs {env : Env} {α : Type} {p : NodeProg α} {w : World}
    (hp : Harmless t p) (hw : Extends t w) : env.severs p w = [] := by
  induction p generalizing w with
  | ret a => rfl
  | raise e => rfl
  | ask q k ih =>
    have hnext := Extends.handler env q w hp.1.2 hw
    rw [severs_ask,ih _ (hp.2 _ hnext.1) hnext.2]
    cases q <;> first | rfl | exact hp.1.1.elim

theorem harmless_ofExcept {α : Type} (x : Except Err α) :
    Harmless t (.ofExcept x : NodeProg α) :=
  obeys_ofExcept x

theorem harmless_sendVia (conn : PeerConnection) (pkt : Packet) :
    Harmless t (Transport.sendVia self conn pkt) := by
  refine (harmless_ofExcept _).bind (fun x => ⟨⟨trivial,trivial⟩,fun a _ => ?_⟩)
  cases a <;> trivial

theorem harmless_handlePing (pkt : Packet) (conn : PeerConnection) :
    Harmless t (GossipEngine.handlePing self pkt conn) :=
  ⟨⟨trivial,trivial⟩,fun _ _ => (harmless_ofExcept _).bind
    (fun pong => (harmless_sendVia conn pong).bind (fun _ => trivial))⟩

theorem harmless_presenceOf (cellId : Val) : Harmless t (Node.presenceOf L cellId) := by
  refine (harmless_ofExcept _).bind (fun k => ?_)
  cases k with
  | none => trivial
  | some k =>
    cases k with
    | blob b => trivial
    | text c => exact ⟨⟨trivial,trivial⟩,fun _ _ => trivial⟩

theorem harmless_handlePresenceQuery (pkt : Packet) (conn : PeerConnection) :
    Harmless t (Node.handlePresenceQuery self pkt conn) := by
  unfold Node.handlePresenceQuery
  split
  · trivial
  · exact (harmless_presenceOf _).bind (fun _ => (harmless_ofExcept _).bind (fun _ =>
      ⟨⟨trivial,trivial⟩,fun _ _ => (harmless_sendVia conn _).bind (fun _ => trivial)⟩))

theorem harmless_putNode (entry : NodeEntry)
    (h : ∀ k, SqlText.ofVal L.realText entry.nodeId = .ok (some k) → t.find k = none) :
    Harmless t (Storage.putNode L entry) := by
  refine (putNode_puts.mono_guard (fun q hq => ?_)).mono_rely (fun _ _ _ => trivial)
  rcases hq with rfl | ⟨row,hb,rfl⟩
  · exact ⟨trivial,trivial⟩
  · exact ⟨trivial,h _ hb.nodeId⟩

theorem harmless_learnNode (n nodeId address : Val)
    (h : ∀ k, SqlText.ofVal L.realText nodeId = .ok (some k) → t.find k = none) :
    Harmless t (GossipEngine.learnNode L n nodeId address) :=
  (harmless_ofExcept _).bind (fun _ => (harmless_ofExcept _).bind (fun _ =>
    ⟨⟨trivial,trivial⟩,fun _ _ => ⟨⟨trivial,trivial⟩,fun _ _ =>
      (harmless_putNode _ h).bind (fun _ => harmless_ofExcept _)⟩⟩))

theorem harmless_mergeNode (n : Val) : Harmless t (GossipEngine.mergeNode L n) := by
  unfold GossipEngine.mergeNode
  refine (harmless_ofExcept _).bind (fun nodeId => (harmless_ofExcept _).bind (fun address => ?_))
  split
  · trivial
  · unfold Storage.getNode
    cases hk : SqlText.ofVal L.realText nodeId with
    | error e => trivial
    | ok k =>
      cases k with
      | none => exact harmless_learnNode n nodeId address (by simp [hk])
      | some k =>
        refine ⟨⟨trivial,trivial⟩,fun entry hentry => ?_⟩
        cases entry with
        | some row => trivial
        | none =>
          refine harmless_learnNode n nodeId address (fun k' hk' => ?_)
          rw [hk] at hk'
          cases hk'
          exact hentry

theorem harmless_handleGossip (pkt : Packet) : Harmless t (GossipEngine.handleGossip L pkt) := by
  unfold GossipEngine.handleGossip
  split
  · trivial
  · exact (harmless_ofExcept _).bind
      (fun items => Obeys.forEach (fun n _ => harmless_mergeNode n))

end Harmless

/-- The fields of a row that say whether the node is alive. -/
def NodeRow.liveness (r : NodeRow) : String × Int × Int := (r.status,r.missedPings,r.lastSeen)

/-- What a packet of `peer` may bring about: only the peer's own row and entry
change, but its parent may have a node removed. -/
structure SpeaksForItself (peer : String) (pkt : Packet) (w w' : World)
    (removed : List String) : Prop where
  rows : ∀ k row, w.state.storage.nodeTable.find k = some row →
    (w'.state.storage.nodeTable.find k).map NodeRow.liveness = some row.liveness ∨
      k = .text peer ∨ (pkt.type = .str T.nodeRemove ∧
        w'.state.storage.nodeTable.find k = none ∧ row.parentNode = peer)
  entries : ∀ nodeId ∈ removed, nodeId = peer

/-- The row whose key is the value `v`. -/
def World.row (L : Lib) (w : World) (v : Val) : Option NodeRow :=
  match SqlText.ofVal L.realText v with
  | .ok (some k) => w.state.storage.nodeTable.find k
  | _ => none

/-- The world in which the flush of a registration begins. -/
def Env.registered (env : Env) (self : Node L) (w : World) (cellId : String) (c : Node.CellClaim) :
    World :=
  ⟨{ w.state with
     storage := (w.state.storage.registerCell (env.now w.step) cellId c.signingPub c.encPub
       c.isHome).updatePresence (env.now (w.step+1)) cellId self.id none },w.step+2⟩

/-- When the peer is entitled to what its packet does. -/
def Env.Entitled (env : Env) (self : Node L) (w : World) (pkt : Packet) (conn : PeerConnection) :
    Prop :=
  let peer := conn.peerNodeId
  if pkt.type.eqStr T.pong then
    ∀ row, w.row L pkt.fromAddr = some row →
      row.nodeId = .text peer ∨ row.liveness = ("online",0,env.now w.step)
  else if pkt.type.eqStr T.msg then ∀ nodeId ∈ env.severed self w pkt, nodeId = peer
  else if pkt.type.eqStr T.nodeRemove then
    ∀ nodeId row, (decodePayload L pkt.payload).bind (fun data => data.item "node_id") =
        .ok nodeId → w.row L nodeId = some row →
      row.nodeId = .text peer ∨ row.parentNode = peer
  else if pkt.type.eqStr T.nodeLeaving then
    (∀ row, w.row L pkt.fromAddr = some row → row.nodeId = .text peer) ∧
      ∀ nodeId, pkt.fromAddr = .str nodeId →
        (w.state.connections.get nodeId).isSome = true → nodeId = peer
  else if pkt.type.eqStr T.cellRegister then
    ∀ c, Node.cellClaim L pkt = .ok c → c.signingPub = conn.peerSigningPubkey →
      c.cellId = .str peer →
      ∀ r v p, Reached env self (dueRows env (env.registered self w peer c) peer)
          ⟨(env.registered self w peer c).state,w.step+3⟩ r v →
        deserializePacket L r.payload = some p → ∀ nodeId ∈ env.severed self v p, nodeId = peer
  else True

section Cases

variable {env : Env} {self : Node L} {w : World} {pkt : Packet} {peer : String}

theorem speaks_of_rows {p : NodeProg Unit}
    (hp : Obeys (InsertsOnly w.state.storage.nodeTable) (Misses w.state.storage.nodeTable)
      (fun _ => True) p) :
    SpeaksForItself peer pkt w (run env.handler p w).final (env.severs p w) ↔
      ∀ nodeId ∈ env.severs p w, nodeId = peer := by
  refine ⟨fun h => h.entries,fun h => ⟨fun k row hk => .inl ?_,h⟩⟩
  rw [rows_of_obeys hp (fun _ _ h => h) k row hk]
  rfl

theorem speaks_of_harmless {p : NodeProg Unit} (hp : Harmless w.state.storage.nodeTable p) :
    SpeaksForItself peer pkt w (run env.handler p w).final (env.severs p w) := by
  rw [speaks_of_rows (hp.mono_guard (fun _ h => h.2)),hp.severs (fun _ _ h => h)]
  simp

theorem insertsOnly_route (t : Table NodeRow.nodeId) (pkt : Packet) :
    Obeys (InsertsOnly t) (Misses t) (fun _ => True) (Router.route self pkt) := by
  refine ((Router.route_allowed pkt).mono_guard ?_).mono_rely (fun _ _ _ => trivial)
  intro q hq
  cases q with
  | store op => cases op <;> first | trivial | exact hq.elim (fun h => h.elim) (fun h => h.elim)
  | _ => trivial

theorem insertsOnly_flush (t : Table NodeRow.nodeId) (c : String) :
    Obeys (InsertsOnly t) (Misses t) (fun _ => True) (Router.flushBuffer self c) := by
  refine ⟨trivial,fun rows _ => Obeys.forEach (fun m _ => ?_)⟩
  unfold Router.flushMessage
  split
  · trivial
  · exact (insertsOnly_route t _).bind (fun _ _ => ⟨trivial,fun _ _ => trivial⟩)

theorem find_row {t : Table NodeRow.nodeId} {k : SqlText} {row : NodeRow}
    (h : t.find k = some row) : row.nodeId = k := (t.find_eq_some.mp h).2

theorem speaks_pong {f : String} (hty : pkt.type.eqStr T.nodeRemove = false)
    (hf : pkt.fromAddr = .str f) :
    SpeaksForItself peer pkt w (run env.handler (GossipEngine.handlePong L pkt) w).final
        (env.severs (GossipEngine.handlePong L pkt) w) ↔
      ∀ row, w.row L pkt.fromAddr = some row →
        row.nodeId = .text peer ∨ row.liveness = ("online",0,env.now w.step) := by
  have hfinal : ∀ k, (run env.handler (GossipEngine.handlePong L pkt) w).final.state.storage.nodeTable.find k =
      if k = .text f then (w.state.storage.nodeTable.find k).map
        (fun r => { r with lastSeen := env.now w.step, missedPings := 0, status := "online" })
      else w.state.storage.nodeTable.find k := by
    intro k
    unfold GossipEngine.handlePong
    rw [hf]
    exact w.state.storage.nodeTable.find_modify (.text f) k
      (fun r => { r with lastSeen := env.now w.step, missedPings := 0, status := "online" })
      (fun _ => rfl)
  have hsev : env.severs (GossipEngine.handlePong L pkt) w = [] := by
    unfold GossipEngine.handlePong
    rw [hf]
    rfl
  have hrow : w.row L pkt.fromAddr = w.state.storage.nodeTable.find (.text f) := by
    rw [hf]
    rfl
  have hno : pkt.type ≠ .str T.nodeRemove := by
    intro h
    simp [h,Val.eqStr] at hty
  rw [hsev,hrow]
  constructor
  · intro h row hk
    have hr := h.rows _ row hk
    rw [hfinal,if_pos rfl,hk] at hr
    rcases hr with hl | hp | ⟨ht,_⟩
    · right
      simpa [NodeRow.liveness,eq_comm] using hl
    · exact .inl (by rw [find_row hk,hp])
    · exact absurd ht hno
  · intro h
    refine ⟨fun k row hk => ?_,by simp⟩
    rw [hfinal]
    by_cases hkf : k = .text f
    · subst hkf
      rcases h row hk with hp | hl
      · exact .inr (.inl (by rw [← hp,find_row hk]))
      · left
        rw [if_pos rfl,hk,hl]
        rfl
    · left
      rw [if_neg hkf,hk]
      rfl

/-- Removing a row that belongs to someone else is only for its parent to do. -/
theorem speaks_delete {removed : List String} {k : SqlText} {w' : World}
    (hdel : ∀ j, w'.state.storage.nodeTable.find j =
      if j = k then none else w.state.storage.nodeTable.find j) :
    SpeaksForItself peer pkt w w' removed ↔
      (∀ row, w.state.storage.nodeTable.find k = some row → row.nodeId = .text peer ∨
        (pkt.type = .str T.nodeRemove ∧ row.parentNode = peer)) ∧
      ∀ nodeId ∈ removed, nodeId = peer := by
  constructor
  · intro h
    refine ⟨fun row hk => ?_,h.entries⟩
    rcases h.rows _ row hk with hl | hp | ⟨ht,_,hpar⟩
    · rw [hdel,if_pos rfl] at hl
      simp at hl
    · exact .inl (by rw [find_row hk,hp])
    · exact .inr ⟨ht,hpar⟩
  · rintro ⟨h,hent⟩
    refine ⟨fun j row hj => ?_,hent⟩
    rw [hdel]
    by_cases hjk : j = k
    · subst hjk
      rcases h row hj with hp | ⟨ht,hpar⟩
      · exact .inr (.inl (by rw [← hp,find_row hj]))
      · exact .inr (.inr ⟨ht,if_pos rfl,hpar⟩)
    · left
      rw [if_neg hjk,hj]
      rfl

theorem speaks_same {w' : World} (h : w'.state.storage.nodeTable = w.state.storage.nodeTable) :
    SpeaksForItself peer pkt w w' [] :=
  ⟨fun k row hk => .inl (by rw [h,hk]; rfl),by simp⟩

theorem row_some {v : Val} {k : SqlText} (hk : SqlText.ofVal L.realText v = .ok (some k)) :
    w.row L v = w.state.storage.nodeTable.find k := by
  unfold World.row
  rw [hk]

/-- The world after `remove_node`. -/
def World.dropped (w : World) (k : SqlText) : World :=
  ⟨{ w.state with storage := w.state.storage.removeNode k },w.step+1⟩

theorem run_dropNode {v : Val} {k : SqlText} (hk : SqlText.ofVal L.realText v = .ok (some k)) :
    run env.handler (Storage.dropNode L v) w =
      ⟨.ok (),[⟨.store (.removeNode k),()⟩],w.dropped k⟩ := by
  unfold Storage.dropNode
  rw [hk]
  rfl

theorem find_dropped (k j : SqlText) : (w.dropped k).state.storage.nodeTable.find j =
    if j = k then none else w.state.storage.nodeTable.find j :=
  w.state.storage.nodeTable.find_delete k j

theorem final_ofExcept {α : Type} (x : Except Err α) :
    (run env.handler (.ofExcept x : NodeProg α) w).final = w := by
  cases x <;> rfl

theorem severs_ofExcept {α : Type} (x : Except Err α) :
    env.severs (.ofExcept x : NodeProg α) w = [] := by
  cases x <;> rfl

theorem severs_dropNode (v : Val) : env.severs (Storage.dropNode L v) w = [] := by
  unfold Storage.dropNode
  cases SqlText.ofVal L.realText v with
  | error e => rfl
  | ok k => cases k <;> rfl

theorem speaks_nodeRemove (hty : pkt.type = .str T.nodeRemove) :
    SpeaksForItself peer pkt w (run env.handler (Node.handleNodeRemove L pkt) w).final
        (env.severs (Node.handleNodeRemove L pkt) w) ↔
      ∀ nodeId row, (decodePayload L pkt.payload).bind (fun data => data.item "node_id") =
        .ok nodeId → w.row L nodeId = some row →
          row.nodeId = .text peer ∨ row.parentNode = peer := by
  unfold Node.handleNodeRemove
  cases hd : (decodePayload L pkt.payload).bind (fun data => data.item "node_id") with
  | error e => simpa using speaks_same rfl
  | ok v =>
    have hsev : env.severs ((Storage.dropNode L v).bind (fun _ => .ofExcept v.slice)) w = [] := by
      rw [severs_bind,severs_dropNode]
      cases (run env.handler (Storage.dropNode L v) w).result with
      | error e => rfl
      | ok u => simp [severs_ofExcept]
    simp only [Prog.bind_eq]
    rw [hsev]
    cases hk : SqlText.ofVal L.realText v with
    | error e =>
      have hrun : run env.handler (Storage.dropNode L v) w = ⟨.error e,[],w⟩ := by
        unfold Storage.dropNode
        rw [hk]
        rfl
      rw [run_bind,hrun]
      refine ⟨fun _ nodeId row hv hrow => ?_,fun _ => speaks_same rfl⟩
      cases hv
      simp [World.row,hk] at hrow
    | ok k =>
      cases k with
      | none =>
        have hrun : run env.handler (Storage.dropNode L v) w = ⟨.ok (),[],w⟩ := by
          unfold Storage.dropNode
          rw [hk]
          rfl
        rw [run_bind,hrun]
        refine ⟨fun _ nodeId row hv hrow => ?_,fun _ => speaks_same (by rw [final_ofExcept])⟩
        cases hv
        simp [World.row,hk] at hrow
      | some k =>
        rw [run_bind,run_dropNode hk,speaks_delete (k := k) (fun j => by
          rw [final_ofExcept]; exact find_dropped k j)]
        constructor
        · intro h nodeId row hv hrow
          cases hv
          rw [row_some hk] at hrow
          exact (h.1 row hrow).imp id (fun h => h.2)
        · intro h
          refine ⟨fun row hrow => ?_,by simp⟩
          rw [← row_some hk] at hrow
          exact (h v row rfl hrow).imp id (fun h => ⟨hty,h⟩)

theorem speaks_nodeLeaving {f : String} (hty : pkt.type.eqStr T.nodeRemove = false)
    (hf : pkt.fromAddr = .str f) :
    SpeaksForItself peer pkt w (run env.handler (Node.handleNodeLeaving L pkt) w).final
        (env.severs (Node.handleNodeLeaving L pkt) w) ↔
      (∀ row, w.row L pkt.fromAddr = some row → row.nodeId = .text peer) ∧
        ∀ nodeId, pkt.fromAddr = .str nodeId →
          (w.state.connections.get nodeId).isSome = true → nodeId = peer := by
  have hk : SqlText.ofVal L.realText pkt.fromAddr = .ok (some (.text f)) := by
    rw [hf]
    rfl
  have hprog : run env.handler (Node.handleNodeLeaving L pkt) w =
      ⟨.ok (),[⟨.store (.removeNode (.text f)),()⟩,⟨.connRemove f,()⟩],
        ⟨{ (w.dropped (.text f)).state with
           connections := w.state.connections.remove f },w.step+2⟩⟩ := by
    unfold Node.handleNodeLeaving
    simp only [Prog.bind_eq]
    rw [run_bind,run_dropNode hk,hf]
    rfl
  have hsev : env.severs (Node.handleNodeLeaving L pkt) w =
      if (w.state.connections.get f).isSome then [f] else [] := by
    unfold Env.severs
    rw [hprog]
    simp [ConnectionRegistry.removals]
  have hno : pkt.type ≠ .str T.nodeRemove := by
    intro h
    simp [h,Val.eqStr] at hty
  have hfind : ∀ j, (run env.handler (Node.handleNodeLeaving L pkt) w).final.state.storage.nodeTable.find j =
      if j = .text f then none else w.state.storage.nodeTable.find j := by
    intro j
    rw [hprog]
    exact find_dropped (.text f) j
  rw [hsev,speaks_delete hfind,row_some hk]
  constructor
  · rintro ⟨hrows,hent⟩
    refine ⟨fun row hrow => (hrows row hrow).resolve_right (fun h => hno h.1),?_⟩
    intro nodeId hn hs
    rw [hf] at hn
    cases hn
    exact hent f (by simp [hs])
  · rintro ⟨hrows,hent⟩
    refine ⟨fun row hrow => .inl (hrows row hrow),?_⟩
    intro nodeId hn
    by_cases hs : (w.state.connections.get f).isSome = true
    · rw [if_pos hs,List.mem_singleton] at hn
      rw [hn]
      exact hent f hf hs
    · simp [hs] at hn

theorem speaks_cellRegister {conn : PeerConnection} (hpeer : peer = conn.peerNodeId) :
    SpeaksForItself peer pkt w (run env.handler (Node.handleCellRegister self pkt conn) w).final
        (env.severs (Node.handleCellRegister self pkt conn) w) ↔
      ∀ c, Node.cellClaim L pkt = .ok c → c.signingPub = conn.peerSigningPubkey →
        c.cellId = .str peer →
        ∀ r v p, Reached env self (dueRows env (env.registered self w peer c) peer)
            ⟨(env.registered self w peer c).state,w.step+3⟩ r v →
          deserializePacket L r.payload = some p →
            ∀ nodeId ∈ env.severed self v p, nodeId = peer := by
  subst hpeer
  unfold Node.handleCellRegister
  cases hc : Node.cellClaim L pkt with
  | error e => simpa using speaks_same rfl
  | ok c =>
    simp only [Except.ok.injEq,forall_eq']
    by_cases hkey : c.signingPub = conn.peerSigningPubkey
    · by_cases hid : c.cellId.eqStr conn.peerNodeId = true
      · have hsev : env.severs (Node.accept self conn c) w =
            env.severs (Prog.forEach
              (dueRows env (env.registered self w conn.peerNodeId c) conn.peerNodeId)
              (Router.flushMessage self))
              ⟨(env.registered self w conn.peerNodeId c).state,w.step+3⟩ := by
          unfold Node.accept
          simp only [Prog.bind_eq]
          rfl
        have hrows : Obeys (InsertsOnly w.state.storage.nodeTable)
            (Misses w.state.storage.nodeTable) (fun _ => True) (Node.accept self conn c) :=
          ⟨trivial,fun _ _ => ⟨trivial,fun _ _ => insertsOnly_flush _ _⟩⟩
        simp only [ne_eq,hkey,not_true_eq_false,if_false,hid,Bool.not_true,Bool.false_eq_true]
        rw [speaks_of_rows hrows,hsev]
        constructor
        · intro h _ _ r v p hr hd nodeId hn
          exact h nodeId (severs_flush.mpr ⟨r,v,p,hr,hd,hn⟩)
        · intro h nodeId hn
          obtain ⟨r,v,p,hr,hd,hs⟩ := severs_flush.mp hn
          exact h trivial (Val.eqStr_iff.mp hid) r v p hr hd nodeId hs
      · have hne : c.cellId ≠ .str conn.peerNodeId := fun h => hid (Val.eqStr_iff.mpr h)
        simpa [hkey,hid,hne] using speaks_same rfl
    · simpa [hkey] using speaks_same rfl

end Cases

/-- A dispatched packet does to the node table and the registry what its sender is
entitled to, exactly under these conditions on the packet and the state. -/
theorem dispatch_speaks_iff (env : Env) (self : Node L) (w : World) (pkt : Packet)
    (conn : PeerConnection) (hv : verifyPacket L pkt conn.peerSigningPubkey = .ok true) :
    SpeaksForItself conn.peerNodeId pkt w (run env.handler (Node.dispatch self pkt conn) w).final
        (w.state.connections.removals (run env.handler (Node.dispatch self pkt conn) w).trace) ↔
      env.Entitled self w pkt conn := by
  obtain ⟨m,_,hm,_⟩ := verifyPacket_true hv
  obtain ⟨_,ty,f,_,_,_,hty,hf,_,_⟩ := signData_ok hm
  change SpeaksForItself _ pkt w _ (env.severs (Node.dispatch self pkt conn) w) ↔ _
  have hT : ∀ s, pkt.type.eqStr s = true ↔ ty = s := by
    intro s
    simp [hty,Val.eqStr]
  have hrem : ty ≠ T.nodeRemove → pkt.type.eqStr T.nodeRemove = false := by
    intro h
    simpa [hty,Val.eqStr] using h
  unfold Node.dispatch Env.Entitled
  simp only [hT]
  by_cases hping : ty = T.ping
  · subst hping
    simpa [T.ping,T.pong,T.msg,T.nodeRemove,T.nodeLeaving,T.cellRegister] using
      speaks_of_harmless (harmless_handlePing pkt conn)
  by_cases hpong : ty = T.pong
  · simp only [if_neg hping,if_pos hpong]
    exact speaks_pong (hrem (by rw [hpong]; decide)) hf
  by_cases hgossip : ty = T.gossip
  · subst hgossip
    simpa [T.ping,T.pong,T.gossip,T.msg,T.nodeRemove,T.nodeLeaving,T.cellRegister] using
      speaks_of_harmless (harmless_handleGossip pkt)
  by_cases hmsg : ty = T.msg
  · simp only [if_neg hping,if_neg hpong,if_neg hgossip,if_pos hmsg]
    rw [speaks_of_rows (insertsOnly_route _ pkt),env.severs_route]
  by_cases hnr : ty = T.nodeRemove
  · simp only [if_neg hping,if_neg hpong,if_neg hgossip,if_neg hmsg,if_pos hnr]
    exact speaks_nodeRemove (by rw [hty,hnr])
  by_cases hnl : ty = T.nodeLeaving
  · simp only [if_neg hping,if_neg hpong,if_neg hgossip,if_neg hmsg,if_neg hnr,if_pos hnl]
    exact speaks_nodeLeaving (hrem hnr) hf
  by_cases hpq : ty = T.presenceQuery
  · subst hpq
    simpa [T.ping,T.pong,T.gossip,T.msg,T.nodeRemove,T.nodeLeaving,T.presenceQuery,
      T.cellRegister] using speaks_of_harmless (harmless_handlePresenceQuery pkt conn)
  by_cases hpr : ty = T.presenceResponse
  · subst hpr
    simpa [T.ping,T.pong,T.gossip,T.msg,T.nodeRemove,T.nodeLeaving,T.presenceQuery,
      T.presenceResponse,T.cellRegister] using speaks_same rfl
  by_cases hcr : ty = T.cellRegister
  · simp only [if_neg hping,if_neg hpong,if_neg hgossip,if_neg hmsg,if_neg hnr,if_neg hnl,
      if_neg hpq,if_neg hpr,if_pos hcr]
    exact speaks_cellRegister rfl
  · simp only [if_neg hping,if_neg hpong,if_neg hgossip,if_neg hmsg,if_neg hnr,if_neg hnl,
      if_neg hpq,if_neg hpr,if_neg hcr,iff_true]
    exact speaks_of_harmless (harmless_ofExcept _)

/-- A node with one row, for a node that is offline. -/
def offlineWorld (nodeId parent : String) : World :=
  ⟨⟨Storage.empty.upsertNode ⟨.text nodeId,.text "h:1",.text "permanent",.text "open",[],parent,0,5,
    "offline",0⟩,ConnectionRegistry.empty⟩,0⟩

/-- A packet of cell or node `b`, signed by it, with the sender it claims. -/
def signedBy (b : UInt8) (type fromAddr : String) : Packet :=
  match signPacket shortSigLib
    { type := .str type, payload := .bin [], id := .str "i", fromAddr := .str fromAddr,
      toAddr := .str "", ts := .int 5 } (sampleIdentity shortSigLib b).signing with
  | .ok p => p
  | .error _ => samplePacket ""

def peerConnection (b : UInt8) : PeerConnection :=
  ⟨0,(sampleIdentity shortSigLib b).id,(sampleIdentity shortSigLib b).signing.pub,.none,""⟩

/-- A node that answers a ping revives its own row. -/
theorem dispatch_speaks_sample :
    SpeaksForItself (peerConnection 2).peerNodeId
      (signedBy 2 T.pong (peerConnection 2).peerNodeId)
      (offlineWorld (peerConnection 2).peerNodeId "")
      (run calmEnv.handler (Node.dispatch (sampleNode false)
        (signedBy 2 T.pong (peerConnection 2).peerNodeId) (peerConnection 2))
        (offlineWorld (peerConnection 2).peerNodeId "")).final
      ((offlineWorld (peerConnection 2).peerNodeId "").state.connections.removals
        (run calmEnv.handler (Node.dispatch (sampleNode false)
          (signedBy 2 T.pong (peerConnection 2).peerNodeId) (peerConnection 2))
          (offlineWorld (peerConnection 2).peerNodeId "")).trace) := by
  refine (dispatch_speaks_iff calmEnv (sampleNode false) _ _ (peerConnection 2)
    (by decide +kernel)).mpr ?_
  unfold Env.Entitled
  rw [if_pos (by decide +kernel)]
  intro row hrow
  left
  have hall : ∀ r ∈ (offlineWorld (peerConnection 2).peerNodeId "").row shortSigLib
      (signedBy 2 T.pong (peerConnection 2).peerNodeId).fromAddr,
      r.nodeId = .text (peerConnection 2).peerNodeId := by decide +kernel
  exact hall row hrow

/-- A PONG in the name of another node brings that node back online. -/
theorem pong_revives_another :
    verifyPacket shortSigLib (signedBy 2 T.pong "n3") (peerConnection 2).peerSigningPubkey =
      .ok true ∧
    (peerConnection 2).peerNodeId ≠ "n3" ∧
    ((offlineWorld "n3" "").state.storage.nodeTable.find (.text "n3")).map NodeRow.status =
      some "offline" ∧
    ((run calmEnv.handler (Node.dispatch (sampleNode false) (signedBy 2 T.pong "n3")
      (peerConnection 2)) (offlineWorld "n3" "")).final.state.storage.nodeTable.find
        (.text "n3")).map NodeRow.status = some "online" := by
  refine ⟨?_,?_,?_,?_⟩ <;> decide +kernel

end Nevod
