import Nevod.Agreement
import Nevod.Client
import Nevod.Forwarding
import Nevod.Running

/-!
All that a node puts on its sockets once the handshakes are over: packets that the
other end accepts, on connections whose peer has been authenticated.
-/

set_option autoImplicit false

namespace Nevod
open Text Resume Keyed

variable {L : Lib} {ι : Type}

namespace Outgoing
open Forwarding (isSend exists_isSend)

/-- The frame holds a packet that the node has signed. -/
def Signed (self : Node L) (frame : Bytes) : Prop :=
  ∃ pkt signed, Transport.wireForm self pkt = .ok (signed,frame)

/-- A frame is sent on a connection that is known to be authenticated. -/
def guard (self : Node L) (met : PeerConnection → Prop) : Req → Prop
  | .wsSend conn frame => met conn ∧ Signed self frame
  | .connAdd conn => met conn
  | _ => True

def rely (self : Node L) (met : PeerConnection → Prop) : (q : Req) → Ans q → Prop
  | .dial _ _,a => ∀ conn, a = .ok conn → met conn
  | .accept,a => ∀ conn, a = .ok conn → met conn
  | .connGet _,a => ∀ conn, a = some conn → met conn
  | .wsSend conn frame,_ => met conn ∧ Signed self frame
  | _,_ => True

/-- The program keeps to the guard, whatever it returns. -/
abbrev Meets (self : Node L) (met : PeerConnection → Prop) {α : Type} (p : NodeProg α) : Prop :=
  Keeps (guard self) (rely self) (fun _ _ => True) met p

/-- Programs that send nothing but signed frames to one connection. -/
def SendsTo (self : Node L) (conn : PeerConnection) : Req → Prop
  | .wsSend c frame => c = conn ∧ Signed self frame
  | .connAdd _ => False
  | _ => True

/-- Programs that send nothing. -/
def Silent : Req → Prop
  | .wsSend _ _ | .connAdd _ => False
  | _ => True

section

variable {self : Node L} {met : PeerConnection → Prop} {conn : PeerConnection} {pkt : Packet}

theorem meets_ofExcept {α : Type} (x : Except Err α) : Meets self met (Prog.ofExcept x) := by
  cases x <;> trivial

theorem meets_of_sendsTo {α : Type} {p : NodeProg α} (hconn : met conn)
    (h : Obeys (SendsTo self conn) (fun _ _ => True) (fun _ => True) p) : Meets self met p := by
  refine h.keeps met (fun u hu q hq => ?_) (fun _ _ _ _ _ => trivial)
  cases q with
  | wsSend c frame =>
    obtain ⟨rfl,hs⟩ := hq
    exact ⟨hu c hconn,hs⟩
  | connAdd c => exact hq.elim
  | _ => trivial

theorem meets_of_silent {α : Type} {p : NodeProg α}
    (h : Obeys Silent (fun _ _ => True) (fun _ => True) p) : Meets self met p := by
  refine h.keeps met (fun u _ q hq => ?_) (fun _ _ _ _ _ => trivial)
  cases q with
  | wsSend c frame => exact hq.elim
  | connAdd c => exact hq.elim
  | _ => trivial

theorem meets_sendTo (nodeId : String) (pkt : Packet) :
    Meets self met (Transport.sendTo self nodeId pkt) := by
  refine ⟨trivial,fun u _ found hfound => ?_⟩
  cases found with
  | none => trivial
  | some conn =>
    cases hw : Transport.wireForm self pkt with
    | error e => trivial
    | ok x =>
      refine ⟨⟨hfound conn rfl,pkt,x.1,hw⟩,fun _ _ sent _ => ?_⟩
      rcases sent with e | ⟨⟨⟩⟩
      · cases e <;> first | trivial | exact ⟨trivial,fun _ _ _ _ => trivial⟩
      · trivial

theorem meets_callback (r : Bool × Packet) : Meets self met (Router.callback self r) := by
  unfold Router.callback
  split
  · trivial
  · split
    · refine ⟨trivial,fun _ _ a _ => ?_⟩
      cases a <;> trivial
    · trivial

theorem meets_deliverLocal (pkt : Packet) : Meets self met (Router.deliverLocal self pkt) := by
  rw [Router.deliverLocal_eq]
  split
  · trivial
  · exact meets_callback _
  · split
    · exact meets_callback _
    · exact (meets_sendTo _ pkt).bind (fun _ _ r _ => meets_callback r)

theorem meets_transmit (hconn : met conn) (pkt : Packet) :
    Meets self met (Router.transmit self conn pkt) := by
  rcases Router.transmit_cases self conn pkt with ⟨_,p,_,_,ht⟩ | ⟨signed,frame,hw,_,ht⟩
  · rw [ht]
    trivial
  · rw [ht]
    refine ⟨⟨hconn,pkt,signed,hw⟩,fun _ _ sent _ => ?_⟩
    cases sent <;> trivial

theorem meets_dialAndSend (nodeId : String) (address : Val) (pkt : Packet) :
    Meets self met (Router.dialAndSend self nodeId address pkt) := by
  rw [Router.dialAndSend_eq]
  refine ⟨trivial,fun u _ dialled hdialled => ?_⟩
  cases dialled with
  | error e => trivial
  | ok conn =>
    have hconn : u conn := hdialled conn rfl
    exact ⟨hconn,fun u1 h1 _ _ => ⟨trivial,fun u2 h2 _ _ =>
      meets_transmit (h2 conn (h1 conn hconn)) pkt⟩⟩

theorem meets_sendToNode (nodeId : String) (pkt : Packet) :
    Meets self met (Router.sendToNode self nodeId pkt) := by
  unfold Router.sendToNode
  split
  · exact (meets_deliverLocal pkt).bind (fun _ _ _ _ => trivial)
  · refine (meets_sendTo nodeId pkt).bind (fun _ _ r _ => ?_)
    obtain ⟨sent,p⟩ := r
    cases sent with
    | true => trivial
    | false =>
      refine ⟨trivial,fun _ _ entry _ => ?_⟩
      cases entry with
      | none => trivial
      | some entry =>
        simp only [Prog.bind_ret]
        split
        · trivial
        · exact meets_dialAndSend nodeId _ p

theorem meets_tryHome (cellId home : String) (pkt : Packet) :
    Meets self met (Router.tryHome self cellId home pkt) := by
  refine (meets_sendToNode home pkt).bind (fun _ _ r _ => ?_)
  split
  · trivial
  · rcases Router.bufferFor_cases L cellId home r.2 with ⟨e,hb⟩ | ⟨k,payload,_,_,hb⟩
    · rw [hb]
      trivial
    · rw [hb]
      exact ⟨trivial,fun _ _ _ _ => trivial⟩

theorem meets_route (pkt : Packet) : Meets self met (Router.route self pkt) := by
  cases ha : parseAddr pkt.toAddr with
  | error e =>
    rw [Router.route_error ha]
    trivial
  | ok x =>
    obtain ⟨cellId,nodeId⟩ := x
    cases cellId with
    | none =>
      rw [Router.route_node ha]
      exact (meets_sendToNode nodeId pkt).bind (fun _ _ _ _ => trivial)
    | some cellId =>
      rw [Router.route_cell ha]
      refine ⟨trivial,fun _ _ presence _ => ?_⟩
      cases presence with
      | none =>
        refine ⟨trivial,fun _ _ cell _ => ?_⟩
        cases cell with
        | none => trivial
        | some cell => exact meets_deliverLocal pkt
      | some row =>
        change Meets self _ (Router.tryPresence self cellId row pkt)
        unfold Router.tryPresence
        split
        · exact meets_tryHome _ _ pkt
        · refine (meets_sendToNode _ pkt).bind (fun _ _ r _ => ?_)
          split
          · trivial
          · exact meets_tryHome _ _ r.2

theorem meets_flushBuffer (cellId : String) : Meets self met (Router.flushBuffer self cellId) := by
  refine ⟨trivial,fun _ _ rows _ => Keeps.forEach (fun m _ u _ => ?_)⟩
  unfold Router.flushMessage
  cases deserializePacket L m.payload with
  | none => trivial
  | some p => exact (meets_route p).bind (fun _ _ _ _ => ⟨trivial,fun _ _ _ _ => trivial⟩)

theorem meets_dispatch (hconn : met conn) (pkt : Packet) :
    Meets self met (Node.dispatch self pkt conn) := by
  by_cases hmsg : pkt.type = .str T.msg
  · rw [dispatch_msg _ hmsg]
    exact meets_route pkt
  by_cases hreg : pkt.type = .str T.cellRegister
  · rw [dispatch_cellRegister _ hreg]
    unfold Node.handleCellRegister
    cases Node.cellClaim L pkt with
    | error e => trivial
    | ok c =>
      simp only []
      split
      · trivial
      · split
        · trivial
        · exact ⟨trivial,fun _ _ _ _ => ⟨trivial,fun _ _ _ _ => meets_flushBuffer _⟩⟩
  · -- all other packets are answered on their own connection, if at all
    have hd : Within self (fun _ => True) pkt conn (Node.dispatch self pkt conn) := within_dispatch
    have hnone : ∀ p, ¬ Routed L (fun _ => True) pkt p := by
      rintro p (⟨hty,_⟩ | ⟨hty,_⟩)
      · exact hmsg hty
      · exact hreg hty
    refine meets_of_sendsTo hconn ((hd.mono_guard (fun q hq => ?_)).mono_rely
      (fun q a _ => Registration.readsWaiting_all q a))
    cases q with
    | wsSend c frame =>
      rcases hq with ⟨p,_,hp,_⟩ | ⟨rfl,p,signed,_,hw⟩
      · exact (hnone p hp).elim
      · exact ⟨rfl,p,signed,hw⟩
    | connAdd c =>
      obtain ⟨p,hp⟩ := hq
      exact (hnone p hp).elim
    | _ => trivial

theorem meets_finishRecv (conn : PeerConnection) (incoming : Bool) :
    Meets self met (Transport.finishRecv conn incoming) := by
  refine ⟨trivial,fun _ _ _ _ => ⟨trivial,fun _ _ _ _ => ?_⟩⟩
  cases incoming with
  | true => exact ⟨trivial,fun _ _ _ _ => trivial⟩
  | false => trivial

theorem meets_recvRound (hconn : met conn) (incoming : Bool) :
    Meets self met (Node.recvRound self conn incoming) := by
  refine ⟨trivial,fun u hu frame _ => ?_⟩
  cases frame with
  | none => exact meets_finishRecv conn incoming
  | some raw =>
    refine Keeps.rescue ?_ (fun _ _ _ => meets_finishRecv conn incoming)
    refine (meets_ofExcept (unpack L raw)).bind (fun u1 h1 pkt _ => ?_)
    refine (meets_ofExcept (verifyPacket L pkt conn.peerSigningPubkey)).bind (fun u2 h2 valid _ => ?_)
    split
    · exact (meets_dispatch (h2 conn (h1 conn (hu conn hconn))) pkt).rescue (fun _ _ _ => trivial)
    · trivial

theorem meets_trySend (hconn : met conn) (pkt : Packet) :
    Meets self met (GossipEngine.trySend self conn pkt) := by
  rcases GossipEngine.trySend_cases self conn pkt with ⟨e,_,ht⟩ | ⟨signed,frame,hw,ht⟩
  · rw [ht]
    trivial
  · rw [ht]
    refine ⟨⟨hconn,pkt,signed,hw⟩,fun _ _ sent _ => ?_⟩
    cases sent <;> trivial

theorem meets_pingOver (hconn : met conn) (k : SqlText) :
    Meets self met (GossipEngine.pingOver self k conn) := by
  refine ⟨trivial,fun u hu st _ => ?_⟩
  exact (meets_trySend (hu conn hconn) _).bind (fun _ _ _ _ => ⟨trivial,fun _ _ _ _ => trivial⟩)

theorem meets_pingNode (entry : NodeRow) : Meets self met (GossipEngine.pingNode self entry) := by
  rw [GossipEngine.pingNode_eq]
  cases entry.nodeId with
  | blob b => exact ⟨trivial,fun _ _ _ _ => trivial⟩
  | text nodeId =>
    refine ⟨trivial,fun u _ found hfound => ?_⟩
    cases found with
    | some conn => exact meets_pingOver (hfound conn rfl) _
    | none =>
      refine ⟨trivial,fun u1 _ dialled hdialled => ?_⟩
      cases dialled with
      | error e => exact ⟨trivial,fun _ _ _ _ => trivial⟩
      | ok conn =>
        have hconn : u1 conn := hdialled conn rfl
        exact ⟨hconn,fun u2 h2 _ _ => ⟨trivial,fun u3 h3 _ _ =>
          meets_pingOver (h3 conn (h2 conn hconn)) _⟩⟩

theorem meets_exchange (peer : NodeRow) : Meets self met (GossipEngine.exchange self peer) := by
  rw [GossipEngine.exchange_eq]
  cases peer.nodeId with
  | blob b => trivial
  | text nodeId =>
    refine ⟨trivial,fun u _ found hfound => ?_⟩
    cases found with
    | none => trivial
    | some conn =>
      refine ⟨trivial,fun u1 h1 rows _ => ⟨trivial,fun u2 h2 st _ => ?_⟩⟩
      cases hg : makeGossip L st (.str self.id) (rows.map NodeRow.toDict) with
      | error e => simp [hg,Keeps]
      | ok g =>
        simp only [hg]
        exact (meets_trySend (h2 conn (h1 conn (hfound conn rfl))) g).bind (fun _ _ _ _ => trivial)

theorem meets_turn : Meets self met (GossipEngine.turn self) := by
  refine Keeps.rescue ⟨trivial,fun _ _ nodes _ => ?_⟩ (fun _ _ _ => trivial)
  refine (Keeps.forEach (fun r _ _ _ => meets_pingNode r)).bind (fun _ _ _ _ => ?_)
  refine ⟨trivial,fun _ _ _ _ => ⟨trivial,fun _ _ _ _ => ⟨trivial,fun _ _ peers _ => ?_⟩⟩⟩
  exact Keeps.forEach (fun r _ _ _ => meets_exchange r)

theorem meets_join (address : String) : Meets self met (Node.join L address) := by
  have hput : ∀ (u : PeerConnection → Prop) entry, Meets self u (Storage.putNode L entry) := by
    refine fun u entry => meets_of_silent (putNode_puts.mono_guard (fun q hq => ?_))
    rcases hq with rfl | ⟨row,_,rfl⟩ <;> trivial
  unfold Node.join Transport.connect
  split
  · trivial
  · refine ⟨trivial,fun u _ dialled hdialled => ?_⟩
    cases dialled with
    | error e => trivial
    | ok conn =>
      exact ⟨hdialled conn rfl,fun _ _ _ _ => ⟨trivial,fun _ _ _ _ => ⟨trivial,fun _ _ _ _ =>
        ⟨trivial,fun _ _ _ _ => hput _ _⟩⟩⟩⟩

theorem meets_incoming : Meets self met Transport.handleIncoming := by
  refine ⟨trivial,fun u _ accepted haccepted => ?_⟩
  cases accepted with
  | error e => trivial
  | ok conn => exact ⟨haccepted conn rfl,fun _ _ _ _ => ⟨trivial,fun _ _ _ _ => trivial⟩⟩

theorem meets_sendMessage (receiver : String) (plaintext : Bytes) (sender : Option String) :
    Meets self met (Node.sendMessage self receiver plaintext sender) := by
  unfold Node.sendMessage
  split
  · trivial
  · refine ⟨trivial,fun _ _ cell _ => ?_⟩
    cases cell with
    | none => trivial
    | some cell =>
      exact ⟨trivial,fun _ _ _ _ => (meets_ofExcept _).bind (fun _ _ _ _ =>
        (meets_ofExcept _).bind (fun _ _ _ _ => ⟨trivial,fun _ _ _ _ => meets_route _⟩))⟩

end

/-- The node's state, and the connections whose handshake it has completed. -/
structure Contacts where
  state : NodeState
  met : PeerConnection → Prop

/-- The connection that an answer hands over. -/
def Brings : (q : Req) → Ans q → PeerConnection → Prop
  | .dial _ _,a,conn => a = .ok conn
  | .accept,a,conn => a = .ok conn
  | _,_,_ => False

/-- The peer that is expected in the handshake of the request. -/
def expectation : Req → Option String
  | .dial expected _ => expected
  | _ => none

/-- The tasks of a node, the receive loops among them: each runs on a connection
that has been made. -/
inductive Runs (self : Node L) (met : PeerConnection → Prop) : NodeProg Unit → Prop where
  | receive (conn : PeerConnection) (incoming : Bool) (h : met conn) :
      Runs self met (Node.recvRound self conn incoming)
  | turn : Runs self met (GossipEngine.turn self)
  | join (address : String) : Runs self met (Node.join L address)
  | incoming : Runs self met Transport.handleIncoming
  | send (receiver : String) (plaintext : Bytes) (sender : Option String) :
      Runs self met (Node.sendMessage self receiver plaintext sender)
  | register (cellId : String) (signingPub encPub : Bytes) :
      Runs self met (Node.registerCellLocally self cellId signingPub encPub)

def rules (self : Node L) : Rules ι Req Ans Err Unit Contacts where
  answer := fun _ w q a w' => (∃ v, w.state.Answers q a v ∧
      w' = ⟨v,fun conn => w.met conn ∨ Brings q a conn⟩) ∧
    ∀ conn, Brings q a conn → Dialled self (expectation q) conn
  start := fun _ w p w' => Runs self w.met p ∧ w' = w
  drift := fun _ _ => False

/-- The registry is empty at first, and nobody has been met. -/
def initial (s : Storage) : Pool ι Req Ans Err Unit Contacts :=
  ⟨fun _ => .ret (),fun _ => [],fun _ => .ret (),⟨s,ConnectionRegistry.empty⟩,fun _ => False⟩

/-- Who is in the registry has been met, and who has been met has shown its key. -/
structure Acquainted (node : Node L) (w : Contacts) : Prop where
  registered : ∀ nodeId conn, w.state.connections.get nodeId = some conn → w.met conn
  dialled : ∀ conn, w.met conn → ∃ expected, Dialled node expected conn

theorem meets_runs {self : Node L} {met : PeerConnection → Prop} {p : NodeProg Unit}
    (h : Runs self met p) : Meets self met p := by
  cases h with
  | receive conn incoming h => exact meets_recvRound h incoming
  | turn => exact meets_turn
  | join address => exact meets_join address
  | incoming => exact meets_incoming
  | send receiver plaintext sender => exact meets_sendMessage receiver plaintext sender
  | register c sp ep => exact ⟨trivial,fun _ _ _ _ => ⟨trivial,fun _ _ _ _ => trivial⟩⟩

theorem registered_answers {w w' : NodeState} {q : Req} {a : Ans q} {met : PeerConnection → Prop}
    (h : w.Answers q a w') (hq : ∀ conn, q = .connAdd conn → met conn)
    (hw : ∀ nodeId conn, w.connections.get nodeId = some conn → met conn) :
    ∀ nodeId conn, w'.connections.get nodeId = some conn → met conn := by
  intro nodeId conn hg
  cases q with
  | store op =>
    obtain ⟨_,_,rfl⟩ := h
    exact hw nodeId conn hg
  | connGet k =>
    obtain ⟨_,rfl⟩ := h
    exact hw nodeId conn hg
  | connAdd c =>
    cases h
    simp only [ConnectionRegistry.get_add] at hg
    split at hg
    · rw [← Option.some.inj hg]
      exact hq c rfl
    · exact hw nodeId conn hg
  | connRemove k =>
    cases h
    simp only [ConnectionRegistry.get_remove] at hg
    split at hg
    · cases hg
    · exact hw nodeId conn hg
  | _ => cases h; exact hw nodeId conn hg

theorem rely_answers {self : Node L} {w w' : NodeState} {q : Req} {a : Ans q}
    {met later : PeerConnection → Prop} (h : w.Answers q a w') (hq : guard self met q)
    (hmet : ∀ conn, met conn ∨ Brings q a conn → later conn)
    (hw : ∀ nodeId conn, w.connections.get nodeId = some conn → met conn) :
    rely self later q a := by
  cases q with
  | connGet nodeId =>
    obtain ⟨rfl,_⟩ := h
    exact fun conn hg => hmet conn (.inl (hw nodeId conn hg))
  | dial expected address => exact fun conn ha => hmet conn (.inr ha)
  | accept => exact fun conn ha => hmet conn (.inr ha)
  | wsSend conn frame => exact ⟨hmet conn (.inl hq.1),hq.2⟩
  | _ => trivial

def discipline (self : Node L) :
    Discipline (PeerConnection → Prop) (rules (ι := ι) self) where
  inv := Acquainted self
  view := Contacts.met
  guard := fun _ => guard self
  rely := fun _ => rely self
  mono := by
    intro i v u q hvu hq
    cases q with
    | wsSend conn frame => exact ⟨hvu conn hq.1,hq.2⟩
    | connAdd conn => exact hvu conn hq
    | _ => trivial
  answer := by
    rintro i w q a w' ⟨⟨v,hans,rfl⟩,hnew⟩ hw hq
    refine ⟨rely_answers hans hq (fun _ h => h) hw.registered,⟨?_,?_⟩,fun conn => .inl⟩
    · refine registered_answers hans (fun conn he => ?_)
        (fun k conn hg => .inl (hw.registered k conn hg))
      subst he
      exact .inl hq
    · rintro conn (hconn | hconn)
      · exact hw.dialled conn hconn
      · exact ⟨_,hnew conn hconn⟩
  start := by
    rintro i w p w' ⟨hp,rfl⟩ hw
    exact ⟨meets_runs hp,hw,le_refl _⟩
  drift := fun _ _ h => h.elim

/-- What a frame that was sent is known to be. -/
theorem sent [DecidableEq ι] {self : Node L} {s : Storage} {P : Pool ι Req Ans Err Unit Contacts}
    (hP : Pool.Steps (rules self) (initial s) P) {i : ι} {conn : PeerConnection} {frame : Bytes}
    {a : Ans (.wsSend conn frame)} (h : (⟨.wsSend conn frame,a⟩ : Exchange Req Ans) ∈ P.history i) :
    P.world.met conn ∧ (∃ expected, Dialled self expected conn) ∧ Signed self frame := by
  have h0 : (discipline self).Holds (initial (ι := ι) s) :=
    ⟨⟨fun _ _ hg => by simp [initial] at hg,fun _ hm => hm.elim⟩,fun _ => trivial⟩
  obtain ⟨v,hv,hr⟩ := h0.relied_before (fun _ _ he => absurd he List.not_mem_nil) hP i _ h
  have hmet : P.world.met conn := hv conn hr.1
  exact ⟨hmet,(h0.steps hP).1.dialled conn hmet,hr.2⟩

/-- A peer that was dialled has shown the key that its id is made of, by signing the
nonce of the handshake. -/
theorem dialled_shows {self : Node L} {expected : Option String} {conn : PeerConnection}
    (h : Dialled self expected conn) : conn.peerNodeId = hex conn.peerSigningPubkey ∧
      ∃ (n : Nonce) (sig : Bytes), L.edValid conn.peerSigningPubkey sig n.bytes = true := by
  obtain ⟨ws,d,tr,hpath⟩ := h
  obtain ⟨p',hx,hret⟩ := transport_doAuth_path hpath
  obtain ⟨r,rfl,rfl⟩ := hret conn rfl
  obtain ⟨m,_,hcheck⟩ := exchange_returned hx
  obtain ⟨their,_,_,hverify⟩ := checkResponse_some hcheck
  obtain ⟨_,sig,_,_,_,_,_,hid,_,_,hvalid⟩ := verifyResponse_some hverify
  exact ⟨hid,d.nonce,sig,hvalid⟩

/-- After the handshakes the node speaks only to peers that have been authenticated:
every frame goes to a connection it has completed a handshake on. -/
theorem speaks_to_authenticated [DecidableEq ι] {self : Node L} {s : Storage}
    {P : Pool ι Req Ans Err Unit Contacts} (hP : Pool.Steps (rules self) (initial s) P) {i : ι}
    {conn : PeerConnection} {frame : Bytes} {a : Ans (.wsSend conn frame)}
    (h : (⟨.wsSend conn frame,a⟩ : Exchange Req Ans) ∈ P.history i) :
    P.world.met conn ∧ (∃ expected, Dialled self expected conn) ∧
      conn.peerNodeId = hex conn.peerSigningPubkey ∧
      ∃ (n : Nonce) (sig : Bytes), L.edValid conn.peerSigningPubkey sig n.bytes = true := by
  obtain ⟨hmet,⟨expected,hdial⟩,_⟩ := sent hP h
  exact ⟨hmet,⟨expected,hdial⟩,dialled_shows hdial⟩

theorem handleFrame_signed (hpack : L.PackLaws) (hsig : L.SigLaws) {self : Node L} {frame : Bytes}
    {pkt signed : Packet} (h : Transport.wireForm self pkt = .ok (signed,frame))
    {peer : PeerConnection} (hpeer : peer.peerSigningPubkey = self.identity.signing.pub)
    (onPacket : Packet → PeerConnection → NodeProg Unit) :
    Transport.handleFrame L onPacket peer frame =
      (onPacket signed peer).rescue (fun _ => .ret ()) := by
  obtain ⟨hs,hf⟩ := wireForm_ok h
  unfold Transport.handleFrame
  rw [unpack_pack_signed hpack hs hf,hpeer]
  simp only [Prog.ofExcept_ok,Prog.bind_eq,Prog.bind_ret,verifyPacket_signPacket hsig hs,if_true]
  rfl

theorem receive_signed (hpack : L.PackLaws) (hsig : L.SigLaws) {self : Node L} {frame : Bytes}
    {pkt signed : Packet} (h : Transport.wireForm self pkt = .ok (signed,frame))
    {client : CellClient L} (hclient : client.nodeSigningPubkey = self.identity.signing.pub) :
    client.receive frame = if signed.type.eqStr T.msg then
      (client.handleMsg signed).map (Option.map (fun p => (signed,p))) else .ok none := by
  obtain ⟨hs,hf⟩ := wireForm_ok h
  unfold CellClient.receive
  rw [unpack_pack_signed hpack hs hf,hclient]
  simp only [bind,Except.bind,verifyPacket_signPacket hsig hs,Bool.not_true,Bool.false_eq_true,
    if_false]
  split
  · cases client.handleMsg signed <;> rfl
  · rfl

/-- No frame of an honest node is refused by an honest receiver. Another node hands
the packet to its handler, and stays in its receive loop whatever the handler does;
a cell goes on to read a message, and passes over anything else. -/
theorem sent_is_taken [DecidableEq ι] (hpack : L.PackLaws) (hsig : L.SigLaws) {self : Node L}
    {s : Storage} {P : Pool ι Req Ans Err Unit Contacts}
    (hP : Pool.Steps (rules self) (initial s) P) {i : ι} {conn : PeerConnection} {frame : Bytes}
    {a : Ans (.wsSend conn frame)} (h : (⟨.wsSend conn frame,a⟩ : Exchange Req Ans) ∈ P.history i) :
    ∃ pkt, unpack L frame = .ok pkt ∧
      (∀ (peer : PeerConnection) (onPacket : Packet → PeerConnection → NodeProg Unit),
        peer.peerSigningPubkey = self.identity.signing.pub →
        Transport.handleFrame L onPacket peer frame =
          (onPacket pkt peer).rescue (fun _ => .ret ())) ∧
      ∀ client : CellClient L, client.nodeSigningPubkey = self.identity.signing.pub →
        client.receive frame = if pkt.type.eqStr T.msg then
          (client.handleMsg pkt).map (Option.map (fun p => (pkt,p))) else .ok none := by
  obtain ⟨_,_,pkt,signed,hwire⟩ := sent hP h
  exact ⟨signed,(unpack_wireForm hpack hwire).1,
    fun _ onPacket hpeer => handleFrame_signed hpack hsig hwire hpeer onPacket,
    fun _ hclient => receive_signed hpack hsig hwire hclient⟩

/-- Node 2 as node 1 knows it after their handshake. -/
def samplePeer : PeerConnection where
  ws := 0
  peerNodeId := (sampleIdentity shortSigLib 2).id
  peerSigningPubkey := (sampleIdentity shortSigLib 2).signing.pub
  peerEncPubkey := .bin (sampleIdentity shortSigLib 2).encryption.pub
  localNodeId := (sampleNode false).id

theorem dialled_samplePeer : Dialled (sampleNode false) none samplePeer := by
  have hp : shortSigLib.PackLaws := sampleLib_packLaws digest32
  obtain ⟨c,hc⟩ : ∃ c, challengeFrame shortSigLib (sampleIdentity shortSigLib 1).id none
    (sampleDraw 1) = .ok c := exists_ok (by decide +kernel)
  obtain ⟨c',hc'⟩ : ∃ c, challengeFrame shortSigLib (sampleIdentity shortSigLib 2).id none
    (sampleDraw 2) = .ok c := exists_ok (by decide +kernel)
  obtain ⟨f,hf⟩ := sampleAnswer 2 1 (by decide +kernel) hc'
  obtain ⟨f',hf'⟩ := sampleAnswer 1 2 (by decide +kernel) hc
  obtain ⟨_,hch,_⟩ := challenges_challengeFrame hp hc
  have hk := checkResponse_expected hp shortSigLib_sigLaws hf' hch
    (rfl : expects none (sampleIdentity shortSigLib 2).id = true)
  exact ⟨0,sampleDraw 1,_,transport_doAuth_completes 0 hc hf hk⟩

/-- Every handshake succeeds, with node 2 at the other end. -/
def sampleEnv : Env where
  now := fun _ => 100
  stamp := fun _ => ⟨"",0⟩
  wsSend := fun _ _ _ => .ok ()
  dial := fun _ expected _ => if expected = none then .ok samplePeer else .error .connectionClosed
  onMessage := fun _ _ => .ok ()

/-- A task alone, with the connections it has been handed. -/
def watched : Handler Req Ans (World × (PeerConnection → Prop)) := fun q s =>
  let r := sampleEnv.handler q s.1
  (r.1,r.2,fun conn => s.2 conn ∨ Brings q r.1 conn)

def contacts (s : World × (PeerConnection → Prop)) : Contacts := ⟨s.1.state,s.2⟩

theorem answer_watched (i : ι) (q : Req) (s : World × (PeerConnection → Prop)) :
    (rules (sampleNode false)).answer i (contacts s) q (watched q s).1
      (contacts (watched q s).2) := by
  refine ⟨⟨_,NodeState.answers_handler sampleEnv q s.1,rfl⟩,fun conn hb => ?_⟩
  cases q with
  | dial expected address =>
    by_cases he : expected = none
    · have ha : (watched (.dial expected address) s).1 = .ok samplePeer := by
        simp [watched,sampleEnv,Env.handler,he]
      rw [Brings,ha] at hb
      rw [← Except.ok.inj hb,he]
      exact dialled_samplePeer
    · have ha : (watched (.dial expected address) s).1 = .error .connectionClosed := by
        simp [watched,sampleEnv,Env.handler,he]
      rw [Brings,ha] at hb
      cases hb
  | accept => cases hb
  | _ => exact hb.elim

/-- A task that runs alone on a node where nobody else is at work. -/
theorem exists_watched {P : Pool Unit Req Ans Err Unit Contacts} {p : NodeProg Unit}
    {s : World × (PeerConnection → Prop)} (hd : (P.tasks ()).Done)
    (hs : P.world = contacts s) (hp : Runs (sampleNode false) s.2 p) :
    ∃ P', Pool.Steps (rules (sampleNode false)) P P' ∧ (P'.tasks ()).Done ∧
      P'.history () = (run watched p s).trace ∧
      P'.world = contacts (run watched p s).final := by
  obtain ⟨P',hP,_,hh,ht,hw⟩ := Pool.exists_run_of_start (R := rules (sampleNode false)) hd
    ⟨by rw [hs]; exact hp,hs.symm⟩ (run_path watched p s)
    (Rules.allows_run watched contacts (fun _ _ => true)
      (fun q s _ => answer_watched () q s) p s (Handler.passes_true _ _ _))
  refine ⟨P',hP,?_,by simp [hh],hw⟩
  simp only [ht,Function.update_self]
  exact Prog.done_ofExcept _

/-- The node joins by way of node 2, and pings it in its next turn. -/
theorem exists_joined : ∃ P : Pool Unit Req Ans Err Unit Contacts,
    Pool.Steps (rules (sampleNode false)) (initial .empty) P ∧
      (P.history ()).any isSend = true := by
  obtain ⟨P1,h1,hd1,_,hw1⟩ := exists_watched (P := initial .empty)
    (s := (⟨⟨.empty,ConnectionRegistry.empty⟩,0⟩,fun _ => False)) trivial rfl (.join "h:1")
  obtain ⟨P2,h2,_,hh2,_⟩ := exists_watched hd1 hw1 .turn
  exact ⟨P2,h1.trans h2,by rw [hh2]; decide +kernel⟩

theorem speaks_to_authenticated_sample : ∃ (P : Pool Unit Req Ans Err Unit Contacts)
    (conn : PeerConnection) (frame : Bytes) (a : Ans (.wsSend conn frame)),
    (⟨.wsSend conn frame,a⟩ : Exchange Req Ans) ∈ P.history () ∧ P.world.met conn ∧
      (∃ expected, Dialled (sampleNode false) expected conn) ∧
      conn.peerNodeId = hex conn.peerSigningPubkey ∧
      ∃ (n : Nonce) (sig : Bytes), shortSigLib.edValid conn.peerSigningPubkey sig n.bytes = true := by
  obtain ⟨P,hP,hsend⟩ := exists_joined
  obtain ⟨conn,frame,a,h⟩ := exists_isSend hsend
  exact ⟨P,conn,frame,a,h,speaks_to_authenticated hP h⟩

theorem sent_is_taken_sample : ∃ (frame : Bytes) (pkt : Packet),
    unpack shortSigLib frame = .ok pkt ∧
      (∀ (peer : PeerConnection) (onPacket : Packet → PeerConnection → NodeProg Unit),
        peer.peerSigningPubkey = (sampleIdentity shortSigLib 1).signing.pub →
        Transport.handleFrame shortSigLib onPacket peer frame =
          (onPacket pkt peer).rescue (fun _ => .ret ())) ∧
      ∀ client : CellClient shortSigLib,
        client.nodeSigningPubkey = (sampleIdentity shortSigLib 1).signing.pub →
        client.receive frame = if pkt.type.eqStr T.msg then
          (client.handleMsg pkt).map (Option.map (fun p => (pkt,p))) else .ok none := by
  obtain ⟨P,hP,hsend⟩ := exists_joined
  obtain ⟨conn,frame,a,h⟩ := exists_isSend hsend
  exact ⟨frame,sent_is_taken (sampleLib_packLaws digest32) shortSigLib_sigLaws hP h⟩

end Outgoing

end Nevod
