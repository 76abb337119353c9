import Nevod.Node
import Nevod.Lib.Tasks

/-!
The connections of one node over time: they are made by dialling and by incoming
handshakes, their sockets close, their receive loops end and sends on them fail,
in any order.
-/

set_option autoImplicit false

namespace Nevod
open Text Resume Keyed

variable {L : Lib}

inductive Socket where
  | unused
  | opened
  | closed
  deriving DecidableEq

/-- The tasks of a node: the receive loop of each connection, and the others. -/
inductive Slot where
  | loop (ws : Nat)
  | other (n : Nat)
  deriving DecidableEq

/-- A node with its sockets. `serving` are the connections that have been added
and whose receive loop has not ended: nothing else runs between `connections.add`
and the start of the loop. `loops` are the loops that have been started, with
what `startRecv` said about them. -/
structure Hub where
  state : NodeState
  socket : Nat → Socket
  serving : Nat → Option PeerConnection
  loops : Nat → Option (PeerConnection × Bool)

namespace Hub

/-- The new connection of a completed handshake. -/
def Opens (w : Hub) (conn : PeerConnection) (w' : Hub) : Prop :=
  w.socket conn.ws = .unused ∧ w.serving conn.ws = none ∧
    w' = { w with socket := Function.update w.socket conn.ws .opened }

def Answers (w : Hub) : (q : Req) → Ans q → Hub → Prop
  | .store op,a,w' => ∃ now, a = (w.state.storage.exec now op).1 ∧
      w' = { w with state := { w.state with storage := (w.state.storage.exec now op).2 } }
  | .connGet nodeId,a,w' => a = w.state.connections.get nodeId ∧ w' = w
  | .connAdd conn,_,w' =>
    w' = { w with state := { w.state with connections := w.state.connections.add conn },
                  serving := Function.update w.serving conn.ws (some conn) }
  | .connRemove nodeId,_,w' =>
    w' = { w with state := { w.state with connections := w.state.connections.remove nodeId } }
  | .wsSend conn _,a,w' =>
    a = (if w.socket conn.ws = .opened then .ok () else .error .connectionClosed) ∧ w' = w
  | .wsRecv conn,a,w' => (a = none → w.socket conn.ws ≠ .opened) ∧ w' = w
  | .dial expected _,a,w' =>
    match a with
    | .error _ => w' = w
    | .ok conn => w.Opens conn w' ∧ expects expected conn.peerNodeId = true
  | .accept,a,w' =>
    match a with
    | .error _ => w' = w
    | .ok conn => w.Opens conn w'
  | .startRecv conn incoming,_,w' =>
    w' = { w with loops := Function.update w.loops conn.ws (some (conn,incoming)) }
  | .endRecv conn,_,w' =>
    w' = { w with serving := Function.update w.serving conn.ws none,
                  loops := Function.update w.loops conn.ws none }
  | .onMessage _,_,w' => w' = w
  | .stamp,_,w' => w' = w
  | .time,_,w' => w' = w
  | .sample _ _,_,w' => w' = w
  | .sealRandom,_,w' => w' = w

/-- What a slot may run next: a round of its own receive loop, or anything else
a node does. -/
def Starts (self : Node L) (w : Hub) : Slot → NodeProg Unit → Prop
  | .loop ws,p => ∃ conn incoming, w.loops ws = some (conn,incoming) ∧
      p = Node.recvRound self conn incoming
  | .other _,p => p = Transport.handleIncoming ∨ p = GossipEngine.turn self ∨
      (∃ address, p = (Transport.connect address).bind (fun _ => .ret ())) ∨
      (∃ nodeId address, p = (Transport.connectToNode L nodeId address).bind (fun _ => .ret ())) ∨
      (∃ nodeId pkt, p = (Transport.sendTo self nodeId pkt).bind (fun _ => .ret ())) ∨
      (∃ address, p = Node.join L address) ∨
      (∃ receiver plaintext sender, p = Node.sendMessage self receiver plaintext sender) ∨
      ∃ cellId sp ep, p = Node.registerCellLocally self cellId sp ep

/-- A socket closes. -/
def Closes (w w' : Hub) : Prop :=
  ∃ ws, w.socket ws = .opened ∧ w' = { w with socket := Function.update w.socket ws .closed }

def rules (self : Node L) : Rules Slot Req Ans Err Unit Hub where
  answer := fun _ w q a w' => w.Answers q a w'
  start := fun i w p w' => Starts self w i p ∧ w' = w
  drift := Closes

def initial (storage : Storage) : Pool Slot Req Ans Err Unit Hub :=
  ⟨fun _ => .ret (),fun _ => [],fun _ => .ret (),
    ⟨⟨storage,ConnectionRegistry.empty⟩,fun _ => .unused,fun _ => none,fun _ => none⟩⟩

/-- A connection to `peer` is open and served by its receive loop. -/
def Live (w : Hub) (peer : String) : Prop :=
  ∃ ws conn, w.serving ws = some conn ∧ w.socket ws = .opened ∧ conn.peerNodeId = peer

/-- The registry finds an open connection to every peer that has one. -/
def Tracks (w : Hub) : Prop :=
  ∀ peer, w.Live peer → ∃ conn, w.state.connections.get peer = some conn ∧
    conn.peerNodeId = peer ∧ w.socket conn.ws = .opened

/-- Steps that are made only when no live connection to the peer is left: an
entry is removed, or replaced by a connection that has closed already. -/
def MayAsk (w : Hub) : Req → Prop
  | .connRemove nodeId => ¬ w.Live nodeId
  | .connAdd conn => w.socket conn.ws = .opened ∨ ¬ w.Live conn.peerNodeId
  | _ => True

/-- The socket behind an entry closes only when no other connection to that peer
is live. -/
def MayClose (w w' : Hub) : Prop :=
  ∀ peer conn, w.state.connections.get peer = some conn → w.socket conn.ws = .opened →
    w'.socket conn.ws = .closed →
    ∀ ws other, ws ≠ conn.ws → w.serving ws = some other → w.socket ws = .opened →
      other.peerNodeId ≠ peer

theorem tracks_connRemove {w : Hub} (hw : w.Tracks) (nodeId : String) :
    Tracks { w with state := { w.state with connections := w.state.connections.remove nodeId } } ↔
      ¬ w.Live nodeId := by
  constructor
  · intro h hl
    obtain ⟨conn,hc,_⟩ := h nodeId hl
    simp [ConnectionRegistry.get_remove] at hc
  · intro h peer hl
    have hne : peer ≠ nodeId := by
      rintro rfl
      exact h hl
    obtain ⟨conn,hc,hp,ho⟩ := hw peer hl
    exact ⟨conn,by simpa [ConnectionRegistry.get_remove,hne] using hc,hp,ho⟩

theorem tracks_connAdd {w : Hub} (hw : w.Tracks) (conn : PeerConnection) :
    Tracks { w with state := { w.state with connections := w.state.connections.add conn },
                    serving := Function.update w.serving conn.ws (some conn) } ↔
      w.socket conn.ws = .opened ∨ ¬ w.Live conn.peerNodeId := by
  constructor
  · intro h
    by_cases ho : w.socket conn.ws = .opened
    · exact .inl ho
    · refine .inr ?_
      rintro ⟨ws,c,hs,hopen,hp⟩
      have hne : ws ≠ conn.ws := by
        rintro rfl
        exact ho hopen
      obtain ⟨c',hc',_,hopen'⟩ := h conn.peerNodeId ⟨ws,c,by simpa [hne] using hs,hopen,hp⟩
      simp only [ConnectionRegistry.get_add,if_true,Option.some.injEq] at hc'
      subst hc'
      exact ho hopen'
  · rintro h peer ⟨ws,c,hs,hopen,rfl⟩
    simp only [ConnectionRegistry.get_add]
    by_cases hws : ws = conn.ws
    · subst hws
      simp only [Function.update_self,Option.some.injEq] at hs
      subst hs
      exact ⟨conn,by simp,rfl,hopen⟩
    · have hl : w.Live c.peerNodeId := ⟨ws,c,by simpa [hws] using hs,hopen,rfl⟩
      by_cases hp : c.peerNodeId = conn.peerNodeId
      · rw [hp] at hl
        exact ⟨conn,by simp [hp],hp.symm,h.resolve_right (fun hn => hn hl)⟩
      · simpa [hp] using hw _ hl

theorem tracks_opens {w w' : Hub} {conn : PeerConnection} (hw : w.Tracks)
    (h : w.Opens conn w') : w'.Tracks := by
  obtain ⟨hunused,hnone,rfl⟩ := h
  rintro peer ⟨ws,c,hs,hopen,hp⟩
  have hne : ws ≠ conn.ws := by
    rintro rfl
    rw [hnone] at hs
    contradiction
  obtain ⟨c',hc',hp',ho'⟩ := hw peer ⟨ws,c,hs,by simpa [hne] using hopen,hp⟩
  refine ⟨c',hc',hp',?_⟩
  by_cases he : c'.ws = conn.ws
  · simp [he]
  · simpa [he] using ho'

theorem tracks_endRecv {w : Hub} (hw : w.Tracks) (ws : Nat)
    (loops : Nat → Option (PeerConnection × Bool)) :
    Tracks { w with serving := Function.update w.serving ws none, loops := loops } := by
  rintro peer ⟨ws',c,hs,hopen,hp⟩
  by_cases he : ws' = ws
  · simp [he] at hs
  · exact hw peer ⟨ws',c,by simpa [he] using hs,hopen,hp⟩

theorem tracks_closes {w w' : Hub} (hw : w.Tracks) (h : w.Closes w') :
    w'.Tracks ↔ w.MayClose w' := by
  obtain ⟨ws0,_,rfl⟩ := h
  constructor
  · intro h peer conn hc ho hclosed ws other hne hs hopen hp
    have hws : conn.ws = ws0 := by
      by_contra hn
      simp [hn,ho] at hclosed
    have hlive : ({ w with socket := Function.update w.socket ws0 .closed } : Hub).Live peer :=
      ⟨ws,other,hs,by simpa [show ws ≠ ws0 from hws ▸ hne] using hopen,hp⟩
    obtain ⟨c',hc',_,ho'⟩ := h peer hlive
    have he : conn = c' := by
      have hcc : w.state.connections.get peer = some c' := hc'
      rw [hc] at hcc
      exact Option.some.inj hcc
    subst he
    simp [hws] at ho'
  · rintro h peer ⟨ws,c,hs,hopen,hp⟩
    have hne : ws ≠ ws0 := by
      rintro rfl
      simp at hopen
    have hopen0 : w.socket ws = .opened := by simpa [hne] using hopen
    obtain ⟨c',hc',hp',ho'⟩ := hw peer ⟨ws,c,hs,hopen0,hp⟩
    refine ⟨c',hc',hp',?_⟩
    by_cases he : c'.ws = ws0
    · exact absurd hp (h peer c' hc' ho' (by simp [he]) ws c (he ▸ hne) hs hopen0)
    · simpa [he] using ho'

theorem tracks_answers {w w' : Hub} {q : Req} {a : Ans q} (hw : w.Tracks)
    (h : w.Answers q a w') : w'.Tracks ↔ w.MayAsk q := by
  cases q with
  | connRemove nodeId =>
    cases h
    exact tracks_connRemove hw nodeId
  | connAdd conn =>
    cases h
    exact tracks_connAdd hw conn
  | store op =>
    obtain ⟨now,_,rfl⟩ := h
    exact iff_of_true hw trivial
  | connGet nodeId => exact iff_of_true (h.2 ▸ hw) trivial
  | wsSend conn frame => exact iff_of_true (h.2 ▸ hw) trivial
  | wsRecv conn => exact iff_of_true (h.2 ▸ hw) trivial
  | dial expected address =>
    cases a with
    | error e =>
      cases h
      exact iff_of_true hw trivial
    | ok conn => exact iff_of_true (tracks_opens hw h.1) trivial
  | accept =>
    cases a with
    | error e =>
      cases h
      exact iff_of_true hw trivial
    | ok conn => exact iff_of_true (tracks_opens hw h) trivial
  | endRecv conn =>
    cases h
    exact iff_of_true (tracks_endRecv hw conn.ws _) trivial
  | startRecv conn incoming =>
    cases h
    exact iff_of_true hw trivial
  | onMessage pkt => cases h; exact iff_of_true hw trivial
  | stamp => cases h; exact iff_of_true hw trivial
  | time => cases h; exact iff_of_true hw trivial
  | sample n k => cases h; exact iff_of_true hw trivial
  | sealRandom => cases h; exact iff_of_true hw trivial

theorem tracks_initial (storage : Storage) : (initial storage).world.Tracks := by
  rintro peer ⟨ws,conn,hs,_⟩
  simp [initial] at hs

/-- A run goes through tracking states only exactly if no entry is removed or
replaced by a closed connection, and no socket behind an entry closes, while
another connection to the same peer is live. -/
theorem registry_tracks_iff (self : Node L) (storage : Storage)
    (P : Pool Slot Req Ans Err Unit Hub) :
    Pool.Steps ((rules self).restrict MayAsk MayClose) (initial storage) P ↔
      Relation.ReflTransGen (fun P1 P2 => Pool.Step (rules self) P1 P2 ∧ P2.world.Tracks)
        (initial storage) P :=
  Pool.steps_restrict_iff (fun _ _ _ _ _ hw h => tracks_answers hw h)
    (fun _ _ _ _ hw h => h.2 ▸ hw) (fun _ _ hw h => tracks_closes hw h)
    (tracks_initial storage)

def incomingTrace (conn : PeerConnection) : List (Exchange Req Ans) :=
  [⟨.accept,.ok conn⟩,⟨.connAdd conn,()⟩,⟨.startRecv conn true,()⟩]

/-- After an incoming handshake. -/
def joined (w : Hub) (conn : PeerConnection) : Hub where
  state := { w.state with connections := w.state.connections.add conn }
  socket := Function.update w.socket conn.ws .opened
  serving := Function.update w.serving conn.ws (some conn)
  loops := Function.update w.loops conn.ws (some (conn,true))

theorem incoming_steps (self : Node L) (conn : PeerConnection)
    {P : Pool Slot Req Ans Err Unit Hub} {n : Nat} (hd : (P.tasks (.other n)).Done)
    (hs : P.world.socket conn.ws = .unused) (hn : P.world.serving conn.ws = none) :
    ∃ P', Pool.Steps (rules self) P P' ∧
      P'.tasks = Function.update P.tasks (.other n) (.ret ()) ∧
      P'.world = P.world.joined conn := by
  have hp : Path Transport.handleIncoming (incomingTrace conn) (.ret ()) := by
    unfold Transport.handleIncoming incomingTrace
    exact .step _ _ _ (.step _ _ _ (.step _ _ _ (.here _)))
  exact Pool.exists_steps_of_start (R := rules self) hd ⟨.inl rfl,rfl⟩ hp
    (.cons ⟨hs,hn,rfl⟩ (.cons rfl (.cons rfl (.nil _))))

/-- A receive loop finds its socket closed, and is over. -/
def closedTrace (conn : PeerConnection) : List (Exchange Req Ans) :=
  [⟨.wsRecv conn,none⟩,⟨.endRecv conn,()⟩,⟨.connRemove conn.peerNodeId,()⟩]

/-- After the end of a receive loop. -/
def left (w : Hub) (conn : PeerConnection) : Hub where
  state := { w.state with connections := w.state.connections.remove conn.peerNodeId }
  socket := w.socket
  serving := Function.update w.serving conn.ws none
  loops := Function.update w.loops conn.ws none

theorem closed_steps (self : Node L) (conn : PeerConnection)
    {P : Pool Slot Req Ans Err Unit Hub} (hd : (P.tasks (.loop conn.ws)).Done)
    (hl : P.world.loops conn.ws = some (conn,true)) (hs : P.world.socket conn.ws ≠ .opened) :
    ∃ P', Pool.Steps (rules self) P P' ∧ P'.world = P.world.left conn := by
  have hp : Path (Node.recvRound self conn true) (closedTrace conn)
      (NodeProg.connRemove conn.peerNodeId) := by
    unfold Node.recvRound Transport.recvRound closedTrace
    exact .step _ _ _ (.step _ _ _ (.step _ _ _ (.here _)))
  obtain ⟨P',h,_,hw⟩ := Pool.exists_steps_of_start (R := rules self) hd
    ⟨⟨conn,true,hl,rfl⟩,rfl⟩ hp
    (.cons ⟨fun _ => hs,rfl⟩ (.cons rfl (.cons rfl (.nil _))))
  exact ⟨P',h,hw⟩

/-- Peer "p" connects twice, then its first connection ends: the entry of the
second one is gone. -/
theorem older_end_unregisters_newer :
    ∃ P, Pool.Steps (rules (sampleNode false)) (initial Storage.empty) P ∧
      P.world.Live "p" ∧ P.world.state.connections.get "p" = none := by
  obtain ⟨P1,h1,t1,w1⟩ := incoming_steps (sampleNode false) ⟨1,"p",[],.none,"n"⟩
    (P := initial Storage.empty) (n := 0) trivial rfl rfl
  obtain ⟨P2,h2,t2,w2⟩ := incoming_steps (sampleNode false) ⟨2,"p",[],.none,"n"⟩
    (P := P1) (n := 0) (by simp [t1,Prog.Done]) (by simp [w1,joined]; rfl)
    (by simp [w1,joined]; rfl)
  let w3 : Hub := { P2.world with socket := Function.update P2.world.socket 1 .closed }
  have h3 : Pool.Step (rules (sampleNode false)) P2 ⟨P2.launched,P2.history,P2.tasks,w3⟩ :=
    .drift w3 ⟨1,by simp [w2,w1,joined],rfl⟩
  obtain ⟨P4,h4,w4⟩ := closed_steps (sampleNode false) ⟨1,"p",[],.none,"n"⟩
    (P := ⟨P2.launched,P2.history,P2.tasks,w3⟩) (by simp [t2,t1,initial,Prog.Done])
    (by simp [w3,w2,w1,joined]) (by simp [w3])
  refine ⟨P4,(h1.trans h2).trans (.head h3 h4),?_,?_⟩
  · rw [w4]
    exact ⟨2,⟨2,"p",[],.none,"n"⟩,by simp [left,w3,w2,joined],by simp [left,w3,w2,joined],rfl⟩
  · rw [w4]
    simp [left,ConnectionRegistry.get_remove]

end Hub

end Nevod
