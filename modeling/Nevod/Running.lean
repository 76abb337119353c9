import Nevod.NodeHistory
import Nevod.Registration

/-!
One node with all its tasks: packets are handled, the gossip loop turns, the node
joins and registers cells, in any interleaving. What a task may enter into
`node_table` depends on what it is about.
-/

set_option autoImplicit false

namespace Nevod
open Text Resume Keyed

variable {L : Lib} {ι : Type}

namespace Running

/-- What a running node has in its tasks. The receive loops appear as the packets
they hand to the dispatcher, and as their ends. -/
inductive Runs (self : Node L) : NodeProg Unit → Prop where
  | packet (pkt : Packet) (conn : PeerConnection) : Runs self (Node.dispatch self pkt conn)
  | turn : Runs self (GossipEngine.turn self)
  | join (address : String) : Runs self (Node.join L address)
  | incoming : Runs self Transport.handleIncoming
  | finish (conn : PeerConnection) (incoming : Bool) :
      Runs self (Transport.finishRecv conn incoming)
  | send (receiver : String) (plaintext : Bytes) (sender : Option String) :
      Runs self (Node.sendMessage self receiver plaintext sender)
  | register (cellId : String) (signingPub encPub : Bytes) :
      Runs self (Node.registerCellLocally self cellId signingPub encPub)

def rules (self : Node L) : Rules ι Req Ans Err Unit NodeState where
  answer := fun _ w q a w' => w.Answers q a w'
  start := fun _ w p w' => Runs self p ∧ w' = w
  drift := fun _ _ => False

def initial (w : NodeState) : Pool ι Req Ans Err Unit NodeState :=
  ⟨fun _ => .ret (),fun _ => [],fun _ => .ret (),w⟩

theorem launched_runs [DecidableEq ι] {self : Node L} {w : NodeState}
    {P : Pool ι Req Ans Err Unit NodeState} (hP : Pool.Steps (rules self) (initial w) P) (i : ι)
    (hi : ¬ (P.tasks i).Done) : Runs self (P.launched i) :=
  Pool.launched_of_steps (P := initial w) (R := rules self) (S := fun _ p => Runs self p)
    (fun _ _ _ _ h => h.1) (fun _ h => (h trivial).elim) hP i hi

/-- Nothing is written to `node_table`. -/
def LeavesNodes : Req → Prop
  | .store (.upsertNode _) | .store (.updateNodePing _ _) | .store (.removeNode _)
  | .store .cleanupExpiredNodes => False
  | _ => True

/-- The row of a node is entered by a join that connected to it, and that is all
that is written. -/
def EntersPeer (past : List (Exchange Req Ans)) : Req → Prop
  | .store (.upsertNode row) => ∃ a conn,
      (⟨.dial none a,.ok conn⟩ : Exchange Req Ans) ∈ past ∧ row.nodeId = .text conn.peerNodeId
  | q => LeavesNodes q

theorem entersPeer_join (address : String) :
    Heeds EntersPeer (fun _ _ => True) (fun _ _ => True) [] (Node.join L address) := by
  have hput : ∀ (past : List (Exchange Req Ans)) (a : String) (conn : PeerConnection)
      (entry : NodeEntry), (⟨.dial none a,.ok conn⟩ : Exchange Req Ans) ∈ past →
      entry.nodeId = .str conn.peerNodeId →
      Heeds EntersPeer (fun _ _ => True) (fun _ _ => True) past (Storage.putNode L entry) := by
    intro past a conn entry hmem hid
    refine (putNode_puts.heeds_after.mono_guard (fun later q hq => ?_)).mono (fun _ _ _ => trivial)
    rcases hq with ⟨hpast,rfl | ⟨row,hb,rfl⟩⟩
    · trivial
    · have hkey := hb.nodeId
      rw [hid] at hkey
      simp only [SqlText.ofVal,Except.ok.injEq,Option.some.injEq] at hkey
      exact ⟨a,conn,hpast hmem,hkey.symm⟩
  unfold Node.join Transport.connect
  split
  · trivial
  · refine ⟨trivial,fun conn _ => ?_⟩
    cases conn with
    | error e => trivial
    | ok conn =>
      refine ⟨trivial,fun _ _ => ⟨trivial,fun _ _ => ⟨trivial,fun _ _ => ⟨trivial,fun _ _ => ?_⟩⟩⟩⟩
      exact hput _ address conn _ (by simp) rfl

theorem leavesNodes_sendMessage {self : Node L} (receiver : String) (plaintext : Bytes)
    (sender : Option String) : Obeys LeavesNodes (fun _ _ => True) (fun _ => True)
      (Node.sendMessage self receiver plaintext sender) := by
  have hroute : ∀ pkt, Obeys LeavesNodes (fun _ _ => True) (fun _ => True)
      (Router.route self pkt) := by
    refine fun pkt => (Router.route_allowed pkt).mono_guard (fun q hq => ?_)
    cases q with
    | store op => cases op <;> first | trivial | exact hq.elim id id
    | _ => trivial
  unfold Node.sendMessage
  split
  · trivial
  · refine ⟨trivial,fun cell _ => ?_⟩
    cases cell with
    | none => trivial
    | some cell =>
      refine ⟨trivial,fun _ _ => (obeys_ofExcept _).bind (fun _ _ =>
        (obeys_ofExcept _).bind (fun _ _ => ?_))⟩
      exact ⟨trivial,fun _ _ => hroute _⟩

/-- Besides packets, joins and the gossip loop nothing writes to `node_table`. -/
theorem leavesNodes_runs {self : Node L} {p : NodeProg Unit} (h : Runs self p) :
    (∃ pkt conn, p = Node.dispatch self pkt conn) ∨ (∃ address, p = Node.join L address) ∨
      p = GossipEngine.turn self ∨ Obeys LeavesNodes (fun _ _ => True) (fun _ => True) p := by
  cases h with
  | packet pkt conn => exact .inl ⟨pkt,conn,rfl⟩
  | join address => exact .inr (.inl ⟨address,rfl⟩)
  | turn => exact .inr (.inr (.inl rfl))
  | incoming =>
    refine .inr (.inr (.inr ⟨trivial,fun accepted _ => ?_⟩))
    cases accepted with
    | error e => trivial
    | ok conn => exact ⟨trivial,fun _ _ => ⟨trivial,fun _ _ => trivial⟩⟩
  | finish conn incoming =>
    refine .inr (.inr (.inr ⟨trivial,fun _ _ => ⟨trivial,fun _ _ => ?_⟩⟩))
    cases incoming with
    | true => exact ⟨trivial,fun _ _ => trivial⟩
    | false => trivial
  | send receiver plaintext sender =>
    exact .inr (.inr (.inr (leavesNodes_sendMessage receiver plaintext sender)))
  | register cellId signingPub encPub =>
    exact .inr (.inr (.inr ⟨trivial,fun _ _ => ⟨trivial,fun _ _ => trivial⟩⟩))

/-- A handler in progress at this moment. -/
def Handling (self : Node L) (P : Pool ι Req Ans Err Unit NodeState) (i : ι) (pkt : Packet)
    (conn : PeerConnection) : Prop :=
  ¬ (P.tasks i).Done ∧ P.launched i = Node.dispatch self pkt conn

/-- No GOSSIP packet in hand lists the node `k`. -/
def Unlisted (self : Node L) (k : SqlText) (P : Pool ι Req Ans Err Unit NodeState) : Prop :=
  ∀ i pkt conn, Handling self P i pkt conn → pkt.type = .str T.gossip →
    ∀ row, Learns L pkt row → row.nodeId ≠ k

/-- A join in progress has connected to the node `k`. -/
def Joining (L : Lib) (k : SqlText) (P : Pool ι Req Ans Err Unit NodeState) : Prop :=
  ∃ i address a conn, P.launched i = Node.join L address ∧
    (⟨.dial none a,.ok conn⟩ : Exchange Req Ans) ∈ P.history i ∧ k = .text conn.peerNodeId

theorem absent_answers {w w' : NodeState} {q : Req} {a : Ans q} {k : SqlText}
    (h : w.Answers q a w') (hq : ∀ row, q = .store (.upsertNode row) → row.nodeId ≠ k)
    (habs : w.storage.nodeTable.find k = none) : w'.storage.nodeTable.find k = none := by
  cases q with
  | store op =>
    obtain ⟨now,_,rfl⟩ := h
    cases op with
    | upsertNode row =>
      have hne : k ≠ row.nodeId := fun he => hq row rfl he.symm
      simp [Storage.exec,Storage.upsertNode,Table.find_upsert,hne,habs]
    | updateNodePing j success =>
      simp only [Storage.exec,Storage.updateNodePing]
      cases success with
      | true => simp [Table.find_modify,habs]
      | false =>
        have hm := Table.find_modify w.storage.nodeTable j k Storage.missPing (fun _ => rfl)
        simpa [habs] using hm
    | removeNode j => simp [Storage.exec,Storage.removeNode,Table.find_delete,habs]
    | cleanupExpiredNodes =>
      simp only [Storage.exec,Storage.cleanupExpiredNodes]
      rw [Table.find_eq_none] at habs ⊢
      exact fun r hr => habs r ((Table.mem_deleteWhere _ _ r).mp hr).1
    | _ => exact habs
  | connGet nodeId =>
    obtain ⟨_,rfl⟩ := h
    exact habs
  | _ => cases h; exact habs

variable [DecidableEq ι]

/-- A node is entered for a GOSSIP packet that lists it, or by a join that has
connected to it. -/
theorem upsertNode_cause {self : Node L} {w : NodeState} {row : NodeRow}
    {P : Pool ι Req Ans Err Unit NodeState} (hP : Pool.Steps (rules self) (initial w) P) {i : ι}
    {c : Ans (.store (.upsertNode row)) → NodeProg Unit}
    (ht : P.tasks i = .ask (.store (.upsertNode row)) c) :
    ¬ Unlisted self row.nodeId P ∨ Joining L row.nodeId P := by
  have hi : ¬ (P.tasks i).Done := by simp [ht,Prog.Done]
  have hpath := Pool.OnPath.waits (P := initial w) (fun _ => .here _) hP ht
  rcases leavesNodes_runs (launched_runs hP i hi) with ⟨pkt,conn,hl⟩ | ⟨address,hl⟩ | hl | hnone
  · rw [hl] at hpath
    have hd : Within self (fun _ => True) pkt conn (Node.dispatch self pkt conn) :=
      within_dispatch
    obtain ⟨hty,hlearn⟩ := hd.waits hpath (fun e _ => Registration.readsWaiting_all e.1 e.2)
    exact .inl (fun hq => hq i pkt conn ⟨hi,hl⟩ hty row hlearn rfl)
  · rw [hl] at hpath
    obtain ⟨d,conn,hmem,hid⟩ := (entersPeer_join address).waits hpath (fun _ _ => trivial)
    exact .inr ⟨i,address,d,conn,hl,hmem,hid⟩
  · rw [hl] at hpath
    exact (NodeHistory.entersNone_turn.waits hpath (fun _ _ => trivial) row rfl).elim
  · exact (hnone.waits hpath (fun _ _ => trivial)).elim

/-- A step that brings a node back while no GOSSIP packet in hand lists it is the
step of a join that has connected to it. -/
theorem joining_of_back {self : Node L} {w : NodeState} {k : SqlText}
    {P P' : Pool ι Req Ans Err Unit NodeState} (hP : Pool.Steps (rules self) (initial w) P)
    (hs : Pool.Step (rules self) P P') (hq : Unlisted self k P)
    (habs : P.world.storage.nodeTable.find k = none)
    (hback : P'.world.storage.nodeTable.find k ≠ none) : Joining L k P := by
  cases hs with
  | start i p w' _ h =>
    obtain ⟨_,rfl⟩ := h
    exact (hback habs).elim
  | drift w' h => exact h.elim
  | answer i q c a w' ht h =>
    have h : P.world.Answers q a w' := h
    have hrow : ∃ row, q = .store (.upsertNode row) ∧ row.nodeId = k := by
      by_contra hn
      exact hback (absent_answers h (fun row he hk => hn ⟨row,he,hk⟩) habs)
    obtain ⟨row,rfl,rfl⟩ := hrow
    exact (upsertNode_cause hP ht).resolve_left (fun hn => hn hq)

/-- What another node says in a packet it signed. -/
def samplePeerPacket (type : String) (payload : Bytes) : Packet :=
  let pkt : Packet :=
    { type := .str type, payload := .bin payload, id := .str "i", ts := .int 5,
      fromAddr := .str Registration.sampleOwner.peerNodeId }
  (signPacket shortSigLib pkt (sampleIdentity shortSigLib 2).signing).toOption.getD pkt

def sampleEncode (data : Val) : Bytes := (encodePayload shortSigLib data).toOption.getD []

def sampleRemove : Packet :=
  samplePeerPacket T.nodeRemove (sampleEncode (.map [(.str "node_id",.str "n")]))

/-- The sender itself says that the node is offline. -/
def sampleRumour : Packet :=
  samplePeerPacket T.gossip (sampleEncode (.map [(.str "nodes",.arr [.map
    [(.str "node_id",.str "n"),(.str "address",.str "h:1"),(.str "status",.str "offline")]])]))

def sampleEnv : Env where
  now := fun _ => 100
  stamp := fun _ => ⟨"",0⟩
  wsSend := fun _ _ _ => .ok ()
  dial := fun _ _ _ => .error .connectionClosed
  onMessage := fun _ _ => .ok ()

/-- A node that knows the node "n". -/
def sampleKnown : World :=
  ⟨⟨Storage.empty.upsertNode NodeHistory.sampleRow,ConnectionRegistry.empty⟩,0⟩

/-- A task runs alone on a node, and nothing else happens. -/
theorem exists_ran (self : Node L) (env : Env) {p : NodeProg Unit} (hp : Runs self p)
    (w : NodeState) : ∃ P : Pool Unit Req Ans Err Unit NodeState,
      Pool.Steps (rules self) (initial w) P ∧ P.launched () = p ∧ (P.tasks ()).Done ∧
      P.history () = (run env.handler p ⟨w,0⟩).trace ∧
      P.world = (run env.handler p ⟨w,0⟩).final.state := by
  obtain ⟨P,hP,hl,hh,ht,hw⟩ := Pool.exists_run_of_start (P := initial w) (i := ())
    (R := rules self) trivial ⟨hp,rfl⟩ (run_path env.handler p ⟨w,0⟩)
    (Env.allows_run (R := rules self) (fun q w => NodeState.answers_handler env q w) _ ⟨w,0⟩)
  refine ⟨P,hP,by simp [hl],?_,by simp [hh],hw⟩
  rw [ht,Function.update_self]
  exact Prog.done_ofExcept _

theorem handled (self : Node L) {P : Pool ι Req Ans Err Unit NodeState} {i : ι}
    (hd : (P.tasks i).Done) (env : Env) (pkt : Packet) (conn : PeerConnection) (n : Nat) :
    ∃ P', Pool.Steps (rules self) P P' ∧
      P'.launched = Function.update P.launched i (Node.dispatch self pkt conn) ∧
      (P'.tasks i).Done ∧ (∀ j, j ≠ i → P'.tasks j = P.tasks j) ∧
      P'.world = (run env.handler (Node.dispatch self pkt conn) ⟨P.world,n⟩).final.state := by
  obtain ⟨P',hs,hl,_,ht,hw⟩ := Pool.exists_run_of_start (R := rules self) hd
    ⟨Runs.packet pkt conn,rfl⟩ (run_path env.handler (Node.dispatch self pkt conn) ⟨P.world,n⟩)
    (Env.allows_run (R := rules self) (fun q w => NodeState.answers_handler env q w) _ ⟨P.world,n⟩)
  refine ⟨P',hs,hl,?_,fun j hj => by simp [ht,hj],hw⟩
  rw [ht,Function.update_self]
  cases (run env.handler (Node.dispatch self pkt conn) ⟨P.world,n⟩).result <;> trivial

theorem sampleRemove_unlisted {pkt : Packet} {conn : PeerConnection}
    (h : Node.dispatch (sampleNode false) sampleRemove Registration.sampleOwner =
      Node.dispatch (sampleNode false) pkt conn) : pkt.type ≠ .str T.gossip := by
  intro hty
  have hfirst : ∃ k, Node.dispatch (sampleNode false) sampleRemove Registration.sampleOwner =
      .ask (.store (.removeNode (.text "n"))) k := ⟨_,rfl⟩
  obtain ⟨k,hk⟩ := hfirst
  have hd : Within (sampleNode false) (fun _ => True) pkt conn
      (Node.dispatch (sampleNode false) pkt conn) := within_dispatch
  rw [← h,hk] at hd
  rcases hd.1 with ⟨hr,_⟩ | ⟨hr,_⟩ <;> rw [hty] at hr <;>
    simp [T.gossip,T.nodeRemove,T.nodeLeaving] at hr

/-- The row that packet brings back. -/
def sampleReturned : NodeRow :=
  { NodeHistory.sampleRow with
    address := .text "h:1", access := .text "closed", lastSeen := 100, addedAt := 100 }

end Running

end Nevod
