import Nevod.Client
import Nevod.Lib.Conduit

/-!
Cells connected to one node, all writing to one of them: what the callback of
that cell has been given, at every moment of every run of the node's receive
loops.
-/

set_option autoImplicit false

namespace Nevod
open Text Resume Keyed

variable {L : Lib} {ι : Type}

/-- The senders, the receiver and the node they are connected to. `conn i` is the
node's connection with `sender i`, authenticated in its handshake. -/
structure Cells (ι : Type) (L : Lib) where
  node : Node L
  sender : ι → CellClient L
  conn : ι → PeerConnection
  receiver : CellClient L
  receiverConn : PeerConnection
  senderNode : ∀ i, (sender i).nodeId = node.id
  senderId : ∀ i, (conn i).peerNodeId = (sender i).cellId
  senderKey : ∀ i, (conn i).peerSigningPubkey = (sender i).identity.signing.pub
  receiverKey : receiver.nodeSigningPubkey = node.identity.signing.pub
  listens : receiver.onMessage = true
  cellId_injective : Function.Injective (fun i => (sender i).cellId)
  cellId_ne : ∀ i, (sender i).cellId ≠ receiver.cellId
  ws_injective : Function.Injective (fun i => (conn i).ws)
  ws_ne : ∀ i, (conn i).ws ≠ receiverConn.ws

/-- The node, the frames on the sockets in each direction, and what the cells have
done: `sent` are the plaintexts of each sender, `heard` the calls of the
receiver's callback. -/
structure Traffic (ι : Type) where
  state : NodeState
  isOpen : Nat → Bool
  looping : Nat → Bool
  toNode : Nat → List Bytes
  fromNode : Nat → List Bytes
  sent : ι → List Bytes
  listening : Bool
  heard : List (Val × Bytes)

namespace Traffic

/-- A frame is put on a socket of the node. -/
def put (w : Traffic ι) (ws : Nat) (frame : Bytes) : Traffic ι :=
  { w with fromNode := Function.update w.fromNode ws (w.fromNode ws ++ [frame]) }

/-- Sockets are reliable: what is sent on an open socket arrives, and a socket is
found closed only when everything sent on it has been received. -/
def Answers (w : Traffic ι) : (q : Req) → Ans q → Traffic ι → Prop
  | .store op,a,w' => ∃ now, a = (w.state.storage.exec now op).1 ∧
      w' = { w with state := { w.state with storage := (w.state.storage.exec now op).2 } }
  | .connGet nodeId,a,w' => a = w.state.connections.get nodeId ∧ w' = w
  | .connAdd conn,_,w' =>
    w' = { w with state := { w.state with connections := w.state.connections.add conn } }
  | .connRemove nodeId,_,w' =>
    w' = { w with state := { w.state with connections := w.state.connections.remove nodeId } }
  | .wsSend conn frame,a,w' =>
    if w.isOpen conn.ws then a = .ok () ∧ w' = w.put conn.ws frame
    else a = .error .connectionClosed ∧ w' = w
  | .wsRecv conn,a,w' =>
    match a with
    | some raw => ∃ rest, w.toNode conn.ws = raw :: rest ∧
        w' = { w with toNode := Function.update w.toNode conn.ws rest }
    | none => w.isOpen conn.ws = false ∧ w.toNode conn.ws = [] ∧ w' = w
  | .endRecv conn,_,w' => w' = { w with looping := Function.update w.looping conn.ws false }
  | .dial _ _,a,w' => a = .error .connectionClosed ∧ w' = w
  | .accept,a,w' => a = .error .connectionClosed ∧ w' = w
  | .startRecv _ _,_,w' => w' = w
  | .onMessage _,_,w' => w' = w
  | .stamp,_,w' => w' = w
  | .time,_,w' => w' = w
  | .sample _ _,_,w' => w' = w
  | .sealRandom,_,w' => w' = w

/-- All are connected, nothing has been sent. -/
def initial (state : NodeState) : Pool ι Req Ans Err Unit (Traffic ι) :=
  ⟨fun _ => .ret (),fun _ => [],fun _ => .ret (),
    ⟨state,fun _ => true,fun _ => true,fun _ => [],fun _ => [],fun _ => [],true,[]⟩⟩

end Traffic

namespace Cells

def address (S : Cells ι L) (i : ι) : String :=
  CellClient.address (S.sender i).cellId S.node.id

/-- A sender writes to the receiver. -/
def Sends [DecidableEq ι] (S : Cells ι L) (w w' : Traffic ι) : Prop :=
  ∃ i st rnd plaintext pkt frame, w.isOpen (S.conn i).ws = true ∧
    (S.sender i).send st rnd S.receiver.cellId S.node.id S.receiver.identity.encryption.pub
      plaintext = .ok (pkt,frame) ∧
    w' = { w with
      toNode := Function.update w.toNode (S.conn i).ws (w.toNode (S.conn i).ws ++ [frame])
      sent := Function.update w.sent i (w.sent i ++ [plaintext]) }

/-- A sender disconnects. -/
def Leaves (S : Cells ι L) (w w' : Traffic ι) : Prop :=
  ∃ i, w' = { w with isOpen := Function.update w.isOpen (S.conn i).ws false }

/-- The receiver takes one frame from its socket. -/
def Reads (S : Cells ι L) (w w' : Traffic ι) : Prop :=
  ∃ raw rest, w.listening = true ∧ w.fromNode S.receiverConn.ws = raw :: rest ∧
    w' = { w with
      fromNode := Function.update w.fromNode S.receiverConn.ws rest
      listening := (S.receiver.receive raw).isOk
      heard := match S.receiver.receive raw with
        | .ok (some (pkt,plaintext)) => w.heard ++ [(pkt.fromAddr,plaintext)]
        | _ => w.heard }

def rules [DecidableEq ι] (S : Cells ι L) : Rules ι Req Ans Err Unit (Traffic ι) where
  answer := fun _ w q a w' => w.Answers q a w'
  start := fun i w p w' => w.looping (S.conn i).ws = true ∧
    p = Node.recvRound S.node (S.conn i) true ∧ w' = w
  drift := fun w w' => S.Sends w w' ∨ S.Leaves w w' ∨ S.Reads w w'

/-- The receiver is connected to the node and registered there. -/
structure Ready (S : Cells ι L) (state : NodeState) : Prop where
  entry : state.connections.get S.receiver.cellId = some S.receiverConn
  presence : ∃ e, state.storage.presenceTable.find S.receiver.cellId = some e ∧
    e.homeNodeId = S.node.id ∧ e.visitingNodeId = none

/-- The calls whose first argument is the address of sender `i`. -/
def callsFrom (S : Cells ι L) (i : ι) (calls : List (Val × Bytes)) : List Bytes :=
  (calls.filter (fun c => c.1.eqStr (S.address i))).map Prod.snd

def heardFrom (S : Cells ι L) (i : ι) (w : Traffic ι) : List Bytes := S.callsFrom i w.heard

/-- No frame of sender `i` is on its way: none waits on a socket, and the receive
loop is between two frames. -/
def Consumed (S : Cells ι L) (i : ι) (P : Pool ι Req Ans Err Unit (Traffic ι)) : Prop :=
  P.world.toNode (S.conn i).ws = [] ∧ P.world.fromNode S.receiverConn.ws = [] ∧
    ((P.tasks i).Done ∨ P.tasks i = Node.recvRound S.node (S.conn i) true)

def dest (S : Cells ι L) : String := CellClient.address S.receiver.cellId S.node.id

/-- The packet brings `plaintext` from sender `i` to the receiver. -/
structure Carries (S : Cells ι L) (i : ι) (pkt : Packet) (plaintext : Bytes) : Prop where
  type : pkt.type = .str T.msg
  fromAddr : pkt.fromAddr = .str (S.address i)
  toAddr : pkt.toAddr = .str S.dest
  opened : S.receiver.openPayload pkt = .ok plaintext
  signable : ∃ m, pkt.signData L = .ok m
  packable : pkt.toDict.packable packDepth = true

/-- A frame on its way to the node. -/
def Inbound (S : Cells ι L) (i : ι) (raw plaintext : Bytes) : Prop :=
  ∃ pkt, unpack L raw = .ok pkt ∧
    verifyPacket L pkt (S.conn i).peerSigningPubkey = .ok true ∧ S.Carries i pkt plaintext

/-- A frame on its way to the receiver. -/
def Outbound (S : Cells ι L) (i : ι) (raw plaintext : Bytes) : Prop :=
  ∃ pkt, S.receiver.receive raw = .ok (some (pkt,plaintext)) ∧
    pkt.fromAddr = .str (S.address i)

/-- The plaintext the receiver can read from a frame, whoever signed it. -/
def plain (S : Cells ι L) (raw : Bytes) : Option Bytes :=
  match unpack L raw with
  | .ok pkt => (S.receiver.openPayload pkt).toOption
  | .error _ => none

/-- The call of the callback that a frame leads to. -/
def call (S : Cells ι L) (raw : Bytes) : Option (Val × Bytes) :=
  match S.receiver.receive raw with
  | .ok (some (pkt,plaintext)) => some (pkt.fromAddr,plaintext)
  | _ => none

variable {S : Cells ι L}

theorem Inbound.plain {i : ι} {raw plaintext : Bytes} (h : S.Inbound i raw plaintext) :
    S.plain raw = some plaintext := by
  obtain ⟨pkt,hu,_,hc⟩ := h
  simp [Cells.plain,hu,hc.opened,Except.toOption]

theorem Outbound.call {i : ι} {raw plaintext : Bytes} (h : S.Outbound i raw plaintext) :
    S.call raw = some (.str (S.address i),plaintext) := by
  obtain ⟨pkt,hr,hf⟩ := h
  simp [Cells.call,hr,hf]

theorem address_injective (S : Cells ι L) : Function.Injective S.address := by
  intro i j h
  have hs : ∀ i, splitAddr (S.address i) = some ((S.sender i).cellId,S.node.id) :=
    fun i => splitAddr_join (at_not_mem_hex _) _
  have hij := hs i
  rw [h,hs j,Option.some.injEq,Prod.mk.injEq] at hij
  exact S.cellId_injective hij.1.symm

theorem parseAddr_dest (S : Cells ι L) :
    parseAddr (.str S.dest) = .ok (some S.receiver.cellId,S.node.id) := by
  have h : splitAddr S.dest = some (S.receiver.cellId,S.node.id) :=
    splitAddr_join (at_not_mem_hex _) _
  simp [parseAddr,h]

theorem receiver_cellId_ne (hv : L.SigLaws) (S : Cells ι L) : S.receiver.cellId ≠ "" := by
  refine hex_ne_empty (fun h => ?_)
  have hl := hv.pubLength S.receiver.identity.signing.priv
  rw [← S.receiver.identity.signing.isPair,h] at hl
  simp at hl

theorem inbound_send (hp : L.PackLaws) (hv : L.SigLaws) (hs : L.SealLaws) {i : ι} {st : Stamp}
    {rnd : SealRandom} {plaintext : Bytes} {pkt : Packet} {frame : Bytes}
    (h : (S.sender i).send st rnd S.receiver.cellId S.node.id S.receiver.identity.encryption.pub
      plaintext = .ok (pkt,frame)) : S.Inbound i frame plaintext := by
  obtain ⟨enc,payload,he,hpay,hsign,hf⟩ := CellClient.send_ok h
  have hu := unpack_pack_signed hp hsign hf
  have hver := verifyPacket_signPacket hv hsign
  obtain ⟨m,hm,rfl⟩ := signPacket_ok hsign
  refine ⟨_,hu,by rw [S.senderKey]; exact hver,?_⟩
  constructor
  · rfl
  · simp [CellClient.message,Cells.address,S.senderNode]
  · rfl
  · exact CellClient.openPayload_sealed hp hs he hpay rfl
  · exact ⟨m,hm⟩
  · exact hp.packable _ _ hf

/-- The node can sign what it relays, and the receiver reads it. -/
theorem outbound_wireForm (hp : L.PackLaws) (hv : L.SigLaws) {i : ι} {pkt : Packet}
    {plaintext : Bytes} (h : S.Carries i pkt plaintext) :
    ∃ signed frame, Transport.wireForm S.node pkt = .ok (signed,frame) ∧
      S.Outbound i frame plaintext := by
  obtain ⟨m,hm⟩ := h.signable
  have hsign : signPacket L pkt S.node.identity.signing =
      .ok { pkt with sig := .bin (sign m S.node.identity.signing) } := by
    simp [signPacket,hm,bind,Except.bind,pure,Except.pure]
  obtain ⟨frame,hf⟩ := hp.packb_ok _ (packable_sig h.packable (hv.length _ m))
  have hu := unpack_pack_signed hp hsign hf
  have hver := verifyPacket_signPacket hv hsign
  rw [← S.receiverKey] at hver
  have hr := CellClient.receive_ok hu hver h.type S.listens h.opened
  exact ⟨_,frame,wireForm_of_ok hsign hf,_,hr,h.fromAddr⟩

/-- The requests of a receive loop that relays messages to the receiver. -/
def guard (S : Cells ι L) (i : ι) : Req → Prop
  | .store (.getPresence c) => c = S.receiver.cellId
  | .connGet nodeId => nodeId = S.receiver.cellId
  | .connRemove nodeId => nodeId ≠ S.receiver.cellId
  | .wsSend conn frame => conn = S.receiverConn ∧ ∃ plaintext, S.Outbound i frame plaintext
  | .wsRecv conn => conn = S.conn i
  | .endRecv _ => True
  | _ => False

/-- What it is answered. -/
def rely (S : Cells ι L) (i : ι) : (q : Req) → Ans q → Prop
  | .store (.getPresence _),a =>
    ∃ e, a = some e ∧ e.homeNodeId = S.node.id ∧ e.visitingNodeId = none
  | .connGet _,a => a = some S.receiverConn
  | .wsSend _ _,a => a = .ok ()
  | .wsRecv _,a => ∀ raw, a = some raw → ∃ plaintext, S.Inbound i raw plaintext
  | _,_ => True

/-- A received frame brings its plaintext into the loop. -/
def inp (S : Cells ι L) : (q : Req) → Ans q → List Bytes
  | .wsRecv _,some raw => (S.plain raw).toList
  | _,_ => []

/-- A frame that is sent takes its plaintext out of the loop. -/
def out (S : Cells ι L) : (q : Req) → Ans q → List Bytes
  | .wsSend _ frame,_ => (S.call frame).toList.map Prod.snd
  | _,_ => []

theorem conveys_finishRecv (i : ι) :
    Conveys (S.guard i) (S.rely i) S.inp S.out
      (Transport.finishRecv (S.conn i) true) [] := by
  have hne : (S.conn i).peerNodeId ≠ S.receiver.cellId := by
    rw [S.senderId]
    exact S.cellId_ne i
  refine .idle trivial (fun _ _ => ⟨rfl,rfl⟩) (fun _ _ => ?_)
  refine .idle hne (fun _ _ => ⟨rfl,rfl⟩) (fun _ _ => ?_)
  exact .idle hne (fun _ _ => ⟨rfl,rfl⟩) (fun _ _ => rfl)

/-- Routing a message to the receiver: its presence row names this node, its
connection is the registry's entry, and the frame goes out on it. -/
theorem conveys_route (hp : L.PackLaws) (hv : L.SigLaws) {i : ι} {pkt : Packet}
    {plaintext : Bytes} (h : S.Carries i pkt plaintext) (c : Err → NodeProg Unit) :
    Conveys (S.guard i) (S.rely i) S.inp S.out
      ((Router.route S.node pkt).rescue c) [plaintext] := by
  obtain ⟨signed,frame,hw,hout⟩ := outbound_wireForm hp hv h
  have haddr := parseAddr_dest S
  have hne := receiver_cellId_ne hv S
  unfold Router.route
  simp only [h.toAddr,haddr,Prog.ofExcept_ok,Prog.bind_eq,Prog.bind_ret,Prog.bind_ask,
    Prog.rescue_ask]
  refine .idle rfl (fun _ _ => ⟨rfl,rfl⟩) (fun presence hpres => ?_)
  obtain ⟨e,rfl,hhome,hvisit⟩ := hpres
  simp only [Router.visiting,hvisit,Option.filter_none,Prog.pure_eq,Prog.bind_ret,
    Router.sendToNode,hhome,if_true,Router.deliverLocal,h.toAddr,haddr,Prog.ofExcept_ok,
    Prog.bind_eq,if_neg hne,Transport.sendTo,Prog.bind_ask]
  refine .idle rfl (fun _ _ => ⟨rfl,rfl⟩) (fun conn hconn => ?_)
  cases hconn
  simp only [hw,Prog.ofExcept_ok,Prog.bind_ret,Prog.bind_ask,Prog.rescue_ask]
  refine ⟨⟨rfl,plaintext,hout⟩,fun sent hsent => ⟨[],?_,?_⟩⟩
  · simp [Cells.inp,Cells.out,hout.call]
  · cases hsent
    rfl

theorem conveys_recvRound (hp : L.PackLaws) (hv : L.SigLaws) (i : ι) :
    Conveys (S.guard i) (S.rely i) S.inp S.out (Node.recvRound S.node (S.conn i) true) [] := by
  refine ⟨rfl,fun frame hframe => ?_⟩
  cases frame with
  | none => exact ⟨[],rfl,conveys_finishRecv i⟩
  | some raw =>
    obtain ⟨plaintext,hin⟩ := hframe raw rfl
    refine ⟨[plaintext],by simp [Cells.inp,Cells.out,hin.plain],?_⟩
    obtain ⟨pkt,hu,hver,hc⟩ := hin
    simp only [Transport.handleFrame,hu,hver,Prog.ofExcept_ok,Prog.bind_eq,Prog.bind_ret,
      if_true,dispatch_msg _ hc.type,Prog.rescue_rescue]
    exact conveys_route hp hv hc _

@[simp] theorem callsFrom_append (i : ι) (a b : List (Val × Bytes)) :
    S.callsFrom i (a ++ b) = S.callsFrom i a ++ S.callsFrom i b := by
  simp [callsFrom]

theorem callsFrom_call [DecidableEq ι] (i j : ι) (plaintext : Bytes) :
    S.callsFrom i [(.str (S.address j),plaintext)] = if i = j then [plaintext] else [] := by
  by_cases h : i = j
  · simp [callsFrom,Val.eqStr,h]
  · have hne : S.address j ≠ S.address i := fun ha => h (address_injective S ha).symm
    simp [callsFrom,Val.eqStr,h,hne]

/-- The frames on the sockets are messages of the senders to the receiver. -/
structure InOrder (S : Cells ι L) (w : Traffic ι) : Prop where
  ready : S.Ready w.state
  isOpen : w.isOpen S.receiverConn.ws = true
  inbound : ∀ i, ∀ raw ∈ w.toNode (S.conn i).ws, ∃ plaintext, S.Inbound i raw plaintext
  outbound : ∀ raw ∈ w.fromNode S.receiverConn.ws, ∃ i plaintext, S.Outbound i raw plaintext
  heard : ∀ c ∈ w.heard, ∃ i, c.1 = .str (S.address i)

/-- Sent by `i` and not yet taken in by its receive loop. -/
def source (S : Cells ι L) (i : ι) (w : Traffic ι) : List Bytes :=
  (w.toNode (S.conn i).ws).filterMap S.plain

/-- Heard from `i`, or on its way to the receiver. -/
def sink (S : Cells ι L) (i : ι) (w : Traffic ι) : List Bytes :=
  S.callsFrom i (w.heard ++ (w.fromNode S.receiverConn.ws).filterMap S.call)

theorem flow_still [DecidableEq ι] {i : ι} {q : Req} {a : Ans q} {w w' : Traffic ι}
    (hin : S.inp q a = []) (hout : S.out q a = []) (ht : w'.toNode = w.toNode)
    (hf : w'.fromNode = w.fromNode) (hs : w'.sent = w.sent) (hh : w'.heard = w.heard) (j : ι) :
    w'.sent j = w.sent j ∧
      S.source j w = (if j = i then S.inp q a else []) ++ S.source j w' ∧
      S.sink j w' = S.sink j w ++ (if j = i then S.out q a else []) := by
  simp [source,sink,hin,hout,ht,hf,hs,hh]

theorem InOrder.answer [DecidableEq ι] {i : ι} {w w' : Traffic ι} {q : Req} {a : Ans q}
    (hw : S.InOrder w) (hq : S.guard i q) (h : w.Answers q a w') :
    S.rely i q a ∧ S.InOrder w' ∧ ∀ j, w'.sent j = w.sent j ∧
      S.source j w = (if j = i then S.inp q a else []) ++ S.source j w' ∧
      S.sink j w' = S.sink j w ++ (if j = i then S.out q a else []) := by
  cases q with
  | store op =>
    cases op with
    | getPresence c =>
      obtain ⟨now,rfl,rfl⟩ := h
      obtain ⟨e,he,hhome,hvisit⟩ := hw.ready.presence
      cases hq
      exact ⟨⟨e,he,hhome,hvisit⟩,{ hw with ready := hw.ready },
        flow_still rfl rfl rfl rfl rfl rfl⟩
    | _ => exact hq.elim
  | connGet nodeId =>
    obtain ⟨rfl,rfl⟩ := h
    cases hq
    exact ⟨hw.ready.entry,hw,flow_still rfl rfl rfl rfl rfl rfl⟩
  | connRemove nodeId =>
    cases h
    have hne : S.receiver.cellId ≠ nodeId := fun he => hq he.symm
    have hentry : (w.state.connections.remove nodeId).get S.receiver.cellId =
        some S.receiverConn := by
      rw [ConnectionRegistry.get_remove,if_neg hne]
      exact hw.ready.entry
    exact ⟨trivial,{ hw with ready := ⟨hentry,hw.ready.presence⟩ },
      flow_still rfl rfl rfl rfl rfl rfl⟩
  | endRecv conn =>
    cases h
    exact ⟨trivial,{ hw with ready := hw.ready },flow_still rfl rfl rfl rfl rfl rfl⟩
  | wsRecv conn =>
    cases hq
    cases a with
    | none =>
      obtain ⟨_,_,rfl⟩ := h
      exact ⟨fun raw hr => by simp at hr,hw,flow_still rfl rfl rfl rfl rfl rfl⟩
    | some raw =>
      obtain ⟨rest,hrest,rfl⟩ := h
      have hin := hw.inbound i raw (by simp [hrest])
      refine ⟨fun raw' hr => by cases hr; exact hin,?_,fun j => ⟨rfl,?_,by simp [sink,out]⟩⟩
      · refine { hw with inbound := fun j raw' hr => hw.inbound j raw' ?_ }
        by_cases hj : (S.conn j).ws = (S.conn i).ws
        · simp only [hj,Function.update_self] at hr
          rw [hj,hrest]
          exact List.mem_cons_of_mem _ hr
        · simpa [hj] using hr
      · by_cases hj : j = i
        · subst hj
          obtain ⟨plaintext,hp⟩ := hin
          simp [source,inp,hrest,hp.plain]
        · have hne : (S.conn j).ws ≠ (S.conn i).ws := fun he => hj (S.ws_injective he)
          simp [source,hj,hne]
  | wsSend conn frame =>
    obtain ⟨rfl,plaintext,hout⟩ := hq
    simp only [Traffic.Answers,hw.isOpen,if_true] at h
    obtain ⟨rfl,rfl⟩ := h
    refine ⟨rfl,?_,fun j => ⟨rfl,by simp [source,inp,Traffic.put],?_⟩⟩
    · refine { hw with outbound := fun raw hr => ?_ }
      simp only [Traffic.put,Function.update_self,List.mem_append,List.mem_singleton] at hr
      rcases hr with hr | rfl
      · exact hw.outbound raw hr
      · exact ⟨i,plaintext,hout⟩
    · simp only [sink,Traffic.put,Function.update_self,List.filterMap_append,
        List.filterMap_cons,List.filterMap_nil,hout.call,out,callsFrom_append,callsFrom_call]
      by_cases hj : j = i <;> simp [hj]
  | _ => exact hq.elim

theorem InOrder.sends [DecidableEq ι] (hp : L.PackLaws) (hv : L.SigLaws) (hs : L.SealLaws)
    {w w' : Traffic ι} (hw : S.InOrder w) (h : S.Sends w w') :
    S.InOrder w' ∧ ∀ j, ∃ new, w'.sent j = w.sent j ++ new ∧
      S.source j w' = S.source j w ++ new ∧ S.sink j w' = S.sink j w := by
  obtain ⟨i,st,rnd,plaintext,pkt,frame,_,hsend,rfl⟩ := h
  have hin := inbound_send hp hv hs hsend
  refine ⟨{ hw with inbound := fun j raw hr => ?_ },fun j => ?_⟩
  · by_cases hj : (S.conn j).ws = (S.conn i).ws
    · have hij := S.ws_injective hj
      subst hij
      simp only [Function.update_self,List.mem_append,List.mem_singleton] at hr
      rcases hr with hr | rfl
      · exact hw.inbound j raw hr
      · exact ⟨plaintext,hin⟩
    · exact hw.inbound j raw (by simpa [hj] using hr)
  · by_cases hj : j = i
    · subst hj
      exact ⟨[plaintext],by simp,by simp [source,hin.plain],rfl⟩
    · have hne : (S.conn j).ws ≠ (S.conn i).ws := fun he => hj (S.ws_injective he)
      exact ⟨[],by simp [hj],by simp [source,hne],rfl⟩

theorem InOrder.reads {w w' : Traffic ι} (hw : S.InOrder w) (h : S.Reads w w') :
    S.InOrder w' ∧ ∀ j, ∃ new, w'.sent j = w.sent j ++ new ∧
      S.source j w' = S.source j w ++ new ∧ S.sink j w' = S.sink j w := by
  obtain ⟨raw,rest,_,hrest,rfl⟩ := h
  obtain ⟨i,plaintext,hout⟩ := hw.outbound raw (by simp [hrest])
  have hcall := hout.call
  obtain ⟨pkt,hr,hf⟩ := hout
  refine ⟨?_,fun j => ⟨[],by simp,by simp [source],?_⟩⟩
  · refine { hw with outbound := fun raw' hr' => ?_, heard := fun c hc => ?_ }
    · simp only [Function.update_self] at hr'
      exact hw.outbound raw' (by simp [hrest,hr'])
    · simp only [hr,List.mem_append,List.mem_singleton] at hc
      rcases hc with hc | rfl
      · exact hw.heard c hc
      · exact ⟨i,hf⟩
  · simp [sink,hrest,hcall,hr,hf]

theorem InOrder.drift [DecidableEq ι] (hp : L.PackLaws) (hv : L.SigLaws) (hs : L.SealLaws)
    {w w' : Traffic ι} (hw : S.InOrder w) (h : S.rules.drift w w') :
    S.InOrder w' ∧ ∀ j, ∃ new, w'.sent j = w.sent j ++ new ∧
      S.source j w' = S.source j w ++ new ∧ S.sink j w' = S.sink j w := by
  rcases h with h | ⟨i,rfl⟩ | h
  · exact hw.sends hp hv hs h
  · refine ⟨{ hw with isOpen := ?_ },fun j => ⟨[],by simp,by simp [source],rfl⟩⟩
    simp [(S.ws_ne i).symm,hw.isOpen]
  · exact hw.reads h

/-- The receive loops as conduits from their sockets to the receiver. -/
def conduit [DecidableEq ι] (S : Cells ι L) (hp : L.PackLaws) (hv : L.SigLaws)
    (hs : L.SealLaws) : Conduit S.rules Bytes where
  inv := S.InOrder
  guard := S.guard
  rely := S.rely
  inp := fun _ => S.inp
  out := fun _ => S.out
  total := fun i w => w.sent i
  source := S.source
  sink := S.sink
  answer := fun _ _ _ _ _ h hw hq => hw.answer hq h
  start := by
    rintro i w p w' ⟨_,rfl,rfl⟩ hw
    exact ⟨conveys_recvRound hp hv i,hw,fun j => ⟨rfl,rfl,rfl⟩⟩
  drift := fun _ _ h hw => hw.drift hp hv hs h

theorem conduit_initial [DecidableEq ι] (hp : L.PackLaws) (hv : L.SigLaws) (hs : L.SealLaws)
    {state : NodeState} (h : S.Ready state) :
    (S.conduit hp hv hs).Holds (Traffic.initial state) := by
  refine ⟨⟨h,rfl,?_,?_,?_⟩,fun i => ⟨[],rfl,rfl⟩⟩ <;> simp [Traffic.initial]

/-- A loop that waits for its next frame holds nothing: if the socket closed now,
it would end without sending anything. -/
theorem conveys_waiting {i : ι} {held : List Bytes}
    (h : Conveys (S.guard i) (S.rely i) S.inp S.out (Node.recvRound S.node (S.conn i) true)
      held) : held = [] := by
  obtain ⟨_,h⟩ := h
  obtain ⟨h1,he1,_,h⟩ := h none (fun raw hr => by simp at hr)
  obtain ⟨h2,he2,_,h⟩ := h () trivial
  obtain ⟨h3,he3,_,h⟩ := h () trivial
  obtain ⟨h4,he4,h⟩ := h () trivial
  have hnil : h4 = [] := h
  simp only [inp,out,List.append_nil,List.nil_append] at he1 he2 he3 he4
  rw [he1,he2,he3,he4,hnil]

/-- Ordered exactly-once delivery: what the receiver has heard from a sender is
at every moment a prefix of what that sender sent, all of it once nothing is on
its way, and there are no other calls. -/
theorem delivered_in_order [DecidableEq ι] (hp : L.PackLaws) (hv : L.SigLaws)
    (hs : L.SealLaws) (S : Cells ι L) {state : NodeState} (h : S.Ready state)
    {P : Pool ι Req Ans Err Unit (Traffic ι)}
    (hP : Pool.Steps S.rules (Traffic.initial state) P) :
    (∀ i, S.heardFrom i P.world <+: P.world.sent i) ∧
    (∀ i, S.Consumed i P → S.heardFrom i P.world = P.world.sent i) ∧
    ∀ c ∈ P.world.heard, ∃ i, c.1 = .str (S.address i) := by
  have hP := (conduit_initial hp hv hs h).steps hP
  refine ⟨fun i => ?_,fun i hi => ?_,hP.1.heard⟩
  · have hsink : S.sink i P.world <+: P.world.sent i := hP.sink_prefix i
    rw [sink,callsFrom_append] at hsink
    exact (List.prefix_append _ _).trans hsink
  · obtain ⟨hto,hfrom,hrest⟩ := hi
    obtain ⟨held,hc,htotal⟩ := hP.2 i
    have hnil : held = [] := by
      rcases hrest with hd | hw
      · exact hc.of_done hd
      · rw [hw] at hc
        exact conveys_waiting hc
    have hsent : P.world.sent i = S.sink i P.world ++ held ++ S.source i P.world := htotal
    rw [hsent,hnil]
    simp [sink,source,hto,hfrom,heardFrom]

theorem path_relay {i : ι} {raw frame : Bytes} {pkt signed : Packet} {e : PresenceEntry}
    (hv : L.SigLaws) (hu : unpack L raw = .ok pkt)
    (hver : verifyPacket L pkt (S.conn i).peerSigningPubkey = .ok true)
    (hty : pkt.type = .str T.msg) (hto : pkt.toAddr = .str S.dest)
    (hhome : e.homeNodeId = S.node.id) (hvisit : e.visitingNodeId = none)
    (hw : Transport.wireForm S.node pkt = .ok (signed,frame)) :
    Path (Node.recvRound S.node (S.conn i) true)
      [⟨.wsRecv (S.conn i),some raw⟩,⟨.store (.getPresence S.receiver.cellId),some e⟩,
        ⟨.connGet S.receiver.cellId,some S.receiverConn⟩,
        ⟨.wsSend S.receiverConn frame,.ok ()⟩] (.ret ()) := by
  have haddr := parseAddr_dest S
  have hne := receiver_cellId_ne hv S
  refine .step _ _ _ ?_
  simp only [Transport.handleFrame,hu,hver,Prog.ofExcept_ok,Prog.bind_eq,Prog.bind_ret,
    if_true,dispatch_msg _ hty,Router.route,hto,haddr,Prog.bind_ask,Prog.rescue_ask]
  refine .step _ _ _ ?_
  simp only [Router.visiting,hvisit,Option.filter_none,Prog.pure_eq,Prog.bind_ret,
    Router.sendToNode,hhome,if_true,Router.deliverLocal,hto,haddr,Prog.ofExcept_ok,
    Prog.bind_eq,if_neg hne,Transport.sendTo,Prog.bind_ask]
  refine .step _ _ _ ?_
  simp only [hw,Prog.ofExcept_ok,Prog.bind_ret,Prog.bind_ask,Prog.rescue_ask]
  exact .step _ _ _ (.here _)

theorem relay_steps [DecidableEq ι] (hp : L.PackLaws) (hv : L.SigLaws)
    {P : Pool ι Req Ans Err Unit (Traffic ι)} {i : ι} {raw : Bytes} {rest : List Bytes}
    (hw : S.InOrder P.world) (hd : (P.tasks i).Done)
    (hl : P.world.looping (S.conn i).ws = true)
    (hraw : P.world.toNode (S.conn i).ws = raw :: rest) :
    ∃ P' frame plaintext, Pool.Steps S.rules P P' ∧ (P'.tasks i).Done ∧
      S.Outbound i frame plaintext ∧
      P'.world = { P.world with
        toNode := Function.update P.world.toNode (S.conn i).ws rest
        fromNode := Function.update P.world.fromNode S.receiverConn.ws
          (P.world.fromNode S.receiverConn.ws ++ [frame]) } := by
  obtain ⟨plaintext,pkt,hu,hver,hc⟩ := hw.inbound i raw (by simp [hraw])
  obtain ⟨signed,frame,hwire,hout⟩ := outbound_wireForm hp hv hc
  obtain ⟨e,he,hhome,hvisit⟩ := hw.ready.presence
  have hpath := path_relay hv hu hver hc.type hc.toAddr hhome hvisit hwire
  obtain ⟨P',hsteps,htasks,hworld⟩ := Pool.exists_steps_of_start (R := S.rules) hd
    ⟨hl,rfl,rfl⟩ hpath
    (.cons ⟨rest,hraw,rfl⟩ (.cons ⟨0,he.symm,rfl⟩ (.cons ⟨hw.ready.entry.symm,rfl⟩
      (.cons (by
        change if P.world.isOpen S.receiverConn.ws = true then _ else _
        rw [if_pos hw.isOpen]
        exact ⟨rfl,rfl⟩) (.nil _)))))
  exact ⟨P',frame,plaintext,hsteps,by simp [htasks,Prog.Done],hout,hworld⟩

theorem message_steps [DecidableEq ι] (hp : L.PackLaws) (hv : L.SigLaws) (hs : L.SealLaws)
    {state : NodeState} (h : S.Ready state) {i : ι} {st : Stamp} {rnd : SealRandom}
    {plaintext : Bytes} {pkt : Packet} {frame : Bytes}
    (hsend : (S.sender i).send st rnd S.receiver.cellId S.node.id
      S.receiver.identity.encryption.pub plaintext = .ok (pkt,frame)) :
    ∃ P, Pool.Steps S.rules (Traffic.initial state) P ∧ S.Consumed i P ∧
      P.world.sent i = [plaintext] := by
  let w : Traffic ι := (Traffic.initial state : Pool ι Req Ans Err Unit (Traffic ι)).world
  let w1 : Traffic ι := { w with
    toNode := Function.update w.toNode (S.conn i).ws [frame]
    sent := Function.update w.sent i [plaintext] }
  let P1 : Pool ι Req Ans Err Unit (Traffic ι) := ⟨fun _ => .ret (),fun _ => [],fun _ => .ret (),w1⟩
  have h1 : Pool.Step S.rules (Traffic.initial state) P1 :=
    .drift w1 (.inl ⟨i,st,rnd,plaintext,pkt,frame,rfl,hsend,rfl⟩)
  have hw1 : S.InOrder w1 := ((conduit_initial hp hv hs h).step h1).1
  have hraw : P1.world.toNode (S.conn i).ws = frame :: [] := by simp [P1,w1]
  obtain ⟨P2,frame2,p2,h2,hd2,⟨pkt2,hr2,_⟩,hw2⟩ := relay_steps hp hv (P := P1) hw1 trivial rfl hraw
  have hfrom : P2.world.fromNode S.receiverConn.ws = [frame2] := by
    rw [hw2]
    simp [P1,w1,w,Traffic.initial]
  let w3 : Traffic ι := { P2.world with
    fromNode := Function.update P2.world.fromNode S.receiverConn.ws []
    listening := true
    heard := P2.world.heard ++ [(pkt2.fromAddr,p2)] }
  have h3 : Pool.Step S.rules P2 ⟨P2.launched,P2.history,P2.tasks,w3⟩ :=
    .drift w3 (.inr (.inr ⟨frame2,[],by rw [hw2]; rfl,hfrom,by rw [hr2]; rfl⟩))
  refine ⟨_,(Relation.ReflTransGen.head h1 h2).tail h3,⟨?_,?_,.inl hd2⟩,?_⟩
  · simp [w3,hw2]
  · simp [w3]
  · simp [w3,hw2,P1,w1]

end Cells

def sampleClient (b : UInt8) : CellClient shortSigLib where
  identity := sampleIdentity shortSigLib b
  onMessage := true
  ws := some 0
  nodeId := (sampleNode false).id
  nodeSigningPubkey := (sampleNode false).identity.signing.pub

/-- The node's connection with a cell, on socket `ws`. -/
def sampleConn (ws : Nat) (b : UInt8) : PeerConnection where
  ws := ws
  peerNodeId := (sampleClient b).cellId
  peerSigningPubkey := (sampleClient b).identity.signing.pub
  peerEncPubkey := .none
  localNodeId := (sampleNode false).id

/-- One sender and the receiver. -/
def sampleCells : Cells Unit shortSigLib where
  node := sampleNode false
  sender := fun _ => sampleClient 2
  conn := fun _ => sampleConn 2 2
  receiver := sampleClient 3
  receiverConn := sampleConn 3 3
  senderNode := fun _ => rfl
  senderId := fun _ => rfl
  senderKey := fun _ => rfl
  receiverKey := rfl
  listens := rfl
  cellId_injective := fun _ _ _ => rfl
  cellId_ne := fun _ => by decide +kernel
  ws_injective := fun _ _ _ => rfl
  ws_ne := fun _ => by decide

def sampleState : NodeState where
  storage := Storage.empty.updatePresence 0 (sampleClient 3).cellId (sampleNode false).id none
  connections := ConnectionRegistry.empty.add (sampleConn 3 3)

theorem sampleCells_ready : sampleCells.Ready sampleState where
  entry := by simp [sampleState,ConnectionRegistry.get_add,sampleCells,sampleConn]
  presence := ⟨_,rfl,rfl,rfl⟩

namespace Cells

theorem sampleClient_sends :
    ∃ pkt frame, (sampleCells.sender ()).send ⟨"m",0⟩ SealRandom.zero
      sampleCells.receiver.cellId sampleCells.node.id sampleCells.receiver.identity.encryption.pub
      (utf8 "hi") = .ok (pkt,frame) := by
  have hok : ((sampleCells.sender ()).send ⟨"m",0⟩ SealRandom.zero
      sampleCells.receiver.cellId sampleCells.node.id sampleCells.receiver.identity.encryption.pub
      (utf8 "hi")).isOk = true := by decide +kernel
  obtain ⟨⟨pkt,frame⟩,h⟩ := exists_ok hok
  exact ⟨pkt,frame,h⟩

/-- One message is sent, relayed and read. -/
theorem delivered_in_order_sample :
    ∃ P, Pool.Steps sampleCells.rules (Traffic.initial sampleState) P ∧
      P.world.sent () = [utf8 "hi"] ∧ sampleCells.heardFrom () P.world = [utf8 "hi"] := by
  have hp := sampleLib_packLaws digest32
  have hs := sampleLib_sealLaws digest32
  have hv := shortSigLib_sigLaws
  obtain ⟨pkt,frame,hsend⟩ := sampleClient_sends
  obtain ⟨P,hP,hc,hsent⟩ := message_steps hp hv hs sampleCells_ready hsend
  have hall := (delivered_in_order hp hv hs sampleCells sampleCells_ready hP).2.1 () hc
  exact ⟨P,hP,hsent,hall.trans hsent⟩

end Cells

end Nevod
