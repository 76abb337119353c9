import Nevod.Delivery
import Nevod.Registration
import Nevod.Routing
import Nevod.Turn

/-!
Whom a message is from. Honest nodes relay what the cells send, and a cell that is
not honest sends what it likes on its own connections.
-/

set_option autoImplicit false

namespace Nevod
open Text Resume Keyed

variable {L : Lib} {ν κ σ ι : Type}

/-- What is at the other end of a socket. -/
inductive Peer (ν κ σ : Type) where
  | node (n : ν) (ws : Nat)
  | cell (k : κ)
  | stranger (s : σ)

/-- The honest nodes, the honest cells in each of their sessions with a node, and
the strangers, which have keys of their own. `far` says which sockets belong
together. -/
structure Parties (ν κ σ : Type) (L : Lib) where
  node : ν → Node L
  client : κ → CellClient L
  stranger : σ → Identity L
  far : ν × Nat → Peer ν κ σ
  socket : κ → ν × Nat
  far_far : ∀ {e n ws}, far e = .node n ws → far (n,ws) = .node e.1 e.2
  far_cell : ∀ {e k}, far e = .cell k ↔ socket k = e
  nodeId : ∀ k, (client k).nodeId = (node (socket k).1).id
  nodeKey : ∀ k, (client k).nodeSigningPubkey = (node (socket k).1).identity.signing.pub
  key_ne_cell : ∀ s k, (stranger s).signing.pub ≠ (client k).identity.signing.pub
  key_ne_node : ∀ s n, (stranger s).signing.pub ≠ (node n).identity.signing.pub

/-- The nodes, the frames on the sockets, and what the honest cells have done:
`sent` are the MSG packets of each session, `heard` the calls of its callback. -/
structure Mesh (ν κ : Type) where
  state : ν → NodeState
  toNode : ν × Nat → List Bytes
  toCell : κ → List Bytes
  listening : κ → Bool
  sent : κ → List Packet
  heard : κ → List (Packet × Bytes)

namespace Mesh

variable [DecidableEq ν] [DecidableEq κ]

def set (w : Mesh ν κ) (n : ν) (v : NodeState) : Mesh ν κ :=
  { w with state := Function.update w.state n v }

def push (w : Mesh ν κ) (e : ν × Nat) (frame : Bytes) : Mesh ν κ :=
  { w with toNode := Function.update w.toNode e (w.toNode e ++ [frame]) }

/-- A frame is put on a socket whose other end is `peer`. -/
def put (w : Mesh ν κ) : Peer ν κ σ → Bytes → Mesh ν κ
  | .node n ws,frame => w.push (n,ws) frame
  | .cell k,frame => { w with toCell := Function.update w.toCell k (w.toCell k ++ [frame]) }
  | .stranger _,_ => w

/-- A cell has sent one more message. -/
def tell (w : Mesh ν κ) (k : κ) (pkt : Packet) : Mesh ν κ :=
  { w with sent := Function.update w.sent k (w.sent k ++ [pkt]) }

/-- What each session has sent. -/
def said (w : Mesh ν κ) (k : κ) (pkt : Packet) : Prop := pkt ∈ w.sent k

end Mesh

namespace Parties

/-- The key proven in a handshake over the socket. -/
def key (S : Parties ν κ σ L) : Peer ν κ σ → Bytes
  | .node n _ => (S.node n).identity.signing.pub
  | .cell k => (S.client k).identity.signing.pub
  | .stranger s => (S.stranger s).signing.pub

/-- A connection of node `n` that is the outcome of a handshake. -/
def Authenticated (S : Parties ν κ σ L) (n : ν) (conn : PeerConnection) : Prop :=
  conn.peerSigningPubkey = S.key (S.far (n,conn.ws)) ∧
    conn.peerNodeId = hex conn.peerSigningPubkey

section Steps

variable [DecidableEq ν] [DecidableEq κ]

/-- Frames arrive in order. Connections are lost at any time. -/
def Answers (S : Parties ν κ σ L) (n : ν) (w : Mesh ν κ) :
    (q : Req) → Ans q → Mesh ν κ → Prop
  | .wsSend conn frame,a,w' => (a = .ok () ∧ w' = w.put (S.far (n,conn.ws)) frame) ∨
      (a = .error .connectionClosed ∧ w' = w)
  | .wsRecv conn,a,w' =>
    match a with
    | some raw => ∃ rest, w.toNode (n,conn.ws) = raw :: rest ∧
        w' = { w with toNode := Function.update w.toNode (n,conn.ws) rest }
    | none => w' = w
  | .dial expected _,a,w' => w' = w ∧ ∀ conn, a = .ok conn →
      S.Authenticated n conn ∧ expects expected conn.peerNodeId = true
  | .accept,a,w' => w' = w ∧ ∀ conn, a = .ok conn → S.Authenticated n conn
  | q,a,w' => ∃ v, (w.state n).Answers q a v ∧ w' = w.set n v

/-- What the tasks of node `n` are. The node does not write in the name of one of
the cells itself. -/
inductive Performs (S : Parties ν κ σ L) (n : ν) : NodeProg Unit → Prop where
  | receive (conn : PeerConnection) (incoming : Bool) (h : S.Authenticated n conn) :
      Performs S n (Node.recvRound (S.node n) conn incoming)
  | incoming : Performs S n Transport.handleIncoming
  | turn : Performs S n (GossipEngine.turn (S.node n))
  | join (address : String) : Performs S n (Node.join L address)
  | register (cellId : String) (signingPub encPub : Bytes) :
      Performs S n (Node.registerCellLocally (S.node n) cellId signingPub encPub)
  | send (receiver : String) (plaintext : Bytes) (sender : Option String)
      (h : ∀ c, sender = some c → ∀ k m, c ++ "@" ++ (S.node n).id ≠
        CellClient.address (S.client k).cellId m) :
      Performs S n (Node.sendMessage (S.node n) receiver plaintext sender)

/-- A cell sends a message to anybody. -/
def Sends (S : Parties ν κ σ L) (w w' : Mesh ν κ) : Prop :=
  ∃ k st rnd toCellId toNodeId key plaintext pkt frame,
    (S.client k).send st rnd toCellId toNodeId key plaintext = .ok (pkt,frame) ∧
    w' = (w.tell k pkt).push (S.socket k) frame

/-- A cell registers on its node. -/
def Registers (S : Parties ν κ σ L) (w w' : Mesh ν κ) : Prop :=
  ∃ k st frame, (S.client k).registration st = .ok frame ∧ w' = w.push (S.socket k) frame

/-- A cell takes one frame from its socket. -/
def Reads (S : Parties ν κ σ L) (w w' : Mesh ν κ) : Prop :=
  ∃ k raw rest, w.listening k = true ∧ w.toCell k = raw :: rest ∧
    w' = { w with
      toCell := Function.update w.toCell k rest
      listening := Function.update w.listening k ((S.client k).receive raw).isOk
      heard := Function.update w.heard k (match (S.client k).receive raw with
        | .ok (some call) => w.heard k ++ [call]
        | _ => w.heard k) }

/-- A stranger sends any frame on a connection of its own. -/
def Intrudes (S : Parties ν κ σ L) (w w' : Mesh ν κ) : Prop :=
  ∃ s e raw, S.far e = .stranger s ∧ w' = w.push e raw

def rules (S : Parties ν κ σ L) : Rules (ν × ι) Req Ans Err Unit (Mesh ν κ) where
  answer := fun i w q a w' => S.Answers i.1 w q a w'
  start := fun i w p w' => S.Performs i.1 p ∧ w' = w
  drift := fun w w' => S.Sends w w' ∨ S.Registers w w' ∨ S.Reads w w' ∨ S.Intrudes w w'

end Steps

def initial (state : ν → NodeState) : Pool (ν × ι) Req Ans Err Unit (Mesh ν κ) :=
  ⟨fun _ => .ret (),fun _ => [],fun _ => .ret (),
    ⟨state,fun _ => [],fun _ => [],fun _ => true,fun _ => [],fun _ => []⟩⟩

/-- The MSG packet `p`, as it was sent, says what `pkt` says. -/
def Copies (p pkt : Packet) : Prop :=
  p.type = .str T.msg ∧ p.fromAddr = pkt.fromAddr ∧ p.toAddr = pkt.toAddr ∧
    ∃ b, p.payload = .bin b ∧ pkt.payload = .bin b

/-- If the packet is a message in the name of one of the cells, that cell has sent
it. -/
def Genuine (S : Parties ν κ σ L) (said : κ → Packet → Prop) (pkt : Packet) : Prop :=
  pkt.type = .str T.msg → ∀ k m, pkt.fromAddr = .str (CellClient.address (S.client k).cellId m) →
    ∃ i p, (S.client i).cellId = (S.client k).cellId ∧ said i p ∧ Copies p pkt

/-- What the receive loop of the socket lets through is genuine. -/
def Passes (S : Parties ν κ σ L) (said : κ → Packet → Prop) (e : ν × Nat) (raw : Bytes) : Prop :=
  ∀ pkt, unpack L raw = .ok pkt → verifyPacket L pkt (S.key (S.far e)) = .ok true →
    S.Genuine said pkt

/-- The strangers send no message in the name of one of the cells, unless that cell
has sent it. -/
def Vouched (S : Parties ν κ σ L) (w w' : Mesh ν κ) : Prop :=
  ∀ s e raw, S.far e = .stranger s → w'.toNode e = w.toNode e ++ [raw] → S.Passes w.said e raw

section Packets

variable {S : Parties ν κ σ L} {said : κ → Packet → Prop} {pkt p : Packet}

theorem Genuine.mono {said' : κ → Packet → Prop} (h : S.Genuine said pkt)
    (hle : said ≤ said') : S.Genuine said' pkt := by
  intro hty k m hfrom
  obtain ⟨i,p,hid,hsaid,hc⟩ := h hty k m hfrom
  exact ⟨i,p,hid,hle i p hsaid,hc⟩

/-- Only these fields count. -/
theorem Genuine.of_fields (h : S.Genuine said p) (hty : pkt.type = p.type)
    (hfrom : pkt.fromAddr = p.fromAddr) (hto : pkt.toAddr = p.toAddr)
    (hpay : pkt.payload = p.payload.orEmpty) : S.Genuine said pkt := by
  intro ht k m hf
  obtain ⟨i,q,hid,hsaid,hqt,hqf,hqo,b,hb,hpb⟩ := h (hty ▸ ht) k m (hfrom ▸ hf)
  exact ⟨i,q,hid,hsaid,hqt,hqf.trans hfrom.symm,hqo.trans hto.symm,b,hb,by simp [hpay,hpb]⟩

theorem genuine_of_type (h : p.type ≠ .str T.msg) : S.Genuine said p := fun ht => (h ht).elim

theorem genuine_unpack (hp : L.PackLaws) {self : Node L} {signed : Packet} {frame : Bytes}
    (h : S.Genuine said p) (hw : Transport.wireForm self p = .ok (signed,frame))
    (hu : unpack L frame = .ok pkt) : S.Genuine said pkt := by
  obtain ⟨hsign,hpack⟩ := wireForm_ok hw
  rw [unpack_pack_signed hp hsign hpack] at hu
  obtain ⟨m,hm,rfl⟩ := signPacket_ok hsign
  obtain ⟨_,_,_,_,payload,_,_,_,_,hpay⟩ := signData_ok hm
  cases hu
  exact h.of_fields rfl rfl rfl (by simp [hpay])

theorem genuine_deserialize (hp : L.PackLaws) {payload : Bytes} (h : S.Genuine said p)
    (hs : serializePacket L p = .ok payload) (hd : deserializePacket L payload = some pkt) :
    S.Genuine said pkt := by
  rw [deserialize_serialize hp hs] at hd
  cases hd
  exact h.of_fields rfl rfl rfl rfl

theorem genuine_send (hp : L.PackLaws) {k : κ} {st : Stamp} {rnd : SealRandom}
    {toCellId toNodeId : String} {key plaintext frame : Bytes}
    (h : (S.client k).send st rnd toCellId toNodeId key plaintext = .ok (p,frame))
    (hsaid : said k p) (hu : unpack L frame = .ok pkt) : S.Genuine said pkt := by
  obtain ⟨enc,payload,_,_,hsign,hf⟩ := CellClient.send_ok h
  rw [unpack_pack_signed hp hsign hf] at hu
  obtain ⟨m,_,rfl⟩ := signPacket_ok hsign
  cases hu
  intro _ j n hfrom
  have hids : splitAddr (CellClient.address (S.client k).cellId (S.client k).nodeId) =
      some ((S.client k).cellId,(S.client k).nodeId) := splitAddr_join (at_not_mem_hex _) _
  have hidj : splitAddr (CellClient.address (S.client j).cellId n) =
      some ((S.client j).cellId,n) := splitAddr_join (at_not_mem_hex _) _
  have haddr : CellClient.address (S.client k).cellId (S.client k).nodeId =
      CellClient.address (S.client j).cellId n := by simpa [CellClient.message] using hfrom
  rw [haddr,hidj,Option.some.injEq,Prod.mk.injEq] at hids
  exact ⟨k,_,hids.1.symm,hsaid,rfl,rfl,rfl,payload,rfl,rfl⟩

end Packets

/-- A row of a mailbox that, if it can be read, is genuine. -/
def Keepsake (S : Parties ν κ σ L) (said : κ → Packet → Prop) (payload : Bytes) : Prop :=
  ∀ pkt, deserializePacket L payload = some pkt → S.Genuine said pkt

/-- What a node sends and buffers is genuine. -/
def guard (S : Parties ν κ σ L) (said : κ → Packet → Prop) : Req → Prop
  | .wsSend _ frame => ∀ pkt, unpack L frame = .ok pkt → S.Genuine said pkt
  | .store (.bufferMessage _ _ _ payload) => S.Keepsake said payload
  | _ => True

/-- So is what it reads. -/
def rely (S : Parties ν κ σ L) (n : ν) (said : κ → Packet → Prop) : (q : Req) → Ans q → Prop
  | .wsRecv conn,some raw => S.Passes said (n,conn.ws) raw
  | .store (.getBuffered _),rows => ∀ r ∈ rows, S.Keepsake said r.payload
  | _,_ => True

section Programs

variable {S : Parties ν κ σ L} {n : ν} {said : κ → Packet → Prop} {pkt : Packet}

/-- Requests that are no message of a cell. -/
def Silent (S : Parties ν κ σ L) (q : Req) : Prop := ∀ said, S.guard said q

theorem keeps_of_silent {p : NodeProg Unit} (h : Obeys S.Silent (fun _ _ => True) (fun _ => True) p) :
    Keeps S.guard (S.rely n) (fun _ _ => True) said p :=
  h.keeps said (fun u _ _ hq => hq u) (fun _ _ _ _ _ => trivial)

theorem keeps_route (hp : L.PackLaws) (h : S.Genuine said pkt) {self : Node L} :
    Keeps S.guard (S.rely n) (fun _ _ => True) said (Router.route self pkt) := by
  refine (Router.route_allowed pkt).keeps said (fun u hu q hq => ?_) (fun _ _ _ _ _ => trivial)
  have hnow := h.mono hu
  rcases hq with hq | hq
  · cases q with
    | wsSend conn frame =>
      obtain ⟨signed,hw⟩ := hq
      exact fun p hp' => genuine_unpack hp hnow hw hp'
    | store op =>
      cases op with
      | bufferMessage k cell home payload => exact hq.elim
      | _ => trivial
    | _ => trivial
  · cases q with
    | store op =>
      cases op with
      | bufferMessage k cell home payload =>
        obtain ⟨_,_,p,⟨s,rfl⟩,hs⟩ := hq
        refine fun r hr => genuine_deserialize hp ?_ hs hr
        exact fun ht k m hf => hnow ht k m hf
      | _ => trivial
    | _ => trivial

theorem silent_turn (hp : L.PackLaws) {self : Node L} :
    Obeys S.Silent (fun _ _ => True) (fun _ => True) (GossipEngine.turn self) := by
  have hturns : Heeds (GossipEngine.Turns self) (fun _ _ => True) (fun _ _ => True) []
      (GossipEngine.turn self) := GossipEngine.turn_turns
  refine hturns.obeys (fun later q hq => ?_)
  cases q with
  | wsSend conn frame =>
    rcases hq with ⟨k,st,signed,hw⟩ | ⟨rows,_,st,g,signed,hg,hw⟩
    · have hty : (makePing st (.str self.id) k.toVal).type ≠ .str T.msg := by
        simp [makePing,T.ping,T.msg]
      exact fun said r hr => genuine_unpack hp (genuine_of_type hty) hw hr
    · have hty : g.type ≠ .str T.msg := by
        obtain ⟨payload,_,rfl⟩ := makeEncoded_ok hg
        simp [T.gossip,T.msg]
      exact fun said r hr => genuine_unpack hp (genuine_of_type hty) hw hr
  | store op =>
    cases op with
    | bufferMessage k cell home payload => exact hq.elim
    | _ => exact fun _ => trivial
  | _ => exact fun _ => trivial

theorem silent_join (address : String) :
    Obeys S.Silent (fun _ _ => True) (fun _ => True) (Node.join L address) := by
  have hput : ∀ entry : NodeEntry, Obeys S.Silent (fun _ _ => True) (fun _ => True)
      (Storage.putNode L entry) := by
    refine fun entry => putNode_puts.mono_guard (fun q hq => ?_)
    rcases hq with rfl | ⟨row,_,rfl⟩ <;> exact fun _ => trivial
  unfold Node.join Transport.connect
  split
  · trivial
  · refine ⟨fun _ => trivial,fun dialled _ => ?_⟩
    cases dialled with
    | error e => trivial
    | ok conn =>
      refine ⟨fun _ => trivial,fun _ _ => ⟨fun _ => trivial,fun _ _ => ?_⟩⟩
      exact ⟨fun _ => trivial,fun _ _ => ⟨fun _ => trivial,fun _ _ => hput _⟩⟩

/-- The rows that a registration flushes were genuine when it read them. -/
theorem keeps_flushBuffer (hp : L.PackLaws) {self : Node L} (cellId : String) :
    Keeps S.guard (S.rely n) (fun _ _ => True) said (Router.flushBuffer self cellId) := by
  refine ⟨trivial,fun u _ rows hrows => Keeps.forEach (fun r hr v hv => ?_)⟩
  unfold Router.flushMessage
  cases hd : deserializePacket L r.payload with
  | none => trivial
  | some p =>
    exact (keeps_route hp ((hrows r hr p hd).mono hv)).bind
      (fun _ _ _ _ => ⟨trivial,fun _ _ _ _ => trivial⟩)

theorem keeps_dispatch (hp : L.PackLaws) {self : Node L} (h : S.Genuine said pkt)
    (conn : PeerConnection) :
    Keeps S.guard (S.rely n) (fun _ _ => True) said (Node.dispatch self pkt conn) := by
  by_cases hreg : pkt.type = .str T.cellRegister
  · rw [dispatch_cellRegister _ hreg]
    unfold Node.handleCellRegister
    cases Node.cellClaim L pkt with
    | error e => trivial
    | ok c =>
      simp only
      split
      · trivial
      · split
        · trivial
        · exact ⟨trivial,fun _ _ _ _ => ⟨trivial,fun _ _ _ _ => keeps_flushBuffer hp _⟩⟩
  · have hwithin : Within self (fun _ => True) pkt conn (Node.dispatch self pkt conn) :=
      within_dispatch
    have hrouted : ∀ p, Routed L (fun _ => True) pkt p → p = pkt := by
      rintro p (⟨_,he⟩ | ⟨hty,_⟩)
      · exact he
      · exact (hreg hty).elim
    refine hwithin.keeps said (fun u hu q hq => ?_) (fun u _ q a _ => Registration.readsWaiting_all q a)
    have hnow := h.mono hu
    cases q with
    | wsSend c frame =>
      rcases hq with ⟨p,signed,hr,hw⟩ | ⟨_,p,signed,hty,hw⟩
      · cases hrouted p hr
        exact fun r hr => genuine_unpack hp hnow hw hr
      · refine fun r hr => genuine_unpack hp (genuine_of_type ?_) hw hr
        rcases hty with hty | hty <;> simp [hty,T.pong,T.presenceResponse,T.msg]
    | store op =>
      cases op with
      | bufferMessage k cell home payload =>
        obtain ⟨p,hr,_,_,p',⟨s,rfl⟩,hs⟩ := hq
        cases hrouted p hr
        refine fun r hr => genuine_deserialize hp ?_ hs hr
        exact fun ht k m hf => hnow ht k m hf
      | _ => trivial
    | _ => trivial

theorem keeps_recvRound (hp : L.PackLaws) {self : Node L} {conn : PeerConnection}
    (hconn : S.Authenticated n conn) (incoming : Bool) :
    Keeps S.guard (S.rely n) (fun _ _ => True) said (Node.recvRound self conn incoming) := by
  have hfinish : ∀ v, Keeps S.guard (S.rely n) (fun _ _ => True) v
      (Transport.finishRecv conn incoming) := by
    refine fun v => ⟨trivial,fun _ _ _ _ => ⟨trivial,fun _ _ _ _ => ?_⟩⟩
    cases incoming with
    | false => trivial
    | true => exact ⟨trivial,fun _ _ _ _ => trivial⟩
  refine ⟨trivial,fun u _ frame hframe => ?_⟩
  cases frame with
  | none => exact hfinish u
  | some raw =>
    refine Keeps.rescue ?_ (fun v _ _ => hfinish v)
    unfold Transport.handleFrame
    cases hu : unpack L raw with
    | error e => trivial
    | ok pkt =>
      cases hv : verifyPacket L pkt conn.peerSigningPubkey with
      | error e => simp only [Prog.ofExcept_ok,Prog.bind_eq,Prog.bind_ret]; rw [hv]; trivial
      | ok valid =>
        cases valid with
        | false => simp only [Prog.ofExcept_ok,Prog.bind_eq,Prog.bind_ret]; rw [hv]; trivial
        | true =>
          simp only [Prog.ofExcept_ok,Prog.bind_eq,Prog.bind_ret]
          rw [hv]
          have hgenuine : S.Genuine u pkt := hframe pkt hu (by rw [← hconn.1]; exact hv)
          exact (keeps_dispatch hp hgenuine conn).rescue (fun _ _ _ => trivial)

theorem keeps_sendMessage (hp : L.PackLaws) (receiver : String) (plaintext : Bytes)
    {sender : Option String} (h : ∀ c, sender = some c → ∀ k m, c ++ "@" ++ (S.node n).id ≠
      CellClient.address (S.client k).cellId m) :
    Keeps S.guard (S.rely n) (fun _ _ => True) said
      (Node.sendMessage (S.node n) receiver plaintext sender) := by
  have hown : ∀ k m, (S.node n).id ≠ CellClient.address (S.client k).cellId m := by
    intro k m he
    refine at_not_mem_hex (S.node n).identity.signing.pub ?_
    have hmem : '@' ∈ (CellClient.address (S.client k).cellId m).toList := by
      simp [CellClient.address]
    rw [← he] at hmem
    exact hmem
  have hof : ∀ {α : Type} (v : κ → Packet → Prop) (x : Except Err α),
      Keeps S.guard (S.rely n) (fun _ _ => True) v (Prog.ofExcept x : NodeProg α) :=
    fun v x => by cases x <;> trivial
  unfold Node.sendMessage
  split
  · trivial
  · refine ⟨trivial,fun _ _ cell _ => ?_⟩
    cases cell with
    | none => trivial
    | some cell =>
      refine ⟨trivial,fun _ _ rnd _ => (hof _ _).bind (fun _ _ enc _ => (hof _ _).bind
        (fun _ _ payload _ => ⟨trivial,fun _ _ st _ => keeps_route hp ?_⟩))⟩
      intro _ k m hfrom
      cases sender with
      | none => exact (hown k m (by simpa using hfrom)).elim
      | some c =>
        by_cases hc : c = ""
        · exact (hown k m (by simpa [hc] using hfrom)).elim
        · exact (h c rfl k m (by simpa [hc] using hfrom)).elim

theorem keeps_performs (hp : L.PackLaws) {p : NodeProg Unit} (h : S.Performs n p) :
    Keeps S.guard (S.rely n) (fun _ _ => True) said p := by
  cases h with
  | receive conn incoming hconn => exact keeps_recvRound hp hconn incoming
  | incoming =>
    refine ⟨trivial,fun _ _ accepted _ => ?_⟩
    cases accepted with
    | error e => trivial
    | ok conn => exact ⟨trivial,fun _ _ _ _ => ⟨trivial,fun _ _ _ _ => trivial⟩⟩
  | turn => exact keeps_of_silent (silent_turn hp)
  | join address => exact keeps_of_silent (silent_join address)
  | register cellId signingPub encPub =>
    exact ⟨trivial,fun _ _ _ _ => ⟨trivial,fun _ _ _ _ => trivial⟩⟩
  | send receiver plaintext sender h => exact keeps_sendMessage hp receiver plaintext h

end Programs

/-- A row comes into a mailbox only by a request that keeps to the guard. -/
theorem mailbox_answers {S : Parties ν κ σ L} {said : κ → Packet → Prop} {q : Req} {a : Ans q}
    {v v' : NodeState} (h : v.Answers q a v') (hq : S.guard said q) :
    ∀ r ∈ v'.storage.messageBuffer.rows, r ∈ v.storage.messageBuffer.rows ∨
      S.Keepsake said r.payload := by
  intro r hr
  cases q with
  | store op =>
    obtain ⟨now,_,rfl⟩ := h
    cases op with
    | bufferMessage k cell home payload =>
      simp only [Storage.exec,Storage.bufferMessage,Table.mem_insertIgnore] at hr
      rcases hr with hr | ⟨rfl,_⟩
      · exact .inl hr
      · exact .inr hq
    | deleteBuffered k => exact .inl ((Table.mem_delete _ _ r).mp hr).1
    | cleanupExpiredMessages => exact .inl ((Table.mem_deleteWhere _ _ r).mp hr).1
    | _ => exact .inl hr
  | connGet nodeId =>
    obtain ⟨_,rfl⟩ := h
    exact .inl hr
  | _ =>
    cases h
    exact .inl hr

/-- Everything on its way and in store is genuine. -/
structure Vetted (S : Parties ν κ σ L) (w : Mesh ν κ) : Prop where
  inbox : ∀ e, ∀ raw ∈ w.toNode e, S.Passes w.said e raw
  mail : ∀ k, ∀ raw ∈ w.toCell k, ∀ pkt, unpack L raw = .ok pkt → S.Genuine w.said pkt
  mailbox : ∀ n, ∀ r ∈ (w.state n).storage.messageBuffer.rows, S.Keepsake w.said r.payload
  heard : ∀ k, ∀ call ∈ w.heard k, call.1.type = .str T.msg ∧ S.Genuine w.said call.1

section Worlds

variable {S : Parties ν κ σ L} {w w' : Mesh ν κ}

section

variable [DecidableEq κ]

theorem said_le_tell (w : Mesh ν κ) (k : κ) (pkt : Packet) : w.said ≤ (w.tell k pkt).said := by
  intro j p hp
  by_cases hj : j = k
  · subst hj
    simpa [Mesh.said,Mesh.tell] using Or.inl hp
  · simpa [Mesh.said,Mesh.tell,hj] using hp

theorem Vetted.tell (h : S.Vetted w) (k : κ) (pkt : Packet) : S.Vetted (w.tell k pkt) := by
  have hle := said_le_tell w k pkt
  exact ⟨fun e r hr p hu hv => (h.inbox e r hr p hu hv).mono hle,
    fun j r hr p hu => (h.mail j r hr p hu).mono hle,
    fun n r hr p hd => (h.mailbox n r hr p hd).mono hle,
    fun j call hc => ⟨(h.heard j call hc).1,(h.heard j call hc).2.mono hle⟩⟩

theorem Vetted.reads (h : S.Vetted w) (hr : S.Reads w w') : S.Vetted w' ∧ w.said ≤ w'.said := by
  obtain ⟨k,raw,rest,_,hq,rfl⟩ := hr
  refine ⟨⟨h.inbox,fun j r hr => ?_,h.mailbox,fun j call hc => ?_⟩,le_refl _⟩
  · by_cases hj : j = k
    · subst hj
      exact h.mail j r (by rw [hq]; exact List.mem_cons_of_mem _ (by simpa using hr))
    · exact h.mail j r (by simpa [hj] using hr)
  · by_cases hj : j = k
    · subst hj
      simp only [Function.update_self] at hc
      split at hc
      · rename_i heard hrecv
        obtain ⟨hu,_,hty,_⟩ := CellClient.receive_some hrecv
        have hor : call ∈ w.heard j ∨ call = heard := by simpa using hc
        rcases hor with hc | rfl
        · exact h.heard j call hc
        · exact ⟨hty,h.mail j raw (by simp [hq]) _ hu⟩
      · exact h.heard j call hc
    · exact h.heard j call (by simpa [hj] using hc)

end

variable [DecidableEq ν]

theorem Vetted.push (h : S.Vetted w) {e : ν × Nat} {raw : Bytes} (hraw : S.Passes w.said e raw) :
    S.Vetted (w.push e raw) := by
  refine ⟨fun e' r hr => ?_,h.mail,h.mailbox,h.heard⟩
  by_cases he : e' = e
  · subst he
    have hor : r ∈ w.toNode e' ∨ r = raw := by simpa [Mesh.push] using hr
    rcases hor with hr | rfl
    · exact h.inbox e' r hr
    · exact hraw
  · exact h.inbox e' r (by simpa [Mesh.push,he] using hr)

theorem Vetted.take (h : S.Vetted w) {e : ν × Nat} {raw : Bytes} {rest : List Bytes}
    (hq : w.toNode e = raw :: rest) :
    S.Vetted { w with toNode := Function.update w.toNode e rest } := by
  refine ⟨fun e' r hr => ?_,h.mail,h.mailbox,h.heard⟩
  by_cases he : e' = e
  · subst he
    exact h.inbox e' r (by rw [hq]; exact List.mem_cons_of_mem _ (by simpa using hr))
  · exact h.inbox e' r (by simpa [he] using hr)

theorem Vetted.set (h : S.Vetted w) {n : ν} {q : Req} {a : Ans q} {v : NodeState}
    (hv : (w.state n).Answers q a v) (hq : S.guard w.said q) : S.Vetted (w.set n v) := by
  refine ⟨h.inbox,h.mail,fun m r hr => ?_,h.heard⟩
  by_cases hm : m = n
  · subst hm
    rcases mailbox_answers hv hq r (by simpa [Mesh.set] using hr) with hr | hr
    · exact h.mailbox m r hr
    · exact hr
  · exact h.mailbox m r (by simpa [Mesh.set,hm] using hr)

variable [DecidableEq κ]

theorem Vetted.put (h : S.Vetted w) {frame : Bytes} (peer : Peer ν κ σ)
    (hf : ∀ pkt, unpack L frame = .ok pkt → S.Genuine w.said pkt) : S.Vetted (w.put peer frame) := by
  cases peer with
  | node n ws => exact h.push (fun pkt hu _ => hf pkt hu)
  | stranger s => exact h
  | cell k =>
    refine ⟨h.inbox,fun j r hr => ?_,h.mailbox,h.heard⟩
    by_cases hj : j = k
    · subst hj
      have hor : r ∈ w.toCell j ∨ r = frame := by simpa [Mesh.put] using hr
      rcases hor with hr | rfl
      · exact h.mail j r hr
      · exact hf
    · exact h.mail j r (by simpa [Mesh.put,hj] using hr)

theorem said_put (peer : Peer ν κ σ) (frame : Bytes) : (w.put peer frame).said = w.said := by
  cases peer <;> rfl

theorem Vetted.answers (h : S.Vetted w) {n : ν} {q : Req} {a : Ans q}
    (hans : S.Answers n w q a w') (hq : S.guard w.said q) :
    S.rely n w'.said q a ∧ S.Vetted w' ∧ w.said ≤ w'.said := by
  have hown : ∀ v, (w.state n).Answers q a v → S.Vetted (w.set n v) ∧ w.said ≤ (w.set n v).said :=
    fun v hv => ⟨h.set hv hq,le_refl _⟩
  cases q with
  | wsSend conn frame =>
    rcases hans with ⟨rfl,rfl⟩ | ⟨rfl,rfl⟩
    · exact ⟨trivial,h.put _ hq,by rw [said_put]⟩
    · exact ⟨trivial,h,le_refl _⟩
  | wsRecv conn =>
    cases a with
    | none =>
      cases hans
      exact ⟨trivial,h,le_refl _⟩
    | some raw =>
      obtain ⟨rest,hraw,rfl⟩ := hans
      exact ⟨h.inbox _ raw (by simp [hraw]),h.take hraw,le_refl _⟩
  | dial expected address =>
    obtain ⟨rfl,_⟩ := hans
    exact ⟨trivial,h,le_refl _⟩
  | accept =>
    obtain ⟨rfl,_⟩ := hans
    exact ⟨trivial,h,le_refl _⟩
  | store op =>
    obtain ⟨v,hv,rfl⟩ := hans
    refine ⟨?_,hown v hv⟩
    cases op with
    | getBuffered cellId =>
      obtain ⟨now,rfl,_⟩ := hv
      exact fun r hr => h.mailbox n r ((Storage.mem_getBuffered _ _ _ r).mp hr).1
    | _ => trivial
  | _ =>
    obtain ⟨v,hv,rfl⟩ := hans
    exact ⟨trivial,hown v hv⟩

end Worlds

/-- Every frame is put on a socket under the condition. -/
def vouched [DecidableEq ν] [DecidableEq κ] (S : Parties ν κ σ L) :
    Rules (ν × ι) Req Ans Err Unit (Mesh ν κ) :=
  S.rules.restrict (fun _ _ => True) S.Vouched

theorem registration_type (hp : L.PackLaws) {self : CellClient L} {st : Stamp} {frame : Bytes}
    {pkt : Packet} (h : self.registration st = .ok frame) (hu : unpack L frame = .ok pkt) :
    pkt.type = .str T.cellRegister := by
  obtain ⟨reg,signed,hty,hsign,hpack⟩ := CellClient.registration_ok h
  rw [unpack_pack_signed hp hsign hpack] at hu
  obtain ⟨m,_,rfl⟩ := signPacket_ok hsign
  cases hu
  exact hty

section Runs

variable [DecidableEq ν] [DecidableEq κ] [DecidableEq ι] {S : Parties ν κ σ L}
  {state : ν → NodeState} {P : Pool (ν × ι) Req Ans Err Unit (Mesh ν κ)}

def discipline (S : Parties ν κ σ L) (hp : L.PackLaws) :
    Discipline (κ → Packet → Prop) (vouched (ι := ι) S) where
  inv := S.Vetted
  view := Mesh.said
  guard := fun _ => S.guard
  rely := fun i => S.rely i.1
  mono := by
    intro i v u q hvu hq
    cases q with
    | wsSend conn frame => exact fun pkt hu => (hq pkt hu).mono hvu
    | store op =>
      cases op with
      | bufferMessage k cell home payload => exact fun pkt hd => (hq pkt hd).mono hvu
      | _ => trivial
    | _ => trivial
  answer := fun i w q a w' h hw hq => hw.answers h.1 hq
  start := by
    rintro i w p w' ⟨hperforms,rfl⟩ hw
    exact ⟨keeps_performs hp hperforms,hw,le_refl _⟩
  drift := by
    rintro w w' ⟨hd,hvouched⟩ hw
    rcases hd with ⟨k,st,rnd,c,m,key,plaintext,pkt,frame,hsend,rfl⟩ | ⟨k,st,frame,hreg,rfl⟩ | hr |
      ⟨s,e,raw,hfar,rfl⟩
    · have hsaid : (w.tell k pkt).said k pkt := by simp [Mesh.said,Mesh.tell]
      have htold := hw.tell k pkt
      exact ⟨htold.push (fun p hu _ => genuine_send hp hsend hsaid hu),said_le_tell w k pkt⟩
    · refine ⟨hw.push (fun p hu _ => genuine_of_type ?_),le_refl _⟩
      simp [registration_type hp hreg hu,T.cellRegister,T.msg]
    · exact hw.reads hr
    · exact ⟨hw.push (hvouched s e raw hfar (by simp [Mesh.push])),le_refl _⟩

/-- When the strangers send nothing in the name of the cells, a message that a cell
is given has been sent by the cell it names. -/
theorem heard_was_sent (hp : L.PackLaws)
    (hempty : ∀ n, (state n).storage.messageBuffer.rows = [])
    (hrun : Pool.Steps (vouched (ι := ι) S) (initial state) P) {k j : κ} {pkt : Packet}
    {plaintext : Bytes} (hheard : (pkt,plaintext) ∈ P.world.heard k) {m : String}
    (hfrom : pkt.fromAddr = .str (CellClient.address (S.client j).cellId m)) :
    ∃ i p, (S.client i).cellId = (S.client j).cellId ∧ p ∈ P.world.sent i ∧
      p.type = .str T.msg ∧ p.fromAddr = pkt.fromAddr ∧ p.toAddr = pkt.toAddr ∧
      p.payload = pkt.payload := by
  have hstart : (discipline (ι := ι) S hp).Holds (initial state) := by
    refine ⟨⟨?_,?_,fun n r hr => ?_,?_⟩,fun _ => trivial⟩
    · simp [initial]
    · simp [initial]
    · rw [show (initial (κ := κ) (ι := ι) state).world.state n = state n from rfl,hempty n] at hr
      cases hr
    · simp [initial]
  obtain ⟨hty,hgenuine⟩ := (hstart.steps hrun).1.heard k _ hheard
  obtain ⟨i,p,hid,hsaid,hpt,hpf,hpo,b,hb,hpb⟩ := hgenuine hty j m hfrom
  exact ⟨i,p,hid,hsaid,hpt,hpf,hpo,hb.trans hpb.symm⟩

end Runs

/-- A task of node `n` answered alone, every frame it sends arriving. -/
def handler [DecidableEq ν] [DecidableEq κ] (S : Parties ν κ σ L)
    (accepted : Except Err PeerConnection) (n : ν) : Handler Req Ans (Mesh ν κ)
  | .wsSend conn frame,w => (.ok (),w.put (S.far (n,conn.ws)) frame)
  | .wsRecv conn,w =>
    match w.toNode (n,conn.ws) with
    | raw :: rest => (some raw,{ w with toNode := Function.update w.toNode (n,conn.ws) rest })
    | [] => (none,w)
  | .dial _ _,w => (.error .connectionClosed,w)
  | .accept,w => (accepted,w)
  | q,w => ((calmEnv.handler q ⟨w.state n,0⟩).1,w.set n (calmEnv.handler q ⟨w.state n,0⟩).2.state)

theorem answers_handler [DecidableEq ν] [DecidableEq κ] {S : Parties ν κ σ L}
    {accepted : Except Err PeerConnection} {n : ν}
    (h : ∀ conn, accepted = .ok conn → S.Authenticated n conn) (q : Req) (w : Mesh ν κ) :
    S.Answers n w q (S.handler accepted n q w).1 (S.handler accepted n q w).2 := by
  have hans := NodeState.answers_handler calmEnv q ⟨w.state n,0⟩
  cases q with
  | wsSend conn frame => exact .inl ⟨rfl,rfl⟩
  | wsRecv conn =>
    cases hq : w.toNode (n,conn.ws) with
    | nil => simp [handler,hq,Answers]
    | cons raw rest =>
      simp only [handler,hq]
      exact ⟨rest,hq,rfl⟩
  | dial expected address => exact ⟨rfl,fun conn he => by cases he⟩
  | accept => exact ⟨rfl,h⟩
  | _ => exact ⟨_,hans,rfl⟩

/-- A cell reads the first frame that waits for it. -/
def read [DecidableEq κ] (S : Parties ν κ σ L) (k : κ) (w : Mesh ν κ) : Mesh ν κ :=
  match w.toCell k with
  | [] => w
  | raw :: rest => { w with
      toCell := Function.update w.toCell k rest
      listening := Function.update w.listening k ((S.client k).receive raw).isOk
      heard := Function.update w.heard k (match (S.client k).receive raw with
        | .ok (some call) => w.heard k ++ [call]
        | _ => w.heard k) }

theorem reads_read [DecidableEq κ] {S : Parties ν κ σ L} {w : Mesh ν κ} {k : κ}
    (hl : w.listening k = true) (hq : w.toCell k ≠ []) : S.Reads w (S.read k w) := by
  unfold Parties.read
  cases hw : w.toCell k with
  | nil => exact (hq hw).elim
  | cons raw rest => exact ⟨k,raw,rest,hl,hw,rfl⟩

section Reached

variable [DecidableEq ν] [DecidableEq ι] {S : Parties ν κ σ L}
  {R : Rules (ν × ι) Req Ans Err Unit (Mesh ν κ)} {w w' : Mesh ν κ}

variable (R) in
/-- The state can be reached with all tasks at rest, from empty nodes. -/
def Reached (w : Mesh ν κ) : Prop :=
  ∃ P, Pool.Steps R (initial (fun _ => ⟨Storage.empty,ConnectionRegistry.empty⟩)) P ∧
    (∀ i, (P.tasks i).Done) ∧ P.world = w

theorem Reached.drift (h : Reached R w) (hd : R.drift w w') : Reached R w' := by
  obtain ⟨P,hP,ht,rfl⟩ := h
  exact ⟨_,hP.tail (.drift w' hd),ht,rfl⟩

variable [DecidableEq κ]

theorem Reached.of_vouched (h : Reached (vouched (ι := ι) S) w) : Reached (rules (ι := ι) S) w := by
  obtain ⟨P,hP,ht,hw⟩ := h
  exact ⟨P,hP.lift id (fun _ _ hs => Pool.Step.of_restrict (R := rules S) hs),ht,hw⟩

/-- The tasks of the nodes run as they do. -/
def Serves (S : Parties ν κ σ L) (R : Rules (ν × ι) Req Ans Err Unit (Mesh ν κ)) : Prop :=
  (∀ i w q a w', S.Answers i.1 w q a w' → R.answer i w q a w') ∧
    ∀ i w p, S.Performs i.1 p → R.start i w p w

omit [DecidableEq ι] in
theorem serves_rules : Serves S (rules (ι := ι) S) :=
  ⟨fun _ _ _ _ _ h => h,fun _ _ _ h => ⟨h,rfl⟩⟩

omit [DecidableEq ι] in
theorem serves_vouched : Serves S (vouched (ι := ι) S) :=
  ⟨fun _ _ _ _ _ h => ⟨h,trivial⟩,fun _ _ _ h => ⟨h,rfl⟩⟩

theorem Reached.task (h : Reached R w) (hR : Serves S R) {i : ν × ι} {p : NodeProg Unit}
    {accepted : Except Err PeerConnection} (hp : S.Performs i.1 p)
    (haccept : ∀ conn, accepted = .ok conn → S.Authenticated i.1 conn) :
    Reached R (run (S.handler accepted i.1) p w).final := by
  obtain ⟨P,hP,ht,rfl⟩ := h
  have hallow := Rules.allows_run (R := R) (i := i) (S.handler accepted i.1) id
    (fun _ _ => true) (fun q v _ => hR.1 i v q _ _ (answers_handler haccept q v)) p P.world
    (Handler.passes_true _ _ _)
  obtain ⟨P',hs,_,_,ht',hw'⟩ := Pool.exists_run_of_start (ht i) (hR.2 i P.world p hp)
    (run_path (S.handler accepted i.1) p P.world) hallow
  refine ⟨P',hP.trans hs,fun j => ?_,hw'⟩
  rw [ht']
  by_cases hj : j = i
  · subst hj
    rw [Function.update_self]
    exact Prog.done_ofExcept _
  · rw [Function.update_of_ne hj]
    exact ht j

end Reached

/-- Two cells and a stranger on one node. -/
def sampleParties : Parties Unit Bool Unit shortSigLib where
  node := fun _ => sampleNode false
  client := fun k => sampleClient (if k then 3 else 2)
  stranger := fun _ => sampleIdentity shortSigLib 4
  far := fun e => if e.2 = 2 then .cell false else if e.2 = 3 then .cell true else .stranger ()
  socket := fun k => ((),if k then 3 else 2)
  far_far := by
    intro e n ws h
    split at h
    · cases h
    · split at h <;> cases h
  far_cell := by
    rintro ⟨_,ws⟩ k
    by_cases h2 : ws = 2
    · subst h2
      cases k <;> simp
    · by_cases h3 : ws = 3
      · subst h3
        cases k <;> simp
      · cases k <;> simp [h2,h3,Ne.symm h2,Ne.symm h3]
  nodeId := fun _ => rfl
  nodeKey := fun _ => rfl
  key_ne_cell := fun _ k => by cases k <;> decide +kernel
  key_ne_node := fun _ _ => by decide +kernel

/-- The node's connection with cell 2, with cell 3 or with the stranger, made and
ready for the first frame. -/
def sampleJoined (conn : PeerConnection) (w : Mesh Unit Bool) : Mesh Unit Bool :=
  (run (sampleParties.handler (.ok conn) ()) Transport.handleIncoming w).final

/-- The node handles one frame. -/
def sampleServed (conn : PeerConnection) (w : Mesh Unit Bool) : Mesh Unit Bool :=
  (run (sampleParties.handler (.ok conn) ()) (Node.recvRound (sampleNode false) conn true) w).final

theorem sampleConn_authenticated :
    sampleParties.Authenticated () (sampleConn 2 2) ∧
      sampleParties.Authenticated () (sampleConn 3 3) ∧
      sampleParties.Authenticated () (sampleConn 5 4) :=
  ⟨⟨rfl,rfl⟩,⟨rfl,rfl⟩,⟨rfl,rfl⟩⟩

theorem Reached.joined {R : Rules (Unit × Unit) Req Ans Err Unit (Mesh Unit Bool)}
    {w : Mesh Unit Bool} (h : Reached R w) (hR : Serves sampleParties R) {conn : PeerConnection}
    (hconn : sampleParties.Authenticated () conn) : Reached R (sampleJoined conn w) :=
  h.task hR (i := ((),())) .incoming (fun c hc => by cases hc; exact hconn)

theorem Reached.served {R : Rules (Unit × Unit) Req Ans Err Unit (Mesh Unit Bool)}
    {w : Mesh Unit Bool} (h : Reached R w) (hR : Serves sampleParties R) {conn : PeerConnection}
    (hconn : sampleParties.Authenticated () conn) : Reached R (sampleServed conn w) :=
  h.task hR (i := ((),())) (.receive conn true hconn) (fun c hc => by cases hc; exact hconn)

/-- Nothing of the strangers' is new. -/
theorem vouched_of_toNode {S : Parties ν κ σ L} {w w' : Mesh ν κ}
    (h : ∀ e s, S.far e = .stranger s → w'.toNode e = w.toNode e) : S.Vouched w w' := by
  intro s e raw hfar hq
  rw [h e s hfar] at hq
  exact absurd hq (by simp)

def sampleRegistration : Bytes := ((sampleClient 3).registration ⟨"r",0⟩).toOption.getD []

/-- The first cell is registered on the node. -/
def sampleBegun : Mesh Unit Bool :=
  sampleServed (sampleConn 3 3) ((sampleJoined (sampleConn 3 3)
    ⟨fun _ => ⟨Storage.empty,ConnectionRegistry.empty⟩,fun _ => [],fun _ => [],fun _ => true,
      fun _ => [],fun _ => []⟩).push ((),3) sampleRegistration)

theorem reached_begun : Reached (vouched (ι := Unit) sampleParties) sampleBegun := by
  obtain ⟨_,hconn,_⟩ := sampleConn_authenticated
  have hstart : Reached (vouched (ι := Unit) sampleParties)
      ⟨fun _ => ⟨Storage.empty,ConnectionRegistry.empty⟩,fun _ => [],fun _ => [],fun _ => true,
        fun _ => [],fun _ => []⟩ := ⟨_,.refl,fun _ => trivial,rfl⟩
  refine ((hstart.joined serves_vouched hconn).drift ⟨.inr (.inl ?_),?_⟩).served serves_vouched hconn
  · exact ⟨true,⟨"r",0⟩,sampleRegistration,ok_toOption (by decide +kernel) [],rfl⟩
  · refine vouched_of_toNode (fun e s hfar => ?_)
    have he : e ≠ ((),3) := by
      rintro rfl
      cases hfar
    simp [Mesh.push,he]

/-- The stranger signs a message that names cell 2 as its sender. -/
def sampleForgery : Bytes :=
  (do
    let enc ← encrypt shortSigLib .zero (utf8 "hi") (sampleClient 3).identity.encryption.pub
    let payload ← encodePayload shortSigLib (Node.sealedPayload enc)
    let pkt ← signPacket shortSigLib ((sampleClient 2).message ⟨"m",0⟩ (sampleClient 3).cellId
      (sampleNode false).id payload) (sampleIdentity shortSigLib 4).signing
    pack shortSigLib pkt : Except Err Bytes).toOption.getD []

def sampleDeceived : Mesh Unit Bool :=
  sampleServed (sampleConn 5 4) ((sampleJoined (sampleConn 5 4) sampleBegun).push ((),5)
    sampleForgery)

theorem reached_deceived : Reached (rules (ι := Unit) sampleParties) sampleDeceived := by
  obtain ⟨_,_,hconn⟩ := sampleConn_authenticated
  have hjoined : Reached (rules (ι := Unit) sampleParties)
      (sampleJoined (sampleConn 5 4) sampleBegun) :=
    (Reached.of_vouched reached_begun).joined serves_rules hconn
  have hintrudes : sampleParties.Intrudes (sampleJoined (sampleConn 5 4) sampleBegun)
      ((sampleJoined (sampleConn 5 4) sampleBegun).push ((),5) sampleForgery) :=
    ⟨(),((),5),sampleForgery,rfl,rfl⟩
  exact (hjoined.drift (.inr (.inr (.inr hintrudes)))).served serves_rules hconn

/-- Cell 3 has a message to read that names cell 2. -/
def named (w : Mesh Unit Bool) : Bool :=
  w.listening true && !(w.toCell true).isEmpty &&
    ((sampleParties.read true w).heard true).any (fun c => c.1.fromAddr.eqStr
      (CellClient.address (sampleParties.client false).cellId (sampleNode false).id))

theorem exists_heard {R : Rules (Unit × Unit) Req Ans Err Unit (Mesh Unit Bool)}
    {w : Mesh Unit Bool} (h : Reached R w) (hR : ∀ w', sampleParties.Reads w w' → R.drift w w')
    (hnamed : named w = true) :
    ∃ P, Pool.Steps R (initial (fun _ => ⟨Storage.empty,ConnectionRegistry.empty⟩)) P ∧
      P.world.sent = w.sent ∧ ∃ pkt plaintext, (pkt,plaintext) ∈ P.world.heard true ∧
        pkt.fromAddr = .str (CellClient.address (sampleParties.client false).cellId
          (sampleNode false).id) := by
  simp only [named,Bool.and_eq_true,Bool.not_eq_true',List.isEmpty_eq_false_iff] at hnamed
  obtain ⟨⟨hl,hq⟩,hheard⟩ := hnamed
  obtain ⟨P,hP,_,hw⟩ := h.drift (hR _ (reads_read hl hq))
  obtain ⟨⟨pkt,plaintext⟩,hmem,hfrom⟩ := List.any_eq_true.mp hheard
  refine ⟨P,hP,?_,pkt,plaintext,by rw [hw]; exact hmem,Val.eqStr_iff.mp hfrom⟩
  rw [hw]
  unfold Parties.read
  split <;> rfl

theorem named_deceived :
    (named sampleDeceived && [false,true].all (fun i => (sampleDeceived.sent i).isEmpty)) = true := by
  decide +kernel

/-- A cell is given a message that names another cell, which has sent nothing. -/
theorem heard_forged : ∃ P : Pool (Unit × Unit) Req Ans Err Unit (Mesh Unit Bool),
    Pool.Steps sampleParties.rules
        (initial (fun _ => ⟨Storage.empty,ConnectionRegistry.empty⟩)) P ∧
      ∃ pkt plaintext m, (pkt,plaintext) ∈ P.world.heard true ∧
        pkt.fromAddr = .str (CellClient.address (sampleParties.client false).cellId m) ∧
        ∀ i, P.world.sent i = [] := by
  have hcheck := named_deceived
  simp only [Bool.and_eq_true,List.all_eq_true,List.isEmpty_iff] at hcheck
  obtain ⟨P,hP,hsent,pkt,plaintext,hmem,hfrom⟩ := exists_heard reached_deceived
    (fun _ hr => .inr (.inr (.inl hr))) hcheck.1
  refine ⟨P,hP,pkt,plaintext,_,hmem,hfrom,fun i => ?_⟩
  rw [hsent]
  exact hcheck.2 i (by cases i <;> simp)

/-- The same message, sent by cell 2 itself. -/
def sampleSend : Except Err (Packet × Bytes) :=
  (sampleClient 2).send ⟨"m",0⟩ .zero (sampleClient 3).cellId (sampleNode false).id
    (sampleClient 3).identity.encryption.pub (utf8 "hi")

def sampleWritten (pkt : Packet) (frame : Bytes) : Mesh Unit Bool :=
  sampleServed (sampleConn 2 2) (((sampleJoined (sampleConn 2 2) sampleBegun).tell false pkt).push
    ((),2) frame)

theorem reached_written {pkt : Packet} {frame : Bytes} (hsend : sampleSend = .ok (pkt,frame)) :
    Reached (vouched (ι := Unit) sampleParties) (sampleWritten pkt frame) := by
  obtain ⟨hconn,_,_⟩ := sampleConn_authenticated
  have hsends : sampleParties.Sends (sampleJoined (sampleConn 2 2) sampleBegun)
      (((sampleJoined (sampleConn 2 2) sampleBegun).tell false pkt).push ((),2) frame) :=
    ⟨false,_,_,_,_,_,_,pkt,frame,hsend,rfl⟩
  refine ((reached_begun.joined serves_vouched hconn).drift ⟨.inl hsends,?_⟩).served
    serves_vouched hconn
  refine vouched_of_toNode (fun e s hfar => ?_)
  have he : e ≠ ((),2) := by
    rintro rfl
    cases hfar
  simp [Mesh.push,Mesh.tell,he]

theorem named_written :
    (match sampleSend with
      | .ok (pkt,frame) => named (sampleWritten pkt frame)
      | .error _ => false) = true := by
  decide +kernel

/-- Cell 2 sends a message, and it is the one that cell 3 is given. -/
theorem heard_was_sent_sample : ∃ P : Pool (Unit × Unit) Req Ans Err Unit (Mesh Unit Bool),
    Pool.Steps (vouched sampleParties)
        (initial (fun _ => ⟨Storage.empty,ConnectionRegistry.empty⟩)) P ∧
      ∃ pkt plaintext, (pkt,plaintext) ∈ P.world.heard true ∧
        ∃ i p, (sampleParties.client i).cellId = (sampleParties.client false).cellId ∧
          p ∈ P.world.sent i ∧ p.type = .str T.msg ∧ p.fromAddr = pkt.fromAddr ∧
          p.toAddr = pkt.toAddr ∧ p.payload = pkt.payload := by
  have hreads : ∀ w w', sampleParties.Reads w w' → (vouched (ι := Unit) sampleParties).drift w w' := by
    refine fun w w' hr => ⟨.inr (.inr (.inl hr)),vouched_of_toNode (fun e _ _ => ?_)⟩
    obtain ⟨_,_,_,_,_,rfl⟩ := hr
    rfl
  have hcheck := named_written
  cases hsend : sampleSend with
  | error e => simp [hsend] at hcheck
  | ok x =>
    rw [hsend] at hcheck
    obtain ⟨P,hP,_,pkt,plaintext,hmem,hfrom⟩ := exists_heard (reached_written hsend) (hreads _)
      hcheck
    exact ⟨P,hP,pkt,plaintext,hmem,heard_was_sent (sampleLib_packLaws digest32) (fun _ => rfl) hP
      hmem hfrom⟩

end Parties

end Nevod
