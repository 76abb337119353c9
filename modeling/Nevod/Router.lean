import Nevod.Transport

/-!
`node/router.py`. The code first, then what one attempt at a node does to the
world when the message is refused there, and when a delivery on this very node
loses it.
-/

set_option autoImplicit false

namespace Nevod
open Text Resume Keyed

variable {L : Lib}

/-- `parse_addr`. Values that are no text end in an exception before anything
is awaited, here or at the first registry or storage access. -/
def parseAddr : Val → Except Err (Option String × String)
  | .str addr =>
    match splitAddr addr with
    | some (cellId,nodeId) => .ok (some cellId,nodeId)
    | none => .ok (none,addr)
  | _ => .error .typeError

def serializePacket (L : Lib) (pkt : Packet) : Except Err Bytes :=
  L.packb (.map [(.str "type",pkt.type),(.str "id",pkt.id),(.str "from",pkt.fromAddr),
    (.str "to",pkt.toAddr),(.str "payload",pkt.payload),(.str "sig",pkt.sig),
    (.str "ts",pkt.ts)])

def deserializePacket (L : Lib) (data : Bytes) : Option Packet :=
  match unpack L data with
  | .ok pkt => some pkt
  | .error _ => none

/-- The version is not written. -/
theorem deserialize_serialize (hp : L.PackLaws) {p : Packet} {data : Bytes}
    (h : serializePacket L p = .ok data) :
    deserializePacket L data = some { p with
      v := .int protoVersion, payload := p.payload.orEmpty, sig := p.sig.orEmpty } := by
  have hu := hp.unpackb_packb _ _ h
  unfold deserializePacket unpack
  rw [hu]
  rfl

namespace Storage

def getNode (L : Lib) (nodeId : Val) : NodeProg (Option NodeRow) := do
  match ← Prog.ofExcept (SqlText.ofVal L.realText nodeId) with
  | none => pure none
  | some k => NodeProg.store (.getNode k)

end Storage

namespace Router

def deliverLocal (self : Node L) (pkt : Packet) : NodeProg Unit := do
  let (cellId,_) ← Prog.ofExcept (parseAddr pkt.toAddr)
  let (sent,pkt) ← match cellId with
    | none => pure (false,pkt)
    | some cellId => if cellId = "" then pure (false,pkt) else Transport.sendTo self cellId pkt
  if sent then pure ()
  else if self.onMessage then NodeProg.onMessage pkt
  else pure ()

/-- The `try` block of `_send_to_node`, which turns every exception into `False`. -/
def dialAndSend (self : Node L) (nodeId : String) (address : Val) (pkt : Packet) :
    NodeProg (Bool × Packet) := do
  let dialled : NodeProg (Option PeerConnection) := do
    let conn ← Transport.connectToNode L nodeId address
    pure (some conn)
  match ← dialled.rescue (fun _ => pure none) with
  | none => pure (false,pkt)
  | some conn =>
    match Transport.sign self pkt with
    | .error _ => pure (false,pkt)
    | .ok signed =>
      match pack L signed with
      | .error _ => pure (false,signed)
      | .ok frame =>
        .ask (.wsSend conn frame) (fun sent =>
          match sent with
          | .ok _ => pure (true,signed)
          | .error _ => pure (false,signed))

def sendToNode (self : Node L) (nodeId : String) (pkt : Packet) : NodeProg (Bool × Packet) := do
  if nodeId = self.id then
    deliverLocal self pkt
    pure (true,pkt)
  else
    let (sent,pkt) ← Transport.sendTo self nodeId pkt
    if sent then pure (true,pkt)
    else
      match ← Storage.getNode L (.str nodeId) with
      | none => pure (false,pkt)
      | some entry =>
        if entry.status ≠ "online" then pure (false,pkt)
        else dialAndSend self nodeId entry.address.toVal pkt

/-- The last step of `route`; the log call slices the id first. -/
def bufferFor (L : Lib) (cellId homeNodeId : String) (pkt : Packet) : NodeProg Unit := do
  Prog.ofExcept pkt.id.slice
  let payload ← Prog.ofExcept (serializePacket L pkt)
  match ← Prog.ofExcept (SqlText.ofVal L.realText pkt.id) with
  | none => Prog.raise .sqlError
  | some k => NodeProg.store (.bufferMessage k cellId homeNodeId payload)

/-- The visiting node of a row, unless it is absent or empty. -/
def visiting (presence : PresenceEntry) : Option String :=
  presence.visitingNodeId.filter (· ≠ "")

def route (self : Node L) (pkt : Packet) : NodeProg Unit := do
  match ← Prog.ofExcept (parseAddr pkt.toAddr) with
  | (none,toNodeId) => do
    let _ ← sendToNode self toNodeId pkt
    pure ()
  | (some cellId,_) => do
    match ← NodeProg.store (.getPresence cellId) with
    | none => do
      match ← NodeProg.store (.getCell cellId) with
      | some _ => deliverLocal self pkt
      | none => pure ()
    | some presence => do
      let (sent,pkt) ← match visiting presence with
        | some nodeId => sendToNode self nodeId pkt
        | none => pure (false,pkt)
      if sent then pure ()
      else
        let (sent,pkt) ← sendToNode self presence.homeNodeId pkt
        if sent then pure ()
        else bufferFor L cellId presence.homeNodeId pkt

/-- One round of the loop in `flush_buffer`. -/
def flushMessage (self : Node L) (msg : BufferedMessage) : NodeProg Unit := do
  match deserializePacket L msg.payload with
  | none => pure ()
  | some pkt => do
    route self pkt
    NodeProg.store (.deleteBuffered msg.messageId)

def flushBuffer (self : Node L) (cellId : String) : NodeProg Unit := do
  let messages ← NodeProg.store (.getBuffered cellId)
  Prog.forEach messages (flushMessage self)

/-- What `deliverLocal` does once it is known whether the frame was sent. -/
def callback (self : Node L) (r : Bool × Packet) : NodeProg Unit :=
  if r.1 then .ret () else if self.onMessage then NodeProg.onMessage r.2 else .ret ()

/-- What `dialAndSend` does on the connection it has opened. -/
def transmit (self : Node L) (conn : PeerConnection) (pkt : Packet) : NodeProg (Bool × Packet) :=
  match Transport.sign self pkt with
  | .error _ => .ret (false,pkt)
  | .ok signed =>
    match pack L signed with
    | .error _ => .ret (false,signed)
    | .ok frame =>
      .ask (.wsSend conn frame) (fun sent =>
        match sent with
        | .ok _ => .ret (true,signed)
        | .error _ => .ret (false,signed))

/-- The part of `route` that tries the home node and then the buffer. -/
def tryHome (self : Node L) (cellId home : String) (pkt : Packet) : NodeProg Unit :=
  (sendToNode self home pkt).bind (fun r =>
    if r.1 then .ret () else bufferFor L cellId home r.2)

/-- The part of `route` that follows a presence row. -/
def tryPresence (self : Node L) (cellId : String) (presence : PresenceEntry) (pkt : Packet) :
    NodeProg Unit :=
  match visiting presence with
  | none => tryHome self cellId presence.homeNodeId pkt
  | some nodeId =>
    (sendToNode self nodeId pkt).bind (fun r =>
      if r.1 then .ret () else tryHome self cellId presence.homeNodeId r.2)

section Forms

variable {self : Node L}

theorem deliverLocal_eq (pkt : Packet) : deliverLocal self pkt =
    match parseAddr pkt.toAddr with
    | .error e => .raise e
    | .ok (none,_) => callback self (false,pkt)
    | .ok (some cellId,_) =>
      if cellId = "" then callback self (false,pkt)
      else (Transport.sendTo self cellId pkt).bind (callback self) := by
  unfold deliverLocal
  cases parseAddr pkt.toAddr with
  | error e => rfl
  | ok x =>
    obtain ⟨cellId,n⟩ := x
    cases cellId with
    | none => rfl
    | some cellId =>
      by_cases hc : cellId = ""
      · simp only [Prog.ofExcept_ok,Prog.bind_eq,Prog.bind_ret,if_pos hc]
        rfl
      · simp only [Prog.ofExcept_ok,Prog.bind_eq,Prog.bind_ret,if_neg hc]
        rfl

theorem dialAndSend_eq (nodeId : String) (address : Val) (pkt : Packet) :
    dialAndSend self nodeId address pkt =
      .ask (.dial (some nodeId) (address.pyStr L.repr)) (fun dialled =>
        match dialled with
        | .error _ => .ret (false,pkt)
        | .ok conn => .ask (.connAdd conn) (fun _ => .ask (.startRecv conn false) (fun _ =>
            transmit self conn pkt))) := by
  unfold dialAndSend Transport.connectToNode
  simp only [Prog.bind_eq,Prog.bind_ask,Prog.rescue_ask]
  congr 1
  funext dialled
  cases dialled <;> rfl

/-- `bufferFor` raises, or it makes one request. -/
theorem bufferFor_cases (L : Lib) (cellId home : String) (pkt : Packet) :
    (∃ e, bufferFor L cellId home pkt = .raise e) ∨
    ∃ k payload, SqlText.ofVal L.realText pkt.id = .ok (some k) ∧
      serializePacket L pkt = .ok payload ∧
      bufferFor L cellId home pkt = NodeProg.store (.bufferMessage k cellId home payload) := by
  unfold bufferFor
  cases pkt.id.slice with
  | error e => exact .inl ⟨e,rfl⟩
  | ok _ =>
    cases serializePacket L pkt with
    | error e => exact .inl ⟨e,rfl⟩
    | ok payload =>
      cases SqlText.ofVal L.realText pkt.id with
      | error e => exact .inl ⟨e,rfl⟩
      | ok k =>
        cases k with
        | none => exact .inl ⟨.sqlError,rfl⟩
        | some k => exact .inr ⟨k,payload,rfl,rfl,rfl⟩

theorem route_error {pkt : Packet} {e : Err} (ha : parseAddr pkt.toAddr = .error e) :
    route self pkt = .raise e := by
  unfold route
  rw [ha]
  rfl

theorem route_node {pkt : Packet} {n : String} (ha : parseAddr pkt.toAddr = .ok (none,n)) :
    route self pkt = (sendToNode self n pkt).bind (fun _ => .ret ()) := by
  unfold route
  rw [ha]
  rfl

theorem route_cell {pkt : Packet} {cellId n : String}
    (ha : parseAddr pkt.toAddr = .ok (some cellId,n)) :
    route self pkt =
      .ask (.store (.getPresence cellId)) (fun presence =>
        match presence with
        | none =>
          .ask (.store (.getCell cellId)) (fun cell =>
            match cell with
            | some _ => deliverLocal self pkt
            | none => .ret ())
        | some presence => tryPresence self cellId presence pkt) := by
  unfold route
  simp only [ha,Prog.ofExcept_ok,Prog.bind_eq,Prog.bind_ret,Prog.bind_ask]
  congr 1
  funext presence
  cases presence with
  | none => rfl
  | some presence =>
    unfold tryPresence
    cases hv : visiting presence <;> simp only [hv] <;> rfl

end Forms

end Router

/-- The same packet up to its signature. -/
def Resigned (pkt p : Packet) : Prop := ∃ s, p = { pkt with sig := s }

theorem Resigned.refl (pkt : Packet) : Resigned pkt pkt := ⟨pkt.sig,rfl⟩

theorem Resigned.toAddr {pkt p : Packet} (h : Resigned pkt p) : p.toAddr = pkt.toAddr := by
  obtain ⟨s,rfl⟩ := h
  rfl

theorem Resigned.id {pkt p : Packet} (h : Resigned pkt p) : p.id = pkt.id := by
  obtain ⟨s,rfl⟩ := h
  rfl

theorem Resigned.type {pkt p : Packet} (h : Resigned pkt p) : p.type = pkt.type := by
  obtain ⟨s,rfl⟩ := h
  rfl

theorem Resigned.trans {pkt p q : Packet} (h : Resigned pkt p) (h' : Resigned p q) :
    Resigned pkt q := by
  obtain ⟨s,rfl⟩ := h
  obtain ⟨s',rfl⟩ := h'
  exact ⟨s',rfl⟩

theorem Resigned.wireForm {self : Node L} {pkt p : Packet} (h : Resigned pkt p) :
    Transport.wireForm self p = Transport.wireForm self pkt := by
  obtain ⟨s,rfl⟩ := h
  rfl

theorem resigned_of_sign {self : Node L} {pkt p : Packet}
    (h : Transport.sign self pkt = .ok p) : Resigned pkt p := by
  obtain ⟨m,_,hp⟩ := signPacket_ok h
  exact ⟨_,hp⟩

theorem wireForm_ok {self : Node L} {pkt p : Packet} {f : Bytes}
    (h : Transport.wireForm self pkt = .ok (p,f)) :
    Transport.sign self pkt = .ok p ∧ pack L p = .ok f := by
  obtain ⟨signed,hs,h⟩ := exists_of_bind h
  obtain ⟨frame,hp,h⟩ := exists_of_bind h
  cases h
  exact ⟨hs,hp⟩

theorem wireForm_of_ok {self : Node L} {pkt p : Packet} {f : Bytes}
    (hs : Transport.sign self pkt = .ok p) (hp : pack L p = .ok f) :
    Transport.wireForm self pkt = .ok (p,f) := by
  simp [Transport.wireForm,hs,hp,bind,Except.bind,pure,Except.pure]

theorem unpack_wireForm (hp : L.PackLaws) {self : Node L} {pkt p : Packet} {f : Bytes}
    (h : Transport.wireForm self pkt = .ok (p,f)) : unpack L f = .ok p ∧ Resigned pkt p := by
  obtain ⟨hsign,hpack⟩ := wireForm_ok h
  exact ⟨unpack_pack_signed hp hsign hpack,resigned_of_sign hsign⟩

namespace Router

theorem transmit_cases (self : Node L) (conn : PeerConnection) (pkt : Packet) :
    (∃ e p, Transport.wireForm self pkt = .error e ∧ Resigned pkt p ∧
      transmit self conn pkt = .ret (false,p)) ∨
    ∃ signed frame, Transport.wireForm self pkt = .ok (signed,frame) ∧ Resigned pkt signed ∧
      transmit self conn pkt = .ask (.wsSend conn frame) (fun sent =>
        match sent with
        | .ok _ => .ret (true,signed)
        | .error _ => .ret (false,signed)) := by
  unfold transmit
  cases hs : Transport.sign self pkt with
  | error e =>
    exact .inl ⟨e,pkt,by simp [Transport.wireForm,hs,bind,Except.bind],.refl pkt,rfl⟩
  | ok signed =>
    have hsigned := resigned_of_sign hs
    cases hf : pack L signed with
    | error e =>
      exact .inl ⟨e,signed,by simp [Transport.wireForm,hs,hf,bind,Except.bind],hsigned,by simp [hf]⟩
    | ok frame => exact .inr ⟨signed,frame,wireForm_of_ok hs hf,hsigned,by simp [hf]⟩

/-- All that an attempt to pass `pkt` on may do: send it signed by this node,
give it to the callback, and look things up. -/
def Forwards (self : Node L) (pkt : Packet) : Req → Prop
  | .wsSend _ frame => ∃ p, Transport.wireForm self pkt = .ok (p,frame)
  | .onMessage p => Resigned pkt p
  | .store (.getNode _) | .store (.getPresence _) | .store (.getCell _) => True
  | .connGet _ | .connAdd _ | .connRemove _ | .dial _ _ => True
  | .startRecv _ incoming => incoming = false
  | _ => False

/-- Routing may also buffer `pkt` under its id for the cell it is addressed to. -/
def Buffers (L : Lib) (pkt : Packet) : Req → Prop
  | .store (.bufferMessage k cellId _ payload) =>
    SqlText.ofVal L.realText pkt.id = .ok (some k) ∧
      (∃ n, parseAddr pkt.toAddr = .ok (some cellId,n)) ∧
      ∃ p, Resigned pkt p ∧ serializePacket L p = .ok payload
  | _ => False

def Allowed (self : Node L) (pkt : Packet) (q : Req) : Prop := Forwards self pkt q ∨ Buffers L pkt q

variable {self : Node L}

theorem sendTo_forwards (pkt : Packet) (nodeId : String) {p : Packet} (hp : Resigned pkt p) :
    Obeys (Forwards self pkt) (fun _ _ => True) (fun r => Resigned pkt r.2)
      (Transport.sendTo self nodeId p) := by
  refine ⟨trivial,fun conn _ => ?_⟩
  cases conn with
  | none => exact hp
  | some conn =>
    cases hw : Transport.wireForm self p with
    | error e => trivial
    | ok x =>
      obtain ⟨signed,frame⟩ := x
      rw [hp.wireForm] at hw
      have hs := resigned_of_sign (wireForm_ok hw).1
      refine ⟨⟨signed,hw⟩,fun sent _ => ?_⟩
      rcases sent with e | ⟨⟨⟩⟩
      · cases e <;> first | trivial | exact ⟨trivial,fun _ _ => hs⟩
      · exact hs

theorem callback_forwards (pkt : Packet) {r : Bool × Packet} (hr : Resigned pkt r.2) :
    Obeys (Forwards self pkt) (fun _ _ => True) (fun _ => True) (callback self r) := by
  unfold callback
  split
  · trivial
  · split
    · refine ⟨hr,fun a _ => ?_⟩
      cases a <;> trivial
    · trivial

theorem deliverLocal_forwards (pkt : Packet) {p : Packet} (hp : Resigned pkt p) :
    Obeys (Forwards self pkt) (fun _ _ => True) (fun _ => True) (deliverLocal self p) := by
  rw [deliverLocal_eq]
  split
  · trivial
  · exact callback_forwards pkt hp
  · split
    · exact callback_forwards pkt hp
    · exact (sendTo_forwards pkt _ hp).bind (fun _ => callback_forwards pkt)

/-- What dialling and sending asks for; no entry is removed. -/
def Dials (self : Node L) (pkt : Packet) : Req → Prop
  | .wsSend _ frame => ∃ p, Transport.wireForm self pkt = .ok (p,frame)
  | .connAdd _ | .dial _ _ => True
  | .startRecv _ incoming => incoming = false
  | _ => False

theorem dialAndSend_dials (pkt : Packet) (nodeId : String) (address : Val) {p : Packet}
    (hp : Resigned pkt p) :
    Obeys (Dials self pkt) (fun _ _ => True) (fun r => Resigned pkt r.2)
      (dialAndSend self nodeId address p) := by
  rw [dialAndSend_eq]
  refine ⟨trivial,fun dialled _ => ?_⟩
  cases dialled with
  | error e => exact hp
  | ok conn =>
    refine ⟨trivial,fun _ _ => ⟨rfl,fun _ _ => ?_⟩⟩
    rcases transmit_cases self conn p with ⟨_,p1,_,hp1,ht⟩ | ⟨signed,frame,hw,hsigned,ht⟩
    · rw [ht]
      exact hp.trans hp1
    · rw [ht]
      rw [hp.wireForm] at hw
      refine ⟨⟨signed,hw⟩,fun sent _ => ?_⟩
      cases sent <;> exact hp.trans hsigned

theorem forwards_of_dials {pkt : Packet} {q : Req} (h : Dials self pkt q) :
    Forwards self pkt q := by
  cases q with
  | wsSend _ _ => exact h
  | startRecv _ _ => exact h
  | dial _ _ => trivial
  | connAdd _ => trivial
  | _ => exact h.elim

theorem dialAndSend_forwards (pkt : Packet) (nodeId : String) (address : Val) {p : Packet}
    (hp : Resigned pkt p) :
    Obeys (Forwards self pkt) (fun _ _ => True) (fun r => Resigned pkt r.2)
      (dialAndSend self nodeId address p) :=
  (dialAndSend_dials pkt nodeId address hp).mono_guard (fun _ => forwards_of_dials)

theorem sendToNode_forwards (pkt : Packet) (nodeId : String) {p : Packet}
    (hp : Resigned pkt p) :
    Obeys (Forwards self pkt) (fun _ _ => True) (fun r => Resigned pkt r.2)
      (sendToNode self nodeId p) := by
  unfold sendToNode
  by_cases hid : nodeId = self.id
  · rw [if_pos hid]
    exact (deliverLocal_forwards pkt hp).bind (fun _ _ => hp)
  · rw [if_neg hid]
    refine (sendTo_forwards pkt nodeId hp).bind (fun r hr => ?_)
    obtain ⟨sent,p1⟩ := r
    cases sent with
    | true => exact hr
    | false =>
      refine ⟨trivial,fun entry _ => ?_⟩
      cases entry with
      | none => exact hr
      | some entry =>
        by_cases hst : entry.status ≠ "online"
        · simp only [Prog.bind_ret,if_pos hst]
          exact hr
        · simp only [Prog.bind_ret,if_neg hst]
          exact dialAndSend_forwards pkt nodeId _ hr

theorem bufferFor_allowed (pkt : Packet) {cellId n : String} (home : String)
    (ha : parseAddr pkt.toAddr = .ok (some cellId,n)) {p : Packet} (hp : Resigned pkt p) :
    Obeys (Allowed self pkt) (fun _ _ => True) (fun _ => True)
      (bufferFor L cellId home p) := by
  rcases bufferFor_cases L cellId home p with ⟨e,hb⟩ | ⟨k,payload,hk,hser,hb⟩
  · rw [hb]
    trivial
  · rw [hb]
    rw [hp.id] at hk
    exact ⟨.inr ⟨hk,⟨n,ha⟩,p,hp,hser⟩,fun _ _ => trivial⟩

theorem tryHome_allowed (pkt : Packet) {cellId n : String} (home : String)
    (ha : parseAddr pkt.toAddr = .ok (some cellId,n)) {p : Packet} (hp : Resigned pkt p) :
    Obeys (Allowed self pkt) (fun _ _ => True) (fun _ => True) (tryHome self cellId home p) := by
  refine ((sendToNode_forwards pkt home hp).mono_guard (fun _ => .inl)).bind (fun r hr => ?_)
  split
  · trivial
  · exact bufferFor_allowed pkt home ha hr

theorem route_allowed (pkt : Packet) :
    Obeys (Allowed self pkt) (fun _ _ => True) (fun _ => True) (route self pkt) := by
  cases ha : parseAddr pkt.toAddr with
  | error e =>
    rw [route_error ha]
    trivial
  | ok x =>
    obtain ⟨cellId,nodeId⟩ := x
    cases cellId with
    | none =>
      rw [route_node ha]
      exact ((sendToNode_forwards pkt nodeId (.refl pkt)).mono_guard (fun _ => .inl)).bind
        (fun _ _ => trivial)
    | some cellId =>
      rw [route_cell ha]
      refine ⟨.inl trivial,fun presence _ => ?_⟩
      cases presence with
      | none =>
        refine ⟨.inl trivial,fun cell _ => ?_⟩
        cases cell with
        | none => trivial
        | some cell => exact (deliverLocal_forwards pkt (.refl pkt)).mono_guard (fun _ => .inl)
      | some presence =>
        change Obeys _ _ _ (tryPresence self cellId presence pkt)
        unfold tryPresence
        split
        · exact tryHome_allowed pkt _ ha (.refl pkt)
        · refine ((sendToNode_forwards pkt _ (.refl pkt)).mono_guard (fun _ => .inl)).bind
            (fun r hr => ?_)
          split
          · trivial
          · exact tryHome_allowed pkt _ ha hr

end Router

end Nevod
