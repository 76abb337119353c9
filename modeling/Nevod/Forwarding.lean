import Nevod.Registration
import Mathlib.Order.CompletePartialOrder

/-!
Whom `Router.route` passes a message on to. What an attempt may do depends on
the attempts made before it, so the obligations are stated over the exchanges
so far.
-/

set_option autoImplicit false

namespace Nevod
open Text Resume Keyed

variable {L : Lib}

/-- The connection of a handshake in which `expected` was expected. -/
def Dialled (self : Node L) (expected : Option String) (conn : PeerConnection) : Prop :=
  ∃ ws d tr, Path (Transport.doAuth self.identity ws expected d) tr (.ret conn)

/-- An empty expectation is not checked. -/
theorem dialled_peer {self : Node L} {nodeId : String} {conn : PeerConnection}
    (h : Dialled self (some nodeId) conn) (hne : nodeId ≠ "") : conn.peerNodeId = nodeId := by
  obtain ⟨ws,d,tr,hpath⟩ := h
  obtain ⟨p',hx,hret⟩ := transport_doAuth_path hpath
  obtain ⟨r,rfl,rfl⟩ := hret conn rfl
  obtain ⟨m,_,hcheck⟩ := exchange_returned hx
  obtain ⟨their,_,_,hverify⟩ := checkResponse_some hcheck
  obtain ⟨_,_,_,_,_,_,_,_,hexp,_⟩ := verifyResponse_some hverify
  simpa [expects,hne] using hexp

namespace Forwarding

/-- Every registry entry is stored under the id of its peer, and no presence row
has an empty home node. -/
structure InOrder (w : NodeState) : Prop where
  peer : ∀ nodeId conn, w.connections.get nodeId = some conn → conn.peerNodeId = nodeId
  home : ∀ cellId row, w.storage.presenceTable.find cellId = some row → row.homeNodeId ≠ ""

/-- A dialled connection comes out of the handshake. -/
def Authentic (self : Node L) : (q : Req) → Ans q → Prop
  | .dial expected _,a => ∀ conn, a = .ok conn → Dialled self expected conn
  | _,_ => True

/-- Routings on any number of slots; between their requests the node may do
anything that leaves its state in order. -/
def rules {ι : Type} (self : Node L) : Rules ι Req Ans Err Unit NodeState where
  answer := fun _ w q a w' => w.Answers q a w' ∧ Authentic self q a
  start := fun _ w p w' => (∃ pkt, p = Router.route self pkt) ∧ w' = w
  drift := fun _ w' => InOrder w'

def initial {ι : Type} (w : NodeState) : Pool ι Req Ans Err Unit NodeState :=
  ⟨fun _ => .ret (),fun _ => [],fun _ => .ret (),w⟩

/-- A successful transmission, a call of the callback, or an insertion into the
buffer. -/
def settles : Exchange Req Ans → Bool
  | ⟨.wsSend _ _,.ok _⟩ => true
  | ⟨.onMessage _,_⟩ => true
  | ⟨.store (.bufferMessage _ _ _ _),_⟩ => true
  | _ => false

abbrev Trace := List (Exchange Req Ans)

/-- No open connection to the node was found in the registry. -/
inductive Unconnected (nodeId : String) (past : Trace) : Prop where
  | absent (h : (⟨.connGet nodeId,none⟩ : Exchange Req Ans) ∈ past)
  | closed (conn : PeerConnection) (frame : Bytes) (hp : conn.peerNodeId = nodeId)
      (h : (⟨.wsSend conn frame,.error .connectionClosed⟩ : Exchange Req Ans) ∈ past)

/-- The node was not dialled with success, or the message did not get through
on the connection that was opened. -/
inductive Unreachable (self : Node L) (pkt : Packet) (nodeId : String) (past : Trace) : Prop where
  | unknown (h : (⟨.store (.getNode (.text nodeId)),none⟩ : Exchange Req Ans) ∈ past)
  | offline (entry : NodeRow) (hs : entry.status ≠ "online")
      (h : (⟨.store (.getNode (.text nodeId)),some entry⟩ : Exchange Req Ans) ∈ past)
  | undialled (address : String) (e : Err)
      (h : (⟨.dial (some nodeId) address,.error e⟩ : Exchange Req Ans) ∈ past)
  | unwritable (address : String) (conn : PeerConnection) (e : Err)
      (h : (⟨.dial (some nodeId) address,.ok conn⟩ : Exchange Req Ans) ∈ past)
      (hw : Transport.wireForm self pkt = .error e)
  | unsent (conn : PeerConnection) (frame : Bytes) (e : Err) (hp : conn.peerNodeId = nodeId)
      (h : (⟨.wsSend conn frame,.error e⟩ : Exchange Req Ans) ∈ past)

/-- Every attempt at a remote node has failed. -/
structure Failed (node : Node L) (pkt : Packet) (nodeId : String) (past : Trace) : Prop where
  remote : nodeId ≠ node.id
  unconnected : Unconnected nodeId past
  unreachable : Unreachable node pkt nodeId past

/-- The visiting node of the row, if there is one, has been tried in vain. -/
def VisitFailed (self : Node L) (pkt : Packet) (row : PresenceEntry) (past : Trace) : Prop :=
  ∀ nodeId, Router.visiting row = some nodeId → Failed self pkt nodeId past

/-- The row `route` has read for the cell. -/
def Listed (cellId : String) (row : PresenceEntry) (past : Trace) : Prop :=
  (⟨.store (.getPresence cellId),some row⟩ : Exchange Req Ans) ∈ past

/-- To whom a message for the cell may be transmitted after `past`. -/
inductive Recipient (self : Node L) (pkt : Packet) (cellId : String) (past : Trace) :
    String → Prop where
  | unlisted (cell : CellEntry)
      (hp : (⟨.store (.getPresence cellId),none⟩ : Exchange Req Ans) ∈ past)
      (hc : (⟨.store (.getCell cellId),some cell⟩ : Exchange Req Ans) ∈ past) :
      Recipient self pkt cellId past cellId
  | visitor (row : PresenceEntry) (hp : Listed cellId row past)
      (hv : Router.visiting row = some self.id) : Recipient self pkt cellId past cellId
  | resident (row : PresenceEntry) (hp : Listed cellId row past)
      (hv : VisitFailed self pkt row past) (hh : row.homeNodeId = self.id) :
      Recipient self pkt cellId past cellId
  | visiting (row : PresenceEntry) (nodeId : String) (hp : Listed cellId row past)
      (hv : Router.visiting row = some nodeId) (hne : nodeId ≠ self.id) :
      Recipient self pkt cellId past nodeId
  | home (row : PresenceEntry) (hp : Listed cellId row past)
      (hv : VisitFailed self pkt row past) (hne : row.homeNodeId ≠ self.id) :
      Recipient self pkt cellId past row.homeNodeId

/-- Both nodes of the row have been tried in vain. -/
def MayBuffer (self : Node L) (pkt : Packet) (cellId : String) (past : Trace) : Prop :=
  ∃ row, Listed cellId row past ∧ VisitFailed self pkt row past ∧
    Failed self pkt row.homeNodeId past

/-- What a routing of `pkt` to the cell has done. -/
structure Delivers (node : Node L) (pkt : Packet) (cellId : String) (tr : Trace) : Prop where
  recipient : ∀ tr1 conn frame a tr2, tr = tr1 ++ ⟨.wsSend conn frame,a⟩ :: tr2 →
    Recipient node pkt cellId tr1 conn.peerNodeId
  once : (tr.filter settles).length ≤ 1
  buffered : ∀ tr1 k receiver home payload a tr2,
    tr = tr1 ++ ⟨.store (.bufferMessage k receiver home payload),a⟩ :: tr2 →
    receiver = cellId ∧ MayBuffer node pkt cellId tr1

def guard (self : Node L) (pkt : Packet) (cellId : String) (past : Trace) : Req → Prop
  | .wsSend conn _ =>
    past.filter settles = [] ∧ Recipient self pkt cellId past conn.peerNodeId
  | .onMessage _ => past.filter settles = []
  | .store (.bufferMessage _ receiver _ _) =>
    past.filter settles = [] ∧ receiver = cellId ∧ MayBuffer self pkt cellId past
  | _ => True

def rely (self : Node L) : (q : Req) → Ans q → Prop
  | .connGet nodeId,a => ∀ conn, a = some conn → conn.peerNodeId = nodeId
  | .store (.getPresence _),a => ∀ row, a = some row → row.homeNodeId ≠ ""
  | .dial expected _,a => ∀ conn, a = .ok conn → Dialled self expected conn
  | _,_ => True

section

variable {self : Node L} {pkt : Packet} {cellId nodeId : String} {past later : Trace}

theorem Unconnected.mono (h : Unconnected nodeId past) (hs : past ⊆ later) :
    Unconnected nodeId later := by
  cases h with
  | absent h => exact .absent (hs h)
  | closed conn frame hp h => exact .closed conn frame hp (hs h)

theorem Unreachable.mono (h : Unreachable self pkt nodeId past) (hs : past ⊆ later) :
    Unreachable self pkt nodeId later := by
  cases h with
  | unknown h => exact .unknown (hs h)
  | offline entry hst h => exact .offline entry hst (hs h)
  | undialled address e h => exact .undialled address e (hs h)
  | unwritable address conn e h hw => exact .unwritable address conn e (hs h) hw
  | unsent conn frame e hp h => exact .unsent conn frame e hp (hs h)

theorem Failed.mono (h : Failed self pkt nodeId past) (hs : past ⊆ later) :
    Failed self pkt nodeId later :=
  ⟨h.remote,h.unconnected.mono hs,h.unreachable.mono hs⟩

theorem VisitFailed.mono {row : PresenceEntry} (h : VisitFailed self pkt row past)
    (hs : past ⊆ later) : VisitFailed self pkt row later :=
  fun nodeId hv => (h nodeId hv).mono hs

theorem Recipient.mono {peer : String} (h : Recipient self pkt cellId past peer)
    (hs : past ⊆ later) : Recipient self pkt cellId later peer := by
  cases h with
  | unlisted cell hp hc => exact .unlisted cell (hs hp) (hs hc)
  | visitor row hp hv => exact .visitor row (hs hp) hv
  | resident row hp hv hh => exact .resident row (hs hp) (hv.mono hs) hh
  | visiting row _ hp hv hne => exact .visiting row _ (hs hp) hv hne
  | home row hp hv hne => exact .home row (hs hp) (hv.mono hs) hne

theorem settles_nil_snoc {e : Exchange Req Ans} (hq : past.filter settles = [])
    (he : settles e = false) : (past ++ [e]).filter settles = [] := by
  simp [hq,he]

/-- A refusal leaves the message unsettled, and no open connection behind. -/
def Refuses (pkt : Packet) (past : Trace) (evidence : Trace → Prop)
    (later : Trace) (r : Bool × Packet) : Prop :=
  past ⊆ later ∧ Resigned pkt r.2 ∧
    (r.1 = false → later.filter settles = [] ∧ evidence later)

theorem sendTo_heeds {p : Packet} (hq : past.filter settles = [])
    (hr : Recipient self pkt cellId past nodeId) (hp : Resigned pkt p) :
    Heeds (guard self pkt cellId) (rely self)
      (Refuses pkt past (Unconnected nodeId)) past (Transport.sendTo self nodeId p) := by
  refine ⟨trivial,fun conn hconn => ?_⟩
  have hq1 := settles_nil_snoc (e := ⟨.connGet nodeId,conn⟩) hq rfl
  cases conn with
  | none => exact ⟨by simp,hp,fun _ => ⟨hq1,.absent (by simp)⟩⟩
  | some conn =>
    have hpeer : conn.peerNodeId = nodeId := hconn conn rfl
    cases hw : Transport.wireForm self p with
    | error e => trivial
    | ok x =>
      obtain ⟨signed,frame⟩ := x
      have hs : Resigned pkt signed := hp.trans (resigned_of_sign (wireForm_ok hw).1)
      refine ⟨⟨hq1,?_⟩,fun sent _ => ?_⟩
      · rw [hpeer]
        exact hr.mono (by simp)
      · rcases sent with e | ⟨⟨⟩⟩
        · cases e with
          | connectionClosed =>
            refine ⟨trivial,fun _ _ => ⟨?_,hs,fun _ => ⟨?_,?_⟩⟩⟩
            · intro e he
              simp [he]
            · exact settles_nil_snoc (settles_nil_snoc hq1 rfl) rfl
            · exact .closed conn frame hpeer (by simp)
          | _ => trivial
        · refine ⟨?_,hs,by simp⟩
          intro e he
          simp [he]

theorem deliverLocal_heeds {p : Packet} {m : String} (hq : past.filter settles = [])
    (hr : Recipient self pkt cellId past cellId)
    (ha : parseAddr pkt.toAddr = .ok (some cellId,m)) (hp : Resigned pkt p) :
    Heeds (guard self pkt cellId) (rely self) (fun later _ => past ⊆ later) past
      (Router.deliverLocal self p) := by
  have hcallback : ∀ later (r : Bool × Packet), Refuses pkt past (fun _ => True) later r →
      Heeds (guard self pkt cellId) (rely self) (fun later _ => past ⊆ later) later
        (Router.callback self r) := by
    intro later r hl
    unfold Router.callback
    cases hsent : r.1 with
    | true => exact hl.1
    | false =>
      by_cases hm : self.onMessage = true
      · simp only [Bool.false_eq_true,if_false,if_pos hm]
        refine ⟨(hl.2.2 hsent).1,fun a _ => ?_⟩
        cases a with
        | error e => trivial
        | ok u =>
          intro e he
          simp [hl.1 he]
      · simp only [Bool.false_eq_true,if_false,if_neg hm]
        exact hl.1
  rw [Router.deliverLocal_eq,hp.toAddr,ha]
  by_cases hc : cellId = ""
  · simp only [if_pos hc]
    exact hcallback past (false,p) ⟨fun _ he => he,hp,fun _ => ⟨hq,trivial⟩⟩
  · simp only [if_neg hc]
    refine (sendTo_heeds hq hr hp).bind (fun later r hl => hcallback later r ?_)
    exact ⟨hl.1,hl.2.1,fun hs => ⟨(hl.2.2 hs).1,trivial⟩⟩

theorem dialAndSend_heeds {p : Packet} (address : Val) (hne : nodeId ≠ "")
    (hq : past.filter settles = []) (hr : Recipient self pkt cellId past nodeId)
    (hp : Resigned pkt p) :
    Heeds (guard self pkt cellId) (rely self)
      (Refuses pkt past (Unreachable self pkt nodeId)) past
      (Router.dialAndSend self nodeId address p) := by
  rw [Router.dialAndSend_eq]
  refine ⟨trivial,fun dialled hdialled => ?_⟩
  have hq1 := settles_nil_snoc (e := ⟨.dial (some nodeId) (address.pyStr L.repr),dialled⟩) hq rfl
  cases dialled with
  | error e =>
    exact ⟨by simp,hp,fun _ => ⟨hq1,.undialled (address.pyStr L.repr) e (by simp)⟩⟩
  | ok conn =>
    have hpeer : conn.peerNodeId = nodeId := dialled_peer (hdialled conn rfl) hne
    refine ⟨trivial,fun _ _ => ⟨trivial,fun _ _ => ?_⟩⟩
    have hq3 := settles_nil_snoc (e := ⟨.startRecv conn false,()⟩)
      (settles_nil_snoc (e := ⟨.connAdd conn,()⟩) hq1 rfl) rfl
    generalize hnow : past ++ [⟨.dial (some nodeId) (address.pyStr L.repr),.ok conn⟩] ++
      [⟨.connAdd conn,()⟩] ++ [⟨.startRecv conn false,()⟩] = now at hq3
    have hsub : past ⊆ now := by
      subst hnow
      intro e he
      simp [he]
    have hdial : (⟨.dial (some nodeId) (address.pyStr L.repr),.ok conn⟩ : Exchange Req Ans) ∈ now := by
      subst hnow
      simp
    rcases Router.transmit_cases self conn p with ⟨e,p1,hw,hp1,ht⟩ | ⟨signed,frame,hw,hs,ht⟩
    · rw [ht]
      rw [hp.wireForm] at hw
      exact ⟨hsub,hp.trans hp1,fun _ => ⟨hq3,.unwritable _ conn e hdial hw⟩⟩
    · rw [ht]
      refine ⟨⟨hq3,?_⟩,fun sent _ => ?_⟩
      · rw [hpeer]
        exact hr.mono hsub
      · cases sent with
        | ok u => exact ⟨fun e he => by simp [hsub he],hp.trans hs,by simp⟩
        | error e =>
          refine ⟨fun e he => by simp [hsub he],hp.trans hs,fun _ => ⟨settles_nil_snoc hq3 rfl,?_⟩⟩
          exact .unsent conn frame e hpeer (by simp)

theorem sendToNode_heeds {p : Packet} {m : String} (hne : nodeId ≠ "")
    (hq : past.filter settles = [])
    (hr : Recipient self pkt cellId past (if nodeId = self.id then cellId else nodeId))
    (ha : parseAddr pkt.toAddr = .ok (some cellId,m)) (hp : Resigned pkt p) :
    Heeds (guard self pkt cellId) (rely self)
      (Refuses pkt past (Failed self pkt nodeId)) past (Router.sendToNode self nodeId p) := by
  unfold Router.sendToNode
  by_cases hid : nodeId = self.id
  · rw [if_pos hid] at hr ⊢
    exact (deliverLocal_heeds hq hr ha hp).bind (fun later _ hl => ⟨hl,hp,by simp⟩)
  · rw [if_neg hid] at hr ⊢
    refine (sendTo_heeds hq hr hp).bind (fun later r hl => ?_)
    obtain ⟨sent,p1⟩ := r
    obtain ⟨hsub,hp1,hrefused⟩ := hl
    cases sent with
    | true => exact ⟨hsub,hp1,by simp⟩
    | false =>
      obtain ⟨hq1,hun⟩ := hrefused rfl
      refine ⟨trivial,fun entry _ => ?_⟩
      have hq2 := settles_nil_snoc (e := ⟨.store (.getNode (.text nodeId)),entry⟩) hq1 rfl
      generalize hnow : later ++ [⟨.store (.getNode (.text nodeId)),entry⟩] = now at hq2
      have hln : later ⊆ now := by
        subst hnow
        intro e he
        simp [he]
      have hentry : (⟨.store (.getNode (.text nodeId)),entry⟩ : Exchange Req Ans) ∈ now := by
        subst hnow
        simp
      have hpast : past ⊆ now := fun e he => hln (hsub he)
      cases entry with
      | none => exact ⟨hpast,hp1,fun _ => ⟨hq2,hid,hun.mono hln,.unknown hentry⟩⟩
      | some entry =>
        by_cases hst : entry.status ≠ "online"
        · simp only [Prog.bind_ret,if_pos hst]
          exact ⟨hpast,hp1,fun _ => ⟨hq2,hid,hun.mono hln,.offline entry hst hentry⟩⟩
        · simp only [Prog.bind_ret,if_neg hst]
          have hdial := dialAndSend_heeds entry.address.toVal hne hq2
            (hr.mono hpast) hp1
          refine Heeds.mono hdial (fun last r hl => ?_)
          refine ⟨fun e he => hl.1 (hpast he),hl.2.1,fun hs => ?_⟩
          obtain ⟨hq3,hunreach⟩ := hl.2.2 hs
          exact ⟨hq3,hid,hun.mono (fun e he => hl.1 (hln he)),hunreach⟩

theorem bufferFor_heeds {home : String} (p : Packet) (hq : past.filter settles = [])
    (hm : MayBuffer self pkt cellId past) :
    Heeds (guard self pkt cellId) (rely self) (fun _ _ => True) past
      (Router.bufferFor L cellId home p) := by
  rcases Router.bufferFor_cases L cellId home p with ⟨e,hb⟩ | ⟨k,payload,_,_,hb⟩
  · rw [hb]
    trivial
  · rw [hb]
    exact ⟨⟨hq,rfl,hm⟩,fun _ _ => trivial⟩

/-- The home node is tried once the visiting node has failed, and the buffer is
the last resort. -/
theorem home_heeds {row : PresenceEntry} {p : Packet} {m : String} (hne : row.homeNodeId ≠ "")
    (hq : past.filter settles = []) (hrow : Listed cellId row past)
    (hv : VisitFailed self pkt row past)
    (ha : parseAddr pkt.toAddr = .ok (some cellId,m)) (hp : Resigned pkt p) :
    Heeds (guard self pkt cellId) (rely self) (fun _ _ => True) past
      (Router.tryHome self cellId row.homeNodeId p) := by
  have hr : Recipient self pkt cellId past
      (if row.homeNodeId = self.id then cellId else row.homeNodeId) := by
    split
    · exact .resident row hrow hv ‹_›
    · exact .home row hrow hv ‹_›
  refine (sendToNode_heeds hne hq hr ha hp).bind (fun later r hl => ?_)
  cases hsent : r.1 with
  | true => trivial
  | false =>
    obtain ⟨hq1,hfailed⟩ := hl.2.2 hsent
    exact bufferFor_heeds r.2 hq1 ⟨row,hl.1 hrow,hv.mono hl.1,hfailed⟩

theorem route_heeds {m : String} (ha : parseAddr pkt.toAddr = .ok (some cellId,m)) :
    Heeds (guard self pkt cellId) (rely self) (fun _ _ => True) []
      (Router.route self pkt) := by
  rw [Router.route_cell ha]
  refine ⟨trivial,fun row hrow => ?_⟩
  cases row with
  | none =>
    refine ⟨trivial,fun cell _ => ?_⟩
    cases cell with
    | none => trivial
    | some cell =>
      have hr : Recipient self pkt cellId [⟨.store (.getPresence cellId),none⟩,
          ⟨.store (.getCell cellId),some cell⟩] cellId := .unlisted cell (by simp) (by simp)
      exact (deliverLocal_heeds rfl hr ha (.refl pkt)).mono (fun _ _ _ => trivial)
  | some row =>
    have hlisted : Listed cellId row [⟨.store (.getPresence cellId),some row⟩] := by
      simp [Listed]
    change Heeds _ _ _ _ (Router.tryPresence self cellId row pkt)
    unfold Router.tryPresence
    cases hv : Router.visiting row with
    | none =>
      exact home_heeds (hrow row rfl) rfl hlisted (by simp [VisitFailed,hv]) ha (.refl pkt)
    | some nodeId =>
      have hne : nodeId ≠ "" := by
        have hf := (Option.filter_eq_some_iff.mp hv).2
        simpa using hf
      have hr : Recipient self pkt cellId [⟨.store (.getPresence cellId),some row⟩]
          (if nodeId = self.id then cellId else nodeId) := by
        split
        · rename_i hid
          exact .visitor row hlisted (by rw [hv,hid])
        · exact .visiting row nodeId hlisted hv ‹_›
      refine (sendToNode_heeds hne rfl hr ha (.refl pkt)).bind (fun later r hl => ?_)
      obtain ⟨sent,p⟩ := r
      cases sent with
      | true => trivial
      | false =>
        obtain ⟨hq1,hfailed⟩ := hl.2.2 rfl
        refine home_heeds (hrow row rfl) hq1 (hl.1 hlisted) (fun n hn => ?_) ha hl.2.1
        cases hv.symm.trans hn
        exact hfailed

end

theorem delivers_of_path {self : Node L} {pkt : Packet} {cellId m : String} {tr : Trace}
    {p : NodeProg Unit} (ha : parseAddr pkt.toAddr = .ok (some cellId,m))
    (h : Path (Router.route self pkt) tr p) (hr : ∀ e ∈ tr, rely self e.1 e.2) :
    Delivers self pkt cellId tr := by
  have hguard := ((route_heeds ha).path h hr).1
  refine ⟨?_,filter_length_le_one ?_,?_⟩
  · intro tr1 conn frame a tr2 htr
    exact (hguard tr1 _ tr2 htr).2
  · intro tr1 e tr2 htr he
    have hq := hguard tr1 e tr2 htr
    obtain ⟨q,a⟩ := e
    cases q with
    | store op => cases op <;> first | exact hq.1 | simp [settles] at he
    | wsSend conn frame => exact hq.1
    | onMessage p => exact hq
    | _ => simp [settles] at he
  · intro tr1 k receiver home payload a tr2 htr
    exact (hguard tr1 _ tr2 htr).2

/-- Routing writes neither presence rows nor entries under another id. -/
theorem route_safe (self : Node L) (pkt : Packet) :
    Obeys (fun q => ∀ c home v, q ≠ .store (.updatePresence c home v)) (fun _ _ => True)
      (fun _ => True) (Router.route self pkt) := by
  refine (Router.route_allowed pkt).mono_guard (fun q hq c home v he => ?_)
  subst he
  exact hq.elim id id

theorem inOrder_answers {w w' : NodeState} {q : Req} {a : Ans q} (h : w.Answers q a w')
    (hq : ∀ c home v, q ≠ .store (.updatePresence c home v)) (hw : InOrder w) : InOrder w' := by
  cases q with
  | store op =>
    obtain ⟨now,_,rfl⟩ := h
    cases op with
    | updatePresence c home v => exact (hq c home v rfl).elim
    | _ => exact ⟨hw.peer,hw.home⟩
  | connGet nodeId =>
    obtain ⟨_,rfl⟩ := h
    exact hw
  | connAdd conn =>
    cases h
    refine ⟨fun nodeId conn' hg => ?_,hw.home⟩
    simp only [ConnectionRegistry.get_add] at hg
    split at hg
    · cases hg
      exact Eq.symm ‹_›
    · exact hw.peer nodeId conn' hg
  | connRemove nodeId =>
    cases h
    refine ⟨fun n conn hg => ?_,hw.home⟩
    simp only [ConnectionRegistry.get_remove] at hg
    split at hg
    · cases hg
    · exact hw.peer n conn hg
  | _ => cases h; exact hw

theorem rely_answers {self : Node L} {w w' : NodeState} {q : Req} {a : Ans q}
    (h : w.Answers q a w') (hauth : Authentic self q a) (hw : InOrder w) : rely self q a := by
  cases q with
  | store op =>
    obtain ⟨now,rfl,_⟩ := h
    cases op with
    | getPresence c => exact fun row hrow => hw.home c row hrow
    | _ => trivial
  | connGet nodeId =>
    obtain ⟨rfl,_⟩ := h
    exact hw.peer nodeId
  | dial expected address => exact hauth
  | _ => trivial

/-- The state stays in order, and every answer is one a routing relies on. -/
def discipline {ι : Type} (self : Node L) : Discipline Unit (rules (ι := ι) self) where
  inv := InOrder
  view := fun _ => ()
  guard := fun _ _ q => ∀ c home v, q ≠ .store (.updatePresence c home v)
  rely := fun _ _ => rely self
  mono := fun _ _ _ _ _ hq => hq
  answer := fun _ _ _ _ _ h hw hq =>
    ⟨rely_answers h.1 h.2 hw,inOrder_answers h.1 hq hw,le_refl _⟩
  start := by
    rintro i w p w' ⟨⟨pkt,rfl⟩,rfl⟩ hw
    exact ⟨(route_safe self pkt).keeps () (fun _ _ _ hq => hq) (fun _ _ _ _ _ => trivial),hw,
      le_refl _⟩
  drift := fun _ _ h _ => ⟨h,le_refl _⟩

/-- A message for a cell is passed on only to the cell itself, where this node is
chosen, to the visiting node, and after it to the home node. It is settled at
most once, in the buffer only when both nodes have failed. -/
theorem route_delivers {ι : Type} [DecidableEq ι] (self : Node L) {w : NodeState}
    (hw : InOrder w) {P : Pool ι Req Ans Err Unit NodeState}
    (hP : Pool.Steps (rules self) (initial w) P) (i : ι) {pkt : Packet}
    (hl : P.launched i = Router.route self pkt) {addr cellId m : String}
    (hto : pkt.toAddr = .str addr) (haddr : splitAddr addr = some (cellId,m)) :
    Delivers self pkt cellId (P.history i) := by
  have hholds : (discipline self).Holds (initial (ι := ι) w) := ⟨hw,fun _ => trivial⟩
  have hon : (initial w : Pool ι Req Ans Err Unit NodeState).OnPath := fun _ => .here _
  have hpath := hon.steps hP i
  rw [hl] at hpath
  have ha : parseAddr pkt.toAddr = .ok (some cellId,m) := by simp [parseAddr,hto,haddr]
  refine delivers_of_path ha hpath (fun e he => ?_)
  obtain ⟨_,hr⟩ := hholds.relied (fun _ e he => by simp [initial] at he) hP i e he
  exact hr

theorem allows_run {ι : Type} {self : Node L} (i : ι) {env : Env}
    (hdial : ∀ n expected address conn, env.dial n expected address = .ok conn →
      Dialled self expected conn) (p : NodeProg Unit) (w : World) :
    (rules self).Allows i w.state (run env.handler p w).trace
      (run env.handler p w).final.state := by
  refine Env.allows_run (R := rules self) (fun q w => ⟨NodeState.answers_handler env q w,?_⟩) p w
  cases q with
  | dial expected address => exact fun conn h => hdial _ _ _ conn h
  | _ => trivial

/-- A cell whose home node is connected. -/
def sampleHome : NodeState where
  storage := Storage.empty.updatePresence 0 "c" "h" (some "v")
  connections := ConnectionRegistry.empty.add ⟨1,"h",[],.none,"n"⟩

def sampleLetter : Packet :=
  { type := .str T.msg, payload := .bin [1], id := .str "m", ts := .int 0, toAddr := .str "c@h" }

/-- A frame was put on a socket. -/
def isSend : Exchange Req Ans → Bool
  | ⟨.wsSend _ _,_⟩ => true
  | _ => false

theorem exists_isSend {tr : List (Exchange Req Ans)} (h : tr.any isSend = true) :
    ∃ (conn : PeerConnection) (frame : Bytes) (a : Ans (.wsSend conn frame)),
      (⟨.wsSend conn frame,a⟩ : Exchange Req Ans) ∈ tr := by
  obtain ⟨⟨q,a⟩,he,hs⟩ := List.any_eq_true.mp h
  cases q with
  | wsSend conn frame => exact ⟨conn,frame,a,he⟩
  | _ => cases hs

def sampleEnv : Env where
  now := fun _ => 0
  stamp := fun _ => ⟨"",0⟩
  wsSend := fun _ _ _ => .ok ()
  dial := fun _ _ _ => .error .connectionClosed
  onMessage := fun _ _ => .ok ()

theorem route_delivers_sample : ∃ P : Pool Unit Req Ans Err Unit NodeState,
    Pool.Steps (rules (sampleNode false)) (initial sampleHome) P ∧
      P.launched () = Router.route (sampleNode false) sampleLetter ∧
      (P.history ()).any settles = true ∧
      Delivers (sampleNode false) sampleLetter "c" (P.history ()) := by
  have hw : InOrder sampleHome := by
    constructor
    · intro nodeId conn h
      simp only [sampleHome,ConnectionRegistry.get_add,ConnectionRegistry.get_empty] at h
      split at h
      · cases h
        exact Eq.symm ‹_›
      · cases h
    · intro c row h
      simp only [sampleHome,Storage.updatePresence,Table.find_upsert] at h
      split at h
      · cases h
        simp [Storage.empty]
      · simp [Storage.empty] at h
  have hrun := run_path sampleEnv.handler (Router.route (sampleNode false) sampleLetter)
    ⟨sampleHome,0⟩
  obtain ⟨P,hP,hl,hh,_⟩ := Pool.exists_run_of_start (P := initial sampleHome) (i := ())
    (R := rules (sampleNode false)) trivial ⟨⟨sampleLetter,rfl⟩,rfl⟩ hrun
    (allows_run () (by simp [sampleEnv]) _ ⟨sampleHome,0⟩)
  have hroute : P.launched () = Router.route (sampleNode false) sampleLetter := by simp [hl]
  exact ⟨P,hP,hroute,by rw [hh]; decide +kernel,
    route_delivers (sampleNode false) hw hP () (m := "h") hroute rfl (by decide +kernel)⟩

end Forwarding

end Nevod
