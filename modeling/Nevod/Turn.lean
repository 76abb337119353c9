import Nevod.Gossip

/-!
One turn of the gossip loop: all that it may ask for, whatever it is told, and that
it never raises. What is needed of it elsewhere is read off this.
-/

set_option autoImplicit false

namespace Nevod
open Text Resume

variable {L : Lib}

namespace Running

/-- The frame of a PING to the node. -/
def IsPing (self : Node L) (k : SqlText) (frame : Bytes) : Prop :=
  ∃ st signed, Transport.wireForm self (makePing st (.str self.id) k.toVal) = .ok (signed,frame)

/-- The round has recorded a result for the node. -/
def Pinged (k : SqlText) (past : List (Exchange Req Ans)) : Prop :=
  ∃ success, (⟨.store (.updateNodePing k success),()⟩ : Exchange Req Ans) ∈ past

end Running

namespace Network

/-- The frame of a GOSSIP that lists these rows. -/
def IsGossip (self : Node L) (rows : List NodeRow) (frame : Bytes) : Prop :=
  ∃ st g signed, makeGossip L st (.str self.id) (rows.map NodeRow.toDict) = .ok g ∧
    Transport.wireForm self g = .ok (signed,frame)

end Network

namespace GossipEngine
open Running Network

variable {self : Node L} {past : List (Exchange Req Ans)}

/-- The PING over a connection and its result. -/
def pingOver (self : Node L) (k : SqlText) (conn : PeerConnection) : NodeProg Unit := do
  let st ← NodeProg.stamp
  let sent ← trySend self conn (makePing st (.str self.id) k.toVal)
  NodeProg.store (.updateNodePing k sent)

theorem trySend_cases (self : Node L) (conn : PeerConnection) (pkt : Packet) :
    (∃ e, Transport.wireForm self pkt = .error e ∧ trySend self conn pkt = .ret false) ∨
    ∃ signed frame, Transport.wireForm self pkt = .ok (signed,frame) ∧
      trySend self conn pkt = .ask (.wsSend conn frame) (fun sent =>
        match sent with
        | .ok _ => .ret true
        | .error _ => .ret false) := by
  unfold trySend Transport.sendVia
  cases hw : Transport.wireForm self pkt with
  | error e => exact .inl ⟨e,rfl,rfl⟩
  | ok x =>
    obtain ⟨signed,frame⟩ := x
    refine .inr ⟨signed,frame,rfl,?_⟩
    simp only [Prog.ofExcept_ok,Prog.bind_eq,Prog.bind_ret,Prog.bind_ask,Prog.rescue_ask]
    congr 1
    funext sent
    cases sent <;> rfl

theorem pingNode_eq (entry : NodeRow) : pingNode self entry =
    match entry.nodeId with
    | .blob b => NodeProg.store (.updateNodePing (.blob b) false)
    | .text nodeId =>
      .ask (.connGet nodeId) (fun found =>
        match found with
        | some conn => pingOver self (.text nodeId) conn
        | none =>
          .ask (.dial (some nodeId) (entry.address.toVal.pyStr L.repr)) (fun dialled =>
            match dialled with
            | .error _ => NodeProg.store (.updateNodePing (.text nodeId) false)
            | .ok conn => .ask (.connAdd conn) (fun _ => .ask (.startRecv conn false) (fun _ =>
                pingOver self (.text nodeId) conn)))) := by
  unfold pingNode
  cases entry.nodeId with
  | blob b => rfl
  | text nodeId =>
    simp only [Prog.bind_eq,Prog.bind_ask]
    congr 1
    funext found
    cases found with
    | some conn => rfl
    | none =>
      simp only [Transport.connectToNode,Prog.bind_eq,Prog.bind_ret,Prog.bind_ask,Prog.rescue_ask]
      congr 1
      funext dialled
      cases dialled <;> rfl

theorem exchange_eq (peer : NodeRow) : exchange self peer =
    match peer.nodeId with
    | .blob _ => .ret ()
    | .text nodeId =>
      .ask (.connGet nodeId) (fun found =>
        match found with
        | none => .ret ()
        | some conn =>
          .ask (.store .getAllNodes) (fun rows => .ask .stamp (fun st =>
            match makeGossip L st (.str self.id) (rows.map NodeRow.toDict) with
            | .error e => .raise e
            | .ok g => (trySend self conn g).bind (fun _ => .ret ())))) := by
  unfold exchange
  cases peer.nodeId with
  | blob b => rfl
  | text nodeId =>
    simp only [Prog.bind_eq,Prog.bind_ask,Prog.bind_ret]
    congr 1
    funext found
    cases found with
    | none => rfl
    | some conn =>
      change Prog.ask _ _ = Prog.ask _ _
      congr 1
      funext rows
      congr 1
      funext st
      cases makeGossip L st (.str self.id) (rows.map NodeRow.toDict) <;> rfl

/-- What a turn may ask for after `past`. It sends PINGs, and GOSSIPs of rows it has
read, and records a success once a PING was sent; it enters and removes nobody. -/
def Turns (self : Node L) (past : List (Exchange Req Ans)) : Req → Prop
  | .wsSend _ frame => (∃ k, IsPing self k frame) ∨
      ∃ rows, (⟨.store .getAllNodes,rows⟩ : Exchange Req Ans) ∈ past ∧ IsGossip self rows frame
  | .store (.updateNodePing k success) => success = true → ∃ conn frame, IsPing self k frame ∧
      (⟨.wsSend conn frame,.ok ()⟩ : Exchange Req Ans) ∈ past
  | .store .getAllNodes | .store .cleanupExpiredNodes | .store .cleanupExpiredMessages => True
  | .connGet _ | .connAdd _ | .dial _ _ | .stamp | .sample _ _ => True
  | .startRecv _ incoming => incoming = false
  | _ => False

theorem trySend_turns {conn : PeerConnection} {pkt : Packet} (h : ∀ signed frame,
      Transport.wireForm self pkt = .ok (signed,frame) → Turns self past (.wsSend conn frame)) :
    Heeds (Turns self) (fun _ _ => True) (fun later sent => past ⊆ later ∧
      (sent = true → ∃ signed frame, Transport.wireForm self pkt = .ok (signed,frame) ∧
        (⟨.wsSend conn frame,.ok ()⟩ : Exchange Req Ans) ∈ later)) past
      (trySend self conn pkt) := by
  rcases trySend_cases self conn pkt with ⟨e,_,ht⟩ | ⟨signed,frame,hw,ht⟩
  · rw [ht]
    exact ⟨fun _ he => he,by simp⟩
  · rw [ht]
    refine ⟨h signed frame hw,fun sent _ => ?_⟩
    rcases sent with e | ⟨⟨⟩⟩
    · exact ⟨by simp,by simp⟩
    · exact ⟨by simp,fun _ => ⟨signed,frame,hw,by simp⟩⟩

theorem pingOver_turns (k : SqlText) (conn : PeerConnection) :
    Heeds (Turns self) (fun _ _ => True) (fun later _ => past ⊆ later ∧ Pinged k later) past
      (pingOver self k conn) := by
  refine ⟨trivial,fun st _ => ?_⟩
  have hsend : ∀ signed frame, Transport.wireForm self (makePing st (.str self.id) k.toVal) =
      .ok (signed,frame) → Turns self (past ++ [⟨.stamp,st⟩]) (.wsSend conn frame) :=
    fun signed frame hw => .inl ⟨k,st,signed,hw⟩
  refine (trySend_turns hsend).bind (fun later sent hl => ⟨?_,fun _ _ => ⟨?_,sent,by simp⟩⟩)
  · rintro rfl
    obtain ⟨signed,frame,hw,hmem⟩ := hl.2 rfl
    exact ⟨conn,frame,⟨st,signed,hw⟩,hmem⟩
  · intro e he
    have hlater := hl.1 (List.mem_append_left _ he)
    simp [hlater]

theorem pingNode_turns (entry : NodeRow) :
    Heeds (Turns self) (fun _ _ => True)
      (fun later _ => past ⊆ later ∧ Pinged entry.nodeId later) past (pingNode self entry) := by
  have hfail : ∀ (k : SqlText) (now : List (Exchange Req Ans)), past ⊆ now →
      Heeds (Turns self) (fun _ _ => True) (fun later _ => past ⊆ later ∧ Pinged k later) now
        (NodeProg.store (.updateNodePing k false)) := by
    refine fun k now hs => ⟨?_,fun _ _ => ⟨fun e he => by simp [hs he],false,by simp⟩⟩
    intro hfalse
    cases hfalse
  have hover : ∀ (k : SqlText) (conn : PeerConnection) (now : List (Exchange Req Ans)), past ⊆ now →
      Heeds (Turns self) (fun _ _ => True) (fun later _ => past ⊆ later ∧ Pinged k later) now
        (pingOver self k conn) :=
    fun k conn now hs =>
      (pingOver_turns k conn).mono (fun later _ hl => ⟨fun e he => hl.1 (hs he),hl.2⟩)
  rw [pingNode_eq]
  cases entry.nodeId with
  | blob b => exact hfail (.blob b) past (fun _ he => he)
  | text nodeId =>
    refine ⟨trivial,fun found _ => ?_⟩
    cases found with
    | some conn => exact hover (.text nodeId) conn _ (by simp)
    | none =>
      refine ⟨trivial,fun dialled _ => ?_⟩
      cases dialled with
      | error e => exact hfail (.text nodeId) _ (fun e he => by simp [he])
      | ok conn =>
        refine ⟨trivial,fun _ _ => ⟨rfl,fun _ _ => ?_⟩⟩
        exact hover (.text nodeId) conn _ (fun e he => by simp [he])

theorem pingAll_turns (rows : List NodeRow) :
    Heeds (Turns self) (fun _ _ => True)
      (fun later _ => past ⊆ later ∧ ∀ r ∈ rows, Pinged r.nodeId later) past
      (Prog.forEach rows (pingNode self)) := by
  induction rows generalizing past with
  | nil => exact ⟨fun _ he => he,by simp⟩
  | cons r rows ih =>
    refine (pingNode_turns r).bind (fun later _ hl => ?_)
    refine ih.mono (fun last _ hlast => ⟨fun e he => hlast.1 (hl.1 he),fun s hs => ?_⟩)
    rcases List.mem_cons.mp hs with rfl | hs
    · obtain ⟨success,hmem⟩ := hl.2
      exact ⟨success,hlast.1 hmem⟩
    · exact hlast.2 s hs

theorem exchange_turns (peer : NodeRow) :
    Heeds (Turns self) (fun _ _ => True) (fun _ _ => True) past (exchange self peer) := by
  rw [exchange_eq]
  cases peer.nodeId with
  | blob b => trivial
  | text nodeId =>
    refine ⟨trivial,fun found _ => ?_⟩
    cases found with
    | none => trivial
    | some conn =>
      refine ⟨trivial,fun rows _ => ⟨trivial,fun st _ => ?_⟩⟩
      cases hg : makeGossip L st (.str self.id) (rows.map NodeRow.toDict) with
      | error e => simp [hg,Heeds]
      | ok g =>
        simp only [hg]
        refine (trySend_turns (fun signed frame hw => .inr ⟨rows,?_,st,g,signed,hg,hw⟩)).bind
          (fun _ _ _ => trivial)
        simp

theorem turn_turns :
    Heeds (Turns self) (fun _ _ => True) (fun _ _ => True) past (turn self) := by
  refine Heeds.rescue ⟨trivial,fun nodes _ => ?_⟩ (fun _ _ => trivial)
  refine ((pingAll_turns _).mono (fun _ _ _ => trivial)).bind (fun later _ _ => ?_)
  refine ⟨trivial,fun _ _ => ⟨trivial,fun _ _ => ⟨trivial,fun peers _ => ?_⟩⟩⟩
  exact Heeds.forEach (fun last peer _ => exchange_turns peer)

theorem safe_pingOver (k : SqlText) (conn : PeerConnection) : (pingOver self k conn).Safe := by
  have htry : ∀ pkt, (trySend self conn pkt).Safe := fun pkt => Prog.safe_rescue (fun _ => trivial)
  exact fun st => (htry _).bind (fun sent _ => trivial)

theorem safe_pingNode (entry : NodeRow) : (pingNode self entry).Safe := by
  rw [pingNode_eq]
  cases entry.nodeId with
  | blob b => exact fun _ => trivial
  | text nodeId =>
    intro found
    cases found with
    | some conn => exact safe_pingOver (.text nodeId) conn
    | none =>
      intro dialled
      cases dialled with
      | error e => exact fun _ => trivial
      | ok conn => exact fun _ _ => safe_pingOver (.text nodeId) conn

theorem safe_turn : (turn self).Safe := Prog.safe_rescue (fun _ => trivial)

/-- A turn of the loop that is over has pinged every other node it found. -/
theorem turn_pings : Heeds (fun _ _ => True) (fun _ _ => True)
    (fun later _ => ∃ rows, (⟨.store .getAllNodes,rows⟩ : Exchange Req Ans) ∈ later ∧
      ∀ r ∈ rows, r.nodeId ≠ .text self.id → Pinged r.nodeId later) [] (turn self) := by
  refine ⟨trivial,fun nodes _ => ?_⟩
  have hpings : (Prog.forEach (nodes.filter (fun r => r.nodeId ≠ .text self.id))
      (pingNode self)).Safe := Prog.Safe.forEach safe_pingNode
  simp only [Prog.bind_ret,Prog.bind_eq]
  rw [hpings.rescue_bind]
  have hall : Heeds (Turns self) (fun _ _ => True) _ [⟨.store .getAllNodes,nodes⟩] _ :=
    pingAll_turns (nodes.filter (fun r => r.nodeId ≠ .text self.id))
  refine (hall.mono_guard (fun _ _ _ => trivial)).bind (fun later _ hl => ?_)
  refine (heeds_extends _).mono (fun last _ hlast => ⟨nodes,hlast (hl.1 (by simp)),?_⟩)
  intro r hr hne
  obtain ⟨success,hmem⟩ := hl.2 r (by simp [hr,hne])
  exact ⟨success,hlast hmem⟩

end GossipEngine

end Nevod
