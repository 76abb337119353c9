import Nevod.Registration
import Nevod.Routing

/-!
Messages to a cell that registers meanwhile. A routing that has found the cell at
home elsewhere puts its message into the buffer in the end, and the flush of the
registration empties the buffer once.
-/

set_option autoImplicit false

namespace Nevod
open Text Resume Keyed

variable {L : Lib} {ι : Type}

namespace Wakeup

/-- The node and the time of its clock. -/
structure Clocked where
  state : NodeState
  clock : Int

def Clocked.buffer (w : Clocked) : List BufferedMessage := w.state.storage.messageBuffer.rows

def Clocked.Answers (w : Clocked) : (q : Req) → Ans q → Clocked → Prop
  | .store op,a,w' => a = (w.state.storage.exec w.clock op).1 ∧
      w' = { w with state := { w.state with storage := (w.state.storage.exec w.clock op).2 } }
  | q,a,w' => ∃ v, w.state.Answers q a v ∧ w' = { w with state := v }

/-- What concerns the cell `c`: messages to it, its handshake and its registration. -/
inductive Serves (self : Node L) (c : String) : NodeProg Unit → Prop where
  | route (pkt : Packet) (n : String) (h : parseAddr pkt.toAddr = .ok (some c,n)) :
      Serves self c (Router.route self pkt)
  | handshake : Serves self c Transport.handleIncoming
  | register (pkt : Packet) (conn : PeerConnection) (h : conn.peerNodeId = c)
      (hty : pkt.type = .str T.cellRegister) : Serves self c (Node.dispatch self pkt conn)

/-- Between the requests time passes, and connections may come and go. -/
def rules (self : Node L) (c : String) : Rules ι Req Ans Err Unit Clocked where
  answer := fun _ w q a w' => w.Answers q a w'
  start := fun _ w p w' => Serves self c p ∧ w' = w
  drift := fun w w' => w'.state.storage = w.state.storage ∧ w.clock ≤ w'.clock

def initial (w : Clocked) : Pool ι Req Ans Err Unit Clocked :=
  ⟨fun _ => .ret (),fun _ => [],fun _ => .ret (),w⟩

/-- A message is buffered for a cell that was found at home elsewhere, and the cell
`c` gets no other home than this node. -/
def Bounded (self : Node L) (c : String) (past : List (Exchange Req Ans)) : Req → Prop
  | .store (.bufferMessage _ cell _ _) => ∃ row,
      (⟨.store (.getPresence cell),some row⟩ : Exchange Req Ans) ∈ past ∧ row.homeNodeId ≠ self.id
  | .store (.updatePresence cell home visiting) => cell = c → home = self.id ∧ visiting = none
  | _ => True

section Programs

variable {self : Node L} {c : String} {past : List (Exchange Req Ans)}

theorem bounded_of_forwards {pkt : Packet} {q : Req} (h : Router.Forwards self pkt q)
    (past : List (Exchange Req Ans)) : Bounded self c past q := by
  cases q with
  | store op =>
    cases op with
    | bufferMessage k cell home payload => exact h.elim
    | updatePresence cell home visiting => exact h.elim
    | _ => trivial
  | _ => trivial

/-- At this node itself every message counts as sent. -/
theorem sendToNode_home {pkt : Packet} (nodeId : String) :
    Obeys (Router.Forwards self pkt) (fun _ _ => True) (fun r => nodeId = self.id → r.1 = true)
      (Router.sendToNode self nodeId pkt) := by
  by_cases hid : nodeId = self.id
  · unfold Router.sendToNode
    rw [if_pos hid]
    exact (Router.deliverLocal_forwards pkt (.refl pkt)).bind (fun _ _ _ => rfl)
  · exact (Router.sendToNode_forwards pkt nodeId (.refl pkt)).mono (fun _ _ h => (hid h).elim)

theorem bufferFor_bounded {cell : String} {row : PresenceEntry} (pkt : Packet)
    (hrow : (⟨.store (.getPresence cell),some row⟩ : Exchange Req Ans) ∈ past)
    (hne : row.homeNodeId ≠ self.id) :
    Heeds (Bounded self c) (fun _ _ => True) (fun _ _ => True) past
      (Router.bufferFor L cell row.homeNodeId pkt) := by
  rcases Router.bufferFor_cases L cell row.homeNodeId pkt with ⟨e,hb⟩ | ⟨k,payload,_,_,hb⟩
  · rw [hb]
    trivial
  · rw [hb]
    exact ⟨⟨row,hrow,hne⟩,fun _ _ => trivial⟩

theorem sendToNode_bounded (pkt : Packet) (nodeId : String) :
    Heeds (Bounded self c) (fun _ _ => True)
      (fun later r => past ⊆ later ∧ (nodeId = self.id → r.1 = true)) past
      (Router.sendToNode self nodeId pkt) := by
  have hkind : Heeds (Bounded self c) (fun _ _ => True)
      (fun _ r => nodeId = self.id → r.1 = true) past (Router.sendToNode self nodeId pkt) :=
    (sendToNode_home nodeId).heeds (fun later q hq => bounded_of_forwards hq later)
  exact (hkind.and (heeds_extends _)).mono (fun later r hl => ⟨hl.2,hl.1⟩)

theorem tryHome_bounded {cell : String} {row : PresenceEntry} (pkt : Packet)
    (hrow : (⟨.store (.getPresence cell),some row⟩ : Exchange Req Ans) ∈ past) :
    Heeds (Bounded self c) (fun _ _ => True) (fun _ _ => True) past
      (Router.tryHome self cell row.homeNodeId pkt) := by
  refine (sendToNode_bounded pkt row.homeNodeId).bind (fun later r hl => ?_)
  by_cases hs : r.1 = true
  · rw [if_pos hs]
    trivial
  · rw [if_neg hs]
    exact bufferFor_bounded r.2 (hl.1 hrow) (fun he => hs (hl.2 he))

theorem route_bounded (pkt : Packet) :
    Heeds (Bounded self c) (fun _ _ => True) (fun _ _ => True) past (Router.route self pkt) := by
  cases ha : parseAddr pkt.toAddr with
  | error e =>
    rw [Router.route_error ha]
    trivial
  | ok x =>
    obtain ⟨cell,nodeId⟩ := x
    cases cell with
    | none =>
      rw [Router.route_node ha]
      exact (sendToNode_bounded pkt nodeId).bind (fun _ _ _ => trivial)
    | some cell =>
      rw [Router.route_cell ha]
      refine ⟨trivial,fun presence _ => ?_⟩
      cases presence with
      | none =>
        refine ⟨trivial,fun found _ => ?_⟩
        cases found with
        | none => trivial
        | some entry =>
          exact (Router.deliverLocal_forwards pkt (.refl pkt)).heeds
            (fun later q hq => bounded_of_forwards hq later)
      | some row =>
        change Heeds _ _ _ _ (Router.tryPresence self cell row pkt)
        unfold Router.tryPresence
        split
        · exact tryHome_bounded pkt (by simp)
        · refine (sendToNode_bounded pkt _).bind (fun later r hl => ?_)
          split
          · trivial
          · exact tryHome_bounded r.2 (hl.1 (by simp))

theorem flush_bounded (rows : List BufferedMessage) :
    Heeds (Bounded self c) (fun _ _ => True) (fun _ _ => True) past
      (Prog.forEach rows (Router.flushMessage self)) := by
  refine Heeds.forEach (fun later r _ => ?_)
  unfold Router.flushMessage
  cases deserializePacket L r.payload with
  | none => trivial
  | some pkt => exact (route_bounded pkt).bind (fun _ _ _ => ⟨trivial,fun _ _ => trivial⟩)

theorem serves_bounded {p : NodeProg Unit} (h : Serves self c p) :
    Heeds (Bounded self c) (fun _ _ => True) (fun _ _ => True) [] p := by
  cases h with
  | route pkt n _ => exact route_bounded pkt
  | handshake =>
    refine ⟨trivial,fun accepted _ => ?_⟩
    cases accepted with
    | error e => trivial
    | ok conn => exact ⟨trivial,fun _ _ => ⟨trivial,fun _ _ => trivial⟩⟩
  | register pkt conn hconn hty =>
    rw [dispatch_cellRegister _ hty]
    unfold Node.handleCellRegister
    cases Node.cellClaim L pkt with
    | error e => trivial
    | ok claim =>
      simp only
      split
      · trivial
      · split
        · trivial
        · refine ⟨trivial,fun _ _ => ⟨fun _ => ⟨rfl,rfl⟩,fun _ _ => ⟨trivial,fun rows _ => ?_⟩⟩⟩
          exact flush_bounded rows

end Programs

def AtHome (self : Node L) (c : String) (w : Clocked) : Prop :=
  ∃ row, w.state.storage.presenceTable.find c = some row ∧ row.homeNodeId = self.id ∧
    row.visitingNodeId = none

/-- The home of the cell is this node, and no task in progress has found another. -/
structure Awake (node : Node L) (c : String) (P : Pool ι Req Ans Err Unit Clocked) : Prop where
  home : AtHome node c P.world
  tasks : ∀ j, ¬ (P.tasks j).Done → ∀ row,
    (⟨.store (.getPresence c),some row⟩ : Exchange Req Ans) ∈ P.history j →
      row.homeNodeId = node.id

section Runs

variable [DecidableEq ι] {self : Node L} {c : String} {w : Clocked}
  {P P' : Pool ι Req Ans Err Unit Clocked}

theorem asks_bounded (hP : Pool.Steps (rules self c) (initial w) P) {j : ι} {q : Req}
    {k : Ans q → NodeProg Unit} (ht : P.tasks j = .ask q k) : Bounded self c (P.history j) q := by
  have hpath := Pool.OnPath.waits (P := initial w) (fun _ => .here _) hP ht
  have hserves : Serves self c (P.launched j) :=
    Pool.launched_of_steps (P := initial w) (R := rules self c) (S := fun _ p => Serves self c p)
      (fun _ _ _ _ h => h.1) (fun _ h => (h trivial).elim) hP j (by simp [ht,Prog.Done])
  exact (serves_bounded hserves).waits hpath (fun _ _ => trivial)

/-- Only a registration changes the home of the cell. -/
theorem home_answers {v v' : Clocked} {q : Req} {a : Ans q} {past : List (Exchange Req Ans)}
    (hq : Bounded self c past q) (h : v.Answers q a v') (hhome : AtHome self c v) :
    AtHome self c v' := by
  cases q with
  | store op =>
    obtain ⟨_,rfl⟩ := h
    cases op with
    | updatePresence cell home visiting =>
      obtain ⟨row,hrow,hself,hvis⟩ := hhome
      simp only [AtHome,Storage.exec,Storage.updatePresence,Table.find_upsert]
      by_cases hc : cell = c
      · obtain ⟨rfl,rfl⟩ := hq hc
        subst hc
        simp [hrow]
      · have hcc : c ≠ cell := fun he => hc he.symm
        exact ⟨row,by simpa [hcc] using hrow,hself,hvis⟩
    | _ => exact hhome
  | connGet nodeId =>
    obtain ⟨v,⟨_,rfl⟩,rfl⟩ := h
    exact hhome
  | _ =>
    obtain ⟨v,hv,rfl⟩ := h
    cases hv
    exact hhome

/-- Without a message buffered for the cell, its rows can only go. -/
theorem buffer_answers {v v' : Clocked} {q : Req} {a : Ans q} (h : v.Answers q a v')
    (hq : ∀ k home payload, q ≠ .store (.bufferMessage k c home payload)) :
    ∀ r ∈ v'.buffer, r.toCell = c → r ∈ v.buffer := by
  intro r hr hc
  cases q with
  | store op =>
    obtain ⟨_,rfl⟩ := h
    cases op with
    | bufferMessage k cell home payload =>
      simp only [Clocked.buffer,Storage.exec,Storage.bufferMessage,Table.mem_insertIgnore] at hr
      rcases hr with hr | ⟨rfl,_⟩
      · exact hr
      · exact absurd (by rw [← hc]) (hq k home payload)
    | deleteBuffered k => exact ((Table.mem_delete _ _ r).mp hr).1
    | cleanupExpiredMessages => exact ((Table.mem_deleteWhere _ _ r).mp hr).1
    | _ => exact hr
  | connGet nodeId =>
    obtain ⟨u,⟨_,rfl⟩,rfl⟩ := h
    exact hr
  | _ =>
    obtain ⟨u,hu,rfl⟩ := h
    cases hu
    exact hr

theorem clock_answers {v v' : Clocked} {q : Req} {a : Ans q} (h : v.Answers q a v') :
    v'.clock = v.clock := by
  cases q with
  | store op =>
    obtain ⟨_,rfl⟩ := h
    rfl
  | _ =>
    obtain ⟨u,_,rfl⟩ := h
    rfl

/-- Once the cell is at home here for all tasks, it stays so, and nothing more is
buffered for it. -/
theorem Awake.step (h : Awake self c P) (hP : Pool.Steps (rules self c) (initial w) P)
    (hs : Pool.Step (rules self c) P P') : Awake self c P' ∧
      (∀ r ∈ P'.world.buffer, r.toCell = c → r ∈ P.world.buffer) ∧
      P.world.clock ≤ P'.world.clock := by
  cases hs with
  | start i p v hd hstart =>
    obtain ⟨_,rfl⟩ := hstart
    refine ⟨⟨h.home,fun j hj row hmem => ?_⟩,fun r hr _ => hr,le_refl _⟩
    by_cases hji : j = i
    · subst hji
      simp at hmem
    · exact h.tasks j (by simpa [hji] using hj) row (by simpa [hji] using hmem)
  | drift v hdrift =>
    refine ⟨⟨by unfold AtHome; rw [hdrift.1]; exact h.home,h.tasks⟩,fun r hr _ => ?_,hdrift.2⟩
    simpa [Clocked.buffer,hdrift.1] using hr
  | answer i q k a v ht hans =>
    have hq := asks_bounded hP ht
    have hi : ¬ (P.tasks i).Done := by simp [ht,Prog.Done]
    refine ⟨⟨home_answers hq hans h.home,fun j hj row hmem => ?_⟩,?_,le_of_eq (clock_answers hans).symm⟩
    · by_cases hji : j = i
      · subst hji
        simp only [Function.update_self,List.mem_append,List.mem_singleton] at hmem
        rcases hmem with hmem | he
        · exact h.tasks j hi row hmem
        · cases he
          obtain ⟨hrow,_⟩ := hans
          obtain ⟨found,hfound,hself,_⟩ := h.home
          simp only [Storage.exec,hfound,Option.some.injEq] at hrow
          rw [hrow]
          exact hself
      · exact h.tasks j (by simpa [hji] using hj) row (by simpa [hji] using hmem)
    · refine buffer_answers hans (fun key home payload he => ?_)
      subst he
      obtain ⟨row,hmem,hne⟩ := hq
      exact hne (h.tasks i hi row hmem)

theorem Awake.steps (h : Awake self c P) (hP : Pool.Steps (rules self c) (initial w) P)
    (hrun : Pool.Steps (rules self c) P P') : Awake self c P' ∧
      (∀ r ∈ P'.world.buffer, r.toCell = c → r ∈ P.world.buffer) ∧
      P.world.clock ≤ P'.world.clock := by
  induction hrun with
  | refl => exact ⟨h,fun r hr _ => hr,le_refl _⟩
  | tail hrun hs ih =>
    obtain ⟨h1,hbuf,hclock⟩ := ih
    obtain ⟨h2,hbuf',hclock'⟩ := h1.step (hP.trans hrun) hs
    exact ⟨h2,fun r hr hc => hbuf r (hbuf' r hr hc) hc,le_trans hclock hclock'⟩

end Runs

/-- A packet to the cell that can be signed and packed. -/
def Routable (self : Node L) (c : String) (pkt : Packet) : Prop :=
  (∃ n, parseAddr pkt.toAddr = .ok (some c,n)) ∧ ∃ x, Transport.wireForm self pkt = .ok x

/-- Nothing that breaks off a flush: the rows hold such packets, only closed
connections refuse frames, and the callback returns. -/
def Calm (self : Node L) (c : String) : (q : Req) → Ans q → Prop
  | .store (.getBuffered _),rows =>
    ∀ r ∈ rows, ∀ pkt, deserializePacket L r.payload = some pkt → Routable self c pkt
  | .wsSend _ _,sent => ∀ e, sent = .error e → e = .connectionClosed
  | .onMessage _,a => a = .ok ()
  | _,_ => True

/-- The cell is found at home here. -/
def Resident (self : Node L) (c : String) : (q : Req) → Ans q → Prop
  | .store (.getPresence cell),found => cell = c → ∃ row, found = some row ∧
      row.homeNodeId = self.id ∧ row.visitingNodeId = none
  | _,_ => True

def Reliable (self : Node L) (c : String) (q : Req) (a : Ans q) : Prop :=
  Calm self c q a ∧ Resident self c q a

section Registration

variable {self : Node L} {c : String}

theorem sendTo_safe {pkt : Packet} (nodeId : String)
    (hw : ∃ x, Transport.wireForm self pkt = .ok x) :
    (Transport.sendTo self nodeId pkt).SafeUnder (Reliable self c) := by
  obtain ⟨⟨signed,frame⟩,hw⟩ := hw
  intro conn _
  cases conn with
  | none => trivial
  | some conn =>
    simp only [Prog.bind_ret,hw,Prog.ofExcept_ok,Prog.bind_eq]
    intro sent hsent
    rcases sent with e | ⟨⟨⟩⟩
    · cases hsent.1 e rfl
      exact fun _ _ => trivial
    · trivial

theorem deliverLocal_safe {pkt : Packet} (h : Routable self c pkt) :
    (Router.deliverLocal self pkt).SafeUnder (Reliable self c) := by
  obtain ⟨⟨n,ha⟩,hw⟩ := h
  have hrest : ∀ r, (Router.callback self r).SafeUnder (Reliable self c) := by
    intro r
    unfold Router.callback
    split
    · trivial
    · split
      · intro a hcall
        cases hcall.1
        trivial
      · trivial
  rw [Router.deliverLocal_eq,ha]
  by_cases hc : c = ""
  · simp only [if_pos hc]
    exact hrest (false,pkt)
  · simp only [if_neg hc]
    exact (sendTo_safe c hw).bind hrest

theorem route_safe {pkt : Packet} (h : Routable self c pkt) :
    (Router.route self pkt).SafeUnder (Reliable self c) := by
  obtain ⟨n,ha⟩ := h.1
  rw [Router.route_cell ha]
  intro found hfound
  obtain ⟨row,rfl,hhome,hvis⟩ := hfound.2 rfl
  have hnone : Router.visiting row = none := by simp [Router.visiting,hvis]
  simp only [Router.tryPresence,hnone,Router.tryHome,hhome]
  unfold Router.sendToNode
  simp only [if_true,Prog.bind_eq,Prog.pure_eq,Prog.bind_ret,Prog.bind_assoc]
  exact (deliverLocal_safe h).bind (fun _ => trivial)

theorem accept_safe (conn : PeerConnection) (claim : Node.CellClaim) :
    (Node.accept self conn claim).SafeUnder (Reliable self c) := by
  refine fun _ _ _ _ rows hrows => Prog.SafeUnder.forEach (fun r hr => ?_)
  unfold Router.flushMessage
  cases hd : deserializePacket L r.payload with
  | none => trivial
  | some pkt => exact (route_safe (hrows.1 r hr pkt hd)).bind (fun _ _ _ => trivial)

/-- The statement with which a registration makes this node the home of the cell. -/
def makesHome (self : Node L) (c : String) : Exchange Req Ans :=
  ⟨.store (.updatePresence c self.id none),()⟩

/-- What a registration asks, and when: it reads the mailbox once, after it has
become the home of the cell, and deletes rows after that. -/
def Registers (self : Node L) (c : String) (past : List (Exchange Req Ans)) : Req → Prop
  | .store (.getBuffered cell) => cell = c ∧ makesHome self c ∈ past ∧
      ∀ rows, (⟨.store (.getBuffered c),rows⟩ : Exchange Req Ans) ∉ past
  | .store (.getPresence _) => makesHome self c ∈ past
  | .store (.deleteBuffered _) => ∃ rows,
      (⟨.store (.getBuffered c),rows⟩ : Exchange Req Ans) ∈ past
  | _ => True

/-- Requests of the loop of a flush. -/
def InLoop (q : Req) : Prop := ∀ cell, q ≠ .store (.getBuffered cell)

theorem registers_of_inLoop {past : List (Exchange Req Ans)} {q : Req} (rows : List BufferedMessage)
    (hq : InLoop q) (hhome : makesHome self c ∈ past)
    (hread : (⟨.store (.getBuffered c),rows⟩ : Exchange Req Ans) ∈ past) :
    Registers self c past q := by
  cases q with
  | store op =>
    cases op with
    | getBuffered cell => exact (hq cell rfl).elim
    | getPresence cell => exact hhome
    | deleteBuffered k => exact ⟨rows,hread⟩
    | _ => trivial
  | _ => trivial

theorem route_inLoop (pkt : Packet) :
    Obeys InLoop (fun _ _ => True) (fun _ => True) (Router.route self pkt) := by
  refine (Router.route_allowed pkt).mono_guard (fun q hq cell he => ?_)
  subst he
  exact hq.elim id id

theorem flush_deletes (past : List (Exchange Req Ans)) (rows : List BufferedMessage) :
    Heeds (fun now q => past ⊆ now ∧ InLoop q) (fun _ _ => True)
      (fun later _ => past ⊆ later ∧ ∀ r ∈ rows, deserializePacket L r.payload ≠ none →
        (⟨.store (.deleteBuffered r.messageId),()⟩ : Exchange Req Ans) ∈ later) past
      (Prog.forEach rows (Router.flushMessage self)) := by
  induction rows generalizing past with
  | nil => exact ⟨fun _ he => he,by simp⟩
  | cons r rows ih =>
    have hround : Heeds (fun now q => past ⊆ now ∧ InLoop q) (fun _ _ => True)
        (fun later _ => past ⊆ later ∧ (deserializePacket L r.payload ≠ none →
          (⟨.store (.deleteBuffered r.messageId),()⟩ : Exchange Req Ans) ∈ later)) past
        (Router.flushMessage self r) := by
      unfold Router.flushMessage
      cases deserializePacket L r.payload with
      | none => exact ⟨fun _ he => he,by simp⟩
      | some pkt =>
        refine (route_inLoop pkt).heeds_after.bind (fun later _ hl => ?_)
        refine ⟨⟨hl.1,by simp [InLoop]⟩,fun _ _ => ⟨fun e he => ?_,fun _ => by simp⟩⟩
        simp [hl.1 he]
    refine hround.bind (fun later _ hl => ?_)
    refine ((ih later).mono_guard (fun now q hq => ⟨fun e he => hq.1 (hl.1 he),hq.2⟩)).mono
      (fun last _ hlast => ⟨fun e he => hlast.1 (hl.1 he),fun s hs hd => ?_⟩)
    rcases List.mem_cons.mp hs with rfl | hs
    · exact hlast.1 (hl.2 hd)
    · exact hlast.2 s hs hd

/-- A registration that is over has read the mailbox and deleted what it has read. -/
theorem accept_registers {conn : PeerConnection} (claim : Node.CellClaim)
    (hconn : conn.peerNodeId = c) :
    Heeds (Registers self c) (fun _ _ => True)
      (fun later _ => ∃ rows, (⟨.store (.getBuffered c),rows⟩ : Exchange Req Ans) ∈ later ∧
        ∀ r ∈ rows, deserializePacket L r.payload ≠ none →
          (⟨.store (.deleteBuffered r.messageId),()⟩ : Exchange Req Ans) ∈ later) []
      (Node.accept self conn claim) := by
  subst hconn
  refine ⟨trivial,fun _ _ => ⟨trivial,fun _ _ => ⟨⟨rfl,?_,by simp⟩,fun rows _ => ?_⟩⟩⟩
  · simp [makesHome]
  · refine ((flush_deletes _ rows).mono_guard (fun later q hq => ?_)).mono
      (fun later _ hl => ⟨rows,hl.1 (by simp),hl.2⟩)
    refine registers_of_inLoop rows hq.2 (hq.1 ?_) (hq.1 (List.mem_append_right _ (by simp)))
    simp [makesHome]

end Registration

/-- A step in which slot `i` meets nothing that breaks a flush off, and reads the
mailbox only when no other task in progress has found the cell at home elsewhere. -/
structure Undisturbed [DecidableEq ι] (node : Node L) (c : String) (i : ι)
    (P P' : Pool ι Req Ans Err Unit Clocked) : Prop where
  step : Pool.Step (rules node c) P P'
  calm : ∀ q a, P'.history i = P.history i ++ [⟨q,a⟩] → Calm node c q a
  reads : ∀ rows, P'.history i = P.history i ++ [⟨.store (.getBuffered c),rows⟩] →
    ∀ j, j ≠ i → ¬ (P.tasks j).Done → ∀ row,
      (⟨.store (.getPresence c),some row⟩ : Exchange Req Ans) ∈ P.history j →
        row.homeNodeId = node.id

/-- How far the registration in slot `i` has come. -/
structure Progress (node : Node L) (c : String) (i : ι) (P : Pool ι Req Ans Err Unit Clocked) :
    Prop where
  home : makesHome node c ∈ P.history i → AtHome node c P.world
  awake : ∀ rows, (⟨.store (.getBuffered c),rows⟩ : Exchange Req Ans) ∈ P.history i →
    Awake node c P
  read : ∀ rows, (⟨.store (.getBuffered c),rows⟩ : Exchange Req Ans) ∈ P.history i →
    ∀ r ∈ P.world.buffer, r.toCell = c → r.expiresAt ≤ P.world.clock ∨ r ∈ rows
  deleted : ∀ k, (⟨.store (.deleteBuffered k),()⟩ : Exchange Req Ans) ∈ P.history i →
    ∀ r ∈ P.world.buffer, r.toCell = c → r.messageId ≠ k
  order : ∀ k, (⟨.store (.deleteBuffered k),()⟩ : Exchange Req Ans) ∈ P.history i →
    ∃ rows, (⟨.store (.getBuffered c),rows⟩ : Exchange Req Ans) ∈ P.history i
  relied : ∀ e ∈ P.history i, Reliable node c e.1 e.2

section Progress

variable [DecidableEq ι] {self : Node L} {c : String} {i : ι} {w : Clocked}
  {P P' : Pool ι Req Ans Err Unit Clocked}

theorem atHome_step (h : AtHome self c P.world) (hP : Pool.Steps (rules self c) (initial w) P)
    (hs : Pool.Step (rules self c) P P') : AtHome self c P'.world := by
  cases hs with
  | start i p v _ hstart =>
    obtain ⟨_,rfl⟩ := hstart
    exact h
  | drift v hdrift =>
    unfold AtHome
    rw [hdrift.1]
    exact h
  | answer i q k a v ht hans => exact home_answers (asks_bounded hP ht) hans h

theorem Progress.other (h : Progress self c i P) (hP : Pool.Steps (rules self c) (initial w) P)
    (hs : Pool.Step (rules self c) P P') (hi : P'.history i = P.history i) :
    Progress self c i P' where
  home := fun hm => atHome_step (h.home (hi ▸ hm)) hP hs
  awake := fun rows hm => ((h.awake rows (hi ▸ hm)).step hP hs).1
  read := by
    intro rows hm r hr hc
    rw [hi] at hm
    obtain ⟨_,hbuf,hclock⟩ := (h.awake rows hm).step hP hs
    rcases h.read rows hm r (hbuf r hr hc) hc with hexp | hin
    · exact .inl (le_trans hexp hclock)
    · exact .inr hin
  deleted := by
    intro k hm r hr hc
    rw [hi] at hm
    obtain ⟨rows,hread⟩ := h.order k hm
    exact h.deleted k hm r (((h.awake rows hread).step hP hs).2.1 r hr hc) hc
  order := fun k hm => by
    rw [hi] at hm ⊢
    exact h.order k hm
  relied := fun e he => h.relied e (hi ▸ he)

theorem atHome_of_makesHome {v v' : Clocked} {q : Req} {a : Ans q}
    (hq : (⟨q,a⟩ : Exchange Req Ans) = makesHome self c) (h : v.Answers q a v') :
    AtHome self c v' := by
  cases hq
  obtain ⟨_,rfl⟩ := h
  simp only [AtHome,Storage.exec,Storage.updatePresence,Table.find_upsert,if_true]
  cases v.state.storage.presenceTable.find c with
  | none => exact ⟨_,rfl,rfl,rfl⟩
  | some row => exact ⟨_,rfl,rfl,rfl⟩

theorem Progress.own (h : Progress self c i P) (hP : Pool.Steps (rules self c) (initial w) P)
    {q : Req} {k : Ans q → NodeProg Unit} {a : Ans q} {v : Clocked} (ht : P.tasks i = .ask q k)
    (hans : P.world.Answers q a v) (hask : Registers self c (P.history i) q)
    (hs : Undisturbed self c i P ⟨P.launched,Function.update P.history i (P.history i ++ [⟨q,a⟩]),
      Function.update P.tasks i (k a),v⟩) :
    Progress self c i ⟨P.launched,Function.update P.history i (P.history i ++ [⟨q,a⟩]),
      Function.update P.tasks i (k a),v⟩ := by
  have hmem : ∀ e : Exchange Req Ans, e ∈ Function.update P.history i (P.history i ++ [⟨q,a⟩]) i →
      e ∈ P.history i ∨ e = ⟨q,a⟩ := by
    intro e he
    simpa using he
  have hhome : makesHome self c ∈ P.history i → AtHome self c v :=
    fun hm => atHome_step (h.home hm) hP hs.step
  have hresident : Resident self c q a := by
    unfold Resident
    split
    · intro hcell
      subst hcell
      obtain ⟨row,hrow,hself,hvis⟩ := h.home hask
      obtain ⟨hfound,_⟩ := hans
      exact ⟨row,by rw [hfound]; exact hrow,hself,hvis⟩
    · trivial
  refine ⟨fun hm => ?_,fun rows hm => ?_,fun rows hm => ?_,fun j hm => ?_,fun j hm => ?_,?_⟩
  · rcases hmem _ hm with hm | he
    · exact hhome hm
    · exact atHome_of_makesHome he.symm hans
  · rcases hmem _ hm with hm | he
    · exact ((h.awake rows hm).step hP hs.step).1
    · cases he
      refine ⟨hhome hask.2.1,fun j hj row hrow => ?_⟩
      by_cases hji : j = i
      · subst hji
        rcases hmem _ hrow with hrow | he
        · obtain ⟨row',he,hself,_⟩ := (h.relied _ hrow).2 rfl
          cases he
          exact hself
        · cases he
      · exact hs.reads rows (by simp) j hji (by simpa [hji] using hj) row (by simpa [hji] using hrow)
  · rcases hmem _ hm with hm | he
    · obtain ⟨_,hbuf,hclock⟩ := (h.awake rows hm).step hP hs.step
      intro r hr hc
      rcases h.read rows hm r (hbuf r hr hc) hc with hexp | hin
      · exact .inl (le_trans hexp hclock)
      · exact .inr hin
    · cases he
      obtain ⟨hrows,rfl⟩ := hans
      intro r hr hc
      by_cases hexp : r.expiresAt ≤ P.world.clock
      · exact .inl hexp
      · refine .inr ?_
        rw [hrows]
        exact (Storage.mem_getBuffered _ _ _ r).mpr ⟨hr,hc,by omega⟩
  · rcases hmem _ hm with hm | he
    · obtain ⟨rows,hread⟩ := h.order j hm
      obtain ⟨_,hbuf,_⟩ := (h.awake rows hread).step hP hs.step
      exact fun r hr hc => h.deleted j hm r (hbuf r hr hc) hc
    · cases he
      obtain ⟨_,rfl⟩ := hans
      exact fun r hr _ => ((Table.mem_delete _ _ r).mp hr).2
  · rcases hmem _ hm with hm | he
    · obtain ⟨rows,hread⟩ := h.order j hm
      exact ⟨rows,by simp [hread]⟩
    · cases he
      obtain ⟨rows,hread⟩ := hask
      exact ⟨rows,by simp [hread]⟩
  · intro e he
    rcases hmem e he with he | rfl
    · exact h.relied e he
    · exact ⟨hs.calm q a (by simp),hresident⟩

/-- When a registration that was not disturbed is over, no readable message waits
for the cell, and none will. -/
theorem none_stranded {P1 P2 : Pool ι Req Ans Err Unit Clocked} {pkt : Packet}
    {conn : PeerConnection} {claim : Node.CellClaim}
    (hP : Pool.Steps (rules self c) (initial w) P1) (hclaim : Accepts L pkt conn claim)
    (hconn : conn.peerNodeId = c)
    (hregister : Pool.Executes (Undisturbed self c i) i (Node.dispatch self pkt conn) P1 P2)
    (hrun : Pool.Steps (rules self c) P2 P') :
    ∀ r ∈ P'.world.buffer, r.toCell = c → P'.world.clock < r.expiresAt →
      deserializePacket L r.payload = none := by
  have haccept : Node.dispatch self pkt conn = Node.accept self conn claim := by
    rw [dispatch_cellRegister _ hclaim.1,Node.handleCellRegister,hclaim.2.1]
    simp [hclaim.2.2.1,hclaim.2.2.2,Val.eqStr]
  rw [haccept] at hregister
  have hheeds : Heeds (Registers self c) _ _ [] (Node.accept self conn claim) :=
    accept_registers claim hconn
  have hstart : Progress self c i P1 := by
    have hfresh := hregister.fresh
    constructor <;> simp [hfresh]
  have hstep : ∀ Q Q', Relation.ReflTransGen (Undisturbed self c i) P1 Q → Undisturbed self c i Q Q' →
      ¬ (Q.tasks i).Done → Path (Node.accept self conn claim) (Q.history i) (Q.tasks i) →
      Progress self c i Q → Progress self c i Q' := by
    intro Q Q' hto hs hnd hpath h
    have hQ := hP.trans (hto.lift id (fun _ _ hs => hs.step))
    have hone := hs.step
    cases hone with
    | start j p v hd hst =>
      refine h.other hQ hs.step ?_
      have hij : i ≠ j := by
        rintro rfl
        exact hnd hd
      simp [hij]
    | drift v hd => exact h.other hQ hs.step rfl
    | answer j q k a v ht hans =>
      by_cases hij : i = j
      · subst hij
        rw [ht] at hpath
        exact h.own hQ ht hans (hheeds.waits hpath (fun _ _ => trivial)) hs
      · exact h.other hQ hs.step (by simp [hij])
  obtain ⟨hsteps,hpath,hprogress⟩ := hregister.invariant (R := rules self c)
    (fun _ _ hs => hs.step) hstart hstep
  have hreach := hP.trans (hsteps.lift id (fun _ _ hs => hs.step))
  have hpost := (hheeds.path hpath (fun _ _ => trivial)).2
  obtain ⟨u,ht⟩ := (hpath.safeUnder (accept_safe conn claim) hprogress.relied).exists_ret
    hregister.done
  rw [ht] at hpost
  obtain ⟨rows,hread,hdeletes⟩ := hpost
  intro r hr hc hlive
  obtain ⟨_,hbuf,hclock⟩ := (hprogress.awake rows hread).steps hreach hrun
  have hr2 := hbuf r hr hc
  by_contra hd
  rcases hprogress.read rows hread r hr2 hc with hexp | hin
  · omega
  · exact hprogress.deleted _ (hdeletes r hin hd) r hr2 hc rfl

end Progress

/-- At time 0 the cell connects; frames get through. -/
def sampleEnv : Env :=
  { calmEnv with now := fun _ => 0, accept := fun _ => .ok Registration.sampleOwner }

abbrev sampleCell : String := Registration.sampleOwner.peerNodeId

/-- The cell was last at home on a node that this one does not know. -/
def sampleAway : NodeState :=
  ⟨Storage.empty.updatePresence 0 sampleCell "ghost" none,ConnectionRegistry.empty⟩

def sampleClaim : Node.CellClaim :=
  ⟨.str sampleCell,Registration.sampleOwner.peerSigningPubkey,List.replicate 32 0,true⟩

def sampleMessage : Packet := samplePacket (sampleCell ++ "@n")

theorem answers_sample (q : Req) (u : World) :
    (⟨u.state,0⟩ : Clocked).Answers q (sampleEnv.handler q u).1 ⟨(sampleEnv.handler q u).2.state,0⟩ := by
  have hans := NodeState.answers_handler sampleEnv q u
  cases q with
  | store op => exact ⟨rfl,rfl⟩
  | _ => exact ⟨_,hans,rfl⟩

theorem sample_registers : ∃ pkt, Accepts shortSigLib pkt Registration.sampleOwner sampleClaim ∧
    Node.dispatch (sampleNode false) pkt Registration.sampleOwner =
      Node.accept (sampleNode false) Registration.sampleOwner sampleClaim := by
  obtain ⟨pkt,hacc,_⟩ := Registration.sampleOwner_accepts (v := .bin (List.replicate 32 0))
    (by decide) rfl true
  exact ⟨pkt,hacc,Registration.dispatch_of_accepts hacc⟩

theorem handshake_done (u : World) :
    (runFor sampleEnv.handler 3 Transport.handleIncoming u).2.1.Done := trivial

section Samples

variable [DecidableEq ι] {P : Pool ι Req Ans Err Unit Clocked} {i : ι}

theorem exists_start {w : NodeState} {p : NodeProg Unit} (hw : P.world = ⟨w,0⟩)
    (hd : (P.tasks i).Done) (hp : Serves (sampleNode false) sampleCell p) (n : Nat) :
    ∃ P', Pool.Steps (rules (sampleNode false) sampleCell) P P' ∧
      P'.launched = Function.update P.launched i p ∧
      P'.tasks = Function.update P.tasks i (runFor sampleEnv.handler n p ⟨w,0⟩).2.1 ∧
      P'.world = ⟨(runFor sampleEnv.handler n p ⟨w,0⟩).2.2.state,0⟩ := by
  have hallow := Rules.allows_runFor (R := rules (sampleNode false) sampleCell) (i := i)
    sampleEnv.handler (fun u => (⟨u.state,0⟩ : Clocked)) answers_sample n p ⟨w,0⟩
  have hstart : (rules (sampleNode false) sampleCell).start i P.world p ⟨w,0⟩ := ⟨hp,hw.symm⟩
  obtain ⟨P',hs,hl,_,ht,hw'⟩ := Pool.exists_run_of_start hd hstart
    (runFor_path sampleEnv.handler n p ⟨w,0⟩) hallow
  exact ⟨P',hs,hl,ht,hw'⟩

theorem exists_rest {w : NodeState} (hw : P.world = ⟨w,0⟩) :
    ∃ P', Pool.Steps (rules (sampleNode false) sampleCell) P P' ∧ P'.launched = P.launched ∧
      P'.tasks = Function.update P.tasks i
        (.ofExcept (run sampleEnv.handler (P.tasks i) ⟨w,0⟩).result) ∧
      P'.world = ⟨(run sampleEnv.handler (P.tasks i) ⟨w,0⟩).final.state,0⟩ := by
  have hallow := Rules.allows_run (R := rules (sampleNode false) sampleCell) (i := i)
    sampleEnv.handler (fun u => (⟨u.state,0⟩ : Clocked)) (fun _ _ => true)
    (fun q u _ => answers_sample q u) (P.tasks i) ⟨w,0⟩ (Handler.passes_true _ _ _)
  obtain ⟨P',hs,hl,_,ht,hw'⟩ := Pool.exists_run_of_path (R := rules (sampleNode false) sampleCell)
    (run_path sampleEnv.handler (P.tasks i) ⟨w,0⟩) (by rw [hw]; exact hallow)
  exact ⟨P',hs,hl,ht,hw'⟩

end Samples

/-- The routing up to the insertion into the buffer. -/
def sampleFound : List (Exchange Req Ans) × NodeProg Unit × World :=
  runFor sampleEnv.handler 3 (Router.route (sampleNode false) sampleMessage) ⟨sampleAway,0⟩

def sampleShaken : World :=
  (runFor sampleEnv.handler 3 Transport.handleIncoming ⟨sampleFound.2.2.state,0⟩).2.2

def sampleRegistered : World :=
  (runFor sampleEnv.handler 3 (Node.accept (sampleNode false) Registration.sampleOwner sampleClaim)
    ⟨sampleShaken.state,0⟩).2.2

def sampleBuffered : Run Req Ans Err Unit World :=
  run sampleEnv.handler sampleFound.2.1 ⟨sampleRegistered.state,0⟩

/-- A routing has found the cell at home elsewhere and is about to buffer its
message when the cell connects and registers: the flush finds nothing, and then the
message waits although the cell is there. -/
theorem message_stranded : ∃ (pkt : Packet) (P : Pool Bool Req Ans Err Unit Clocked),
    Pool.Steps (rules (sampleNode false) sampleCell) (initial ⟨sampleAway,0⟩) P ∧
      sampleAway.connections.get sampleCell = none ∧ (∀ j, (P.tasks j).Done) ∧
      (P.world.state.connections.get sampleCell).isSome = true ∧
      Accepts shortSigLib pkt Registration.sampleOwner sampleClaim ∧
      P.launched true = Node.dispatch (sampleNode false) pkt Registration.sampleOwner ∧
      P.launched false = Router.route (sampleNode false) sampleMessage ∧
      ∃ r ∈ P.world.buffer, r.toCell = sampleCell ∧ P.world.clock < r.expiresAt ∧
        (deserializePacket shortSigLib r.payload).isSome = true := by
  obtain ⟨pkt,haccepts,hdispatch⟩ := sample_registers
  obtain ⟨P1,h1,hl1,ht1,hw1⟩ := exists_start (P := (initial ⟨sampleAway,0⟩ : Pool Bool _ _ _ _ _))
    (i := false) rfl trivial (Serves.route sampleMessage "n" (by decide +kernel)) 3
  obtain ⟨P2,h2,hl2,ht2,hw2⟩ := exists_start (P := P1) (i := true) hw1 (by rw [ht1]; trivial)
    .handshake 3
  obtain ⟨P3,h3,hl3,ht3,hw3⟩ := exists_start (P := P2) (i := true) hw2
    (by rw [ht2,Function.update_self]; exact handshake_done _)
    (Serves.register pkt Registration.sampleOwner rfl haccepts.1) 3
  rw [hdispatch] at ht3 hw3
  obtain ⟨P4,h4,hl4,ht4,hw4⟩ := exists_rest (P := P3) (i := false) hw3
  have htask : P3.tasks false = sampleFound.2.1 := by
    rw [ht3,ht2,ht1]
    rfl
  rw [htask] at ht4 hw4
  refine ⟨pkt,P4,((h1.trans h2).trans h3).trans h4,rfl,fun j => ?_,?_,haccepts,?_,?_,?_⟩
  · cases j with
    | false =>
      rw [ht4,Function.update_self]
      exact Prog.done_ofExcept _
    | true =>
      rw [ht4,Function.update_of_ne (by decide),ht3,Function.update_self]
      trivial
  · rw [hw4]
    decide +kernel
  · simp [hl4,hl3]
  · simp [hl4,hl3,hl2,hl1]
  · have hwaits : sampleBuffered.final.state.storage.messageBuffer.rows.any (fun r => r.toCell == sampleCell &&
        decide (0 < r.expiresAt) && (deserializePacket shortSigLib r.payload).isSome) = true := by
      decide +kernel
    obtain ⟨r,hr,hrow⟩ := List.any_eq_true.mp hwaits
    simp only [Bool.and_eq_true,beq_iff_eq,decide_eq_true_eq] at hrow
    rw [hw4]
    exact ⟨r,hr,hrow.1.1,hrow.1.2,hrow.2⟩

/-- The same cell with a message waiting for it. -/
def sampleWaits : NodeState :=
  { sampleAway with
    storage := sampleAway.storage.bufferMessage 0 (.text "m") sampleCell "ghost"
      ((serializePacket shortSigLib sampleMessage).toOption.getD []) }

def routable (self : Node L) (c : String) (pkt : Packet) : Bool :=
  (match parseAddr pkt.toAddr with
    | .ok (some cell,_) => cell == c
    | _ => false) && (Transport.wireForm self pkt).isOk

theorem routable_iff {self : Node L} {c : String} {pkt : Packet} (h : routable self c pkt = true) :
    Routable self c pkt := by
  unfold routable at h
  rw [Bool.and_eq_true] at h
  obtain ⟨haddr,hwire⟩ := h
  split at haddr
  · rename_i cell n ha
    rw [beq_iff_eq] at haddr
    subst haddr
    exact ⟨⟨n,ha⟩,exists_ok hwire⟩
  · simp at haddr

def calm (self : Node L) (c : String) : Exchange Req Ans → Bool
  | ⟨.store (.getBuffered _),rows⟩ =>
    rows.all (fun r => (deserializePacket L r.payload).all (routable self c))
  | ⟨.wsSend _ _,.error _⟩ => false
  | ⟨.onMessage _,.error _⟩ => false
  | _ => true

theorem calm_iff {self : Node L} {c : String} {q : Req} {a : Ans q}
    (h : calm self c ⟨q,a⟩ = true) : Calm self c q a := by
  unfold Calm
  split
  · rename_i cell rows
    intro r hr pkt hd
    have hrow := List.all_eq_true.mp h r hr
    rw [hd] at hrow
    exact routable_iff hrow
  · rintro e rfl
    cases h
  · rename_i pkt a
    cases a with
    | error e => cases h
    | ok u => rfl
  · trivial

/-- With one slot only, nothing disturbs what it does. -/
theorem exists_undisturbed {P : Pool Unit Req Ans Err Unit Clocked} {w : NodeState}
    {p : NodeProg Unit} (hw : P.world = ⟨w,0⟩) (hd : (P.tasks ()).Done)
    (hp : Serves (sampleNode false) sampleCell p)
    (hcalm : (run sampleEnv.handler p ⟨w,0⟩).trace.all (calm (sampleNode false) sampleCell) = true) :
    ∃ P1 P2, Undisturbed (sampleNode false) sampleCell () P P1 ∧
      Pool.Executes (Undisturbed (sampleNode false) sampleCell ()) () p P1 P2 ∧
      P2.world = ⟨(run sampleEnv.handler p ⟨w,0⟩).final.state,0⟩ := by
  have hallow := Rules.allows_run (R := rules (sampleNode false) sampleCell) (i := ())
    sampleEnv.handler (fun u => (⟨u.state,0⟩ : Clocked)) (fun _ _ => true)
    (fun q u _ => answers_sample q u) p ⟨w,0⟩ (Handler.passes_true _ _ _)
  have hstart : (rules (sampleNode false) sampleCell).start () P.world p ⟨w,0⟩ := ⟨hp,hw.symm⟩
  have hcalm' : ∀ Q Q' : Pool Unit Req Ans Err Unit Clocked,
      Pool.Step (rules (sampleNode false) sampleCell) Q Q' →
      Q'.launched = Function.update P.launched () p →
      Q'.history () <+: (run sampleEnv.handler p ⟨w,0⟩).trace →
      Undisturbed (sampleNode false) sampleCell () Q Q' := by
    refine fun Q Q' hstep _ hh => ⟨hstep,fun q a he => ?_,fun _ _ j hj => (hj rfl).elim⟩
    have hmem := hh.subset (by rw [he]; simp : (⟨q,a⟩ : Exchange Req Ans) ∈ Q'.history ())
    exact calm_iff (List.all_eq_true.mp hcalm _ hmem)
  obtain ⟨P1,P2,hs,hx,_,_,_,hw2⟩ := Pool.exists_execution
    (Undisturbed (sampleNode false) sampleCell ()) hd hstart
    (run_path sampleEnv.handler p ⟨w,0⟩) (Prog.done_ofExcept _) hallow hcalm'
  exact ⟨P1,P2,hs,hx,hw2⟩

theorem none_stranded_sample : ∃ P : Pool Unit Req Ans Err Unit Clocked,
    Pool.Steps (rules (sampleNode false) sampleCell) (initial ⟨sampleWaits,0⟩) P ∧
      (P.world.state.connections.get sampleCell).isSome = true ∧
      ∀ r ∈ P.world.buffer, r.toCell = sampleCell → P.world.clock < r.expiresAt →
        deserializePacket shortSigLib r.payload = none := by
  obtain ⟨pkt,haccepts,hdispatch⟩ := sample_registers
  obtain ⟨P0,h0,_,ht0,hw0⟩ := exists_start (P := (initial ⟨sampleWaits,0⟩ : Pool Unit _ _ _ _ _))
    (i := ()) rfl trivial .handshake 3
  obtain ⟨P1,P2,hs,hx,hw2⟩ := exists_undisturbed hw0
    (by rw [ht0,Function.update_self]; exact handshake_done _)
    (Serves.register pkt Registration.sampleOwner rfl haccepts.1)
    (by rw [hdispatch]; decide +kernel)
  refine ⟨P2,(h0.tail hs.step).trans (hx.steps.lift id (fun _ _ h => h.1.step)),?_,
    none_stranded (h0.tail hs.step) haccepts rfl hx .refl⟩
  rw [hw2,hdispatch]
  decide +kernel

end Wakeup

end Nevod
