import Nevod.Running
import Nevod.Forwarding

/-!
A node whose presence rows all name itself, as they do in every run that starts
with empty tables: `update_presence` is never called with another home node or
with a visiting node. Its messages for cells stay on it, and none is ever buffered.
-/

set_option autoImplicit false

namespace Nevod
open Text Resume Keyed

variable {L : Lib} {ι : Type}

namespace Homebound
open Forwarding

/-- Every presence row names this node alone and belongs to a stored cell, no
message is waiting, and every registry entry stands under the id of its peer. -/
structure Settled (node : Node L) (w : NodeState) : Prop where
  home : ∀ c row, w.storage.presenceTable.find c = some row →
    row.homeNodeId = node.id ∧ row.visitingNodeId = none
  stored : ∀ c row, w.storage.presenceTable.find c = some row → w.storage.cells.find c ≠ none
  calm : w.storage.messageBuffer.rows = []
  peer : ∀ nodeId conn, w.connections.get nodeId = some conn → conn.peerNodeId = nodeId

/-- Nothing is buffered, and a presence row is written for a stored cell and names
this node alone. -/
def guard (self : Node L) (stored : String → Prop) : Req → Prop
  | .store (.bufferMessage _ _ _ _) => False
  | .store (.updatePresence c home visiting) => stored c ∧ home = self.id ∧ visiting = none
  | _ => True

def rely (self : Node L) (stored : String → Prop) : (q : Req) → Ans q → Prop
  | .store (.registerCell c _ _ _),_ => stored c
  | .store (.getPresence _),a =>
    ∀ row, a = some row → row.homeNodeId = self.id ∧ row.visitingNodeId = none
  | .store (.getBuffered _),rows => rows = []
  | .connGet nodeId,a => ∀ conn, a = some conn → conn.peerNodeId = nodeId
  | _,_ => True

/-- The answers that do not depend on which cells are stored. -/
abbrev told (self : Node L) : (q : Req) → Ans q → Prop := rely self (fun _ => True)

/-- The program buffers nothing and writes no presence row. -/
abbrev Stays (self : Node L) {α : Type} (p : NodeProg α) : Prop :=
  Obeys (guard self (fun _ => False)) (told self) (fun _ => True) p

theorem told_of_rely {self : Node L} {stored : String → Prop} {q : Req} {a : Ans q}
    (h : rely self stored q a) : told self q a := by
  cases q with
  | store op => cases op <;> first | exact h | trivial
  | connGet nodeId => exact h
  | _ => trivial

section

variable {self : Node L} {pkt : Packet} {conn : PeerConnection}

/-- A row that names this node alone is as good as the cell's own row: the packet
is delivered here. -/
theorem tryPresence_home {c : String} {row : PresenceEntry} (hh : row.homeNodeId = self.id)
    (hv : row.visitingNodeId = none) (pkt : Packet) :
    Router.tryPresence self c row pkt = Router.deliverLocal self pkt := by
  have hvisit : Router.visiting row = none := by simp [Router.visiting,hv]
  unfold Router.tryPresence Router.tryHome Router.sendToNode
  simp only [hvisit,hh,if_true,Prog.bind_eq,Prog.pure_eq,Prog.bind_assoc,Prog.bind_ret]
  exact Prog.bind_ret_self _

theorem guard_of_forwards {stored : String → Prop} {pkt : Packet} {q : Req}
    (h : Router.Forwards self pkt q) : guard self stored q := by
  cases q with
  | store op => cases op <;> trivial
  | _ => trivial

/-- Routing never gets as far as the buffer. -/
theorem route_stays (pkt : Packet) :
    Stays self (Router.route self pkt) := by
  have hlocal : Stays self (Router.deliverLocal self pkt) :=
    ((Router.deliverLocal_forwards pkt (.refl pkt)).mono_guard (fun _ => guard_of_forwards)).mono_rely
      (fun _ _ _ => trivial)
  cases ha : parseAddr pkt.toAddr with
  | error e =>
    rw [Router.route_error ha]
    trivial
  | ok x =>
    obtain ⟨cellId,nodeId⟩ := x
    cases cellId with
    | none =>
      rw [Router.route_node ha]
      have hsend : Obeys (Router.Forwards self pkt) (fun _ _ => True)
          (fun r => Resigned pkt r.2) (Router.sendToNode self nodeId pkt) :=
        Router.sendToNode_forwards pkt nodeId (.refl pkt)
      exact ((hsend.mono_guard (fun _ => guard_of_forwards)).mono_rely (fun _ _ _ => trivial)).bind
        (fun _ _ => trivial)
    | some cellId =>
      rw [Router.route_cell ha]
      refine ⟨trivial,fun presence hrow => ?_⟩
      cases presence with
      | none =>
        refine ⟨trivial,fun cell _ => ?_⟩
        cases cell with
        | none => trivial
        | some cell => exact hlocal
      | some row =>
        obtain ⟨hh,hv⟩ := hrow row rfl
        simp only [tryPresence_home hh hv]
        exact hlocal

theorem flushBuffer_stays (cellId : String) :
    Stays self (Router.flushBuffer self cellId) := by
  refine ⟨trivial,fun rows hrows => ?_⟩
  have hrows : rows = [] := hrows
  subst hrows
  trivial

theorem keeps_of_stays {p : NodeProg Unit}
    (h : Stays self p)
    (stored : String → Prop) : Keeps (guard self) (rely self) (fun _ _ => True) stored p := by
  refine h.keeps stored (fun u _ q hq => ?_) (fun _ _ _ _ => told_of_rely)
  cases q with
  | store op =>
    cases op with
    | updatePresence c home visiting => exact hq.1.elim
    | bufferMessage k c n payload => exact hq.elim
    | _ => trivial
  | _ => trivial

/-- A registration is stored before its presence row is written. -/
theorem keeps_register (stored : String → Prop) (c : String) (sp ep : Bytes) (isHome : Bool)
    {p : NodeProg Unit}
    (hp : Stays self p) :
    Keeps (guard self) (rely self) (fun _ _ => True) stored
      (.ask (.store (.registerCell c sp ep isHome)) (fun _ =>
        .ask (.store (.updatePresence c self.id none)) (fun _ => p))) :=
  ⟨trivial,fun _ _ _ hc => ⟨⟨hc,rfl,rfl⟩,fun u _ _ _ => keeps_of_stays hp u⟩⟩

theorem keeps_dispatch (stored : String → Prop) :
    Keeps (guard self) (rely self) (fun _ _ => True) stored (Node.dispatch self pkt conn) := by
  by_cases hmsg : pkt.type = .str T.msg
  · rw [dispatch_msg _ hmsg]
    exact keeps_of_stays (route_stays pkt) stored
  by_cases hreg : pkt.type = .str T.cellRegister
  · rw [dispatch_cellRegister _ hreg]
    unfold Node.handleCellRegister
    cases Node.cellClaim L pkt with
    | error e => trivial
    | ok c =>
      simp only []
      split
      · trivial
      · split
        · trivial
        · exact keeps_register stored _ _ _ _ (flushBuffer_stays conn.peerNodeId)
  · have hd : Within self (fun _ => True) pkt conn (Node.dispatch self pkt conn) := within_dispatch
    refine keeps_of_stays ((hd.mono_guard (fun q hq => ?_)).mono_rely
      (fun q a _ => Registration.readsWaiting_all q a)) stored
    cases q with
    | store op =>
      cases op with
      | bufferMessage k c n payload =>
        obtain ⟨_,⟨hty,_⟩ | ⟨hty,_⟩,_⟩ := hq
        · exact hmsg hty
        · exact hreg hty
      | updatePresence c home visiting =>
        obtain ⟨⟨_,hacc⟩,_⟩ := hq
        exact (hreg hacc.1).elim
      | _ => trivial
    | _ => trivial

theorem join_stays (address : String) :
    Stays self (Node.join L address) := by
  have hput : ∀ entry, Stays self (Storage.putNode L entry) := by
    refine fun entry => (putNode_puts.mono_guard (fun q hq => ?_)).mono_rely (fun _ _ _ => trivial)
    rcases hq with rfl | ⟨row,_,rfl⟩ <;> trivial
  unfold Node.join Transport.connect
  split
  · trivial
  · refine ⟨trivial,fun dialled _ => ?_⟩
    cases dialled with
    | error e => trivial
    | ok conn =>
      exact ⟨trivial,fun _ _ => ⟨trivial,fun _ _ => ⟨trivial,fun _ _ => ⟨trivial,fun _ _ => hput _⟩⟩⟩⟩

theorem sendMessage_stays (receiver : String) (plaintext : Bytes) (sender : Option String) :
    Stays self (Node.sendMessage self receiver plaintext sender) := by
  unfold Node.sendMessage
  split
  · trivial
  · refine ⟨trivial,fun cell _ => ?_⟩
    cases cell with
    | none => trivial
    | some cell =>
      refine ⟨trivial,fun _ _ => (obeys_ofExcept _).bind (fun _ _ =>
        (obeys_ofExcept _).bind (fun _ _ => ⟨trivial,fun _ _ => route_stays _⟩))⟩

theorem turn_stays : Stays self (GossipEngine.turn self) := by
  have hturn : Heeds (GossipEngine.Turns self) (fun _ _ => True) (fun _ _ => True) []
      (GossipEngine.turn self) := GossipEngine.turn_turns
  refine (hturn.obeys (fun past q hq => ?_)).mono_rely (fun _ _ _ => trivial)
  cases q with
  | store op => cases op <;> trivial
  | _ => trivial

theorem keeps_runs {p : NodeProg Unit} (h : Running.Runs self p) (stored : String → Prop) :
    Keeps (guard self) (rely self) (fun _ _ => True) stored p := by
  cases h with
  | packet pkt conn => exact keeps_dispatch stored
  | turn => exact keeps_of_stays turn_stays stored
  | join address => exact keeps_of_stays (join_stays address) stored
  | incoming =>
    have hincoming : Stays self Transport.handleIncoming := by
      refine ⟨trivial,fun accepted _ => ?_⟩
      cases accepted with
      | error e => trivial
      | ok conn => exact ⟨trivial,fun _ _ => ⟨trivial,fun _ _ => trivial⟩⟩
    exact keeps_of_stays hincoming stored
  | finish conn incoming =>
    have hfinish : Stays self (Transport.finishRecv conn incoming) := by
      refine ⟨trivial,fun _ _ => ⟨trivial,fun _ _ => ?_⟩⟩
      cases incoming with
      | true => exact ⟨trivial,fun _ _ => trivial⟩
      | false => trivial
    exact keeps_of_stays hfinish stored
  | send receiver plaintext sender =>
    exact keeps_of_stays (sendMessage_stays receiver plaintext sender) stored
  | register c sp ep => exact keeps_register stored c sp ep true (p := .ret ()) trivial

end

/-- The cells that have a row. -/
def Stored (w : NodeState) (c : String) : Prop := w.storage.cells.find c ≠ none

/-- No statement deletes a cell or its presence row. -/
theorem kept_answers {w w' : NodeState} {q : Req} {a : Ans q} (h : w.Answers q a w') (c : String) :
    (w.storage.cells.find c ≠ none → w'.storage.cells.find c ≠ none) ∧
      (w.storage.presenceTable.find c ≠ none → w'.storage.presenceTable.find c ≠ none) := by
  by_cases hwr : Registration.WritesRow c q
  · cases q with
    | store op =>
      obtain ⟨now,_,rfl⟩ := h
      cases op with
      | registerCell d sp ep isHome =>
        cases hwr
        exact ⟨fun _ => by simp [Storage.exec,Storage.registerCell,Table.find_upsert],id⟩
      | updatePresence d home visiting =>
        cases hwr
        exact ⟨id,fun _ => by simp [Storage.exec,Storage.updatePresence,Table.find_upsert]⟩
      | _ => exact hwr.elim
    | _ => exact hwr.elim
  · obtain ⟨hc,hp⟩ := Registration.rows_same h hwr
    rw [hc,hp]
    exact ⟨id,id⟩

theorem settled_answers {self : Node L} {w w' : NodeState} {q : Req} {a : Ans q}
    (h : w.Answers q a w') (hq : guard self (Stored w) q) (hw : Settled self w) :
    Settled self w' := by
  cases q with
  | store op =>
    obtain ⟨now,_,rfl⟩ := h
    cases op with
    | registerCell c sp ep isHome =>
      refine ⟨hw.home,fun d row hrow => ?_,hw.calm,hw.peer⟩
      have hd := hw.stored d row hrow
      by_cases hdc : d = c <;> simp [Storage.exec,Storage.registerCell,Table.find_upsert,hdc,hd]
    | updatePresence c home visiting =>
      obtain ⟨hc,rfl,rfl⟩ := hq
      refine ⟨fun d row hrow => ?_,fun d row hrow => ?_,hw.calm,hw.peer⟩
      · simp only [Storage.exec,Storage.updatePresence,Table.find_upsert] at hrow
        split at hrow
        · rw [← Option.some.inj hrow]
          cases w.storage.presenceTable.find d <;> exact ⟨rfl,rfl⟩
        · exact hw.home d row hrow
      · simp only [Storage.exec,Storage.updatePresence,Table.find_upsert] at hrow
        split at hrow
        · rename_i hdc
          rw [hdc]
          exact hc
        · exact hw.stored d row hrow
    | bufferMessage k c n payload => exact hq.elim
    | deleteBuffered k =>
      refine ⟨hw.home,hw.stored,?_,hw.peer⟩
      simp [Storage.exec,Storage.deleteBuffered,Table.delete,Table.deleteWhere,hw.calm]
    | cleanupExpiredMessages =>
      refine ⟨hw.home,hw.stored,?_,hw.peer⟩
      simp [Storage.exec,Storage.cleanupExpiredMessages,Table.deleteWhere,hw.calm]
    | _ => exact ⟨hw.home,hw.stored,hw.calm,hw.peer⟩
  | connGet nodeId =>
    obtain ⟨_,rfl⟩ := h
    exact hw
  | connAdd conn =>
    cases h
    refine ⟨hw.home,hw.stored,hw.calm,fun nodeId conn' hg => ?_⟩
    simp only [ConnectionRegistry.get_add] at hg
    split at hg
    · cases hg
      exact Eq.symm ‹_›
    · exact hw.peer nodeId conn' hg
  | connRemove nodeId =>
    cases h
    refine ⟨hw.home,hw.stored,hw.calm,fun n conn hg => ?_⟩
    simp only [ConnectionRegistry.get_remove] at hg
    split at hg
    · cases hg
    · exact hw.peer n conn hg
  | _ => cases h; exact hw

theorem rely_answers {self : Node L} {w w' : NodeState} {q : Req} {a : Ans q}
    (h : w.Answers q a w') (hw : Settled self w) : rely self (Stored w') q a := by
  cases q with
  | store op =>
    obtain ⟨now,rfl,rfl⟩ := h
    cases op with
    | registerCell c sp ep isHome =>
      simp [rely,Stored,Storage.exec,Storage.registerCell,Table.find_upsert]
    | getPresence c => exact fun row hrow => hw.home c row hrow
    | getBuffered c => simp [rely,Storage.exec,Storage.getBuffered,hw.calm]
    | _ => trivial
  | connGet nodeId =>
    obtain ⟨rfl,_⟩ := h
    exact hw.peer nodeId
  | _ => trivial

/-- Every task of the node keeps its state settled. -/
def discipline (self : Node L) :
    Discipline (String → Prop) (Running.rules (ι := ι) self) where
  inv := Settled self
  view := Stored
  guard := fun _ => guard self
  rely := fun _ => rely self
  mono := by
    intro i v u q hvu hq
    cases q with
    | store op =>
      cases op with
      | updatePresence c home visiting => exact ⟨hvu c hq.1,hq.2⟩
      | _ => exact hq
    | _ => trivial
  answer := fun _ _ _ _ _ h hw hq =>
    ⟨rely_answers h hw,settled_answers h hq hw,fun c => (kept_answers h c).1⟩
  start := by
    rintro i w p w' ⟨hp,rfl⟩ hw
    exact ⟨keeps_runs hp _,hw,fun _ => id⟩
  drift := fun _ _ h => h.elim

theorem holds_initial {self : Node L} {w : NodeState} (hw : Settled self w) :
    (discipline (ι := ι) self).Holds (Running.initial w) := ⟨hw,fun _ => trivial⟩

/-- Whatever the node is sent and in whatever order its tasks go on: its presence
rows name itself and belong to stored cells, and its buffer stays empty. -/
theorem stays_settled [DecidableEq ι] {self : Node L} {w : NodeState} (hw : Settled self w)
    {P : Pool ι Req Ans Err Unit NodeState}
    (hP : Pool.Steps (Running.rules self) (Running.initial w) P) : Settled self P.world :=
  ((holds_initial hw).steps hP).1

/-- A node that has just started. -/
theorem settled_fresh (self : Node L) {s : Storage} (hp : s.presenceTable = Table.empty)
    (hb : s.messageBuffer = Table.empty) : Settled self ⟨s,ConnectionRegistry.empty⟩ :=
  ⟨by simp [hp],by simp [hp],by simp [hb,Table.empty],by simp⟩

/-- A cell "c" that is registered and connected. -/
def sampleLine : PeerConnection := ⟨1,"c",[],.none,"n"⟩

def registeredWith (encPub : Bytes) : NodeState where
  storage := (Storage.empty.registerCell 0 "c" [] encPub true).updatePresence 0 "c"
    (sampleNode false).id none
  connections := ConnectionRegistry.empty.add sampleLine

def sampleRegistered : NodeState := registeredWith []

theorem settled_registeredWith (encPub : Bytes) :
    Settled (sampleNode false) (registeredWith encPub) := by
  refine ⟨fun c row h => ?_,fun c row h => ?_,rfl,fun nodeId conn h => ?_⟩
  · simp only [registeredWith,Storage.updatePresence,Table.find_upsert] at h
    split at h
    · rw [← Option.some.inj h]
      exact ⟨rfl,rfl⟩
    · exact absurd h (by simp [Storage.registerCell,Storage.empty])
  · simp only [registeredWith,Storage.updatePresence,Table.find_upsert] at h
    split at h
    · rename_i hc
      simp [registeredWith,Storage.updatePresence,Storage.registerCell,Table.find_upsert,hc]
    · exact absurd h (by simp [Storage.registerCell,Storage.empty])
  · simp only [registeredWith,ConnectionRegistry.get_add] at h
    split at h
    · rename_i hn
      rw [← Option.some.inj h]
      exact hn.symm
    · simp at h

theorem settled_registered : Settled (sampleNode false) sampleRegistered :=
  settled_registeredWith []

theorem stays_settled_sample : ∃ P : Pool Unit Req Ans Err Unit NodeState,
    Pool.Steps (Running.rules (sampleNode false)) (Running.initial sampleRegistered) P ∧
      (P.history ()).any settles = true ∧ Settled (sampleNode false) P.world := by
  obtain ⟨P,hP,_,_,hh,_⟩ := Running.exists_ran (sampleNode false) Forwarding.sampleEnv
    (.packet sampleLetter sampleLine) sampleRegistered
  exact ⟨P,hP,by rw [hh]; decide +kernel,stays_settled settled_registered hP⟩

/-- An answer that any task got is one that `told` describes. -/
theorem told_of_history [DecidableEq ι] {self : Node L} {w : NodeState} (hw : Settled self w)
    {P : Pool ι Req Ans Err Unit NodeState}
    (hP : Pool.Steps (Running.rules self) (Running.initial w) P) (i : ι) :
    ∀ e ∈ P.history i, told self e.1 e.2 := by
  intro e he
  obtain ⟨_,hr⟩ := (holds_initial hw).relied (fun _ _ h => absurd h List.not_mem_nil) hP i e he
  exact told_of_rely hr

/-- A presence row, once there, stays. -/
theorem kept_step [DecidableEq ι] {self : Node L} {P P' : Pool ι Req Ans Err Unit NodeState}
    (h : Pool.Step (Running.rules self) P P') {c : String}
    (hc : P.world.storage.presenceTable.find c ≠ none) :
    P'.world.storage.presenceTable.find c ≠ none := by
  cases h with
  | answer i q k a w ht hans => exact (kept_answers (q := q) hans c).2 hc
  | start i p w hd hs =>
    obtain ⟨_,rfl⟩ := hs
    exact hc
  | drift w hd => exact hd.elim

/-- What a task has read from the presence table is still there. -/
theorem present_of_read [DecidableEq ι] {self : Node L} {w : NodeState}
    {P : Pool ι Req Ans Err Unit NodeState}
    (hP : Pool.Steps (Running.rules self) (Running.initial w) P) (i : ι) {c : String}
    {row : PresenceEntry}
    (h : (⟨.store (.getPresence c),some row⟩ : Exchange Req Ans) ∈ P.history i) :
    P.world.storage.presenceTable.find c ≠ none := by
  refine Pool.invariant_of_steps (J := fun P => ∀ i c row,
    (⟨.store (.getPresence c),some row⟩ : Exchange Req Ans) ∈ P.history i →
      P.world.storage.presenceTable.find c ≠ none) ?_ hP
    (fun _ _ _ h => absurd h List.not_mem_nil) i c row h
  intro P1 P2 hJ hs j d r hmem
  by_cases hold : (⟨.store (.getPresence d),some r⟩ : Exchange Req Ans) ∈ P1.history j
  · exact kept_step hs (hJ j d r hold)
  · cases hs with
    | answer l q k a w' ht hans =>
      by_cases hj : j = l
      · subst hj
        simp only [Function.update_self,List.mem_append,hold,false_or,List.mem_singleton] at hmem
        cases hmem
        obtain ⟨_,ha,rfl⟩ := hans
        change P1.world.storage.presenceTable.find d ≠ none
        rw [← show some r = P1.world.storage.presenceTable.find d from ha]
        simp
      · exact absurd (by simpa [hj] using hmem) hold
    | start l p w' hd hst =>
      by_cases hj : j = l
      · subst hj
        simp at hmem
      · exact absurd (by simpa [hj] using hmem) hold
    | drift w' hd => exact hd.elim

/-- A row was found for the cell. -/
def Held (cellId : String) (past : Trace) : Prop :=
  (∃ row, (⟨.store (.getPresence cellId),some row⟩ : Exchange Req Ans) ∈ past) ∨
    ∃ cell, (⟨.store (.getCell cellId),some cell⟩ : Exchange Req Ans) ∈ past

theorem Held.mono {cellId : String} {past later : Trace} (h : Held cellId past)
    (hs : past ⊆ later) : Held cellId later :=
  h.imp (fun ⟨row,hr⟩ => ⟨row,hs hr⟩) (fun ⟨cell,hc⟩ => ⟨cell,hs hc⟩)

/-- All that handling a message for the cell may do: it is signed by this node and
sent on the cell's own connection, or given to the callback, once at most. -/
def AtHome (self : Node L) (pkt : Packet) (cellId : String) (past : Trace) : Req → Prop
  | .store (.getPresence c) | .store (.getCell c) => c = cellId
  | .connGet nodeId => nodeId = cellId ∧ Held cellId past
  | .wsSend conn frame => past.filter settles = [] ∧ Held cellId past ∧
      conn.peerNodeId = cellId ∧ ∃ signed, Transport.wireForm self pkt = .ok (signed,frame)
  | .connRemove nodeId => nodeId = cellId ∧ Unconnected cellId past
  | .onMessage p => past.filter settles = [] ∧ Held cellId past ∧ Resigned pkt p
  | _ => False

/-- What has become of a message for the cell once it is handled. -/
inductive Outcome (self : Node L) (cellId : String) (past : Trace) : Prop where
  | unknown (hp : (⟨.store (.getPresence cellId),none⟩ : Exchange Req Ans) ∈ past)
      (hc : (⟨.store (.getCell cellId),none⟩ : Exchange Req Ans) ∈ past)
  | sent (conn : PeerConnection) (frame : Bytes) (hp : conn.peerNodeId = cellId)
      (h : (⟨.wsSend conn frame,.ok ()⟩ : Exchange Req Ans) ∈ past)
  | called (p : Packet) (h : (⟨.onMessage p,.ok ()⟩ : Exchange Req Ans) ∈ past)
  | lost (hm : self.onMessage = false) (h : cellId = "" ∨ Unconnected cellId past)

section

variable {self : Node L} {pkt : Packet} {cellId m : String} {past : Trace}

theorem sendTo_heeds (hq : past.filter settles = []) (hh : Held cellId past) :
    Heeds (AtHome self pkt cellId) (told self)
      (fun later r => Held cellId later ∧ Resigned pkt r.2 ∧
        ((r.1 = true ∧ Outcome self cellId later) ∨
          (r.1 = false ∧ later.filter settles = [] ∧ Unconnected cellId later)))
      past (Transport.sendTo self cellId pkt) := by
  refine ⟨⟨rfl,hh⟩,fun conn hconn => ?_⟩
  have hq1 := settles_nil_snoc (e := ⟨.connGet cellId,conn⟩) hq rfl
  have hh1 : Held cellId (past ++ [⟨.connGet cellId,conn⟩]) := hh.mono (by simp)
  cases conn with
  | none => exact ⟨hh1,.refl pkt,.inr ⟨rfl,hq1,.absent (by simp)⟩⟩
  | some conn =>
    have hpeer : conn.peerNodeId = cellId := hconn conn rfl
    cases hw : Transport.wireForm self pkt with
    | error e => trivial
    | ok x =>
      obtain ⟨signed,frame⟩ := x
      have hs : Resigned pkt signed := resigned_of_sign (wireForm_ok hw).1
      refine ⟨⟨hq1,hh1,hpeer,signed,hw⟩,fun sent _ => ?_⟩
      rcases sent with e | ⟨⟨⟩⟩
      · cases e with
        | connectionClosed =>
          have hun : Unconnected cellId (past ++ [⟨.connGet cellId,some conn⟩] ++
              [⟨.wsSend conn frame,.error .connectionClosed⟩]) :=
            .closed conn frame hpeer (by simp)
          refine ⟨⟨rfl,hun⟩,fun _ _ => ⟨hh1.mono (fun e he => ?_),hs,.inr ⟨rfl,?_,?_⟩⟩⟩
          · simp only [List.mem_append] at he ⊢
            exact .inl (.inl he)
          · exact settles_nil_snoc (settles_nil_snoc hq1 rfl) rfl
          · exact hun.mono (by simp)
        | _ => trivial
      · exact ⟨hh1.mono (by simp),hs,.inl ⟨rfl,.sent conn frame hpeer (by simp)⟩⟩

theorem deliverLocal_heeds (hq : past.filter settles = []) (hh : Held cellId past)
    (ha : parseAddr pkt.toAddr = .ok (some cellId,m)) :
    Heeds (AtHome self pkt cellId) (told self) (fun later _ => Outcome self cellId later) past
      (Router.deliverLocal self pkt) := by
  have hcallback : ∀ (later : Trace) (p : Packet), Held cellId later → Resigned pkt p →
      later.filter settles = [] → cellId = "" ∨ Unconnected cellId later →
      Heeds (AtHome self pkt cellId) (told self) (fun last _ => Outcome self cellId last) later
        (Router.callback self (false,p)) := by
    intro later p hheld hp hnone hun
    unfold Router.callback
    by_cases hm : self.onMessage = true
    · simp only [Bool.false_eq_true,if_false,if_pos hm]
      refine ⟨⟨hnone,hheld,hp⟩,fun a _ => ?_⟩
      rcases a with e | ⟨⟨⟩⟩
      · trivial
      · exact .called p (by simp)
    · simp only [Bool.false_eq_true,if_false,if_neg hm]
      exact .lost (by simpa using hm) hun
  rw [Router.deliverLocal_eq,ha]
  by_cases hc : cellId = ""
  · simp only [if_pos hc]
    exact hcallback past pkt hh (.refl pkt) hq (.inl hc)
  · simp only [if_neg hc]
    refine (sendTo_heeds hq hh).bind (fun later r hl => ?_)
    obtain ⟨sent,p⟩ := r
    obtain ⟨hheld,hp,⟨hs,hout⟩ | ⟨hs,hnone,hun⟩⟩ := hl
    · cases hs
      exact hout
    · cases hs
      exact hcallback later p hheld hp hnone (.inr hun)

theorem route_heeds (ha : parseAddr pkt.toAddr = .ok (some cellId,m)) :
    Heeds (AtHome self pkt cellId) (told self) (fun later _ => Outcome self cellId later) []
      (Router.route self pkt) := by
  rw [Router.route_cell ha]
  refine ⟨rfl,fun presence hrow => ?_⟩
  cases presence with
  | none =>
    refine ⟨rfl,fun cell _ => ?_⟩
    cases cell with
    | none => exact .unknown (by simp) (by simp)
    | some cell => exact deliverLocal_heeds rfl (.inr ⟨cell,by simp⟩) ha
  | some row =>
    obtain ⟨hhome,hv⟩ := hrow row rfl
    simp only [tryPresence_home hhome hv]
    exact deliverLocal_heeds rfl (.inl ⟨row,by simp⟩) ha

end

/-- What the node has done with a message for the cell. -/
structure StaysHome (node : Node L) (pkt : Packet) (cellId : String) (tr : Trace) : Prop where
  allowed : ∀ tr1 e tr2, tr = tr1 ++ e :: tr2 → AtHome node pkt cellId tr1 e.1
  once : (tr.filter settles).length ≤ 1

theorem staysHome_of_path {self : Node L} {pkt : Packet} {cellId m : String} {tr : Trace}
    {p : NodeProg Unit} (ha : parseAddr pkt.toAddr = .ok (some cellId,m))
    (h : Path (Router.route self pkt) tr p) (hr : ∀ e ∈ tr, told self e.1 e.2) :
    StaysHome self pkt cellId tr ∧ (p = .ret () → Outcome self cellId tr) := by
  obtain ⟨hguard,hpost⟩ := (route_heeds ha).path h hr
  refine ⟨⟨hguard,filter_length_le_one ?_⟩,?_⟩
  · intro tr1 e tr2 htr he
    have hq := hguard tr1 e tr2 htr
    obtain ⟨q,a⟩ := e
    cases q with
    | wsSend conn frame => exact hq.1
    | onMessage p => exact hq.1
    | store op => cases op <;> first | exact hq.elim | simp [settles] at he
    | _ => simp [settles] at he
  · rintro rfl
    exact hpost

/-- A message for a cell never leaves for another node: it goes to the cell's own
connection, or to the callback, at most once, or it is dropped. -/
theorem message_stays_home [DecidableEq ι] {self : Node L} {w : NodeState} (hw : Settled self w)
    {P : Pool ι Req Ans Err Unit NodeState}
    (hP : Pool.Steps (Running.rules self) (Running.initial w) P) (i : ι) {pkt : Packet}
    {conn : PeerConnection} (hl : P.launched i = Node.dispatch self pkt conn)
    (hty : pkt.type = .str T.msg) {addr cellId m : String} (hto : pkt.toAddr = .str addr)
    (haddr : splitAddr addr = some (cellId,m)) :
    StaysHome self pkt cellId (P.history i) ∧
      (P.tasks i = .ret () → Outcome self cellId (P.history i)) := by
  have hpath := Pool.OnPath.steps (P := Running.initial w) (fun _ => .here _) hP i
  rw [hl,dispatch_msg _ hty] at hpath
  have ha : parseAddr pkt.toAddr = .ok (some cellId,m) := by simp [parseAddr,hto,haddr]
  exact staysHome_of_path ha hpath (told_of_history hw hP i)

theorem message_stays_home_sample : ∃ P : Pool Unit Req Ans Err Unit NodeState,
    (P.history ()).any settles = true ∧
      StaysHome (sampleNode false) sampleLetter "c" (P.history ()) := by
  obtain ⟨P,hP,hl,_,hh,_⟩ := Running.exists_ran (sampleNode false) Forwarding.sampleEnv
    (.packet sampleLetter sampleLine) sampleRegistered
  exact ⟨P,by rw [hh]; decide +kernel,(message_stays_home settled_registered hP () hl rfl
    (m := "h") (show sampleLetter.toAddr = .str "c@h" from rfl) (by decide +kernel)).1⟩

/-- Once a cell has registered, no message for it is dropped as one for an unknown
cell: a message that is handled to its end is sent to the cell or given to the
callback, unless there is no callback and the cell is not connected. -/
theorem registered_is_reached [DecidableEq ι] {self : Node L} {w : NodeState}
    (hw : Settled self w) {P P' : Pool ι Req Ans Err Unit NodeState}
    (hP : Pool.Steps (Running.rules self) (Running.initial w) P) {i : ι} {pkt : Packet}
    {conn : PeerConnection} {addr cellId m : String} (hty : pkt.type = .str T.msg)
    (hto : pkt.toAddr = .str addr) (haddr : splitAddr addr = some (cellId,m))
    (hreg : P.world.storage.presenceTable.find cellId ≠ none)
    (h : Pool.Executes (Pool.Step (Running.rules self)) i (Node.dispatch self pkt conn) P P')
    (hret : P'.tasks i = .ret ()) :
    (∃ c frame, c.peerNodeId = cellId ∧
        (⟨.wsSend c frame,.ok ()⟩ : Exchange Req Ans) ∈ P'.history i) ∨
      (∃ p, (⟨.onMessage p,.ok ()⟩ : Exchange Req Ans) ∈ P'.history i) ∨
      (self.onMessage = false ∧ (cellId = "" ∨ Unconnected cellId (P'.history i))) := by
  have hown : ∀ (v v' : NodeState) (q : Req) (a : Ans q) (past : Trace), v.Answers q a v' →
      v.storage.presenceTable.find cellId ≠ none →
      (⟨.store (.getPresence cellId),none⟩ : Exchange Req Ans) ∉ past →
      (⟨.store (.getPresence cellId),none⟩ : Exchange Req Ans) ∉ past ++ [⟨q,a⟩] := by
    intro v v' q a past hans hv hpast
    simp only [List.mem_append,hpast,false_or,List.mem_singleton]
    intro he
    cases he
    obtain ⟨_,hnone,_⟩ := hans
    exact hv hnone.symm
  obtain ⟨hrun,hpath,_,hfound⟩ := h.track (R := Running.rules self) (fun _ _ hs => hs)
    (Φ := fun past v => v.storage.presenceTable.find cellId ≠ none ∧
      (⟨.store (.getPresence cellId),none⟩ : Exchange Req Ans) ∉ past)
    ⟨hreg,List.not_mem_nil⟩
    (fun P1 q k a v _ _ hans hΦ =>
      ⟨(kept_answers (q := q) hans cellId).2 hΦ.1,hown _ _ q a _ hans hΦ.1 hΦ.2⟩)
    (fun P1 P2 _ hs hΦ => ⟨kept_step hs hΦ.1,hΦ.2⟩)
  rw [dispatch_msg _ hty,hret] at hpath
  have ha : parseAddr pkt.toAddr = .ok (some cellId,m) := by simp [parseAddr,hto,haddr]
  have hout := (staysHome_of_path ha hpath (told_of_history hw (hP.trans hrun) i)).2 rfl
  cases hout with
  | unknown hp _ => exact (hfound hp).elim
  | sent c frame hp h => exact .inl ⟨c,frame,hp,h⟩
  | called p h => exact .inr (.inl ⟨p,h⟩)
  | lost hm h => exact .inr (.inr ⟨hm,h⟩)

theorem registered_is_reached_sample : ∃ P : Pool Unit Req Ans Err Unit NodeState,
    (∃ c frame, c.peerNodeId = "c" ∧
        (⟨.wsSend c frame,.ok ()⟩ : Exchange Req Ans) ∈ P.history ()) ∨
      (∃ p, (⟨.onMessage p,.ok ()⟩ : Exchange Req Ans) ∈ P.history ()) ∨
      ((sampleNode false).onMessage = false ∧ ("c" = "" ∨ Unconnected "c" (P.history ()))) := by
  obtain ⟨P,P',hstep,hex,_,_,ht,_⟩ := Pool.exists_execution
    (P := Running.initial sampleRegistered) (i := ()) (R := Running.rules (sampleNode false))
    (Pool.Step (Running.rules (sampleNode false))) trivial
    ⟨Running.Runs.packet sampleLetter sampleLine,rfl⟩
    (run_path Forwarding.sampleEnv.handler
      (Node.dispatch (sampleNode false) sampleLetter sampleLine) ⟨sampleRegistered,0⟩)
    (Prog.done_ofExcept _)
    (Env.allows_run (R := Running.rules (sampleNode false))
      (fun q w => NodeState.answers_handler Forwarding.sampleEnv q w) _ ⟨sampleRegistered,0⟩)
    (fun _ _ hs _ _ => hs)
  have hreg : sampleRegistered.storage.presenceTable.find "c" ≠ none := by decide +kernel
  refine ⟨P',registered_is_reached settled_registered (.single hstep) (m := "h") rfl
    (show sampleLetter.toAddr = .str "c@h" from rfl) (by decide +kernel) (kept_step hstep hreg) hex ?_⟩
  rw [ht,Function.update_self]
  have hok : (run Forwarding.sampleEnv.handler
      (Node.dispatch (sampleNode false) sampleLetter sampleLine) ⟨sampleRegistered,0⟩).result.isOk =
        true := by decide +kernel
  obtain ⟨u,hu⟩ := exists_ok hok
  rw [hu]
  rfl

/-- The payload of the answer to a PRESENCE_QUERY. -/
def presenceData (v : Val) (presence : Option PresenceEntry) : Val :=
  .map [(.str "cell_id",v),
    (.str "home_node_id",Node.optStr (presence.map PresenceEntry.homeNodeId)),
    (.str "visiting_node_id",Node.optStr (presence.bind PresenceEntry.visitingNodeId))]

def presenceResponse (self : Node L) (pkt : Packet) (payload : Bytes) (st : Stamp) : Packet :=
  { type := .str T.presenceResponse, payload := .bin payload, id := .str st.id, ts := .int st.ts,
    fromAddr := .str self.id, toAddr := pkt.fromAddr }

/-- What handling a PRESENCE_QUERY for the value may do: read the row, and answer on
the connection the query came on. -/
def Tells (self : Node L) (pkt : Packet) (conn : PeerConnection) (v : Val) (past : Trace) :
    Req → Prop
  | .store (.getPresence c) => SqlText.ofVal L.realText v = .ok (some (.text c))
  | .stamp => True
  | .wsSend c frame => c = conn ∧ ∃ (presence : Option PresenceEntry) (payload : Bytes)
      (st : Stamp) (signed : Packet),
      (∀ row, presence = some row → ∃ k, SqlText.ofVal L.realText v = .ok (some (.text k)) ∧
        (⟨.store (.getPresence k),some row⟩ : Exchange Req Ans) ∈ past) ∧
      encodePayload L (presenceData v presence) = .ok payload ∧
      Transport.wireForm self (presenceResponse self pkt payload st) = .ok (signed,frame)
  | _ => False

theorem handlePresenceQuery_heeds {self : Node L} {pkt : Packet} {conn : PeerConnection} {v : Val}
    (hv : (decodePayload L pkt.payload).bind (fun data => data.item "cell_id") = .ok v) :
    Heeds (Tells self pkt conn v) (fun _ _ => True) (fun _ _ => True) []
      (Node.handlePresenceQuery self pkt conn) := by
  unfold Node.handlePresenceQuery
  rw [hv]
  have hof : Heeds (Tells self pkt conn v) (fun _ _ => True)
      (fun later (presence : Option PresenceEntry) => ∀ row, presence = some row →
        ∃ k, SqlText.ofVal L.realText v = .ok (some (.text k)) ∧
          (⟨.store (.getPresence k),some row⟩ : Exchange Req Ans) ∈ later) []
      (Node.presenceOf L v) := by
    unfold Node.presenceOf
    cases hk : SqlText.ofVal L.realText v with
    | error e => trivial
    | ok k =>
      rcases k with _ | k
      · exact fun _ h => by cases h
      · cases k with
        | blob b => exact fun _ h => by cases h
        | text c =>
          refine ⟨hk,fun presence _ row h => ⟨c,rfl,?_⟩⟩
          rw [← h]
          simp
  refine hof.bind (fun later presence hread => ?_)
  change Heeds _ _ _ _ ((Prog.ofExcept (encodePayload L (presenceData v presence))).bind _)
  cases hp : encodePayload L (presenceData v presence) with
  | error e => trivial
  | ok payload =>
    refine ⟨trivial,fun st _ => ?_⟩
    change Heeds _ _ _ _ ((Transport.sendVia self conn (presenceResponse self pkt payload st)).bind _)
    unfold Transport.sendVia
    cases hw : Transport.wireForm self (presenceResponse self pkt payload st) with
    | error e => trivial
    | ok x =>
      obtain ⟨signed,frame⟩ := x
      refine ⟨⟨rfl,presence,payload,st,signed,fun row h => ?_,hp,hw⟩,fun a _ => ?_⟩
      · obtain ⟨k,hk,hmem⟩ := hread row h
        exact ⟨k,hk,by simp [hmem]⟩
      · cases a <;> trivial

/-- The node asked answers on the connection of the query, to its sender and under
its own signature; it names itself as the home of a cell it has stored, or nobody. -/
theorem presence_told [DecidableEq ι] (hpack : L.PackLaws) (hsig : L.SigLaws) {self : Node L}
    {w : NodeState} (hw : Settled self w) {P : Pool ι Req Ans Err Unit NodeState}
    (hP : Pool.Steps (Running.rules self) (Running.initial w) P) (i : ι) {pkt : Packet}
    {conn c : PeerConnection} {v : Val} {frame : Bytes} {a : Ans (.wsSend c frame)}
    (hl : P.launched i = Node.dispatch self pkt conn) (hty : pkt.type = .str T.presenceQuery)
    (hv : (decodePayload L pkt.payload).bind (fun data => data.item "cell_id") = .ok v)
    (hsent : (⟨.wsSend c frame,a⟩ : Exchange Req Ans) ∈ P.history i) :
    c = conn ∧ ∃ p data, unpack L frame = .ok p ∧
      verifyPacket L p self.identity.signing.pub = .ok true ∧
      p.type = .str T.presenceResponse ∧ p.fromAddr = .str self.id ∧ p.toAddr = pkt.fromAddr ∧
      decodePayload L p.payload = .ok data ∧ data.item "cell_id" = .ok v ∧
      data.item "visiting_node_id" = .ok .none ∧
      (data.item "home_node_id" = .ok .none ∨
        data.item "home_node_id" = .ok (.str self.id) ∧
          ∃ k, SqlText.ofVal L.realText v = .ok (some (.text k)) ∧ Stored P.world k) := by
  have hpath := Pool.OnPath.steps (P := Running.initial w) (fun _ => .here _) hP i
  have hd : Node.dispatch self pkt conn = Node.handlePresenceQuery self pkt conn := by
    simp [Node.dispatch,hty,Val.eqStr,T.presenceQuery,T.ping,T.pong,T.gossip,T.msg,T.nodeRemove,
      T.nodeLeaving]
  rw [hl,hd] at hpath
  obtain ⟨tr1,tr2,htr⟩ := List.append_of_mem hsent
  obtain ⟨rfl,presence,payload,st,signed,hread,hpay,hwire⟩ :=
    ((handlePresenceQuery_heeds hv).path hpath (fun _ _ => trivial)).1 tr1 _ tr2 htr
  obtain ⟨hsigned,_⟩ := wireForm_ok hwire
  obtain ⟨hunpack,s,rfl⟩ := unpack_wireForm hpack hwire
  have hdata := hpack.unpackb_packb _ _ hpay
  have hrow : ∀ row, presence = some row → row.homeNodeId = self.id ∧ row.visitingNodeId = none ∧
      ∃ k, SqlText.ofVal L.realText v = .ok (some (.text k)) ∧ Stored P.world k := by
    intro row h
    obtain ⟨k,hk,hmem⟩ := hread row h
    have hmem : (⟨.store (.getPresence k),some row⟩ : Exchange Req Ans) ∈ P.history i := by
      rw [htr]
      exact List.mem_append_left _ (by simpa using hmem)
    obtain ⟨hh,hvisit⟩ := told_of_history hw hP i _ hmem row rfl
    obtain ⟨r,hr⟩ := Option.ne_none_iff_exists'.mp (present_of_read hP i hmem)
    exact ⟨hh,hvisit,k,hk,(stays_settled hw hP).stored k r hr⟩
  refine ⟨rfl,_,_,hunpack,verifyPacket_signPacket hsig hsigned,rfl,rfl,rfl,hdata,?_,?_,?_⟩
  · simp [presenceData,Val.item,Val.lookup]
  · cases presence with
    | none => simp [presenceData,Val.item,Val.lookup,Node.optStr]
    | some row => simp [presenceData,Val.item,Val.lookup,Node.optStr,(hrow row rfl).2.1]
  · cases presence with
    | none => simp [presenceData,Val.item,Val.lookup,Node.optStr]
    | some row =>
      obtain ⟨hh,_,k,hk,hstored⟩ := hrow row rfl
      exact .inr ⟨by simp [presenceData,Val.item,Val.lookup,Node.optStr,hh],k,hk,hstored⟩

def sampleQuery : Packet :=
  Running.samplePeerPacket T.presenceQuery
    (Running.sampleEncode (.map [(.str "cell_id",.str "c")]))

theorem presence_told_sample : ∃ (frame : Bytes) (p : Packet) (data : Val),
    unpack shortSigLib frame = .ok p ∧ decodePayload shortSigLib p.payload = .ok data ∧
      (data.item "home_node_id" = .ok .none ∨
        data.item "home_node_id" = .ok (.str (sampleNode false).id)) := by
  obtain ⟨P,hP,hl,_,hh,_⟩ := Running.exists_ran (sampleNode false) Forwarding.sampleEnv
    (.packet sampleQuery sampleLine) sampleRegistered
  have hsent : (P.history ()).any isSend = true := by
    rw [hh]
    decide +kernel
  have hasks : ((decodePayload shortSigLib sampleQuery.payload).bind
      (fun data => data.item "cell_id")).isOk = true := by decide +kernel
  obtain ⟨v,hv⟩ := exists_ok hasks
  obtain ⟨_,frame,_,hmem⟩ := exists_isSend hsent
  obtain ⟨_,p,data,hu,_,_,_,_,hd,_,_,hhome⟩ := presence_told (sampleLib_packLaws digest32)
    shortSigLib_sigLaws settled_registered hP () hl rfl hv hmem
  exact ⟨frame,p,data,hu,hd,hhome.imp_right And.left⟩

end Homebound

end Nevod
