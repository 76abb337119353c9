import Nevod.RecvLoop
import Nevod.Routing
import Mathlib.Data.Fintype.Card
import Mathlib.Data.List.Chain
import Mathlib.Order.WellFounded

/-!
A message on its way through nodes that are connected to each other. Every node
follows its own presence row, so the rows alone decide where `route` runs next.
-/

set_option autoImplicit false

namespace Nevod
open Text Resume Keyed

variable {L : Lib} {ι : Type}

/-- Nodes that are connected to each other. `conn i j` is the connection of node
`i` with node `j`; what is sent on it is read by `j` from `conn j i`. -/
structure Clique (ι : Type) (L : Lib) where
  node : ι → Node L
  conn : ι → ι → PeerConnection
  peerId : ∀ i j, (conn i j).peerNodeId = (node j).id
  peerKey : ∀ i j, (conn i j).peerSigningPubkey = (node j).identity.signing.pub
  id_injective : Function.Injective (fun i => (node i).id)

/-- The presence table of each node. -/
abbrev PresenceTables (ι : Type) := ι → Table PresenceEntry.cellId

theorem nodup_of_acc {α : Type} {r : α → α → Prop} {a : α} {l : List α} (h : Acc r a)
    (hl : (a :: l).IsChain (fun x y => r y x)) : (a :: l).Nodup := by
  induction h generalizing l with
  | intro a hacc ih =>
    cases l with
    | nil => simp
    | cons b l =>
      obtain ⟨hab,hl⟩ := List.isChain_cons_cons.mp hl
      refine List.nodup_cons.mpr ⟨fun hmem => ?_,ih b hab hl⟩
      have hbelow : ∀ x ∈ b :: l, Relation.TransGen r x a :=
        List.forall_mem_cons.mpr ⟨.single hab,
          List.IsChain.cons_induction (Relation.TransGen r · a) l hl
            (fun _ _ hxy hx => .head hxy hx) (.single hab)⟩
      exact not_acc_iff_exists_descending_chain.mpr ⟨fun _ => a,rfl,fun _ => hbelow a hmem⟩
        (Acc.intro a hacc).transGen

namespace Clique

/-- What the tasks of node `i` are told while the nodes stay connected, whatever
else happens there: its registry has an entry for every other node, sending on
these connections succeeds, and whoever is dialled has proved to be who was
expected. -/
def Told (M : Clique ι L) (tables : PresenceTables ι) (i : ι) : (q : Req) → Ans q → Prop
  | .store (.getPresence cellId), row => row = (tables i).find cellId
  | .connGet nodeId, entry =>
    (∀ j, j ≠ i → nodeId = (M.node j).id → entry = some (M.conn i j)) ∧
      ∀ conn, entry = some conn → conn.peerNodeId = nodeId
  | .wsSend conn _, sent => ∀ j, j ≠ i → conn = M.conn i j → sent = .ok ()
  | .dial expected _, dialled =>
    ∀ nodeId conn, expected = some nodeId → dialled = .ok conn → conn.peerNodeId = nodeId
  | _, _ => True

/-- The nodes at which `route` has run for the packet, the latest one first, with
the packet as it came there and what has been exchanged in its routing so far.
A node routes what the receive loop accepts from another one as a MSG. -/
inductive Visits (M : Clique ι L) (tables : PresenceTables ι) (start : ι) (pkt : Packet) :
    List ι → Packet → List (Exchange Req Ans) → Prop where
  | inject {tr : List (Exchange Req Ans)} {p : NodeProg Unit}
      (hpath : Path (Router.route (M.node start) pkt) tr p)
      (htold : ∀ e ∈ tr, M.Told tables start e.1 e.2) : Visits M tables start pkt [start] pkt tr
  | hop {i j : ι} {visited : List ι} {q q' : Packet} {tr tr' : List (Exchange Req Ans)}
      {frame : Bytes} {p : NodeProg Unit} (hv : Visits M tables start pkt (i :: visited) q tr)
      (hij : j ≠ i) (hsent : (⟨.wsSend (M.conn i j) frame,.ok ()⟩ : Exchange Req Ans) ∈ tr)
      (hacc : accepted L (M.conn j i).peerSigningPubkey frame = some q')
      (hmsg : q'.type = .str T.msg)
      (hpath : Path (Router.route (M.node j) q') tr' p)
      (htold : ∀ e ∈ tr', M.Told tables j e.1 e.2) :
      Visits M tables start pkt (j :: i :: visited) q' tr'

/-- The row of node `i` names node `j` as the next one: as the node the cell
visits, or as its home if the node it visits is no node of the clique. -/
def Names (M : Clique ι L) (tables : PresenceTables ι) (cellId : String) (i j : ι) : Prop :=
  j ≠ i ∧ ∃ row, (tables i).find cellId = some row ∧
    (Router.visiting row = some (M.node j).id ∨
      (∀ k, Router.visiting row ≠ some (M.node k).id) ∧ row.homeNodeId = (M.node j).id)

/-- Node `j` follows on node `i`: the row of `i` names it, and `i` can sign and
pack the packet. -/
def Leads (M : Clique ι L) (tables : PresenceTables ι) (cellId : String) (pkt : Packet)
    (i j : ι) : Prop :=
  M.Names tables cellId i j ∧ ∃ signed frame, Transport.wireForm (M.node i) pkt = .ok (signed,frame)

/-- Whoever follows the rows from `start` comes to an end. -/
def ComesToEnd (M : Clique ι L) (tables : PresenceTables ι) (cellId : String) (pkt : Packet)
    (start : ι) : Prop :=
  Acc (fun j i => M.Leads tables cellId pkt i j) start

/-- All that a routing at node `i` does to the connections with the other nodes is
to send the signed packet to the node that follows. -/
def Guard (M : Clique ι L) (tables : PresenceTables ι) (cellId : String) (pkt : Packet) (i : ι) :
    Req → Prop
  | .wsSend conn frame => ∀ j, j ≠ i → conn = M.conn i j →
      M.Names tables cellId i j ∧ ∃ signed, Transport.wireForm (M.node i) pkt = .ok (signed,frame)
  | .connAdd conn => ∀ j, j ≠ i → conn.peerNodeId ≠ (M.node j).id
  | .connRemove nodeId => ∀ j, j ≠ i → nodeId ≠ (M.node j).id
  | .store (.updatePresence _ _ _) => False
  | _ => True

section Routing

variable {M : Clique ι L} {tables : PresenceTables ι} {cellId : String} {pkt p : Packet} {i : ι}

/-- A refusal shows that the node is none of the others. -/
theorem sendTo_guard (hp : Resigned pkt p) (nodeId : String)
    (hn : ∀ j, j ≠ i → nodeId = (M.node j).id → M.Names tables cellId i j) :
    Obeys (M.Guard tables cellId pkt i) (M.Told tables i)
      (fun r => Resigned pkt r.2 ∧ (r.1 = false → ∀ j, j ≠ i → nodeId ≠ (M.node j).id))
      (Transport.sendTo (M.node i) nodeId p) := by
  refine ⟨trivial,fun entry hentry => ?_⟩
  cases entry with
  | none =>
    refine ⟨hp,fun _ j hj he => ?_⟩
    have hsome := hentry.1 j hj he
    cases hsome
  | some conn =>
    have hlabel := hentry.2 conn rfl
    cases hw : Transport.wireForm (M.node i) p with
    | error e => trivial
    | ok x =>
      obtain ⟨signed,frame⟩ := x
      rw [hp.wireForm] at hw
      have hsigned := resigned_of_sign (wireForm_ok hw).1
      have hpeer : ∀ j, conn = M.conn i j → nodeId = (M.node j).id := by
        rintro j rfl
        exact hlabel.symm.trans (M.peerId i j)
      refine ⟨fun j hj hc => ⟨hn j hj (hpeer j hc),signed,hw⟩,fun sent hsent => ?_⟩
      rcases sent with e | ⟨⟨⟩⟩
      · have hnot : ∀ j, j ≠ i → nodeId ≠ (M.node j).id := by
          intro j hj he
          have hc := hentry.1 j hj he
          cases hc
          have hok := hsent j hj rfl
          cases hok
        cases e <;> first | trivial | exact ⟨hnot,fun _ _ => ⟨hsigned,fun _ => hnot⟩⟩
      · exact ⟨hsigned,fun h => by cases h⟩

theorem callback_guard (r : Bool × Packet) :
    Obeys (M.Guard tables cellId pkt i) (M.Told tables i) (fun _ => True)
      (Router.callback (M.node i) r) := by
  unfold Router.callback
  split
  · trivial
  · split
    · refine ⟨trivial,fun a _ => ?_⟩
      cases a <;> trivial
    · trivial

theorem deliverLocal_guard {n : String} (ha : parseAddr pkt.toAddr = .ok (some cellId,n))
    (hcell : ∀ j, cellId ≠ (M.node j).id) (hp : Resigned pkt p) :
    Obeys (M.Guard tables cellId pkt i) (M.Told tables i) (fun _ => True)
      (Router.deliverLocal (M.node i) p) := by
  rw [Router.deliverLocal_eq,hp.toAddr,ha]
  by_cases hc : cellId = ""
  · simp only [if_pos hc]
    exact callback_guard (false,p)
  · simp only [if_neg hc]
    exact (sendTo_guard hp cellId (fun j _ he => absurd he (hcell j))).bind
      (fun r _ => callback_guard r)

/-- Who has to be dialled is none of the other nodes, and neither is who answers. -/
theorem dialAndSend_guard (hp : Resigned pkt p) (nodeId : String) (address : Val)
    (hn : ∀ j, j ≠ i → nodeId ≠ (M.node j).id) :
    Obeys (M.Guard tables cellId pkt i) (M.Told tables i) (fun r => Resigned pkt r.2)
      (Router.dialAndSend (M.node i) nodeId address p) := by
  rw [Router.dialAndSend_eq]
  refine ⟨trivial,fun dialled hdialled => ?_⟩
  cases dialled with
  | error e => exact hp
  | ok conn =>
    have hlabel := hdialled nodeId conn rfl rfl
    refine ⟨fun j hj => by rw [hlabel]; exact hn j hj,fun _ _ => ⟨trivial,fun _ _ => ?_⟩⟩
    rcases Router.transmit_cases (M.node i) conn p with ⟨_,p1,_,hp1,ht⟩ | ⟨signed,frame,_,hs,ht⟩
    · rw [ht]
      exact hp.trans hp1
    · rw [ht]
      refine ⟨fun j hj hc => ?_,fun sent _ => by cases sent <;> exact hp.trans hs⟩
      subst hc
      exact absurd (hlabel.symm.trans (M.peerId i j)) (hn j hj)

theorem sendToNode_guard {n : String} (ha : parseAddr pkt.toAddr = .ok (some cellId,n))
    (hcell : ∀ j, cellId ≠ (M.node j).id) (hp : Resigned pkt p) (nodeId : String)
    (hn : ∀ j, j ≠ i → nodeId = (M.node j).id → M.Names tables cellId i j) :
    Obeys (M.Guard tables cellId pkt i) (M.Told tables i)
      (fun r => Resigned pkt r.2 ∧ (r.1 = false → ∀ j, nodeId ≠ (M.node j).id))
      (Router.sendToNode (M.node i) nodeId p) := by
  unfold Router.sendToNode
  by_cases hid : nodeId = (M.node i).id
  · rw [if_pos hid]
    exact (deliverLocal_guard ha hcell hp).bind (fun _ _ => ⟨hp,fun h => by cases h⟩)
  · rw [if_neg hid]
    refine (sendTo_guard hp nodeId hn).bind (fun r hr => ?_)
    obtain ⟨sent,p1⟩ := r
    cases sent with
    | true => exact ⟨hr.1,fun h => by cases h⟩
    | false =>
      have hother := hr.2 rfl
      have hnone : ∀ j, nodeId ≠ (M.node j).id := by
        intro j he
        by_cases hj : j = i
        · subst hj
          exact hid he
        · exact hother j hj he
      refine ⟨trivial,fun entry _ => ?_⟩
      cases entry with
      | none => exact ⟨hr.1,fun _ => hnone⟩
      | some entry =>
        by_cases hst : entry.status ≠ "online"
        · simp only [Prog.bind_ret,if_pos hst]
          exact ⟨hr.1,fun _ => hnone⟩
        · simp only [Prog.bind_ret,if_neg hst]
          exact (dialAndSend_guard hr.1 nodeId _ hother).mono (fun r hr => ⟨hr,fun _ => hnone⟩)

theorem bufferFor_guard (home : String) :
    Obeys (M.Guard tables cellId pkt i) (M.Told tables i) (fun _ => True)
      (Router.bufferFor L cellId home p) := by
  rcases Router.bufferFor_cases L cellId home p with ⟨e,hb⟩ | ⟨k,payload,_,_,hb⟩
  · rw [hb]
    trivial
  · rw [hb]
    exact ⟨trivial,fun _ _ => trivial⟩

/-- Whatever the tables say, a routing sends to another node only if it follows. -/
theorem route_guard {n : String} (ha : parseAddr pkt.toAddr = .ok (some cellId,n))
    (hcell : ∀ j, cellId ≠ (M.node j).id) (hp : Resigned pkt p) :
    Obeys (M.Guard tables cellId pkt i) (M.Told tables i) (fun _ => True)
      (Router.route (M.node i) p) := by
  rw [Router.route_cell (by rw [hp.toAddr]; exact ha)]
  refine ⟨trivial,fun row hrow => ?_⟩
  cases row with
  | none =>
    refine ⟨trivial,fun cell _ => ?_⟩
    cases cell with
    | none => trivial
    | some cell => exact deliverLocal_guard ha hcell hp
  | some row =>
    have hfind : (tables i).find cellId = some row := Eq.symm hrow
    -- the home is tried when the row names no node of the clique as visited
    have hhome : ∀ p1, Resigned pkt p1 → (∀ k, Router.visiting row ≠ some (M.node k).id) →
        Obeys (M.Guard tables cellId pkt i) (M.Told tables i) (fun _ => True)
          (Router.tryHome (M.node i) cellId row.homeNodeId p1) := by
      intro p1 hp1 hvisit
      refine (sendToNode_guard ha hcell hp1 row.homeNodeId
        (fun j hj he => ⟨hj,row,hfind,.inr ⟨hvisit,he⟩⟩)).bind (fun r hr => ?_)
      split
      · trivial
      · exact bufferFor_guard _
    change Obeys _ _ _ (Router.tryPresence (M.node i) cellId row p)
    unfold Router.tryPresence
    cases hv : Router.visiting row with
    | none => exact hhome p hp (by simp [hv])
    | some nodeId =>
      refine (sendToNode_guard ha hcell hp nodeId
        (fun j hj he => ⟨hj,row,hfind,.inl (by rw [hv,he])⟩)).bind (fun r hr => ?_)
      obtain ⟨sent,p1⟩ := r
      cases sent with
      | true => trivial
      | false =>
        refine hhome p1 hr.1 (fun k he => hr.2 rfl k ?_)
        rw [hv] at he
        exact Option.some.inj he

theorem path_sendToNode {j : ι} {signed : Packet} {frame : Bytes} (hij : j ≠ i)
    (hw : Transport.wireForm (M.node i) p = .ok (signed,frame)) :
    Path (Router.sendToNode (M.node i) (M.node j).id p)
      [⟨.connGet (M.node j).id,some (M.conn i j)⟩,⟨.wsSend (M.conn i j) frame,.ok ()⟩]
      (.ret (true,signed)) := by
  have hne : (M.node j).id ≠ (M.node i).id := fun he => hij (M.id_injective he)
  unfold Router.sendToNode Transport.sendTo
  simp only [if_neg hne,Prog.bind_eq,Prog.bind_ask]
  refine .step _ _ _ ?_
  simp only [hw,Prog.ofExcept_ok,Prog.bind_ret,Prog.bind_ask]
  exact .step _ _ _ (.here _)

theorem path_unknown {nodeId : String} (hne : nodeId ≠ (M.node i).id) :
    Path (Router.sendToNode (M.node i) nodeId p)
      [⟨.connGet nodeId,none⟩,⟨.store (.getNode (.text nodeId)),none⟩] (.ret (false,p)) := by
  unfold Router.sendToNode Transport.sendTo
  simp only [if_neg hne,Prog.bind_eq,Prog.bind_ask]
  refine .step _ _ _ ?_
  simp only [Prog.pure_eq,Prog.bind_ret,Storage.getNode,SqlText.ofVal,Prog.ofExcept_ok,
    Prog.bind_eq,Prog.bind_ask]
  exact .step _ _ _ (.here _)

theorem told_sendToNode {j : ι} (frame : Bytes) :
    ∀ e ∈ ([⟨.connGet (M.node j).id,some (M.conn i j)⟩,⟨.wsSend (M.conn i j) frame,.ok ()⟩] :
      List (Exchange Req Ans)), M.Told tables i e.1 e.2 := by
  intro e he
  rcases List.mem_cons.mp he with rfl | he
  · refine ⟨fun k _ hk => ?_,fun conn hc => ?_⟩
    · rw [M.id_injective hk]
    · cases hc
      exact M.peerId i j
  · cases List.mem_singleton.mp he
    exact fun _ _ _ => rfl

theorem told_unknown {nodeId : String} (hn : ∀ k, nodeId ≠ (M.node k).id) :
    ∀ e ∈ ([⟨.connGet nodeId,none⟩,⟨.store (.getNode (.text nodeId)),none⟩] :
      List (Exchange Req Ans)), M.Told tables i e.1 e.2 := by
  intro e he
  rcases List.mem_cons.mp he with rfl | he
  · exact ⟨fun j _ hj => absurd hj (hn j),fun conn hc => by cases hc⟩
  · cases List.mem_singleton.mp he
    trivial

theorem exists_path_tryPresence {row : PresenceEntry} {j : ι} {signed : Packet} {frame : Bytes}
    (hij : j ≠ i) (hw : Transport.wireForm (M.node i) p = .ok (signed,frame))
    (hnext : Router.visiting row = some (M.node j).id ∨
      (∀ k, Router.visiting row ≠ some (M.node k).id) ∧ row.homeNodeId = (M.node j).id) :
    ∃ tr, Path (Router.tryPresence (M.node i) cellId row p) tr (.ret ()) ∧
      (∀ e ∈ tr, M.Told tables i e.1 e.2) ∧
      (⟨.wsSend (M.conn i j) frame,.ok ()⟩ : Exchange Req Ans) ∈ tr := by
  have hsend := path_sendToNode (M := M) hij hw
  unfold Router.tryPresence
  rcases hnext with hv | ⟨hv,hhome⟩
  · rw [hv]
    exact ⟨_,hsend.bind_left _,told_sendToNode frame,by simp⟩
  · have hpath : Path (Router.tryHome (M.node i) cellId row.homeNodeId p)
        [⟨.connGet (M.node j).id,some (M.conn i j)⟩,⟨.wsSend (M.conn i j) frame,.ok ()⟩]
        (.ret ()) := by
      unfold Router.tryHome
      rw [hhome]
      exact hsend.bind_left _
    cases hvisit : Router.visiting row with
    | none => exact ⟨_,hpath,told_sendToNode frame,by simp⟩
    | some nodeId =>
      have hn : ∀ k, nodeId ≠ (M.node k).id := fun k he => hv k (by rw [hvisit,he])
      refine ⟨_,((path_unknown (hn i)).bind_left _).trans hpath,?_,by simp⟩
      exact List.forall_mem_append.mpr ⟨told_unknown hn,told_sendToNode frame⟩

theorem exists_path_route {n : String} (ha : parseAddr pkt.toAddr = .ok (some cellId,n))
    (hp : Resigned pkt p) {j : ι} (h : M.Leads tables cellId pkt i j) :
    ∃ tr signed frame, Path (Router.route (M.node i) p) tr (.ret ()) ∧
      (∀ e ∈ tr, M.Told tables i e.1 e.2) ∧
      (⟨.wsSend (M.conn i j) frame,.ok ()⟩ : Exchange Req Ans) ∈ tr ∧
      Transport.wireForm (M.node i) pkt = .ok (signed,frame) := by
  obtain ⟨⟨hij,row,hrow,hnext⟩,signed,frame,hw⟩ := h
  have hto := hp.toAddr
  have htry : ∃ tr, Path (Router.tryPresence (M.node i) cellId row p) tr (.ret ()) ∧
      (∀ e ∈ tr, M.Told tables i e.1 e.2) ∧
      (⟨.wsSend (M.conn i j) frame,.ok ()⟩ : Exchange Req Ans) ∈ tr :=
    exists_path_tryPresence hij (hp.wireForm.trans hw) hnext
  obtain ⟨tr,hpath,htold,hmem⟩ := htry
  rw [Router.route_cell (by rw [hto]; exact ha)]
  refine ⟨⟨.store (.getPresence cellId),some row⟩ :: tr,signed,frame,?_,
    List.forall_mem_cons.mpr ⟨hrow.symm,htold⟩,List.mem_cons_of_mem _ hmem,hw⟩
  refine .step _ _ _ ?_
  exact hpath

/-- Node `i` in state `s` is connected to the others and has its presence table. -/
structure Connected (M : Clique ι L) (tables : PresenceTables ι) (i : ι) (s : NodeState) : Prop where
  entry : ∀ j, j ≠ i → s.connections.get (M.node j).id = some (M.conn i j)
  label : ∀ nodeId conn, s.connections.get nodeId = some conn → conn.peerNodeId = nodeId
  presence : s.storage.presenceTable = tables i

/-- Sending to the other nodes succeeds, and dialling gives who was expected. -/
structure Reaches (M : Clique ι L) (i : ι) (env : Env) : Prop where
  wsSend : ∀ t j frame, j ≠ i → env.wsSend t (M.conn i j) frame = .ok ()
  dial : ∀ t nodeId address conn, env.dial t (some nodeId) address = .ok conn →
    conn.peerNodeId = nodeId

/-- A node that is connected is told so, and what a routing may do leaves it
connected. -/
theorem Connected.handler {env : Env} (he : M.Reaches i env) {q : Req} {w : World}
    (hq : M.Guard tables cellId pkt i q) (h : M.Connected tables i w.state) :
    M.Told tables i q (env.handler q w).1 ∧ M.Connected tables i (env.handler q w).2.state := by
  cases q with
  | store op =>
    cases op with
    | getPresence c =>
      refine ⟨?_,h⟩
      change w.state.storage.presenceTable.find c = _
      rw [h.presence]
    | updatePresence _ _ _ => exact hq.elim
    | _ => exact ⟨trivial,h.entry,h.label,h.presence⟩
  | connGet nodeId =>
    refine ⟨⟨fun j hj hn => ?_,fun conn hc => h.label nodeId conn hc⟩,h⟩
    subst hn
    exact h.entry j hj
  | connAdd conn =>
    refine ⟨trivial,fun j hj => ?_,fun nodeId c hc => ?_,h.presence⟩
    · change (w.state.connections.add conn).get _ = _
      rw [ConnectionRegistry.get_add,if_neg (fun hn => hq j hj hn.symm)]
      exact h.entry j hj
    · change (w.state.connections.add conn).get nodeId = some c at hc
      rw [ConnectionRegistry.get_add] at hc
      split at hc
      · rename_i hn
        cases hc
        exact hn.symm
      · exact h.label nodeId c hc
  | connRemove nodeId =>
    refine ⟨trivial,fun j hj => ?_,fun k c hc => ?_,h.presence⟩
    · change (w.state.connections.remove nodeId).get _ = _
      rw [ConnectionRegistry.get_remove,if_neg (fun hn => hq j hj hn.symm)]
      exact h.entry j hj
    · change (w.state.connections.remove nodeId).get k = some c at hc
      rw [ConnectionRegistry.get_remove] at hc
      split at hc
      · cases hc
      · exact h.label k c hc
  | wsSend conn frame =>
    refine ⟨fun j hj hc => ?_,h⟩
    subst hc
    exact he.wsSend w.step j frame hj
  | dial expected address =>
    refine ⟨fun nodeId conn hn hc => ?_,h⟩
    subst hn
    exact he.dial w.step nodeId address conn hc
  | _ => exact ⟨trivial,h⟩

theorem run_told {n : String} (ha : parseAddr pkt.toAddr = .ok (some cellId,n))
    (hcell : ∀ j, cellId ≠ (M.node j).id) (hp : Resigned pkt p) {env : Env}
    (he : M.Reaches i env) {w : World} (h : M.Connected tables i w.state) :
    (∀ e ∈ (run env.handler (Router.route (M.node i) p) w).trace, M.Told tables i e.1 e.2) ∧
      M.Connected tables i (run env.handler (Router.route (M.node i) p) w).final.state := by
  have hguard : Obeys (M.Guard tables cellId pkt i) (M.Told tables i) (fun _ => True)
      (Router.route (M.node i) p) := route_guard ha hcell hp
  exact ⟨hguard.run_relied env.handler (fun w => M.Connected tables i w.state)
      (fun _ _ hq hw => hw.handler he hq) h,
    hguard.run_inv env.handler (fun w => M.Connected tables i w.state)
      (fun _ _ hq hw => hw.handler he hq) h⟩

/-- What is sent to another node is routed there, as the same packet up to its
signature. -/
theorem accepted_wireForm (hpl : L.PackLaws) (hsl : L.SigLaws) {signed : Packet} {frame : Bytes}
    (hw : Transport.wireForm (M.node i) pkt = .ok (signed,frame)) (j : ι) :
    accepted L (M.conn j i).peerSigningPubkey frame = some signed ∧ Resigned pkt signed := by
  obtain ⟨hs,hf⟩ := wireForm_ok hw
  rw [M.peerKey]
  exact ⟨accepted_of_signed hpl hsl hs hf,resigned_of_sign hs⟩

end Routing

theorem handleFrame_msg (self : Node L) {conn : PeerConnection} {frame : Bytes} {q : Packet}
    (hacc : accepted L conn.peerSigningPubkey frame = some q) (hmsg : q.type = .str T.msg) :
    Transport.handleFrame L (Node.dispatch self) conn frame =
      (Router.route self q).rescue (fun _ => .ret ()) := by
  obtain ⟨hu,hv⟩ := accepted_eq_some.mp hacc
  rw [Transport.handleFrame_readable ⟨q,true,hu,hv⟩,hacc,← dispatch_msg conn hmsg]
  rfl

section Visits

variable {M : Clique ι L} {tables : PresenceTables ι} {cellId n : String} {start : ι}
  {pkt : Packet}

/-- The visited nodes follow on each other, and so does every node the packet has
been sent to. -/
theorem Visits.follow (hpl : L.PackLaws) (hsl : L.SigLaws)
    (ha : parseAddr pkt.toAddr = .ok (some cellId,n)) (hcell : ∀ j, cellId ≠ (M.node j).id)
    {visited : List ι} {q : Packet} {tr : List (Exchange Req Ans)}
    (h : M.Visits tables start pkt visited q tr) :
    Resigned pkt q ∧ (∃ rest, visited.reverse = start :: rest) ∧
      visited.IsChain (fun j i => M.Leads tables cellId pkt i j) ∧
      ∀ i ∈ visited.head?, ∀ e ∈ tr, M.Guard tables cellId pkt i e.1 := by
  induction h with
  | inject hpath htold =>
    refine ⟨.refl pkt,⟨[],rfl⟩,List.isChain_singleton _,?_⟩
    rintro i hi
    cases hi
    exact ((route_guard ha hcell (.refl pkt)).path hpath htold).1
  | @hop i j visited q q' tr tr' frame p hv hij hsent hacc hmsg hpath htold ih =>
    obtain ⟨hq,⟨rest,hrest⟩,hchain,hguard⟩ := ih
    obtain ⟨hnames,signed,hw⟩ := hguard i rfl _ hsent j hij rfl
    obtain ⟨hsigned,hres⟩ := accepted_wireForm hpl hsl hw j
    rw [hsigned] at hacc
    cases hacc
    refine ⟨hres,⟨rest ++ [j],by rw [List.reverse_cons,hrest]; rfl⟩,
      List.isChain_cons_cons.mpr ⟨⟨hnames,q',frame,hw⟩,hchain⟩,?_⟩
    rintro k hk
    cases hk
    exact ((route_guard ha hcell hres).path hpath htold).1

theorem exists_visits (hpl : L.PackLaws) (hsl : L.SigLaws)
    (ha : parseAddr pkt.toAddr = .ok (some cellId,n)) (hmsg : pkt.type = .str T.msg)
    {way : ℕ → ι} (hstart : way 0 = start)
    (hway : ∀ k, M.Leads tables cellId pkt (way k) (way (k+1))) (k : ℕ) :
    ∃ q tr signed frame,
      M.Visits tables start pkt (way k :: (List.range k).reverse.map way) q tr ∧ Resigned pkt q ∧
      (⟨.wsSend (M.conn (way k) (way (k+1))) frame,.ok ()⟩ : Exchange Req Ans) ∈ tr ∧
      Transport.wireForm (M.node (way k)) pkt = .ok (signed,frame) := by
  induction k with
  | zero =>
    obtain ⟨tr,signed,frame,hpath,htold,hmem,hw⟩ := exists_path_route ha (.refl pkt) (hway 0)
    rw [hstart] at hpath htold
    refine ⟨pkt,tr,signed,frame,?_,.refl pkt,hmem,hw⟩
    rw [hstart]
    exact .inject hpath htold
  | succ k ih =>
    obtain ⟨q,tr,signed,frame,hv,hq,hmem,hw⟩ := ih
    obtain ⟨hacc,hres⟩ := accepted_wireForm hpl hsl hw (way (k+1))
    have htype : signed.type = .str T.msg := hres.type.trans hmsg
    obtain ⟨tr',signed',frame',hpath,htold,hmem',hw'⟩ := exists_path_route ha hres (hway (k+1))
    have hrange : (List.range (k+1)).reverse.map way = way k :: (List.range k).reverse.map way := by
      simp [List.range_succ]
    rw [hrange]
    exact ⟨signed,tr',signed',frame',.hop hv (hway k).1.1 hmem hacc htype hpath htold,hres,hmem',
      hw'⟩

/-- The packet is routed at most once at each node, and so at most as often as
there are nodes, if and only if the rows from the first node on come to an end. -/
theorem loopFree_iff [Fintype ι] (hpl : L.PackLaws) (hsl : L.SigLaws) (M : Clique ι L)
    (tables : PresenceTables ι) (start : ι) {pkt : Packet} (hmsg : pkt.type = .str T.msg)
    (ha : parseAddr pkt.toAddr = .ok (some cellId,n)) (hcell : ∀ j, cellId ≠ (M.node j).id) :
    (∀ visited q tr, M.Visits tables start pkt visited q tr →
      visited.Nodup ∧ visited.length ≤ Fintype.card ι) ↔
    M.ComesToEnd tables cellId pkt start := by
  constructor
  · intro h
    by_contra hend
    obtain ⟨way,hstart,hway⟩ := not_acc_iff_exists_descending_chain.mp hend
    obtain ⟨q,tr,_,_,hv,_⟩ := exists_visits hpl hsl ha hmsg hstart hway (Fintype.card ι)
    have hlen := (h _ q tr hv).2
    simp at hlen
  · intro hend visited q tr hv
    obtain ⟨_,⟨rest,hrest⟩,hchain,_⟩ := hv.follow hpl hsl ha hcell
    have hnodup : visited.Nodup := by
      rw [← List.nodup_reverse,hrest]
      refine nodup_of_acc hend ?_
      rw [← hrest,List.isChain_reverse]
      exact hchain
    exact ⟨hnodup,hnodup.length_le_card⟩

end Visits

end Clique

/-- Two nodes. -/
def sampleClique : Clique Bool shortSigLib where
  node := fun i => ⟨sampleIdentity shortSigLib (if i then 2 else 1),false⟩
  conn := fun i j =>
    let peer := sampleIdentity shortSigLib (if j then 2 else 1)
    ⟨0,peer.id,peer.signing.pub,.none,(sampleIdentity shortSigLib (if i then 2 else 1)).id⟩
  peerId := fun _ _ => rfl
  peerKey := fun _ _ => rfl
  id_injective := by decide +kernel

/-- Each of the two nodes has the given one as the home of cell `c`. -/
def homeTables (home : Bool → Bool) : PresenceTables Bool :=
  fun i => (Storage.empty.updatePresence 0 "c" (sampleClique.node (home i)).id none).presenceTable

theorem sampleClique_leads (home : Bool → Bool) (i : Bool) (h : home i ≠ i) :
    sampleClique.Leads (homeTables home) "c" (samplePacket "c@n") i (home i) := by
  have hok : ∀ j, (Transport.wireForm (sampleClique.node j) (samplePacket "c@n")).isOk = true := by
    decide +kernel
  obtain ⟨⟨signed,frame⟩,hw⟩ := exists_ok (hok i)
  exact ⟨⟨h,_,rfl,.inr ⟨by simp [Router.visiting],rfl⟩⟩,signed,frame,hw⟩

/-- Both nodes have the second one as the home of the cell. -/
theorem loopFree_sample :
    (∀ visited q tr, sampleClique.Visits (homeTables (fun _ => true)) false (samplePacket "c@n")
      visited q tr → visited.Nodup ∧ visited.length ≤ Fintype.card Bool) ↔
    sampleClique.ComesToEnd (homeTables (fun _ => true)) "c" (samplePacket "c@n") false :=
  Clique.loopFree_iff (n := "n") (sampleLib_packLaws digest32) shortSigLib_sigLaws sampleClique
    (homeTables (fun _ => true)) false rfl (by decide +kernel) (by decide +kernel)

/-- Each of the two nodes takes the other one for the home of the cell, and the
packet comes back to where it was injected. -/
theorem packet_circles :
    (∃ q tr, sampleClique.Visits (homeTables (!·)) false (samplePacket "c@n") [false,true,false] q tr) ∧
    ¬ ∀ visited q tr, sampleClique.Visits (homeTables (!·)) false (samplePacket "c@n") visited q tr →
      visited.Nodup ∧ visited.length ≤ Fintype.card Bool := by
  have haddr : parseAddr (samplePacket "c@n").toAddr = .ok (some "c","n") := by decide +kernel
  have hway : ∀ k : ℕ, sampleClique.Leads (homeTables (!·)) "c" (samplePacket "c@n")
      ((!·)^[k] false) ((!·)^[k+1] false) := by
    intro k
    rw [Function.iterate_succ_apply']
    exact sampleClique_leads (!·) _ (Bool.not_ne_self _)
  obtain ⟨q,tr,_,_,hv,_⟩ := Clique.exists_visits (sampleLib_packLaws digest32) shortSigLib_sigLaws
    haddr rfl rfl hway 2
  refine ⟨⟨q,tr,hv⟩,fun h => ?_⟩
  have hlen := (h _ q tr hv).2
  simp at hlen

end Nevod
