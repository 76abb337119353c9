import Nevod.Silence
import Nevod.Merge

/-!
A network of nodes. A node that joins enters its bootstrap node in its own table,
and becomes known to it only by a GOSSIP that lists it.
-/

set_option autoImplicit false

namespace Nevod
open Text Resume Keyed Running

variable {L : Lib} {ι ν : Type}

namespace Network

/-- The tasks of all nodes, over the states of the nodes. -/
def rules [DecidableEq ν] (self : ν → Node L) :
    Rules (ν × ι) Req Ans Err Unit (ν → NodeState) where
  answer := fun s w q a w' => ∃ v, (w s.1).Answers q a v ∧ w' = Function.update w s.1 v
  start := fun s w p w' => Runs (self s.1) p ∧ w' = w
  drift := fun _ _ => False

def initial (w : ν → NodeState) : Pool (ν × ι) Req Ans Err Unit (ν → NodeState) :=
  ⟨fun _ => .ret (),fun _ => [],fun _ => .ret (),w⟩

/-- The table of node `i` has a row with this id. -/
def Knows (w : ν → NodeState) (i : ν) (id : String) : Prop :=
  (w i).storage.nodeTable.find (.text id) ≠ none

/-- Neither of the two nodes loses its row in the table of the other. -/
def Retains (self : ν → Node L) (n b : ν) (w w' : ν → NodeState) : Prop :=
  (Knows w b (self n).id → Knows w' b (self n).id) ∧
    (Knows w n (self b).id → Knows w' n (self b).id)

/-- The rules for runs in which no step takes one of these two rows out. -/
def retaining [DecidableEq ν] (self : ν → Node L) (n b : ν) :
    Rules (ν × ι) Req Ans Err Unit (ν → NodeState) :=
  { rules self with
    answer := fun s w q a w' => (rules (ι := ι) self).answer s w q a w' ∧ Retains self n b w w' }

/-- The node `k` was found in the table, or was entered. -/
def Known (k : SqlText) (past : List (Exchange Req Ans)) : Prop :=
  (∃ row, (⟨.store (.getNode k),some row⟩ : Exchange Req Ans) ∈ past) ∨
    ∃ row, row.nodeId = k ∧ (⟨.store (.upsertNode row),()⟩ : Exchange Req Ans) ∈ past

/-- A row that `handle_gossip` takes notice of. -/
def Named (r : NodeRow) : Prop := r.nodeId.toVal.truthy = true ∧ r.address.toVal.truthy = true

section Exchanges

variable {past : List (Exchange Req Ans)}

theorem Known.mono {k : SqlText} {later : List (Exchange Req Ans)} (h : Known k past)
    (hs : past ⊆ later) : Known k later := by
  rcases h with ⟨row,hmem⟩ | ⟨row,hid,hmem⟩
  · exact .inl ⟨row,hs hmem⟩
  · exact .inr ⟨row,hid,hs hmem⟩

theorem putNode_known {entry : NodeEntry} {k : SqlText}
    (hk : SqlText.ofVal L.realText entry.nodeId = .ok (some k)) :
    Heeds (fun _ _ => True) (fun _ _ => True) (fun later _ => past ⊆ later ∧ Known k later) past
      (Storage.putNode L entry) := by
  unfold Storage.putNode
  refine (heeds_extends (Storage.addedAt entry)).bind (fun later added hl => ?_)
  cases hb : Storage.bindNode L entry added with
  | error e => trivial
  | ok row =>
    cases row with
    | none => simp [bindNode_none hb] at hk
    | some row =>
      have hkey := (bindNode_ok hb).nodeId
      rw [hk] at hkey
      simp only [Except.ok.injEq,Option.some.injEq] at hkey
      exact ⟨trivial,fun _ _ => ⟨fun e he => by simp [hl he],.inr ⟨row,hkey.symm,by simp⟩⟩⟩

theorem safe_putNode {entry : NodeEntry} {row : Int → NodeRow}
    (hb : ∀ added, Storage.bindNode L entry added = .ok (some (row added))) :
    (Storage.putNode L entry).Safe := by
  have hadded : (Storage.addedAt entry).Safe := by
    unfold Storage.addedAt
    split
    · exact fun _ => trivial
    · trivial
  unfold Storage.putNode
  refine hadded.bind (fun added => ?_)
  rw [hb added]
  exact fun _ => trivial

theorem bindNode_listed (r : NodeRow) (lastSeen addedAt added : Int) :
    Storage.bindNode L (learntEntry r.nodeId.toVal r.address.toVal r.type.toVal r.access.toVal
      lastSeen addedAt) added =
      .ok (some ⟨r.nodeId,r.address,r.type,r.access,[],"",lastSeen,0,"online",added⟩) := by
  simp [Storage.bindNode,bind,Except.bind,pure,Except.pure]

theorem learnNode_known (r : NodeRow) :
    Heeds (fun _ _ => True) (fun _ _ => True)
      (fun later _ => past ⊆ later ∧ Known r.nodeId later) past
      (GossipEngine.learnNode L r.toDict r.nodeId.toVal r.address.toVal) := by
  unfold GossipEngine.learnNode
  rw [NodeRow.toDict_type,NodeRow.toDict_access]
  refine ⟨trivial,fun lastSeen _ => ⟨trivial,fun addedAt _ => ?_⟩⟩
  refine (putNode_known (SqlText.ofVal_toVal L.realText r.nodeId)).bind (fun later _ hl => ?_)
  rw [SqlText.slice_toVal]
  exact ⟨fun e he => hl.1 (by simp [he]),hl.2⟩

theorem safe_learnNode (r : NodeRow) :
    (GossipEngine.learnNode L r.toDict r.nodeId.toVal r.address.toVal).Safe := by
  unfold GossipEngine.learnNode
  rw [NodeRow.toDict_type,NodeRow.toDict_access]
  refine fun lastSeen addedAt => ?_
  refine (safe_putNode (bindNode_listed r lastSeen addedAt)).bind (fun _ => ?_)
  rw [SqlText.slice_toVal]
  trivial

theorem mergeNode_known (r : NodeRow) :
    Heeds (fun _ _ => True) (fun _ _ => True)
      (fun later _ => past ⊆ later ∧ (Named r → Known r.nodeId later)) past
      (GossipEngine.mergeNode L r.toDict) := by
  unfold GossipEngine.mergeNode
  simp only [NodeRow.toDict_nodeId,NodeRow.toDict_address,Prog.ofExcept_ok,Prog.bind_eq,
    Prog.bind_ret]
  split
  · rename_i hunnamed
    refine ⟨fun _ he => he,fun hn => ?_⟩
    simp [hn.1,hn.2] at hunnamed
  · unfold Storage.getNode
    rw [SqlText.ofVal_toVal]
    refine ⟨trivial,fun found _ => ?_⟩
    cases found with
    | some row => exact ⟨by simp,fun _ => .inl ⟨row,by simp⟩⟩
    | none => exact (learnNode_known r).mono (fun later _ hl => ⟨fun e he => hl.1 (by simp [he]),
        fun _ => hl.2⟩)

theorem safe_mergeNode (r : NodeRow) : (GossipEngine.mergeNode L r.toDict).Safe := by
  unfold GossipEngine.mergeNode
  simp only [NodeRow.toDict_nodeId,NodeRow.toDict_address,Prog.ofExcept_ok,Prog.bind_eq,
    Prog.bind_ret]
  split
  · trivial
  · unfold Storage.getNode
    rw [SqlText.ofVal_toVal]
    intro found
    cases found with
    | some row => trivial
    | none => exact safe_learnNode r

theorem mergeAll_known (past : List (Exchange Req Ans)) (rows : List NodeRow) :
    Heeds (fun _ _ => True) (fun _ _ => True)
      (fun later _ => past ⊆ later ∧ ∀ r ∈ rows, Named r → Known r.nodeId later) past
      (Prog.forEach (rows.map NodeRow.toDict) (GossipEngine.mergeNode L)) := by
  induction rows generalizing past with
  | nil => exact ⟨fun _ he => he,by simp⟩
  | cons r rows ih =>
    refine (mergeNode_known r).bind (fun later _ hl => ?_)
    refine (ih later).mono (fun last _ hlast => ⟨fun e he => hlast.1 (hl.1 he),fun s hs hn => ?_⟩)
    rcases List.mem_cons.mp hs with rfl | hs
    · exact (hl.2 hn).mono hlast.1
    · exact hlast.2 s hs hn

theorem safe_mergeAll (rows : List NodeRow) :
    (Prog.forEach (rows.map NodeRow.toDict) (GossipEngine.mergeNode L)).Safe := by
  induction rows with
  | nil => trivial
  | cons r rows ih => exact (safe_mergeNode r).bind (fun _ => ih)

/-- What is read from a frame that lists rows. -/
theorem IsGossip.listed (hp : L.PackLaws) {sender : Node L} {rows : List NodeRow} {frame : Bytes}
    (h : IsGossip sender rows frame) : ∃ pkt, unpack L frame = .ok pkt ∧
      pkt.type = .str T.gossip ∧
      GossipEngine.remoteNodes L pkt = .ok (.arr (rows.map NodeRow.toDict)) := by
  obtain ⟨st,g,signed,hg,hw⟩ := h
  have hnodes := remoteNodes_makeGossip hp hg
  obtain ⟨payload,_,rfl⟩ := makeEncoded_ok hg
  obtain ⟨hu,s,rfl⟩ := unpack_wireForm hp hw
  exact ⟨_,hu,rfl,hnodes⟩

theorem dispatch_isGossip (hp : L.PackLaws) {self : Node L} {sender : Node L}
    {rows : List NodeRow} {frame : Bytes} {pkt : Packet} (conn : PeerConnection)
    (h : IsGossip sender rows frame) (hpkt : unpack L frame = .ok pkt) :
    Node.dispatch self pkt conn =
      Prog.forEach (rows.map NodeRow.toDict) (GossipEngine.mergeNode L) := by
  obtain ⟨g,hu,hty,hnodes⟩ := h.listed hp
  rw [hpkt] at hu
  cases hu
  rw [dispatch_gossip conn hty,gossip_listed hnodes]

theorem join_known (address : String) :
    Heeds (fun _ _ => True) (fun _ _ => True) (fun later _ => ∀ a conn,
        (⟨.dial none a,.ok conn⟩ : Exchange Req Ans) ∈ later → Known (.text conn.peerNodeId) later)
      [] (Node.join L address) := by
  unfold Node.join Transport.connect
  split
  · trivial
  · refine ⟨trivial,fun dialled _ => ?_⟩
    cases dialled with
    | error e => trivial
    | ok conn =>
      refine ⟨trivial,fun _ _ => ⟨trivial,fun _ _ => ⟨trivial,fun _ _ => ⟨trivial,fun _ _ => ?_⟩⟩⟩⟩
      refine ((putNode_known rfl).and putNode_puts.exchanged).mono
        (fun later _ hl a peer hmem => ?_)
      obtain ⟨⟨_,hk⟩,hall⟩ := hl
      rcases hall _ hmem with hmem | hno
      · simp only [List.nil_append,List.cons_append,List.mem_cons,List.not_mem_nil,or_false] at hmem
        rcases hmem with h | h | h | h | h
        all_goals cases h
        exact hk
      · rcases hno with he | ⟨_,_,he⟩ <;> cases he

/-- What the gossip loop sends is a PING, or a GOSSIP of rows it has read. -/
def Tells (self : Node L) (past : List (Exchange Req Ans)) : Req → Prop
  | .wsSend _ frame => (∃ k, IsPing self k frame) ∨
      ∃ rows, (⟨.store .getAllNodes,rows⟩ : Exchange Req Ans) ∈ past ∧ IsGossip self rows frame
  | _ => True

theorem turn_tells {self : Node L} :
    Heeds (Tells self) (fun _ _ => True) (fun _ _ => True) [] (GossipEngine.turn self) := by
  refine GossipEngine.turn_turns.mono_guard (fun later q hq => ?_)
  unfold Tells
  split
  · exact hq
  · trivial

end Exchanges

theorem isPing_type (hp : L.PackLaws) {self : Node L} {k : SqlText} {frame : Bytes}
    {pkt : Packet} (h : IsPing self k frame) (hpkt : unpack L frame = .ok pkt) :
    pkt.type = .str T.ping := by
  obtain ⟨st,signed,hw⟩ := h
  obtain ⟨hu,s,rfl⟩ := unpack_wireForm hp hw
  rw [hu] at hpkt
  cases hpkt
  rfl

section Runs

variable [DecidableEq ι] [DecidableEq ν] {self : ν → Node L} {n b : ν}

/-- Slot `i` of node `n` joins the network via node `b`. -/
def Joins (self : ν → Node L) (n b : ν) (i : ι)
    (P P' : Pool (ν × ι) Req Ans Err Unit (ν → NodeState)) : Prop :=
  ∃ address a conn, Pool.Executes (Pool.Step (retaining self n b)) (n,i) (Node.join L address) P P' ∧
    P'.tasks (n,i) = .ret () ∧ (⟨.dial none a,.ok conn⟩ : Exchange Req Ans) ∈ P'.history (n,i) ∧
    conn.peerNodeId = (self b).id

/-- A turn of the gossip loop of node `n` has sent this frame. -/
def HasSent (self : ν → Node L) (n : ν) (i : ι) (frame : Bytes)
    (P : Pool (ν × ι) Req Ans Err Unit (ν → NodeState)) : Prop :=
  P.launched (n,i) = GossipEngine.turn (self n) ∧
    ∃ conn, (⟨.wsSend conn frame,.ok ()⟩ : Exchange Req Ans) ∈ P.history (n,i)

/-- The table the frame was made of had a row of node `n` itself, with an address. -/
def TellsItself (self : ν → Node L) (n : ν) (i : ι) (frame : Bytes)
    (P : Pool (ν × ι) Req Ans Err Unit (ν → NodeState)) : Prop :=
  ∀ rows, (⟨.store .getAllNodes,rows⟩ : Exchange Req Ans) ∈ P.history (n,i) →
    IsGossip (self n) rows frame → ∃ r ∈ rows, r.nodeId = .text (self n).id ∧ Named r

theorem step_of_retaining {P P' : Pool (ν × ι) Req Ans Err Unit (ν → NodeState)}
    (h : Pool.Step (retaining self n b) P P') : Pool.Step (rules self) P P' ∧
      Retains self n b P.world P'.world := by
  cases h with
  | answer i q k a w ht h => exact ⟨.answer i q k a w ht h.1,h.2⟩
  | start i p w ht h =>
    obtain ⟨hr,rfl⟩ := h
    exact ⟨.start i p _ ht ⟨hr,rfl⟩,id,id⟩
  | drift w h => exact h.elim

theorem find_of_known {q : Req} {a : Ans q} {k : SqlText} {w w' : NodeState}
    (h : w.Answers q a w') (hk : Known k [⟨q,a⟩]) : w'.storage.nodeTable.find k ≠ none := by
  rcases hk with ⟨row,hmem⟩ | ⟨row,rfl,hmem⟩
  · simp only [List.mem_singleton] at hmem
    cases hmem
    obtain ⟨now,hfind,rfl⟩ := h
    simp only [Storage.exec] at hfind ⊢
    simp [← hfind]
  · simp only [List.mem_singleton] at hmem
    cases hmem
    obtain ⟨now,_,rfl⟩ := h
    simp only [Storage.exec,Storage.upsertNode,Table.find_upsert]
    simp

theorem known_snoc {k : SqlText} {past : List (Exchange Req Ans)} {e : Exchange Req Ans}
    (h : Known k (past ++ [e])) : Known k past ∨ Known k [e] := by
  rcases h with ⟨row,hmem⟩ | ⟨row,hid,hmem⟩
  · rcases List.mem_append.mp hmem with hmem | hmem
    · exact .inl (.inl ⟨row,hmem⟩)
    · exact .inr (.inl ⟨row,hmem⟩)
  · rcases List.mem_append.mp hmem with hmem | hmem
    · exact .inl (.inr ⟨row,hid,hmem⟩)
    · exact .inr (.inr ⟨row,hid,hmem⟩)

/-- What a slot has found or entered stays in the table of its node. -/
theorem known_of_executes {s : ν × ι} {id : String} {p : NodeProg Unit}
    {P P' : Pool (ν × ι) Req Ans Err Unit (ν → NodeState)}
    (hkeep : ∀ w w', Retains self n b w w' → Knows w s.1 id → Knows w' s.1 id)
    (h : Pool.Executes (Pool.Step (retaining self n b)) s p P P') :
    Path p (P'.history s) (P'.tasks s) ∧ (Known (.text id) (P'.history s) → Knows P'.world s.1 id) := by
  have htrack := h.track (R := retaining self n b)
    (Φ := fun past w => Known (.text id) past → Knows w s.1 id) (fun _ _ hs => hs) ?_ ?_ ?_
  · exact htrack.2
  · rintro (⟨row,hmem⟩ | ⟨row,_,hmem⟩)
    · simp at hmem
    · simp at hmem
  · rintro P1 q k a w _ _ ⟨⟨v,hans,rfl⟩,hret⟩ hold hknown
    rcases known_snoc hknown with hknown | hknown
    · exact hkeep _ _ hret (hold hknown)
    · have hfind := find_of_known hans hknown
      simpa [Knows] using hfind
  · exact fun P1 P2 _ hs hold hknown => hkeep _ _ (step_of_retaining hs).2 (hold hknown)

theorem retains_steps {P P' : Pool (ν × ι) Req Ans Err Unit (ν → NodeState)}
    (h : Pool.Steps (retaining self n b) P P') : Retains self n b P.world P'.world := by
  induction h with
  | refl => exact ⟨id,id⟩
  | tail _ hs ih =>
    have hone := (step_of_retaining hs).2
    exact ⟨fun hk => hone.1 (ih.1 hk),fun hk => hone.2 (ih.2 hk)⟩

theorem Joins.knows {i : ι} {P P' : Pool (ν × ι) Req Ans Err Unit (ν → NodeState)}
    (h : Joins self n b i P P') : Knows P'.world n (self b).id := by
  obtain ⟨address,a,conn,hexec,hret,hmem,hpeer⟩ := h
  obtain ⟨hpath,hknown⟩ := known_of_executes (s := (n,i)) (fun _ _ hr => hr.2) hexec
  have hpost := ((join_known address).path hpath (fun _ _ => trivial)).2
  rw [hret] at hpost
  refine hknown ?_
  rw [← hpeer]
  exact hpost a conn (by simpa using hmem)

theorem knows_of_gossip (hp : L.PackLaws) {i : ι} {rows : List NodeRow} {frame : Bytes}
    {pkt : Packet} {conn : PeerConnection}
    {P P' : Pool (ν × ι) Req Ans Err Unit (ν → NodeState)} (hg : IsGossip (self n) rows frame)
    (hpkt : unpack L frame = .ok pkt)
    (hself : ∃ r ∈ rows, r.nodeId = .text (self n).id ∧ Named r)
    (h : Pool.Executes (Pool.Step (retaining self n b)) (b,i) (Node.dispatch (self b) pkt conn)
      P P') : Knows P'.world b (self n).id := by
  obtain ⟨hpath,hknown⟩ := known_of_executes (s := (b,i)) (fun _ _ hr => hr.1) h
  rw [dispatch_isGossip hp conn hg hpkt] at hpath
  have hpost := ((mergeAll_known [] rows).path hpath (fun _ _ => trivial)).2
  obtain ⟨u,ht⟩ := (hpath.safe (safe_mergeAll rows)).exists_ret h.done
  rw [ht] at hpost
  obtain ⟨r,hr,hid,hn⟩ := hself
  have hk := hpost.2 r hr hn
  exact hknown (by simpa [hid] using hk)

/-- What a node sends that is read as a GOSSIP is made of rows it has read. -/
theorem HasSent.isGossip (hp : L.PackLaws) {w : ν → NodeState} {j : ι} {frame : Bytes}
    {pkt : Packet} {P : Pool (ν × ι) Req Ans Err Unit (ν → NodeState)}
    (hP : Pool.Steps (rules self) (initial w) P) (h : HasSent self n j frame P)
    (hpkt : unpack L frame = .ok pkt) (hty : pkt.type = .str T.gossip) :
    ∃ rows, (⟨.store .getAllNodes,rows⟩ : Exchange Req Ans) ∈ P.history (n,j) ∧
      IsGossip (self n) rows frame := by
  obtain ⟨hl,conn,hmem⟩ := h
  have hon : (initial w : Pool (ν × ι) Req Ans Err Unit (ν → NodeState)).OnPath := fun _ => .here _
  have hpath := hon.steps hP (n,j)
  rw [hl] at hpath
  obtain ⟨tr1,tr2,htr⟩ := List.append_of_mem hmem
  have htells := (turn_tells.path hpath (fun _ _ => trivial)).1 tr1 _ tr2 htr
  rcases htells with ⟨k,hping⟩ | ⟨rows,hrows,hg⟩
  · have hpong := isPing_type hp hping hpkt
    rw [hty] at hpong
    simp [T.gossip,T.ping] at hpong
  · exact ⟨rows,by rw [htr]; exact List.mem_append_left _ (by simpa using hrows),hg⟩

theorem steps_of_executes {s : ν × ι} {p : NodeProg Unit}
    {P P' : Pool (ν × ι) Req Ans Err Unit (ν → NodeState)}
    (h : Pool.Executes (Pool.Step (retaining self n b)) s p P P') :
    Pool.Steps (retaining self n b) P P' :=
  h.steps.lift id (fun _ _ hs => hs.1)

/-- A node that joins and then sends its table to its bootstrap node becomes known
to it if that table has a row of the node itself. -/
theorem joined_is_known (hp : L.PackLaws) {w : ν → NodeState} {i j k : ι} {frame : Bytes}
    {pkt : Packet} {conn : PeerConnection}
    {P P1 P2 P3 P4 P' : Pool (ν × ι) Req Ans Err Unit (ν → NodeState)}
    (hP : Pool.Steps (rules self) (initial w) P) (hjoin : Joins self n b i P P1)
    (h12 : Pool.Steps (retaining self n b) P1 P2) (hsent : HasSent self n j frame P2)
    (hpkt : unpack L frame = .ok pkt) (hty : pkt.type = .str T.gossip)
    (hself : TellsItself self n j frame P2 ∨ Knows P3.world b (self n).id)
    (h23 : Pool.Steps (retaining self n b) P2 P3)
    (hhandle : Pool.Executes (Pool.Step (retaining self n b)) (b,k)
      (Node.dispatch (self b) pkt conn) P3 P4)
    (h4 : Pool.Steps (retaining self n b) P4 P') :
    Knows P'.world b (self n).id ∧ Knows P'.world n (self b).id := by
  have h34 := steps_of_executes hhandle
  have hfrom1 := retains_steps (((h12.trans h23).trans h34).trans h4)
  refine ⟨?_,hfrom1.2 hjoin.knows⟩
  rcases hself with hself | hknows
  · have h01 : Pool.Steps (retaining self n b) P P1 := by
      obtain ⟨address,a,peer,hexec,_⟩ := hjoin
      exact steps_of_executes hexec
    have hP2 := hP.trans ((h01.trans h12).lift id (fun _ _ hs => (step_of_retaining hs).1))
    obtain ⟨rows,hrows,hg⟩ := hsent.isGossip hp hP2 hpkt hty
    have hhandled := knows_of_gossip hp hg hpkt (hself rows hrows hg) hhandle
    exact (retains_steps h4).1 hhandled
  · exact (retains_steps (h34.trans h4)).1 hknows

/-- The change loses none of the rows. -/
def keepsRows (ids : List String) (w w' : World) : Bool :=
  ids.all (fun id => (w.state.storage.nodeTable.find (.text id)).isNone ||
    (w'.state.storage.nodeTable.find (.text id)).isSome)

theorem retains_of_keepsRows {w : ν → NodeState} {m : ν} {u u' : World}
    (h : keepsRows [(self n).id,(self b).id] u u' = true) :
    Retains self n b (Function.update w m u.state) (Function.update w m u'.state) := by
  simp only [keepsRows,List.all_cons,List.all_nil,Bool.and_true,Bool.and_eq_true,Bool.or_eq_true,
    Option.isNone_iff_eq_none,Option.isSome_iff_ne_none] at h
  have hkeep : ∀ (i : ν) (id : String), (u.state.storage.nodeTable.find (.text id) = none ∨
      u'.state.storage.nodeTable.find (.text id) ≠ none) →
      Knows (Function.update w m u.state) i id → Knows (Function.update w m u'.state) i id := by
    intro i id hor hknows
    unfold Knows at hknows ⊢
    by_cases hi : i = m
    · subst hi
      simp only [Function.update_self] at hknows ⊢
      exact hor.resolve_left hknows
    · simpa [hi] using hknows
  exact ⟨hkeep b _ h.1,hkeep n _ h.2⟩

/-- A node executes a program from beginning to end, all others at rest, and loses
none of the two rows. -/
theorem executed (self : ν → Node L) (n b : ν) {i : ν} {j : ι} {p : NodeProg Unit} (env : Env)
    {P : Pool (ν × ι) Req Ans Err Unit (ν → NodeState)} (hd : (P.tasks (i,j)).Done)
    (hp : Runs (self i) p)
    (hok : env.handler.passes (keepsRows [(self n).id,(self b).id]) ⟨P.world i,0⟩
      (run env.handler p ⟨P.world i,0⟩).trace = true) :
    ∃ P1 P', Pool.Step (retaining self n b) P P1 ∧
      Pool.Executes (Pool.Step (retaining self n b)) (i,j) p P1 P' ∧
      P'.launched = Function.update P.launched (i,j) p ∧
      P'.history = Function.update P.history (i,j) (run env.handler p ⟨P.world i,0⟩).trace ∧
      P'.tasks = Function.update P.tasks (i,j)
        (.ofExcept (run env.handler p ⟨P.world i,0⟩).result) ∧
      P'.world = Function.update P.world i (run env.handler p ⟨P.world i,0⟩).final.state := by
  have hallow := Rules.allows_run (R := retaining self n b) (i := (i,j))
    env.handler (fun u => Function.update P.world i u.state) _ (fun q u hu => ?_) p ⟨P.world i,0⟩ hok
  · rw [Function.update_eq_self] at hallow
    exact Pool.exists_execution (R := retaining self n b) (Pool.Step (retaining self n b)) hd
      (show Runs (self i) p ∧ P.world = P.world from ⟨hp,rfl⟩) (run_path env.handler p ⟨P.world i,0⟩)
      (Prog.done_ofExcept _) hallow (fun _ _ hs _ _ => hs)
  · refine ⟨⟨_,?_,by rw [Function.update_idem]⟩,retains_of_keepsRows hu⟩
    simpa using NodeState.answers_handler env q u

end Runs

/-- The genesis node has registered itself; every other node starts with an empty
table. -/
def founded [DecidableEq ν] (env : Env) (self : ν → Node L) (g : ν) (address access : String)
    (i : ν) : NodeState :=
  let empty : NodeState := ⟨Storage.empty,ConnectionRegistry.empty⟩
  if i = g then (run env.handler (Node.createGenesis (self i) address access) ⟨empty,0⟩).final.state
  else empty

def sampleNodes (i : Bool) : Node shortSigLib :=
  ⟨sampleIdentity shortSigLib (if i then 2 else 1),false⟩

/-- A connection to the node `i`. -/
def sampleConn (i : Bool) : PeerConnection where
  ws := 1
  peerNodeId := (sampleNodes i).id
  peerSigningPubkey := (sampleNodes i).identity.signing.pub
  peerEncPubkey := .none
  localNodeId := (sampleNodes !i).id

/-- Dialling reaches the genesis node, which accepts the other one. -/
def joinEnv : Env :=
  { sampleEnv with dial := fun _ _ _ => .ok (sampleConn false),
                   accept := fun _ => .ok (sampleConn true) }

def sampleFounded : Bool → NodeState := founded joinEnv sampleNodes false "h:0" "open"

/-- The state after a program was executed alone. -/
def after (p : NodeProg Unit) (w : NodeState) : NodeState := (run joinEnv.handler p ⟨w,0⟩).final.state

/-- No row of the two nodes is lost on the way. -/
def keepsBoth (p : NodeProg Unit) (w : NodeState) : Bool :=
  joinEnv.handler.passes (keepsRows [(sampleNodes true).id,(sampleNodes false).id]) ⟨w,0⟩
    (run joinEnv.handler p ⟨w,0⟩).trace

def sentFrame : Exchange Req Ans → Option Bytes
  | ⟨.wsSend _ frame,.ok _⟩ => some frame
  | _ => none

theorem mem_of_sentFrame {tr : List (Exchange Req Ans)} {frame : Bytes}
    (h : frame ∈ tr.filterMap sentFrame) :
    ∃ conn, (⟨.wsSend conn frame,.ok ()⟩ : Exchange Req Ans) ∈ tr := by
  obtain ⟨e,he,hf⟩ := List.mem_filterMap.mp h
  unfold sentFrame at hf
  split at hf
  · cases hf
    exact ⟨_,he⟩
  · cases hf

def joinGenesis : NodeProg Unit := Node.join shortSigLib "h:0"

/-- What the node sends in its first turn after the join: a PING and this GOSSIP. -/
def sampleGossip (w : NodeState) : Bytes :=
  (((run joinEnv.handler (GossipEngine.turn (sampleNodes true)) ⟨after joinGenesis w,0⟩).trace.filterMap
    sentFrame).getLast?).getD []

/-- The packet that GOSSIP is read as. -/
def sampleHeard (w : NodeState) : Packet :=
  (unpack shortSigLib (sampleGossip w)).toOption.getD sampleRemove

/-- No row is lost when node `true`, in the state `w`, joins and takes a turn and the
genesis node accepts it and handles its GOSSIP. -/
def goesWell (w : NodeState) : Bool :=
  let turn := GossipEngine.turn (sampleNodes true)
  let frames := (run joinEnv.handler turn ⟨after joinGenesis w,0⟩).trace.filterMap sentFrame
  keepsBoth joinGenesis w && keepsBoth turn (after joinGenesis w) &&
    frames.contains (sampleGossip w) && (unpack shortSigLib (sampleGossip w)).isOk &&
    (sampleHeard w).type.eqStr T.gossip &&
    keepsBoth Transport.handleIncoming (sampleFounded false) &&
    keepsBoth (Node.dispatch (sampleNodes false) (sampleHeard w) (sampleConn true))
      (after Transport.handleIncoming (sampleFounded false))

/-- Node `true` joins via the genesis node, which accepts it, and sends its table;
the genesis node handles that packet. -/
theorem joins_and_gossips {w : NodeState}
    {P : Pool (Bool × Unit) Req Ans Err Unit (Bool → NodeState)} (hd : ∀ s, (P.tasks s).Done)
    (hw : P.world true = w) (hb : P.world false = sampleFounded false) (h : goesWell w = true)
    (hjoined : (run joinEnv.handler joinGenesis ⟨w,0⟩).result = .ok ())
    (hdial : (run joinEnv.handler joinGenesis ⟨w,0⟩).trace.head? =
      some ⟨.dial none "h:0",.ok (sampleConn false)⟩) :
    ∃ P0 P1 P2 P3 P', Pool.Steps (retaining sampleNodes true false) P P0 ∧
      Joins sampleNodes true false () P0 P1 ∧
      Pool.Steps (retaining sampleNodes true false) P1 P2 ∧
      HasSent sampleNodes true () (sampleGossip w) P2 ∧
      P2.history (true,()) = (run joinEnv.handler (GossipEngine.turn (sampleNodes true))
        ⟨after joinGenesis w,0⟩).trace ∧
      unpack shortSigLib (sampleGossip w) = .ok (sampleHeard w) ∧
      (sampleHeard w).type = .str T.gossip ∧
      Pool.Steps (retaining sampleNodes true false) P2 P3 ∧
      Pool.Executes (Pool.Step (retaining sampleNodes true false)) (false,())
        (Node.dispatch (sampleNodes false) (sampleHeard w) (sampleConn true)) P3 P' ∧
      P'.world false = after (Node.dispatch (sampleNodes false) (sampleHeard w) (sampleConn true))
        (after Transport.handleIncoming (sampleFounded false)) := by
  simp only [goesWell,Bool.and_eq_true,List.contains_iff_mem] at h
  obtain ⟨⟨⟨⟨⟨⟨hjoin,hturn⟩,hsent⟩,hread⟩,hty⟩,hin⟩,hhandle⟩ := h
  have hpkt : unpack shortSigLib (sampleGossip w) = .ok (sampleHeard w) := ok_toOption hread _
  obtain ⟨Q0,Q1,s0,hx0,_,_,ht1,hw1⟩ := executed sampleNodes true false joinEnv (hd (false,()))
    Runs.incoming (by rw [hb]; exact hin)
  obtain ⟨P0,P1,s1,hx1,_,hh2,ht2,hw2⟩ := executed sampleNodes true false (i := true) (j := ())
    (P := Q1) (p := joinGenesis) joinEnv (by simpa [ht1] using hd (true,())) (Runs.join "h:0")
    (by simpa [hw1,hw,keepsBoth] using hjoin)
  obtain ⟨Q2,P2,s2,hx2,hl3,hh3,ht3,hw3⟩ := executed sampleNodes true false (i := true) (j := ())
    (P := P1) (p := GossipEngine.turn (sampleNodes true)) joinEnv hx1.done Runs.turn
    (by simpa [hw2,hw1,hw,keepsBoth,after] using hturn)
  have hworld : P2.world false = after Transport.handleIncoming (sampleFounded false) := by
    simp [hw3,hw2,hw1,hb,after]
  obtain ⟨P3,P',s3,hx3,_,_,_,hw4⟩ := executed sampleNodes true false (i := false) (j := ())
    (P := P2) (p := Node.dispatch (sampleNodes false) (sampleHeard w) (sampleConn true)) joinEnv
    (by simpa [ht3,ht2] using hx0.done) (Runs.packet _ (sampleConn true))
    (by rw [hworld]; exact hhandle)
  have htrace : P2.history (true,()) = (run joinEnv.handler (GossipEngine.turn (sampleNodes true))
      ⟨after joinGenesis w,0⟩).trace := by
    simp [hh3,hw2,hw1,hw,after]
  refine ⟨P0,P1,P2,P3,P',?_,?_,?_,?_,htrace,hpkt,Val.eqStr_iff.mp hty,.single s3,hx3,
    by simp [hw4,hworld,after]⟩
  · exact .head s0 ((steps_of_executes hx0).tail s1)
  · refine ⟨"h:0","h:0",sampleConn false,hx1,?_,?_,rfl⟩
    · simp [ht2,hw1,hw,hjoined]
    · simpa [hh2,hw1,hw] using List.mem_of_mem_head? hdial
  · exact .head s2 (steps_of_executes hx2)
  · obtain ⟨conn,hmem⟩ := mem_of_sentFrame hsent
    exact ⟨by simp [hl3],conn,by rw [htrace]; exact hmem⟩

/-- What a third node says once the node "h:2" has let it in: it lists that node. -/
def sampleMention : Packet :=
  samplePeerPacket T.gossip (sampleEncode (.map [(.str "nodes",.arr [.map
    [(.str "node_id",.str (sampleNodes true).id),(.str "address",.str "h:2")]])]))

def sampleMentioned : NodeState :=
  after (Node.dispatch (sampleNodes true) sampleMention Registration.sampleOwner)
    (sampleFounded true)

def listsRow (id : String) : Exchange Req Ans → Bool
  | ⟨.store .getAllNodes,rows⟩ =>
    rows.any (fun r => r.nodeId == .text id && r.nodeId.toVal.truthy && r.address.toVal.truthy)
  | _ => true

theorem tellsItself_of_lists {self : ν → Node L} {n : ν} {i : ι} {frame : Bytes}
    {P : Pool (ν × ι) Req Ans Err Unit (ν → NodeState)}
    (h : (P.history (n,i)).all (listsRow (self n).id) = true) : TellsItself self n i frame P := by
  intro rows hmem _
  have hlist := List.all_eq_true.mp h _ hmem
  obtain ⟨r,hr,hrow⟩ := List.any_eq_true.mp hlist
  simp only [Bool.and_eq_true,beq_iff_eq] at hrow
  exact ⟨r,hr,hrow.1.1,hrow.1.2,hrow.2⟩

theorem joined_is_known_sample : ∃ P' : Pool (Bool × Unit) Req Ans Err Unit (Bool → NodeState),
    Pool.Steps (rules sampleNodes) (initial sampleFounded) P' ∧
      Knows P'.world false (sampleNodes true).id ∧ Knows P'.world true (sampleNodes false).id := by
  obtain ⟨Q,P,hs,hx,_,_,ht,hworld⟩ := executed sampleNodes true false (i := true) (j := ())
    (P := initial sampleFounded) joinEnv trivial (Runs.packet sampleMention Registration.sampleOwner)
    (by decide +kernel)
  have hP := (steps_of_executes hx).head hs
  have hd : ∀ s, (P.tasks s).Done := by
    intro s
    rw [ht]
    by_cases hs : s = (true,())
    · subst hs
      rw [Function.update_self]
      exact Prog.done_ofExcept _
    · rw [Function.update_of_ne hs]
      trivial
  obtain ⟨P0,P1,P2,P3,P',h0,hjoin,h12,hsent,hh,hpkt,hty,h23,hhandle,_⟩ := joins_and_gossips
    (w := sampleMentioned) hd (by rw [hworld]; rfl) (by rw [hworld]; rfl) (by decide +kernel) rfl rfl
  have hfrom := (hP.trans h0).lift id (fun _ _ hs => (step_of_retaining hs).1)
  have h1 : Pool.Steps (retaining sampleNodes true false) P0 P1 := by
    obtain ⟨address,a,peer,hexec,_⟩ := hjoin
    exact steps_of_executes hexec
  have hto := ((h1.trans h12).trans h23).trans (steps_of_executes hhandle)
  exact ⟨P',hfrom.trans (hto.lift id (fun _ _ hs => (step_of_retaining hs).1)),
    joined_is_known (sampleLib_packLaws digest32) hfrom hjoin h12 hsent hpkt
      hty (.inl (tellsItself_of_lists (by rw [hh]; decide +kernel))) h23 hhandle .refl⟩

/-- A node that has joined and sent its table to the genesis node, which has handled
it, is still unknown there: its table lists everybody but itself. -/
theorem joined_stays_unknown : ∃ (frame : Bytes) (pkt : Packet)
    (P0 P1 P2 P3 P' : Pool (Bool × Unit) Req Ans Err Unit (Bool → NodeState)),
    Pool.Steps (rules sampleNodes) (initial sampleFounded) P0 ∧
      Joins sampleNodes true false () P0 P1 ∧
      Pool.Steps (retaining sampleNodes true false) P1 P2 ∧
      HasSent sampleNodes true () frame P2 ∧
      unpack shortSigLib frame = .ok pkt ∧ pkt.type = .str T.gossip ∧
      verifyPacket shortSigLib pkt (sampleConn true).peerSigningPubkey = .ok true ∧
      Pool.Steps (retaining sampleNodes true false) P2 P3 ∧
      Pool.Executes (Pool.Step (retaining sampleNodes true false)) (false,())
        (Node.dispatch (sampleNodes false) pkt (sampleConn true)) P3 P' ∧
      ¬ Knows P'.world false (sampleNodes true).id := by
  obtain ⟨P0,P1,P2,P3,P',h0,hjoin,h12,hsent,_,hpkt,hty,h23,hx,hw⟩ := joins_and_gossips
    (P := initial sampleFounded) (fun _ => trivial) rfl rfl (by decide +kernel) rfl rfl
  refine ⟨_,_,P0,P1,P2,P3,P',h0.lift id (fun _ _ hs => (step_of_retaining hs).1),hjoin,h12,hsent,
    hpkt,hty,by decide +kernel,h23,hx,?_⟩
  unfold Knows
  rw [hw]
  decide +kernel

end Network

end Nevod
