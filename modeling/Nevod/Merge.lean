import Nevod.Gossip
import Nevod.Auth
import Nevod.Sample
import Nevod.Routing
import Nevod.Lib.FirstWins

/-!
What one GOSSIP packet does to a node table: the nodes it lists are entered
unless they are known, and of several entries for one node the first counts.
-/

set_option autoImplicit false

namespace Nevod
open Text Resume Keyed FirstWins

variable {L : Lib}

/-- A listed node: what `handle_gossip` takes from an entry. -/
structure Offer where
  nodeId : SqlText
  address : SqlText
  type : SqlText
  access : SqlText
  deriving DecidableEq, Repr

def Offer.entry (o : Offer) (lastSeen addedAt : Int) : NodeEntry :=
  { nodeId := o.nodeId.toVal, address := o.address.toVal, type := o.type.toVal,
    access := o.access.toVal, lastSeen, status := "online", addedAt }

/-- The row that is made of it. -/
def Offer.row (o : Offer) (lastSeen addedAt : Int) : NodeRow :=
  ⟨o.nodeId,o.address,o.type,o.access,[],"",lastSeen,0,"online",addedAt⟩

/-- The entry `n` of a packet has an id and an address that are not empty, and its
fields are texts or bytes. -/
structure Describes (n : Val) (o : Offer) : Prop where
  nodeId : n.get "node_id" (.str "") = .ok o.nodeId.toVal
  address : n.get "address" (.str "") = .ok o.address.toVal
  type : n.get "type" (.str "permanent") = .ok o.type.toVal
  access : n.get "access" (.str "closed") = .ok o.access.toVal
  named : o.nodeId.toVal.truthy = true
  addressed : o.address.toVal.truthy = true

/-- A well-formed packet that lists these nodes. -/
def Lists (L : Lib) (pkt : Packet) (offers : List Offer) : Prop :=
  ∃ items, GossipEngine.remoteNodes L pkt = .ok (.arr items) ∧ List.Forall₂ Describes items offers

/-- What a node lists for one of its rows. -/
def NodeRow.offer (r : NodeRow) : Offer := ⟨r.nodeId,r.address,r.type,r.access⟩

theorem describes_toDict {r : NodeRow} (hid : r.nodeId.toVal.truthy = true)
    (haddr : r.address.toVal.truthy = true) : Describes r.toDict r.offer where
  nodeId := by simp [NodeRow.offer]
  address := by simp [NodeRow.offer]
  type := by simp [NodeRow.offer]
  access := by simp [NodeRow.offer]
  named := hid
  addressed := haddr

theorem remoteNodes_makeGossip (hp : L.PackLaws) {st : Stamp} {sender : Val} {nodes : List Val}
    {pkt : Packet} (h : makeGossip L st sender nodes = .ok pkt) :
    GossipEngine.remoteNodes L pkt = .ok (.arr nodes) := by
  obtain ⟨payload,hpay,rfl⟩ := makeEncoded_ok h
  have hdec := hp.unpackb_packb _ _ hpay
  simp [GossipEngine.remoteNodes,decodePayload,hdec,bind,Except.bind,Val.get,Val.lookup]

theorem gossip_listed {pkt : Packet} {items : List Val}
    (h : GossipEngine.remoteNodes L pkt = .ok (.arr items)) :
    GossipEngine.handleGossip L pkt = Prog.forEach items (GossipEngine.mergeNode L) := by
  unfold GossipEngine.handleGossip
  rw [h]
  rfl

theorem describes_rows {rows : List NodeRow}
    (hrows : ∀ r ∈ rows, r.nodeId.toVal.truthy = true ∧ r.address.toVal.truthy = true) :
    List.Forall₂ Describes (rows.map NodeRow.toDict) (rows.map NodeRow.offer) := by
  rw [List.forall₂_map_left_iff,List.forall₂_map_right_iff]
  exact List.forall₂_same.mpr (fun r hr => describes_toDict (hrows r hr).1 (hrows r hr).2)

def NodeState.enter (s : NodeState) (r : NodeRow) : NodeState :=
  { s with storage := { s.storage with nodeTable := s.storage.nodeTable.insertIgnore r } }

/-- What `upsert_node` does with an entry. -/
def NodeState.put (L : Lib) (s : NodeState) (entry : NodeEntry) (added : Int) : NodeState :=
  match Storage.bindNode L entry added with
  | .ok (some row) => { s with storage := s.storage.upsertNode row }
  | _ => s

theorem upsertNode_new {s : NodeState} {r : NodeRow}
    (hnew : s.storage.nodeTable.find r.nodeId = none) :
    s.storage.upsertNode r = (s.enter r).storage := by
  simp only [Storage.upsertNode,NodeState.enter]
  rw [Table.upsert_of_find _ _ _ hnew]

theorem put_enter {s : NodeState} {entry : NodeEntry} {added : Int} {row : NodeRow}
    (hb : Storage.bindNode L entry added = .ok (some row))
    (hnew : s.storage.nodeTable.find row.nodeId = none) : s.put L entry added = s.enter row := by
  simp only [NodeState.put,hb]
  rw [upsertNode_new hnew]
  rfl

/-- The row that `upsert_node` is given, with the time at which it was added. -/
theorem bindNode_offer (o : Offer) (lastSeen addedAt added : Int) :
    Storage.bindNode L (o.entry lastSeen addedAt) added = .ok (some (o.row lastSeen added)) := by
  simp [Storage.bindNode,Offer.entry,Offer.row,bind,Except.bind,pure,Except.pure]

/-- The row of a node. -/
abbrev World.nodeRow (w : World) (k : SqlText) : Option NodeRow := w.state.storage.nodeTable.find k

/-- The id and the address that `handle_gossip` reads from the entry. -/
structure Names (n nodeId address : Val) : Prop where
  nodeId : n.get "node_id" (.str "") = .ok nodeId
  address : n.get "address" (.str "") = .ok address

/-- An entry that has an id and an address is a map. -/
theorem Names.get {n nodeId address : Val} (h : Names n nodeId address) (key : String) (d : Val) :
    ∃ v, n.get key d = .ok v := by
  cases n with
  | map entries => exact ⟨_,rfl⟩
  | _ => exact absurd h.nodeId (by simp [Val.get])

section Run

variable (env : Env)

theorem run_addedAt (entry : NodeEntry) (w : World) : ∃ step added,
    (run env.handler (Storage.addedAt entry) w).result = .ok added ∧
    (run env.handler (Storage.addedAt entry) w).final = ⟨w.state,step⟩ := by
  unfold Storage.addedAt
  split
  · exact ⟨w.step+1,env.now w.step,rfl,rfl⟩
  · exact ⟨w.step,entry.addedAt,rfl,rfl⟩

/-- The execution of `upsert_node`, whatever the entry holds. -/
theorem run_putNode (entry : NodeEntry) (w : World) : ∃ step added,
    (run env.handler (Storage.putNode L entry) w).result =
      (Storage.bindNode L entry added).map (fun _ => ()) ∧
    (run env.handler (Storage.putNode L entry) w).final = ⟨w.state.put L entry added,step⟩ := by
  obtain ⟨step,added,hadded,hat⟩ := run_addedAt env entry w
  unfold Storage.putNode
  rw [Prog.bind_eq,run_bind_ok hadded,hat,exists_comm]
  refine ⟨added,?_⟩
  unfold NodeState.put
  cases Storage.bindNode L entry added with
  | error e => exact ⟨step,rfl,rfl⟩
  | ok row =>
    cases row with
    | none => exact ⟨step,rfl,rfl⟩
    | some row => exact ⟨step+1,rfl,rfl⟩

/-- The execution of `learnNode`, whatever the fields of the entry are. -/
theorem run_learnNode {n nodeId address type access : Val}
    (ht : n.get "type" (.str "permanent") = .ok type)
    (ha : n.get "access" (.str "closed") = .ok access) (w : World) :
    ∃ step lastSeen addedAt added,
      (run env.handler (GossipEngine.learnNode L n nodeId address) w).result =
        (Storage.bindNode L (learntEntry nodeId address type access lastSeen addedAt) added).bind
          (fun _ => nodeId.slice) ∧
      (run env.handler (GossipEngine.learnNode L n nodeId address) w).final =
        ⟨w.state.put L (learntEntry nodeId address type access lastSeen addedAt) added,step⟩ := by
  obtain ⟨step,added,hres,hfin⟩ := run_putNode (L := L) env
    (learntEntry nodeId address type access (env.now w.step) (env.now (w.step+1))) ⟨w.state,w.step+2⟩
  refine ⟨step,env.now w.step,env.now (w.step+1),added,?_⟩
  unfold GossipEngine.learnNode
  simp only [ht,ha,Prog.ofExcept_ok,Prog.bind_eq,Prog.bind_ret,Prog.bind_ask,run_ask,
    Env.handler,World.next]
  cases hb : Storage.bindNode L (learntEntry nodeId address type access (env.now w.step)
      (env.now (w.step+1))) added with
  | error e =>
    rw [hb] at hres
    rw [run_bind_error hres]
    exact ⟨rfl,hfin⟩
  | ok row =>
    rw [hb] at hres
    rw [run_bind_ok hres,hfin]
    cases nodeId.slice <;> exact ⟨rfl,rfl⟩

section

variable {n nodeId address : Val} {w : World}

theorem mergeNode_known (hn : Names n nodeId address) (h1 : nodeId.truthy = true)
    (h2 : address.truthy = true) {k : SqlText}
    (hk : SqlText.ofVal L.realText nodeId = .ok (some k)) {row : NodeRow}
    (hrow : w.state.storage.nodeTable.find k = some row) :
    (run env.handler (GossipEngine.mergeNode L n) w).result = .ok () ∧
      (run env.handler (GossipEngine.mergeNode L n) w).final.state = w.state := by
  unfold GossipEngine.mergeNode Storage.getNode
  simp only [hn.nodeId,hn.address,h1,h2,hk,Prog.ofExcept_ok,Prog.bind_eq,Prog.bind_ret,
    Prog.bind_ask,Bool.not_true,Bool.or_false,Bool.false_eq_true,if_false,run_ask,Env.handler,
    Storage.exec,hrow]
  exact ⟨rfl,rfl⟩

/-- An entry whose id is in no row. -/
theorem mergeNode_new (hn : Names n nodeId address) (h1 : nodeId.truthy = true)
    (h2 : address.truthy = true) {k : Option SqlText}
    (hk : SqlText.ofVal L.realText nodeId = .ok k)
    (hnew : ∀ k', k = some k' → w.nodeRow k' = none) :
    ∃ type access lastSeen addedAt added,
      n.get "type" (.str "permanent") = .ok type ∧ n.get "access" (.str "closed") = .ok access ∧
      (run env.handler (GossipEngine.mergeNode L n) w).result =
        (Storage.bindNode L (learntEntry nodeId address type access lastSeen addedAt) added).bind
          (fun _ => nodeId.slice) ∧
      (run env.handler (GossipEngine.mergeNode L n) w).final.state =
        w.state.put L (learntEntry nodeId address type access lastSeen addedAt) added := by
  obtain ⟨type,ht⟩ := hn.get "type" (.str "permanent")
  obtain ⟨access,ha⟩ := hn.get "access" (.str "closed")
  have hlearn : ∃ v : World, v.state = w.state ∧
      (run env.handler (GossipEngine.mergeNode L n) w).result =
        (run env.handler (GossipEngine.learnNode L n nodeId address) v).result ∧
      (run env.handler (GossipEngine.mergeNode L n) w).final =
        (run env.handler (GossipEngine.learnNode L n nodeId address) v).final := by
    unfold GossipEngine.mergeNode Storage.getNode
    simp only [hn.nodeId,hn.address,h1,h2,hk,Prog.ofExcept_ok,Prog.bind_eq,Prog.bind_ret,
      Bool.not_true,Bool.or_false,Bool.false_eq_true,if_false]
    cases k with
    | none => exact ⟨w,rfl,rfl,rfl⟩
    | some k =>
      simp only [Prog.bind_ask,run_ask,Env.handler,Storage.exec,hnew k rfl]
      exact ⟨w.next w.state,rfl,rfl,rfl⟩
  obtain ⟨v,hv,hres,hfin⟩ := hlearn
  obtain ⟨step,lastSeen,addedAt,added,hres',hfin'⟩ := run_learnNode (L := L) env ht ha v
  exact ⟨type,access,lastSeen,addedAt,added,ht,ha,by rw [hres,hres'],by rw [hfin,hfin',hv]⟩

end

theorem run_mergeNode {n : Val} {o : Offer} (h : Describes n o) (w : World) :
    ∃ step lastSeen addedAt,
      (run env.handler (GossipEngine.mergeNode L n) w).result = .ok () ∧
      (run env.handler (GossipEngine.mergeNode L n) w).final =
        ⟨w.state.enter (o.row lastSeen addedAt),step⟩ := by
  have hn : Names n o.nodeId.toVal o.address.toVal := ⟨h.nodeId,h.address⟩
  have hk := SqlText.ofVal_toVal L.realText o.nodeId
  refine ⟨(run env.handler (GossipEngine.mergeNode L n) w).final.step,?_⟩
  cases hf : w.nodeRow o.nodeId with
  | some r =>
    obtain ⟨hres,hfin⟩ := mergeNode_known env hn h.named h.addressed hk hf
    refine ⟨0,0,hres,?_⟩
    rw [NodeState.enter,Table.insertIgnore_of_find _ hf]
    exact congrArg (World.mk · _) hfin
  | none =>
    obtain ⟨type,access,lastSeen,addedAt,added,ht,ha,hres,hfin⟩ :=
      mergeNode_new env hn h.named h.addressed hk (fun k he => by cases he; exact hf)
    obtain rfl := Except.ok.inj (h.type.symm.trans ht)
    obtain rfl := Except.ok.inj (h.access.symm.trans ha)
    have hb := bindNode_offer (L := L) o lastSeen addedAt added
    refine ⟨lastSeen,added,?_,?_⟩
    · have hb' : Storage.bindNode L (learntEntry o.nodeId.toVal o.address.toVal o.type.toVal
          o.access.toVal lastSeen addedAt) added = _ := hb
      rw [hres,hb']
      exact SqlText.slice_toVal o.nodeId
    · exact congrArg (World.mk · _) (hfin.trans (put_enter hb hf))

/-- The row without its local timestamps. -/
def NodeRow.untimed (r : NodeRow) : NodeRow := { r with lastSeen := 0, addedAt := 0 }

theorem foldl_enter (s : NodeState) (rows : List NodeRow) :
    rows.foldl NodeState.enter s = { s with storage := { s.storage with
      nodeTable := rows.foldl Table.insertIgnore s.storage.nodeTable } } := by
  induction rows generalizing s with
  | nil => rfl
  | cons r rows ih => exact ih (s.enter r)

theorem run_mergeAll {items : List Val} {offers : List Offer}
    (h : List.Forall₂ Describes items offers) (w : World) :
    ∃ (step : Nat) (rows : List NodeRow), rows.map NodeRow.untimed = offers.map (fun o => o.row 0 0) ∧
      (run env.handler (Prog.forEach items (GossipEngine.mergeNode L)) w).result = .ok () ∧
      (run env.handler (Prog.forEach items (GossipEngine.mergeNode L)) w).final =
        ⟨rows.foldl NodeState.enter w.state,step⟩ := by
  induction h generalizing w with
  | nil => exact ⟨w.step,[],rfl,rfl,rfl⟩
  | @cons n o items offers hn _ ih =>
    obtain ⟨step,lastSeen,addedAt,hres,hfin⟩ := run_mergeNode (L := L) env hn w
    obtain ⟨step',rows,hrows,hres',hfin'⟩ := ih ⟨w.state.enter (o.row lastSeen addedAt),step⟩
    refine ⟨step',o.row lastSeen addedAt :: rows,by simp [hrows,NodeRow.untimed,Offer.row],?_⟩
    rw [Prog.forEach_cons,run_bind_ok hres,hfin]
    exact ⟨hres',hfin'⟩

theorem run_handleGossip {pkt : Packet} {offers : List Offer} (h : Lists L pkt offers)
    (w : World) : ∃ (step : Nat) (rows : List NodeRow),
      rows.map NodeRow.untimed = offers.map (fun o => o.row 0 0) ∧
      (run env.handler (GossipEngine.handleGossip L pkt) w).result = .ok () ∧
      (run env.handler (GossipEngine.handleGossip L pkt) w).final =
        ⟨rows.foldl NodeState.enter w.state,step⟩ := by
  obtain ⟨items,hitems,hoffers⟩ := h
  rw [gossip_listed hitems]
  exact run_mergeAll env hoffers w

end Run

/-- The node table up to the local timestamps. -/
def World.nodes (w : World) : SqlText → Option NodeRow :=
  fun k => (w.state.storage.nodeTable.find k).map NodeRow.untimed

/-- What a packet says about a node: its first entry for it. -/
def offered (offers : List Offer) : SqlText → Option NodeRow :=
  fun k => (offers.find? (fun o => o.nodeId = k)).map (fun o => o.row 0 0)

theorem find_rows {rows : List NodeRow} {offers : List Offer}
    (h : rows.map NodeRow.untimed = offers.map (fun o => o.row 0 0)) (k : SqlText) :
    (rows.find? (fun r => r.nodeId = k)).map NodeRow.untimed = offered offers k := by
  have hk := congrArg (List.find? (fun r : NodeRow => decide (r.nodeId = k))) h
  rw [List.find?_map,List.find?_map] at hk
  exact hk

theorem nodes_handleGossip (env : Env) {pkt : Packet} {offers : List Offer}
    (h : Lists L pkt offers) (w : World) :
    (run env.handler (GossipEngine.handleGossip L pkt) w).final.nodes =
      merge w.nodes (offered offers) := by
  obtain ⟨step,rows,hrows,_,hfin⟩ := run_handleGossip env h w
  rw [hfin]
  funext k
  simp only [World.nodes,merge,foldl_enter,Table.find_foldl_insertIgnore,← find_rows hrows k]
  exact Option.map_or

/-- The packets handled one after another. -/
def handleAll (L : Lib) (env : Env) (w : World) (pkts : List Packet) : World :=
  pkts.foldl (fun w pkt => (run env.handler (GossipEngine.handleGossip L pkt) w).final) w

theorem nodes_handleAll (env : Env) (f : Packet → List Offer) {pkts : List Packet}
    (h : ∀ pkt ∈ pkts, Lists L pkt (f pkt)) (w : World) :
    (handleAll L env w pkts).nodes = (pkts.map (fun pkt => offered (f pkt))).foldl merge w.nodes := by
  induction pkts generalizing w with
  | nil => rfl
  | cons pkt pkts ih =>
    rw [List.forall_mem_cons] at h
    rw [List.map_cons,List.foldl_cons,← nodes_handleGossip env h.1 w]
    exact ih h.2 _

/-- The packets say the same about every node that is new to the table and listed
in both. -/
def AgreeOn (w : World) (offers offers' : List Offer) : Prop :=
  ∀ k o o', w.state.storage.nodeTable.find k = none →
    offers.find? (fun o => o.nodeId = k) = some o →
    offers'.find? (fun o => o.nodeId = k) = some o' →
    o.address = o'.address ∧ o.type = o'.type ∧ o.access = o'.access

theorem agreeOn_iff {w : World} {offers offers' : List Offer} :
    AgreeOn w offers offers' ↔ Agree w.nodes (offered offers) (offered offers') := by
  constructor
  · intro h k x y hk hx hy
    obtain ⟨o,ho,rfl⟩ := Option.map_eq_some_iff.mp hx
    obtain ⟨o',ho',rfl⟩ := Option.map_eq_some_iff.mp hy
    obtain ⟨h1,h2,h3⟩ := h k o o' (Option.map_eq_none_iff.mp hk) ho ho'
    have hid : o.nodeId = k := by simpa using List.find?_some ho
    have hid' : o'.nodeId = k := by simpa using List.find?_some ho'
    simp only [Offer.row,h1,h2,h3,hid,hid']
  · intro h k o o' hk ho ho'
    have he := h k (o.row 0 0) (o'.row 0 0) (Option.map_eq_none_iff.mpr hk)
      (by simp [offered,ho]) (by simp [offered,ho'])
    exact ⟨congrArg NodeRow.address he,congrArg NodeRow.type he,congrArg NodeRow.access he⟩

/-- Two nodes with equal tables end with equal tables, whichever of two packets
each handles first, exactly if the packets agree. -/
theorem handle_two_iff (env env' : Env) {w w' : World} (hw : w.nodes = w'.nodes) {p q : Packet}
    {offers offers' : List Offer} (hp : Lists L p offers) (hq : Lists L q offers') :
    (handleAll L env w [p,q]).nodes = (handleAll L env' w' [q,p]).nodes ↔
      AgreeOn w offers offers' := by
  simp only [handleAll,List.foldl_cons,List.foldl_nil]
  rw [nodes_handleGossip env hq,nodes_handleGossip env hp,nodes_handleGossip env' hp,
    nodes_handleGossip env' hq,← hw,merge_comm_iff,agreeOn_iff]

/-- The order in which packets arrive makes no difference exactly as far as they
agree about the nodes that are new to the table. -/
theorem gossip_order (env env' : Env) {w w' : World} (hw : w.nodes = w'.nodes) :
    (∀ (p q : Packet) (offers offers' : List Offer), Lists L p offers → Lists L q offers' →
      ((handleAll L env w [p,q]).nodes = (handleAll L env' w' [q,p]).nodes ↔
        AgreeOn w offers offers')) ∧
    ∀ (f : Packet → List Offer) (pkts pkts' : List Packet), (∀ p ∈ pkts, Lists L p (f p)) →
      (∀ p ∈ pkts, ∀ q ∈ pkts, AgreeOn w (f p) (f q)) → pkts.Perm pkts' →
      (handleAll L env w pkts).nodes = (handleAll L env' w' pkts').nodes := by
  refine ⟨fun p q offers offers' hp hq => handle_two_iff env env' hw hp hq,?_⟩
  intro f pkts pkts' hlists hagree hperm
  have hlists' : ∀ p ∈ pkts', Lists L p (f p) := fun p hp => hlists p (hperm.mem_iff.mpr hp)
  rw [nodes_handleAll env f hlists,nodes_handleAll env' f hlists',← hw]
  refine foldl_merge_perm (hperm.map _) w.nodes (fun a ha b hb => ?_)
  obtain ⟨p,hp,rfl⟩ := List.mem_map.mp ha
  obtain ⟨q,hq,rfl⟩ := List.mem_map.mp hb
  exact agreeOn_iff.mp (hagree p hp q hq)

/-- What is said of a node that is at `address`. -/
def strangerAt (nodeId address : String) : NodeRow :=
  ⟨.text nodeId,.text address,.text "permanent",.text "open",[],"",0,0,"online",0⟩

def newsOf (nodeId address : String) : Except Err Packet :=
  makeGossip shortSigLib ⟨"g",0⟩ (.str "n") [(strangerAt nodeId address).toDict]

theorem exists_news (nodeId address : String) (h : (newsOf nodeId address).isOk = true)
    (hid : (Val.str nodeId).truthy = true) (haddr : (Val.str address).truthy = true) :
    ∃ p, Lists shortSigLib p [(strangerAt nodeId address).offer] := by
  obtain ⟨p,hn⟩ := exists_ok h
  have hrows : ∀ r ∈ [strangerAt nodeId address],
      r.nodeId.toVal.truthy = true ∧ r.address.toVal.truthy = true := by
    simp only [List.mem_singleton,forall_eq]
    exact ⟨hid,haddr⟩
  exact ⟨p,_,remoteNodes_makeGossip (sampleLib_packLaws digest32) hn,describes_rows hrows⟩

def nobodyKnown : World := ⟨⟨Storage.empty,ConnectionRegistry.empty⟩,0⟩

theorem gossip_order_sample : ∃ p q,
    Lists shortSigLib p [(strangerAt "x" "a:1").offer] ∧
    Lists shortSigLib q [(strangerAt "y" "b:2").offer] ∧
    (handleAll shortSigLib calmEnv nobodyKnown [p,q]).nodes =
      (handleAll shortSigLib calmEnv nobodyKnown [q,p]).nodes := by
  obtain ⟨p,hp⟩ := exists_news "x" "a:1" (by decide +kernel) (by decide) (by decide)
  obtain ⟨q,hq⟩ := exists_news "y" "b:2" (by decide +kernel) (by decide) (by decide)
  refine ⟨p,q,hp,hq,((gossip_order calmEnv calmEnv rfl).1 p q _ _ hp hq).mpr ?_⟩
  rintro k o o' _ ho ho'
  simp only [strangerAt,NodeRow.offer,List.find?_singleton,decide_eq_true_eq,
    Option.ite_none_right_eq_some] at ho ho'
  exact absurd (ho.1.trans ho'.1.symm) (by decide)

/-- Two nodes say different addresses of a third: the first one is believed. -/
theorem gossip_conflict : ∃ p q,
    Lists shortSigLib p [(strangerAt "x" "a:1").offer] ∧
    Lists shortSigLib q [(strangerAt "x" "b:2").offer] ∧
    (handleAll shortSigLib calmEnv nobodyKnown [p,q]).nodes ≠
      (handleAll shortSigLib calmEnv nobodyKnown [q,p]).nodes := by
  obtain ⟨p,hp⟩ := exists_news "x" "a:1" (by decide +kernel) (by decide) (by decide)
  obtain ⟨q,hq⟩ := exists_news "x" "b:2" (by decide +kernel) (by decide) (by decide)
  refine ⟨p,q,hp,hq,?_⟩
  intro h
  have hagree := (handle_two_iff calmEnv calmEnv rfl hp hq).mp h
  have haddr := (hagree (.text "x") (strangerAt "x" "a:1").offer (strangerAt "x" "b:2").offer rfl
    rfl rfl).1
  exact absurd haddr (by decide)

end Nevod
