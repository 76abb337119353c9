import Nevod.Malformed
import Nevod.Spreading

/-!
A row of `node_table` as it is passed on: a node lists its table to one that does
not know the row, that one lists it to another, and so on.
-/

set_option autoImplicit false

namespace Nevod
open Text Resume Keyed

variable {L : Lib}

namespace Hearsay

/-- The other node passes over this row. -/
def empty (r : NodeRow) : Bool := !r.nodeId.toVal.truthy || !r.address.toVal.truthy

/-- One hop: a node that has the row `r` lists its table, and the frame is handled by a
node that does not know `r` and that has the row `r'` for it then. -/
def Hop (L : Lib) (r r' : NodeRow) : Prop :=
  ∃ (sender : Node L) (table : Table NodeRow.nodeId) (frame : Bytes) (pkt : Packet) (env : Env)
    (w : World), r ∈ table.rows ∧ Network.IsGossip sender table.rows frame ∧
    unpack L frame = .ok pkt ∧ w.nodeRow r.nodeId = none ∧
    (run env.handler (GossipEngine.handleGossip L pkt) w).final.nodeRow r.nodeId = some r'

/-- The two rows say the same of the node but for what each observer notes itself. -/
structure Agrees (r r' : NodeRow) : Prop where
  nodeId : r'.nodeId = r.nodeId
  address : r'.address = r.address
  type : r'.type = r.type
  access : r'.access = r.access
  cert : r'.cert = r.cert
  parentNode : r'.parentNode = r.parentNode

/-- A chain of hops. Between two of them a node may have pinged the one in the row. -/
inductive Carried (L : Lib) : NodeRow → NodeRow → Prop where
  | hop {r r' : NodeRow} (h : Hop L r r') : Carried L r r'
  | further {r r' s s' : NodeRow} (h : Carried L r r') (hs : Agrees r' s) (hop : Hop L s s') :
    Carried L r s'

section

variable {sender : Node L} {table : Table NodeRow.nodeId} {frame : Bytes} {pkt : Packet}

theorem mergeNode_passes_over {r : NodeRow} (h : empty r = true) :
    GossipEngine.mergeNode L r.toDict = .ret () := by
  unfold empty at h
  simp only [GossipEngine.mergeNode,NodeRow.toDict_nodeId,NodeRow.toDict_address,
    Prog.ofExcept_ok,Prog.bind_eq,Prog.bind_ret,h,if_true,Prog.pure_eq]

theorem forEach_toDict (rows : List NodeRow) :
    Prog.forEach (rows.map NodeRow.toDict) (GossipEngine.mergeNode L) =
      Prog.forEach ((rows.filter (fun r => !empty r)).map NodeRow.toDict)
        (GossipEngine.mergeNode L) := by
  induction rows with
  | nil => rfl
  | cons r rows ih =>
    cases h : empty r with
    | true =>
      simp only [List.map_cons,Prog.forEach_cons,mergeNode_passes_over h,Prog.bind_ret,ih,
        List.filter_cons,h,Bool.not_true,Bool.false_eq_true,if_false]
    | false =>
      simp only [List.map_cons,Prog.forEach_cons,ih,List.filter_cons,h,Bool.not_false,if_true]

/-- Handling a listed table, whatever rows it has. -/
theorem run_listed (hp : L.PackLaws) (env : Env) (h : Network.IsGossip sender table.rows frame)
    (hu : unpack L frame = .ok pkt) (w : World) : ∃ learnt : List NodeRow,
      learnt.map NodeRow.untimed =
        ((table.deleteWhere empty).rows.map NodeRow.offer).map (fun o => o.row 0 0) ∧
      (run env.handler (GossipEngine.handleGossip L pkt) w).final.state.storage.nodeTable =
        learnt.foldl Table.insertIgnore w.state.storage.nodeTable := by
  obtain ⟨g,hg,_,hnodes⟩ := h.listed hp
  rw [hu] at hg
  cases hg
  have hdescribes : List.Forall₂ Describes ((table.deleteWhere empty).rows.map NodeRow.toDict)
      ((table.deleteWhere empty).rows.map NodeRow.offer) := by
    refine describes_rows (fun r hr => ?_)
    have hr := ((table.mem_deleteWhere _ r).mp hr).2
    simpa [empty] using hr
  obtain ⟨step,learnt,hlearnt,_,hfin⟩ := run_mergeAll (L := L) env hdescribes w
  refine ⟨learnt,hlearnt,?_⟩
  rw [gossip_listed hnodes,forEach_toDict]
  exact (congrArg (fun w : World => w.state.storage.nodeTable) hfin).trans (by rw [foldl_enter])

/-- The row that a hop makes of a row which is not passed over. -/
theorem Hop.row (hp : L.PackLaws) {r r' : NodeRow} (h : Hop L r r') (hr : empty r = false) :
    ∃ lastSeen addedAt, r' = r.offer.row lastSeen addedAt := by
  obtain ⟨sender,table,frame,pkt,env,w,hmem,hg,hu,hnew,hrow⟩ := h
  obtain ⟨learnt,hlearnt,htable⟩ := run_listed hp env hg hu w
  have hlisted : (table.deleteWhere empty).find r.nodeId = some r :=
    (Table.find_eq_some _).mpr ⟨(table.mem_deleteWhere _ r).mpr ⟨hmem,hr⟩,rfl⟩
  have hoffered : offered ((table.deleteWhere empty).rows.map NodeRow.offer) r.nodeId =
      some (r.offer.row 0 0) := by
    have hfind : ((table.deleteWhere empty).rows.map NodeRow.offer).find?
        (fun o => o.nodeId = r.nodeId) = some r.offer := by
      rw [List.find?_map]
      exact congrArg (Option.map NodeRow.offer) hlisted
    simp [offered,hfind]
  rw [World.nodeRow,htable,Table.find_foldl_insertIgnore] at hrow
  rw [show w.state.storage.nodeTable.find r.nodeId = none from hnew,Option.none_or] at hrow
  have huntimed := find_rows hlearnt r.nodeId
  rw [hrow,hoffered,Option.map_some,Option.some.injEq] at huntimed
  refine ⟨r'.lastSeen,r'.addedAt,?_⟩
  have hrow' := congrArg (fun s : NodeRow =>
    { s with lastSeen := r'.lastSeen, addedAt := r'.addedAt }) huntimed
  exact hrow'

/-- A row that came by gossip has no certificate and no parent, and otherwise says what
the first one said. -/
theorem Carried.row (hp : L.PackLaws) {r r' : NodeRow} (h : Carried L r r') (hr : empty r = false) :
    Agrees { r with cert := [], parentNode := "" } r' := by
  induction h with
  | hop h =>
    obtain ⟨lastSeen,addedAt,rfl⟩ := h.row hp hr
    exact ⟨rfl,rfl,rfl,rfl,rfl,rfl⟩
  | @further r' s s' h hs hop ih =>
    have hempty : empty s = false := by
      unfold empty at hr ⊢
      rw [hs.nodeId,hs.address,ih.nodeId,ih.address]
      exact hr
    obtain ⟨lastSeen,addedAt,rfl⟩ := hop.row hp hempty
    exact ⟨hs.nodeId.trans ih.nodeId,hs.address.trans ih.address,hs.type.trans ih.type,
      hs.access.trans ih.access,rfl,rfl⟩

/-- A node that does not know the row has one for it after the hop. -/
theorem exists_hop (hp : L.PackLaws) {r : NodeRow} (table : Table NodeRow.nodeId) (hr : empty r = false)
    (hmem : r ∈ table.rows) (hg : Network.IsGossip sender table.rows frame) (env : Env) {w : World}
    (hnew : w.nodeRow r.nodeId = none) : ∃ r', Hop L r r' := by
  obtain ⟨pkt,hu,_⟩ := hg.listed hp
  obtain ⟨learnt,hlearnt,htable⟩ := run_listed hp env hg hu w
  have hlisted : r.offer.row 0 0 ∈ learnt.map NodeRow.untimed := by
    rw [hlearnt,List.map_map]
    exact List.mem_map_of_mem (f := (fun o : Offer => o.row 0 0) ∘ NodeRow.offer)
      ((table.mem_deleteWhere _ r).mpr ⟨hmem,hr⟩)
  obtain ⟨s,hs,hkey⟩ := List.mem_map.mp hlisted
  obtain ⟨r',hr',hid⟩ := Table.exists_of_foldl_insertIgnore w.state.storage.nodeTable hs
  have hsid := congrArg NodeRow.nodeId hkey
  refine ⟨r',sender,table,frame,pkt,env,w,hmem,hg,hu,hnew,?_⟩
  rw [World.nodeRow,htable]
  exact (Table.find_eq_some _).mpr ⟨hr',hid.trans hsid⟩

end

/-- A row that is carried over any number of hops says the same at the end just when
the node has neither a certificate nor a parent. -/
theorem carried_agrees_iff (hp : L.PackLaws) {r r' : NodeRow} (h : Carried L r r')
    (hid : r.nodeId.toVal.truthy = true) (haddr : r.address.toVal.truthy = true) :
    Agrees r r' ↔ r.cert = [] ∧ r.parentNode = "" := by
  have hrow := h.row hp (by simp [empty,hid,haddr])
  constructor
  · intro hagrees
    exact ⟨hagrees.cert.symm.trans hrow.cert,hagrees.parentNode.symm.trans hrow.parentNode⟩
  · rintro ⟨hcert,hparent⟩
    exact ⟨hrow.nodeId,hrow.address,hrow.type,hrow.access,by rw [hrow.cert,hcert],
      by rw [hrow.parentNode,hparent]⟩

/-- The node "x" with this certificate. -/
def sampleRow (cert : Bytes) : NodeRow := { strangerAt "x" "a:1" with cert := cert }

def sampleTable (cert : Bytes) : Table NodeRow.nodeId := Table.empty.insertIgnore (sampleRow cert)

/-- A frame that lists it. -/
def sampleFrame (cert : Bytes) : Except Err (Packet × Bytes) :=
  (makeGossip shortSigLib ⟨"g",0⟩ (.str (sampleNode false).id)
    ((sampleTable cert).rows.map NodeRow.toDict)).bind (Transport.wireForm (sampleNode false))

theorem exists_carried (cert : Bytes) (h : (sampleFrame cert).isOk = true) :
    ∃ r', Carried shortSigLib (sampleRow cert) r' := by
  obtain ⟨g,⟨signed,frame⟩,hg,hw⟩ := exists_ok_bind h
  obtain ⟨r',hop⟩ := exists_hop (sampleLib_packLaws digest32) (r := sampleRow cert)
    (sampleTable cert) rfl ((Table.mem_insertIgnore _ _ _).mpr (.inr ⟨rfl,rfl⟩))
    ⟨_,g,signed,hg,hw⟩ calmEnv (w := nobodyKnown) rfl
  exact ⟨r',.hop hop⟩

theorem carried_agrees_sample : ∃ r', Carried shortSigLib (sampleRow []) r' ∧
    Agrees (sampleRow []) r' := by
  obtain ⟨r',h⟩ := exists_carried [] (by decide +kernel)
  exact ⟨r',h,(carried_agrees_iff (sampleLib_packLaws digest32) h rfl rfl).mpr ⟨rfl,rfl⟩⟩

/-- A certificate of one byte does not survive the first hop. -/
theorem certificate_not_carried : ∃ r', Carried shortSigLib (sampleRow [7]) r' ∧
    ¬ Agrees (sampleRow [7]) r' := by
  obtain ⟨r',h⟩ := exists_carried [7] (by decide +kernel)
  refine ⟨r',h,fun hagrees => ?_⟩
  have hcert := hagrees.cert
  rw [(h.row (sampleLib_packLaws digest32) rfl).cert] at hcert
  contradiction

end Hearsay

end Nevod
