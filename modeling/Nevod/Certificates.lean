import Nevod.Overwrites

/-!
What is registered of a node, in a row of `node_table` that stays: runs of all the
tasks of a node, in any interleaving.
-/

set_option autoImplicit false

namespace Nevod
open Text Resume Keyed

variable {L : Lib} {ι : Type}

namespace Certificates
open Running Overwrites

/-- The columns that are written when a node is registered. -/
structure SameData (r r' : NodeRow) : Prop where
  type : r'.type = r.type
  access : r'.access = r.access
  cert : r'.cert = r.cert
  parentNode : r'.parentNode = r.parentNode
  addedAt : r'.addedAt = r.addedAt

/-- The row of the node `r` is there and says what `r` says. -/
def Holds (r : NodeRow) (w : NodeState) : Prop :=
  ∃ r', w.storage.nodeTable.find r.nodeId = some r' ∧ SameData r r'

/-- The row stays in this step, and if the step enters the node then it has no
certificate. -/
def Spares (r : NodeRow) (P P' : Pool ι Req Ans Err Unit NodeState) : Prop :=
  P'.world.storage.nodeTable.find r.nodeId ≠ none ∧ ∀ i, Enters i r.nodeId P P' → r.cert = []

/-- A node is entered without a certificate. -/
def Uncertified (q : Req) : Prop := ∀ row, q = .store (.upsertNode row) → row.cert = []

section

variable {self : Node L}

theorem uncertified_of_leaves {q : Req} (h : LeavesNodes q) : Uncertified q := by
  rintro row rfl
  exact h.elim

theorem uncertified_putNode {entry : NodeEntry} (h : entry.cert = []) :
    Obeys Uncertified (fun _ _ => True) (fun _ => True) (Storage.putNode L entry) := by
  refine putNode_puts.mono_guard (fun q hq => ?_)
  rcases hq with rfl | ⟨row,hb,rfl⟩
  · exact uncertified_of_leaves trivial
  · rintro row' he
    cases he
    rw [hb.cert,h]

theorem uncertified_join (address : String) :
    Obeys Uncertified (fun _ _ => True) (fun _ => True) (Node.join L address) := by
  have hconnect : Obeys Uncertified (fun _ _ => True) (fun _ => True)
      (Transport.connect address) := by
    unfold Transport.connect
    split
    · trivial
    · refine ⟨uncertified_of_leaves trivial,fun conn _ => ?_⟩
      cases conn with
      | error e => trivial
      | ok conn => exact ⟨uncertified_of_leaves trivial,fun _ _ =>
          ⟨uncertified_of_leaves trivial,fun _ _ => trivial⟩⟩
  refine hconnect.bind (fun conn _ => ⟨uncertified_of_leaves trivial,fun t _ =>
    ⟨uncertified_of_leaves trivial,fun u _ => ?_⟩⟩)
  exact uncertified_putNode rfl

theorem cert_of_offers {n : Val} {row : NodeRow} (h : Offers L n row) : row.cert = [] := by
  obtain ⟨nodeId,address,type,access,lastSeen,addedAt,_,_,_,_,_,_,hb⟩ := h
  exact hb.cert

/-- No task of a node enters a certificate. -/
theorem uncertified_runs {p : NodeProg Unit} (h : Runs self p) :
    Obeys Uncertified (fun _ _ => True) (fun _ => True) p := by
  rcases leavesNodes_runs h with ⟨pkt,conn,rfl⟩ | ⟨address,rfl⟩ | rfl | hnone
  · have hd : Within self (fun _ => True) pkt conn (Node.dispatch self pkt conn) :=
      within_dispatch
    refine (hd.mono_guard (fun q hq => ?_)).mono_rely
      (fun q a _ => Registration.readsWaiting_all q a)
    rintro row rfl
    obtain ⟨_,nodes,items,n,_,_,_,hoffers⟩ := hq
    exact cert_of_offers hoffers
  · exact uncertified_join address
  · exact NodeHistory.entersNone_turn.mono_guard (fun q hq row he => (hq row he).elim)
  · exact hnone.mono_guard (fun q hq => uncertified_of_leaves hq)

end

theorem SameData.refl (r : NodeRow) : SameData r r := ⟨rfl,rfl,rfl,rfl,rfl⟩

theorem SameData.trans {r r' r'' : NodeRow} (h : SameData r r') (h' : SameData r' r'') :
    SameData r r'' :=
  ⟨h'.type.trans h.type,h'.access.trans h.access,h'.cert.trans h.cert,
    h'.parentNode.trans h.parentNode,h'.addedAt.trans h.addedAt⟩

/-- What does not enter a node takes a row out or leaves its data as they are. -/
theorem row_answers {r : NodeRow} {k : SqlText} {w w' : NodeState} {q : Req} {a : Ans q}
    (h : w.Answers q a w') (hq : NodeHistory.EntersNone q)
    (hr : w.storage.nodeTable.find k = some r) :
    w'.storage.nodeTable.find k = none ∨
      ∃ r', w'.storage.nodeTable.find k = some r' ∧ SameData r r' := by
  by_cases hleaves : LeavesNodes q
  · rw [nodes_answers h hleaves]
    exact .inr ⟨r,hr,.refl r⟩
  · cases q with
    | store op =>
      obtain ⟨now,_,rfl⟩ := h
      cases op with
      | upsertNode row => exact (hq row rfl).elim
      | updateNodePing j success =>
        refine .inr ?_
        cases success with
        | true =>
          simp only [Storage.exec,Storage.updateNodePing,if_true,Table.find_modify,hr]
          by_cases hj : k = j
          · exact ⟨_,if_pos hj,rfl,rfl,rfl,rfl,rfl⟩
          · exact ⟨r,if_neg hj,.refl r⟩
        | false =>
          have hfind := Table.find_modify w.storage.nodeTable j k Storage.missPing (fun _ => rfl)
          rw [hr] at hfind
          by_cases hj : k = j
          · exact ⟨Storage.missPing r,hfind.trans (if_pos hj),rfl,rfl,rfl,rfl,rfl⟩
          · exact ⟨r,hfind.trans (if_neg hj),.refl r⟩
      | removeNode j =>
        simp only [Storage.exec,Storage.removeNode,Table.find_delete,hr]
        by_cases hj : k = j
        · exact .inl (if_pos hj)
        · exact .inr ⟨r,if_neg hj,.refl r⟩
      | cleanupExpiredNodes =>
        simp only [Storage.exec,Storage.cleanupExpiredNodes]
        cases hfind : Table.find (w.storage.nodeTable.deleteWhere _) k with
        | none => exact .inl rfl
        | some r' =>
          obtain ⟨hmem,hkey⟩ := (Table.find_eq_some _).mp hfind
          have hold := (Table.find_eq_some _).mpr ⟨((Table.mem_deleteWhere _ _ r').mp hmem).1,hkey⟩
          rw [hr] at hold
          cases hold
          exact .inr ⟨r,rfl,.refl r⟩
      | _ => exact (hleaves trivial).elim
    | _ => exact (hleaves trivial).elim

/-- One request: a row that stays keeps its data unless it has a certificate and the
node is entered. -/
theorem holds_answers {r : NodeRow} {w w' : NodeState} {q : Req} {a : Ans q}
    (h : w.Answers q a w') (hw : Holds r w) (hq : Uncertified q) :
    Holds r w' ↔ w'.storage.nodeTable.find r.nodeId ≠ none ∧
      ∀ row, q = .store (.upsertNode row) → row.nodeId = r.nodeId → r.cert = [] := by
  obtain ⟨r0,hr0,hsame⟩ := hw
  by_cases hup : ∃ row, q = .store (.upsertNode row)
  · obtain ⟨row,rfl⟩ := hup
    have hcert := hq row rfl
    obtain ⟨now,_,rfl⟩ := h
    simp only [Holds,Storage.exec,Storage.upsertNode,Table.find_upsert,hr0]
    by_cases hk : r.nodeId = row.nodeId
    · rw [if_pos hk]
      constructor
      · rintro ⟨r1,he,hdata⟩
        cases he
        exact ⟨by simp,fun _ _ _ => hdata.cert.symm.trans hcert⟩
      · rintro ⟨_,hnone⟩
        refine ⟨_,rfl,hsame.type,hsame.access,?_,hsame.parentNode,hsame.addedAt⟩
        exact hcert.trans (hnone row rfl hk.symm).symm
    · rw [if_neg hk]
      refine iff_of_true ⟨r0,rfl,hsame⟩ ⟨by simp,fun row' he hk' => ?_⟩
      cases he
      exact (hk hk'.symm).elim
  · have hnone : NodeHistory.EntersNone q := fun row he => hup ⟨row,he⟩
    rcases row_answers h hnone hr0 with hgone | ⟨r1,hr1,hdata⟩
    · refine iff_of_false ?_ (fun hstay => hstay.1 hgone)
      rintro ⟨r1,hr1,_⟩
      rw [hgone] at hr1
      contradiction
    · refine iff_of_true ⟨r1,hr1,hsame.trans hdata⟩ ⟨by simp [hr1],fun row he => ?_⟩
      exact (hnone row he).elim

theorem spares_step [DecidableEq ι] {self : Node L} {w : NodeState} {r : NodeRow}
    {P P' : Pool ι Req Ans Err Unit NodeState} (hP : Pool.Steps (rules self) (initial w) P)
    (hw : Holds r P.world) (h : Pool.Step (rules self) P P') :
    Holds r P'.world ↔ Spares r P P' := by
  obtain ⟨r0,hr0,_⟩ := id hw
  cases h with
  | drift w' h => exact h.elim
  | start i p w' _ h =>
    obtain ⟨_,rfl⟩ := h
    refine iff_of_true hw ⟨by simp [hr0],?_⟩
    rintro j ⟨row,a,_,hs⟩
    exact (Pool.no_snoc_of_start hs).elim
  | answer i q c a w' ht h =>
    have hi : ¬ (P.tasks i).Done := by simp [ht,Prog.Done]
    have hpath := Pool.OnPath.waits (P := initial w) (fun _ => .here _) hP ht
    have hq : Uncertified q :=
      (uncertified_runs (launched_runs hP i hi)).waits hpath (fun _ _ => trivial)
    refine (holds_answers h hw hq).trans (and_congr_right fun _ => ?_)
    constructor
    · rintro hrow j ⟨row,b,hid,hs⟩
      obtain ⟨_,he⟩ := Pool.snoc_of_answer hs
      cases he
      exact hrow row rfl hid
    · rintro hspares row rfl hid
      exact hspares i ⟨row,a,hid,by simp⟩

/-- A row that stays in the table keeps what is registered of the node just when it
has no certificate, or nobody enters the node again. -/
theorem registration_stable_iff [DecidableEq ι] (self : Node L) {w : NodeState} {r : NodeRow}
    (hr : w.storage.nodeTable.find r.nodeId = some r) (P : Pool ι Req Ans Err Unit NodeState) :
    Relation.ReflTransGen (fun P1 P2 => Pool.Step (rules self) P1 P2 ∧ Spares r P1 P2)
        (initial w) P ↔
      Relation.ReflTransGen (fun P1 P2 => Pool.Step (rules self) P1 P2 ∧ Holds r P2.world)
        (initial w) P :=
  Pool.steps_permitted_iff (J := Pool.Steps (rules self) (initial w)) (I := fun P => Holds r P.world)
    (fun _ _ hP hs => hP.tail hs) (fun _ _ hP hw hs => spares_step hP hw hs) .refl ⟨r,hr,.refl r⟩

/-- The node "x", with this certificate. -/
def sampleCertified (cert : Bytes) : NodeRow := { sampleNews with cert := cert }

def sampleTable (cert : Bytes) : NodeState :=
  { sampleEmpty with storage := Storage.empty.upsertNode (sampleCertified cert) }

/-- The rules for runs in which the node "x" stays in the table. -/
def staying : Rules Unit Req Ans Err Unit NodeState :=
  { rules (sampleNode false) with
    answer := fun i w q a w' => (rules (sampleNode false)).answer i w q a w' ∧
      (w'.storage.nodeTable.find (.text "x")).isSome = true }

theorem staying_steps {P P' : Pool Unit Req Ans Err Unit NodeState} (h : Pool.Steps staying P P')
    (h0 : P.world.storage.nodeTable.find (.text "x") ≠ none) :
    Relation.ReflTransGen (fun P1 P2 => Pool.Step (rules (sampleNode false)) P1 P2 ∧
      P2.world.storage.nodeTable.find (.text "x") ≠ none) P P' ∧
      P'.world.storage.nodeTable.find (.text "x") ≠ none := by
  induction h with
  | refl => exact ⟨.refl,h0⟩
  | tail _ hs ih =>
    cases hs with
    | answer i q k a w ht hw =>
      have hstay : w.storage.nodeTable.find (.text "x") ≠ none := by
        intro hnone
        have hw := hw.2
        simp [hnone] at hw
      exact ⟨ih.1.tail ⟨.answer i q k a w ht hw.1,hstay⟩,hstay⟩
    | start i p w ht hw =>
      obtain ⟨hp,rfl⟩ := hw
      exact ⟨ih.1.tail ⟨.start i p _ ht ⟨hp,rfl⟩,ih.2⟩,ih.2⟩
    | drift w hw => exact hw.elim

def rejoin (cert : Bytes) : Run Req Ans Err Unit World :=
  run joinEnv.handler (Node.join shortSigLib "b:2") ⟨sampleTable cert,0⟩

/-- The node is joined again, and its row stays. -/
theorem exists_rejoined (cert : Bytes)
    (hpasses : joinEnv.handler.passes
      (fun _ w => (w.state.storage.nodeTable.find (.text "x")).isSome) ⟨sampleTable cert,0⟩
      (rejoin cert).trace = true) :
    ∃ P : Pool Unit Req Ans Err Unit NodeState,
      Relation.ReflTransGen (fun P1 P2 => Pool.Step (rules (sampleNode false)) P1 P2 ∧
        P2.world.storage.nodeTable.find (.text "x") ≠ none) (initial (sampleTable cert)) P ∧
      P.launched () = Node.join shortSigLib "b:2" ∧ (P.tasks ()).Done ∧
      P.world = (rejoin cert).final.state := by
  have hallow := Rules.allows_run (R := staying) (i := ()) joinEnv.handler World.state
    (fun _ w => (w.state.storage.nodeTable.find (.text "x")).isSome)
    (fun q s hok => ⟨NodeState.answers_handler joinEnv q s,hok⟩) _ ⟨sampleTable cert,0⟩ hpasses
  obtain ⟨P,hs,hl,_,ht,hw⟩ := Pool.exists_run_of_start (R := staying)
    (P := initial (sampleTable cert)) (i := ()) trivial ⟨Runs.join "b:2",rfl⟩
    (run_path joinEnv.handler (Node.join shortSigLib "b:2") ⟨sampleTable cert,0⟩) hallow
  refine ⟨P,(staying_steps hs (by simp [initial,sampleTable,sampleCertified,sampleNews,
    Storage.upsertNode,Table.find_upsert])).1,by simp [hl],?_,hw⟩
  rw [ht,Function.update_self]
  exact Prog.done_ofExcept _

theorem registration_stable_sample : ∃ P : Pool Unit Req Ans Err Unit NodeState,
    Relation.ReflTransGen (fun P1 P2 => Pool.Step (rules (sampleNode false)) P1 P2 ∧
      Holds (sampleCertified []) P2.world) (initial (sampleTable [])) P ∧
    P.launched () = Node.join shortSigLib "b:2" ∧ (P.tasks ()).Done ∧
    ∃ row, P.world.storage.nodeTable.find (.text "x") = some row ∧ row.address = .text "b:2" := by
  obtain ⟨P,hrun,hl,hd,hw⟩ := exists_rejoined [] (by decide +kernel)
  refine ⟨P,(registration_stable_iff (sampleNode false) (r := sampleCertified []) rfl P).mp ?_,hl,hd,?_⟩
  · exact hrun.lift id (fun _ _ h => ⟨h.1,h.2,fun _ _ => rfl⟩)
  · rw [hw]
    exact ⟨_,rfl,by decide +kernel⟩

/-- Another join through a node that is known with a certificate takes the certificate
out of its row. -/
theorem rejoin_clears_certificate : ∃ P : Pool Unit Req Ans Err Unit NodeState,
    (sampleTable [7]).storage.nodeTable.find (.text "x") = some (sampleCertified [7]) ∧
    Relation.ReflTransGen (fun P1 P2 => Pool.Step (rules (sampleNode false)) P1 P2 ∧
      P2.world.storage.nodeTable.find (.text "x") ≠ none) (initial (sampleTable [7])) P ∧
    P.launched () = Node.join shortSigLib "b:2" ∧
    ∃ row, P.world.storage.nodeTable.find (.text "x") = some row ∧ row.cert = [] := by
  obtain ⟨P,hrun,hl,_,hw⟩ := exists_rejoined [7] (by decide +kernel)
  refine ⟨P,rfl,hrun,hl,?_⟩
  rw [hw]
  exact ⟨_,rfl,by decide +kernel⟩

end Certificates

end Nevod
