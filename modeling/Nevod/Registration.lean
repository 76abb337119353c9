import Nevod.Handlers
import Nevod.Lib.Tasks

/-!
Who can write the registration of a cell: packets handled on any number of
connections, in any interleaving.
-/

set_option autoImplicit false

namespace Nevod
open Text Resume Keyed

variable {L : Lib} {ι : Type}

/-- Storage and registry answer as they are; every other request is answered by
the world outside in any way. -/
def NodeState.Answers (w : NodeState) : (q : Req) → Ans q → NodeState → Prop
  | .store op,a,w' => ∃ now, a = (w.storage.exec now op).1 ∧
      w' = { w with storage := (w.storage.exec now op).2 }
  | .connGet nodeId,a,w' => a = w.connections.get nodeId ∧ w' = w
  | .connAdd conn,_,w' => w' = { w with connections := w.connections.add conn }
  | .connRemove nodeId,_,w' => w' = { w with connections := w.connections.remove nodeId }
  | _,_,w' => w' = w

theorem NodeState.answers_handler (env : Env) (q : Req) (w : World) :
    w.state.Answers q (env.handler q w).1 (env.handler q w).2.state := by
  cases q with
  | store op => exact ⟨env.now w.step,rfl,rfl⟩
  | connGet nodeId => exact ⟨rfl,rfl⟩
  | _ => exact rfl

/-- What a task alone does is allowed where all of its answers are. -/
theorem Env.allows_run {R : Rules ι Req Ans Err Unit NodeState} {i : ι} {env : Env}
    (hR : ∀ q w, R.answer i w.state q (env.handler q w).1 (env.handler q w).2.state)
    (p : NodeProg Unit) (w : World) :
    R.Allows i w.state (run env.handler p w).trace (run env.handler p w).final.state := by
  induction p generalizing w with
  | ret a => exact .nil _
  | raise e => exact .nil _
  | ask q k ih => exact .cons (hR q w) (ih _ _)

namespace Registration

/-- One packet after another is handled on each of the connections. -/
def rules (self : Node L) (conn : ι → PeerConnection) : Rules ι Req Ans Err Unit NodeState where
  answer := fun _ w q a w' => w.Answers q a w'
  start := fun i w p w' => (∃ pkt, p = Node.dispatch self pkt (conn i)) ∧ w' = w
  drift := fun _ _ => False

def initial (w : NodeState) : Pool ι Req Ans Err Unit NodeState :=
  ⟨fun _ => .ret (),fun _ => [],fun _ => .ret (),w⟩

/-- The row of a cell holds the key its id is made of. -/
def Owned (w : NodeState) (cellId : String) : Prop :=
  ∃ row, w.storage.cells.find cellId = some row ∧ hex row.signingPubkey = cellId

/-- Requests that write the registration of a cell. -/
def WritesRow (cellId : String) : Req → Prop
  | .store (.registerCell c _ _ _) | .store (.updatePresence c _ _) => c = cellId
  | _ => False

theorem rows_same {w w' : NodeState} {q : Req} {a : Ans q} {c : String}
    (h : w.Answers q a w') (hq : ¬ WritesRow c q) :
    w'.storage.cells.find c = w.storage.cells.find c ∧
      w'.storage.presenceTable.find c = w.storage.presenceTable.find c := by
  cases q with
  | store op =>
    obtain ⟨now,_,rfl⟩ := h
    cases op with
    | registerCell cellId signingPub encPub isHome =>
      have hne : c ≠ cellId := fun he => hq he.symm
      simp [Storage.exec,Storage.registerCell,Table.find_upsert,hne]
    | updatePresence cellId home visiting =>
      have hne : c ≠ cellId := fun he => hq he.symm
      simp [Storage.exec,Storage.updatePresence,Table.find_upsert,hne]
    | _ => exact ⟨rfl,rfl⟩
  | connGet nodeId =>
    obtain ⟨_,rfl⟩ := h
    exact ⟨rfl,rfl⟩
  | _ => cases h; exact ⟨rfl,rfl⟩

theorem owned_answers {w w' : NodeState} {q : Req} {a : Ans q} {c : String}
    (h : w.Answers q a w') (hw : Owned w c)
    (hq : ∀ sp ep isHome, q = .store (.registerCell c sp ep isHome) → hex sp = c) :
    Owned w' c := by
  obtain ⟨row,hrow,hkey⟩ := hw
  by_cases hwr : WritesRow c q
  · cases q with
    | store op =>
      obtain ⟨now,_,rfl⟩ := h
      cases op with
      | registerCell cellId signingPub encPub isHome =>
        cases hwr
        refine ⟨_,by simp [Storage.exec,Storage.registerCell,Table.find_upsert,hrow]; rfl,?_⟩
        exact hq _ _ _ rfl
      | updatePresence cellId home visiting => exact ⟨row,hrow,hkey⟩
      | _ => exact hwr.elim
    | _ => exact hwr.elim
  · exact ⟨row,by rw [(rows_same h hwr).1]; exact hrow,hkey⟩

theorem owned_register {w w' : NodeState} {c : String} {sp ep : Bytes} {isHome : Bool}
    {a : Ans (.store (.registerCell c sp ep isHome))}
    (h : w.Answers (.store (.registerCell c sp ep isHome)) a w') (hkey : hex sp = c) :
    Owned w' c := by
  obtain ⟨now,_,rfl⟩ := h
  refine ⟨_,by simp [Storage.exec,Storage.registerCell,Table.find_upsert]; rfl,?_⟩
  cases w.storage.cells.find c <;> exact hkey

/-- A registration is written under its own key; a presence row only for a cell
that is owned. -/
def guard (owned : String → Prop) : Req → Prop
  | .store (.registerCell c sp _ _) => hex sp = c
  | .store (.updatePresence c _ _) => owned c
  | _ => True

def rely (owned : String → Prop) : (q : Req) → Ans q → Prop
  | .store (.registerCell c _ _ _),_ => owned c
  | _,_ => True

section

variable {self : Node L} {pkt : Packet} {conn : PeerConnection}

theorem dispatch_of_accepts {claim : Node.CellClaim} (h : Accepts L pkt conn claim) :
    Node.dispatch self pkt conn = Node.accept self conn claim := by
  obtain ⟨hty,hclaim,hkey,hid⟩ := h
  rw [dispatch_cellRegister _ hty,Node.handleCellRegister,hclaim]
  simp [hkey,hid,Val.eqStr]

theorem flushBuffer_writes_no_row (cellId : String) :
    Obeys (fun q => ∀ c, ¬ WritesRow c q) (fun _ _ => True) (fun _ => True)
      (Router.flushBuffer self cellId) := by
  refine ⟨fun _ h => h,fun rows _ => Obeys.forEach (fun m _ => ?_)⟩
  unfold Router.flushMessage
  cases deserializePacket L m.payload with
  | none => trivial
  | some p =>
    refine ((Router.route_allowed p).mono_guard (fun q hq c hw => ?_)).bind
      (fun _ _ => ⟨fun _ h => h,fun _ _ => trivial⟩)
    cases q with
    | store op => cases op <;> first | exact hw | exact hq.elim id id
    | _ => exact hw

theorem readsWaiting_all (q : Req) (a : Ans q) : ReadsWaiting (fun _ => True) q a := by
  unfold ReadsWaiting
  split <;> simp

/-- Only an accepted registration writes the rows of a cell: those of the cell
the connection is authenticated as. -/
theorem accepts_of_writes {waiting : BufferedMessage → Prop} {q : Req} {c : String}
    (hq : Handles self waiting pkt conn q) (hw : WritesRow c q) :
    conn.peerNodeId = c ∧ ∃ claim, Accepts L pkt conn claim := by
  cases q with
  | store op =>
    cases op with
    | registerCell cellId sp ep isHome =>
      obtain ⟨claim,hacc,rfl,_⟩ := hq
      exact ⟨hw,claim,hacc⟩
    | updatePresence cellId home visiting =>
      obtain ⟨hacc,rfl,_⟩ := hq
      exact ⟨hw,hacc⟩
    | _ => exact hw.elim
  | _ => exact hw.elim

theorem guard_of_not_writes {q : Req} (h : ∀ c, ¬ WritesRow c q) (owned : String → Prop) :
    guard owned q := by
  cases q with
  | store op =>
    cases op with
    | registerCell c sp ep isHome => exact (h c rfl).elim
    | updatePresence c home visiting => exact (h c rfl).elim
    | _ => trivial
  | _ => trivial

theorem keeps_of_not_writes {p : NodeProg Unit}
    (h : Obeys (fun q => ∀ c, ¬ WritesRow c q) (fun _ _ => True) (fun _ => True) p)
    (owned : String → Prop) : Keeps guard rely (fun _ _ => True) owned p :=
  h.keeps owned (fun u _ _ hq => guard_of_not_writes hq u) (fun _ _ _ _ _ => trivial)

/-- A registration is stored before the presence row is written. -/
theorem keeps_dispatch (hconn : conn.peerNodeId = hex conn.peerSigningPubkey)
    (owned : String → Prop) :
    Keeps guard rely (fun _ _ => True) owned (Node.dispatch self pkt conn) := by
  by_cases hty : pkt.type = .str T.cellRegister
  · rw [dispatch_cellRegister _ hty]
    unfold Node.handleCellRegister
    cases Node.cellClaim L pkt with
    | error e => trivial
    | ok c =>
      simp only []
      split
      · trivial
      · rename_i hkey
        split
        · trivial
        · have hhex : hex c.signingPub = conn.peerNodeId := by rw [hconn,not_not.mp hkey]
          refine ⟨hhex,fun u _ _ hu => ⟨hu,fun u' _ _ _ => ?_⟩⟩
          exact keeps_of_not_writes (flushBuffer_writes_no_row conn.peerNodeId) u'
  · refine keeps_of_not_writes ?_ owned
    have hd : Within self (fun _ => True) pkt conn (Node.dispatch self pkt conn) :=
      within_dispatch
    refine (hd.mono_guard (fun q hq c hw => ?_)).mono_rely (fun q a _ => readsWaiting_all q a)
    obtain ⟨_,claim,hacc⟩ := accepts_of_writes hq hw
    exact hty hacc.1

end

/-- Every packet is handled with the rows of the cells that are owned. -/
def discipline (self : Node L) (conn : ι → PeerConnection)
    (hconn : ∀ i, (conn i).peerNodeId = hex (conn i).peerSigningPubkey) :
    Discipline (String → Prop) (rules self conn) where
  inv := fun _ => True
  view := Owned
  guard := fun _ => guard
  rely := fun _ => rely
  mono := by
    intro i v u q hvu hq
    cases q with
    | store op =>
      cases op with
      | registerCell c sp ep isHome => exact hq
      | updatePresence c home visiting => exact hvu c hq
      | _ => trivial
    | _ => trivial
  answer := by
    intro i w q a w' h _ hq
    have hmono : ∀ c, Owned w c → Owned w' c := fun c hc =>
      owned_answers h hc (fun sp ep isHome he => by subst he; exact hq)
    refine ⟨?_,trivial,hmono⟩
    cases q with
    | store op =>
      cases op with
      | registerCell c sp ep isHome => exact owned_register h hq
      | _ => trivial
    | _ => trivial
  start := by
    rintro i w p w' ⟨⟨pkt,rfl⟩,rfl⟩ _
    exact ⟨keeps_dispatch (hconn i) _,trivial,fun c => id⟩
  drift := fun _ _ h => h.elim

theorem launched_dispatch {self : Node L} {conn : ι → PeerConnection} [DecidableEq ι]
    {w : NodeState} {P : Pool ι Req Ans Err Unit NodeState}
    (hP : Pool.Steps (rules self conn) (initial w) P) (i : ι) (hi : ¬ (P.tasks i).Done) :
    ∃ pkt, P.launched i = Node.dispatch self pkt (conn i) :=
  Pool.launched_of_steps (P := initial w) (R := rules self conn)
    (S := fun i p => ∃ pkt, p = Node.dispatch self pkt (conn i)) (fun _ _ _ _ h => h.1)
    (fun _ h => (h trivial).elim) hP i hi

/-- The rows of a cell change only while a CELL_REGISTER is handled that came on a
connection authenticated as the cell, and its row then holds the key that was
proven there. -/
theorem registration_by_owner [DecidableEq ι] (self : Node L) {conn : ι → PeerConnection}
    (hconn : ∀ i, (conn i).peerNodeId = hex (conn i).peerSigningPubkey) {w : NodeState}
    {P P' : Pool ι Req Ans Err Unit NodeState}
    (hP : Pool.Steps (rules self conn) (initial w) P) (hs : Pool.Step (rules self conn) P P')
    (c : String)
    (hc : P'.world.storage.cells.find c ≠ P.world.storage.cells.find c ∨
      P'.world.storage.presenceTable.find c ≠ P.world.storage.presenceTable.find c) :
    ∃ i pkt q a, P'.history i = P.history i ++ [⟨q,a⟩] ∧
      P.launched i = Node.dispatch self pkt (conn i) ∧ pkt.type = .str T.cellRegister ∧
      (conn i).peerNodeId = c ∧
      ∃ row, P'.world.storage.cells.find c = some row ∧ row.cellId = hex row.signingPubkey ∧
        row.signingPubkey = (conn i).peerSigningPubkey := by
  have hholds : (discipline self conn hconn).Holds (initial w) := ⟨trivial,fun _ => trivial⟩
  have hdisc := hholds.steps hP
  have hpath : (initial w : Pool ι Req Ans Err Unit NodeState).OnPath := fun _ => .here _
  have hon := hpath.steps hP
  cases hs with
  | start i p w' hd h =>
    obtain ⟨_,rfl⟩ := h
    simp at hc
  | drift w' h => exact h.elim
  | answer i q k a w' ht h =>
    have h : P.world.Answers q a w' := h
    have hwr : WritesRow c q := by
      by_contra hn
      obtain ⟨h1,h2⟩ := rows_same h hn
      rcases hc with hc | hc
      · exact hc h1
      · exact hc h2
    obtain ⟨pkt,hpkt⟩ := launched_dispatch hP i (by simp [ht,Prog.Done])
    have hwithin : Within self (fun _ => True) pkt (conn i) (P.launched i) := by
      rw [hpkt]
      exact within_dispatch
    have hpath := hon i
    rw [ht] at hpath
    obtain ⟨hid,claim,hacc⟩ := accepts_of_writes
      (hwithin.waits hpath (fun e _ => readsWaiting_all e.1 e.2)) hwr
    have hkeeps := hdisc.2 i
    rw [ht] at hkeeps
    have howned : Owned w' c := by
      cases q with
      | store op =>
        cases op with
        | registerCell cellId sp ep isHome =>
          cases hwr
          exact owned_register h hkeeps.1
        | updatePresence cellId home visiting =>
          cases hwr
          exact owned_answers h hkeeps.1 (fun _ _ _ he => by cases he)
        | _ => exact hwr.elim
      | _ => exact hwr.elim
    obtain ⟨row,hrow,hkey⟩ := howned
    have hcell : row.cellId = c := ((Table.find_eq_some _).mp hrow).2
    refine ⟨i,pkt,q,a,by simp,hpkt,hacc.1,hid,row,hrow,by rw [hkey,hcell],?_⟩
    exact hex_injective (by rw [hkey,← hid,hconn])

def sampleOwner : PeerConnection where
  ws := 1
  peerNodeId := (sampleIdentity shortSigLib 2).id
  peerSigningPubkey := (sampleIdentity shortSigLib 2).signing.pub
  peerEncPubkey := .none
  localNodeId := "n"

/-- The sample cell registers, with these values as its encryption key and its flag. -/
theorem sampleOwner_accepts {v : Val} (hv : v.packable 510 = true) {encPub : Bytes}
    (hpub : v.toBytes = .ok encPub) (isHome : Bool) :
    ∃ pkt, Accepts shortSigLib pkt sampleOwner
        ⟨.str sampleOwner.peerNodeId,sampleOwner.peerSigningPubkey,encPub,isHome⟩ ∧
      (decodePayload shortSigLib pkt.payload).bind (fun data => data.item "enc_pubkey") = .ok v := by
  obtain ⟨payload,hp⟩ := (sampleLib_packLaws digest32).packb_ok
    (.map [(.str "cell_id",.str sampleOwner.peerNodeId),
      (.str "signing_pubkey",.bin sampleOwner.peerSigningPubkey),(.str "enc_pubkey",v),
      (.str "is_home",.bool isHome)])
    (by simp [packDepth,Val.packable,MapKey.toVal,hv]; decide +kernel)
  have hd : decodePayload shortSigLib (.bin payload) = .ok _ :=
    (sampleLib_packLaws digest32).unpackb_packb _ _ hp
  have hsigning : (Val.bin sampleOwner.peerSigningPubkey).toBytes =
      .ok sampleOwner.peerSigningPubkey := rfl
  refine ⟨{ type := .str T.cellRegister, payload := .bin payload, id := .str "", ts := .int 0 },
    ⟨rfl,?_,rfl,rfl⟩,?_⟩
  · simp [Node.cellClaim,hd,bind,Except.bind,pure,Except.pure,Val.item,Val.get,Val.lookup,
      hsigning,hpub,Val.truthy]
  · simp [hd,Except.bind,Val.item,Val.lookup]

theorem registration_by_owner_sample :
    ∃ P P' : Pool Unit Req Ans Err Unit NodeState,
      Pool.Steps (rules (sampleNode false) (fun _ => sampleOwner))
        (initial ⟨Storage.empty,ConnectionRegistry.empty⟩) P ∧
      Pool.Step (rules (sampleNode false) (fun _ => sampleOwner)) P P' ∧
      ∃ row, P'.world.storage.cells.find sampleOwner.peerNodeId = some row ∧
        row.signingPubkey = sampleOwner.peerSigningPubkey := by
  obtain ⟨pkt,hacc,_⟩ := sampleOwner_accepts (v := .bin (List.replicate 32 0)) (by decide) rfl true
  let w : NodeState := ⟨Storage.empty,ConnectionRegistry.empty⟩
  let w' : NodeState := { w with storage := w.storage.registerCell 0 sampleOwner.peerNodeId
                                  sampleOwner.peerSigningPubkey (List.replicate 32 0) true }
  have hconn : ∀ _ : Unit, sampleOwner.peerNodeId = hex sampleOwner.peerSigningPubkey :=
    fun _ => rfl
  obtain ⟨P,hP,htasks,hworld⟩ := Pool.exists_steps_of_start (P := initial w) (i := ())
    (R := rules (sampleNode false) (fun _ => sampleOwner)) trivial ⟨⟨pkt,rfl⟩,rfl⟩ (.here _)
    (.nil w)
  have ht : ∃ k, P.tasks () = .ask (.store (.registerCell sampleOwner.peerNodeId
      sampleOwner.peerSigningPubkey (List.replicate 32 0) true)) k :=
    ⟨_,by rw [htasks,dispatch_of_accepts hacc]; rfl⟩
  obtain ⟨k,ht⟩ := ht
  obtain ⟨P',hs,_,hworld'⟩ := Pool.exists_step_of_answer (P := P) (a := ()) (w := w')
    (R := rules (sampleNode false) (fun _ => sampleOwner)) ht ⟨0,rfl,by rw [hworld]; rfl⟩
  obtain ⟨_,_,_,_,_,_,_,_,row,hrow,_,hkey⟩ := registration_by_owner (sampleNode false) hconn hP hs
    sampleOwner.peerNodeId (.inl (by rw [hworld,hworld']; decide +kernel))
  exact ⟨P,P',hP,hs,row,hrow,hkey⟩

end Registration

end Nevod
