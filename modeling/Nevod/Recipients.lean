import Nevod.Registration

/-!
The encryption keys in the cells table: registrations handled on any number of
connections, in any interleaving, from an empty table.
-/

set_option autoImplicit false

namespace Nevod
open Text Resume Keyed

variable {L : Lib} {ι : Type}

namespace Recipients

/-- The field `enc_pubkey` as it is decoded from a CELL_REGISTER packet. -/
def encField (L : Lib) (pkt : Packet) : Except Err Val :=
  (decodePayload L pkt.payload).bind (fun data => data.item "enc_pubkey")

/-- The state of the node with the packet each slot is handling and, for every row
of the cells table, the field its key was taken from. -/
structure Desk (ι : Type) where
  state : NodeState
  hand : ι → Packet
  source : String → Except Err Val

def Desk.answer (L : Lib) (i : ι) (w : Desk ι) (q : Req) (state : NodeState) : Desk ι where
  state := state
  hand := w.hand
  source :=
    match q with
    | .store (.registerCell c _ _ _) => Function.update w.source c (encField L (w.hand i))
    | _ => w.source

/-- One packet after another is handled on each of the connections; other work of the
node leaves the table alone. -/
def rules [DecidableEq ι] (self : Node L) (conn : ι → PeerConnection) :
    Rules ι Req Ans Err Unit (Desk ι) where
  answer := fun i w q a w' => ∃ state, w.state.Answers q a state ∧ w' = w.answer L i q state
  start := fun i w p w' => ∃ pkt, p = Node.dispatch self pkt (conn i) ∧
    w' = { w with hand := Function.update w.hand i pkt }
  drift := fun w w' => ∃ state, state.storage.cells = w.state.storage.cells ∧
    w' = { w with state := state }

/-- Nothing is handled yet. -/
def initial (w : Desk ι) : Pool ι Req Ans Err Unit (Desk ι) :=
  ⟨fun _ => .ret (),fun _ => [],fun _ => .ret (),w⟩

/-- What `from_public_bytes` raises. -/
def malformedKey : Err := .valueError "An X25519 public key is 32 bytes long"

/-- `send_message` to the cell of this row ends with that exception. -/
def FailsOnKey (self : Node L) (cell : CellEntry) : Prop :=
  ∃ toCellAtNode nodeId plaintext fromCellId rnd,
    splitAddr toCellAtNode = some (cell.cellId,nodeId) ∧
    L.xExchange rnd.ephemeral cell.encPubkey = .error malformedKey ∧
    Path (Node.sendMessage self toCellAtNode plaintext fromCellId)
      [⟨.store (.getCell cell.cellId),some cell⟩,⟨.sealRandom,rnd⟩] (.raise malformedKey)

/-- Every stored key has 32 bytes that came as a byte string, and can be written to. -/
def Desk.Writable (self : Node L) (w : Desk ι) : Prop :=
  ∀ c row, w.state.storage.cells.find c = some row →
    row.encPubkey.length = 32 ∧ w.source c = .ok (.bin row.encPubkey) ∧ ¬ FailsOnKey self row

/-- The packet brings a byte string of 32 bytes as its encryption key. -/
def BringsKey (L : Lib) (pkt : Packet) : Prop :=
  ∃ b, encField L pkt = .ok (.bin b) ∧ b.length = 32

/-- In this step slot `i` stores a registration. -/
def Stores (i : ι) (P P' : Pool ι Req Ans Err Unit (Desk ι)) : Prop :=
  ∃ c sp ep isHome a,
    P'.history i = P.history i ++ [⟨.store (.registerCell c sp ep isHome),a⟩]

/-- If the step stores a registration, its packet brings a key. -/
def StoresKey (L : Lib) (P P' : Pool ι Req Ans Err Unit (Desk ι)) : Prop :=
  ∀ i, Stores i P P' → BringsKey L (P.world.hand i)

/-- Every slot is at work on the packet in its hand. -/
def InHand (self : Node L) (conn : ι → PeerConnection)
    (P : Pool ι Req Ans Err Unit (Desk ι)) : Prop :=
  ∀ i, ¬ (P.tasks i).Done →
    Path (Node.dispatch self (P.world.hand i) (conn i)) (P.history i) (P.tasks i)

section

variable {self : Node L} {conn : ι → PeerConnection}

@[simp] theorem Desk.hand_answer (i : ι) (w : Desk ι) (q : Req) (state : NodeState) :
    (w.answer L i q state).hand = w.hand := rfl

theorem encField_of_cellClaim {pkt : Packet} {claim : Node.CellClaim}
    (h : Node.cellClaim L pkt = .ok claim) :
    ∃ v, encField L pkt = .ok v ∧ v.toBytes = .ok claim.encPub := by
  unfold Node.cellClaim at h
  obtain ⟨data,hdata,h⟩ := exists_of_bind h
  obtain ⟨cellId,_,h⟩ := exists_of_bind h
  obtain ⟨signing,_,h⟩ := exists_of_bind h
  obtain ⟨signingPub,_,h⟩ := exists_of_bind h
  obtain ⟨enc,henc,h⟩ := exists_of_bind h
  obtain ⟨encPub,hpub,h⟩ := exists_of_bind h
  obtain ⟨isHome,_,h⟩ := exists_of_bind h
  cases h
  exact ⟨enc,by simp [encField,hdata,Except.bind,henc],hpub⟩

/-- Every task of the pool is the handler of the packet in hand, and a registration
it stores is the claim of that packet. -/
theorem claim_of_register {P : Pool ι Req Ans Err Unit (Desk ι)} (hP : InHand self conn P)
    {i : ι} {c : String} {sp ep : Bytes} {isHome : Bool}
    {k : Ans (.store (.registerCell c sp ep isHome)) → NodeProg Unit}
    (ht : P.tasks i = .ask (.store (.registerCell c sp ep isHome)) k) :
    ∃ v, encField L (P.world.hand i) = .ok v ∧ v.toBytes = .ok ep := by
  have hpath := hP i (by simp [ht,Prog.Done])
  rw [ht] at hpath
  have hwithin : Within self (fun _ => True) (P.world.hand i) (conn i)
      (Node.dispatch self (P.world.hand i) (conn i)) := within_dispatch
  obtain ⟨claim,hacc,_,_,rfl,_⟩ :=
    hwithin.waits hpath (fun e _ => Registration.readsWaiting_all e.1 e.2)
  exact encField_of_cellClaim hacc.2.1

theorem cells_answers {w w' : NodeState} {q : Req} {a : Ans q} (h : w.Answers q a w')
    (hq : ∀ c sp ep isHome, q ≠ .store (.registerCell c sp ep isHome)) :
    w'.storage.cells = w.storage.cells := by
  cases q with
  | store op =>
    obtain ⟨now,_,rfl⟩ := h
    cases op with
    | registerCell c sp ep isHome => exact absurd rfl (hq c sp ep isHome)
    | _ => rfl
  | connGet nodeId => rw [h.2]
  | _ => cases h; rfl

theorem find_registerCell {w w' : NodeState} {c : String} {sp ep : Bytes} {isHome : Bool}
    {a : Ans (.store (.registerCell c sp ep isHome))}
    (h : w.Answers (.store (.registerCell c sp ep isHome)) a w') (c' : String) :
    (c' ≠ c → w'.storage.cells.find c' = w.storage.cells.find c') ∧
      ∃ row, w'.storage.cells.find c = some row ∧ row.encPubkey = ep := by
  obtain ⟨now,_,rfl⟩ := h
  simp only [Storage.exec,Storage.registerCell,Table.find_upsert]
  refine ⟨fun hne => by simp [hne],_,by simp; rfl,?_⟩
  cases w.storage.cells.find c <;> rfl

theorem not_failsOnKey (hkey : ∀ k b, L.xExchange k b = .error malformedKey ↔ b.length ≠ 32)
    {cell : CellEntry} (hlen : cell.encPubkey.length = 32) : ¬ FailsOnKey self cell := by
  rintro ⟨_,_,_,_,rnd,_,hfail,_⟩
  exact (hkey _ _).mp hfail hlen

/-- Sending to a cell of another key length does fail. -/
theorem failsOnKey (hkey : ∀ k b, L.xExchange k b = .error malformedKey ↔ b.length ≠ 32)
    {cell : CellEntry} (hlen : cell.encPubkey.length ≠ 32) (hid : '@' ∉ cell.cellId.toList) :
    FailsOnKey self cell := by
  have hfail := (hkey SealRandom.zero.ephemeral _).mpr hlen
  have hsplit := splitAddr_join hid ""
  refine ⟨_,"",[],none,SealRandom.zero,hsplit,hfail,?_⟩
  have hencrypt : encrypt L SealRandom.zero [] cell.encPubkey = .error malformedKey := by
    rw [encrypt,hfail]
  unfold Node.sendMessage
  rw [hsplit]
  refine .step (A := Ans) (.store (.getCell cell.cellId)) _ (some cell) ?_
  simp only [Prog.bind_ret,Prog.bind_eq]
  refine .step (A := Ans) .sealRandom _ SealRandom.zero ?_
  simp only [Prog.bind_ret,hencrypt,Prog.ofExcept_error,Prog.bind_raise]
  exact .here _

/-- A registration is stored from a good state: the next one is good just when the
packet brings a key. -/
theorem Desk.Writable.register (hkey : ∀ k b, L.xExchange k b = .error malformedKey ↔ b.length ≠ 32)
    {w : Desk ι} (hw : w.Writable self) {i : ι} {c : String} {sp ep : Bytes} {isHome : Bool}
    {a : Ans (.store (.registerCell c sp ep isHome))} {state : NodeState}
    (ha : w.state.Answers (.store (.registerCell c sp ep isHome)) a state) {v : Val}
    (hv : encField L (w.hand i) = .ok v) (hep : v.toBytes = .ok ep) :
    (w.answer L i (.store (.registerCell c sp ep isHome)) state).Writable self ↔
      BringsKey L (w.hand i) := by
  obtain ⟨row,hrow,hrowKey⟩ := (find_registerCell ha c).2
  constructor
  · intro hgood
    obtain ⟨hlen,hsource,_⟩ := hgood c row hrow
    exact ⟨row.encPubkey,by simpa [Desk.answer] using hsource,hlen⟩
  · rintro ⟨b,hb,hlen⟩ c' row' hrow'
    by_cases hc : c' = c
    · subst hc
      obtain rfl : row' = row := Option.some.inj (hrow'.symm.trans hrow)
      rw [hv] at hb
      cases hb
      cases hep
      refine ⟨by rw [hrowKey]; exact hlen,by simp [Desk.answer,hv,hrowKey],?_⟩
      exact not_failsOnKey hkey (by rw [hrowKey]; exact hlen)
    · have hold := hw c' row' (by rw [← (find_registerCell ha c').1 hc]; exact hrow')
      exact ⟨hold.1,by simpa [Desk.answer,hc] using hold.2.1,hold.2.2⟩

theorem Desk.Writable.answer {w : Desk ι} (hw : w.Writable self) {i : ι} {q : Req} {a : Ans q}
    {state : NodeState} (ha : w.state.Answers q a state)
    (hq : ∀ c sp ep isHome, q ≠ .store (.registerCell c sp ep isHome)) :
    (w.answer L i q state).Writable self := by
  intro c row hrow
  have hsource : (w.answer L i q state).source = w.source := by
    unfold Desk.answer
    split
    · exact absurd rfl (hq _ _ _ _)
    · rfl
  rw [hsource]
  exact hw c row (by rw [← cells_answers ha hq]; exact hrow)

section Steps

variable [DecidableEq ι]

theorem inHand_step {P P' : Pool ι Req Ans Err Unit (Desk ι)} (hP : InHand self conn P)
    (h : Pool.Step (rules self conn) P P') : InHand self conn P' := by
  intro j hj
  cases h with
  | answer i q k a w ht h =>
    obtain ⟨state,_,rfl⟩ := h
    by_cases hji : j = i
    · subst hji
      have hpath := hP j (by simp [ht,Prog.Done])
      rw [ht] at hpath
      simpa using hpath.snoc a
    · simp only [Function.update_of_ne hji] at hj ⊢
      exact hP j hj
  | start i p w _ h =>
    obtain ⟨pkt,rfl,rfl⟩ := h
    by_cases hji : j = i
    · subst hji
      simpa using Path.here _
    · simp only [Function.update_of_ne hji] at hj ⊢
      exact hP j hj
  | drift w h =>
    obtain ⟨state,_,rfl⟩ := h
    exact hP j hj

/-- Only the slot that is answered stores something, and it is what it asked for. -/
theorem Stores.of_answer {P : Pool ι Req Ans Err Unit (Desk ι)} {i j : ι} {q : Req} {a : Ans q}
    {tasks : ι → NodeProg Unit} {w : Desk ι}
    (h : Stores j P ⟨P.launched,Function.update P.history i (P.history i ++ [⟨q,a⟩]),tasks,w⟩) :
    j = i ∧ ∃ c sp ep isHome, q = .store (.registerCell c sp ep isHome) := by
  obtain ⟨c,sp,ep,isHome,b,hs⟩ := h
  obtain ⟨hj,he⟩ := Pool.snoc_of_answer hs
  cases he
  exact ⟨hj,c,sp,ep,isHome,rfl⟩

/-- A step that stores a registration leads to a good state just when its packet
brings a key; every other step keeps a good state good. -/
theorem writable_step_iff (hkey : ∀ k b, L.xExchange k b = .error malformedKey ↔ b.length ≠ 32)
    {P P' : Pool ι Req Ans Err Unit (Desk ι)} (hP : InHand self conn P)
    (hw : P.world.Writable self) (h : Pool.Step (rules self conn) P P') :
    P'.world.Writable self ↔ StoresKey L P P' := by
  cases h with
  | start i p w _ h =>
    obtain ⟨pkt,_,rfl⟩ := h
    refine iff_of_true hw ?_
    rintro j ⟨c,sp,ep,isHome,a,hs⟩
    exact (Pool.no_snoc_of_start hs).elim
  | drift w h =>
    obtain ⟨state,hcells,rfl⟩ := h
    refine iff_of_true (fun c row hrow => hw c row (by rw [← hcells]; exact hrow)) ?_
    rintro j ⟨c,sp,ep,isHome,a,hs⟩
    simp at hs
  | answer i q k a w ht h =>
    obtain ⟨state,ha,rfl⟩ := h
    by_cases hq : ∃ c sp ep isHome, q = .store (.registerCell c sp ep isHome)
    · obtain ⟨c,sp,ep,isHome,rfl⟩ := hq
      obtain ⟨v,hv,hep⟩ := claim_of_register hP ht
      rw [hw.register hkey ha hv hep]
      constructor
      · intro hbrings j hs
        rw [hs.of_answer.1]
        exact hbrings
      · intro hstores
        exact hstores i ⟨c,sp,ep,isHome,a,by simp⟩
    · refine iff_of_true (hw.answer ha (fun c sp ep isHome he => hq ⟨c,sp,ep,isHome,he⟩)) ?_
      intro j hs
      exact (hq hs.of_answer.2).elim

end Steps

end

/-- A run from an empty table goes through good states only exactly if every
registration it stores brings its encryption key as a byte string of 32 bytes. -/
theorem recipients_writable_iff [DecidableEq ι] (self : Node L) (conn : ι → PeerConnection)
    (hkey : ∀ k b, L.xExchange k b = .error malformedKey ↔ b.length ≠ 32) {w : Desk ι}
    (hw : w.state.storage.cells = Table.empty) (P : Pool ι Req Ans Err Unit (Desk ι)) :
    Relation.ReflTransGen (fun P1 P2 => Pool.Step (rules self conn) P1 P2 ∧ StoresKey L P1 P2)
        (initial w) P ↔
      Relation.ReflTransGen
        (fun P1 P2 => Pool.Step (rules self conn) P1 P2 ∧ P2.world.Writable self)
        (initial w) P := by
  refine Pool.steps_permitted_iff (J := InHand self conn) (I := fun P => P.world.Writable self)
    (fun _ _ => inHand_step) (fun _ _ => writable_step_iff hkey) ?_ ?_
  · intro i hi
    exact (hi trivial).elim
  · intro c row hrow
    rw [show (initial w : Pool ι Req Ans Err Unit (Desk ι)).world = w from rfl,hw] at hrow
    simp at hrow

open Registration (sampleOwner sampleOwner_accepts dispatch_of_accepts)

def sampleDesk : Desk Unit :=
  ⟨⟨Storage.empty,ConnectionRegistry.empty⟩,
    fun _ => { type := .none, payload := .none, id := .none, ts := .none },
    fun _ => .error .keyError⟩

/-- The sample cell registers with this value as its encryption key, and the row holds
the bytes made of it. -/
theorem exists_stored {v : Val} (hpack : v.packable 510 = true) {ep : Bytes}
    (hep : v.toBytes = .ok ep) :
    ∃ P1 P2 : Pool Unit Req Ans Err Unit (Desk Unit),
      Pool.Step (rules (sampleNode false) (fun _ => sampleOwner)) (initial sampleDesk) P1 ∧
      Pool.Step (rules (sampleNode false) (fun _ => sampleOwner)) P1 P2 ∧
      ¬ Stores () (initial sampleDesk) P1 ∧ encField shortSigLib (P1.world.hand ()) = .ok v ∧
      ∃ row, P2.world.state.storage.cells.find sampleOwner.peerNodeId = some row ∧
        row.encPubkey = ep := by
  obtain ⟨pkt,hacc,hfield⟩ := sampleOwner_accepts hpack hep true
  obtain ⟨k,hk⟩ : ∃ k, Node.dispatch (sampleNode false) pkt sampleOwner =
      .ask (.store (.registerCell sampleOwner.peerNodeId sampleOwner.peerSigningPubkey ep true)) k :=
    ⟨_,by rw [dispatch_of_accepts hacc]; rfl⟩
  refine ⟨_,_,.start () (Node.dispatch (sampleNode false) pkt sampleOwner) _ trivial
    ⟨pkt,rfl,rfl⟩,.answer () _ k () _ (by simpa using hk) ⟨_,⟨0,rfl,rfl⟩,rfl⟩,?_,?_,?_⟩
  · rintro ⟨_,_,_,_,_,h⟩
    simp at h
  · simpa [encField] using hfield
  · refine ⟨⟨sampleOwner.peerNodeId,sampleOwner.peerSigningPubkey,ep,0,true⟩,?_,rfl⟩
    simp [initial,sampleDesk,Desk.answer,Storage.exec,Storage.registerCell,Table.find_upsert,
      Storage.empty]

theorem shortSigLib_malformedKey (k : Seed) (b : Bytes) :
    shortSigLib.xExchange k b = .error malformedKey ↔ b.length ≠ 32 := by
  by_cases h : b.length = 32 <;> simp [shortSigLib,sampleLib,malformedKey,h]

theorem recipients_writable_sample : ∃ P : Pool Unit Req Ans Err Unit (Desk Unit),
    Relation.ReflTransGen (fun P1 P2 =>
      Pool.Step (rules (sampleNode false) (fun _ => sampleOwner)) P1 P2 ∧
        P2.world.Writable (sampleNode false)) (initial sampleDesk) P ∧
    ∃ row, P.world.state.storage.cells.find sampleOwner.peerNodeId = some row ∧
      row.encPubkey = List.replicate 32 0 := by
  obtain ⟨P1,P2,h1,h2,hno,hfield,hrow⟩ :=
    exists_stored (v := .bin (List.replicate 32 0)) (by decide) rfl
  refine ⟨P2,(recipients_writable_iff (sampleNode false) (fun _ => sampleOwner)
    shortSigLib_malformedKey rfl P2).mp ?_,hrow⟩
  exact .tail (.tail .refl ⟨h1,fun _ hs => (hno hs).elim⟩)
    ⟨h2,fun _ _ => ⟨_,hfield,by simp⟩⟩

/-- A cell registers with the integer 5 for its key: five zero bytes are stored,
and writing to the cell ends with an exception. -/
theorem integer_taken_for_key : ¬ ∀ P : Pool Unit Req Ans Err Unit (Desk Unit),
    Pool.Steps (rules (sampleNode false) (fun _ => sampleOwner)) (initial sampleDesk) P →
      P.world.Writable (sampleNode false) := by
  intro hall
  obtain ⟨P1,P2,h1,h2,_,_,row,hrow,hkey⟩ :=
    exists_stored (by decide) (show (Val.int 5).toBytes = .ok (List.replicate 5 0) from rfl)
  have hid : row.cellId = sampleOwner.peerNodeId := ((Table.find_eq_some _).mp hrow).2
  have hwritable := (hall P2 (.tail (.tail .refl h1) h2) _ row hrow).2.2
  exact hwritable (failsOnKey shortSigLib_malformedKey (by simp [hkey])
    (by rw [hid]; exact at_not_mem_hex _))

end Recipients

end Nevod
