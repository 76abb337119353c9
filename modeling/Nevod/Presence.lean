import Nevod.Registration
import Nevod.Routing

/-!
What the two tables say of a cell after a sequence of accepted registrations,
each of them handled to its end while the node goes on with other work.
-/

set_option autoImplicit false

namespace Nevod
open Text Resume Keyed

variable {L : Lib}

/-- The flag `is_home` of the cell's row. -/
def NodeState.isHome? (w : NodeState) (c : String) : Option Bool :=
  (w.storage.cells.find c).map CellEntry.isHome

def NodeState.homeOf (w : NodeState) (c : String) : Option String :=
  (w.storage.presenceTable.find c).map PresenceEntry.homeNodeId

def NodeState.visitingOf (w : NodeState) (c : String) : Option String :=
  (w.storage.presenceTable.find c).bind PresenceEntry.visitingNodeId

namespace Presence
open Registration

/-- The rows of the cell stay what they are. -/
def SameRows (c : String) (w w' : NodeState) : Prop :=
  w'.storage.cells.find c = w.storage.cells.find c ∧
    w'.storage.presenceTable.find c = w.storage.presenceTable.find c

/-- One handler at work, and beside it anything that leaves the rows of the cell alone. -/
def rules (c : String) : Rules Unit Req Ans Err Unit NodeState where
  answer := fun _ w q a w' => w.Answers q a w'
  start := fun _ _ _ _ => False
  drift := SameRows c

/-- A registration, with the state its handler started in and the one it left. -/
structure Registered where
  before : NodeState
  isHome : Bool
  after : NodeState

/-- An accepted registration of the cell that was handled to the end. -/
def Handled (self : Node L) (c : String) (r : Registered) : Prop :=
  ∃ pkt conn claim, Accepts L pkt conn claim ∧ conn.peerNodeId = c ∧ claim.isHome = r.isHome ∧
    ∃ P P' : Pool Unit Req Ans Err Unit NodeState, P.world = r.before ∧ P'.world = r.after ∧
      Pool.Executes (Pool.Step (rules c)) () (Node.dispatch self pkt conn) P P'

/-- The accepted registrations of a cell, from one state of the node to another. -/
inductive Registers (self : Node L) (c : String) :
    NodeState → List Registered → NodeState → Prop where
  | nil {w w' : NodeState} (h : SameRows c w w') : Registers self c w [] w'
  | cons {w w' : NodeState} {r : Registered} {rs : List Registered} (h : SameRows c w r.before)
      (hr : Handled self c r) (hrs : Registers self c r.after rs w') :
      Registers self c w (r :: rs) w'

/-- The tables say of the cell what its registrations said. -/
structure Agree (node : Node L) (c : String) (w : NodeState) (rs : List Registered)
    (w' : NodeState) : Prop where
  flag : ∀ r, rs.getLast? = some r → w'.isHome? c = some r.isHome
  home : ∀ r ∈ rs, r.isHome = true → r.after.homeOf c = some node.id
  visiting : ∀ r ∈ rs, r.isHome = false →
    r.after.visitingOf c = some node.id ∧ r.after.homeOf c = r.before.homeOf c
  atEnd : w'.homeOf c = some node.id ↔
    (∃ r ∈ rs, r.isHome = true) ∨ w.homeOf c = some node.id

section

variable {self : Node L} {c : String}

theorem SameRows.isHome? {w w' : NodeState} (h : SameRows c w w') : w'.isHome? c = w.isHome? c := by
  simp [NodeState.isHome?,h.1]

theorem SameRows.homeOf {w w' : NodeState} (h : SameRows c w w') : w'.homeOf c = w.homeOf c := by
  simp [NodeState.homeOf,h.2]

theorem SameRows.visitingOf {w w' : NodeState} (h : SameRows c w w') :
    w'.visitingOf c = w.visitingOf c := by
  simp [NodeState.visitingOf,h.2]

/-- The two statements of an accepted registration come first, in this order. -/
theorem accept_asks {conn : PeerConnection} {claim : Node.CellClaim}
    {tr : List (Exchange Req Ans)} {q : Req} {k : Ans q → NodeProg Unit}
    (h : Path (Node.accept self conn claim) tr (.ask q k)) :
    (tr = [] ∧ q = .store (.registerCell conn.peerNodeId claim.signingPub claim.encPub
      claim.isHome)) ∨
    (tr.length = 1 ∧ q = .store (.updatePresence conn.peerNodeId self.id none)) ∨
    (2 ≤ tr.length ∧ ¬ WritesRow conn.peerNodeId q) := by
  cases h with
  | here => exact .inl ⟨rfl,rfl⟩
  | step _ _ _ h =>
    cases h with
    | here => exact .inr (.inl ⟨rfl,rfl⟩)
    | step _ _ _ h =>
      refine .inr (.inr ⟨by simp,?_⟩)
      exact (flushBuffer_writes_no_row conn.peerNodeId).waits h (fun _ _ => trivial) _

theorem accept_done {conn : PeerConnection} {claim : Node.CellClaim}
    {tr : List (Exchange Req Ans)} {p : NodeProg Unit}
    (h : Path (Node.accept self conn claim) tr p) (hd : p.Done) : 2 ≤ tr.length := by
  cases h with
  | here => exact hd.elim
  | step _ _ _ h =>
    cases h with
    | here => exact hd.elim
    | step _ _ _ h => simp

/-- How far the handler has come with the rows of the cell. -/
def Progress (self : Node L) (c : String) (w : NodeState) (isHome : Bool) (n : Nat)
    (w' : NodeState) : Prop :=
  w'.isHome? c = (if n = 0 then w.isHome? c else some ((w.isHome? c).getD isHome)) ∧
    (2 ≤ n → w'.homeOf c = some self.id ∧ w'.visitingOf c = none)

theorem Progress.sameRows {w w' w'' : NodeState} {isHome : Bool} {n : Nat}
    (h : Progress self c w isHome n w') (hs : SameRows c w' w'') :
    Progress self c w isHome n w'' :=
  ⟨by rw [hs.isHome?]; exact h.1,fun hn => by rw [hs.homeOf,hs.visitingOf]; exact h.2 hn⟩

theorem isHome?_registerCell {w w' : NodeState} {sp ep : Bytes} {isHome : Bool}
    {a : Ans (.store (.registerCell c sp ep isHome))}
    (h : w.Answers (.store (.registerCell c sp ep isHome)) a w') :
    w'.isHome? c = some ((w.isHome? c).getD isHome) := by
  obtain ⟨now,_,rfl⟩ := h
  simp only [NodeState.isHome?,Storage.exec,Storage.registerCell,Table.find_upsert,if_true]
  cases w.storage.cells.find c <;> rfl

theorem rows_updatePresence {w w' : NodeState} {home : String} {visiting : Option String}
    {a : Ans (.store (.updatePresence c home visiting))}
    (h : w.Answers (.store (.updatePresence c home visiting)) a w') :
    w'.isHome? c = w.isHome? c ∧ w'.homeOf c = some home ∧ w'.visitingOf c = visiting := by
  obtain ⟨now,_,rfl⟩ := h
  simp only [NodeState.isHome?,NodeState.homeOf,NodeState.visitingOf,Storage.exec,
    Storage.updatePresence,Table.find_upsert,if_true]
  cases w.storage.presenceTable.find c <;> simp

/-- One request of the handler. -/
theorem Progress.answer {conn : PeerConnection} {claim : Node.CellClaim} {w w1 w2 : NodeState}
    {tr : List (Exchange Req Ans)} {q : Req} {k : Ans q → NodeProg Unit} {a : Ans q}
    (h : Progress self conn.peerNodeId w claim.isHome tr.length w1)
    (hp : Path (Node.accept self conn claim) tr (.ask q k)) (ha : w1.Answers q a w2) :
    Progress self conn.peerNodeId w claim.isHome (tr.length + 1) w2 := by
  rcases accept_asks hp with ⟨rfl,rfl⟩ | ⟨hn,rfl⟩ | ⟨hn,hq⟩
  · refine ⟨?_,fun hn => by simp at hn⟩
    rw [isHome?_registerCell ha,h.1]
    simp
  · obtain ⟨hflag,hhome,hvisiting⟩ := rows_updatePresence ha
    refine ⟨?_,fun _ => ⟨hhome,hvisiting⟩⟩
    rw [hflag,h.1]
    simp [hn]
  · have hsame := h.sameRows (rows_same ha hq)
    refine ⟨?_,fun _ => hsame.2 hn⟩
    rw [hsame.1]
    simp [show tr.length ≠ 0 by omega]

/-- What an accepted registration leaves behind, whatever its flag: the flag of the
row is the first one ever stored, and the node is the home. -/
theorem Handled.rows {r : Registered} (h : Handled self c r) :
    r.after.isHome? c = some ((r.before.isHome? c).getD r.isHome) ∧
      r.after.homeOf c = some self.id ∧ r.after.visitingOf c = none := by
  obtain ⟨pkt,conn,claim,hacc,rfl,hflag,P,P',hb,ha,hex⟩ := h
  rw [dispatch_of_accepts hacc] at hex
  have hend := hex.invariant (R := rules conn.peerNodeId) (fun _ _ h => h)
    (Φ := fun P1 => Progress self conn.peerNodeId r.before claim.isHome (P1.history ()).length
      P1.world)
    (by rw [hex.fresh,hb]; exact ⟨rfl,fun hn => by simp at hn⟩)
    (fun P1 P2 _ hs _ hpath hΦ => by
      cases hs with
      | answer _ q k a w ht ha =>
        rw [ht] at hpath
        simpa using hΦ.answer hpath ha
      | start _ _ _ _ hs => exact hs.elim
      | drift w hd => exact hΦ.sameRows hd)
  obtain ⟨_,hpath,hprogress⟩ := hend
  have hn := accept_done hpath hex.done
  rw [ha,hflag] at hprogress
  refine ⟨?_,hprogress.2 hn⟩
  rw [hprogress.1,if_neg (by omega)]

/-- The flag never changes once it is stored. -/
theorem Registers.isHome? {w w' : NodeState} {rs : List Registered}
    (h : Registers self c w rs w') {b : Bool} (hb : w.isHome? c = some b) :
    w'.isHome? c = some b := by
  induction h with
  | nil h => rw [h.isHome?,hb]
  | cons h hr _ ih =>
    apply ih
    rw [hr.rows.1,h.isHome?,hb]
    rfl

theorem Registers.handled {w w' : NodeState} {rs : List Registered}
    (h : Registers self c w rs w') : ∀ r ∈ rs, Handled self c r := by
  induction h with
  | nil h => simp
  | cons h hr _ ih => simpa using ⟨hr,ih⟩

theorem Registers.homeOf {w w' : NodeState} {rs : List Registered}
    (h : Registers self c w rs w') (hw : w.homeOf c = some self.id) :
    w'.homeOf c = some self.id := by
  induction h with
  | nil h => rw [h.homeOf,hw]
  | cons h hr _ ih => exact ih hr.rows.2.1

/-- The first registration decides the flag, and any of them makes the node the home. -/
theorem Registers.cons_rows {w w' : NodeState} {r : Registered} {rs : List Registered}
    (h : Registers self c w (r :: rs) w') :
    w'.isHome? c = some ((w.isHome? c).getD r.isHome) ∧ w'.homeOf c = some self.id := by
  cases h with
  | cons h hr hrs =>
    have hflag := hr.rows.1
    rw [h.isHome?] at hflag
    exact ⟨hrs.isHome? hflag,hrs.homeOf hr.rows.2.1⟩

end

/-- The tables agree with the registrations just when all of them are home ones and
the cell was not stored as a visiting one before. -/
theorem registrations_agree_iff {self : Node L} {c : String} {w w' : NodeState}
    {rs : List Registered} (h : Registers self c w rs w') :
    Agree self c w rs w' ↔ ∀ r ∈ rs, r.isHome = true ∧ w.isHome? c ≠ some false := by
  constructor
  · intro hagree r hr
    have hhome : ∀ s ∈ rs, s.isHome = true := by
      intro s hs
      by_contra hf
      have hvisiting := (hagree.visiting s hs (by simpa using hf)).1
      rw [(h.handled s hs).rows.2.2] at hvisiting
      contradiction
    refine ⟨hhome r hr,fun hflag => ?_⟩
    have hlast := hagree.flag _ (List.getLast?_eq_some_getLast (List.ne_nil_of_mem hr))
    rw [h.isHome? hflag,hhome _ (List.getLast_mem _)] at hlast
    simp at hlast
  · intro hall
    refine ⟨?_,fun r hr _ => (h.handled r hr).rows.2.1,?_,?_⟩
    · intro r hr
      have hmem : r ∈ rs := List.mem_of_getLast? hr
      cases rs with
      | nil => simp at hmem
      | cons s rs =>
        rw [h.cons_rows.1,(hall r hmem).1,(hall s (by simp)).1]
        cases hflag : w.isHome? c with
        | none => rfl
        | some b =>
          cases b with
          | true => rfl
          | false => exact absurd hflag (hall r hmem).2
    · intro r hr hf
      rw [(hall r hr).1] at hf
      contradiction
    · cases rs with
      | nil =>
        cases h with
        | nil h => simp [h.homeOf]
      | cons s rs =>
        simp [h.cons_rows.2,(hall s (by simp)).1]

/-- From any state an accepted registration can be handled to its end. -/
theorem exists_handled (self : Node L) {pkt : Packet} {conn : PeerConnection}
    {claim : Node.CellClaim} (hacc : Accepts L pkt conn claim) (w : NodeState) :
    ∃ r, r.before = w ∧ r.isHome = claim.isHome ∧ Handled self conn.peerNodeId r := by
  let p := Node.dispatch self pkt conn
  let P : Pool Unit Req Ans Err Unit NodeState := ⟨fun _ => p,fun _ => [],fun _ => p,w⟩
  have hallow := Env.allows_run (R := rules conn.peerNodeId) (i := ())
    (fun q w => NodeState.answers_handler calmEnv q w) p ⟨w,0⟩
  obtain ⟨P',hs,_,_,ht,hw⟩ := Pool.exists_along_path (P := P) (i := ())
    (run_path calmEnv.handler p ⟨w,0⟩) hallow
  refine ⟨⟨w,claim.isHome,P'.world⟩,rfl,rfl,pkt,conn,claim,hacc,rfl,rfl,P,P',rfl,rfl,
    rfl,rfl,rfl,hs.lift id (fun _ _ h => ⟨h.1,h.2.1⟩),?_⟩
  rw [ht]
  simpa using Prog.done_ofExcept _

/-- A node where the sample cell is known to live on the node "h". -/
def sampleKnown : NodeState :=
  { storage := Storage.empty.updatePresence 0 sampleOwner.peerNodeId "h" none,
    connections := ConnectionRegistry.empty }

/-- The sample cell registers at the node, once. -/
theorem exists_registers (isHome : Bool) : ∃ r w', r.isHome = isHome ∧
    Registers (sampleNode false) sampleOwner.peerNodeId sampleKnown [r] w' := by
  obtain ⟨pkt,hacc,_⟩ := sampleOwner_accepts (v := .bin (List.replicate 32 0)) (by decide) rfl isHome
  obtain ⟨r,hb,hr,hhandled⟩ := exists_handled (sampleNode false) hacc sampleKnown
  refine ⟨r,r.after,hr,.cons ?_ hhandled (.nil ⟨rfl,rfl⟩)⟩
  rw [hb]
  exact ⟨rfl,rfl⟩

theorem registrations_agree_sample : ∃ rs w',
    Registers (sampleNode false) sampleOwner.peerNodeId sampleKnown rs w' ∧ rs ≠ [] ∧
      Agree (sampleNode false) sampleOwner.peerNodeId sampleKnown rs w' := by
  obtain ⟨r,w',hr,h⟩ := exists_registers true
  refine ⟨[r],w',h,by simp,(registrations_agree_iff h).mpr ?_⟩
  intro s hs
  obtain rfl : s = r := by simpa using hs
  exact ⟨hr,by decide +kernel⟩

/-- A visiting registration of a cell whose home is another node. -/
theorem visiting_taken_for_home :
    ¬ ∀ (w w' : NodeState) (rs : List Registered),
      (∃ row, w.storage.presenceTable.find sampleOwner.peerNodeId = some row) →
      Registers (sampleNode false) sampleOwner.peerNodeId w rs w' →
      Agree (sampleNode false) sampleOwner.peerNodeId w rs w' := by
  intro hall
  obtain ⟨r,w',hr,h⟩ := exists_registers false
  have hagree := hall sampleKnown w' [r] ⟨_,rfl⟩ h
  have hvisiting := (hagree.visiting r (by simp) hr).1
  rw [(h.handled r (by simp)).rows.2.2] at hvisiting
  contradiction

end Presence

end Nevod
