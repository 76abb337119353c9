import Nevod.Running

/-!
A node that falls silent. In every round of the gossip loop it is pinged, and the
round records a success when the PING could be sent, whether or not it is ever
answered.
-/

set_option autoImplicit false

namespace Nevod
open Text Resume Keyed

variable {L : Lib} {ι : Type}

namespace Running

/-- A success is recorded after a PING was sent. -/
def SentPing (self : Node L) (past : List (Exchange Req Ans)) : Req → Prop
  | .store (.updateNodePing k true) => ∃ conn frame, IsPing self k frame ∧
      (⟨.wsSend conn frame,.ok ()⟩ : Exchange Req Ans) ∈ past
  | _ => True

theorem turn_sentPing {self : Node L} {past : List (Exchange Req Ans)} :
    Heeds (SentPing self) (fun _ _ => True) (fun _ _ => True) past (GossipEngine.turn self) := by
  refine GossipEngine.turn_turns.mono_guard (fun later q hq => ?_)
  unfold SentPing
  split
  · exact hq rfl
  · trivial

/-- Nobody speaks for the node `k`: no PING to it has been sent in a turn that is
on, and no packet in hand and no join is about to refresh its row. -/
structure Silent (node : Node L) (k : SqlText) (P : Pool ι Req Ans Err Unit NodeState) : Prop where
  pinged : ∀ i conn frame, P.launched i = GossipEngine.turn node → ¬ (P.tasks i).Done →
    (⟨.wsSend conn frame,.ok ()⟩ : Exchange Req Ans) ∈ P.history i → ¬ IsPing node k frame
  pong : ∀ i pkt conn, Handling node P i pkt conn → pkt.type = .str T.pong →
    SqlText.ofVal L.realText pkt.fromAddr ≠ .ok (some k)
  gossip : Unlisted node k P
  joined : ¬ Joining L k P

/-- At least `c` pings have failed, and three take the node offline. -/
def Missed (c : Nat) : Option NodeRow → Prop
  | none => True
  | some r => (c : Int) ≤ r.missedPings ∧ (3 ≤ c → r.status = "offline")

theorem Missed.of_succ {c : Nat} {o : Option NodeRow} (h : Missed (c+1) o) : Missed c o := by
  cases o with
  | none => trivial
  | some r =>
    obtain ⟨hm,hs⟩ := h
    exact ⟨by omega,fun hc => hs (by omega)⟩

theorem Missed.missPing {c : Nat} {o : Option NodeRow} (h : Missed c o) :
    Missed (c+1) (o.map Storage.missPing) := by
  cases o with
  | none => trivial
  | some r =>
    obtain ⟨hm,_⟩ := h
    refine ⟨by simp [Storage.missPing,hm],fun hc => ?_⟩
    have h3 : (3 : Int) ≤ r.missedPings + 1 := by omega
    simp [Storage.missPing,missedPingsOffline,h3]

/-- No statement but a refreshment makes a failure undone, and a failed ping is
one more. -/
theorem missed_answers {w w' : NodeState} {q : Req} {a : Ans q} {k : SqlText} {c : Nat}
    (h : w.Answers q a w') (hup : ∀ row, q = .store (.upsertNode row) → row.nodeId ≠ k)
    (hping : q ≠ .store (.updateNodePing k true))
    (hm : Missed c (w.storage.nodeTable.find k)) :
    Missed c (w'.storage.nodeTable.find k) ∧
      (q = .store (.updateNodePing k false) → Missed (c+1) (w'.storage.nodeTable.find k)) := by
  cases q with
  | store op =>
    obtain ⟨now,_,rfl⟩ := h
    cases op with
    | upsertNode row =>
      have hne : k ≠ row.nodeId := fun he => hup row rfl he.symm
      simp [Storage.exec,Storage.upsertNode,Table.find_upsert,hne,hm]
    | updateNodePing j success =>
      cases success with
      | true =>
        have hne : k ≠ j := fun he => hping (by rw [he])
        simp [Storage.exec,Storage.updateNodePing,Table.find_modify,hne,hm]
      | false =>
        have hf := Table.find_modify w.storage.nodeTable j k Storage.missPing (fun _ => rfl)
        have hw : (w.storage.exec now (.updateNodePing j false)).2.nodeTable.find k =
            if k = j then (w.storage.nodeTable.find k).map Storage.missPing
            else w.storage.nodeTable.find k := hf
        rw [hw]
        by_cases hk : k = j
        · rw [if_pos hk]
          exact ⟨hm.missPing.of_succ,fun _ => hm.missPing⟩
        · rw [if_neg hk]
          exact ⟨hm,fun he => by simp [Ne.symm hk] at he⟩
    | removeNode j =>
      simp only [Storage.exec,Storage.removeNode,Table.find_delete]
      refine ⟨?_,by simp⟩
      split
      · trivial
      · exact hm
    | cleanupExpiredNodes =>
      refine ⟨?_,by simp⟩
      cases hr : (w.storage.exec now .cleanupExpiredNodes).2.nodeTable.find k with
      | none => trivial
      | some r =>
        have hmem := (Table.find_eq_some _).mp hr
        have hold := ((Table.mem_deleteWhere _ _ r).mp hmem.1).1
        rw [(Table.find_eq_some _).mpr ⟨hold,hmem.2⟩] at hm
        exact hm
    | _ => exact ⟨hm,by simp⟩
  | connGet nodeId =>
    obtain ⟨_,rfl⟩ := h
    exact ⟨hm,by simp⟩
  | _ => cases h; exact ⟨hm,by simp⟩

variable [DecidableEq ι]

/-- A success is recorded for a PONG in the name of the node, or by a turn that has
sent a PING to it. -/
theorem updateNodePing_cause {self : Node L} {w : NodeState} {k : SqlText}
    {P : Pool ι Req Ans Err Unit NodeState} (hP : Pool.Steps (rules self) (initial w) P) {i : ι}
    {c : Ans (.store (.updateNodePing k true)) → NodeProg Unit}
    (ht : P.tasks i = .ask (.store (.updateNodePing k true)) c) : ¬ Silent self k P := by
  intro hsil
  have hi : ¬ (P.tasks i).Done := by simp [ht,Prog.Done]
  have hpath := Pool.OnPath.waits (P := initial w) (fun _ => .here _) hP ht
  rcases leavesNodes_runs (launched_runs hP i hi) with ⟨pkt,conn,hl⟩ | ⟨address,hl⟩ | hl | hnone
  · rw [hl] at hpath
    have hd : Within self (fun _ => True) pkt conn (Node.dispatch self pkt conn) :=
      within_dispatch
    obtain ⟨hty,_,hkey⟩ := hd.waits hpath (fun e _ => Registration.readsWaiting_all e.1 e.2)
    exact hsil.pong i pkt conn ⟨hi,hl⟩ hty hkey
  · rw [hl] at hpath
    exact (entersPeer_join address).waits hpath (fun _ _ => trivial)
  · rw [hl] at hpath
    obtain ⟨conn,frame,hping,hmem⟩ := turn_sentPing.waits hpath (fun _ _ => trivial)
    exact hsil.pinged i conn frame hl hi (by simpa using hmem) hping
  · exact hnone.waits hpath (fun _ _ => trivial)

theorem missed_step {self : Node L} {w : NodeState} {k : SqlText} {c : Nat}
    {P P' : Pool ι Req Ans Err Unit NodeState} (hP : Pool.Steps (rules self) (initial w) P)
    (hs : Pool.Step (rules self) P P') (hsil : Silent self k P)
    (hm : Missed c (P.world.storage.nodeTable.find k)) :
    Missed c (P'.world.storage.nodeTable.find k) := by
  cases hs with
  | start i p w' _ h =>
    obtain ⟨_,rfl⟩ := h
    exact hm
  | drift w' h => exact h.elim
  | answer i q f a w' ht h =>
    have h : P.world.Answers q a w' := h
    refine (missed_answers h ?_ ?_ hm).1
    · rintro row rfl rfl
      exact (upsertNode_cause hP ht).elim (fun hn => hn hsil.gossip) hsil.joined
    · rintro rfl
      exact updateNodePing_cause hP ht hsil

/-- A step of the node while `k` is silent. -/
def QuietStep (self : Node L) (k : SqlText) (P P' : Pool ι Req Ans Err Unit NodeState) : Prop :=
  Pool.Step (rules self) P P' ∧ Silent self k P'

abbrev QuietSteps (self : Node L) (k : SqlText) :
    Pool ι Req Ans Err Unit NodeState → Pool ι Req Ans Err Unit NodeState → Prop :=
  Relation.ReflTransGen (QuietStep self k)

/-- Turns of the loop in slot `g`, one after another, among the steps of all the
other tasks. -/
inductive Rounds (self : Node L)
    (step : Pool ι Req Ans Err Unit NodeState → Pool ι Req Ans Err Unit NodeState → Prop) (g : ι) :
    Nat → Pool ι Req Ans Err Unit NodeState → Pool ι Req Ans Err Unit NodeState → Prop where
  | none {P P' : Pool ι Req Ans Err Unit NodeState} (h : Relation.ReflTransGen step P P') :
      Rounds self step g 0 P P'
  | next {n : Nat} {P P1 P2 P3 : Pool ι Req Ans Err Unit NodeState}
      (h : Rounds self step g n P P1) (hr : Pool.Executes step g (GossipEngine.turn self) P1 P2)
      (hq : Relation.ReflTransGen step P2 P3) : Rounds self step g (n+1) P P3

theorem quietSteps_steps {self : Node L} {k : SqlText} {P P' : Pool ι Req Ans Err Unit NodeState}
    (h : QuietSteps self k P P') (hsil : Silent self k P) :
    Pool.Steps (rules self) P P' ∧ Silent self k P' := by
  induction h with
  | refl => exact ⟨.refl,hsil⟩
  | tail _ hs ih => exact ⟨ih.1.tail hs.1,hs.2⟩

theorem missed_quiet {self : Node L} {w : NodeState} {k : SqlText} {c : Nat}
    {P P' : Pool ι Req Ans Err Unit NodeState} (hP : Pool.Steps (rules self) (initial w) P)
    (hsil : Silent self k P) (h : QuietSteps self k P P')
    (hm : Missed c (P.world.storage.nodeTable.find k)) :
    Missed c (P'.world.storage.nodeTable.find k) := by
  induction h with
  | refl => exact hm
  | tail h hs ih =>
    obtain ⟨hsteps,hsil1⟩ := quietSteps_steps h hsil
    exact missed_step (hP.trans hsteps) hs.1 hsil1 ih

/-- What a turn that is on has come to know of the node, and done about it. -/
structure Underway (k : SqlText) (c : Nat) (past : List (Exchange Req Ans)) (w : NodeState) :
    Prop where
  missed : Missed c (w.storage.nodeTable.find k)
  pinged : Pinged k past → Missed (c+1) (w.storage.nodeTable.find k)
  absent : ∀ rows, (⟨.store .getAllNodes,rows⟩ : Exchange Req Ans) ∈ past →
    (∀ r ∈ rows, r.nodeId ≠ k) → w.storage.nodeTable.find k = none

theorem quiet_request {self : Node L} {w : NodeState} {k : SqlText}
    {P : Pool ι Req Ans Err Unit NodeState} (hP : Pool.Steps (rules self) (initial w) P)
    (hsil : Silent self k P) {i : ι} {q : Req} {c : Ans q → NodeProg Unit}
    (ht : P.tasks i = .ask q c) :
    (∀ row, q = .store (.upsertNode row) → row.nodeId ≠ k) ∧
      q ≠ .store (.updateNodePing k true) := by
  constructor
  · rintro row rfl rfl
    exact (upsertNode_cause hP ht).elim (fun hn => hn hsil.gossip) hsil.joined
  · rintro rfl
    exact updateNodePing_cause hP ht hsil

theorem absent_step {self : Node L} {w : NodeState} {k : SqlText}
    {P P' : Pool ι Req Ans Err Unit NodeState} (hP : Pool.Steps (rules self) (initial w) P)
    (hs : Pool.Step (rules self) P P') (hsil : Silent self k P)
    (habs : P.world.storage.nodeTable.find k = none) :
    P'.world.storage.nodeTable.find k = none := by
  by_contra hback
  exact hsil.joined (joining_of_back hP hs hsil.gossip habs hback)

/-- A turn that is over has added a failure, or the node is gone. -/
theorem missed_turn {self : Node L} {w : NodeState} {k : SqlText} {g : ι} {c : Nat}
    {P P' : Pool ι Req Ans Err Unit NodeState}
    (h : Pool.Executes (QuietStep self k) g (GossipEngine.turn self) P P')
    (hP : Pool.Steps (rules self) (initial w) P) (hsil : Silent self k P)
    (hk : k ≠ .text self.id) (hm : Missed c (P.world.storage.nodeTable.find k)) :
    Missed (c+1) (P'.world.storage.nodeTable.find k) := by
  have hown : ∀ P1 q f a w', QuietSteps self k P P1 → P1.tasks g = .ask q f →
      P1.world.Answers q a w' → Underway k c (P1.history g) P1.world →
      Underway k c (P1.history g ++ [⟨q,a⟩]) w' := by
    intro P1 q f a w' hrun ht hans hu
    obtain ⟨hsteps,hsil1⟩ := quietSteps_steps hrun hsil
    obtain ⟨hup,hping⟩ := quiet_request (hP.trans hsteps) hsil1 ht
    refine ⟨(missed_answers hans hup hping hu.missed).1,?_,?_⟩
    · rintro ⟨success,hmem⟩
      simp only [List.mem_append,List.mem_singleton] at hmem
      rcases hmem with hmem | hmem
      · exact (missed_answers hans hup hping (hu.pinged ⟨success,hmem⟩)).1
      · cases hmem
        cases success with
        | true => exact (hping rfl).elim
        | false => exact (missed_answers hans hup hping hu.missed).2 rfl
    · intro rows hrows hunlisted
      simp only [List.mem_append,List.mem_singleton] at hrows
      rcases hrows with hrows | hrows
      · exact absent_answers hans hup (hu.absent rows hrows hunlisted)
      · cases hrows
        obtain ⟨now,rfl,rfl⟩ := hans
        exact (Table.find_eq_none _).mpr hunlisted
  have hother : ∀ P1 P2, QuietSteps self k P P1 → QuietStep self k P1 P2 →
      Underway k c (P1.history g) P1.world → Underway k c (P1.history g) P2.world := by
    intro P1 P2 hrun hs hu
    obtain ⟨hsteps,hsil1⟩ := quietSteps_steps hrun hsil
    exact ⟨missed_step (hP.trans hsteps) hs.1 hsil1 hu.missed,
      fun hp => missed_step (hP.trans hsteps) hs.1 hsil1 (hu.pinged hp),
      fun rows hr hn => absent_step (hP.trans hsteps) hs.1 hsil1 (hu.absent rows hr hn)⟩
  obtain ⟨_,hpath,hu⟩ := h.track (R := rules self) (fun _ _ hs => hs.1)
    ⟨hm,by simp [Pinged],by simp⟩ hown hother
  have hpost := (GossipEngine.turn_pings.path hpath (fun _ _ => trivial)).2
  obtain ⟨u,ht⟩ := (hpath.safe GossipEngine.safe_turn).exists_ret h.done
  rw [ht] at hpost
  obtain ⟨rows,hrows,hall⟩ := hpost
  by_cases hlisted : ∃ r ∈ rows, r.nodeId = k
  · obtain ⟨r,hmem,rfl⟩ := hlisted
    exact hu.pinged (by simpa using hall r hmem hk)
  · have hnone := hu.absent rows (by simpa using hrows) (fun r hr hk => hlisted ⟨r,hr,hk⟩)
    rw [hnone]
    trivial

theorem Rounds.missed {self : Node L} {w : NodeState} {k : SqlText} {g : ι} {n : Nat}
    {P P' : Pool ι Req Ans Err Unit NodeState} (h : Rounds self (QuietStep self k) g n P P')
    (hP : Pool.Steps (rules self) (initial w) P) (hsil : Silent self k P)
    (hk : k ≠ .text self.id) (hm : Missed 0 (P.world.storage.nodeTable.find k)) :
    Pool.Steps (rules self) P P' ∧ Silent self k P' ∧
      Missed n (P'.world.storage.nodeTable.find k) := by
  induction h with
  | none h =>
    obtain ⟨hsteps,hsil'⟩ := quietSteps_steps h hsil
    exact ⟨hsteps,hsil',missed_quiet hP hsil h hm⟩
  | next _ hr hq ih =>
    obtain ⟨h1,hsil1,hm1⟩ := ih hP hsil hm
    have hquiet : QuietSteps self k _ _ := hr.steps.lift id (fun _ _ hs => hs.1)
    obtain ⟨h2,hsil2⟩ := quietSteps_steps hquiet hsil1
    obtain ⟨h3,hsil3⟩ := quietSteps_steps hq hsil2
    have hm2 := missed_turn hr (hP.trans h1) hsil1 hk hm1
    exact ⟨(h1.trans h2).trans h3,hsil3,missed_quiet (hP.trans (h1.trans h2)) hsil2 hq hm2⟩

/-- No row counts less than no failure. -/
def NonNegative (w : NodeState) : Prop := ∀ r ∈ w.storage.nodeTable.rows, 0 ≤ r.missedPings

theorem nonNegative_answers {w w' : NodeState} {q : Req} {a : Ans q} (h : w.Answers q a w')
    (hq : ∀ row, q = .store (.upsertNode row) → row.missedPings = 0) (hw : NonNegative w) :
    NonNegative w' := by
  cases q with
  | store op =>
    obtain ⟨now,_,rfl⟩ := h
    cases op with
    | upsertNode row =>
      intro r hr
      have hfind := (Table.find_eq_some _).mpr ⟨hr,rfl⟩
      simp only [Storage.exec,Storage.upsertNode,Table.find_upsert] at hfind
      have hrow := hq row rfl
      split at hfind
      · rw [Option.some.injEq] at hfind
        rw [← hfind]
        cases w.storage.nodeTable.find r.nodeId <;> simp [hrow]
      · exact hw r ((Table.find_eq_some _).mp hfind).1
    | updateNodePing k success =>
      intro r hr
      cases success with
      | true =>
        obtain ⟨r0,hr0,rfl⟩ := List.mem_map.mp hr
        have h0 := hw r0 hr0
        split <;> simp [h0]
      | false =>
        obtain ⟨r0,hr0,rfl⟩ := List.mem_map.mp hr
        have h0 := hw r0 hr0
        split
        · simp only [Storage.missPing]
          omega
        · exact h0
    | removeNode k => exact fun r hr => hw r ((Table.mem_delete _ k r).mp hr).1
    | cleanupExpiredNodes => exact fun r hr => hw r ((Table.mem_deleteWhere _ _ r).mp hr).1
    | _ => exact hw
  | connGet nodeId =>
    obtain ⟨_,rfl⟩ := h
    exact hw
  | _ => cases h; exact hw

theorem upsertNode_fresh {self : Node L} {w : NodeState} {row : NodeRow}
    {P : Pool ι Req Ans Err Unit NodeState} (hP : Pool.Steps (rules self) (initial w) P) {i : ι}
    {c : Ans (.store (.upsertNode row)) → NodeProg Unit}
    (ht : P.tasks i = .ask (.store (.upsertNode row)) c) : row.missedPings = 0 := by
  have hi : ¬ (P.tasks i).Done := by simp [ht,Prog.Done]
  have hpath := Pool.OnPath.waits (P := initial w) (fun _ => .here _) hP ht
  have henters : ∀ p, Heeds NodeHistory.EntersNow (fun _ _ => True) (fun _ _ => True) [] p →
      P.launched i = p → row.missedPings = 0 := by
    intro p hp hl
    rw [hl] at hpath
    exact (hp.waits hpath (fun _ _ => trivial)).1
  rcases leavesNodes_runs (launched_runs hP i hi) with ⟨pkt,conn,hl⟩ | ⟨address,hl⟩ | hl | hnone
  · exact henters _ (NodeHistory.enters_dispatch pkt conn) hl
  · exact henters _ (NodeHistory.enters_join address) hl
  · exact henters _ NodeHistory.enters_turn hl
  · exact (hnone.waits hpath (fun _ _ => trivial)).elim

theorem nonNegative_steps {self : Node L} {w : NodeState}
    {P : Pool ι Req Ans Err Unit NodeState} (hP : Pool.Steps (rules self) (initial w) P)
    (hw : NonNegative w) : NonNegative P.world := by
  induction hP with
  | refl => exact hw
  | tail hsteps hs ih =>
    cases hs with
    | start i p w' _ h =>
      obtain ⟨_,rfl⟩ := h
      exact ih
    | drift w' h => exact h.elim
    | answer i q f a w' ht h =>
      refine nonNegative_answers h ?_ ih
      rintro row rfl
      exact upsertNode_fresh hsteps ht

/-- Three turns of the gossip loop in which no PING to the node could be sent, and
nobody spoke for it, take it offline. -/
theorem silent_goes_offline {self : Node L} {w : NodeState} (hw : NonNegative w) {k : SqlText}
    (hk : k ≠ .text self.id) {g : ι} {P P' : Pool ι Req Ans Err Unit NodeState}
    (hP : Pool.Steps (rules self) (initial w) P) (hsil : Silent self k P)
    (h : Rounds self (QuietStep self k) g 3 P P') :
    P'.world.storage.nodeTable.find k = none ∨
      ∃ r, P'.world.storage.nodeTable.find k = some r ∧ r.status = "offline" := by
  have hm : Missed 0 (P.world.storage.nodeTable.find k) := by
    cases hr : P.world.storage.nodeTable.find k with
    | none => trivial
    | some r =>
      exact ⟨nonNegative_steps hP hw r ((Table.find_eq_some _).mp hr).1,by simp⟩
  have hend := (h.missed hP hsil hk hm).2.2
  cases hr : P'.world.storage.nodeTable.find k with
  | none => exact .inl rfl
  | some r =>
    rw [hr] at hend
    exact .inr ⟨r,rfl,hend.2 (by omega)⟩

/-- In this step nothing is received from the node `k`, and no handshake with it is
completed. -/
structure Unheard (node : Node L) (k : SqlText) (P P' : Pool ι Req Ans Err Unit NodeState) :
    Prop where
  step : Pool.Step (rules node) P P'
  frame : ∀ i pkt conn, Handling node P' i pkt conn → .text conn.peerNodeId ≠ k
  dialled : ∀ i expected address conn,
    (⟨.dial expected address,.ok conn⟩ : Exchange Req Ans) ∈ P'.history i →
      .text conn.peerNodeId ≠ k
  accepted : ∀ i conn, (⟨.accept,.ok conn⟩ : Exchange Req Ans) ∈ P'.history i →
    .text conn.peerNodeId ≠ k

theorem turn_ne_dispatch {self : Node L} (pkt : Packet) (conn : PeerConnection) :
    GossipEngine.turn self ≠ Node.dispatch self pkt conn := by
  intro h
  have hd : Within self (fun _ => True) pkt conn (Node.dispatch self pkt conn) := within_dispatch
  rw [← h] at hd
  exact hd.1

theorem turn_ne_join {self : Node L} (address : String) :
    GossipEngine.turn self ≠ Node.join L address := by
  intro h
  unfold Node.join Transport.connect at h
  split at h <;> cases h

omit [DecidableEq ι] in
theorem Rounds.tail {self : Node L}
    {step : Pool ι Req Ans Err Unit NodeState → Pool ι Req Ans Err Unit NodeState → Prop} {g : ι}
    {n : Nat} {P P1 P2 : Pool ι Req Ans Err Unit NodeState} (h : Rounds self step g n P P1)
    (hs : step P1 P2) : Rounds self step g n P P2 := by
  cases h with
  | none h => exact .none (h.tail hs)
  | next h hr hq => exact .next h hr (hq.tail hs)

/-- The state after some turns of the loop alone. -/
def afterTurns (env : Env) (self : Node L) (w : NodeState) : Nat → NodeState
  | 0 => w
  | n+1 => (run env.handler (GossipEngine.turn self) ⟨afterTurns env self w n,0⟩).final.state

theorem exists_rounds {self : Node L} (env : Env) {calm : Exchange Req Ans → Bool}
    {step : Pool Unit Req Ans Err Unit NodeState → Pool Unit Req Ans Err Unit NodeState → Prop}
    (hstep : ∀ P1 P2, Pool.Step (rules self) P1 P2 → P2.launched () = GossipEngine.turn self →
      (∀ e ∈ P2.history (), calm e = true) → step P1 P2)
    {P : Pool Unit Req Ans Err Unit NodeState} (hd : (P.tasks ()).Done) (n : Nat)
    (hcalm : ∀ j < n, (run env.handler (GossipEngine.turn self)
      ⟨afterTurns env self P.world j,0⟩).trace.all calm = true) :
    ∃ P', Rounds self step () n P P' ∧ (P'.tasks ()).Done ∧
      P'.world = afterTurns env self P.world n := by
  induction n with
  | zero => exact ⟨P,.none .refl,hd,rfl⟩
  | succ n ih =>
    obtain ⟨P1,hrounds,hd1,hw1⟩ := ih (fun j hj => hcalm j (by omega))
    have hall := List.all_eq_true.mp (hcalm n (by omega))
    have hallow := Env.allows_run (R := rules self) (i := ())
      (fun q w => NodeState.answers_handler env q w) (GossipEngine.turn self) ⟨P1.world,0⟩
    obtain ⟨P2,P3,hs,hr,_,_,_,hw⟩ := Pool.exists_execution (R := rules self) step hd1
      ⟨Runs.turn,rfl⟩ (run_path env.handler (GossipEngine.turn self) ⟨P1.world,0⟩)
      (Prog.done_ofExcept _) hallow (fun P2 P3 h hl hh => hstep P2 P3 h (by simp [hl])
        (fun e he => hall e (by rw [← hw1]; exact hh.subset he)))
    exact ⟨P3,.next (hrounds.tail hs) hr .refl,hr.done,by rw [hw,hw1]; rfl⟩

def noHandshake : Exchange Req Ans → Bool
  | ⟨.dial _ _,.ok _⟩ => false
  | ⟨.accept,.ok _⟩ => false
  | _ => true

def noTransmission : Exchange Req Ans → Bool
  | ⟨.wsSend _ _,.ok _⟩ => false
  | _ => true

theorem handling_turn {self : Node L} {P : Pool Unit Req Ans Err Unit NodeState} {i : Unit}
    {pkt : Packet} {conn : PeerConnection} (hl : P.launched () = GossipEngine.turn self) :
    ¬ Handling self P i pkt conn :=
  fun h => turn_ne_dispatch pkt conn (hl.symm.trans h.2)

/-- A node with an open connection to "n". -/
def sampleLinked : NodeState :=
  ⟨Storage.empty.upsertNode NodeHistory.sampleRow,
    ConnectionRegistry.empty.add ⟨1,"n",[],.none,"a"⟩⟩

/-- In three rounds nothing is heard from "n", and it stays online: the PINGs can be
sent. -/
theorem silent_stays_online : ∃ (P : Pool Unit Req Ans Err Unit NodeState) (r : NodeRow),
    sampleLinked.connections.get "n" ≠ none ∧
      Rounds (sampleNode false) (Unheard (sampleNode false) (.text "n")) () 3
        (initial sampleLinked) P ∧
      P.world.storage.nodeTable.find (.text "n") = some r ∧ r.status = "online" ∧
      r.missedPings = 0 ∧ r.lastSeen = 100 := by
  have hstep : ∀ P1 P2 : Pool Unit Req Ans Err Unit NodeState,
      Pool.Step (rules (sampleNode false)) P1 P2 →
      P2.launched () = GossipEngine.turn (sampleNode false) →
      (∀ e ∈ P2.history (), noHandshake e = true) →
      Unheard (sampleNode false) (.text "n") P1 P2 := by
    intro P1 P2 h hl hcalm
    refine ⟨h,fun i pkt conn hh => (handling_turn hl hh).elim,fun i expected address conn he => ?_,
      fun i conn he => ?_⟩
    · exact absurd (hcalm _ he) (by simp [noHandshake])
    · exact absurd (hcalm _ he) (by simp [noHandshake])
  obtain ⟨P,hrounds,_,hw⟩ := exists_rounds sampleEnv hstep (P := initial sampleLinked) trivial 3
    (by decide +kernel)
  exact ⟨P,{ NodeHistory.sampleRow with lastSeen := 100 },
    by simp [sampleLinked,ConnectionRegistry.get_add],hrounds,
    by rw [hw]; decide +kernel,rfl,rfl,rfl⟩

theorem silent_goes_offline_sample : ∃ P P' : Pool Unit Req Ans Err Unit NodeState,
    Rounds (sampleNode false) (QuietStep (sampleNode false) (.text "n")) () 3 P P' ∧
      (P'.world.storage.nodeTable.find (.text "n") = none ∨
        ∃ r, P'.world.storage.nodeTable.find (.text "n") = some r ∧ r.status = "offline") := by
  have hstep : ∀ P1 P2 : Pool Unit Req Ans Err Unit NodeState,
      Pool.Step (rules (sampleNode false)) P1 P2 →
      P2.launched () = GossipEngine.turn (sampleNode false) →
      (∀ e ∈ P2.history (), noTransmission e = true) →
      QuietStep (sampleNode false) (.text "n") P1 P2 := by
    intro P1 P2 h hl hcalm
    refine ⟨h,fun i conn frame _ _ he _ => absurd (hcalm _ he) (by simp [noTransmission]),
      fun i pkt conn hh => (handling_turn hl hh).elim,
      fun i pkt conn hh => (handling_turn hl hh).elim,?_⟩
    rintro ⟨i,address,a,conn,hj,_⟩
    exact turn_ne_join address (hl.symm.trans hj)
  have hw : NonNegative sampleKnown.state := by
    unfold NonNegative
    decide +kernel
  have hsil : Silent (sampleNode false) (.text "n")
      (initial sampleKnown.state : Pool Unit Req Ans Err Unit NodeState) := by
    refine ⟨fun _ _ _ _ hi _ => (hi trivial).elim,fun _ _ _ h => (h.1 trivial).elim,
      fun _ _ _ h => (h.1 trivial).elim,?_⟩
    rintro ⟨i,address,a,conn,_,hmem,_⟩
    simp [initial] at hmem
  obtain ⟨P,hrounds,_,_⟩ := exists_rounds sampleEnv hstep (P := initial sampleKnown.state) trivial 3
    (by decide +kernel)
  exact ⟨initial sampleKnown.state,P,hrounds,
    silent_goes_offline hw (by decide +kernel) .refl hsil hrounds⟩

end Running

end Nevod
