import Nevod.Running
import Nevod.Malformed

/-!
The handlers of GOSSIP packets among the other tasks of a node: a handler looks
for a node, and enters it when it has not found it. What if somebody else enters
the node in between?
-/

set_option autoImplicit false

namespace Nevod
open Text Resume Keyed

variable {L : Lib}

namespace Overwrites
open Running

/-- The last thing done but for looking at the clock was to look for the node `k`,
which was not there. -/
def Sought (k : SqlText) (past : List (Exchange Req Ans)) : Prop :=
  ∃ pre clock, past = pre ++ ⟨.store (.getNode k),none⟩ :: clock ∧ ∀ e ∈ clock, e.1 = .time

/-- Nothing but a node that was just sought is written to `node_table`. -/
def EntersSought (past : List (Exchange Req Ans)) : Req → Prop
  | .store (.upsertNode row) => Sought row.nodeId past
  | q => LeavesNodes q

section Sought

variable {k : SqlText} {past : List (Exchange Req Ans)}

theorem sought_snoc (pre : List (Exchange Req Ans)) :
    Sought k (pre ++ [⟨.store (.getNode k),none⟩]) := ⟨pre,[],rfl,by simp⟩

theorem Sought.time (h : Sought k past) (t : Int) : Sought k (past ++ [⟨.time,t⟩]) := by
  obtain ⟨pre,clock,rfl,hclock⟩ := h
  refine ⟨pre,clock ++ [⟨.time,t⟩],by simp,?_⟩
  intro e he
  rcases List.mem_append.mp he with he | he
  · exact hclock e he
  · rw [List.mem_singleton.mp he]

/-- The node was sought before the last exchange, which was a look at the clock, or
in it. -/
theorem Sought.of_snoc {q : Req} {a : Ans q} (h : Sought k (past ++ [⟨q,a⟩])) :
    (Sought k past ∧ q = .time) ∨ (⟨q,a⟩ : Exchange Req Ans) = ⟨.store (.getNode k),none⟩ := by
  obtain ⟨pre,clock,he,hclock⟩ := h
  rcases List.eq_nil_or_concat clock with rfl | ⟨clock,e,rfl⟩
  · exact .inr (by simpa using (List.append_inj' he rfl).2)
  · rw [List.concat_eq_append,← List.cons_append,← List.append_assoc] at he
    obtain ⟨rfl,hone⟩ := List.append_inj' he rfl
    have hlast := hclock e (by simp)
    rw [← List.singleton_inj.mp hone] at hlast
    exact .inl ⟨⟨pre,clock,rfl,fun x hx => hclock x (by simp [hx])⟩,hlast⟩

end Sought

section Handler

variable {past : List (Exchange Req Ans)}

theorem heeds_read {α : Type} (x : Except Err α) :
    Heeds EntersSought (fun _ _ => True) (fun later _ => later = past) past
      (Prog.ofExcept x : NodeProg α) := by
  cases x with
  | error e => trivial
  | ok a => exact rfl

theorem putNode_sought {entry : NodeEntry}
    (h : ∀ k, SqlText.ofVal L.realText entry.nodeId = .ok (some k) → Sought k past) :
    Heeds EntersSought (fun _ _ => True) (fun _ _ => True) past (Storage.putNode L entry) := by
  have hadded : Heeds EntersSought (fun _ _ => True)
      (fun later _ => ∀ k, SqlText.ofVal L.realText entry.nodeId = .ok (some k) → Sought k later)
      past (Storage.addedAt entry) := by
    unfold Storage.addedAt
    split
    · exact ⟨trivial,fun t _ k hk => (h k hk).time t⟩
    · exact h
  unfold Storage.putNode
  refine hadded.bind (fun later added hl => ?_)
  cases hb : Storage.bindNode L entry added with
  | error e => trivial
  | ok row =>
    cases row with
    | none => trivial
    | some row => exact ⟨hl row.nodeId (bindNode_ok hb).nodeId,fun _ _ => trivial⟩

theorem learnNode_sought {n nodeId address : Val}
    (h : ∀ k, SqlText.ofVal L.realText nodeId = .ok (some k) → Sought k past) :
    Heeds EntersSought (fun _ _ => True) (fun _ _ => True) past
      (GossipEngine.learnNode L n nodeId address) := by
  unfold GossipEngine.learnNode
  refine (heeds_read _).bind (fun now type hnow => ?_)
  subst hnow
  refine (heeds_read _).bind (fun later access hlater => ?_)
  subst hlater
  refine ⟨trivial,fun t _ => ⟨trivial,fun u _ => ?_⟩⟩
  refine (putNode_sought (fun k hk => ((h k hk).time t).time u)).bind (fun later _ _ => ?_)
  exact (heeds_read _).mono (fun _ _ _ => trivial)

theorem mergeNode_sought (n : Val) :
    Heeds EntersSought (fun _ _ => True) (fun _ _ => True) past (GossipEngine.mergeNode L n) := by
  unfold GossipEngine.mergeNode
  refine (heeds_read _).bind (fun now nodeId hnow => ?_)
  subst hnow
  refine (heeds_read _).bind (fun later address hlater => ?_)
  subst hlater
  split
  · trivial
  · unfold Storage.getNode
    cases hk : SqlText.ofVal L.realText nodeId with
    | error e => trivial
    | ok k =>
      cases k with
      | none =>
        refine learnNode_sought (fun k' hk' => ?_)
        rw [hk] at hk'
        cases hk'
      | some k =>
        refine ⟨trivial,fun existing _ => ?_⟩
        cases existing with
        | some row => trivial
        | none =>
          refine learnNode_sought (fun k' hk' => ?_)
          rw [hk] at hk'
          cases hk'
          exact sought_snoc later

theorem gossip_sought (past : List (Exchange Req Ans)) {self : Node L} {pkt : Packet} {conn : PeerConnection}
    (hty : pkt.type = .str T.gossip) :
    Heeds EntersSought (fun _ _ => True) (fun _ _ => True) past (Node.dispatch self pkt conn) := by
  rw [dispatch_gossip _ hty]
  unfold GossipEngine.handleGossip
  split
  · trivial
  · exact (heeds_read _).bind (fun _ items _ => Heeds.forEach (fun _ n _ => mergeNode_sought n))

end Handler

variable {ι : Type}

/-- Slot `i` is handling a GOSSIP packet. -/
def Gossiping (self : Node L) (P : Pool ι Req Ans Err Unit NodeState) (i : ι) : Prop :=
  ∃ pkt conn, Handling self P i pkt conn ∧ pkt.type = .str T.gossip

/-- It has looked for the node `k` in vain and is about to enter it. -/
def Seeking (self : Node L) (P : Pool ι Req Ans Err Unit NodeState) (i : ι) (k : SqlText) : Prop :=
  Gossiping self P i ∧ Sought k (P.history i)

/-- In this step slot `i` enters the node `k`. -/
def Enters (i : ι) (k : SqlText) (P P' : Pool ι Req Ans Err Unit NodeState) : Prop :=
  ∃ row a, row.nodeId = k ∧ P'.history i = P.history i ++ [⟨.store (.upsertNode row),a⟩]

/-- Nobody else enters a node that a handler is about to enter. -/
def Undisturbed (self : Node L) (P P' : Pool ι Req Ans Err Unit NodeState) : Prop :=
  ∀ i j k, Seeking self P i k → Enters j k P P' → j = i

/-- If it is a step of the handler of a GOSSIP packet, all rows stay as they are. -/
def GossipKeeps (self : Node L) (P P' : Pool ι Req Ans Err Unit NodeState) : Prop :=
  ∀ i q a, Gossiping self P i → P'.history i = P.history i ++ [⟨q,a⟩] →
    ∀ k row, P.world.storage.nodeTable.find k = some row →
      P'.world.storage.nodeTable.find k = some row

/-- A node that a handler is about to enter is not in the table. -/
def NotThere (self : Node L) (P : Pool ι Req Ans Err Unit NodeState) : Prop :=
  ∀ i k, Seeking self P i k → P.world.storage.nodeTable.find k = none

theorem nodes_answers {w w' : NodeState} {q : Req} {a : Ans q} (h : w.Answers q a w')
    (hq : LeavesNodes q) : w'.storage.nodeTable = w.storage.nodeTable := by
  cases q with
  | store op =>
    obtain ⟨now,_,rfl⟩ := h
    cases op <;> first | rfl | exact hq.elim
  | connGet nodeId => rw [h.2]
  | _ => cases h; rfl

section Run

variable [DecidableEq ι] {self : Node L} {P P' : Pool ι Req Ans Err Unit NodeState}

theorem notThere_step (hP : NotThere self P) (h : Pool.Step (rules self) P P')
    (hu : Undisturbed self P P') : NotThere self P' := by
  rintro i k ⟨⟨pkt,conn,⟨hnd,hl⟩,hty⟩,hsought⟩
  cases h with
  | drift w' h => exact h.elim
  | start j p w' _ h =>
    obtain ⟨_,rfl⟩ := h
    by_cases hj : i = j
    · subst hj
      obtain ⟨pre,clock,he,_⟩ := hsought
      simp at he
    · simp only [Function.update_of_ne hj] at hnd hl hsought
      exact hP i k ⟨⟨pkt,conn,⟨hnd,hl⟩,hty⟩,hsought⟩
  | answer j q c a w' ht h =>
    have h : P.world.Answers q a w' := h
    by_cases hj : i = j
    · subst hj
      simp only [Function.update_self] at hsought
      have hgossip : Gossiping self P i := ⟨pkt,conn,⟨by simp [ht,Prog.Done],hl⟩,hty⟩
      rcases hsought.of_snoc with ⟨hbefore,rfl⟩ | he
      · have hw : w' = P.world := h
        rw [hw]
        exact hP i k ⟨hgossip,hbefore⟩
      · cases he
        obtain ⟨now,hnone,rfl⟩ := h
        exact hnone.symm
    · simp only [Function.update_of_ne hj] at hnd hsought
      have hseek : Seeking self P i k := ⟨⟨pkt,conn,⟨hnd,hl⟩,hty⟩,hsought⟩
      refine absent_answers h (fun row he hk => ?_) (hP i k hseek)
      subst he
      exact hj (hu i j k hseek ⟨row,a,hk,by simp⟩).symm

theorem notThere_keeps {w : NodeState} (hP : Pool.Steps (rules self) (initial w) P)
    (hno : NotThere self P) (h : Pool.Step (rules self) P P') : GossipKeeps self P P' := by
  rintro i q a ⟨pkt,conn,⟨hnd,hl⟩,hty⟩ hhist k row hrow
  cases h with
  | drift w' h => exact h.elim
  | start j p w' _ h =>
    obtain ⟨_,rfl⟩ := h
    exact hrow
  | answer j q' c a' w' ht h =>
    have h : P.world.Answers q' a' w' := h
    obtain ⟨rfl,_⟩ := Pool.snoc_of_answer hhist
    have hpath := Pool.OnPath.waits (P := initial w) (fun _ => .here _) hP ht
    rw [hl] at hpath
    have henters := (gossip_sought [] hty).waits hpath (fun _ _ => trivial)
    by_cases hup : ∃ r, q' = .store (.upsertNode r)
    · obtain ⟨r,rfl⟩ := hup
      have habs := hno i r.nodeId ⟨⟨pkt,conn,⟨hnd,hl⟩,hty⟩,henters⟩
      have hne : k ≠ r.nodeId := by
        rintro rfl
        rw [habs] at hrow
        contradiction
      obtain ⟨now,_,rfl⟩ := h
      simpa [Storage.exec,Storage.upsertNode,Table.find_upsert,hne] using hrow
    · have hleaves : LeavesNodes q' := by
        unfold EntersSought at henters
        split at henters
        · exact (hup ⟨_,rfl⟩).elim
        · exact henters
      rw [nodes_answers h hleaves]
      exact hrow

end Run

open Malformed (sampleElement exists_gossip)
open Registration (sampleOwner)

/-- The handler has looked for the node "x", and at the clock twice. -/
def sampleSought : List (Exchange Req Ans) :=
  [⟨.store (.getNode (.text "x")),none⟩,⟨.time,100⟩,⟨.time,100⟩]

/-- What it enters then. -/
def sampleNews : NodeRow :=
  ⟨.text "x",.text "a:1",.text "permanent",.text "closed",[],"",100,0,"online",100⟩

theorem gossip_seeks {pkt : Packet} (hty : pkt.type = .str T.gossip)
    (hnodes : GossipEngine.remoteNodes shortSigLib pkt = .ok (.arr [sampleElement])) :
    ∃ c, Path (Node.dispatch (sampleNode false) pkt sampleOwner) sampleSought
      (.ask (.store (.upsertNode sampleNews)) c) := by
  rw [dispatch_gossip _ hty]
  unfold GossipEngine.handleGossip
  rw [hnodes]
  exact ⟨_,.step _ _ _ (.step _ _ _ (.step _ _ _ (.here _)))⟩

def sampleEmpty : NodeState := ⟨Storage.empty,ConnectionRegistry.empty⟩

/-- A slot is about to enter the node "x" that a GOSSIP packet lists. -/
theorem exists_seeking {ι : Type} [DecidableEq ι] (i : ι) :
    ∃ (P : Pool ι Req Ans Err Unit NodeState) (c : Ans (.store (.upsertNode sampleNews)) → NodeProg Unit),
      Pool.Steps (rules (sampleNode false)) (initial sampleEmpty) P ∧
      Gossiping (sampleNode false) P i ∧ P.history i = sampleSought ∧
      P.tasks i = .ask (.store (.upsertNode sampleNews)) c ∧
      (∀ j, j ≠ i → P.tasks j = .ret ()) ∧ P.world = sampleEmpty := by
  obtain ⟨pkt,hty,hnodes⟩ := exists_gossip (.arr [sampleElement]) (by decide +kernel)
  obtain ⟨c,hpath⟩ := gossip_seeks hty hnodes
  obtain ⟨P,hP,hl,hh,ht,hw⟩ := Pool.exists_run_of_start (R := rules (sampleNode false))
    (P := initial sampleEmpty) (i := i) trivial
    ⟨Runs.packet pkt sampleOwner,rfl⟩ hpath
    (.cons ⟨0,rfl,rfl⟩ (.cons rfl (.cons rfl (.nil sampleEmpty))))
  refine ⟨P,c,hP,⟨pkt,sampleOwner,⟨by simp [ht,Prog.Done],by simp [hl]⟩,hty⟩,by simp [hh],
    by simp [ht],fun j hj => by simp [ht,hj,initial],hw⟩

/-- The node "x" at the address it was reached at. -/
def sampleReached : PeerConnection := ⟨1,"x",[],.none,"n"⟩

def joinEnv : Env where
  now := fun _ => 101
  stamp := fun _ => ⟨"",0⟩
  wsSend := fun _ _ _ => .ok ()
  dial := fun _ _ _ => .ok sampleReached
  onMessage := fun _ _ => .ok ()

end Overwrites

end Nevod
