import Nevod.Handlers
import Nevod.Turn
import Nevod.Lib.Purge

/-!
The rows of `node_table` against the history of the statements that were executed
on it: what `missed_pings`, `last_seen` and `status` record.
-/

set_option autoImplicit false

namespace Nevod
open Text Resume Keyed Purging

variable {L : Lib}

namespace NodeHistory

/-- A statement and the time at which it is executed. -/
abbrev TimedStatement := Int × StoreOp

def step (s : Storage) (o : TimedStatement) : Storage := (s.exec o.1 o.2).2

/-- The statements the program executes at a time: it enters a node as just
seen. -/
def Written (o : TimedStatement) : Prop :=
  match o.2 with
  | .upsertNode row => row.lastSeen = o.1 ∧ row.missedPings = 0 ∧ row.status = "online"
  | _ => True

/-- Evidence that the node is alive: it is entered, or a ping of it succeeds. -/
def refreshes (nodeId : SqlText) : StoreOp → Bool
  | .upsertNode row => row.nodeId = nodeId
  | .updateNodePing k true => k = nodeId
  | _ => false

def misses (nodeId : SqlText) : StoreOp → Bool
  | .updateNodePing k false => k = nodeId
  | _ => false

/-- The latest evidence that the node is alive is of time `t`, and `failures`
pings of it have failed since. -/
def Since (ops : List TimedStatement) (nodeId : SqlText) (t : Int) (failures : Nat) : Prop :=
  ∃ pre op post, ops = pre ++ (t,op) :: post ∧ refreshes nodeId op = true ∧
    (∀ o ∈ post, refreshes nodeId o.2 = false) ∧
    failures = post.countP (fun o => misses nodeId o.2)

/-- The row says what the history says. -/
structure Recorded (ops : List TimedStatement) (row : NodeRow) (t : Int) (failures : Nat) :
    Prop where
  since : Since ops row.nodeId t failures
  missedPings : row.missedPings = failures
  lastSeen : row.lastSeen = t
  status : row.status = if 3 ≤ failures then "offline" else "online"

theorem since_refresh (ops : List TimedStatement) {nodeId : SqlText} (t : Int) {op : StoreOp}
    (h : refreshes nodeId op = true) : Since (ops ++ [(t,op)]) nodeId t 0 :=
  ⟨ops,op,[],rfl,h,by simp,rfl⟩

theorem Since.snoc {ops : List TimedStatement} {nodeId : SqlText} {t : Int} {failures : Nat}
    (h : Since ops nodeId t failures) {o : TimedStatement} (ho : refreshes nodeId o.2 = false) :
    Since (ops ++ [o]) nodeId t (failures + if misses nodeId o.2 then 1 else 0) := by
  obtain ⟨pre,op,post,rfl,hop,hpost,rfl⟩ := h
  refine ⟨pre,op,post ++ [o],by simp,hop,?_,by simp [List.countP_append,List.countP_singleton]⟩
  intro p hp
  rcases List.mem_append.mp hp with hp | hp
  · exact hpost p hp
  · rw [List.mem_singleton.mp hp]
    exact ho

theorem Recorded.other {ops : List TimedStatement} {row : NodeRow} {t : Int} {failures : Nat}
    (h : Recorded ops row t failures) {o : TimedStatement}
    (hr : refreshes row.nodeId o.2 = false) (hm : misses row.nodeId o.2 = false) :
    Recorded (ops ++ [o]) row t failures := by
  have hs := h.since.snoc hr
  simp only [hm,Bool.false_eq_true,if_false,Nat.add_zero] at hs
  exact ⟨hs,h.missedPings,h.lastSeen,h.status⟩

theorem Recorded.missed {ops : List TimedStatement} {row : NodeRow} {t : Int} {failures : Nat}
    (h : Recorded ops row t failures) (now : Int) :
    Recorded (ops ++ [(now,.updateNodePing row.nodeId false)]) (Storage.missPing row) t
      (failures+1) := by
  have hs := h.since.snoc (o := (now,.updateNodePing row.nodeId false)) rfl
  simp only [misses,decide_true,if_true] at hs
  refine ⟨hs,by simp [Storage.missPing,h.missedPings],h.lastSeen,?_⟩
  have hst := h.status
  simp only [Storage.missPing,missedPingsOffline,h.missedPings]
  by_cases hk : 3 ≤ failures
  · have h1 : (3 : Int) ≤ failures + 1 := by omega
    have h2 : 3 ≤ failures + 1 := by omega
    simp [h1,h2]
  · rw [if_neg hk] at hst
    by_cases h3 : 3 ≤ failures + 1
    · have h1 : (3 : Int) ≤ failures + 1 := by omega
      simp [h1,h3]
    · have h1 : ¬ (3 : Int) ≤ failures + 1 := by omega
      simp [h1,h3,hst]

def AllRecorded (ops : List TimedStatement) (s : Storage) : Prop :=
  ∀ row ∈ s.nodeTable.rows, ∃ t failures, Recorded ops row t failures

section

variable {ops : List TimedStatement} {s : Storage}

theorem AllRecorded.fewer (h : AllRecorded ops s) {s' : Storage} {o : TimedStatement}
    (hsub : ∀ row ∈ s'.nodeTable.rows, row ∈ s.nodeTable.rows)
    (ho : ∀ nodeId, refreshes nodeId o.2 = false ∧ misses nodeId o.2 = false) :
    AllRecorded (ops ++ [o]) s' := by
  intro row hrow
  obtain ⟨t,failures,hr⟩ := h row (hsub row hrow)
  exact ⟨t,failures,hr.other (ho _).1 (ho _).2⟩

theorem AllRecorded.upsertNode (h : AllRecorded ops s) {now : Int} {row : NodeRow}
    (hw : Written (now,.upsertNode row)) :
    AllRecorded (ops ++ [(now,.upsertNode row)]) (s.upsertNode row) := by
  intro r hr
  have hfind := (Table.find_eq_some _).mpr ⟨hr,rfl⟩
  rw [Storage.upsertNode,Table.find_upsert] at hfind
  by_cases hk : r.nodeId = row.nodeId
  · have hs : Since (ops ++ [(now,.upsertNode row)]) r.nodeId now 0 :=
      since_refresh ops now (by simp [refreshes,hk])
    obtain ⟨hseen,hmissed,hstatus⟩ := hw
    rw [if_pos hk,Option.some.injEq] at hfind
    refine ⟨now,0,hs,?_,?_,?_⟩ <;> rw [← hfind] <;>
      cases s.nodeTable.find r.nodeId <;> simp_all
  · rw [if_neg hk] at hfind
    obtain ⟨t,failures,hrec⟩ := h r ((Table.find_eq_some _).mp hfind).1
    exact ⟨t,failures,hrec.other (by simp [refreshes,Ne.symm hk]) rfl⟩

theorem AllRecorded.updateNodePing (h : AllRecorded ops s) (now : Int) (k : SqlText)
    (success : Bool) :
    AllRecorded (ops ++ [(now,.updateNodePing k success)]) (s.updateNodePing now k success) := by
  intro r hr
  cases success with
  | true =>
    obtain ⟨r0,hr0,rfl⟩ := List.mem_map.mp hr
    by_cases hk : r0.nodeId = k
    · simp only [hk,if_true]
      exact ⟨now,0,since_refresh ops now (by simp [refreshes]),rfl,rfl,rfl⟩
    · simp only [hk,if_false]
      obtain ⟨t,failures,hrec⟩ := h r0 hr0
      exact ⟨t,failures,hrec.other (by simp [refreshes,Ne.symm hk]) rfl⟩
  | false =>
    obtain ⟨r0,hr0,rfl⟩ := List.mem_map.mp hr
    obtain ⟨t,failures,hrec⟩ := h r0 hr0
    by_cases hk : r0.nodeId = k
    · simp only [hk,if_true]
      exact ⟨t,failures+1,by rw [← hk]; exact hrec.missed now⟩
    · simp only [hk,if_false]
      exact ⟨t,failures,hrec.other rfl (by simp [misses,Ne.symm hk])⟩

theorem AllRecorded.step (h : AllRecorded ops s) {o : TimedStatement} (hw : Written o) :
    AllRecorded (ops ++ [o]) (step s o) := by
  obtain ⟨now,op⟩ := o
  cases op with
  | upsertNode row => exact h.upsertNode hw
  | updateNodePing k success => exact h.updateNodePing now k success
  | removeNode k =>
    exact h.fewer (fun row hr => ((Table.mem_delete _ k row).mp hr).1) (fun _ => ⟨rfl,rfl⟩)
  | cleanupExpiredNodes =>
    exact h.fewer (fun row hr => ((Table.mem_deleteWhere _ _ row).mp hr).1) (fun _ => ⟨rfl,rfl⟩)
  | _ => exact h.fewer (fun row hr => hr) (fun _ => ⟨rfl,rfl⟩)

theorem allRecorded_after (hs : s.nodeTable.rows = []) (hw : ∀ o ∈ ops, Written o) :
    AllRecorded ops (after step s ops) := by
  suffices h : ∀ done s, AllRecorded done s → AllRecorded (done ++ ops) (after NodeHistory.step s ops)
    from h [] s (by simp [AllRecorded,hs])
  clear hs
  induction ops with
  | nil => exact fun done s h => by simpa using h
  | cons o ops ih =>
    intro done s h
    have hrest := ih (fun o ho => hw o (by simp [ho])) (done ++ [o]) (NodeHistory.step s o)
      (h.step (hw o (by simp)))
    simpa using hrest

end

/-- With a clock that does not go back, the latest evidence is the youngest. -/
theorem Since.latest {ops : List TimedStatement} {nodeId : SqlText} {t : Int} {failures : Nat}
    (h : Since ops nodeId t failures) (hclock : ops.Pairwise (fun o p => o.1 ≤ p.1))
    {o : TimedStatement} (ho : o ∈ ops) (hr : refreshes nodeId o.2 = true) : o.1 ≤ t := by
  obtain ⟨pre,op,post,rfl,_,hpost,_⟩ := h
  have hpre := (List.pairwise_append.mp hclock).2.2
  rcases List.mem_append.mp ho with ho | ho
  · exact hpre o ho (t,op) (by simp)
  · rcases List.mem_cons.mp ho with rfl | ho
    · exact Int.le_refl _
    · rw [hpost o ho] at hr
      cases hr

/-- A row that is in step with the history is deleted after three failures in a
row and 72 hours. -/
theorem Recorded.cleanup_iff {ops : List TimedStatement} {s : Storage} {row : NodeRow} {t : Int}
    {failures : Nat} (h : Recorded ops row t failures) (hrow : row ∈ s.nodeTable.rows)
    (now : Int) :
    row ∉ (s.cleanupExpiredNodes now).nodeTable.rows ↔ 3 ≤ failures ∧ t < now - 72*3600 := by
  have hst := h.status
  simp only [Storage.cleanupExpiredNodes,Table.mem_deleteWhere,hrow,true_and,
    Bool.not_eq_false,Bool.and_eq_true,beq_iff_eq,decide_eq_true_eq,h.lastSeen,ttlNodeOfflineSecs]
  by_cases hk : 3 ≤ failures <;> simp [hst,hk]

/-- A node that was entered, answered once and then missed three pings. -/
def sampleStatements (row : NodeRow) : List TimedStatement :=
  [(5,.upsertNode row),(6,.updateNodePing row.nodeId true),(7,.updateNodePing row.nodeId false),
    (8,.updateNodePing row.nodeId false),(9,.updateNodePing row.nodeId false)]

def sampleRow : NodeRow where
  nodeId := .text "n"
  address := .text "host:1"
  type := .text "permanent"
  access := .text "open"
  cert := []
  parentNode := ""
  lastSeen := 5
  missedPings := 0
  status := "online"
  addedAt := 5

/-- That node then. -/
def sampleSilent : NodeRow := { sampleRow with lastSeen := 6, missedPings := 3, status := "offline" }

section

variable {self : Node L} {past : List (Exchange Req Ans)}

/-- A node is entered with the time that the clock has just shown: nothing but the
clock is asked in between. -/
def EntersNow (past : List (Exchange Req Ans)) : Req → Prop
  | .store (.upsertNode row) => row.missedPings = 0 ∧ row.status = "online" ∧
      ∃ pre clock, past = pre ++ ⟨.time,row.lastSeen⟩ :: clock ∧ ∀ e ∈ clock, e.1 = .time
  | _ => True

def EntersNone (q : Req) : Prop := ∀ row, q ≠ .store (.upsertNode row)

theorem enters_of_none {q : Req} (h : EntersNone q) (past : List (Exchange Req Ans)) :
    EntersNow past q := by
  unfold EntersNow
  split
  · exact (h _ rfl).elim
  · trivial

/-- `last_seen` and `added_at` are read one after the other, and once more where
the second is zero. -/
theorem enters_seen {entry : Int → Int → NodeEntry}
    (hfresh : ∀ t u, (entry t u).lastSeen = t ∧ (entry t u).missedPings = 0 ∧
      (entry t u).status = "online") :
    Heeds EntersNow (fun _ _ => True) (fun _ _ => True) past
      (.ask .time (fun t => .ask .time (fun u => Storage.putNode L (entry t u)))) := by
  refine ⟨trivial,fun t _ => ⟨trivial,fun u _ => ?_⟩⟩
  obtain ⟨hseen,hmissed,hstatus⟩ := hfresh t u
  have hwrite : ∀ (clock : List (Exchange Req Ans)) (added : Int)
      (put : Option NodeRow → NodeProg Unit), (∀ e ∈ clock, e.1 = .time) → put none = .ret () →
      (∀ row, put (some row) = NodeProg.store (.upsertNode row)) →
      Heeds EntersNow (fun _ _ => True) (fun _ _ => True) (past ++ ⟨.time,t⟩ :: clock)
        ((Prog.ofExcept (Storage.bindNode L (entry t u) added)).bind put) := by
    intro clock added put hclock hnone hsome
    cases hb : Storage.bindNode L (entry t u) added with
    | error e => trivial
    | ok row =>
      rw [Prog.ofExcept_ok,Prog.bind_ret]
      cases row with
      | none =>
        rw [hnone]
        trivial
      | some row =>
        have hrow := bindNode_ok hb
        rw [hsome]
        refine ⟨⟨by rw [hrow.missedPings,hmissed],by rw [hrow.status,hstatus],past,clock,?_,hclock⟩,
          fun _ _ => trivial⟩
        rw [hrow.lastSeen,hseen]
  unfold Storage.putNode Storage.addedAt
  by_cases hzero : (entry t u).addedAt = 0
  · simp only [if_pos hzero]
    refine ⟨trivial,fun v _ => ?_⟩
    simp only [List.append_assoc,List.cons_append,List.nil_append]
    exact hwrite [⟨.time,u⟩,⟨.time,v⟩] v _ (by simp) rfl (fun _ => rfl)
  · simp only [if_neg hzero]
    simp only [List.append_assoc,List.cons_append,List.nil_append]
    exact hwrite [⟨.time,u⟩] (entry t u).addedAt _ (by simp) rfl (fun _ => rfl)

theorem enters_createGenesis (address access : String) :
    Heeds EntersNow (fun _ _ => True) (fun _ _ => True) past
      (Node.createGenesis self address access) :=
  enters_seen (fun _ _ => ⟨rfl,rfl,rfl⟩)

theorem enters_join (address : String) :
    Heeds EntersNow (fun _ _ => True) (fun _ _ => True) past (Node.join L address) := by
  have hconnect : Obeys EntersNone (fun _ _ => True) (fun _ => True)
      (Transport.connect address) := by
    unfold Transport.connect
    split
    · trivial
    · refine ⟨by simp [EntersNone],fun conn _ => ?_⟩
      cases conn with
      | error e => trivial
      | ok conn => exact ⟨by simp [EntersNone],fun _ _ => ⟨by simp [EntersNone],fun _ _ => trivial⟩⟩
  exact (hconnect.heeds (fun later q hq => enters_of_none hq later)).bind
    (fun _ _ _ => enters_seen (fun _ _ => ⟨rfl,rfl,rfl⟩))

theorem entersNone_turn :
    Obeys EntersNone (fun _ _ => True) (fun _ => True) (GossipEngine.turn self) := by
  have hturns : Heeds (GossipEngine.Turns self) (fun _ _ => True) (fun _ _ => True) []
      (GossipEngine.turn self) := GossipEngine.turn_turns
  refine hturns.obeys (fun later q hq row he => ?_)
  subst he
  exact hq.elim

theorem enters_turn :
    Heeds EntersNow (fun _ _ => True) (fun _ _ => True) past (GossipEngine.turn self) :=
  entersNone_turn.heeds (fun later _ hq => enters_of_none hq later)

theorem enters_mergeNode (n : Val) :
    Heeds EntersNow (fun _ _ => True) (fun _ _ => True) past (GossipEngine.mergeNode L n) := by
  have hread : ∀ {α : Type} (x : Except Err α) {later : List (Exchange Req Ans)},
      Heeds EntersNow (fun _ _ => True) (fun _ _ => True) later (Prog.ofExcept x : NodeProg α) :=
    fun x => (obeys_ofExcept x).heeds (fun later q hq => enters_of_none hq later)
  unfold GossipEngine.mergeNode
  refine (hread _).bind (fun _ nodeId _ => (hread _).bind (fun _ address _ => ?_))
  split
  · trivial
  · have hget : Obeys EntersNone (fun _ _ => True) (fun _ => True)
        (Storage.getNode L nodeId) := by
      refine (obeys_ofExcept _).bind (fun k _ => ?_)
      cases k with
      | none => trivial
      | some k => exact ⟨by simp [EntersNone],fun _ _ => trivial⟩
    refine (hget.heeds (fun later q hq => enters_of_none hq later)).bind (fun _ existing _ => ?_)
    cases existing with
    | some row => trivial
    | none =>
      refine (hread _).bind (fun _ type _ => (hread _).bind (fun _ access _ => ?_))
      have hlearn : ∀ later, Heeds EntersNow (fun _ _ => True) (fun _ _ => True) later
          (.ask .time (fun t => .ask .time (fun u =>
            Storage.putNode L (learntEntry nodeId address type access t u)))) :=
        fun _ => enters_seen (fun _ _ => ⟨rfl,rfl,rfl⟩)
      exact (hlearn _).bind (fun _ _ _ => hread _)

theorem enters_dispatch (pkt : Packet) (conn : PeerConnection) :
    Heeds EntersNow (fun _ _ => True) (fun _ _ => True) past (Node.dispatch self pkt conn) := by
  by_cases hty : pkt.type = .str T.gossip
  · rw [dispatch_gossip conn hty]
    unfold GossipEngine.handleGossip
    split
    · trivial
    · refine ((obeys_ofExcept _).heeds (fun later q hq => enters_of_none hq later)).bind
        (fun _ items _ => Heeds.forEach (fun _ n _ => enters_mergeNode n))
  · have hd : Within self (fun _ => True) pkt conn (Node.dispatch self pkt conn) :=
      within_dispatch
    have hnone : Obeys EntersNone (fun _ _ => True) (fun _ => True)
        (Node.dispatch self pkt conn) := by
      refine (hd.mono_guard (fun q hq row he => ?_)).mono_rely (fun q a _ => ?_)
      · subst he
        exact hty hq.1
      · unfold ReadsWaiting
        split <;> simp
    exact hnone.heeds (fun later q hq => enters_of_none hq later)

end

end NodeHistory

end Nevod
