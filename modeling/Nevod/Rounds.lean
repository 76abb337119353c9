import Nevod.Lib.Ledger
import Nevod.Running

/-!
Whom a turn of the gossip loop visits: every other node that it has read is pinged
once, in the order of the table, and a few of those that were online get the table.
-/

set_option autoImplicit false

namespace Nevod
open Text Resume Keyed

variable {L : Lib} {ι : Type}

namespace Rounds
open Network

variable {self : Node L}

/-- The node for which a result is recorded. -/
def pingMark : Exchange Req Ans → List SqlText
  | ⟨.store (.updateNodePing k _),_⟩ => [k]
  | _ => []

def others (self : Node L) (rows : List NodeRow) : List NodeRow :=
  rows.filter (fun r => r.nodeId ≠ .text self.id)

def online (self : Node L) (rows : List NodeRow) : List NodeRow :=
  rows.filter (fun r => r.status = "online" ∧ r.nodeId ≠ .text self.id)

theorem trySend_owes (conn : PeerConnection) (pkt : Packet) :
    Owes pingMark [] (GossipEngine.trySend self conn pkt) := by
  rcases GossipEngine.trySend_cases self conn pkt with ⟨_,_,ht⟩ | ⟨_,_,_,ht⟩
  · rw [ht]
    rfl
  · rw [ht]
    intro sent
    cases sent <;> exact ⟨[],rfl,rfl⟩

theorem pingOver_owes (k : SqlText) (conn : PeerConnection) :
    Owes pingMark [k] (GossipEngine.pingOver self k conn) :=
  fun _ => ⟨[k],rfl,(trySend_owes conn _).bind (fun _ _ => ⟨[],rfl,rfl⟩)⟩

/-- A node is pinged once, however it ends. -/
theorem pingNode_owes (entry : NodeRow) :
    Owes pingMark [entry.nodeId] (GossipEngine.pingNode self entry) := by
  rw [GossipEngine.pingNode_eq]
  cases entry.nodeId with
  | blob b => exact fun _ => ⟨[],rfl,rfl⟩
  | text nodeId =>
    refine fun found => ⟨[.text nodeId],rfl,?_⟩
    cases found with
    | some conn => exact pingOver_owes (.text nodeId) conn
    | none =>
      refine fun dialled => ⟨[.text nodeId],rfl,?_⟩
      cases dialled with
      | error e => exact fun _ => ⟨[],rfl,rfl⟩
      | ok conn =>
        exact fun _ => ⟨_,rfl,fun _ => ⟨_,rfl,pingOver_owes (.text nodeId) conn⟩⟩

/-- What a turn does with the rows it has read, up to the drawing of the peers. -/
def visits (self : Node L) (rows : List NodeRow) : NodeProg (List Nat) := do
  Prog.forEach (others self rows) (GossipEngine.pingNode self)
  NodeProg.store .cleanupExpiredNodes
  NodeProg.store .cleanupExpiredMessages
  NodeProg.sample (online self rows).length (min gossipFanout (online self rows).length)

/-- And what it does with those. -/
def gossips (self : Node L) (rows : List NodeRow) (picks : List Nat) : NodeProg Unit :=
  (Prog.forEach (picks.filterMap (fun i => (online self rows)[i]?))
    (GossipEngine.exchange self)).rescue (fun _ => .ret ())

theorem turn_eq : GossipEngine.turn self = .ask (.store .getAllNodes) (fun rows =>
    (visits self rows).bind (gossips self rows)) := by
  unfold GossipEngine.turn GossipEngine.round visits gossips
  simp only [Prog.bind_eq,Prog.bind_ask,Prog.bind_ret,Prog.rescue_ask,Prog.bind_assoc]
  congr 1
  funext rows
  have hpings : (Prog.forEach (others self rows) (GossipEngine.pingNode self)).Safe :=
    Prog.Safe.forEach GossipEngine.safe_pingNode
  exact hpings.rescue_bind

theorem visits_owes (rows : List NodeRow) :
    Owes pingMark ((others self rows).map NodeRow.nodeId) (visits self rows) := by
  have hpings : Owes pingMark ((others self rows).flatMap (fun r => [r.nodeId]))
      (Prog.forEach (others self rows) (GossipEngine.pingNode self)) :=
    Owes.forEach (fun r _ => pingNode_owes r)
  rw [← List.map_eq_flatMap] at hpings
  have hdraw : Owes pingMark [] (Prog.ask (.store .cleanupExpiredNodes) (fun _ =>
      Prog.ask (.store .cleanupExpiredMessages) (fun _ => NodeProg.sample
        (online self rows).length (min gossipFanout (online self rows).length))) :
        NodeProg (List Nat)) :=
    fun _ => ⟨[],rfl,fun _ => ⟨[],rfl,fun _ => ⟨[],rfl,rfl⟩⟩⟩
  have hall := hpings.bind (fun _ => hdraw)
  rwa [List.append_nil] at hall

theorem exchange_owes (peer : NodeRow) : Owes pingMark [] (GossipEngine.exchange self peer) := by
  rw [GossipEngine.exchange_eq]
  cases peer.nodeId with
  | blob b => rfl
  | text nodeId =>
    refine fun found => ⟨[],rfl,?_⟩
    cases found with
    | none => rfl
    | some conn =>
      refine fun rows => ⟨[],rfl,fun st => ⟨[],rfl,?_⟩⟩
      cases hg : makeGossip L st (.str self.id) (rows.map NodeRow.toDict) with
      | error e => simp [hg,Owes]
      | ok g =>
        simp only [hg]
        exact (trySend_owes conn g).bind (fun _ => rfl)

theorem gossips_owes (rows : List NodeRow) (picks : List Nat) :
    Owes pingMark [] (gossips self rows picks) := by
  have hall : Owes pingMark ((picks.filterMap (fun i => (online self rows)[i]?)).flatMap
      (fun _ => ([] : List SqlText))) (Prog.forEach _ (GossipEngine.exchange self)) :=
    Owes.forEach (fun r _ => exchange_owes r)
  rw [List.flatMap_eq_nil_iff.mpr (fun _ _ => rfl)] at hall
  exact hall.rescue (fun _ => rfl)

/-- A success is recorded exactly if the PING has just been sent. -/
def Told (self : Node L) (past : List (Exchange Req Ans)) : Req → Prop
  | .store (.updateNodePing k success) => success = true ↔ ∃ conn frame,
      Running.IsPing self k frame ∧ past.getLast? = some ⟨.wsSend conn frame,.ok ()⟩
  | _ => True

/-- Nothing has just been sent. -/
def Calm (past : List (Exchange Req Ans)) : Prop :=
  ∀ conn frame a, past.getLast? ≠ some ⟨.wsSend conn frame,a⟩

theorem calm_recorded (past : List (Exchange Req Ans)) (k : SqlText) (success : Bool)
    (a : Ans (.store (.updateNodePing k success))) :
    Calm (past ++ [⟨.store (.updateNodePing k success),a⟩]) := by
  simp [Calm]

theorem Calm.told {past : List (Exchange Req Ans)} (h : Calm past) (k : SqlText) :
    Told self past (.store (.updateNodePing k false)) := by
  refine ⟨by simp,?_⟩
  rintro ⟨conn,frame,_,hlast⟩
  exact absurd hlast (h conn frame _)

theorem trySend_told (k : SqlText) (conn : PeerConnection) (st : Stamp)
    {past : List (Exchange Req Ans)} (h : Calm past) :
    Heeds (Told self) (fun _ _ => True)
      (fun later sent => Told self later (.store (.updateNodePing k sent))) past
      (GossipEngine.trySend self conn (makePing st (.str self.id) k.toVal)) := by
  rcases GossipEngine.trySend_cases self conn (makePing st (.str self.id) k.toVal) with
    ⟨_,_,ht⟩ | ⟨signed,frame,hw,ht⟩
  · rw [ht]
    exact h.told k
  · rw [ht]
    refine ⟨trivial,fun sent _ => ?_⟩
    rcases sent with e | ⟨⟨⟩⟩
    · refine ⟨by simp,?_⟩
      rintro ⟨conn',frame',_,hlast⟩
      simp at hlast
    · exact ⟨fun _ => ⟨conn,frame,⟨st,signed,hw⟩,by simp⟩,fun _ => rfl⟩

theorem pingOver_told (k : SqlText) (conn : PeerConnection) (past : List (Exchange Req Ans)) :
    Heeds (Told self) (fun _ _ => True) (fun later _ => Calm later) past
      (GossipEngine.pingOver self k conn) := by
  refine ⟨trivial,fun st _ => ?_⟩
  exact (trySend_told k conn st (by simp [Calm])).bind
    (fun later sent hl => ⟨hl,fun a _ => calm_recorded later k sent a⟩)

theorem pingNode_told (entry : NodeRow) {past : List (Exchange Req Ans)} (h : Calm past) :
    Heeds (Told self) (fun _ _ => True) (fun later _ => Calm later) past
      (GossipEngine.pingNode self entry) := by
  rw [GossipEngine.pingNode_eq]
  cases entry.nodeId with
  | blob b => exact ⟨h.told (.blob b),fun a _ => calm_recorded past _ false a⟩
  | text nodeId =>
    refine ⟨trivial,fun found _ => ?_⟩
    cases found with
    | some conn => exact pingOver_told (.text nodeId) conn _
    | none =>
      refine ⟨trivial,fun dialled _ => ?_⟩
      cases dialled with
      | error e => exact ⟨Calm.told (by simp [Calm]) _,fun a _ => calm_recorded _ _ false a⟩
      | ok conn =>
        exact ⟨trivial,fun _ _ => ⟨trivial,fun _ _ => pingOver_told (.text nodeId) conn _⟩⟩

theorem pingAll_told (rows : List NodeRow) {past : List (Exchange Req Ans)} (h : Calm past) :
    Heeds (Told self) (fun _ _ => True) (fun later _ => Calm later) past
      (Prog.forEach rows (GossipEngine.pingNode self)) := by
  induction rows generalizing past with
  | nil => exact h
  | cons r rows ih => exact (pingNode_told r h).bind (fun _ _ hl => ih hl)

/-- Once the peers are drawn no more results are recorded. -/
theorem exchange_told (peer : NodeRow) (past : List (Exchange Req Ans)) :
    Heeds (Told self) (fun _ _ => True) (fun _ _ => True) past
      (GossipEngine.exchange self peer) := by
  rw [GossipEngine.exchange_eq]
  cases peer.nodeId with
  | blob b => trivial
  | text nodeId =>
    refine ⟨trivial,fun found _ => ?_⟩
    cases found with
    | none => trivial
    | some conn =>
      refine ⟨trivial,fun rows _ => ⟨trivial,fun st _ => ?_⟩⟩
      cases hg : makeGossip L st (.str self.id) (rows.map NodeRow.toDict) with
      | error e => simp [hg,Heeds]
      | ok g =>
        simp only [hg]
        rcases GossipEngine.trySend_cases self conn g with ⟨_,_,ht⟩ | ⟨_,_,_,ht⟩
        · rw [ht]
          trivial
        · rw [ht]
          refine ⟨trivial,fun sent _ => ?_⟩
          cases sent <;> trivial

theorem turn_told : Heeds (Told self) (fun _ _ => True) (fun _ _ => True) []
    (GossipEngine.turn self) := by
  rw [turn_eq]
  refine ⟨trivial,fun rows _ => ?_⟩
  have hcalm : Calm [⟨.store .getAllNodes,rows⟩] := by simp [Calm]
  have hpings : Heeds (Told self) (fun _ _ => True) (fun later _ => Calm later)
      [⟨.store .getAllNodes,rows⟩] (Prog.forEach (others self rows) (GossipEngine.pingNode self)) :=
    pingAll_told (others self rows) hcalm
  have hvisits : Heeds (Told self) (fun _ _ => True) (fun _ _ => True)
      [⟨.store .getAllNodes,rows⟩] (visits self rows) :=
    hpings.bind (fun _ _ _ => ⟨trivial,fun _ _ => ⟨trivial,fun _ _ => ⟨trivial,fun _ _ => trivial⟩⟩⟩)
  refine hvisits.bind (fun later picks _ => ?_)
  exact Heeds.rescue (Heeds.forEach (fun last r _ => exchange_told r last)) (fun _ _ => trivial)

/-- The other nodes that were read are pinged one after the other. -/
structure Visited (node : Node L) (rows : List NodeRow) (tr : List (Exchange Req Ans)) : Prop where
  once : (rows.map NodeRow.nodeId).Nodup
  ordered : tr.flatMap pingMark <+: (others node rows).map NodeRow.nodeId
  truthful : ∀ before k success after,
    tr = before ++ ⟨.store (.updateNodePing k success),()⟩ :: after → (success = true ↔
      ∃ conn frame, Running.IsPing node k frame ∧
        before.getLast? = some ⟨.wsSend conn frame,.ok ()⟩)

theorem turn_path {tr : List (Exchange Req Ans)} {p : NodeProg Unit}
    (h : Path (GossipEngine.turn self) tr p) : tr = [] ∨ ∃ rows rest,
      tr = ⟨.store .getAllNodes,rows⟩ :: rest ∧
        Path ((visits self rows).bind (gossips self rows)) rest p := by
  rw [turn_eq] at h
  cases h with
  | here => exact .inl rfl
  | step _ _ rows h => exact .inr ⟨rows,_,rfl,h⟩

/-- What a table is read as. -/
def Reads : (q : Req) → Ans q → Prop
  | .store .getAllNodes,rows => (rows.map NodeRow.nodeId).Nodup
  | _,_ => True

theorem reads_answers {w w' : NodeState} {q : Req} {a : Ans q} (h : w.Answers q a w') :
    Reads q a := by
  cases q with
  | store op =>
    obtain ⟨now,rfl,_⟩ := h
    cases op with
    | getAllNodes => exact w.storage.nodeTable.nodup
    | _ => trivial
  | _ => trivial

theorem nodup_read [DecidableEq ι] {w : NodeState} {P : Pool ι Req Ans Err Unit NodeState}
    (hP : Pool.Steps (Running.rules self) (Running.initial w) P) {i : ι} {rows : List NodeRow}
    (h : (⟨.store .getAllNodes,rows⟩ : Exchange Req Ans) ∈ P.history i) :
    (rows.map NodeRow.nodeId).Nodup := by
  have hreads : ∀ i, ∀ e ∈ P.history i, Reads e.1 e.2 :=
    Pool.answers_of_steps (fun _ _ _ _ _ h => reads_answers h)
      (fun _ _ he => absurd he List.not_mem_nil) hP
  exact hreads i _ h

/-- In every run a turn of the loop pings every other node that is in the table when
it begins, each once and in order, and it records a success exactly for the PINGs
that were put on a socket. -/
theorem turn_pings_each [DecidableEq ι] {w : NodeState} {P : Pool ι Req Ans Err Unit NodeState}
    (hP : Pool.Steps (Running.rules self) (Running.initial w) P) (i : ι)
    (hl : P.launched i = GossipEngine.turn self) : P.history i = [] ∨
      ∃ rows, (P.history i).head? = some ⟨.store .getAllNodes,rows⟩ ∧
        Visited self rows (P.history i) ∧
        ((P.tasks i).Done →
          (P.history i).flatMap pingMark = (others self rows).map NodeRow.nodeId) := by
  have hpath := Pool.OnPath.steps (P := Running.initial w) (fun _ => .here _) hP i
  rw [hl] at hpath
  rcases turn_path hpath with hnil | ⟨rows,rest,hh,hrest⟩
  · exact .inl hnil
  have howes : Owes pingMark ((others self rows).map NodeRow.nodeId ++ [])
      ((visits self rows).bind (gossips self rows)) := (visits_owes rows).bind (gossips_owes rows)
  rw [List.append_nil] at howes
  have hmarks : (P.history i).flatMap pingMark = rest.flatMap pingMark := by
    rw [hh]
    rfl
  refine .inr ⟨rows,by rw [hh]; rfl,⟨?_,?_,?_⟩,fun hd => ?_⟩
  · exact nodup_read hP (i := i) (by rw [hh]; simp)
  · rw [hmarks]
    exact howes.prefix_of_path hrest
  · intro before k success after he
    have ht := (turn_told.path hpath (fun _ _ => trivial)).1 before _ after he
    rw [List.nil_append] at ht
    exact ht
  · obtain ⟨a,ha⟩ := (hpath.safe GossipEngine.safe_turn).exists_ret hd
    rw [ha] at hrest
    rw [hmarks]
    exact howes.eq_of_returned hrest

/-- The frame that is put on a socket. -/
def sendMark : Exchange Req Ans → List (PeerConnection × Bytes)
  | ⟨.wsSend conn frame,_⟩ => [(conn,frame)]
  | _ => []

/-- The node with this id was sent the table that had just been read. -/
def Greeted (self : Node L) (tr : List (Exchange Req Ans)) (nodeId : String)
    (sent : PeerConnection × Bytes) : Prop :=
  (⟨.connGet nodeId,some sent.1⟩ : Exchange Req Ans) ∈ tr ∧
    ∃ rows, (⟨.store .getAllNodes,rows⟩ : Exchange Req Ans) ∈ tr ∧ IsGossip self rows sent.2

theorem Greeted.mono {tr later : List (Exchange Req Ans)} {nodeId : String}
    {sent : PeerConnection × Bytes} (h : Greeted self tr nodeId sent) (hs : tr ⊆ later) :
    Greeted self later nodeId sent := by
  obtain ⟨hget,rows,hread,hg⟩ := h
  exact ⟨hs hget,rows,hs hread,hg⟩

/-- All that is sent goes to some of these nodes, one frame to each. -/
def Greets (self : Node L) (ids : List String) (tr : List (Exchange Req Ans)) : Prop :=
  (∀ expected address a, (⟨.dial expected address,a⟩ : Exchange Req Ans) ∉ tr) ∧
    ∃ reached, reached.Sublist ids ∧
      List.Forall₂ (Greeted self tr) reached (tr.flatMap sendMark)

theorem Greets.nil (ids : List String) : Greets self ids [] :=
  ⟨fun _ _ _ h => absurd h List.not_mem_nil,[],List.nil_sublist _,.nil⟩

theorem Greets.append {ids more : List String} {tr1 tr2 : List (Exchange Req Ans)}
    (h1 : Greets self ids tr1) (h2 : Greets self more tr2) :
    Greets self (ids ++ more) (tr1 ++ tr2) := by
  obtain ⟨hd1,r1,hs1,hf1⟩ := h1
  obtain ⟨hd2,r2,hs2,hf2⟩ := h2
  refine ⟨fun e a x h => ?_,r1 ++ r2,hs1.append hs2,?_⟩
  · rcases List.mem_append.mp h with h | h
    · exact hd1 e a x h
    · exact hd2 e a x h
  · rw [List.flatMap_append]
    exact List.rel_append
      (hf1.imp (fun _ _ hg => hg.mono (List.subset_append_left _ _)))
      (hf2.imp (fun _ _ hg => hg.mono (List.subset_append_right _ _)))

theorem Greets.mono {ids more : List String} {tr : List (Exchange Req Ans)}
    (h : Greets self ids tr) (hs : ids.Sublist more) : Greets self more tr := by
  obtain ⟨hd,reached,hr,hf⟩ := h
  exact ⟨hd,reached,hr.trans hs,hf⟩

def textId (r : NodeRow) : Option String :=
  match r.nodeId with
  | .text nodeId => some nodeId
  | .blob _ => none

theorem trySend_path {conn : PeerConnection} {pkt : Packet} {tr : List (Exchange Req Ans)}
    {p : NodeProg Unit}
    (h : Path ((GossipEngine.trySend self conn pkt).bind (fun _ => .ret ())) tr p) :
    tr = [] ∨ ∃ signed frame a, Transport.wireForm self pkt = .ok (signed,frame) ∧
      tr = [⟨.wsSend conn frame,a⟩] := by
  rcases GossipEngine.trySend_cases self conn pkt with ⟨_,_,ht⟩ | ⟨signed,frame,hw,ht⟩
  · rw [ht] at h
    exact .inl h.of_ret.1
  · rw [ht] at h
    cases h with
    | here => exact .inl rfl
    | @step _ _ sent rest _ h =>
      have hrest : rest = [] := by cases sent <;> exact h.of_ret.1
      exact .inr ⟨signed,frame,sent,hw,by rw [hrest]⟩

theorem exchange_greets {peer : NodeRow} {tr : List (Exchange Req Ans)} {p : NodeProg Unit}
    (h : Path (GossipEngine.exchange self peer) tr p) : Greets self (textId peer).toList tr := by
  rw [GossipEngine.exchange_eq] at h
  unfold textId
  cases hk : peer.nodeId with
  | blob b =>
    rw [hk] at h
    obtain ⟨rfl,_⟩ := h.of_ret
    exact .nil _
  | text nodeId =>
    rw [hk] at h
    have hquiet : ∀ tr : List (Exchange Req Ans), tr.flatMap sendMark = [] →
        (∀ expected address a, (⟨.dial expected address,a⟩ : Exchange Req Ans) ∉ tr) →
        Greets self [nodeId] tr :=
      fun tr hs hd => ⟨hd,[],List.nil_sublist _,by rw [hs]; exact .nil⟩
    cases h with
    | here => exact .nil _
    | step _ _ found h =>
      cases found with
      | none =>
        obtain ⟨rfl,_⟩ := h.of_ret
        exact hquiet _ rfl (by simp)
      | some conn =>
        cases h with
        | here => exact hquiet _ rfl (by simp)
        | step _ _ rows h =>
          cases h with
          | here => exact hquiet _ rfl (by simp)
          | step _ _ st h =>
            cases hg : makeGossip L st (.str self.id) (rows.map NodeRow.toDict) with
            | error e =>
              simp only [hg] at h
              obtain ⟨rfl,_⟩ := h.of_raise
              exact hquiet _ rfl (by simp)
            | ok g =>
              simp only [hg] at h
              rcases trySend_path h with rfl | ⟨signed,frame,a,hw,rfl⟩
              · exact hquiet _ rfl (by simp)
              · refine ⟨by simp,[nodeId],List.Sublist.refl _,?_⟩
                exact .cons ⟨by simp,rows,by simp,st,g,signed,hg,hw⟩ .nil

theorem exchanges_greet (peers : List NodeRow) {tr : List (Exchange Req Ans)} {p : NodeProg Unit}
    (h : Path (Prog.forEach peers (GossipEngine.exchange self)) tr p) :
    Greets self (peers.filterMap textId) tr := by
  induction peers generalizing tr with
  | nil =>
    obtain ⟨rfl,_⟩ := h.of_ret
    exact .nil _
  | cons peer peers ih =>
    have hsub : ((textId peer).toList ++ peers.filterMap textId) =
        (peer :: peers).filterMap textId := by
      cases ht : textId peer <;> simp [ht]
    rcases Path.of_bind h with ⟨p1,h1,_⟩ | ⟨tr1,tr2,a,rfl,h1,h2⟩
    · exact (exchange_greets h1).mono (hsub ▸ List.sublist_append_left _ _)
    · exact hsub ▸ (exchange_greets h1).append (ih h2)

theorem gossips_greet {rows : List NodeRow} {picks : List Nat} {tr : List (Exchange Req Ans)}
    {p : NodeProg Unit} (h : Path (gossips self rows picks) tr p) :
    Greets self ((picks.filterMap (fun i => (online self rows)[i]?)).filterMap textId) tr := by
  rcases h.of_rescue with ⟨p1,h1,_⟩ | ⟨tr1,tr2,e,rfl,h1,h2⟩
  · exact exchanges_greet _ h1
  · obtain ⟨rfl,_⟩ := h2.of_ret
    rw [List.append_nil]
    exact exchanges_greet _ h1

/-- Before the peers are drawn only PINGs are sent. -/
def Pings (self : Node L) : Req → Prop
  | .wsSend _ frame => ∃ k, Running.IsPing self k frame
  | _ => True

theorem pingOver_pings (k : SqlText) (conn : PeerConnection) :
    Obeys (Pings self) (fun _ _ => True) (fun _ => True) (GossipEngine.pingOver self k conn) := by
  refine ⟨trivial,fun st _ => ?_⟩
  rcases GossipEngine.trySend_cases self conn (makePing st (.str self.id) k.toVal) with
    ⟨_,_,ht⟩ | ⟨signed,frame,hw,ht⟩
  · simp only [Prog.bind_ret,ht]
    exact ⟨trivial,fun _ _ => trivial⟩
  · simp only [Prog.bind_ret,ht]
    refine ⟨⟨k,st,signed,hw⟩,fun sent _ => ?_⟩
    cases sent <;> exact ⟨trivial,fun _ _ => trivial⟩

theorem pingNode_pings (entry : NodeRow) :
    Obeys (Pings self) (fun _ _ => True) (fun _ => True) (GossipEngine.pingNode self entry) := by
  rw [GossipEngine.pingNode_eq]
  cases entry.nodeId with
  | blob b => exact ⟨trivial,fun _ _ => trivial⟩
  | text nodeId =>
    refine ⟨trivial,fun found _ => ?_⟩
    cases found with
    | some conn => exact pingOver_pings (.text nodeId) conn
    | none =>
      refine ⟨trivial,fun dialled _ => ?_⟩
      cases dialled with
      | error e => exact ⟨trivial,fun _ _ => trivial⟩
      | ok conn =>
        exact ⟨trivial,fun _ _ => ⟨trivial,fun _ _ => pingOver_pings (.text nodeId) conn⟩⟩

/-- What the sampling returns: as many positions as were asked for, no two the same. -/
def Drawn (population k : Nat) (picks : List Nat) : Prop :=
  picks.length = k ∧ picks.Nodup ∧ ∀ i ∈ picks, i < population

theorem visits_returned {rows : List NodeRow} {tr : List (Exchange Req Ans)} {picks : List Nat}
    (h : Path (visits self rows) tr (.ret picks)) :
    (⟨.sample (online self rows).length (min gossipFanout (online self rows).length),picks⟩ :
      Exchange Req Ans) ∈ tr := by
  rcases Path.of_bind h with ⟨p1,_,hp⟩ | ⟨tr1,tr2,a,rfl,_,h2⟩
  · cases p1 <;> cases hp
  · cases h2 with
    | step _ _ _ h2 => cases h2 with
      | step _ _ _ h2 => cases h2 with
        | step _ _ picks' h2 =>
          obtain ⟨rfl,he⟩ := h2.of_ret
          cases he
          simp

theorem visits_pings (rows : List NodeRow) :
    Obeys (Pings self) (fun _ _ => True) (fun _ => True) (visits self rows) :=
  (Obeys.forEach (fun r _ => pingNode_pings r)).bind (fun _ _ =>
    ⟨trivial,fun _ _ => ⟨trivial,fun _ _ => ⟨trivial,fun _ _ => trivial⟩⟩⟩)

theorem nodup_picked {α κ : Type} {xs : List α} {f : α → κ} (hx : (xs.map f).Nodup)
    {picks : List Nat} (hp : picks.Nodup) :
    ((picks.filterMap (fun i => xs[i]?)).map f).Nodup := by
  rw [List.map_filterMap]
  refine hp.filterMap (fun i j k hi hj => ?_)
  rw [Option.mem_def,← List.getElem?_map] at hi hj
  have hlt := (List.getElem?_eq_some_iff.mp hi).1
  exact (List.getElem?_inj hlt hx).mp (hi.trans hj.symm)

theorem nodup_textIds {rows : List NodeRow} (h : (rows.map NodeRow.nodeId).Nodup) :
    (rows.filterMap textId).Nodup := by
  have hkey : rows.filterMap textId = (rows.map NodeRow.nodeId).filterMap (fun k =>
      match k with
      | .text nodeId => some nodeId
      | .blob _ => none) := by
    rw [List.filterMap_map]
    rfl
  rw [hkey]
  refine h.filterMap (fun k k' nodeId hk hk' => ?_)
  cases k <;> cases k' <;> simp_all

/-- Those that the drawn positions stand for. -/
theorem textIds_picked {rows : List NodeRow} (h : (rows.map NodeRow.nodeId).Nodup)
    {picks : List Nat}
    (hp : Drawn (online self rows).length (min gossipFanout (online self rows).length) picks) :
    (((picks.filterMap (fun i => (online self rows)[i]?)).filterMap textId).Nodup ∧
      ((picks.filterMap (fun i => (online self rows)[i]?)).filterMap textId).length ≤ gossipFanout) ∧
      ∀ nodeId ∈ (picks.filterMap (fun i => (online self rows)[i]?)).filterMap textId,
        nodeId ≠ self.id ∧ ∃ r ∈ rows, r.nodeId = .text nodeId ∧ r.status = "online" := by
  obtain ⟨hlen,hnodup,_⟩ := hp
  have hkeys : ((online self rows).map NodeRow.nodeId).Nodup :=
    h.sublist (List.filter_sublist.map _)
  refine ⟨⟨nodup_textIds (nodup_picked hkeys hnodup),?_⟩,fun nodeId hid => ?_⟩
  · have h1 := List.length_filterMap_le textId
      (picks.filterMap (fun i => (online self rows)[i]?))
    have h2 := List.length_filterMap_le (fun i => (online self rows)[i]?) picks
    omega
  · obtain ⟨r,hr,hid⟩ := List.mem_filterMap.mp hid
    obtain ⟨i,_,hi⟩ := List.mem_filterMap.mp hr
    obtain ⟨hmem,hon⟩ := List.mem_filter.mp (List.mem_of_getElem? hi)
    obtain ⟨hon,hne⟩ := of_decide_eq_true hon
    have hk : r.nodeId = .text nodeId := by
      unfold textId at hid
      split at hid
      · rename_i hr
        rw [hr,Option.some.inj hid]
      · cases hid
    exact ⟨fun he => hne (by rw [hk,he]),r,hmem,hk,hon⟩

/-- A turn of the loop first sends PINGs only. Then it sends what it knows to three
nodes at most, no two the same, that were online when it read them: one GOSSIP each,
over the connection that is registered for the node, with the table as it has just
been read again. It dials nobody for this. -/
theorem turn_gossips_to_few [DecidableEq ι] {w : NodeState} {P : Pool ι Req Ans Err Unit NodeState}
    (hP : Pool.Steps (Running.rules self) (Running.initial w) P) (i : ι)
    (hl : P.launched i = GossipEngine.turn self)
    (hdrawn : ∀ population k picks,
      (⟨.sample population k,picks⟩ : Exchange Req Ans) ∈ P.history i → Drawn population k picks) :
    ∃ before after, P.history i = before ++ after ∧ (∀ e ∈ before, Pings self e.1) ∧
      ∃ ids, ids.Nodup ∧ ids.length ≤ gossipFanout ∧ Greets self ids after ∧
        ∀ nodeId ∈ ids, nodeId ≠ self.id ∧ ∃ rows r,
          (P.history i).head? = some ⟨.store .getAllNodes,rows⟩ ∧ r ∈ rows ∧
            r.nodeId = .text nodeId ∧ r.status = "online" := by
  have hpath := Pool.OnPath.steps (P := Running.initial w) (fun _ => .here _) hP i
  rw [hl] at hpath
  rcases turn_path hpath with hnil | ⟨rows,rest,hh,hrest⟩
  · exact ⟨[],[],hnil,by simp,[],List.nodup_nil,Nat.zero_le _,.nil _,by simp⟩
  have hread : (⟨.store .getAllNodes,rows⟩ : Exchange Req Ans) ∈ P.history i := by
    rw [hh]
    exact List.mem_cons_self
  have hrows := nodup_read hP hread
  have hpings : ∀ {tr p}, Path (visits self rows) tr p →
      ∀ e ∈ (⟨.store .getAllNodes,rows⟩ : Exchange Req Ans) :: tr, Pings self e.1 := by
    intro tr p h e he
    rcases List.mem_cons.mp he with rfl | he
    · trivial
    · exact ((visits_pings rows).path h (fun _ _ => trivial)).1 e he
  rcases Path.of_bind hrest with ⟨p1,h1,_⟩ | ⟨tr1,tr2,picks,rfl,h1,h2⟩
  · exact ⟨P.history i,[],by simp,by rw [hh]; exact hpings h1,[],List.nodup_nil,Nat.zero_le _,
      .nil _,by simp⟩
  · have hpicks := hdrawn _ _ picks
      (by rw [hh]; exact List.mem_cons_of_mem _ (List.mem_append_left _ (visits_returned h1)))
    obtain ⟨⟨hnodup,hfew⟩,hids⟩ := textIds_picked hrows hpicks
    refine ⟨⟨.store .getAllNodes,rows⟩ :: tr1,tr2,by rw [hh]; rfl,hpings h1,_,hnodup,hfew,
      gossips_greet h2,fun nodeId hid => ?_⟩
    obtain ⟨hne,r,hr,hk,hon⟩ := hids nodeId hid
    exact ⟨hne,rows,r,by rw [hh]; rfl,hr,hk,hon⟩

instance (population k : Nat) (picks : List Nat) : Decidable (Drawn population k picks) :=
  inferInstanceAs (Decidable (_ ∧ _ ∧ _))

def drawnWell : Exchange Req Ans → Bool
  | ⟨.sample population k,picks⟩ => decide (Drawn population k picks)
  | _ => true

/-- A node that knows the node "n" and is connected to it. -/
def sampleMet : NodeState :=
  ⟨Storage.empty.upsertNode NodeHistory.sampleRow,ConnectionRegistry.empty.add ⟨0,"n",[],.none,"1"⟩⟩

theorem turn_pings_each_sample : ∃ P : Pool Unit Req Ans Err Unit NodeState,
    (P.history ()).flatMap pingMark = [.text "n"] ∧ ∃ rows,
      (P.history ()).head? = some ⟨.store .getAllNodes,rows⟩ ∧
        Visited (sampleNode false) rows (P.history ()) ∧
        ((P.tasks ()).Done →
          (P.history ()).flatMap pingMark = (others (sampleNode false) rows).map NodeRow.nodeId) := by
  obtain ⟨P,hP,hl,_,hh,_⟩ :=
    Running.exists_ran (sampleNode false) Running.sampleEnv .turn sampleMet
  have hne : P.history () ≠ [] := by
    rw [hh]
    decide +kernel
  refine ⟨P,?_,(turn_pings_each hP () hl).resolve_left hne⟩
  rw [hh]
  decide +kernel

theorem turn_gossips_to_few_sample : ∃ P : Pool Unit Req Ans Err Unit NodeState,
    ((P.history ()).flatMap sendMark).length = 2 ∧ ∃ before after,
      P.history () = before ++ after ∧ (∀ e ∈ before, Pings (sampleNode false) e.1) ∧
      ∃ ids, ids.Nodup ∧ ids.length ≤ gossipFanout ∧ Greets (sampleNode false) ids after := by
  obtain ⟨P,hP,hl,_,hh,_⟩ :=
    Running.exists_ran (sampleNode false) Running.sampleEnv .turn sampleMet
  have hall : (P.history ()).all drawnWell = true := by
    rw [hh]
    decide +kernel
  have hdrawn : ∀ population k picks,
      (⟨.sample population k,picks⟩ : Exchange Req Ans) ∈ P.history () →
      Drawn population k picks :=
    fun population k picks h => by
      have hw := List.all_eq_true.mp hall _ h
      simpa only [drawnWell,decide_eq_true_eq] using hw
  obtain ⟨before,after,hsplit,hpings,ids,hnodup,hfew,hgreets,_⟩ :=
    turn_gossips_to_few hP () hl hdrawn
  refine ⟨P,?_,before,after,hsplit,hpings,ids,hnodup,hfew,hgreets⟩
  rw [hh]
  decide +kernel

end Rounds

end Nevod
