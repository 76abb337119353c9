import Nevod.Acquaintance
import Nevod.Merge

/-!
A network in which nodes list their tables to each other and merge what they are
listed. The packets may arrive late, in any order, more than once or not at all.
-/

set_option autoImplicit false

namespace Nevod
open Text Resume Keyed

variable {L : Lib} {ι : Type}

structure GossipNet (ι : Type) (L : Lib) where
  node : ι → Node L
  env : ι → Env

/-- The nodes, and all frames sent so far. -/
structure Gossiping (ι : Type) where
  world : ι → World
  sent : List Bytes

/-- A node lists its table to a peer, or handles one of the frames sent so far. -/
inductive GossipEvent (ι : Type) where
  | exchange (i : ι) (peer : NodeRow)
  | deliver (j : ι) (n : Nat)

def Gossiping.rows (x : Gossiping ι) (i : ι) : List NodeRow :=
  (x.world i).state.storage.nodeTable.rows

def Gossiping.Knows (x : Gossiping ι) (i : ι) (nodeId : SqlText) : Prop :=
  ∃ r ∈ x.rows i, r.nodeId = nodeId

/-- The frames put on sockets. -/
def framesOf (tr : List (Exchange Req Ans)) : List Bytes :=
  tr.filterMap (fun e => match e.1 with
    | .wsSend _ frame => some frame
    | _ => none)

theorem run_trySend (env : Env) (self : Node L) (conn : PeerConnection) (pkt : Packet)
    (w : World) :
    (run env.handler (GossipEngine.trySend self conn pkt) w).final.state = w.state ∧
      ∀ frame ∈ framesOf (run env.handler (GossipEngine.trySend self conn pkt) w).trace,
        ∃ signed, Transport.wireForm self pkt = .ok (signed,frame) := by
  rcases GossipEngine.trySend_cases self conn pkt with ⟨e,_,ht⟩ | ⟨signed,frame,hw,ht⟩
  · rw [ht]
    exact ⟨rfl,fun _ h => absurd h List.not_mem_nil⟩
  · rw [ht,run_ask]
    simp only [Env.handler,World.next]
    cases env.wsSend w.step conn frame <;> simp [framesOf,hw]

theorem run_exchange (env : Env) (self : Node L) (peer : NodeRow) (w : World) :
    (run env.handler (GossipEngine.exchange self peer) w).final.state = w.state ∧
      ∀ frame ∈ framesOf (run env.handler (GossipEngine.exchange self peer) w).trace,
        Network.IsGossip self w.state.storage.nodeTable.rows frame := by
  rw [GossipEngine.exchange_eq]
  cases peer.nodeId with
  | blob b => exact ⟨rfl,fun _ h => absurd h List.not_mem_nil⟩
  | text nodeId =>
    simp only [run_ask,Env.handler,World.next]
    cases w.state.connections.get nodeId with
    | none => exact ⟨rfl,by simp [framesOf]⟩
    | some conn =>
      simp only [run_ask,Env.handler,Storage.exec,World.next]
      cases hg : makeGossip L (env.stamp (w.step+1+1)) (.str self.id)
          (w.state.storage.nodeTable.rows.map NodeRow.toDict) with
      | error e => exact ⟨rfl,by simp [framesOf]⟩
      | ok pkt =>
        obtain ⟨hstate,hframes⟩ := run_trySend env self conn pkt ⟨w.state,w.step+1+1+1⟩
        obtain ⟨htrace,hfinal⟩ := run_map (h := env.handler)
          (GossipEngine.trySend self conn pkt) (fun _ => ()) ⟨w.state,w.step+1+1+1⟩
        refine ⟨(congrArg World.state hfinal).trans hstate,fun frame hf => ?_⟩
        have hf' : frame ∈ framesOf (run env.handler (GossipEngine.trySend self conn pkt)
            ⟨w.state,w.step+1+1+1⟩).trace := by
          rw [← htrace]
          simpa [framesOf] using hf
        obtain ⟨signed,hw⟩ := hframes frame hf'
        exact ⟨_,pkt,signed,hg,hw⟩

/-- A frame that lists rows is a well-formed packet. -/
theorem lists_isGossip (hp : L.PackLaws) {self : Node L} {rows : List NodeRow} {frame : Bytes}
    (h : Network.IsGossip self rows frame)
    (hrows : ∀ r ∈ rows, Network.Named r) :
    ∃ pkt, unpack L frame = .ok pkt ∧ Lists L pkt (rows.map NodeRow.offer) := by
  obtain ⟨pkt,hu,_,hnodes⟩ := h.listed hp
  exact ⟨pkt,hu,_,hnodes,describes_rows hrows⟩

section Network

variable [DecidableEq ι] (N : GossipNet ι L)

namespace GossipNet

def step (x : Gossiping ι) : GossipEvent ι → Gossiping ι
  | .exchange i peer =>
    let r := run (N.env i).handler (GossipEngine.exchange (N.node i) peer) (x.world i)
    ⟨Function.update x.world i r.final,x.sent ++ framesOf r.trace⟩
  | .deliver j n =>
    match x.sent[n]? with
    | none => x
    | some frame =>
      match unpack L frame with
      | .error _ => x
      | .ok pkt =>
        let r := run (N.env j).handler (GossipEngine.handleGossip L pkt) (x.world j)
        { x with world := Function.update x.world j r.final }

def after (x : Gossiping ι) (events : List (GossipEvent ι)) : Gossiping ι := events.foldl N.step x

/-- Among the events there is a chain of delivered packets from `i` to `k`: each
node sends after it has handled the packet of the one before. -/
inductive Chain : Gossiping ι → List (GossipEvent ι) → ι → ι → Prop where
  | stay (x : Gossiping ι) (events : List (GossipEvent ι)) (i : ι) : Chain x events i i
  | wait {x : Gossiping ι} (e : GossipEvent ι) {events : List (GossipEvent ι)} {i k : ι} :
    Chain (N.step x e) events i k → Chain x (e :: events) i k
  | hop {x : Gossiping ι} {i j k : ι} (peer : NodeRow) (before : List (GossipEvent ι)) {n : Nat}
    {events : List (GossipEvent ι)} (hn : x.sent.length ≤ n)
    (hn' : n < (N.step x (.exchange i peer)).sent.length) :
    Chain (N.after x (.exchange i peer :: before ++ [.deliver j n])) events j k →
    Chain x (.exchange i peer :: before ++ .deliver j n :: events) i k

section Tables

variable {N}

theorem run_deliver (hp : L.PackLaws) (env : Env) {self : Node L} {rows : List NodeRow}
    {frame : Bytes} (h : Network.IsGossip self rows frame) (hrows : ∀ r ∈ rows, Network.Named r) :
    ∃ pkt, unpack L frame = .ok pkt ∧ ∀ w, ∃ learnt : List NodeRow,
      (run env.handler (GossipEngine.handleGossip L pkt) w).final.state.storage.nodeTable =
        learnt.foldl Table.insertIgnore w.state.storage.nodeTable ∧
      learnt.map NodeRow.untimed = rows.map (fun r => r.offer.row 0 0) := by
  obtain ⟨pkt,hu,hl⟩ := lists_isGossip hp h hrows
  refine ⟨pkt,hu,fun w => ?_⟩
  obtain ⟨step,learnt,hlearnt,_,hfin⟩ := run_handleGossip env hl w
  refine ⟨learnt,?_,by rw [hlearnt,List.map_map]; rfl⟩
  rw [hfin,foldl_enter]

theorem rows_exchange (x : Gossiping ι) (i : ι) (peer : NodeRow) (j : ι) :
    (N.step x (.exchange i peer)).rows j = x.rows j := by
  by_cases hj : j = i
  · subst hj
    simp only [Gossiping.rows,step,Function.update_self,(run_exchange _ _ _ _).1]
  · simp only [Gossiping.rows,step,Function.update_of_ne hj]

/-- What a frame in flight is known to be, and that the tables hold nothing else. -/
structure Spread (N : GossipNet ι L) (ids : SqlText → Prop) (x : Gossiping ι) : Prop where
  table : ∀ i, ∀ r ∈ x.rows i, Network.Named r ∧ ids r.nodeId
  sent : ∀ frame ∈ x.sent, ∃ m rows, Network.IsGossip (N.node m) rows frame ∧
    ∀ r ∈ rows, Network.Named r ∧ ids r.nodeId

theorem step_deliver (hp : L.PackLaws) {x : Gossiping ι} {n : Nat} {frame : Bytes}
    (hn : x.sent[n]? = some frame) {self : Node L} {rows : List NodeRow}
    (h : Network.IsGossip self rows frame) (hrows : ∀ r ∈ rows, Network.Named r) (j : ι) :
    (N.step x (.deliver j n)).sent = x.sent ∧
      (∀ i, i ≠ j → (N.step x (.deliver j n)).rows i = x.rows i) ∧
      ∃ learnt : List NodeRow,
        (N.step x (.deliver j n)).rows j =
          (learnt.foldl Table.insertIgnore (x.world j).state.storage.nodeTable).rows ∧
        learnt.map NodeRow.untimed = rows.map (fun r => r.offer.row 0 0) := by
  obtain ⟨pkt,hu,hrun⟩ := run_deliver hp (N.env j) h hrows
  obtain ⟨learnt,htable,hlearnt⟩ := hrun (x.world j)
  simp only [step,hn,hu]
  refine ⟨trivial,fun i hi => ?_,learnt,?_,hlearnt⟩
  · simp only [Gossiping.rows,Function.update_of_ne hi]
  · simp only [Gossiping.rows,Function.update_self,htable]

theorem exists_listed {learnt rows : List NodeRow}
    (h : learnt.map NodeRow.untimed = rows.map (fun r => r.offer.row 0 0)) {r : NodeRow}
    (hr : r ∈ learnt) : ∃ s ∈ rows, s.nodeId = r.nodeId ∧ s.address = r.address := by
  have hm : r.untimed ∈ rows.map (fun r => r.offer.row 0 0) := h ▸ List.mem_map_of_mem hr
  obtain ⟨s,hs,he⟩ := List.mem_map.mp hm
  have hid := congrArg NodeRow.nodeId he
  have haddr := congrArg NodeRow.address he
  exact ⟨s,hs,hid,haddr⟩

theorem exists_learnt {learnt rows : List NodeRow}
    (h : learnt.map NodeRow.untimed = rows.map (fun r => r.offer.row 0 0)) {s : NodeRow}
    (hs : s ∈ rows) : ∃ r ∈ learnt, r.nodeId = s.nodeId := by
  have hm : s.offer.row 0 0 ∈ learnt.map NodeRow.untimed :=
    h ▸ List.mem_map_of_mem (f := fun r : NodeRow => r.offer.row 0 0) hs
  obtain ⟨r,hr,he⟩ := List.mem_map.mp hm
  have hid := congrArg NodeRow.nodeId he
  exact ⟨r,hr,hid⟩

variable {ids : SqlText → Prop} {x : Gossiping ι}

theorem Spread.step (hp : L.PackLaws) (h : Spread N ids x) (e : GossipEvent ι) :
    Spread N ids (N.step x e) ∧ ∀ i, ∀ r ∈ x.rows i, r ∈ (N.step x e).rows i := by
  cases e with
  | exchange i peer =>
    refine ⟨⟨fun j r hr => ?_,fun frame hf => ?_⟩,fun j r hr => ?_⟩
    · rw [rows_exchange] at hr
      exact h.table j r hr
    · rcases List.mem_append.mp hf with hf | hf
      · exact h.sent frame hf
      · exact ⟨i,x.rows i,(run_exchange _ _ _ _).2 frame hf,h.table i⟩
    · rwa [rows_exchange]
  | deliver j n =>
    cases hn : x.sent[n]? with
    | none =>
      have hstep : N.step x (.deliver j n) = x := by simp only [GossipNet.step,hn]
      rw [hstep]
      exact ⟨h,fun i r hr => hr⟩
    | some frame =>
      obtain ⟨m,rows,hg,hrows⟩ := h.sent frame (List.mem_of_getElem? hn)
      obtain ⟨hsent,hother,learnt,hj,hlearnt⟩ :=
        step_deliver (N := N) hp hn hg (fun r hr => (hrows r hr).1) j
      refine ⟨⟨fun i r hr => ?_,fun frame hf => h.sent frame (hsent ▸ hf)⟩,fun i r hr => ?_⟩
      · by_cases hi : i = j
        · subst hi
          rw [hj] at hr
          rcases Table.mem_of_foldl_insertIgnore _ _ hr with hr | hr
          · exact h.table i r hr
          · obtain ⟨s,hs,hid,haddr⟩ := exists_listed hlearnt hr
            obtain ⟨⟨hnamed,haddressed⟩,hids⟩ := hrows s hs
            rw [hid] at hnamed hids
            rw [haddr] at haddressed
            exact ⟨⟨hnamed,haddressed⟩,hids⟩
        · rw [hother i hi] at hr
          exact h.table i r hr
      · by_cases hi : i = j
        · subst hi
          rw [hj]
          exact Table.mem_foldl_insertIgnore _ _ hr
        · rwa [hother i hi]

theorem Spread.after (hp : L.PackLaws) (h : Spread N ids x) (events : List (GossipEvent ι)) :
    Spread N ids (N.after x events) ∧ ∀ i, ∀ r ∈ x.rows i, r ∈ (N.after x events).rows i := by
  induction events generalizing x with
  | nil => exact ⟨h,fun i r hr => hr⟩
  | cons e events ih =>
    obtain ⟨hs,hkept⟩ := h.step hp e
    obtain ⟨hend,hkept'⟩ := ih hs
    exact ⟨hend,fun i r hr => hkept' i r (hkept i r hr)⟩

theorem after_append (x : Gossiping ι) (a b : List (GossipEvent ι)) :
    N.after x (a ++ b) = N.after (N.after x a) b := List.foldl_append

/-- Frames stay available. -/
theorem sent_prefix (x : Gossiping ι) (events : List (GossipEvent ι)) :
    x.sent <+: (N.after x events).sent := by
  induction events generalizing x with
  | nil => exact List.prefix_rfl
  | cons e events ih =>
    refine List.IsPrefix.trans ?_ (ih (N.step x e))
    cases e with
    | exchange i peer => exact List.prefix_append _ _
    | deliver j n =>
      simp only [GossipNet.step]
      split
      · exact List.prefix_rfl
      · split <;> exact List.prefix_rfl

/-- A delivered exchange passes on what its sender knew. -/
theorem Spread.hop (hp : L.PackLaws) (h : Spread N ids x) {i j : ι} {peer : NodeRow} {n : Nat}
    {before : List (GossipEvent ι)} (hn : x.sent.length ≤ n)
    (hn' : n < (N.step x (.exchange i peer)).sent.length) {id : SqlText} (hid : x.Knows i id) :
    (N.after x (.exchange i peer :: before ++ [.deliver j n])).Knows j id := by
  have hlt := List.getElem?_eq_getElem hn'
  generalize hframe : (N.step x (.exchange i peer)).sent[n] = frame at hlt
  have hframes : frame ∈ framesOf
      (run (N.env i).handler (GossipEngine.exchange (N.node i) peer) (x.world i)).trace := by
    simp only [GossipNet.step,List.getElem?_append_right hn] at hlt
    exact List.mem_of_getElem? hlt
  have hg := (run_exchange (N.env i) (N.node i) peer (x.world i)).2 frame hframes
  -- the frame stays among those that were sent until it is delivered
  obtain ⟨more,hmore⟩ := sent_prefix (N := N) (N.step x (.exchange i peer)) before
  have hsent : (N.after (N.step x (.exchange i peer)) before).sent[n]? = some frame := by
    rw [← hmore,List.getElem?_append_left hn',hlt]
  obtain ⟨_,_,learnt,hj,hlearnt⟩ := step_deliver hp hsent hg (fun r hr => (h.table i r hr).1) j
  obtain ⟨r,hr,hk⟩ := hid
  obtain ⟨s,hs,hsid⟩ := exists_learnt hlearnt hr
  obtain ⟨r',hr',hid'⟩ := Table.exists_of_foldl_insertIgnore
    ((N.after (N.step x (.exchange i peer)) before).world j).state.storage.nodeTable hs
  rw [after_append]
  exact ⟨r',hj ▸ hr',hid'.trans (hsid.trans hk)⟩

/-- A chain of delivered exchanges passes on what its first node knew. -/
theorem Spread.chain (hp : L.PackLaws) (h : Spread N ids x) {events : List (GossipEvent ι)}
    {i k : ι} (hc : N.Chain x events i k) {id : SqlText} (hid : x.Knows i id) :
    (N.after x events).Knows k id := by
  induction hc with
  | stay x events i =>
    obtain ⟨r,hr,hk⟩ := hid
    exact ⟨r,(h.after hp events).2 i r hr,hk⟩
  | @wait x e events i k _ ih =>
    obtain ⟨hs,hkept⟩ := h.step hp e
    obtain ⟨r,hr,hk⟩ := hid
    exact ih hs ⟨r,hkept i r hr,hk⟩
  | @hop x i j k peer before n events hn hn' _ ih =>
    have hmid := ih (h.after hp _).1 (h.hop hp hn hn' hid)
    rw [← after_append] at hmid
    simpa using hmid

end Tables

end GossipNet

/-- In every run every id is passed on along chains of delivered exchanges, no id
comes from nowhere, and no row that is there is ever changed. -/
theorem gossip_spreads (hp : L.PackLaws) {x : Gossiping ι} (hx : x.sent = [])
    (hnamed : ∀ i, ∀ r ∈ x.rows i, Network.Named r) (past events : List (GossipEvent ι)) :
    (∀ i k, N.Chain (N.after x past) events i k → ∀ id, (N.after x past).Knows i id →
      (N.after x (past ++ events)).Knows k id) ∧
    (∀ i id, (N.after x past).Knows i id → ∃ j, x.Knows j id) ∧
    (∀ i, ∀ r ∈ (N.after x past).rows i, r ∈ (N.after x (past ++ events)).rows i) := by
  have h0 : N.Spread (fun id => ∃ j, x.Knows j id) x :=
    ⟨fun i r hr => ⟨hnamed i r hr,i,r,hr,rfl⟩,by simp [hx]⟩
  have h := (h0.after hp past).1
  rw [GossipNet.after_append]
  refine ⟨fun i k hc id hid => h.chain hp hc hid,?_,(h.after hp events).2⟩
  rintro i id ⟨r,hr,rfl⟩
  exact (h.table i r hr).2

end Network

/-- Node `false` knows a node "x" and is connected to node `true`, who knows nobody. -/
def samplePeers : Gossiping Bool where
  world := fun i => if i then nobodyKnown else
    ⟨⟨Storage.empty.upsertNode (strangerAt "x" "a:1"),
      ConnectionRegistry.empty.add ⟨0,"y",[],.none,"n"⟩⟩,0⟩
  sent := []

def sampleNet : GossipNet Bool shortSigLib := ⟨fun _ => sampleNode false,fun _ => calmEnv⟩

theorem gossip_spreads_sample :
    (sampleNet.after samplePeers
      [.exchange false (strangerAt "y" "b:2"),.deliver true 0]).Knows true (.text "x") := by
  have hsent : 0 < (sampleNet.step samplePeers
      (.exchange false (strangerAt "y" "b:2"))).sent.length := by decide +kernel
  have hnamed : ∀ i, ∀ r ∈ samplePeers.rows i, Network.Named r := by
    intro i r hr
    cases i with
    | false =>
      have hrows : samplePeers.rows false = [strangerAt "x" "a:1"] := by decide +kernel
      rw [hrows,List.mem_singleton] at hr
      rw [hr]
      exact ⟨by decide,by decide⟩
    | true => exact absurd hr List.not_mem_nil
  have hchain : sampleNet.Chain samplePeers
      [.exchange false (strangerAt "y" "b:2"),.deliver true 0] false true :=
    .hop _ [] (by simp [samplePeers]) hsent (.stay _ [] true)
  exact (gossip_spreads sampleNet (sampleLib_packLaws digest32) rfl hnamed [] _).1 false true hchain
    (.text "x") ⟨strangerAt "x" "a:1",by decide +kernel,rfl⟩

end Nevod
