import Nevod.Lib.Replicas
import Nevod.Spreading

/-!
The node tables as replicas: what the nodes list to each other and learn is a run of
the abstract network, so that tables that agree at first become the same.
-/

set_option autoImplicit false

namespace Nevod
open Text Resume Keyed FirstWins

variable {L : Lib} {ι : Type}

/-- What a table would say about a node, if it were listed. -/
def listing (rows : List NodeRow) : SqlText → Option Offer :=
  fun k => (rows.find? (fun r => r.nodeId = k)).map NodeRow.offer

def Gossiping.listing (x : Gossiping ι) (i : ι) : SqlText → Option Offer := Nevod.listing (x.rows i)

theorem listing_eq_some {x : Gossiping ι} {i : ι} {k : SqlText} {o : Offer} :
    x.listing i k = some o ↔ ∃ r ∈ x.rows i, r.nodeId = k ∧ r.offer = o := by
  have hf := fun r => (x.world i).state.storage.nodeTable.find_eq_some (k := k) (r := r)
  simp only [Gossiping.listing,Nevod.listing,Option.map_eq_some_iff]
  constructor
  · rintro ⟨r,hr,ho⟩
    obtain ⟨hmem,hk⟩ := (hf r).mp hr
    exact ⟨r,hmem,hk,ho⟩
  · rintro ⟨r,hmem,hk,ho⟩
    exact ⟨r,(hf r).mpr ⟨hmem,hk⟩,ho⟩

theorem listing_nodes (w : World) :
    listing w.state.storage.nodeTable.rows = fun k => (w.nodes k).map NodeRow.offer := by
  funext k
  simp only [listing,World.nodes,Option.map_map]
  rfl

theorem listing_offered (rows : List NodeRow) :
    listing rows = fun k => (offered (rows.map NodeRow.offer) k).map NodeRow.offer := by
  funext k
  simp only [listing,offered,List.find?_map,Option.map_map]
  rfl

/-- A packet is merged into what the table lists. -/
theorem listing_handleGossip (env : Env) {pkt : Packet} {rows : List NodeRow}
    (h : Lists L pkt (rows.map NodeRow.offer)) (w : World) :
    listing (run env.handler (GossipEngine.handleGossip L pkt) w).final.state.storage.nodeTable.rows =
      merge (listing w.state.storage.nodeTable.rows) (listing rows) := by
  rw [listing_nodes,listing_nodes,listing_offered,nodes_handleGossip env h w]
  funext k
  exact Option.map_or

variable [DecidableEq ι] {N : GossipNet ι L}

namespace GossipNet

/-- What an event is to the replicas. -/
def replicaEvent (N : GossipNet ι L) (x : Gossiping ι) : GossipEvent ι → ReplicaEvent ι
  | .exchange i peer => .share i (framesOf (run (N.env i).handler
      (GossipEngine.exchange (N.node i) peer) (x.world i)).trace).length
  | .deliver j n => .deliver j n

def replicaEvents (N : GossipNet ι L) : Gossiping ι → List (GossipEvent ι) → List (ReplicaEvent ι)
  | _, [] => []
  | x, e :: events => N.replicaEvent x e :: N.replicaEvents (N.step x e) events

theorem replicaEvents_append (x : Gossiping ι) (a b : List (GossipEvent ι)) :
    N.replicaEvents x (a ++ b) = N.replicaEvents x a ++ N.replicaEvents (N.after x a) b := by
  induction a generalizing x with
  | nil => rfl
  | cons e a ih => exact congrArg (N.replicaEvent x e :: ·) (ih (N.step x e))

/-- The frame lists rows to which the message corresponds. -/
def Carries (N : GossipNet ι L) (frame : Bytes) (m : SqlText → Option Offer) : Prop :=
  ∃ i rows, Network.IsGossip (N.node i) rows frame ∧ (∀ r ∈ rows, Network.Named r) ∧
    m = listing rows

/-- The tables hold what the replicas hold, and the frames what the messages do. -/
structure Refines (N : GossipNet ι L) (x : Gossiping ι) (s : Replicas ι SqlText Offer) : Prop where
  table : ∀ i, x.listing i = s.replica i
  sent : List.Forall₂ N.Carries x.sent s.sent
  named : ∀ i, ∀ r ∈ x.rows i, Network.Named r

variable {x : Gossiping ι} {s : Replicas ι SqlText Offer}

theorem forall₂_getElem? {α β : Type} {R : α → β → Prop} {as : List α} {bs : List β}
    (h : List.Forall₂ R as bs) {n : Nat} {a : α} (hn : as[n]? = some a) :
    ∃ b, bs[n]? = some b ∧ R a b := by
  induction h generalizing n with
  | nil => simp at hn
  | @cons a' b' as bs hr _ ih =>
    cases n with
    | zero =>
      simp only [List.getElem?_cons_zero,Option.some.injEq] at hn
      exact ⟨b',rfl,hn ▸ hr⟩
    | succ n => exact ih hn

theorem forall₂_replicate {α β : Type} {R : α → β → Prop} {as : List α} {b : β}
    (h : ∀ a ∈ as, R a b) : List.Forall₂ R as (List.replicate as.length b) := by
  induction as with
  | nil => exact .nil
  | cons a as ih => exact .cons (h a (by simp)) (ih (fun a' ha' => h a' (by simp [ha'])))

omit [DecidableEq ι] in
theorem Refines.spread (h : N.Refines x s) : Spread N (fun _ => True) x := by
  refine ⟨fun i r hr => ⟨h.named i r hr,trivial⟩,fun frame hf => ?_⟩
  obtain ⟨n,hn⟩ := List.mem_iff_getElem?.mp hf
  obtain ⟨_,_,i,rows,hg,hrows,_⟩ := forall₂_getElem? h.sent hn
  exact ⟨i,rows,hg,fun r hr => ⟨hrows r hr,trivial⟩⟩

theorem Refines.exchange (h : N.Refines x s) (i : ι) (peer : NodeRow) :
    N.Refines (N.step x (.exchange i peer)) (s.step (N.replicaEvent x (.exchange i peer))) := by
  refine ⟨fun j => ?_,?_,fun j r hr => h.named j r (by rwa [rows_exchange] at hr)⟩
  · rw [Gossiping.listing,rows_exchange]
    exact h.table j
  · refine List.rel_append h.sent (forall₂_replicate (fun frame hf => ?_))
    exact ⟨i,x.rows i,(run_exchange (N.env i) (N.node i) peer (x.world i)).2 frame hf,h.named i,
      (h.table i).symm⟩

theorem Refines.deliver (hp : L.PackLaws) (h : N.Refines x s) (j : ι) (n : Nat) :
    N.Refines (N.step x (.deliver j n)) (s.step (.deliver j n)) := by
  cases hn : x.sent[n]? with
  | none =>
    have hx : N.step x (.deliver j n) = x := by simp only [GossipNet.step,hn]
    have hs : s.sent[n]? = none := by
      rw [List.getElem?_eq_none_iff] at hn ⊢
      rwa [← h.sent.length_eq]
    have hs' : s.step (.deliver j n) = s := by simp only [Replicas.step,hs]
    rwa [hx,hs']
  | some frame =>
    obtain ⟨m,hm,i,rows,hg,hrows,rfl⟩ := forall₂_getElem? h.sent hn
    have hnamed := (h.spread.step hp (.deliver j n)).1.table
    obtain ⟨pkt,hu,hl⟩ := lists_isGossip hp hg hrows
    have hx : N.step x (.deliver j n) = ⟨Function.update x.world j
        (run (N.env j).handler (GossipEngine.handleGossip L pkt) (x.world j)).final,x.sent⟩ := by
      simp only [GossipNet.step,hn,hu]
    rw [Replicas.step_deliver hm]
    refine ⟨fun k => ?_,by rw [hx]; exact h.sent,fun k r hr => (hnamed k r hr).1⟩
    rw [hx]
    simp only [Gossiping.listing,Gossiping.rows]
    by_cases hk : k = j
    · subst hk
      simp only [Function.update_self]
      rw [listing_handleGossip (N.env k) hl (x.world k),← h.table k]
      rfl
    · simp only [Function.update_of_ne hk]
      exact h.table k

/-- A step of the nodes is one of the replicas. -/
theorem Refines.step (hp : L.PackLaws) (h : N.Refines x s) (e : GossipEvent ι) :
    N.Refines (N.step x e) (s.step (N.replicaEvent x e)) := by
  cases e with
  | exchange i peer => exact h.exchange i peer
  | deliver j n => exact h.deliver hp j n

theorem Refines.after (hp : L.PackLaws) (h : N.Refines x s) (events : List (GossipEvent ι)) :
    N.Refines (N.after x events) (s.after (N.replicaEvents x events)) := by
  induction events generalizing x s with
  | nil => exact h
  | cons e events ih => exact ih (h.step hp e)

/-- A chain of delivered packets is one of received messages. -/
theorem Refines.chain (hp : L.PackLaws) (h : N.Refines x s) {events : List (GossipEvent ι)}
    {i k : ι} (hc : N.Chain x events i k) : s.Chain (N.replicaEvents x events) i k := by
  induction hc generalizing s with
  | stay x events i => exact .stay _ _ i
  | wait e _ ih => exact .wait _ (ih (h.step hp e))
  | @hop x i j k peer before n events hn hn' _ ih =>
    have hsplit : N.replicaEvents x (.exchange i peer :: before ++ .deliver j n :: events) =
        N.replicaEvent x (.exchange i peer) ::
          N.replicaEvents (N.step x (.exchange i peer)) before ++
          .deliver j n :: N.replicaEvents (N.after x (.exchange i peer :: before ++ [.deliver j n]))
            events := by
      rw [replicaEvents_append,after_append]
      rfl
    have hmid : N.replicaEvents x (.exchange i peer :: before ++ [.deliver j n]) =
        N.replicaEvent x (.exchange i peer) ::
          N.replicaEvents (N.step x (.exchange i peer)) before ++ [.deliver j n] := by
      rw [replicaEvents_append]
      rfl
    have hrest := ih (h.after hp (.exchange i peer :: before ++ [.deliver j n]))
    rw [hmid] at hrest
    rw [hsplit]
    refine Replicas.Chain.hop _ _ ?_ ?_ hrest
    · rwa [← h.sent.length_eq]
    · have hlen := (h.exchange i peer).sent.length_eq
      exact lt_of_lt_of_eq hn' hlen

omit [DecidableEq ι] in
theorem refines_initial (hx : x.sent = []) (hnamed : ∀ i, ∀ r ∈ x.rows i, Network.Named r) :
    N.Refines x ⟨x.listing,[]⟩ :=
  ⟨fun _ => rfl,by rw [hx]; exact .nil,hnamed⟩

end GossipNet

/-- Nodes whose tables do not contradict each other list the same in the end, once
every table has been passed on to every node: all that any of them knew at first, and
nothing else. Which packets were lost, doubled, late or in another order does not
matter. -/
theorem tables_converge (hp : L.PackLaws) {x : Gossiping ι} (hx : x.sent = [])
    (hnamed : ∀ i, ∀ r ∈ x.rows i, Network.Named r)
    (hagree : ∀ i j, ∀ r ∈ x.rows i, ∀ r' ∈ x.rows j, r.nodeId = r'.nodeId → r.offer = r'.offer)
    {events : List (GossipEvent ι)} (hc : ∀ i j, N.Chain x events i j) (i : ι) (o : Offer) :
    (∃ r ∈ (N.after x events).rows i, r.offer = o) ↔ ∃ j, ∃ r ∈ x.rows j, r.offer = o := by
  have h0 := GossipNet.refines_initial (N := N) hx hnamed
  have hend := (h0.after hp events).table i
  have hconv := Replicas.converged (s := ⟨x.listing,[]⟩) rfl (fun j j' k v w hv hw => by
    obtain ⟨r,hr,rfl,rfl⟩ := listing_eq_some.mp hv
    obtain ⟨r',hr',hk,rfl⟩ := listing_eq_some.mp hw
    exact hagree j j' r hr r' hr' hk.symm) (fun j j' => h0.chain hp (hc j j')) i o.nodeId o
  rw [← hend] at hconv
  simp only [listing_eq_some] at hconv
  have hid : ∀ {r : NodeRow}, r.offer = o → r.nodeId = o.nodeId := fun h => h ▸ rfl
  constructor
  · rintro ⟨r,hr,ho⟩
    obtain ⟨j,r',hr',_,ho'⟩ := hconv.mp ⟨r,hr,hid ho,ho⟩
    exact ⟨j,r',hr',ho'⟩
  · rintro ⟨j,r,hr,ho⟩
    obtain ⟨r',hr',_,ho'⟩ := hconv.mpr ⟨j,r,hr,hid ho,ho⟩
    exact ⟨r',hr',ho'⟩

/-- Each node knows another one, and is connected to the other end. -/
def sampleTables : Gossiping Bool where
  world := fun i => ⟨⟨Storage.empty.upsertNode
    (if i then strangerAt "z" "c:3" else strangerAt "x" "a:1"),
    ConnectionRegistry.empty.add ⟨0,"y",[],.none,"n"⟩⟩,0⟩
  sent := []

theorem sampleTables_rows (i : Bool) :
    sampleTables.rows i = [if i then strangerAt "z" "c:3" else strangerAt "x" "a:1"] := by
  cases i <;> decide +kernel

/-- Each lists its table to the other. -/
def sampleEvents : List (GossipEvent Bool) :=
  [.exchange false (strangerAt "y" "b:2"),.deliver true 0,
    .exchange true (strangerAt "y" "b:2"),.deliver false 1]

theorem sampleTables_named : ∀ i, ∀ r ∈ sampleTables.rows i, Network.Named r := by
  intro i r hr
  rw [sampleTables_rows,List.mem_singleton] at hr
  rw [hr]
  cases i <;> exact ⟨by decide,by decide⟩

theorem tables_converge_sample : ∃ r ∈ (sampleNet.after sampleTables sampleEvents).rows false,
    r.offer = (strangerAt "z" "c:3").offer := by
  have hagree : ∀ i j, ∀ r ∈ sampleTables.rows i, ∀ r' ∈ sampleTables.rows j,
      r.nodeId = r'.nodeId → r.offer = r'.offer := by
    intro i j r hr r' hr' hk
    rw [sampleTables_rows,List.mem_singleton] at hr hr'
    subst hr hr'
    cases i <;> cases j <;> first | rfl | exact absurd hk (by decide)
  have hfirst : sampleNet.Chain sampleTables sampleEvents false true :=
    .hop _ [] (by simp [sampleTables]) (by decide +kernel) (.stay _ _ true)
  have hsecond : sampleNet.Chain sampleTables sampleEvents true false :=
    .wait _ (.wait _ (.hop _ [] (by decide +kernel) (by decide +kernel) (.stay _ [] false)))
  have hmem : strangerAt "z" "c:3" ∈ sampleTables.rows true := by
    rw [sampleTables_rows]
    exact List.mem_singleton_self _
  refine (tables_converge (N := sampleNet) (sampleLib_packLaws digest32) rfl sampleTables_named
    hagree (fun i j => ?_) false _).mpr ⟨true,_,hmem,rfl⟩
  cases i <;> cases j <;> first | exact .stay _ _ _ | exact hfirst | exact hsecond

end Nevod
