import Nevod.Flush
import Nevod.Registration

/-!
Flushes of one mailbox, interleaved at their requests. Every row carries a serial
number that tells one insertion under its id from the next; what is handed over is
written down with it.
-/

set_option autoImplicit false

namespace Nevod
open Text Resume Keyed

variable {L : Lib} {ι : Type}

/-- A successful transmission or a call of the callback. -/
def Gives : (q : Req) → Ans q → Prop
  | .wsSend _ _, .ok _ => True
  | .onMessage _, .ok _ => True
  | _, _ => False

section Conclusions

variable {self : Node L}

theorem sendTo_concludes (nodeId : String) (pkt : Packet) :
    (Transport.sendTo self nodeId pkt).Concludes Gives (fun r => r.1 = true) := by
  refine fun conn => ⟨fun h => h.elim,?_⟩
  cases conn with
  | none => trivial
  | some conn =>
    cases hw : Transport.wireForm self pkt with
    | error e => simp [Prog.Concludes]
    | ok x =>
      obtain ⟨signed,frame⟩ := x
      simp only [Prog.bind_ret,Prog.ofExcept_ok,Prog.bind_eq]
      intro sent
      rcases sent with e | ⟨⟨⟩⟩
      · refine ⟨fun h => h.elim,?_⟩
        cases e <;> first | trivial | exact fun _ => ⟨fun h => h.elim,trivial⟩
      · exact ⟨fun _ => ⟨(true,signed),rfl,rfl⟩,trivial⟩

theorem callback_concludes (r : Bool × Packet) :
    (Router.callback self r).Concludes Gives (fun _ => True) := by
  unfold Router.callback
  split
  · trivial
  · split
    · intro a
      cases a with
      | error e => exact ⟨fun h => h.elim,trivial⟩
      | ok u => exact ⟨fun _ => ⟨(),rfl,trivial⟩,trivial⟩
    · trivial

theorem deliverLocal_concludes (pkt : Packet) :
    (Router.deliverLocal self pkt).Concludes Gives (fun _ => True) := by
  rw [Router.deliverLocal_eq]
  split
  · trivial
  · exact callback_concludes _
  · split
    · exact callback_concludes _
    · refine (sendTo_concludes _ pkt).bind (fun r hr => ?_) callback_concludes
      exact ⟨(),by simp [Router.callback,hr],trivial⟩

theorem dialAndSend_concludes (nodeId : String) (address : Val) (pkt : Packet) :
    (Router.dialAndSend self nodeId address pkt).Concludes Gives (fun r => r.1 = true) := by
  rw [Router.dialAndSend_eq]
  refine fun dialled => ⟨fun h => h.elim,?_⟩
  cases dialled with
  | error e => trivial
  | ok conn =>
    refine fun _ => ⟨fun h => h.elim,fun _ => ⟨fun h => h.elim,?_⟩⟩
    rcases Router.transmit_cases self conn pkt with ⟨_,p,_,_,ht⟩ | ⟨signed,frame,_,_,ht⟩
    · rw [ht]
      trivial
    · rw [ht]
      intro sent
      cases sent with
      | error e => exact ⟨fun h => h.elim,trivial⟩
      | ok u => exact ⟨fun _ => ⟨(true,signed),rfl,rfl⟩,trivial⟩

theorem sendToNode_concludes (nodeId : String) (pkt : Packet) :
    (Router.sendToNode self nodeId pkt).Concludes Gives (fun r => r.1 = true) := by
  unfold Router.sendToNode
  by_cases hid : nodeId = self.id
  · rw [if_pos hid]
    exact (deliverLocal_concludes pkt).bind (fun _ _ => ⟨(true,pkt),rfl,rfl⟩) (fun _ => trivial)
  · rw [if_neg hid]
    refine (sendTo_concludes nodeId pkt).bind (fun r hr => ⟨(true,r.2),by simp [hr],rfl⟩) (fun r => ?_)
    obtain ⟨sent,pkt1⟩ := r
    cases sent with
    | true => trivial
    | false =>
      refine fun entry => ⟨fun h => h.elim,?_⟩
      cases entry with
      | none => trivial
      | some entry =>
        by_cases hst : entry.status ≠ "online"
        · simp only [Prog.bind_ret,if_pos hst]
          trivial
        · simp only [Prog.bind_ret,if_neg hst]
          exact dialAndSend_concludes nodeId _ pkt1

theorem bufferFor_concludes (cellId home : String) (pkt : Packet) :
    (Router.bufferFor L cellId home pkt).Concludes Gives (fun _ => True) := by
  rcases Router.bufferFor_cases L cellId home pkt with ⟨e,hb⟩ | ⟨k,payload,_,_,hb⟩
  · rw [hb]
    trivial
  · rw [hb]
    exact fun _ => ⟨fun h => h.elim,trivial⟩

theorem tryHome_concludes (cellId home : String) (pkt : Packet) :
    (Router.tryHome self cellId home pkt).Concludes Gives (fun _ => True) := by
  refine (sendToNode_concludes home pkt).bind (fun r hr => ⟨(),by simp [hr],trivial⟩) (fun r => ?_)
  split
  · trivial
  · exact bufferFor_concludes cellId home r.2

/-- A routing that hands its message over is at its end. -/
theorem route_concludes (pkt : Packet) :
    (Router.route self pkt).Concludes Gives (fun _ => True) := by
  cases ha : parseAddr pkt.toAddr with
  | error e =>
    rw [Router.route_error ha]
    trivial
  | ok x =>
    obtain ⟨cellId,nodeId⟩ := x
    cases cellId with
    | none =>
      rw [Router.route_node ha]
      exact (sendToNode_concludes nodeId pkt).bind (fun _ _ => ⟨(),rfl,trivial⟩) (fun _ => trivial)
    | some cellId =>
      rw [Router.route_cell ha]
      refine fun presence => ⟨fun h => h.elim,?_⟩
      cases presence with
      | none =>
        refine fun cell => ⟨fun h => h.elim,?_⟩
        cases cell with
        | none => trivial
        | some cell => exact deliverLocal_concludes pkt
      | some presence =>
        change (Router.tryPresence self cellId presence pkt).Concludes _ _
        unfold Router.tryPresence
        split
        · exact tryHome_concludes cellId presence.homeNodeId pkt
        · refine (sendToNode_concludes _ pkt).bind (fun r hr => ⟨(),by simp [hr],trivial⟩)
            (fun r => ?_)
          split
          · trivial
          · exact tryHome_concludes cellId presence.homeNodeId r.2

end Conclusions

/-- A row of the buffer: its id, and how many rows with that id came before it. -/
abbrev RowTag := SqlText × Nat

/-- The node, and what its flushes have done to the rows. -/
structure Ledger (ι : Type) where
  state : NodeState
  serial : SqlText → Nat
  /-- The rows a flush has read and not yet deleted; it is at the first of them. -/
  held : ι → List RowTag
  /-- What was sent successfully or passed to the callback. -/
  handed : List RowTag

namespace Ledger

def find (w : Ledger ι) (k : SqlText) : Option BufferedMessage := w.state.storage.messageBuffer.find k

/-- The readable rows, as they are at this moment. -/
def tags (L : Lib) (serial : SqlText → Nat) (rows : List BufferedMessage) : List RowTag :=
  (rows.filter (fun r => (deserializePacket L r.payload).isSome)).map
    (fun r => (r.messageId,serial r.messageId))

variable [DecidableEq ι]

/-- What flush `i` does when `q` is answered with `a` and leaves the node as `v`. -/
def note (L : Lib) (w : Ledger ι) (i : ι) (v : NodeState) : (q : Req) → Ans q → Ledger ι
  | .store (.bufferMessage k _ _ _), _ =>
    { w with state := v,
             serial := if w.find k = none then Function.update w.serial k (w.serial k + 1)
               else w.serial }
  | .store (.getBuffered _), rows =>
    { w with state := v, held := Function.update w.held i (tags L w.serial rows) }
  | .store (.deleteBuffered _), _ =>
    { w with state := v, held := Function.update w.held i (w.held i).tail }
  | .wsSend _ _, .ok _ => { w with state := v, handed := w.handed ++ (w.held i).head?.toList }
  | .onMessage _, _ => { w with state := v, handed := w.handed ++ (w.held i).head?.toList }
  | _, _ => { w with state := v }

end Ledger

namespace Overlap

/-- The row is in the buffer at this moment. -/
def Live (w : Ledger ι) (t : RowTag) : Prop := w.find t.1 ≠ none ∧ w.serial t.1 = t.2

/-- The ledger is in order while the flushes in `active` are in progress. -/
structure Sound (w : Ledger ι) (active : ι → Prop) : Prop where
  once : w.handed.Nodup
  past : ∀ t ∈ w.handed, t.2 ≤ w.serial t.1
  /-- A row that was handed over is gone, or about to be deleted. -/
  spent : ∀ t ∈ w.handed, Live w t → ∃ i, active i ∧ (w.held i).head? = some t
  live : ∀ i, active i → ∀ t ∈ w.held i, Live w t
  distinct : ∀ i, active i → ((w.held i).map Prod.fst).Nodup
  disjoint : ∀ i j, i ≠ j → active i → active j → ∀ t ∈ w.held i, ∀ u ∈ w.held j, t.1 ≠ u.1

section Entries

variable {w : Ledger ι} {active active' : ι → Prop} {i : ι} {rows : List BufferedMessage}

theorem mem_tags {serial : SqlText → Nat} {t : RowTag} (h : t ∈ Ledger.tags L serial rows) :
    ∃ r ∈ rows, t = (r.messageId,serial r.messageId) := by
  obtain ⟨r,hr,rfl⟩ := List.mem_map.mp h
  exact ⟨r,(List.mem_filter.mp hr).1,rfl⟩

/-- What happens outside the buffer does not matter. -/
theorem Sound.elsewhere (h : Sound w active) {v : NodeState}
    (hv : v.storage.messageBuffer = w.state.storage.messageBuffer) :
    Sound { w with state := v } active := by
  have hlive : ∀ t, Live { w with state := v } t ↔ Live w t := by
    intro t
    simp [Live,Ledger.find,hv]
  exact ⟨h.once,h.past,fun t ht hl => h.spent t ht ((hlive t).mp hl),
    fun j hj t ht => (hlive t).mpr (h.live j hj t ht),h.distinct,h.disjoint⟩

/-- A flush may end as long as the row it is at was not handed over. -/
theorem Sound.leave (h : Sound w active) (hsub : ∀ j, active' j → active j)
    (hother : ∀ j, j ≠ i → active j → active' j)
    (hi : ¬ active' i → ∀ t, (w.held i).head? = some t → t ∉ w.handed) : Sound w active' where
  once := h.once
  past := h.past
  spent := by
    intro t ht hl
    obtain ⟨j,hj,hhead⟩ := h.spent t ht hl
    by_cases hji : j = i
    · subst hji
      by_cases hact : active' j
      · exact ⟨j,hact,hhead⟩
      · exact (hi hact t hhead ht).elim
    · exact ⟨j,hother j hji hj,hhead⟩
  live := fun j hj => h.live j (hsub j hj)
  distinct := fun j hj => h.distinct j (hsub j hj)
  disjoint := fun j k hjk hj hk => h.disjoint j k hjk (hsub j hj) (hsub k hk)

/-- A row that no flush in progress holds was not handed over. -/
theorem Sound.unhanded (h : Sound w active) (hfresh : w.held i = [])
    (hapart : ∀ j, j ≠ i → active j → ∀ r ∈ rows, r.messageId ∉ (w.held j).map Prod.fst)
    (hmem : ∀ r ∈ rows, w.find r.messageId ≠ none) :
    ∀ t ∈ Ledger.tags L w.serial rows, t ∉ w.handed := by
  intro t ht hhanded
  obtain ⟨r,hr,rfl⟩ := mem_tags ht
  obtain ⟨j,hj,hhead⟩ := h.spent _ hhanded ⟨hmem r hr,rfl⟩
  have hne : j ≠ i := by
    rintro rfl
    simp [hfresh] at hhead
  refine hapart j hne hj r hr ?_
  exact List.mem_map.mpr ⟨_,List.mem_of_mem_head? hhead,rfl⟩

theorem Sound.hand (h : Sound w active) (hi : active i) {t : RowTag} {ts : List RowTag}
    (hheld : w.held i = t :: ts) (hnew : t ∉ w.handed) :
    Sound { w with handed := w.handed ++ [t] } active where
  once := List.nodup_append.mpr ⟨h.once,List.nodup_singleton t,by
    intro u hu v hv he
    rw [List.mem_singleton.mp hv] at he
    exact hnew (he ▸ hu)⟩
  past := by
    intro u hu
    rcases List.mem_append.mp hu with hu | hu
    · exact h.past u hu
    · rw [List.mem_singleton.mp hu]
      exact le_of_eq (h.live i hi t (by simp [hheld])).2.symm
  spent := by
    intro u hu hl
    rcases List.mem_append.mp hu with hu | hu
    · exact h.spent u hu hl
    · rw [List.mem_singleton.mp hu]
      exact ⟨i,hi,by simp [hheld]⟩
  live := h.live
  distinct := h.distinct
  disjoint := h.disjoint

/-- A row that comes in again is another row. -/
theorem Sound.buffer (h : Sound w active) {k : SqlText} {v : NodeState} (hnone : w.find k = none)
    (hv : ∀ j, j ≠ k → v.storage.messageBuffer.find j = w.find j) :
    Sound { w with state := v, serial := Function.update w.serial k (w.serial k + 1) } active := by
  have hback : ∀ u : RowTag, u ∈ w.handed →
      Live { w with state := v, serial := Function.update w.serial k (w.serial k + 1) } u →
      Live w u := by
    rintro ⟨j,n⟩ hu ⟨hl,hn⟩
    have hne : j ≠ k := by
      rintro rfl
      have hle := h.past _ hu
      simp only [Function.update_self] at hn hle
      omega
    exact ⟨by simpa [Ledger.find,hv j hne] using hl,by simpa [hne] using hn⟩
  refine ⟨h.once,?_,fun t ht hl => h.spent t ht (hback t ht hl),?_,h.distinct,h.disjoint⟩
  · intro t ht
    have hle := h.past t ht
    by_cases hk : t.1 = k
    · simp only [hk,Function.update_self] at hle ⊢
      omega
    · simpa [hk] using hle
  · intro j hj t ht
    obtain ⟨hl,hn⟩ := h.live j hj t ht
    have hne : t.1 ≠ k := fun he => hl (by rw [he]; exact hnone)
    exact ⟨by simpa [Ledger.find,hv _ hne] using hl,by simpa [hne] using hn⟩

variable [DecidableEq ι]

theorem Sound.read (h : Sound w active) (hfresh : w.held i = [])
    (hapart : ∀ j, j ≠ i → active j → ∀ r ∈ rows, r.messageId ∉ (w.held j).map Prod.fst)
    (hmem : ∀ r ∈ rows, w.find r.messageId ≠ none)
    (hkeys : (rows.map BufferedMessage.messageId).Nodup) :
    Sound { w with held := Function.update w.held i (Ledger.tags L w.serial rows) } active where
  once := h.once
  past := h.past
  spent := by
    intro t ht hl
    obtain ⟨j,hj,hhead⟩ := h.spent t ht hl
    have hne : j ≠ i := by
      rintro rfl
      simp [hfresh] at hhead
    exact ⟨j,hj,by simpa [hne] using hhead⟩
  live := by
    intro j hj t ht
    by_cases hji : j = i
    · subst hji
      simp only [Function.update_self] at ht
      obtain ⟨r,hr,rfl⟩ := mem_tags ht
      exact ⟨hmem r hr,rfl⟩
    · exact h.live j hj t (by simpa [hji] using ht)
  distinct := by
    intro j hj
    by_cases hji : j = i
    · subst hji
      simp only [Function.update_self,Ledger.tags,List.map_map]
      exact hkeys.sublist (List.filter_sublist.map _)
    · simpa [hji] using h.distinct j hj
  disjoint := by
    have hfar : ∀ j, j ≠ i → active j → ∀ t ∈ Ledger.tags L w.serial rows, ∀ u ∈ w.held j,
        t.1 ≠ u.1 := by
      intro j hji hj t ht u hu he
      obtain ⟨r,hr,rfl⟩ := mem_tags ht
      exact hapart j hji hj r hr (List.mem_map.mpr ⟨u,hu,he.symm⟩)
    intro j k hjk hj hk t ht u hu
    by_cases hji : j = i
    · subst hji
      have hki : k ≠ j := fun he => hjk he.symm
      simp only [Function.update_self] at ht
      exact hfar k hki hk t ht u (by simpa [hki] using hu)
    · by_cases hki : k = i
      · subst hki
        simp only [Function.update_self] at hu
        exact (hfar j hji hj u hu t (by simpa [hji] using ht)).symm
      · exact h.disjoint j k hjk hj hk t (by simpa [hji] using ht) u (by simpa [hki] using hu)

theorem Sound.delete (h : Sound w active) (hi : active i) {t : RowTag} {ts : List RowTag}
    (hheld : w.held i = t :: ts) {v : NodeState}
    (hv : v.storage.messageBuffer = w.state.storage.messageBuffer.delete t.1) :
    Sound { w with state := v, held := Function.update w.held i ts } active := by
  have hfind : ∀ k, v.storage.messageBuffer.find k =
      if k = t.1 then none else w.find k := by
    intro k
    rw [hv,Table.find_delete]
    rfl
  have hlive : ∀ u : RowTag, u.1 ≠ t.1 → Live w u →
      Live { w with state := v, held := Function.update w.held i ts } u := by
    intro u hne hl
    exact ⟨by simpa [Ledger.find,hfind,hne] using hl.1,hl.2⟩
  have hback : ∀ u : RowTag,
      Live { w with state := v, held := Function.update w.held i ts } u → u.1 ≠ t.1 ∧ Live w u := by
    intro u hl
    have hne : u.1 ≠ t.1 := by
      intro he
      exact hl.1 (by simp [Ledger.find,hfind,he])
    exact ⟨hne,by simpa [Ledger.find,hfind,hne] using hl.1,hl.2⟩
  have hkeys := h.distinct i hi
  rw [hheld,List.map_cons,List.nodup_cons] at hkeys
  refine ⟨h.once,h.past,?_,?_,?_,?_⟩
  · intro u hu hl
    obtain ⟨hne,hl⟩ := hback u hl
    obtain ⟨j,hj,hhead⟩ := h.spent u hu hl
    have hji : j ≠ i := by
      rintro rfl
      simp only [hheld,List.head?_cons,Option.some.injEq] at hhead
      exact hne (by rw [hhead])
    exact ⟨j,hj,by simpa [hji] using hhead⟩
  · intro j hj u hu
    by_cases hji : j = i
    · subst hji
      simp only [Function.update_self] at hu
      refine hlive u (fun he => hkeys.1 (List.mem_map.mpr ⟨u,hu,he⟩)) ?_
      exact h.live j hj u (by simp [hheld,hu])
    · have hu' : u ∈ w.held j := by simpa [hji] using hu
      exact hlive u (h.disjoint j i hji hj hi u hu' t (by simp [hheld])) (h.live j hj u hu')
  · intro j hj
    by_cases hji : j = i
    · subst hji
      simpa using hkeys.2
    · simpa [hji] using h.distinct j hj
  · have hsub : ∀ j, ∀ u ∈ Function.update w.held i ts j, u ∈ w.held j := by
      intro j u hu
      by_cases hji : j = i
      · subst hji
        simp only [Function.update_self] at hu
        simp [hheld,hu]
      · simpa [hji] using hu
    exact fun j k hjk hj hk u hu x hx => h.disjoint j k hjk hj hk u (hsub j u hu) x (hsub k x hx)

end Entries

section Steps

variable [DecidableEq ι]

/-- Flushes of the mailbox of a cell. Connections may come and go meanwhile. -/
def rules (L : Lib) : Rules ι Req Ans Err Unit (Ledger ι) where
  answer := fun i w q a w' => ∃ v, w.state.Answers q a v ∧ w' = w.note L i v q a
  start := fun _ _ _ _ => False
  drift := fun w w' => ∃ v : NodeState, v.storage.messageBuffer = w.state.storage.messageBuffer ∧
    w' = { w with state := v }

def initial (self : Node L) (c : String) (w : NodeState) :
    Pool ι Req Ans Err Unit (Ledger ι) :=
  ⟨fun _ => Router.flushBuffer self c,fun _ => [],fun _ => Router.flushBuffer self c,
    ⟨w,fun _ => 0,fun _ => [],[]⟩⟩

/-- A step in which no flush reads a row that another one in progress still holds,
and no call of the callback raises. -/
def Apart (L : Lib) (c : String) (P P' : Pool ι Req Ans Err Unit (Ledger ι)) : Prop :=
  Pool.Step (rules L) P P' ∧ ∀ i,
    (∀ rows, P'.history i = P.history i ++ [⟨.store (.getBuffered c),rows⟩] →
      ∀ j, j ≠ i → ¬ (P.tasks j).Done →
        ∀ r ∈ rows, r.messageId ∉ (P.world.held j).map Prod.fst) ∧
    ∀ pkt a, P'.history i = P.history i ++ [⟨.onMessage pkt,a⟩] → a = .ok ()

/-- The rest of a flush that is at the first of these rows. -/
def remaining (self : Node L) (rows : List BufferedMessage) : NodeProg Unit :=
  Prog.forEach rows (Router.flushMessage self)

/-- A flush is routing the message of row `r`; `p` is left of that, and `rows` come
after it. -/
structure Routes (node : Node L) (handed held : List RowTag) (r : BufferedMessage)
    (rows : List BufferedMessage) (p : NodeProg Unit) : Prop where
  asks : ∃ pkt, Obeys (Router.Allowed node pkt) (fun _ _ => True) (fun _ => True) p
  concludes : p.Concludes Gives (fun _ => True)
  holds : held.map Prod.fst = r.messageId ::
    (rows.filter (fun r => (deserializePacket L r.payload).isSome)).map BufferedMessage.messageId
  /-- Once the message was handed over, only the deletion is left. -/
  first : ∀ t, held.head? = some t → t ∈ handed → p = .ret ()
  rest : ∀ t ∈ held.tail, t ∉ handed

/-- What a flush may still do: it has not begun, is in one of its rounds, or is over. -/
def Stage (self : Node L) (c : String) (handed held : List RowTag) (task : NodeProg Unit) : Prop :=
  (held = [] ∧ task = Router.flushBuffer self c) ∨
    (∃ r rows p, Routes self handed held r rows p ∧
      task = p.bind (fun _ => (NodeProg.store (.deleteBuffered r.messageId)).bind
        (fun _ => remaining self rows))) ∨ task.Done

omit [DecidableEq ι] in
theorem stage_remaining {self : Node L} {c : String} {handed held : List RowTag}
    (rows : List BufferedMessage) (hheld : held.map Prod.fst = (rows.filter
      (fun r => (deserializePacket L r.payload).isSome)).map BufferedMessage.messageId)
    (hnew : ∀ t ∈ held, t ∉ handed) : Stage self c handed held (remaining self rows) := by
  induction rows with
  | nil => exact .inr (.inr trivial)
  | cons r rows ih =>
    cases hd : deserializePacket L r.payload with
    | none =>
      have hskip : remaining self (r :: rows) = remaining self rows := by
        simp [remaining,Router.flushMessage,hd]
      rw [hskip]
      exact ih (by simpa [hd] using hheld)
    | some pkt =>
      have hround : remaining self (r :: rows) = (Router.route self pkt).bind (fun _ =>
          (NodeProg.store (.deleteBuffered r.messageId)).bind (fun _ => remaining self rows)) := by
        simp [remaining,Router.flushMessage,hd,Prog.bind_assoc]
      refine .inr (.inl ⟨r,rows,_,?_,hround⟩)
      refine ⟨⟨pkt,Router.route_allowed pkt⟩,route_concludes pkt,by simpa [hd] using hheld,?_,?_⟩
      · exact fun t ht hmem => (hnew t (List.mem_of_mem_head? ht) hmem).elim
      · exact fun t ht => hnew t (List.mem_of_mem_tail ht)

theorem Stage.mono {self : Node L} {c : String} {handed handed' held : List RowTag}
    {task : NodeProg Unit} (h : Stage self c handed held task)
    (hsub : ¬ task.Done → ∀ t ∈ held, t ∈ handed' → t ∈ handed) :
    Stage self c handed' held task := by
  by_cases hdone : task.Done
  · exact .inr (.inr hdone)
  · rcases h with hfresh | ⟨r,rows,p,hr,htask⟩ | hd
    · exact .inl hfresh
    · refine .inr (.inl ⟨r,rows,p,⟨hr.asks,hr.concludes,hr.holds,?_,?_⟩,htask⟩)
      · exact fun t ht hmem => hr.first t ht (hsub hdone t (List.mem_of_mem_head? ht) hmem)
      · exact fun t ht hmem => hr.rest t ht (hsub hdone t (List.mem_of_mem_tail ht) hmem)
    · exact .inr (.inr hd)

/-- What a request of a routing does to the ledger. -/
theorem note_allowed {self : Node L} {w : Ledger ι} {i : ι} {v : NodeState} {pkt : Packet} {q : Req}
    {a : Ans q} (hq : Router.Allowed self pkt q) (hv : w.state.Answers q a v)
    (hcalm : ∀ p b, (⟨q,a⟩ : Exchange Req Ans) = ⟨.onMessage p,b⟩ → b = .ok ()) :
    (v.storage.messageBuffer = w.state.storage.messageBuffer ∧
      ((Gives q a ∧ w.note L i v q a =
        { w with state := v, handed := w.handed ++ (w.held i).head?.toList }) ∨
        w.note L i v q a = { w with state := v })) ∨
    ∃ k, w.find k = none ∧ (∀ j, j ≠ k → v.storage.messageBuffer.find j = w.find j) ∧
      w.note L i v q a =
        { w with state := v, serial := Function.update w.serial k (w.serial k + 1) } := by
  cases q with
  | store op =>
    obtain ⟨now,_,rfl⟩ := hv
    cases op with
    | bufferMessage k c n payload =>
      by_cases hnone : w.find k = none
      · refine .inr ⟨k,hnone,fun j hj => ?_,?_⟩
        · simp only [Storage.exec,Storage.bufferMessage,Ledger.find]
          rw [Table.find_insertIgnore]
          have hkj : k ≠ j := fun he => hj he.symm
          cases w.state.storage.messageBuffer.find j <;> simp [hkj]
        · simp [Ledger.note,hnone]
      · refine .inl ⟨?_,.inr ?_⟩
        · obtain ⟨r,hr⟩ := Option.ne_none_iff_exists'.mp hnone
          exact Table.insertIgnore_of_find _ hr
        · simp [Ledger.note,hnone]
    | getNode k => exact .inl ⟨rfl,.inr rfl⟩
    | getCell k => exact .inl ⟨rfl,.inr rfl⟩
    | getPresence k => exact .inl ⟨rfl,.inr rfl⟩
    | _ => exact (hq.elim id id).elim
  | wsSend conn frame =>
    cases hv
    cases a with
    | error e => exact .inl ⟨rfl,.inr rfl⟩
    | ok u => exact .inl ⟨rfl,.inl ⟨trivial,rfl⟩⟩
  | onMessage p =>
    cases hv
    cases hcalm p a rfl
    exact .inl ⟨rfl,.inl ⟨trivial,rfl⟩⟩
  | connGet nodeId =>
    obtain ⟨_,rfl⟩ := hv
    exact .inl ⟨rfl,.inr rfl⟩
  | _ => cases hv; exact .inl ⟨rfl,.inr rfl⟩

/-- Every flush is at a stage of its program, and the ledger is in order. -/
structure Orderly (node : Node L) (c : String) (tasks : ι → NodeProg Unit) (w : Ledger ι) : Prop where
  stage : ∀ i, Stage node c w.handed (w.held i) (tasks i)
  sound : Sound w (fun i => ¬ (tasks i).Done)

variable {self : Node L} {c : String} {tasks : ι → NodeProg Unit} {w : Ledger ι} {i : ι}

/-- A flush goes on with `p`, or ends without having handed over the row it is at. -/
theorem Sound.goesOn (h : Sound w (fun i => ¬ (tasks i).Done)) (hi : ¬ (tasks i).Done)
    {p : NodeProg Unit} (hp : p.Done → ∀ t, (w.held i).head? = some t → t ∉ w.handed) :
    Sound w (fun j => ¬ (Function.update tasks i p j).Done) := by
  refine h.leave (i := i) (fun j hj => ?_) (fun j hji hj => by simpa [hji] using hj) (fun hj => ?_)
  · by_cases hji : j = i
    · subst hji
      exact hi
    · simpa [hji] using hj
  · simp only [Function.update_self,not_not] at hj
    exact hp hj

theorem Orderly.read (h : Orderly self c tasks w) (hi : ¬ (tasks i).Done) (hheld : w.held i = [])
    {rows : List BufferedMessage} {v : NodeState}
    (hv : v.storage.messageBuffer = w.state.storage.messageBuffer)
    (hapart : ∀ j, j ≠ i → ¬ (tasks j).Done → ∀ r ∈ rows, r.messageId ∉ (w.held j).map Prod.fst)
    (hmem : ∀ r ∈ rows, w.find r.messageId ≠ none)
    (hkeys : (rows.map BufferedMessage.messageId).Nodup) :
    Orderly self c (Function.update tasks i (remaining self rows))
      { w with state := v, held := Function.update w.held i (Ledger.tags L w.serial rows) } := by
  have hnew := h.sound.unhanded (L := L) hheld hapart hmem
  have hread := (h.sound.read (L := L) hheld hapart hmem hkeys).elsewhere (v := v) hv
  refine ⟨fun j => ?_,hread.goesOn hi (fun _ t ht => ?_)⟩
  · by_cases hji : j = i
    · subst hji
      simp only [Function.update_self]
      exact stage_remaining rows (by simp [Ledger.tags]) hnew
    · simpa [hji] using h.stage j
  · simp only [Function.update_self] at ht
    exact hnew t (List.mem_of_mem_head? ht)

theorem Orderly.delete (h : Orderly self c tasks w) (hi : ¬ (tasks i).Done) {t : RowTag}
    {ts : List RowTag} {rows : List BufferedMessage} {v : NodeState} (hheld : w.held i = t :: ts)
    (hv : v.storage.messageBuffer = w.state.storage.messageBuffer.delete t.1)
    (hrows : ts.map Prod.fst = (rows.filter
      (fun r => (deserializePacket L r.payload).isSome)).map BufferedMessage.messageId)
    (hnew : ∀ t ∈ ts, t ∉ w.handed) :
    Orderly self c (Function.update tasks i (remaining self rows))
      { w with state := v, held := Function.update w.held i ts } := by
  have hdelete := h.sound.delete hi hheld hv
  refine ⟨fun j => ?_,hdelete.goesOn hi (fun _ u hu => ?_)⟩
  · by_cases hji : j = i
    · subst hji
      simp only [Function.update_self]
      exact stage_remaining rows hrows hnew
    · simpa [hji] using h.stage j
  · simp only [Function.update_self] at hu
    exact hnew u (List.mem_of_mem_head? hu)

/-- The state of one flush changes, and at most the row it is at is handed over. -/
theorem Orderly.goesOn (h : Orderly self c tasks w) (hi : ¬ (tasks i).Done) {w' : Ledger ι}
    {p : NodeProg Unit} (hsound : Sound w' (fun i => ¬ (tasks i).Done)) (hheld : w'.held = w.held)
    (hhanded : ∀ u ∈ w'.handed, u ∈ w.handed ∨ (w.held i).head? = some u)
    (hstage : Stage self c w'.handed (w.held i) p)
    (hp : p.Done → ∀ t, (w.held i).head? = some t → t ∉ w'.handed) :
    Orderly self c (Function.update tasks i p) w' := by
  refine ⟨fun j => ?_,hsound.goesOn hi (by simpa [hheld] using hp)⟩
  rw [hheld]
  by_cases hji : j = i
  · subst hji
    simpa using hstage
  · rw [Function.update_of_ne hji]
    refine (h.stage j).mono (fun hj u hu hmem => ?_)
    rcases hhanded u hmem with hold | hhead
    · exact hold
    · exact (h.sound.disjoint j i hji hj hi u hu u (List.mem_of_mem_head? hhead) rfl).elim

theorem Orderly.route (h : Orderly self c tasks w) (hi : ¬ (tasks i).Done) {r : BufferedMessage}
    {rows : List BufferedMessage} {q : Req} {k : Ans q → NodeProg Unit}
    (hr : Routes self w.handed (w.held i) r rows (.ask q k)) {a : Ans q} {v : NodeState}
    (hv : w.state.Answers q a v)
    (hcalm : ∀ p b, (⟨q,a⟩ : Exchange Req Ans) = ⟨.onMessage p,b⟩ → b = .ok ()) :
    Orderly self c (Function.update tasks i ((k a).bind (fun _ =>
      (NodeProg.store (.deleteBuffered r.messageId)).bind (fun _ => remaining self rows))))
      (w.note L i v q a) := by
  obtain ⟨t,ts,hheld⟩ : ∃ t ts, w.held i = t :: ts := by
    cases hw : w.held i with
    | nil => simpa [hw] using hr.holds
    | cons t ts => exact ⟨t,ts,rfl⟩
  have hhead : ∀ u, (w.held i).head? = some u → u = t := by
    intro u hu
    simpa [hheld,eq_comm] using hu
  have hnew : t ∉ w.handed := by
    intro hmem
    have hret := hr.first t (by simp [hheld]) hmem
    simp at hret
  obtain ⟨pkt,hasks⟩ := hr.asks
  have hgoing : ∀ handed : List RowTag, handed = w.handed →
      Stage self c handed (w.held i) ((k a).bind (fun _ =>
        (NodeProg.store (.deleteBuffered r.messageId)).bind (fun _ => remaining self rows))) := by
    rintro _ rfl
    refine .inr (.inl ⟨r,rows,k a,⟨⟨pkt,hasks.2 a trivial⟩,(hr.concludes a).2,hr.holds,?_,hr.rest⟩,rfl⟩)
    intro u hu hmem
    exact (hnew (hhead u hu ▸ hmem)).elim
  rcases note_allowed (L := L) (i := i) hasks.1 hv hcalm with ⟨hbuf,⟨hgives,hnote⟩ | hnote⟩ |
    ⟨j,hnone,hfind,hnote⟩
  · rw [hnote]
    have hhand : w.handed ++ (w.held i).head?.toList = w.handed ++ [t] := by simp [hheld]
    rw [hhand]
    obtain ⟨u,hret,_⟩ := (hr.concludes a).1 hgives
    have hsound := (h.sound.hand hi hheld hnew).elsewhere hbuf
    refine h.goesOn hi hsound rfl (fun u hu => ?_) ?_ (fun hdone => ?_)
    · rcases List.mem_append.mp hu with hu | hu
      · exact .inl hu
      · rw [List.mem_singleton.mp hu]
        exact .inr (by simp [hheld])
    · refine .inr (.inl ⟨r,rows,k a,⟨⟨pkt,hasks.2 a trivial⟩,(hr.concludes a).2,hr.holds,
        fun _ _ _ => hret,fun u hu hmem => ?_⟩,rfl⟩)
      rcases List.mem_append.mp hmem with hmem | hmem
      · exact hr.rest u hu hmem
      · have hkeys := h.sound.distinct i hi
        rw [hheld,List.map_cons,List.nodup_cons] at hkeys
        rw [hheld,List.tail_cons] at hu
        exact hkeys.1 (List.mem_map.mpr ⟨u,hu,by rw [List.mem_singleton.mp hmem]⟩)
    · rw [hret] at hdone
      exact hdone.elim
  · rw [hnote]
    exact h.goesOn hi (h.sound.elsewhere hbuf) rfl (fun u hu => .inl hu) (hgoing _ rfl)
      (fun _ u hu hmem => hnew (hhead u hu ▸ hmem))
  · rw [hnote]
    exact h.goesOn hi (h.sound.buffer hnone hfind) rfl (fun u hu => .inl hu) (hgoing _ rfl)
      (fun _ u hu hmem => hnew (hhead u hu ▸ hmem))

theorem Orderly.step {P P' : Pool ι Req Ans Err Unit (Ledger ι)}
    (h : Orderly self c P.tasks P.world) (hs : Apart L c P P') :
    Orderly self c P'.tasks P'.world := by
  obtain ⟨hs,hapart⟩ := hs
  cases hs with
  | start i p w _ hstart => exact hstart.elim
  | drift w hdrift =>
    obtain ⟨v,hv,rfl⟩ := hdrift
    exact ⟨h.stage,h.sound.elsewhere hv⟩
  | answer i q k a w ht hans =>
    obtain ⟨v,hv,rfl⟩ := hans
    have hi : ¬ (P.tasks i).Done := by simp [ht,Prog.Done]
    obtain ⟨hread,hcall⟩ := hapart i
    simp only [Function.update_self] at hread hcall
    rcases h.stage i with ⟨hheld,htask⟩ | ⟨r,rows,p,hr,htask⟩ | hdone
    · rw [ht] at htask
      cases htask
      obtain ⟨now,hrows,rfl⟩ := hv
      have hmem : ∀ r ∈ (a : List BufferedMessage), r ∈ P.world.state.storage.messageBuffer.rows := by
        intro r hr
        rw [hrows] at hr
        exact ((Storage.mem_getBuffered _ _ _ r).mp hr).1
      refine h.read hi hheld rfl (fun j hji hj => hread a rfl j hji hj) (fun r hr => ?_) ?_
      · have hfind := Table.find_eq_some P.world.state.storage.messageBuffer
          |>.mpr ⟨hmem r hr,rfl⟩
        simp [Ledger.find,hfind]
      · rw [hrows]
        exact P.world.state.storage.messageBuffer.nodup.sublist (List.filter_sublist.map _)
    · rw [ht] at htask
      cases p with
      | ret u =>
        cases htask
        obtain ⟨now,_,rfl⟩ := hv
        cases hw : P.world.held i with
        | nil =>
          have hholds := hr.holds
          simp [hw] at hholds
        | cons t ts =>
          have hholds := hr.holds
          simp only [hw,List.map_cons,List.cons.injEq] at hholds
          have hrest := hr.rest
          simp only [hw,List.tail_cons] at hrest
          have hdel := h.delete (v := { P.world.state with
            storage := P.world.state.storage.deleteBuffered r.messageId }) hi hw (by rw [hholds.1]; rfl)
            hholds.2 hrest
          simpa [Ledger.note,hw,Storage.exec] using hdel
      | raise e => cases htask
      | ask q' k' =>
        cases htask
        exact h.route hi hr hv (fun p b he => hcall p b (by rw [he]))
    · exact (hi hdone).elim

/-- As long as no flush reads a row that another one still holds, no row is handed
over twice. -/
theorem handed_once {w : NodeState} {P : Pool ι Req Ans Err Unit (Ledger ι)}
    (hrun : Relation.ReflTransGen (Apart L c) (initial self c w) P) : P.world.handed.Nodup := by
  suffices h : Orderly self c P.tasks P.world from h.sound.once
  induction hrun with
  | refl =>
    refine ⟨fun i => .inl ⟨rfl,rfl⟩,⟨List.nodup_nil,?_,?_,?_,?_,?_⟩⟩
    · exact fun t ht => absurd ht (by simp [initial])
    · exact fun t ht => absurd ht (by simp [initial])
    · exact fun i _ t ht => absurd ht (by simp [initial])
    · exact fun i _ => by simp [initial]
    · exact fun i j _ _ _ t ht => absurd ht (by simp [initial])
  | tail _ hs ih => exact ih.step hs

/-- A flush on its own, with what it does written down. -/
def handler (L : Lib) (env : Env) (i : ι) : Handler Req Ans (Ledger ι × Nat) := fun q s =>
  let r := env.handler q ⟨s.1.state,s.2⟩
  (r.1,s.1.note L i r.2.state q r.1,s.2+1)

/-- What flush `i` does if all others stand still. -/
def alone (L : Lib) (P : Pool ι Req Ans Err Unit (Ledger ι)) (i : ι) :
    Run Req Ans Err Unit (Ledger ι × Nat) :=
  run (handler L calmEnv i) (P.tasks i) (P.world,0)

theorem exists_run {R : Rules ι Req Ans Err Unit (Ledger ι)} (ok : Ledger ι × Nat → Bool)
    (P : Pool ι Req Ans Err Unit (Ledger ι)) (i : ι)
    (hR : ∀ q s, ok s = true → R.answer i s.1 q (handler L calmEnv i q s).1
      (handler L calmEnv i q s).2.1)
    (hok : (handler L calmEnv i).passes (fun s _ => ok s) (P.world,0) (alone L P i).trace = true) :
    ∃ P', Pool.Steps R P P' ∧
      P'.history = Function.update P.history i (P.history i ++ (alone L P i).trace) ∧
      P'.tasks = Function.update P.tasks i (.ofExcept (alone L P i).result) ∧
      P'.world = (alone L P i).final.1 := by
  have hallow := Rules.allows_run (R := R) (handler L calmEnv i) Prod.fst (fun s _ => ok s) hR
    (P.tasks i) (P.world,0) hok
  obtain ⟨P',hs,_,hh,ht,hw⟩ := Pool.exists_run_of_path (run_path (handler L calmEnv i) (P.tasks i)
    (P.world,0)) hallow
  exact ⟨P',hs,hh,ht,hw⟩

theorem answer_handler (q : Req) (s : Ledger ι × Nat) (i : ι) :
    (rules L).answer i s.1 q (handler L calmEnv i q s).1 (handler L calmEnv i q s).2.1 :=
  ⟨_,NodeState.answers_handler calmEnv q ⟨s.1.state,s.2⟩,rfl⟩

end Steps

def sampleCell : PeerConnection where
  ws := 1
  peerNodeId := "c"
  peerSigningPubkey := []
  peerEncPubkey := .none
  localNodeId := (sampleNode false).id

/-- A message waits for the cell "c", which is connected to its home. -/
def sampleWaiting : NodeState :=
  { (waitingWorld (sampleNode false).id samplePayload).state with
    connections := ConnectionRegistry.empty.add sampleCell }

def sampleRow : BufferedMessage :=
  ⟨.text "m","c",(sampleNode false).id,samplePayload,0,ttlMessageSecs⟩

/-- A frame went out to the cell. -/
def sentToCell : Exchange Req Ans → Bool
  | ⟨.wsSend conn _,.ok _⟩ => conn.peerNodeId == "c"
  | _ => false

/-- A flush that acts while the other holds none of the rows in the buffer. -/
def free (i : Bool) (w : Ledger Bool) : Bool :=
  w.state.storage.messageBuffer.rows.all
    (fun r => !((w.held !i).map Prod.fst).contains r.messageId)

def soloRules (L : Lib) : Rules Bool Req Ans Err Unit (Ledger Bool) :=
  { rules L with
    answer := fun i w q a w' => (rules L).answer i w q a w' ∧ free i w = true ∧
      ∀ pkt b, (⟨q,a⟩ : Exchange Req Ans) = ⟨.onMessage pkt,b⟩ → b = .ok () }

theorem apart_of_solo {c : String} {P P' : Pool Bool Req Ans Err Unit (Ledger Bool)}
    (h : Pool.Step (soloRules L) P P') : Apart L c P P' := by
  cases h with
  | start i p w _ hstart => exact hstart.elim
  | drift w hdrift =>
    refine ⟨.drift w hdrift,fun i => ⟨fun rows he => ?_,fun pkt a he => ?_⟩⟩
    · simp at he
    · simp at he
  | answer i q k a w ht h =>
    obtain ⟨hans,hfree,hcalm⟩ := h
    have hacts : ∀ j e, Function.update P.history i (P.history i ++ [⟨q,a⟩]) j = P.history j ++ [e] →
        j = i ∧ (⟨q,a⟩ : Exchange Req Ans) = e := by
      intro j e he
      by_cases hji : j = i
      · subst hji
        simpa using he
      · simp [hji] at he
    refine ⟨.answer i q k a w ht hans,fun j => ⟨fun rows he m hmj _ r hr hmem => ?_,fun pkt b he => ?_⟩⟩
    · obtain ⟨rfl,hq⟩ := hacts j _ he
      cases hq
      obtain ⟨v,⟨now,hrows,_⟩,_⟩ := hans
      rw [hrows] at hr
      have hbuf := ((Storage.mem_getBuffered _ _ _ r).mp hr).1
      have hother : m = !j := Bool.eq_not.mpr hmj
      have hnot := List.all_eq_true.mp hfree r hbuf
      rw [hother] at hmem
      simp only [Bool.not_eq_true',List.contains_eq_mem,decide_eq_false_iff_not] at hnot
      exact hnot hmem
    · obtain ⟨rfl,hq⟩ := hacts j _ he
      exact hcalm pkt b hq

/-- One flush after the other: the message is sent once. -/
theorem handed_once_sample : ∃ P : Pool Bool Req Ans Err Unit (Ledger Bool),
    Relation.ReflTransGen (Apart shortSigLib "c") (initial (sampleNode false) "c" sampleWaiting) P ∧
      P.world.handed = [(.text "m",0)] ∧ P.world.handed.Nodup := by
  have hanswer : ∀ (i : Bool) (q : Req) (s : Ledger Bool × Nat), free i s.1 = true →
      (soloRules shortSigLib).answer i s.1 q (handler shortSigLib calmEnv i q s).1
        (handler shortSigLib calmEnv i q s).2.1 := by
    refine fun i q s hs => ⟨answer_handler q s i,hs,fun pkt b he => ?_⟩
    cases he
    rfl
  obtain ⟨P1,h1,_,ht1,hw1⟩ := exists_run (L := shortSigLib) (R := soloRules shortSigLib)
    _ (initial (sampleNode false) "c" sampleWaiting) true (hanswer true) (by decide +kernel)
  have htask : P1.tasks false = Router.flushBuffer (sampleNode false) "c" := by
    rw [ht1]
    rfl
  obtain ⟨P2,h2,_,_,hw2⟩ := exists_run (L := shortSigLib) (R := soloRules shortSigLib) _ P1 false
    (hanswer false) (by unfold alone; rw [htask,hw1]; decide +kernel)
  have hrun := (h1.trans h2).lift id (fun _ _ hs => apart_of_solo (c := "c") hs)
  refine ⟨P2,hrun,?_,handed_once hrun⟩
  rw [hw2]
  unfold alone
  rw [htask,hw1]
  decide +kernel

/-- After both flushes have been started, and one of them has read the mailbox. -/
def sampleRead : Ledger Bool :=
  Ledger.note shortSigLib ⟨sampleWaiting,fun _ => 0,fun _ => [],[]⟩ false sampleWaiting
    (.store (.getBuffered "c")) [sampleRow]

/-- The other one from beginning to end, then the rest of the first. -/
def sampleWhole : Run Req Ans Err Unit (Ledger Bool × Nat) :=
  run (handler shortSigLib calmEnv true) (Router.flushBuffer (sampleNode false) "c") (sampleRead,0)

def sampleRest : Run Req Ans Err Unit (Ledger Bool × Nat) :=
  run (handler shortSigLib calmEnv false) (remaining (sampleNode false) [sampleRow])
    (sampleWhole.final.1,0)

/-- Two flushes have both read the row before one of them deletes it: the message is
sent to the cell twice. -/
theorem handed_twice : ∃ P : Pool Bool Req Ans Err Unit (Ledger Bool),
    Pool.Steps (rules shortSigLib) (initial (sampleNode false) "c" sampleWaiting) P ∧
      (∀ i, (P.tasks i).Done) ∧ (∀ i, (P.history i).any sentToCell = true) ∧
      P.world.handed = [(.text "m",0),(.text "m",0)] := by
  have hread : sampleWaiting.Answers (.store (.getBuffered "c")) [sampleRow] sampleWaiting :=
    ⟨0,by decide +kernel,rfl⟩
  have hpath : Path (Prog.ask (.store (.getBuffered "c")) (remaining (sampleNode false)))
      [⟨.store (.getBuffered "c"),[sampleRow]⟩] (remaining (sampleNode false) [sampleRow]) :=
    Path.step (A := Ans) (Req.store (.getBuffered "c")) (remaining (sampleNode false)) [sampleRow]
      (.here _)
  obtain ⟨P1,h1,_,hh1,ht1,hw1⟩ := Pool.exists_run_of_path (R := rules shortSigLib) (w := sampleRead)
    (P := initial (sampleNode false) "c" sampleWaiting) (i := false) hpath
    (.cons ⟨sampleWaiting,hread,rfl⟩ (.nil _))
  obtain ⟨P2,h2,hh2,ht2,hw2⟩ := exists_run (L := shortSigLib) (R := rules shortSigLib)
    (fun _ => true) P1 true (fun q s _ => answer_handler q s true) (Handler.passes_true _ _ _)
  have hwhole : alone shortSigLib P1 true = sampleWhole := by
    unfold alone
    rw [hw1,ht1]
    rfl
  rw [hwhole] at hh2 ht2 hw2
  obtain ⟨P3,h3,hh3,ht3,hw3⟩ := exists_run (L := shortSigLib) (R := rules shortSigLib)
    (fun _ => true) P2 false (fun q s _ => answer_handler q s false) (Handler.passes_true _ _ _)
  have hrest : alone shortSigLib P2 false = sampleRest := by
    unfold alone
    rw [hw2,ht2,ht1]
    rfl
  rw [hrest] at hh3 ht3 hw3
  refine ⟨P3,(h1.trans h2).trans h3,fun i => ?_,fun i => ?_,?_⟩
  · cases i with
    | false =>
      rw [ht3,Function.update_self]
      exact Prog.done_ofExcept _
    | true =>
      rw [ht3,Function.update_of_ne (by decide),ht2,Function.update_self]
      exact Prog.done_ofExcept _
  · cases i with
    | false =>
      have hlater : sampleRest.trace.any sentToCell = true := by decide +kernel
      rw [hh3,Function.update_self,List.any_append,Bool.or_eq_true]
      exact .inr hlater
    | true =>
      have hboth : sampleWhole.trace.any sentToCell = true := by decide +kernel
      rw [hh3,Function.update_of_ne (by decide),hh2,Function.update_self,List.any_append,
        Bool.or_eq_true]
      exact .inr hboth
  · rw [hw3]
    decide +kernel

end Overlap

end Nevod
