import Nevod.Router

/-!
What becomes of a message that is routed. An attempt at a remote node either
settles the message or is refused and leaves a definite world behind; a local
delivery counts as successful even when it loses the message.
-/

set_option autoImplicit false

namespace Nevod
open Text Resume Keyed

variable {L : Lib}

/-- The exchange hands the message over: to a connection, or to the callback. -/
def handsOver : Exchange Req Ans → Bool
  | ⟨.wsSend _ _,.ok _⟩ => true
  | ⟨.onMessage _,.ok _⟩ => true
  | _ => false

def HandedOver (tr : List (Exchange Req Ans)) : Prop := tr.any handsOver = true

structure Refused (r : Run Req Ans Err (Bool × Packet) World) (w : World) (pkt : Packet) :
    Prop where
  result : r.result = .ok (false,pkt)
  final : r.final = w
  trace : ¬ HandedOver r.trace

def Settled (r : Run Req Ans Err (Bool × Packet) World) : Prop :=
  (∃ pkt, r.result = .ok (true,pkt) ∧ HandedOver r.trace) ∨ ∃ e, r.result = .error e

/-- What an attempt at a node came to: refused with the world and the packet it
left, or settled. -/
def Attempt : Option (World × Packet) → Run Req Ans Err (Bool × Packet) World → Prop
  | some (w,pkt), r => Refused r w pkt
  | none, r => Settled r

theorem not_handedOver_append {tr tr' : List (Exchange Req Ans)} (h : ¬ HandedOver tr) :
    HandedOver (tr ++ tr') ↔ HandedOver tr' := by
  unfold HandedOver at *
  simp_all

theorem Attempt.after {p : NodeProg (Bool × Packet)} {f : Bool × Packet → NodeProg (Bool × Packet)}
    {env : Env} {w w1 : World} {pkt : Packet} {o : Option (World × Packet)}
    (hp : Refused (run env.handler p w) w1 pkt)
    (hf : Attempt o (run env.handler (f (false,pkt)) w1)) :
    Attempt o (run env.handler (p.bind f) w) := by
  rw [run_bind_ok hp.result,hp.final]
  cases o with
  | some x => exact ⟨hf.result,hf.final,by simpa [not_handedOver_append hp.trace] using hf.trace⟩
  | none =>
    rcases hf with ⟨pkt',hr,ht⟩ | ⟨e,hr⟩
    · exact .inl ⟨pkt',hr,by simpa [not_handedOver_append hp.trace] using ht⟩
    · exact .inr ⟨e,hr⟩

theorem Attempt.done {p : NodeProg (Bool × Packet)} {f : Bool × Packet → NodeProg (Bool × Packet)}
    {env : Env} {w : World} (hp : Settled (run env.handler p w))
    (hf : ∀ pkt, f (true,pkt) = .ret (true,pkt)) :
    Attempt none (run env.handler (p.bind f) w) := by
  rcases hp with ⟨pkt,hr,ht⟩ | ⟨e,hr⟩
  · rw [run_bind_ok hr,hf]
    exact .inl ⟨pkt,rfl,by simpa using ht⟩
  · rw [run_bind_error hr]
    exact .inr ⟨e,rfl⟩

/-- A request that hands nothing over leaves the outcome to the rest. -/
theorem Attempt.ask {q : Req} {k : Ans q → NodeProg (Bool × Packet)} {env : Env} {w : World}
    {o : Option (World × Packet)} (hq : handsOver ⟨q,(env.handler q w).1⟩ = false)
    (h : Attempt o (run env.handler (k (env.handler q w).1) (env.handler q w).2)) :
    Attempt o (run env.handler (.ask q k) w) := by
  rw [run_ask]
  cases o with
  | some x => exact ⟨h.result,h.final,by simpa [HandedOver,hq] using h.trace⟩
  | none =>
    rcases h with ⟨pkt,hr,ht⟩ | ⟨e,hr⟩
    · exact .inl ⟨pkt,hr,by simpa [HandedOver,hq] using ht⟩
    · exact .inr ⟨e,hr⟩

/-- How a routing that neither hands the message over nor raises ends. -/
inductive Fate where
  | lost
  | buffered
  deriving DecidableEq

/-- `route` gets as far as the statement that buffers the packet. -/
def bufferable (L : Lib) (pkt : Packet) : Bool :=
  pkt.id.slice.isOk && (serializePacket L pkt).isOk &&
    match SqlText.ofVal L.realText pkt.id with
    | .ok (some _) => true
    | _ => false

namespace Env

/-- What is left when `send_to` answers `False`: no entry, or one whose socket
is closed and which is then removed. -/
def afterSendTo (env : Env) (self : Node L) (w : World) (nodeId : String) (pkt : Packet) :
    Option (World × Packet) :=
  match w.state.connections.get nodeId with
  | none => some (⟨w.state,w.step+1⟩,pkt)
  | some conn =>
    match Transport.wireForm self pkt with
    | .error _ => none
    | .ok (signed,frame) =>
      match env.wsSend (w.step+1) conn frame with
      | .error .connectionClosed =>
        some (⟨{ w.state with connections := w.state.connections.remove nodeId },w.step+3⟩,signed)
      | _ => none

theorem run_sendTo (env : Env) (self : Node L) (w : World) (nodeId : String) (pkt : Packet) :
    Attempt (env.afterSendTo self w nodeId pkt)
      (run env.handler (Transport.sendTo self nodeId pkt) w) := by
  unfold afterSendTo Transport.sendTo
  cases hg : w.state.connections.get nodeId with
  | none => constructor <;> simp [run_ask,handler,hg,World.next,HandedOver,handsOver]
  | some conn =>
    cases hw : Transport.wireForm self pkt with
    | error e => exact .inr ⟨e,by simp [run_ask,handler,hg]⟩
    | ok x =>
      obtain ⟨signed,frame⟩ := x
      cases hs : env.wsSend (w.step+1) conn frame with
      | ok u =>
        simp only [hs]
        exact .inl ⟨signed,by simp [run_ask,handler,hg,World.next,hs],
          by simp [run_ask,handler,hg,World.next,hs,HandedOver,handsOver]⟩
      | error e =>
        cases e with
        | connectionClosed =>
          simp only [hs]
          constructor <;> simp [run_ask,handler,hg,World.next,hs,HandedOver,handsOver]
        | _ =>
          simp only [hs]
          exact .inr ⟨_,by simp [run_ask,handler,hg,World.next,hs]; rfl⟩

/-- What is left when the `try` block of `_send_to_node` ends in `False`. -/
def afterDial (env : Env) (self : Node L) (w : World) (nodeId : String) (address : Val)
    (pkt : Packet) : Option (World × Packet) :=
  match env.dial w.step (some nodeId) (address.pyStr L.repr) with
  | .error _ => some (⟨w.state,w.step+1⟩,pkt)
  | .ok conn =>
    let state := { w.state with connections := w.state.connections.add conn }
    match Transport.sign self pkt with
    | .error _ => some (⟨state,w.step+3⟩,pkt)
    | .ok signed =>
      match pack L signed with
      | .error _ => some (⟨state,w.step+3⟩,signed)
      | .ok frame =>
        match env.wsSend (w.step+3) conn frame with
        | .ok _ => none
        | .error _ => some (⟨state,w.step+4⟩,signed)

theorem run_dialAndSend (env : Env) (self : Node L) (w : World) (nodeId : String)
    (address : Val) (pkt : Packet) :
    Attempt (env.afterDial self w nodeId address pkt)
      (run env.handler (Router.dialAndSend self nodeId address pkt) w) := by
  unfold afterDial Router.dialAndSend Transport.connectToNode
  cases hd : env.dial w.step (some nodeId) (address.pyStr L.repr) with
  | error e => constructor <;> simp [run_ask,handler,hd,World.next,HandedOver,handsOver]
  | ok conn =>
    cases hs : Transport.sign self pkt with
    | error e => constructor <;> simp [run_ask,handler,hd,World.next,HandedOver,handsOver]
    | ok signed =>
      cases hp : pack L signed with
      | error e =>
        simp only [hp]
        constructor <;> simp [run_ask,handler,hd,World.next,HandedOver,handsOver]
      | ok frame =>
        cases hw : env.wsSend (w.step+3) conn frame with
        | error e =>
          simp only [hp,hw]
          constructor <;> simp [run_ask,handler,hd,World.next,HandedOver,handsOver,hw]
        | ok u =>
          simp only [hp,hw]
          exact .inl ⟨signed,by simp [run_ask,handler,hd,World.next,hw],
            by simp [run_ask,handler,hd,World.next,HandedOver,handsOver,hw]⟩

/-- What is left when a remote node cannot be reached. -/
def afterRemote (env : Env) (self : Node L) (w : World) (nodeId : String) (pkt : Packet) :
    Option (World × Packet) :=
  match env.afterSendTo self w nodeId pkt with
  | none => none
  | some (w1,pkt1) =>
    match w1.state.storage.nodeTable.find (.text nodeId) with
    | none => some (⟨w1.state,w1.step+1⟩,pkt1)
    | some entry =>
      if entry.status ≠ "online" then some (⟨w1.state,w1.step+1⟩,pkt1)
      else env.afterDial self ⟨w1.state,w1.step+1⟩ nodeId entry.address.toVal pkt1

theorem run_sendToNode_remote (env : Env) (self : Node L) (w : World) {nodeId : String}
    (hne : nodeId ≠ self.id) (pkt : Packet) :
    Attempt (env.afterRemote self w nodeId pkt)
      (run env.handler (Router.sendToNode self nodeId pkt) w) := by
  have hs := run_sendTo env self w nodeId pkt
  unfold Router.sendToNode afterRemote
  rw [if_neg hne]
  cases ha : env.afterSendTo self w nodeId pkt with
  | none =>
    rw [ha] at hs
    exact Attempt.done hs (fun _ => rfl)
  | some x =>
    obtain ⟨w1,pkt1⟩ := x
    rw [ha] at hs
    refine Attempt.after hs ?_
    cases hn : w1.state.storage.nodeTable.find (.text nodeId) with
    | none =>
      simp only [hn]
      constructor <;> simp [Storage.getNode,SqlText.ofVal,run_ask,handler,Storage.exec,hn,
        World.next,HandedOver,handsOver]
    | some entry =>
      simp only [hn]
      refine Attempt.ask (q := .store (.getNode (.text nodeId))) rfl ?_
      simp only [handler,Storage.exec,hn,World.next]
      rw [Prog.bind_ret]
      by_cases hst : entry.status ≠ "online"
      · simp only [if_pos hst]
        constructor <;> simp [HandedOver]
      · simp only [if_neg hst]
        exact run_dialAndSend env self ⟨w1.state,w1.step+1⟩ nodeId entry.address.toVal pkt1

/-- Delivery on this node: without a callback, and without an open connection of
the cell, the message is lost. -/
def localFate (env : Env) (self : Node L) (w : World) (pkt : Packet) : Option Fate :=
  match parseAddr pkt.toAddr with
  | .error _ => none
  | .ok (cellId,_) =>
    let refused := match cellId with
      | none => true
      | some cellId => cellId == "" || (env.afterSendTo self w cellId pkt).isSome
    if refused && !self.onMessage then some .lost else none

def homeFate (env : Env) (self : Node L) (w : World) (home : String) (pkt : Packet) :
    Option Fate :=
  if home = self.id then env.localFate self w pkt
  else match env.afterRemote self w home pkt with
    | none => none
    | some (_,pkt1) => if bufferable L pkt1 then some .buffered else none

def presenceFate (env : Env) (self : Node L) (w : World) (presence : PresenceEntry)
    (pkt : Packet) : Option Fate :=
  match Router.visiting presence with
  | none => env.homeFate self w presence.homeNodeId pkt
  | some nodeId =>
    if nodeId = self.id then env.localFate self w pkt
    else match env.afterRemote self w nodeId pkt with
      | none => none
      | some (w1,pkt1) => env.homeFate self w1 presence.homeNodeId pkt1

/-- What becomes of a message routed in world `w`, if it is neither handed over
nor the routing raises. -/
def fate (env : Env) (self : Node L) (w : World) (pkt : Packet) : Option Fate :=
  match parseAddr pkt.toAddr with
  | .error _ => none
  | .ok (none,nodeId) =>
    if nodeId = self.id then env.localFate self w pkt
    else if (env.afterRemote self w nodeId pkt).isSome then some .lost else none
  | .ok (some cellId,_) =>
    match w.state.storage.presenceTable.find cellId with
    | some presence => env.presenceFate self ⟨w.state,w.step+1⟩ presence pkt
    | none =>
      if (w.state.storage.cells.find cellId).isSome then
        env.localFate self ⟨w.state,w.step+2⟩ pkt
      else some .lost

end Env

theorem storage_of_forwards {self : Node L} {pkt : Packet} {α : Type} {p : NodeProg α}
    {post : α → Prop} (hp : Obeys (Router.Forwards self pkt) (fun _ _ => True) post p)
    (env : Env) (w : World) : (run env.handler p w).final.state.storage = w.state.storage := by
  refine hp.run_inv env.handler (fun w' => w'.state.storage = w.state.storage) ?_ rfl
  intro q w' hq hw
  refine ⟨trivial,?_⟩
  cases q with
  | store op => cases op <;> first | exact hq.elim | exact hw
  | _ => first | exact hq.elim | exact hw

/-- The statement that buffers `pkt` for `cellId` turned `s` into `s'`. -/
def Buffering (L : Lib) (pkt : Packet) (cellId : String) (s s' : Storage) : Prop :=
  ∃ k now home p payload, SqlText.ofVal L.realText pkt.id = .ok (some k) ∧ Resigned pkt p ∧
    serializePacket L p = .ok payload ∧ s' = s.bufferMessage now k cellId home payload

/-- A routing with the given fate, started when the storage was `s`. -/
def Came (L : Lib) (pkt : Packet) (s : Storage) (r : Run Req Ans Err Unit World) :
    Option Fate → Prop
  | none => r.final.state.storage = s ∧
      ((r.result = .ok () ∧ HandedOver r.trace) ∨ ∃ e, r.result = .error e)
  | some .lost => r.final.state.storage = s ∧ r.result = .ok () ∧ ¬ HandedOver r.trace
  | some .buffered => r.result = .ok () ∧ ¬ HandedOver r.trace ∧
      ∃ cellId n, parseAddr pkt.toAddr = .ok (some cellId,n) ∧
        Buffering L pkt cellId s r.final.state.storage

theorem Came.ok_iff {pkt : Packet} {s : Storage} {r : Run Req Ans Err Unit World}
    {o : Option Fate} (h : Came L pkt s r o) :
    (r.result = .ok () ∧ ¬ HandedOver r.trace) ↔ o ≠ none := by
  cases o with
  | none =>
    rcases h with ⟨_,⟨hr,ht⟩ | ⟨e,he⟩⟩
    · simp [ht]
    · simp [he]
  | some f =>
    cases f with
    | lost => simp [h.2.1,h.2.2]
    | buffered => simp [h.1,h.2.1]

/-- What comes after a part that handed nothing over and left the storage alone. -/
theorem Came.prepend {pkt : Packet} {s : Storage} {r : Run Req Ans Err Unit World}
    {tr : List (Exchange Req Ans)} {o : Option Fate} (ht : ¬ HandedOver tr)
    (h : Came L pkt s r o) : Came L pkt s ⟨r.result,tr ++ r.trace,r.final⟩ o := by
  cases o with
  | none => simpa [Came,not_handedOver_append ht] using h
  | some f => cases f <;> simpa [Came,not_handedOver_append ht] using h

theorem came_ask {q : Req} {k : Ans q → NodeProg Unit} {env : Env} {w : World} {pkt : Packet}
    {s : Storage} {o : Option Fate} (hq : handsOver ⟨q,(env.handler q w).1⟩ = false)
    (h : Came L pkt s (run env.handler (k (env.handler q w).1) (env.handler q w).2) o) :
    Came L pkt s (run env.handler (.ask q k) w) o := by
  have hone : ¬ HandedOver [⟨q,(env.handler q w).1⟩] := by simp [HandedOver,hq]
  exact h.prepend hone

theorem came_attempt {self : Node L} {p : NodeProg (Bool × Packet)}
    {f : Bool × Packet → NodeProg Unit} {env : Env} {w : World} {pkt : Packet}
    {a : Option (World × Packet)} {o : Option Fate}
    (hfw : Obeys (Router.Forwards self pkt) (fun _ _ => True) (fun r => Resigned pkt r.2) p)
    (ha : Attempt a (run env.handler p w)) (hf : ∀ p1, f (true,p1) = .ret ())
    (hdone : a = none → o = none)
    (hgo : ∀ w1 p1, a = some (w1,p1) → Resigned pkt p1 →
      w1.state.storage = w.state.storage →
      Came L pkt w.state.storage (run env.handler (f (false,p1)) w1) o) :
    Came L pkt w.state.storage (run env.handler (p.bind f) w) o := by
  have hstore := storage_of_forwards hfw env w
  cases a with
  | none =>
    rw [hdone rfl]
    rcases ha with ⟨p1,hr,ht⟩ | ⟨e,hr⟩
    · rw [run_bind_ok hr,hf]
      exact ⟨hstore,.inl ⟨rfl,by simpa using ht⟩⟩
    · rw [run_bind_error hr]
      exact ⟨hstore,.inr ⟨e,rfl⟩⟩
  | some x =>
    obtain ⟨w1,p1⟩ := x
    have hrefused : Refused (run env.handler p w) w1 p1 := ha
    rw [hrefused.final] at hstore
    rw [run_bind_ok hrefused.result,hrefused.final]
    exact (hgo w1 p1 rfl (hfw.run_post hrefused.result) hstore).prepend hrefused.trace

theorem came_deliverLocal (env : Env) (self : Node L) (w : World) {pkt p : Packet}
    (hp : Resigned pkt p) :
    Came L pkt w.state.storage (run env.handler (Router.deliverLocal self p) w)
      (env.localFate self w p) := by
  have hrest : ∀ (p1 : Packet) (w1 : World), w1.state.storage = w.state.storage →
      Came L pkt w.state.storage (run env.handler (if self.onMessage then NodeProg.onMessage p1
        else (.ret () : NodeProg Unit)) w1)
        (if self.onMessage = false then some .lost else none) := by
    intro p1 w1 hw
    by_cases hm : self.onMessage = true
    · rw [if_pos hm,if_neg (by simp [hm])]
      cases hc : env.onMessage w1.step p1 with
      | error e =>
        refine ⟨?_,.inr ⟨e,?_⟩⟩
        · simpa [run_ask,Env.handler,hc,World.next] using hw
        · simp [run_ask,Env.handler,hc]
      | ok u =>
        refine ⟨?_,.inl ⟨?_,?_⟩⟩
        · simpa [run_ask,Env.handler,hc,World.next] using hw
        · simp [run_ask,Env.handler,hc]
        · simp [run_ask,Env.handler,hc,HandedOver,handsOver]
    · rw [if_neg hm,if_pos (by simpa using hm)]
      exact ⟨hw,rfl,by simp [HandedOver]⟩
  unfold Router.deliverLocal Env.localFate
  cases ha : parseAddr p.toAddr with
  | error e => exact ⟨rfl,.inr ⟨e,rfl⟩⟩
  | ok x =>
    obtain ⟨cellId,n⟩ := x
    cases cellId with
    | none => simpa using hrest p w rfl
    | some cellId =>
      simp only [Prog.ofExcept_ok,Prog.bind_eq,Prog.bind_ret]
      by_cases hc : cellId = ""
      · simpa [hc] using hrest p w rfl
      · simp only [if_neg hc]
        refine came_attempt (Router.sendTo_forwards pkt cellId hp)
          (env.run_sendTo self w cellId p) (fun _ => rfl) ?_ ?_
        · intro ha
          simp [ha,hc]
        · intro w1 p1 ha _ hw
          simpa [ha] using hrest p1 w1 hw

theorem came_bufferFor (env : Env) {w : World} {pkt p : Packet} {cellId n : String}
    (home : String) (ha : parseAddr pkt.toAddr = .ok (some cellId,n)) (hp : Resigned pkt p)
    {s : Storage} (hw : w.state.storage = s) :
    Came L pkt s (run env.handler (Router.bufferFor L cellId home p) w)
      (if bufferable L p then some .buffered else none) := by
  have hid := hp.id
  unfold Router.bufferFor bufferable
  cases hs : p.id.slice with
  | error e => exact ⟨hw,.inr ⟨e,rfl⟩⟩
  | ok _ =>
    cases hser : serializePacket L p with
    | error e => exact ⟨hw,.inr ⟨e,rfl⟩⟩
    | ok payload =>
      cases hk : SqlText.ofVal L.realText p.id with
      | error e => exact ⟨hw,.inr ⟨e,rfl⟩⟩
      | ok k =>
        cases k with
        | none => exact ⟨hw,.inr ⟨.sqlError,rfl⟩⟩
        | some k =>
          rw [hid] at hk
          refine ⟨rfl,by simp [run_ask,HandedOver,handsOver],cellId,n,ha,k,env.now w.step,home,
            p,payload,hk,hp,hser,?_⟩
          rw [← hw]
          rfl

theorem came_sendToNode_self (env : Env) (self : Node L) (w : World) {pkt p : Packet}
    (hp : Resigned pkt p) {f : Bool × Packet → NodeProg Unit} (hf : f (true,p) = .ret ()) :
    Came L pkt w.state.storage (run env.handler ((Router.sendToNode self self.id p).bind f) w)
      (env.localFate self w p) := by
  have hrun : run env.handler ((Router.sendToNode self self.id p).bind f) w =
      run env.handler (Router.deliverLocal self p) w := by
    unfold Router.sendToNode
    rw [if_pos rfl,Prog.bind_eq,Prog.bind_assoc,run_bind]
    simp only [Prog.pure_eq,Prog.bind_ret,hf,run_ret,List.append_nil]
    cases hl : (run env.handler (Router.deliverLocal self p) w).result with
    | error e => simp [← hl]
    | ok u => simp [← hl]
  rw [hrun]
  exact came_deliverLocal env self w hp

theorem came_tryHome (env : Env) (self : Node L) (w : World) {pkt p : Packet}
    {cellId n : String} (home : String) (ha : parseAddr pkt.toAddr = .ok (some cellId,n))
    (hp : Resigned pkt p) :
    Came L pkt w.state.storage (run env.handler (Router.tryHome self cellId home p) w)
      (env.homeFate self w home p) := by
  unfold Router.tryHome Env.homeFate
  by_cases hid : home = self.id
  · subst hid
    rw [if_pos rfl]
    exact came_sendToNode_self env self w hp rfl
  · rw [if_neg hid]
    refine came_attempt (Router.sendToNode_forwards pkt home hp)
      (env.run_sendToNode_remote self w hid p) (fun _ => rfl) ?_ ?_
    · intro ho
      simp [ho]
    · intro w1 p1 ho hp1 hw
      simpa [ho] using came_bufferFor env home ha hp1 hw

theorem came_tryPresence (env : Env) (self : Node L) (w : World) {pkt : Packet}
    {cellId n : String} (presence : PresenceEntry)
    (ha : parseAddr pkt.toAddr = .ok (some cellId,n)) :
    Came L pkt w.state.storage (run env.handler (Router.tryPresence self cellId presence pkt) w)
      (env.presenceFate self w presence pkt) := by
  unfold Router.tryPresence Env.presenceFate
  cases hv : Router.visiting presence with
  | none => exact came_tryHome env self w presence.homeNodeId ha (.refl pkt)
  | some nodeId =>
    by_cases hn : nodeId = self.id
    · subst hn
      simp only [if_true]
      exact came_sendToNode_self env self w (.refl pkt) rfl
    · simp only [if_neg hn]
      refine came_attempt (Router.sendToNode_forwards pkt nodeId (.refl pkt))
        (env.run_sendToNode_remote self w hn pkt) (fun _ => rfl) ?_ ?_
      · intro ho
        simp [ho]
      · intro w1 p1 ho hp1 hw
        rw [← hw]
        simpa [ho] using came_tryHome env self w1 presence.homeNodeId ha hp1

/-- Every routing ends as `fate` says. -/
theorem came_route (env : Env) (self : Node L) (w : World) (pkt : Packet) :
    Came L pkt w.state.storage (run env.handler (Router.route self pkt) w)
      (env.fate self w pkt) := by
  unfold Env.fate
  cases ha : parseAddr pkt.toAddr with
  | error e =>
    rw [Router.route_error ha]
    exact ⟨rfl,.inr ⟨e,rfl⟩⟩
  | ok x =>
    obtain ⟨cellId,n⟩ := x
    cases cellId with
    | none =>
      rw [Router.route_node ha]
      by_cases hn : n = self.id
      · subst hn
        simp only [if_true]
        exact came_sendToNode_self env self w (.refl pkt) rfl
      · simp only [if_neg hn]
        refine came_attempt (Router.sendToNode_forwards pkt n (.refl pkt))
          (env.run_sendToNode_remote self w hn pkt) (fun _ => rfl) ?_ ?_
        · intro ho
          simp [ho]
        · intro w1 p1 ho _ hw
          simpa [ho,Came,HandedOver] using hw
    | some cellId =>
      rw [Router.route_cell ha]
      refine came_ask rfl ?_
      cases hp : w.state.storage.presenceTable.find cellId with
      | some presence =>
        simp only [Env.handler,Storage.exec,World.next,hp]
        exact came_tryPresence env self ⟨w.state,w.step+1⟩ presence ha
      | none =>
        simp only [Env.handler,Storage.exec,World.next,hp]
        refine came_ask rfl ?_
        cases hc : w.state.storage.cells.find cellId with
        | some cell =>
          simp only [Env.handler,Storage.exec,World.next,hc]
          exact came_deliverLocal env self ⟨w.state,w.step+2⟩ (.refl pkt)
        | none =>
          simp only [Env.handler,Storage.exec,World.next,hc]
          exact ⟨rfl,rfl,by simp [HandedOver]⟩

/-- The packet was sent signed by this node on a connection, or taken by the
callback. -/
def Handed (self : Node L) (pkt : Packet) (tr : List (Exchange Req Ans)) : Prop :=
  (∃ conn frame p, ⟨.wsSend conn frame,.ok ()⟩ ∈ tr ∧
    Transport.wireForm self pkt = .ok (p,frame)) ∨
  ∃ p, ⟨.onMessage p,.ok ()⟩ ∈ tr ∧ Resigned pkt p

/-- The buffer has a row with the packet's id and recipient that holds the
packet's serialization. -/
def BufferedIn (L : Lib) (pkt : Packet) (cellId : String) (s : Storage) : Prop :=
  ∃ row ∈ s.messageBuffer.rows, SqlText.ofVal L.realText pkt.id = .ok (some row.messageId) ∧
    row.toCell = cellId ∧ ∃ p, Resigned pkt p ∧ serializePacket L p = .ok row.payload

/-- No row of the buffer uses the packet's id. -/
def Unbuffered (L : Lib) (pkt : Packet) (s : Storage) : Prop :=
  ∀ k, SqlText.ofVal L.realText pkt.id = .ok (some k) → s.messageBuffer.find k = none

theorem Unbuffered.not_bufferedIn {pkt : Packet} {cellId : String} {s : Storage}
    (h : Unbuffered L pkt s) : ¬ BufferedIn L pkt cellId s := by
  rintro ⟨row,hrow,hid,_⟩
  exact (s.messageBuffer.find_eq_none.mp (h _ hid)) row hrow rfl

theorem Buffering.bufferedIn {pkt : Packet} {cellId : String} {s s' : Storage}
    (h : Buffering L pkt cellId s s') (hfresh : Unbuffered L pkt s) :
    BufferedIn L pkt cellId s' := by
  obtain ⟨k,now,home,p,payload,hk,hp,hser,rfl⟩ := h
  have hrow := s.messageBuffer.rows_insertIgnore
    (r := ⟨k,cellId,home,payload,now,now + ttlMessageSecs⟩) (hfresh k hk)
  exact ⟨⟨k,cellId,home,payload,now,now + ttlMessageSecs⟩,
    by simp [Storage.bufferMessage,hrow],hk,rfl,p,hp,hser⟩

theorem handed_iff (env : Env) (self : Node L) (w : World) (pkt : Packet) :
    Handed self pkt (run env.handler (Router.route self pkt) w).trace ↔
      HandedOver (run env.handler (Router.route self pkt) w).trace := by
  have hroute : Obeys (Router.Allowed self pkt) (fun _ _ => True) (fun _ => True)
      (Router.route self pkt) := Router.route_allowed pkt
  have hall := (hroute.path (run_path env.handler _ w) (fun _ _ => trivial)).1
  unfold HandedOver
  rw [List.any_eq_true]
  constructor
  · rintro (⟨conn,frame,p,he,_⟩ | ⟨p,he,_⟩)
    · exact ⟨_,he,rfl⟩
    · exact ⟨_,he,rfl⟩
  · rintro ⟨⟨q,a⟩,he,hq⟩
    have hg := hall _ he
    cases q with
    | wsSend conn frame =>
      cases a with
      | error e => simp [handsOver] at hq
      | ok u =>
        rcases hg with ⟨p,hp⟩ | hb
        · exact .inl ⟨conn,frame,p,he,hp⟩
        · exact hb.elim
    | onMessage p =>
      cases a with
      | error e => simp [handsOver] at hq
      | ok u =>
        rcases hg with hp | hb
        · exact .inr ⟨p,he,hp⟩
        · exact hb.elim
    | _ => simp [handsOver] at hq

/-- The message is accounted for: handed over, or in the buffer. -/
def Kept (self : Node L) (pkt : Packet) (cellId : String) (r : Run Req Ans Err Unit World) :
    Prop := Handed self pkt r.trace ∨ BufferedIn L pkt cellId r.final.state.storage

/-- Routing a message for a cell keeps it, unless the last place tried is this
very node and the delivery here loses it. -/
theorem route_keeps_iff (env : Env) (self : Node L) (w : World) (pkt : Packet)
    {cellId n : String} (ha : parseAddr pkt.toAddr = .ok (some cellId,n))
    (hfresh : Unbuffered L pkt w.state.storage)
    (hret : (run env.handler (Router.route self pkt) w).result = .ok ()) :
    Kept self pkt cellId (run env.handler (Router.route self pkt) w) ↔
      env.fate self w pkt ≠ some .lost := by
  have hcame := came_route env self w pkt
  rw [Kept,handed_iff]
  cases hf : env.fate self w pkt with
  | none =>
    rw [hf] at hcame
    rcases hcame with ⟨_,⟨_,ht⟩ | ⟨e,he⟩⟩
    · simp [ht]
    · rw [hret] at he
      simp at he
  | some o =>
    rw [hf] at hcame
    cases o with
    | lost =>
      obtain ⟨hs,_,ht⟩ := hcame
      rw [hs]
      simp [ht,hfresh.not_bufferedIn]
    | buffered =>
      obtain ⟨_,_,c,n',hc,hb⟩ := hcame
      rw [ha] at hc
      simp only [Except.ok.injEq,Prod.mk.injEq,Option.some.injEq] at hc
      obtain ⟨rfl,_⟩ := hc
      simp [hb.bufferedIn hfresh]

/-- Sockets work, dialling does not, the callback never raises. -/
def calmEnv : Env where
  now := fun t => t
  stamp := fun t => ⟨"id",t⟩
  wsSend := fun _ _ _ => .ok ()
  dial := fun _ _ _ => .error (.other "unreachable")
  onMessage := fun _ _ => .ok ()

/-- A node which is the home of cell `c`, and `c` is offline. -/
def homeWorld (home : String) : World :=
  ⟨⟨Storage.empty.updatePresence 0 "c" home none,ConnectionRegistry.empty⟩,0⟩

def samplePacket (toAddr : String) : Packet :=
  { type := .str T.msg, payload := .bin [1,2], id := .str "m", fromAddr := .str "a@n",
    toAddr := .str toAddr, ts := .int 5 }

theorem unbuffered_homeWorld (home : String) :
    Unbuffered shortSigLib (samplePacket "c@n") (homeWorld home).state.storage := by
  intro k _
  rfl

theorem route_keeps_sample :
    Kept (sampleNode false) (samplePacket "c@n") "c"
      (run calmEnv.handler (Router.route (sampleNode false) (samplePacket "c@n"))
        (homeWorld "ghost")) := by
  refine (route_keeps_iff calmEnv (sampleNode false) (homeWorld "ghost") (samplePacket "c@n")
    (n := "n") (by decide +kernel) (unbuffered_homeWorld "ghost") (by decide +kernel)).mpr ?_
  decide +kernel

/-- The home of an offline cell drops its messages. -/
theorem route_drops :
    parseAddr (samplePacket "c@n").toAddr = .ok (some "c","n") ∧
    ((homeWorld (sampleNode false).id).state.storage.presenceTable.find "c").isSome = true ∧
    Unbuffered shortSigLib (samplePacket "c@n")
      (homeWorld (sampleNode false).id).state.storage ∧
    (run calmEnv.handler (Router.route (sampleNode false) (samplePacket "c@n"))
      (homeWorld (sampleNode false).id)).result = .ok () ∧
    ¬ Kept (sampleNode false) (samplePacket "c@n") "c"
      (run calmEnv.handler (Router.route (sampleNode false) (samplePacket "c@n"))
        (homeWorld (sampleNode false).id)) := by
  refine ⟨by decide +kernel,by decide +kernel,unbuffered_homeWorld _,by decide +kernel,?_⟩
  have ht : (run calmEnv.handler (Router.route (sampleNode false) (samplePacket "c@n"))
      (homeWorld (sampleNode false).id)).trace.any handsOver = false := by decide +kernel
  have hs : (run calmEnv.handler (Router.route (sampleNode false) (samplePacket "c@n"))
      (homeWorld (sampleNode false).id)).final.state.storage.messageBuffer.rows = [] := by
    decide +kernel
  rw [Kept,handed_iff]
  rintro (h | ⟨row,hrow,_⟩)
  · rw [HandedOver,ht] at h
    simp at h
  · rw [hs] at hrow
    simp at hrow

end Nevod
