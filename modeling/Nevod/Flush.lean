import Nevod.Routing

/-!
Flushing the buffer. The loop routes one row after the other and deletes each
row once its routing has returned, whatever became of the message.
-/

set_option autoImplicit false

namespace Nevod
open Text Resume Keyed

variable {L : Lib}

/-- The rows of the message buffer. -/
def World.buffer (w : World) : List BufferedMessage := w.state.storage.messageBuffer.rows

/-- The round of row `r` in the loop over `rows` is reached, in world `v`. -/
def Reached (env : Env) (self : Node L) (rows : List BufferedMessage) (w : World)
    (r : BufferedMessage) (v : World) : Prop :=
  ∃ pre post, rows = pre ++ r :: post ∧
    (run env.handler (Prog.forEach pre (Router.flushMessage self)) w).result = .ok () ∧
    (run env.handler (Prog.forEach pre (Router.flushMessage self)) w).final = v

/-- The round of row `r` hands its message over. -/
def HandedInRound (env : Env) (self : Node L) (rows : List BufferedMessage) (w : World)
    (r : BufferedMessage) : Prop :=
  ∃ v pkt, Reached env self rows w r v ∧ deserializePacket L r.payload = some pkt ∧
    Handed self pkt (run env.handler (Router.route self pkt) v).trace

/-- Every round that is reached either hands its message over or raises. -/
def AllSettled (env : Env) (self : Node L) (rows : List BufferedMessage) (w : World) : Prop :=
  ∀ r v pkt, Reached env self rows w r v → deserializePacket L r.payload = some pkt →
    env.fate self v pkt = none

section Rounds

variable {env : Env} {self : Node L} {rows : List BufferedMessage} {w : World}
  {m r : BufferedMessage} {v : World}

theorem reached_nil : ¬ Reached env self [] w r v := by
  rintro ⟨pre,post,h,_⟩
  simp at h

theorem reached_cons :
    Reached env self (m :: rows) w r v ↔ (r = m ∧ v = w) ∨
      ((run env.handler (Router.flushMessage self m) w).result = .ok () ∧
        Reached env self rows (run env.handler (Router.flushMessage self m) w).final r v) := by
  constructor
  · rintro ⟨pre,post,hrows,hres,hfin⟩
    cases pre with
    | nil =>
      simp only [List.nil_append,List.cons.injEq] at hrows
      simp only [Prog.forEach_nil,run_ret] at hfin
      exact .inl ⟨hrows.1.symm,hfin.symm⟩
    | cons m' pre =>
      simp only [List.cons_append,List.cons.injEq] at hrows
      obtain ⟨rfl,hrows⟩ := hrows
      rw [Prog.forEach_cons] at hres hfin
      cases hm : (run env.handler (Router.flushMessage self m) w).result with
      | error e =>
        rw [run_bind_error hm] at hres
        simp at hres
      | ok u =>
        rw [run_bind_ok hm] at hres hfin
        exact .inr ⟨rfl,pre,post,hrows,hres,hfin⟩
  · rintro (⟨rfl,rfl⟩ | ⟨hm,pre,post,rfl,hres,hfin⟩)
    · exact ⟨[],rows,rfl,rfl,rfl⟩
    · refine ⟨m :: pre,post,rfl,?_,?_⟩
      · rw [Prog.forEach_cons,run_bind_ok hm]
        exact hres
      · rw [Prog.forEach_cons,run_bind_ok hm]
        exact hfin

theorem Reached.mem (h : Reached env self rows w r v) : r ∈ rows := by
  obtain ⟨pre,post,rfl,_⟩ := h
  simp

theorem run_flushMessage_none (hd : deserializePacket L m.payload = none) :
    run env.handler (Router.flushMessage self m) w = ⟨.ok (),[],w⟩ := by
  unfold Router.flushMessage
  rw [hd]
  rfl

theorem run_flushMessage_error {pkt : Packet} {e : Err}
    (hd : deserializePacket L m.payload = some pkt)
    (hr : (run env.handler (Router.route self pkt) w).result = .error e) :
    run env.handler (Router.flushMessage self m) w =
      run env.handler (Router.route self pkt) w := by
  unfold Router.flushMessage
  simp only [hd,Prog.bind_eq]
  rw [run_bind_error hr,← hr]

theorem run_flushMessage_ok {pkt : Packet} (hd : deserializePacket L m.payload = some pkt)
    (hr : (run env.handler (Router.route self pkt) w).result = .ok ()) :
    (run env.handler (Router.flushMessage self m) w).result = .ok () ∧
    ∀ x, x ∈ (run env.handler (Router.flushMessage self m) w).final.buffer ↔
      x ∈ (run env.handler (Router.route self pkt) w).final.buffer ∧
        x.messageId ≠ m.messageId := by
  unfold Router.flushMessage
  simp only [hd,Prog.bind_eq]
  rw [run_bind_ok hr]
  exact ⟨rfl,fun x => Table.mem_delete _ _ _⟩

theorem buffer_eq {u v : World} (h : u.state.storage = v.state.storage) : u.buffer = v.buffer := by
  rw [World.buffer,World.buffer,h]

theorem allowed_keeps {pkt : Packet} {q : Req} (hq : Router.Allowed self pkt q)
    (hr : r ∈ w.buffer) : r ∈ (env.handler q w).2.buffer := by
  cases q with
  | store op =>
    cases op with
    | bufferMessage k c n payload => exact (Table.mem_insertIgnore _ _ _).mpr (.inl hr)
    | getNode k => exact hr
    | getCell k => exact hr
    | getPresence k => exact hr
    | _ => exact hq.elim (fun h => h.elim) (fun h => h.elim)
  | _ => exact hr

theorem flushMessage_keeps (hr : r ∈ w.buffer)
    (hne : r.messageId ≠ m.messageId) :
    r ∈ (run env.handler (Router.flushMessage self m) w).final.buffer := by
  have hobeys : Obeys (fun q => (∃ pkt, Router.Allowed self pkt q) ∨
      q = .store (.deleteBuffered m.messageId)) (fun _ _ => True) (fun _ => True)
      (Router.flushMessage self m) := by
    unfold Router.flushMessage
    cases hd : deserializePacket L m.payload with
    | none => trivial
    | some pkt =>
      exact ((Router.route_allowed pkt).mono_guard (fun q hq => .inl ⟨pkt,hq⟩)).bind
        (fun _ _ => ⟨.inr rfl,fun _ _ => trivial⟩)
  refine hobeys.run_inv env.handler (fun w => r ∈ w.buffer) ?_ hr
  intro q w' hq hmem
  refine ⟨trivial,?_⟩
  rcases hq with ⟨pkt,hq⟩ | rfl
  · exact allowed_keeps hq hmem
  · simp only [Env.handler,Storage.exec,Storage.deleteBuffered,World.next]
    exact (Table.mem_delete _ _ _).mpr ⟨hmem,hne⟩

theorem flushMessage_settled (hs : ∀ pkt, deserializePacket L m.payload = some pkt →
    env.fate self w pkt = none)
    (hr : r ∈ (run env.handler (Router.flushMessage self m) w).final.buffer) :
    r ∈ w.buffer := by
  cases hd : deserializePacket L m.payload with
  | none =>
    rw [run_flushMessage_none hd] at hr
    exact hr
  | some pkt =>
    have hcame := came_route env self w pkt
    rw [hs pkt hd] at hcame
    obtain ⟨hstore,⟨hok,_⟩ | ⟨e,he⟩⟩ := hcame
    · have hr := (((run_flushMessage_ok hd hok).2 r).mp hr).1
      rwa [buffer_eq hstore] at hr
    · rwa [run_flushMessage_error hd he,buffer_eq hstore] at hr

end Rounds

section Loop

variable {env : Env} {self : Node L}

theorem run_forEach_cons (m : BufferedMessage) (rows : List BufferedMessage) (w : World) :
    (run env.handler (Prog.forEach (m :: rows) (Router.flushMessage self)) w).final =
      match (run env.handler (Router.flushMessage self m) w).result with
      | .ok _ => (run env.handler (Prog.forEach rows (Router.flushMessage self))
          (run env.handler (Router.flushMessage self m) w).final).final
      | .error _ => (run env.handler (Router.flushMessage self m) w).final := by
  rw [Prog.forEach_cons,run_bind]
  cases (run env.handler (Router.flushMessage self m) w).result <;> rfl

theorem flush_keeps_others (rows : List BufferedMessage) (w : World) {r : BufferedMessage}
    (hr : r ∈ w.buffer)
    (hne : ∀ m ∈ rows, r.messageId ≠ m.messageId) :
    r ∈ (run env.handler (Prog.forEach rows (Router.flushMessage self)) w).final.buffer := by
  induction rows generalizing w with
  | nil => exact hr
  | cons m rows ih =>
    have hm : r ∈ (run env.handler (Router.flushMessage self m) w).final.buffer :=
      flushMessage_keeps hr (hne m (by simp))
    rw [run_forEach_cons]
    cases (run env.handler (Router.flushMessage self m) w).result with
    | ok u => exact ih _ hm (fun x hx => hne x (by simp [hx]))
    | error e => exact hm

theorem allSettled_cons {m : BufferedMessage} {rows : List BufferedMessage} {w : World} :
    AllSettled env self (m :: rows) w ↔
      (∀ pkt, deserializePacket L m.payload = some pkt → env.fate self w pkt = none) ∧
      ((run env.handler (Router.flushMessage self m) w).result = .ok () →
        AllSettled env self rows (run env.handler (Router.flushMessage self m) w).final) := by
  constructor
  · intro h
    refine ⟨fun pkt hd => h m w pkt (reached_cons.mpr (.inl ⟨rfl,rfl⟩)) hd,?_⟩
    exact fun hok r v pkt hr hd => h r v pkt (reached_cons.mpr (.inr ⟨hok,hr⟩)) hd
  · rintro ⟨hm,hrest⟩ r v pkt hr hd
    rcases reached_cons.mp hr with ⟨rfl,rfl⟩ | ⟨hok,hr⟩
    · exact hm pkt hd
    · exact hrest hok r v pkt hr hd

theorem handedInRound_cons {m r : BufferedMessage} {rows : List BufferedMessage} {w : World} :
    HandedInRound env self (m :: rows) w r ↔
      (r = m ∧ ∃ pkt, deserializePacket L m.payload = some pkt ∧
        Handed self pkt (run env.handler (Router.route self pkt) w).trace) ∨
      ((run env.handler (Router.flushMessage self m) w).result = .ok () ∧
        HandedInRound env self rows (run env.handler (Router.flushMessage self m) w).final r) := by
  constructor
  · rintro ⟨v,pkt,hr,hd,hh⟩
    rcases reached_cons.mp hr with ⟨rfl,rfl⟩ | ⟨hok,hr⟩
    · exact .inl ⟨rfl,pkt,hd,hh⟩
    · exact .inr ⟨hok,v,pkt,hr,hd,hh⟩
  · rintro (⟨rfl,pkt,hd,hh⟩ | ⟨hok,v,pkt,hr,hd,hh⟩)
    · exact ⟨w,pkt,reached_cons.mpr (.inl ⟨rfl,rfl⟩),hd,hh⟩
    · exact ⟨v,pkt,reached_cons.mpr (.inr ⟨hok,hr⟩),hd,hh⟩

theorem flush_settled (rows : List BufferedMessage) (w : World)
    (hs : AllSettled env self rows w) {r : BufferedMessage}
    (hr : r ∈ (run env.handler (Prog.forEach rows (Router.flushMessage self)) w).final.buffer) :
    r ∈ w.buffer := by
  induction rows generalizing w with
  | nil => exact hr
  | cons m rows ih =>
    obtain ⟨hm,hrest⟩ := allSettled_cons.mp hs
    rw [run_forEach_cons] at hr
    cases hres : (run env.handler (Router.flushMessage self m) w).result with
    | ok u =>
      rw [hres] at hr
      exact flushMessage_settled hm (ih _ (hrest hres) hr)
    | error e =>
      rw [hres] at hr
      exact flushMessage_settled hm hr

/-- Settled rounds lose nothing: what is not handed over stays. -/
theorem flush_accounts (rows : List BufferedMessage) (w : World)
    (hs : AllSettled env self rows w) (hkeys : (rows.map BufferedMessage.messageId).Nodup)
    {r : BufferedMessage} (hr : r ∈ rows) (hbuf : r ∈ w.buffer) :
    HandedInRound env self rows w r ∨
      r ∈ (run env.handler (Prog.forEach rows (Router.flushMessage self)) w).final.buffer := by
  induction rows generalizing w with
  | nil => simp at hr
  | cons m rows ih =>
    obtain ⟨hm,hrest⟩ := allSettled_cons.mp hs
    rw [List.map_cons,List.nodup_cons] at hkeys
    have hkey : ∀ x ∈ rows, x.messageId ≠ m.messageId := by
      intro x hx he
      exact hkeys.1 (he ▸ List.mem_map_of_mem hx)
    rw [handedInRound_cons,run_forEach_cons]
    rcases List.mem_cons.mp hr with rfl | hr
    · cases hd : deserializePacket L r.payload with
      | none =>
        rw [run_flushMessage_none hd]
        exact .inr (flush_keeps_others rows w hbuf (fun x hx => (hkey x hx).symm))
      | some pkt =>
        have hcame := came_route env self w pkt
        rw [hm pkt hd] at hcame
        obtain ⟨hstore,⟨_,ht⟩ | ⟨e,he⟩⟩ := hcame
        · exact .inl (.inl ⟨rfl,pkt,rfl,(handed_iff env self w pkt).mpr ht⟩)
        · rw [run_flushMessage_error hd he,he]
          exact .inr (by rwa [buffer_eq hstore])
    · have hkept : r ∈ (run env.handler (Router.flushMessage self m) w).final.buffer :=
        flushMessage_keeps hbuf (hkey r hr)
      cases hres : (run env.handler (Router.flushMessage self m) w).result with
      | error e => exact .inr hkept
      | ok u =>
        rcases ih _ (hrest hres) hkeys.2 hr hkept with h | h
        · exact .inl (.inr ⟨rfl,h⟩)
        · exact .inr h

/-- The last round that is not settled loses its message. -/
theorem flush_loses (rows : List BufferedMessage) (w : World)
    (hs : ¬ AllSettled env self rows w) (hkeys : (rows.map BufferedMessage.messageId).Nodup) :
    ∃ r ∈ rows, ¬ HandedInRound env self rows w r ∧
      r ∉ (run env.handler (Prog.forEach rows (Router.flushMessage self)) w).final.buffer := by
  induction rows generalizing w with
  | nil => exact absurd (fun r v pkt hr _ => absurd hr reached_nil) hs
  | cons m rows ih =>
    rw [List.map_cons,List.nodup_cons] at hkeys
    rw [allSettled_cons] at hs
    by_cases hrest : (run env.handler (Router.flushMessage self m) w).result = .ok () →
        AllSettled env self rows (run env.handler (Router.flushMessage self m) w).final
    · -- the rounds after this one are settled, so this is the one
      have hm : ¬ ∀ pkt, deserializePacket L m.payload = some pkt →
          env.fate self w pkt = none := fun hm => hs ⟨hm,hrest⟩
      simp only [not_forall] at hm
      obtain ⟨pkt,hd,hfate⟩ := hm
      obtain ⟨hok,hnot⟩ := (came_route env self w pkt).ok_iff.mpr hfate
      obtain ⟨hres,hdel⟩ := run_flushMessage_ok hd hok
      refine ⟨m,by simp,?_,?_⟩
      · rw [handedInRound_cons]
        rintro (⟨_,pkt',hd',hh⟩ | ⟨_,v,_,hr,_⟩)
        · rw [hd] at hd'
          cases hd'
          exact hnot ((handed_iff env self w pkt).mp hh)
        · exact hkeys.1 (List.mem_map_of_mem hr.mem)
      · rw [run_forEach_cons,hres]
        intro hmem
        have hmem := flush_settled rows _ (hrest hres) hmem
        exact ((hdel m).mp hmem).2 rfl
    · obtain ⟨hres,hrest⟩ := Classical.not_imp.mp hrest
      obtain ⟨r,hr,hh,hgone⟩ := ih _ hrest hkeys.2
      refine ⟨r,by simp [hr],?_,?_⟩
      · rw [handedInRound_cons]
        rintro (⟨rfl,_⟩ | ⟨_,h⟩)
        · exact hkeys.1 (List.mem_map_of_mem hr)
        · exact hh h
      · rw [run_forEach_cons,hres]
        exact hgone

end Loop

/-- The rows of cell `c` that a flush starting in `w` goes over. -/
def dueRows (env : Env) (w : World) (c : String) : List BufferedMessage :=
  w.state.storage.getBuffered (env.now w.step) c

theorem dueRows_nodup (env : Env) (w : World) (c : String) :
    ((dueRows env w c).map BufferedMessage.messageId).Nodup :=
  w.state.storage.messageBuffer.nodup.sublist (List.filter_sublist.map _)

/-- A flush loses no message exactly when every round it reaches hands its
message over or raises. -/
theorem flush_keeps_iff (env : Env) (self : Node L) (w : World) (c : String) :
    (∀ r ∈ w.buffer, r.toCell = c → env.now w.step < r.expiresAt →
      HandedInRound env self (dueRows env w c) ⟨w.state,w.step+1⟩ r ∨
        r ∈ (run env.handler (Router.flushBuffer self c) w).final.buffer) ↔
    AllSettled env self (dueRows env w c) ⟨w.state,w.step+1⟩ := by
  have hrun : (run env.handler (Router.flushBuffer self c) w).final =
      (run env.handler (Prog.forEach (dueRows env w c) (Router.flushMessage self))
        ⟨w.state,w.step+1⟩).final := rfl
  rw [hrun]
  have hdue : ∀ r, r ∈ dueRows env w c ↔ r ∈ w.buffer ∧
      r.toCell = c ∧ env.now w.step < r.expiresAt :=
    w.state.storage.mem_getBuffered (env.now w.step) c
  constructor
  · intro h
    by_contra hs
    obtain ⟨r,hr,hh,hgone⟩ := flush_loses _ _ hs (dueRows_nodup env w c)
    obtain ⟨hmem,hc,hexp⟩ := (hdue r).mp hr
    exact (h r hmem hc hexp).elim hh hgone
  · intro hs r hmem hc hexp
    exact flush_accounts _ ⟨w.state,w.step+1⟩ hs (dueRows_nodup env w c)
      ((hdue r).mpr ⟨hmem,hc,hexp⟩) hmem

/-- One message waits for cell `c`, whose home is `home`. -/
def waitingWorld (home : String) (payload : Bytes) : World :=
  ⟨⟨(Storage.empty.updatePresence 0 "c" home none).bufferMessage 0 (.text "m") "c" home payload,
    ConnectionRegistry.empty⟩,0⟩

def samplePayload : Bytes :=
  match serializePacket shortSigLib (samplePacket "c@n") with
  | .ok payload => payload
  | .error _ => []

/-- The home node cannot be reached: the routing buffers the message again, which
the row still in the buffer makes a no-op, and then that row is deleted. -/
theorem flush_loses_message :
    ∃ r ∈ (waitingWorld "ghost" samplePayload).buffer,
      r.toCell = "c" ∧ calmEnv.now (waitingWorld "ghost" samplePayload).step < r.expiresAt ∧
      (run calmEnv.handler (Router.flushBuffer (sampleNode false) "c")
        (waitingWorld "ghost" samplePayload)).result = .ok () ∧
      (run calmEnv.handler (Router.flushBuffer (sampleNode false) "c")
        (waitingWorld "ghost" samplePayload)).trace.any handsOver = false ∧
      (run calmEnv.handler (Router.flushBuffer (sampleNode false) "c")
        (waitingWorld "ghost" samplePayload)).final.buffer = [] := by
  refine ⟨⟨.text "m","c","ghost",samplePayload,0,ttlMessageSecs⟩,?_,rfl,?_,?_,?_,?_⟩ <;>
    decide +kernel

end Nevod
