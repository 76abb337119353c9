import Nevod.Flush

/-!
How long an undelivered message stays in `message_buffer`, whatever is done with
the buffer and however often a flush fails.
-/

set_option autoImplicit false

namespace Nevod
open Text Resume Keyed

variable {L : Lib}

/-- What is done with the buffer: a flush, or a single request such as
`buffer_message`, `delete_buffered` or `cleanup_expired_messages`. -/
inductive BufferOp where
  | request (q : Req)
  | flush (cellId : String)

namespace BufferOp

def prog (self : Node L) : BufferOp → NodeProg Unit
  | request q => .ask q (fun _ => .ret ())
  | flush cellId => Router.flushBuffer self cellId

/-- The world after the operation, whether or not it raised. -/
def perform (env : Env) (self : Node L) (w : World) (op : BufferOp) : World :=
  (run env.handler (op.prog self) w).final

/-- The requests made by the operations, one after another. -/
def timeline (env : Env) (self : Node L) : World → List BufferOp → List (Req × World)
  | _, [] => []
  | w, op :: ops =>
    moments env.handler (op.prog self) w ++ timeline env self (op.perform env self w) ops

theorem chronicle_timeline (env : Env) (self : Node L) {w0 w : World} {l : List (Req × World)}
    (hc : Chronicle env.handler w0 l w) (ops : List BufferOp) :
    Chronicle env.handler w0 (l ++ timeline env self w ops)
      (ops.foldl (BufferOp.perform env self) w) := by
  induction ops generalizing l w with
  | nil => simpa [timeline] using hc
  | cons op ops ih =>
    have h := ih (hc.run (op.prog self))
    rwa [List.append_assoc] at h

end BufferOp

/-- The only request that enters a row is `buffer_message`, under a new id. -/
theorem buffer_cause {env : Env} {w : World} {q : Req} {r : BufferedMessage}
    (h : r ∈ (env.handler q w).2.buffer) :
    r ∈ w.buffer ∨ ∃ toCell toNode payload,
      q = .store (.bufferMessage r.messageId toCell toNode payload) ∧
      w.state.storage.messageBuffer.find r.messageId = none ∧
      r = ⟨r.messageId,toCell,toNode,payload,env.now w.step,env.now w.step + ttlMessageSecs⟩ := by
  cases q with
  | store op =>
    cases op with
    | bufferMessage k toCell toNode payload =>
      rcases (Table.mem_insertIgnore _ _ _).mp h with h | ⟨rfl,hnone⟩
      · exact .inl h
      · exact .inr ⟨toCell,toNode,payload,rfl,hnone,rfl⟩
    | deleteBuffered k => exact .inl ((Table.mem_delete _ _ _).mp h).1
    | cleanupExpiredMessages => exact .inl ((Table.mem_deleteWhere _ _ _).mp h).1
    | _ => exact .inl h
  | _ => exact .inl h

theorem mem_buffer {w : World} {r : BufferedMessage} :
    r ∈ w.buffer ↔ w.state.storage.messageBuffer.find r.messageId = some r := by
  rw [Table.find_eq_some]
  exact (and_iff_left rfl).symm

/-- The message was inserted at one of the moments, and its row has been there
ever since. -/
def InsertedIn (env : Env) (l : List (Req × World)) (r : BufferedMessage) : Prop :=
  ∃ pre toCell toNode payload w post,
    l = pre ++ (.store (.bufferMessage r.messageId toCell toNode payload),w) :: post ∧
    w.state.storage.messageBuffer.find r.messageId = none ∧
    (∀ m ∈ post, r ∈ m.2.buffer) ∧
    r.createdAt = env.now w.step ∧ r.expiresAt = r.createdAt + ttlMessageSecs

theorem InsertedIn.next {env : Env} {l : List (Req × World)} {r : BufferedMessage}
    (h : InsertedIn env l r) {q : Req} {w : World} (hr : r ∈ w.buffer) :
    InsertedIn env (l ++ [(q,w)]) r := by
  obtain ⟨pre,toCell,toNode,payload,w',post,rfl,hnone,hpost,hcreated,hexpires⟩ := h
  refine ⟨pre,toCell,toNode,payload,w',post ++ [(q,w)],by simp,hnone,?_,hcreated,hexpires⟩
  intro m hm
  rcases List.mem_append.mp hm with hm | hm
  · exact hpost m hm
  · rw [List.mem_singleton.mp hm]
    exact hr

theorem insertedIn_of_chronicle {env : Env} {w0 w : World} {l : List (Req × World)}
    (h0 : w0.buffer = []) (hc : Chronicle env.handler w0 l w) {r : BufferedMessage}
    (hr : r ∈ w.buffer) : InsertedIn env l r := by
  induction hc generalizing r with
  | start =>
    rw [h0] at hr
    cases hr
  | @next q l w hc ih =>
    rcases buffer_cause hr with hold | ⟨toCell,toNode,payload,rfl,hnone,he⟩
    · exact (ih hold).next hold
    · refine ⟨l,toCell,toNode,payload,w,[],rfl,hnone,by simp,?_,?_⟩
      · rw [he]
      · rw [he]

/-- What holds of the buffer when `q` is requested in world `w`, after the
requests `l`. -/
structure Mortal (env : Env) (l : List (Req × World)) (q : Req) (w : World) : Prop where
  expires : ∀ r ∈ w.buffer, r.expiresAt = r.createdAt + ttlMessageSecs
  /-- A row is never rewritten while it exists. -/
  kept : ∀ r ∈ w.buffer, ∀ r' ∈ (env.handler q w).2.buffer, r'.messageId = r.messageId → r' = r
  /-- A message that is selected was inserted, since it was last deleted, less than
  72 hours ago. -/
  selected : ∀ cellId, q = .store (.getBuffered cellId) →
    ∀ r ∈ w.state.storage.getBuffered (env.now w.step) cellId,
      InsertedIn env l r ∧ env.now w.step - ttlMessageSecs < r.createdAt
  /-- A clean-up leaves no row that was created 72 hours ago or earlier. -/
  purged : q = .store .cleanupExpiredMessages →
    ∀ r ∈ (env.handler q w).2.buffer, env.now w.step - ttlMessageSecs < r.createdAt

theorem mortal_of_chronicle {env : Env} {w0 w : World} {l : List (Req × World)}
    (h0 : w0.buffer = []) (hc : Chronicle env.handler w0 l w) (q : Req) : Mortal env l q w := by
  have hexp : ∀ r ∈ w.buffer, r.expiresAt = r.createdAt + ttlMessageSecs := by
    intro r hr
    obtain ⟨_,_,_,_,_,_,_,_,_,_,hexpires⟩ := insertedIn_of_chronicle h0 hc hr
    exact hexpires
  constructor
  · exact hexp
  · intro r hr r' hr' hid
    rcases buffer_cause hr' with hold | ⟨_,_,_,_,hnone,_⟩
    · exact w.state.storage.messageBuffer.eq_of_key_eq hold hr hid
    · rw [hid,mem_buffer.mp hr] at hnone
      cases hnone
  · rintro cellId rfl r hr
    obtain ⟨hmem,_,hlive⟩ := (Storage.mem_getBuffered _ _ _ _).mp hr
    have := hexp r hmem
    exact ⟨insertedIn_of_chronicle h0 hc hmem,by omega⟩
  · rintro rfl r hr
    obtain ⟨hmem,hlive⟩ := (Table.mem_deleteWhere _ _ _).mp hr
    have := hexp r hmem
    simp only [decide_eq_false_iff_not] at hlive
    omega

/-- The id under which the payload is kept is that of the packet in it, as `route`
has it. -/
def Filed (L : Lib) (k : SqlText) (payload : Bytes) : Prop :=
  ∀ pkt, deserializePacket L payload = some pkt → SqlText.ofVal L.realText pkt.id = .ok (some k)

theorem filed_of_buffers (hp : L.PackLaws) {pkt : Packet} {k : SqlText} {toCell toNode : String}
    {payload : Bytes} (h : Router.Buffers L pkt (.store (.bufferMessage k toCell toNode payload))) :
    Filed L k payload := by
  obtain ⟨hk,_,p,⟨s,rfl⟩,hs⟩ := h
  intro pkt' hd
  rw [deserialize_serialize hp hs] at hd
  cases hd
  exact hk

def BufferOp.Filed (L : Lib) : BufferOp → Prop
  | .request (.store (.bufferMessage k _ _ payload)) => Nevod.Filed L k payload
  | _ => True

section Flush

variable {env : Env} {self : Node L}

/-- Buffering the message again while its row exists does nothing, so a round
enters no row. -/
theorem flushMessage_inserts_nothing {m : BufferedMessage} {w : World} (hm : m ∈ w.buffer)
    (hf : Filed L m.messageId m.payload) {r : BufferedMessage}
    (hr : r ∈ (run env.handler (Router.flushMessage self m) w).final.buffer) : r ∈ w.buffer := by
  cases hd : deserializePacket L m.payload with
  | none =>
    rw [run_flushMessage_none hd] at hr
    exact hr
  | some pkt =>
    have hobeys : Obeys (Router.Allowed self pkt) (fun _ _ => True) (fun _ => True)
        (Router.route self pkt) := Router.route_allowed pkt
    have hinv := hobeys.run_inv env.handler
      (fun v => m ∈ v.buffer ∧ ∀ x ∈ v.buffer, x ∈ w.buffer) ?_ ⟨hm,fun x hx => hx⟩
    · cases hres : (run env.handler (Router.route self pkt) w).result with
      | error e =>
        rw [run_flushMessage_error hd hres] at hr
        exact hinv.2 r hr
      | ok u => exact hinv.2 r (((run_flushMessage_ok hd hres).2 r).mp hr).1
    · rintro q v hq ⟨hin,hsub⟩
      refine ⟨trivial,allowed_keeps hq hin,fun x hx => ?_⟩
      rcases buffer_cause hx with hold | ⟨toCell,toNode,payload,rfl,hnone,_⟩
      · exact hsub x hold
      · rcases hq with hq | ⟨hk,_⟩
        · exact hq.elim
        · rw [hf pkt hd] at hk
          simp only [Except.ok.injEq,Option.some.injEq] at hk
          rw [← hk,mem_buffer.mp hin] at hnone
          cases hnone

theorem forEach_inserts_nothing (rows : List BufferedMessage) {w : World}
    (hkeys : (rows.map BufferedMessage.messageId).Nodup) (hrows : ∀ m ∈ rows, m ∈ w.buffer)
    (hf : ∀ m ∈ rows, Filed L m.messageId m.payload) {r : BufferedMessage}
    (hr : r ∈ (run env.handler (Prog.forEach rows (Router.flushMessage self)) w).final.buffer) :
    r ∈ w.buffer := by
  induction rows generalizing w with
  | nil => exact hr
  | cons m rows ih =>
    rw [List.map_cons,List.nodup_cons] at hkeys
    rw [List.forall_mem_cons] at hrows hf
    have hkey : ∀ x ∈ rows, x.messageId ≠ m.messageId :=
      fun x hx he => hkeys.1 (he ▸ List.mem_map_of_mem hx)
    rw [run_forEach_cons] at hr
    cases hres : (run env.handler (Router.flushMessage self m) w).result with
    | ok u =>
      rw [hres] at hr
      have hmid := ih hkeys.2 (fun x hx => flushMessage_keeps (hrows.2 x hx) (hkey x hx)) hf.2 hr
      exact flushMessage_inserts_nothing hrows.1 hf.1 hmid
    | error e =>
      rw [hres] at hr
      exact flushMessage_inserts_nothing hrows.1 hf.1 hr

theorem flush_inserts_nothing {w : World} (hf : ∀ m ∈ w.buffer, Filed L m.messageId m.payload)
    (cellId : String) {r : BufferedMessage}
    (hr : r ∈ (run env.handler (Router.flushBuffer self cellId) w).final.buffer) : r ∈ w.buffer := by
  have hdue : ∀ m ∈ dueRows env w cellId, m ∈ w.buffer :=
    fun m hm => ((Storage.mem_getBuffered _ _ _ _).mp hm).1
  exact forEach_inserts_nothing (dueRows env w cellId) (w := ⟨w.state,w.step+1⟩)
    (dueRows_nodup env w cellId) hdue (fun m hm => hf m (hdue m hm)) hr

end Flush

namespace BufferOp

theorem filed_perform {env : Env} {self : Node L} {op : BufferOp} (hop : op.Filed L) {w : World}
    (hf : ∀ m ∈ w.buffer, Nevod.Filed L m.messageId m.payload) :
    ∀ m ∈ (op.perform env self w).buffer, Nevod.Filed L m.messageId m.payload := by
  intro m hm
  cases op with
  | flush cellId => exact hf m (flush_inserts_nothing hf cellId hm)
  | request q =>
    rcases buffer_cause hm with hold | ⟨toCell,toNode,payload,rfl,_,he⟩
    · exact hf m hold
    · have hpay : m.payload = payload := congrArg BufferedMessage.payload he
      rw [hpay]
      exact hop

theorem filed_foldl {env : Env} {self : Node L} {ops : List BufferOp}
    (hops : ∀ op ∈ ops, op.Filed L) {w : World}
    (hf : ∀ m ∈ w.buffer, Nevod.Filed L m.messageId m.payload) :
    ∀ m ∈ (ops.foldl (perform env self) w).buffer, Nevod.Filed L m.messageId m.payload := by
  induction ops generalizing w with
  | nil => exact hf
  | cons op ops ih =>
    rw [List.forall_mem_cons] at hops
    exact ih hops.2 (filed_perform hops.1 hf)

end BufferOp

/-- A node that starts with an empty buffer. -/
def started (s : NodeState) : World :=
  ⟨{ s with storage := { s.storage with messageBuffer := Table.empty } },0⟩

/-- In every run and at every request of it the rows of the buffer are as they
were inserted, none is selected once it is 72 hours old and none survives a
clean-up then. Where messages are filed as `route` files them, no flush enters a
row, whatever fails in it. -/
theorem messages_die (env : Env) (self : Node L) (s : NodeState) (ops : List BufferOp) :
    (∀ pre q w post, BufferOp.timeline env self (started s) ops = pre ++ (q,w) :: post →
      Mortal env pre q w) ∧
    (∀ before cellId after, ops = before ++ .flush cellId :: after →
      (∀ op ∈ before, op.Filed L) →
      ∀ r ∈ ((BufferOp.flush cellId).perform env self
          (before.foldl (BufferOp.perform env self) (started s))).buffer,
        r ∈ (before.foldl (BufferOp.perform env self) (started s)).buffer) := by
  constructor
  · intro pre q w post ht
    have hc := BufferOp.chronicle_timeline env self (Chronicle.start (s := started s)) ops
    rw [List.nil_append,ht] at hc
    exact mortal_of_chronicle rfl hc.take q
  · intro before cellId after _ hfiled r hr
    exact flush_inserts_nothing (BufferOp.filed_foldl hfiled (fun _ hm => by cases hm)) cellId hr

end Nevod
