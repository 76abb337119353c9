import Nevod.Storage
import Nevod.Lib.Purge

/-!
`message_buffer` as the mailboxes of the cells: what `get_buffered` returns for
one cell, whatever was done for the others and whenever expired rows were purged.
-/

set_option autoImplicit false

namespace Nevod
open Text Keyed Purging

/-- What is done to the mailboxes. A message is deleted after it was returned for
`cell`. -/
inductive MailOp where
  | buffer (messageId : SqlText) (toCell toNode : String) (payload : Bytes)
  | get (cell : String)
  | delete (cell : String) (messageId : SqlText)
  | cleanup

namespace MailOp

def storeOp : MailOp → StoreOp
  | buffer messageId toCell toNode payload => .bufferMessage messageId toCell toNode payload
  | get cell => .getBuffered cell
  | delete _ messageId => .deleteBuffered messageId
  | cleanup => .cleanupExpiredMessages

/-- The cell an operation is made for. -/
def cell : MailOp → Option String
  | buffer _ toCell _ _ => some toCell
  | get cell => some cell
  | delete cell _ => some cell
  | cleanup => none

def isCleanup : MailOp → Bool
  | cleanup => true
  | _ => false

def isWrite : MailOp → Bool
  | buffer _ _ _ _ => true
  | delete _ _ => true
  | _ => false

end MailOp

/-- An operation and the time at which it is executed. -/
abbrev TimedOp := Int × MailOp

/-- The storage, and the time of the last operation. -/
structure MailState where
  now : Int
  storage : Storage

namespace MailState

def mailbox (x : MailState) (cell : String) : List BufferedMessage :=
  x.storage.getBuffered x.now cell

def step (x : MailState) (o : TimedOp) : MailState := ⟨o.1,(x.storage.exec o.1 o.2.storeOp).2⟩

/-- What `get_buffered` returns. -/
def answers (x : MailState) (o : TimedOp) : List (List BufferedMessage) :=
  match o.2 with
  | .get cell => [x.storage.getBuffered o.1 cell]
  | _ => []

/-- The clock does not go back. -/
def NonDecreasing (x : MailState) (o : TimedOp) : Prop := x.now ≤ o.1

/-- A message is not buffered under the id of a message that has expired but has
not been purged. -/
def MeetsNoExpired (x : MailState) (o : TimedOp) : Prop :=
  match o.2 with
  | .buffer messageId _ _ _ =>
    ∀ r, x.storage.messageBuffer.find messageId = some r → o.1 < r.expiresAt
  | _ => True

/-- A message is neither buffered nor deleted under the id of another cell's
message. -/
def MeetsOwn (x : MailState) (o : TimedOp) : Prop :=
  match o.2 with
  | .buffer messageId cell _ _ | .delete cell messageId =>
    ∀ r, x.storage.messageBuffer.find messageId = some r → r.toCell = cell
  | _ => True

/-- The rows of one state are the rows of the other that `keep` selects. -/
def Selects (keep : BufferedMessage → Bool) (x u : MailState) : Prop :=
  x.storage.messageBuffer.rows = u.storage.messageBuffer.rows.filter keep

theorem Selects.find_none {keep : BufferedMessage → Bool} {x u : MailState}
    (h : Selects keep x u) {k : SqlText} (hu : u.storage.messageBuffer.find k = none) :
    x.storage.messageBuffer.find k = none := by
  rw [Table.find_eq_none] at hu ⊢
  intro r hr
  rw [h] at hr
  exact hu r (List.mem_filter.mp hr).1

theorem Selects.find_some {keep : BufferedMessage → Bool} {x u : MailState}
    (h : Selects keep x u) {k : SqlText} {r : BufferedMessage}
    (hu : u.storage.messageBuffer.find k = some r) (hk : keep r = true) :
    x.storage.messageBuffer.find k = some r := by
  rw [Table.find_eq_some] at hu ⊢
  rw [h]
  exact ⟨List.mem_filter.mpr ⟨hu.1,hk⟩,hu.2⟩

theorem Selects.buffer_ignored {keep : BufferedMessage → Bool} {x u : MailState}
    (h : Selects keep x u) {t : Int} {messageId : SqlText} {toCell toNode : String}
    {payload : Bytes} {r : BufferedMessage}
    (hx : x.storage.messageBuffer.find messageId = some r)
    (hu : u.storage.messageBuffer.find messageId = some r) :
    Selects keep (x.step (t,.buffer messageId toCell toNode payload))
      (u.step (t,.buffer messageId toCell toNode payload)) := by
  simp only [Selects,step,MailOp.storeOp,Storage.exec,Storage.bufferMessage]
  rw [Table.insertIgnore_of_find _ hx,Table.insertIgnore_of_find _ hu]
  exact h

theorem Selects.buffer_taken {keep : BufferedMessage → Bool} {x u : MailState}
    (h : Selects keep x u) {t : Int} {messageId : SqlText} {toCell toNode : String}
    {payload : Bytes} (hu : u.storage.messageBuffer.find messageId = none)
    (hk : keep ⟨messageId,toCell,toNode,payload,t,t + ttlMessageSecs⟩ = true) :
    Selects keep (x.step (t,.buffer messageId toCell toNode payload))
      (u.step (t,.buffer messageId toCell toNode payload)) := by
  have hx := h.find_none hu
  simp only [Selects,step,MailOp.storeOp,Storage.exec,Storage.bufferMessage]
  rw [Table.rows_insertIgnore _ hx,Table.rows_insertIgnore _ hu,List.filter_append,← h]
  simp [hk]

theorem Selects.delete {keep : BufferedMessage → Bool} {x u : MailState}
    (h : Selects keep x u) (t : Int) (cell : String) (messageId : SqlText) :
    Selects keep (x.step (t,.delete cell messageId)) (u.step (t,.delete cell messageId)) := by
  have h' : x.storage.messageBuffer.rows = u.storage.messageBuffer.rows.filter keep := h
  simp only [Selects,step,MailOp.storeOp,Storage.exec,Storage.deleteBuffered,Table.delete,
    Table.deleteWhere,h',List.filter_filter]
  exact List.filter_congr (fun r _ => Bool.and_comm _ _)

theorem Selects.cleanup {keep : BufferedMessage → Bool} {x u : MailState}
    (h : Selects keep x u) (t : Int) :
    Selects keep (x.step (t,.cleanup)) (u.step (t,.cleanup)) := by
  have h' : x.storage.messageBuffer.rows = u.storage.messageBuffer.rows.filter keep := h
  simp only [Selects,step,MailOp.storeOp,Storage.exec,Storage.cleanupExpiredMessages,
    Table.deleteWhere,h',List.filter_filter]
  exact List.filter_congr (fun r _ => Bool.and_comm _ _)

theorem Selects.getBuffered {keep : BufferedMessage → Bool} {x u : MailState}
    (h : Selects keep x u) {t : Int} {cell : String}
    (hk : ∀ r ∈ u.storage.messageBuffer.rows, r.toCell = cell → t < r.expiresAt →
      keep r = true) :
    x.storage.getBuffered t cell = u.storage.getBuffered t cell := by
  have h' : x.storage.messageBuffer.rows = u.storage.messageBuffer.rows.filter keep := h
  simp only [Storage.getBuffered,h',List.filter_filter]
  refine List.filter_congr (fun r hr => ?_)
  by_cases hc : r.toCell = cell
  · by_cases ht : t < r.expiresAt
    · simp [hk r hr hc ht]
    · simp [ht]
  · simp [hc]

/-- The purged run keeps rows that have expired. -/
def SameUnexpired (x u : MailState) : Prop :=
  u.now ≤ x.now ∧ ∃ keep, Selects keep x u ∧
    ∀ r ∈ u.storage.messageBuffer.rows, keep r = false → r.expiresAt ≤ x.now

theorem SameUnexpired.refl (x : MailState) : SameUnexpired x x :=
  ⟨Int.le_refl _,fun _ => true,by simp [Selects],by simp⟩

theorem SameUnexpired.cleanup {x u : MailState} (h : SameUnexpired x u) {t : Int}
    (ht : x.now ≤ t) : SameUnexpired (x.step (t,.cleanup)) u := by
  obtain ⟨hnow,keep,hs,hk⟩ := h
  have hs' : x.storage.messageBuffer.rows = u.storage.messageBuffer.rows.filter keep := hs
  refine ⟨Int.le_trans hnow ht,fun r => keep r && !decide (r.expiresAt ≤ t),?_,fun r hr hf => ?_⟩
  · simp only [Selects,step,MailOp.storeOp,Storage.exec,Storage.cleanupExpiredMessages,
      Table.deleteWhere,hs',List.filter_filter]
    exact List.filter_congr (fun r _ => Bool.and_comm _ _)
  · by_cases he : r.expiresAt ≤ t
    · exact he
    · have hf' : keep r = false := by simpa [he] using hf
      exact Int.le_trans (hk r hr hf') ht

theorem SameUnexpired.buffer {x u : MailState} (h : SameUnexpired x u) {t : Int}
    {messageId : SqlText} {toCell toNode : String} {payload : Bytes} (ht : x.now ≤ t)
    (hu : u.MeetsNoExpired (t,.buffer messageId toCell toNode payload)) :
    SameUnexpired (x.step (t,.buffer messageId toCell toNode payload))
      (u.step (t,.buffer messageId toCell toNode payload)) := by
  obtain ⟨hnow,keep,hs,hk⟩ := h
  cases hf : u.storage.messageBuffer.find messageId with
  | some r =>
    have hr := (Table.find_eq_some _).mp hf
    have hlive : t < r.expiresAt := hu r hf
    have hkeep : keep r = true := by
      by_contra hn
      have := hk r hr.1 (by simpa using hn)
      omega
    have hrows : (u.step (t,.buffer messageId toCell toNode payload)).storage.messageBuffer =
        u.storage.messageBuffer := Table.insertIgnore_of_find _ hf
    refine ⟨Int.le_refl _,keep,hs.buffer_ignored (hs.find_some hf hkeep) hf,fun r' hr' he => ?_⟩
    rw [hrows] at hr'
    exact Int.le_trans (hk r' hr' he) ht
  | none =>
    -- the new row is kept; no other row has its id
    let keep' : BufferedMessage → Bool := fun r => decide (r.messageId = messageId) || keep r
    have hne : ∀ r ∈ u.storage.messageBuffer.rows, r.messageId ≠ messageId :=
      (Table.find_eq_none _).mp hf
    have hs' : Selects keep' x u := by
      have h' : x.storage.messageBuffer.rows = u.storage.messageBuffer.rows.filter keep := hs
      rw [Selects,h']
      exact List.filter_congr (fun r hr => by simp [keep',hne r hr])
    refine ⟨Int.le_refl _,keep',hs'.buffer_taken hf (by simp [keep']),fun r hr he => ?_⟩
    have hr' := (Table.mem_insertIgnore _ _ _).mp hr
    rcases hr' with hr' | ⟨rfl,_⟩
    · have hkf : keep r = false := by simpa [keep',hne r hr'] using he
      exact Int.le_trans (hk r hr' hkf) ht
    · simp [keep'] at he

/-- Leaving out the clean-ups of a run. -/
def withoutCleanup : Unwinding step answers (fun o => !o.2.isCleanup) NonDecreasing MeetsNoExpired where
  rel := SameUnexpired
  quiet := by
    rintro x u ⟨t,op⟩ h ho ht
    cases op with
    | cleanup => exact ⟨h.cleanup ht,rfl⟩
    | _ => simp [MailOp.isCleanup] at ho
  visible := by
    rintro x u ⟨t,op⟩ h ho ht hu
    cases op with
    | cleanup => simp [MailOp.isCleanup] at ho
    | buffer messageId toCell toNode payload => exact ⟨h.buffer ht hu,rfl⟩
    | get cell =>
      obtain ⟨_,keep,hs,hk⟩ := h
      have ht : x.now ≤ t := ht
      refine ⟨⟨Int.le_refl _,keep,hs,fun r hr he => Int.le_trans (hk r hr he) ht⟩,?_⟩
      have hg : x.storage.getBuffered t cell = u.storage.getBuffered t cell := by
        refine hs.getBuffered (fun r hr _ hlive => ?_)
        by_contra hn
        have := hk r hr (by simpa using hn)
        omega
      simp [answers,hg]
    | delete cell messageId =>
      obtain ⟨_,keep,hs,hk⟩ := h
      refine ⟨⟨Int.le_refl _,keep,hs.delete t cell messageId,fun r hr he => ?_⟩,rfl⟩
      have hr' := (Table.mem_delete _ _ _).mp hr
      exact Int.le_trans (hk r hr'.1 he) ht

/-- Reading a mailbox changes only the time, and no condition on a write depends
on that. -/
theorem meetsNoExpired_gets {x y : MailState} {ops : List TimedOp}
    (hxy : x.storage = y.storage) (hops : ∀ o ∈ ops, o.2.isCleanup = false)
    (h : Along step MeetsNoExpired y (ops.filter (fun o => o.2.isWrite))) :
    Along step MeetsNoExpired x ops := by
  induction ops generalizing x y with
  | nil => trivial
  | cons o ops ih =>
    obtain ⟨t,op⟩ := o
    have hrest : ∀ o ∈ ops, o.2.isCleanup = false := fun o ho => hops o (by simp [ho])
    cases op with
    | cleanup => simpa [MailOp.isCleanup] using hops (t,.cleanup) (by simp)
    | get cell => exact ⟨trivial,ih hxy hrest h⟩
    | buffer messageId toCell toNode payload =>
      obtain ⟨ho,h⟩ := h
      refine ⟨?_,ih (by simp [step,hxy]) hrest h⟩
      simpa only [MeetsNoExpired,hxy] using ho
    | delete cell messageId =>
      obtain ⟨_,h⟩ := h
      exact ⟨trivial,ih (by simp [step,hxy]) hrest h⟩

theorem nonDecreasing_congr {x y : MailState} {ops : List TimedOp} (hxy : x.now = y.now)
    (h : Along step NonDecreasing x ops) : Along step NonDecreasing y ops := by
  induction ops generalizing x y with
  | nil => trivial
  | cons o ops ih =>
    have hs : (step x o).now = (step y o).now := rfl
    exact ⟨by simpa only [NonDecreasing,← hxy] using h.1,ih hs h.2⟩

/-- Whatever is read in a run that makes the writes `ops`, cleaning up at other
times changes none of the answers. -/
def CleanupUnobservable (x : MailState) (ops : List TimedOp) : Prop :=
  ∀ r r', Along step NonDecreasing x r → Along step NonDecreasing x r' →
    r.filter (fun o => !o.2.isCleanup) = r'.filter (fun o => !o.2.isCleanup) →
    r.filter (fun o => o.2.isWrite) = ops → outs step answers x r = outs step answers x r'

theorem outs_writes {x : MailState} {ops : List TimedOp} (h : ∀ o ∈ ops, o.2.isWrite = true) :
    outs step answers x ops = [] := by
  refine outs_eq_nil (fun s o ho => ?_)
  obtain ⟨t,op⟩ := o
  have hop := h _ ho
  cases op with
  | get cell => simp [MailOp.isWrite] at hop
  | _ => rfl

theorem filter_writes_kept (ops : List TimedOp) :
    ops.filter (fun o => o.2.isWrite && !o.2.isCleanup) = ops.filter (fun o => o.2.isWrite) := by
  refine List.filter_congr (fun o _ => ?_)
  obtain ⟨t,op⟩ := o
  cases op <;> rfl

theorem filter_writes {ops : List TimedOp} (h : ∀ o ∈ ops, o.2.isWrite = true) :
    ops.filter (fun o => o.2.isWrite) = ops ∧ ops.filter (fun o => !o.2.isCleanup) = ops := by
  refine ⟨List.filter_eq_self.mpr h,List.filter_eq_self.mpr (fun o ho => ?_)⟩
  obtain ⟨t,op⟩ := o
  have hop := h _ ho
  cases op with
  | cleanup => simp [MailOp.isWrite] at hop
  | _ => rfl

/-- A message that meets an expired row is lost, unless the row has been purged. -/
theorem buffer_meets_expired {s : Storage} {t : Int} {messageId : SqlText}
    {toCell toNode : String} {payload : Bytes} {r : BufferedMessage}
    (hf : s.messageBuffer.find messageId = some r) (he : r.expiresAt ≤ t) :
    (s.bufferMessage t messageId toCell toNode payload).getBuffered t toCell ≠
      ((s.cleanupExpiredMessages t).bufferMessage t messageId toCell toNode payload).getBuffered
        t toCell := by
  let new : BufferedMessage := ⟨messageId,toCell,toNode,payload,t,t + ttlMessageSecs⟩
  have hlive : t < new.expiresAt := by
    simp only [new,ttlMessageSecs]
    omega
  have hpurged : (s.cleanupExpiredMessages t).messageBuffer.find messageId = none := by
    rw [Table.find_eq_none]
    intro r' hr' hk
    obtain ⟨hr',hdue⟩ := (Table.mem_deleteWhere _ _ _).mp hr'
    have hsame : r' = r :=
      s.messageBuffer.eq_of_key_eq hr' ((Table.find_eq_some _).mp hf).1
        (hk.trans ((Table.find_eq_some _).mp hf).2.symm)
    simp [hsame,he] at hdue
  have hin : new ∈ ((s.cleanupExpiredMessages t).bufferMessage t messageId toCell toNode
      payload).getBuffered t toCell := by
    refine (Storage.mem_getBuffered _ _ _ _).mpr ⟨?_,rfl,hlive⟩
    exact (Table.mem_insertIgnore _ _ _).mpr (.inr ⟨rfl,hpurged⟩)
  intro heq
  rw [← heq] at hin
  obtain ⟨hmem,_,_⟩ := (Storage.mem_getBuffered _ _ _ _).mp hin
  rcases (Table.mem_insertIgnore _ _ _).mp hmem with hmem | ⟨_,hnone⟩
  · have hnew : s.messageBuffer.find messageId = some new :=
      (Table.find_eq_some _).mpr ⟨hmem,rfl⟩
    rw [hf,Option.some.injEq] at hnew
    rw [hnew] at he
    omega
  · have hsome : s.messageBuffer.find messageId = none := hnone
    rw [hf] at hsome
    contradiction

/-- Cleaning up is unobservable exactly if no message is buffered under the id of
one that has expired and would still be there without clean-ups. -/
theorem cleanup_unobservable_iff (x : MailState) {ops : List TimedOp}
    (hw : ∀ o ∈ ops, o.2.isWrite = true) (hc : Along step NonDecreasing x ops) :
    CleanupUnobservable x ops ↔ Along step MeetsNoExpired x ops := by
  constructor
  · intro h
    rw [along_iff]
    rintro pre ⟨t,op⟩ post rfl
    cases op with
    | buffer messageId toCell toNode payload =>
      intro row hf
      by_contra he
      have he : row.expiresAt ≤ t := by omega
      obtain ⟨hpre,ht,hpost⟩ := along_append.mp hc
      have hwpre : ∀ o ∈ pre, o.2.isWrite = true := fun o ho => hw o (by simp [ho])
      have hwpost : ∀ o ∈ post, o.2.isWrite = true := fun o ho => hw o (by simp [ho])
      -- the mailbox is read right after the message was buffered
      have hr := h (pre ++ (t,.buffer messageId toCell toNode payload) :: (t,.get toCell) :: post)
        (pre ++ (t,.cleanup) :: (t,.buffer messageId toCell toNode payload) ::
          (t,.get toCell) :: post)
        (along_append.mpr ⟨hpre,ht,Int.le_refl _,nonDecreasing_congr (by rfl) hpost⟩)
        (along_append.mpr ⟨hpre,ht,Int.le_refl _,Int.le_refl _,
          nonDecreasing_congr (by rfl) hpost⟩)
        (by simp [MailOp.isCleanup])
        (by
          simp only [List.filter_append,List.filter_cons,(filter_writes hwpre).1,
            (filter_writes hwpost).1]
          rfl)
      simp only [outs_append,outs_writes hwpre,outs,outs_writes hwpost] at hr
      simp only [answers,step,List.nil_append,List.append_nil,List.cons.injEq,
        and_true] at hr
      exact buffer_meets_expired hf he hr
    | _ => trivial
  · intro h r r' hr hr' hstrip hwrites
    have hno : ∀ o ∈ r.filter (fun o => !o.2.isCleanup), o.2.isCleanup = false := by simp
    have hkept : Along step MeetsNoExpired x (r.filter (fun o => !o.2.isCleanup)) := by
      refine meetsNoExpired_gets rfl hno ?_
      rwa [List.filter_filter,filter_writes_kept,hwrites]
    have h1 := (withoutCleanup.purge (SameUnexpired.refl x) hr hkept).2
    rw [hstrip] at hkept
    have h2 := (withoutCleanup.purge (SameUnexpired.refl x) hr' hkept).2
    rw [h1,h2,hstrip]

def emptyMail : MailState := ⟨0,Storage.empty⟩

def note (toCell : String) : MailOp := .buffer (.text "m") toCell "n" []

/-- Two messages with one id, buffered long after each other. -/
theorem cleanup_unobservable_sample :
    CleanupUnobservable emptyMail
      [(0,note "c"),(1,.delete "c" (.text "m")),(ttlMessageSecs,note "c")] :=
  (cleanup_unobservable_iff emptyMail (by simp [note,MailOp.isWrite])
    (by simp [Along,NonDecreasing,step,emptyMail,ttlMessageSecs])).mpr
    ⟨fun _ hr => (by cases hr),trivial,fun _ hr => (by cases hr),trivial⟩

/-- The second message is lost, unless the first one has been purged. -/
theorem cleanup_observable :
    ∃ r r', Along step NonDecreasing emptyMail r ∧ Along step NonDecreasing emptyMail r' ∧
      r.filter (fun o => !o.2.isCleanup) = r'.filter (fun o => !o.2.isCleanup) ∧
      outs step answers emptyMail r ≠ outs step answers emptyMail r' := by
  refine ⟨[(0,note "c"),(ttlMessageSecs,note "c"),(ttlMessageSecs,.get "c")],
    [(0,note "c"),(ttlMessageSecs,.cleanup),(ttlMessageSecs,note "c"),(ttlMessageSecs,.get "c")],
    ?_,?_,rfl,by decide⟩ <;>
  simp [Along,NonDecreasing,step,emptyMail,ttlMessageSecs]

/-- The mailbox of one cell without the others. -/
def SameMailbox (cell : String) (x u : MailState) : Prop :=
  Selects (fun r => r.toCell == cell) u x

theorem SameMailbox.getBuffered {cell : String} {x u : MailState} (h : SameMailbox cell x u)
    (t : Int) : u.storage.getBuffered t cell = x.storage.getBuffered t cell :=
  Selects.getBuffered h (fun r _ hc _ => by simpa using hc)

/-- An operation for another cell leaves the rows of this one alone. -/
theorem SameMailbox.other {cell : String} {x u : MailState} (h : SameMailbox cell x u)
    {o : TimedOp} {other : String} (ho : o.2.cell = some other) (hne : other ≠ cell)
    (hown : x.MeetsOwn o) : SameMailbox cell (x.step o) u := by
  have h' : u.storage.messageBuffer.rows =
      x.storage.messageBuffer.rows.filter (fun r => r.toCell == cell) := h
  obtain ⟨t,op⟩ := o
  cases op with
  | cleanup => simp [MailOp.cell] at ho
  | get c => exact h
  | buffer messageId toCell toNode payload =>
    simp only [MailOp.cell,Option.some.injEq] at ho
    subst ho
    simp only [SameMailbox,Selects,step,MailOp.storeOp,Storage.exec,Storage.bufferMessage,h']
    cases hf : x.storage.messageBuffer.find messageId with
    | some r => rw [Table.insertIgnore_of_find _ hf]
    | none =>
      rw [Table.rows_insertIgnore _ hf]
      simp [hne]
  | delete c messageId =>
    simp only [MailOp.cell,Option.some.injEq] at ho
    subst ho
    simp only [SameMailbox,Selects,step,MailOp.storeOp,Storage.exec,Storage.deleteBuffered,
      Table.delete,Table.deleteWhere,h',List.filter_filter]
    refine List.filter_congr (fun r hr => ?_)
    by_cases hk : r.messageId = messageId
    · have hc := hown r ((Table.find_eq_some _).mpr ⟨hr,hk⟩)
      simp [hc,hne]
    · simp [hk]

/-- An operation for this cell does the same with and without the others. -/
theorem SameMailbox.own {cell : String} {x u : MailState} (h : SameMailbox cell x u)
    {o : TimedOp} (ho : ∀ c, o.2.cell = some c → c = cell) (hown : x.MeetsOwn o) :
    SameMailbox cell (x.step o) (u.step o) := by
  obtain ⟨t,op⟩ := o
  cases op with
  | cleanup => exact Selects.cleanup h t
  | get c => exact h
  | delete c messageId => exact Selects.delete h t c messageId
  | buffer messageId toCell toNode payload =>
    have hc := ho toCell rfl
    subst hc
    cases hf : x.storage.messageBuffer.find messageId with
    | some r =>
      have hr : (r.toCell == toCell) = true := by simpa using hown r hf
      exact Selects.buffer_ignored h (Selects.find_some h hf hr) hf
    | none => exact Selects.buffer_taken h hf (by simp)

/-- What is done for a cell, and the clean-ups. -/
def keptFor (cell : String) (o : TimedOp) : Bool :=
  match o.2.cell with
  | some c => c == cell
  | none => true

/-- What `get_buffered` returns for one cell. -/
def answersTo (cell : String) (x : MailState) (o : TimedOp) : List (List BufferedMessage) :=
  match o.2 with
  | .get c => if c = cell then [x.storage.getBuffered o.1 cell] else []
  | _ => []

/-- Leaving out what is done for other cells. -/
def withoutOthers (cell : String) :
    Unwinding step (answersTo cell) (keptFor cell) MeetsOwn (fun _ _ => True) where
  rel := SameMailbox cell
  quiet := by
    intro x u o h ho hown
    cases hc : o.2.cell with
    | none => simp [keptFor,hc] at ho
    | some c =>
      have hne : c ≠ cell := by simpa [keptFor,hc] using ho
      refine ⟨h.other hc hne hown,?_⟩
      obtain ⟨t,op⟩ := o
      cases op with
      | get c' =>
        simp only [MailOp.cell,Option.some.injEq] at hc
        simp [answersTo,hc,hne]
      | _ => rfl
  visible := by
    intro x u o h ho hown _
    have hcell : ∀ c, o.2.cell = some c → c = cell := by
      intro c hc
      simpa [keptFor,hc] using ho
    refine ⟨h.own hcell hown,?_⟩
    obtain ⟨t,op⟩ := o
    cases op with
    | get c => simp [answersTo,h.getBuffered t]
    | _ => rfl

/-- As long as no message is buffered or deleted under the id of another cell's
message, the mailbox of a cell is what it is without the operations for the
others, at the end and whenever it is read. -/
theorem mailbox_isolated {x : MailState} (hx : x.storage.messageBuffer.rows = [])
    {ops : List TimedOp} (h : Along step MeetsOwn x ops) (cell : String) :
    (∀ t, (after step x ops).storage.getBuffered t cell =
      (after step x (ops.filter (keptFor cell))).storage.getBuffered t cell) ∧
    outs step (answersTo cell) x ops =
      outs step (answersTo cell) x (ops.filter (keptFor cell)) := by
  have hrel : SameMailbox cell x x := by simp [SameMailbox,Selects,hx]
  have hall : Along step (fun _ _ => True) x (ops.filter (keptFor cell)) :=
    along_iff.mpr (fun _ _ _ _ => trivial)
  obtain ⟨hend,houts⟩ := (withoutOthers cell).purge hrel h hall
  exact ⟨fun t => (hend.getBuffered t).symm,houts⟩

theorem mailbox_isolated_sample :
    (after step emptyMail [(0,.buffer (.text "k") "d" "n" []),(0,note "c")]).mailbox "c" =
      (after step emptyMail [(0,note "c")]).mailbox "c" := by
  have h : Along step MeetsOwn emptyMail [(0,.buffer (.text "k") "d" "n" []),(0,note "c")] := by
    refine ⟨fun r hr => (by cases hr),fun r hr => ?_,trivial⟩
    have hnone : (emptyMail.step (0,.buffer (.text "k") "d" "n" [])).storage.messageBuffer.find
      (.text "m") = none := by decide
    rw [hnone] at hr
    cases hr
  exact (mailbox_isolated rfl h "c").1 0

/-- Deletions are issued for messages that `get_buffered` returned for the cell. -/
def Issued (x : MailState) (ops : List TimedOp) : Prop :=
  ∀ pre t cell messageId post, ops = pre ++ (t,.delete cell messageId) :: post →
    ∃ pre' t' mid, pre = pre' ++ (t',.get cell) :: mid ∧
      ∃ r ∈ (after step x pre').storage.getBuffered t' cell, r.messageId = messageId

/-- A message for "d" hides the one for "c" that has the same id. -/
theorem mailbox_hidden :
    Along step NonDecreasing emptyMail [(0,note "d"),(0,note "c")] ∧
    Issued emptyMail [(0,note "d"),(0,note "c")] ∧
    (after step emptyMail [(0,note "d"),(0,note "c")]).mailbox "c" ≠
      (after step emptyMail ([(0,note "d"),(0,note "c")].filter (keptFor "c"))).mailbox "c" := by
  refine ⟨by simp [Along,NonDecreasing,step,emptyMail],?_,by decide⟩
  intro pre t cell messageId post he
  have hm : (t,MailOp.delete cell messageId) ∈ [((0 : Int),note "d"),(0,note "c")] := by
    rw [he]
    simp
  simp [note] at hm

end MailState

end Nevod
