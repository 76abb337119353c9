import Nevod.Client
import Nevod.Lib.Purge
import Mathlib.Data.List.Induction

/-!
The connection state of a cell's client over its life: `connect`, `disconnect`,
and the receive tasks, each of which clears the shared field `_ws` when it ends.
-/

set_option autoImplicit false

namespace Nevod
open Text Purging

variable {L : Lib}

/-- Where a receive task is; once started it reads from one socket. -/
inductive RecvTask where
  | created
  | waiting (ws : Nat)
  | handling (ws : Nat)
  | ended
  deriving DecidableEq, Repr

/-- The `k`-th successful `connect` opens socket `k` and creates task `k`. -/
structure ClientLife (L : Lib) where
  client : CellClient L
  recvTask : Option Nat
  opened : Nat
  isOpen : Nat → Bool
  task : Nat → RecvTask

/-- What happens to the client; what is not possible in a state leaves it as it
is. `close` is a socket closed by the node or lost, `ends` a task that finds its
socket closed, `raises` an exception of the callback. -/
inductive ClientEvent where
  | connect (nodeSigningPub : Bytes)
  | disconnect
  | close (ws : Nat)
  | start (task : Nat)
  | frame (task : Nat) (raw : Bytes)
  | returns (task : Nat)
  | raises (task : Nat)
  | ends (task : Nat)

namespace ClientLife

def initial (client : CellClient L) : ClientLife L where
  client := { client with ws := none }
  recvTask := none
  opened := 0
  isOpen := fun _ => false
  task := fun _ => .ended

/-- The socket opened by the last `connect`. -/
def latest (s : ClientLife L) : Nat := s.opened - 1

def connected (s : ClientLife L) : Bool :=
  match s.client.ws with
  | some ws => s.isOpen ws
  | none => false

/-- The task that `connect` created and that has not been run yet. -/
def unstarted (s : ClientLife L) : Bool :=
  match s.recvTask with
  | some i => s.task i == .created
  | none => false

/-- The `finally` block of `_recv_loop`. -/
def finish (s : ClientLife L) (i : Nat) : ClientLife L :=
  { s with client := { s.client with ws := none }, task := Function.update s.task i .ended }

/-- Cancelling a task: one that has not been run never gets to its `finally`. -/
def cancel (s : ClientLife L) (i : Nat) : ClientLife L :=
  match s.task i with
  | .created => { s with task := Function.update s.task i .ended }
  | .waiting _ | .handling _ => s.finish i
  | .ended => s

def disconnect (s : ClientLife L) : ClientLife L :=
  let s1 := match s.recvTask with
    | some i => { s.cancel i with recvTask := none }
    | none => s
  match s1.client.ws with
  | some ws =>
    { s1 with client := { s1.client with ws := none },
              isOpen := Function.update s1.isOpen ws false }
  | none => s1

/-- `connect` waits for the network, so the task created before has started by the
time it is through. -/
def connect (s : ClientLife L) (nodeSigningPub : Bytes) : ClientLife L :=
  if s.unstarted then s
  else
    { client := s.client.joined s.opened nodeSigningPub
      recvTask := some s.opened
      opened := s.opened + 1
      isOpen := Function.update s.isOpen s.opened true
      task := Function.update s.task s.opened .created }

/-- A task iterates over the socket that is current when it starts; without one
that raises. -/
def start (s : ClientLife L) (i : Nat) : ClientLife L :=
  match s.task i with
  | .created =>
    match s.client.ws with
    | some ws => { s with task := Function.update s.task i (.waiting ws) }
    | none => s.finish i
  | _ => s

def frame (s : ClientLife L) (i : Nat) (raw : Bytes) : ClientLife L :=
  match s.task i with
  | .waiting ws =>
    match s.client.receive raw with
    | .error _ => s.finish i
    | .ok none => s
    | .ok (some _) => { s with task := Function.update s.task i (.handling ws) }
  | _ => s

def step (s : ClientLife L) : ClientEvent → ClientLife L
  | .connect nodeSigningPub => s.connect nodeSigningPub
  | .disconnect => s.disconnect
  | .close ws => { s with isOpen := Function.update s.isOpen ws false }
  | .start i => s.start i
  | .frame i raw => s.frame i raw
  | .returns i =>
    match s.task i with
    | .handling ws => { s with task := Function.update s.task i (.waiting ws) }
    | _ => s
  | .raises i =>
    match s.task i with
    | .handling _ => s.finish i
    | _ => s
  | .ends i =>
    match s.task i with
    | .waiting ws => if s.isOpen ws then s else s.finish i
    | _ => s

/-- Only the last connection is ever current, and only its task can be cancelled
or still has to start. -/
structure Sound (s : ClientLife L) : Prop where
  ws : ∀ w, s.client.ws = some w →
    w + 1 = s.opened ∧ s.recvTask = some w ∧ s.task w ≠ .ended
  recv : ∀ i, s.recvTask = some i → i + 1 = s.opened
  created : ∀ i, s.task i = .created → s.recvTask = some i
  reads : ∀ i w, s.task i = .waiting w ∨ s.task i = .handling w → w = i ∧ i < s.opened

theorem sound_initial (c : CellClient L) : (initial c).Sound where
  ws := by simp [initial]
  recv := by simp [initial]
  created := by simp [initial]
  reads := by simp [initial]

theorem Sound.finish {s : ClientLife L} (h : s.Sound) (i : Nat) : (s.finish i).Sound where
  ws := by simp [ClientLife.finish]
  recv := h.recv
  created := by
    intro j hj
    simp only [ClientLife.finish,Function.update_apply] at hj
    split at hj
    · cases hj
    · exact h.created j hj
  reads := by
    intro j w hj
    simp only [ClientLife.finish,Function.update_apply] at hj
    split at hj
    · simp at hj
    · exact h.reads j w hj

theorem Sound.moved {s : ClientLife L} (h : s.Sound) {i : Nat} {t : RecvTask}
    (hc : t ≠ .created) (he : t ≠ .ended)
    (hr : ∀ w, t = .waiting w ∨ t = .handling w → w = i ∧ i < s.opened) :
    Sound { s with task := Function.update s.task i t } where
  ws := by
    intro w hw
    obtain ⟨hlast,hrecv,htask⟩ := h.ws w hw
    refine ⟨hlast,hrecv,?_⟩
    simp only [Function.update_apply]
    split
    · exact he
    · exact htask
  recv := h.recv
  created := by
    intro j hj
    simp only [Function.update_apply] at hj
    split at hj
    · exact absurd hj hc
    · exact h.created j hj
  reads := by
    intro j w hj
    simp only [Function.update_apply] at hj
    split at hj
    · rename_i hji
      subst hji
      exact hr w hj
    · exact h.reads j w hj

theorem cancel_ws (s : ClientLife L) (i : Nat) :
    (s.cancel i).client.ws = match s.task i with
      | .waiting _ | .handling _ => none
      | _ => s.client.ws := by
  unfold cancel
  cases s.task i <;> rfl

theorem cancel_task (s : ClientLife L) (i j : Nat) :
    (s.cancel i).task j = if j = i then .ended else s.task j := by
  unfold cancel
  cases hi : s.task i with
  | ended =>
    by_cases hj : j = i
    · simp [hj,hi]
    · simp [hj]
  | _ => simp [ClientLife.finish,Function.update_apply]

theorem cancel_rest (s : ClientLife L) (i : Nat) :
    (s.cancel i).isOpen = s.isOpen ∧ (s.cancel i).opened = s.opened := by
  unfold cancel
  cases s.task i <;> exact ⟨rfl,rfl⟩

/-- The receive task is over and forgotten. -/
def stopped (s : ClientLife L) : ClientLife L :=
  match s.recvTask with
  | some i => { s.cancel i with recvTask := none }
  | none => s

theorem disconnect_eq (s : ClientLife L) : s.disconnect =
    match s.stopped.client.ws with
    | some ws => { s.stopped with client := { s.stopped.client with ws := none },
                                  isOpen := Function.update s.stopped.isOpen ws false }
    | none => s.stopped := rfl

theorem stopped_rest (s : ClientLife L) :
    s.stopped.recvTask = none ∧ s.stopped.isOpen = s.isOpen ∧ s.stopped.opened = s.opened ∧
      ∀ j, s.stopped.task j = if s.recvTask = some j then .ended else s.task j := by
  unfold stopped
  cases hr : s.recvTask with
  | none => exact ⟨hr,rfl,rfl,fun j => by simp⟩
  | some i =>
    obtain ⟨hopen,hopened⟩ := s.cancel_rest i
    exact ⟨rfl,hopen,hopened,fun j => by simp [cancel_task,eq_comm]⟩

theorem stopped_ws {s : ClientLife L} (h : s.Sound) (w : Nat) :
    s.stopped.client.ws = some w ↔ s.client.ws = some w ∧ s.task w = .created := by
  unfold stopped
  cases hr : s.recvTask with
  | none =>
    simp only
    constructor
    · intro hw
      have hrecv := (h.ws w hw).2.1
      rw [hr] at hrecv
      cases hrecv
    · exact fun hw => hw.1
  | some i =>
    simp only [cancel_ws]
    constructor
    · intro hw
      cases hi : s.task i with
      | waiting _ | handling _ => simp [hi] at hw
      | created =>
        simp only [hi] at hw
        obtain ⟨_,hrecv,_⟩ := h.ws w hw
        rw [hr,Option.some.injEq] at hrecv
        exact ⟨hw,hrecv ▸ hi⟩
      | ended =>
        simp only [hi] at hw
        obtain ⟨_,hrecv,hne⟩ := h.ws w hw
        rw [hr,Option.some.injEq] at hrecv
        exact absurd (hrecv ▸ hi) hne
    · rintro ⟨hw,hc⟩
      obtain ⟨_,hrecv,_⟩ := h.ws w hw
      rw [hr,Option.some.injEq] at hrecv
      simp only [hrecv,hc,hw]

theorem disconnect_rest (s : ClientLife L) :
    s.disconnect.client.ws = none ∧ s.disconnect.recvTask = none ∧
      s.disconnect.opened = s.opened ∧ s.disconnect.task = s.stopped.task := by
  obtain ⟨hrecv,_,hopened,_⟩ := s.stopped_rest
  rw [disconnect_eq]
  cases hw : s.stopped.client.ws with
  | none => exact ⟨hw,hrecv,hopened,rfl⟩
  | some w => exact ⟨rfl,hrecv,hopened,rfl⟩

theorem Sound.disconnect {s : ClientLife L} (h : s.Sound) : s.disconnect.Sound := by
  obtain ⟨hws,hrecv,hopened,htask⟩ := s.disconnect_rest
  have htasks := s.stopped_rest.2.2.2
  constructor
  · simp [hws]
  · simp [hrecv]
  · intro i hi
    rw [htask,htasks] at hi
    split at hi
    · cases hi
    · rename_i hne
      exact absurd (h.created i hi) hne
  · intro i w hi
    rw [htask,htasks] at hi
    split at hi
    · simp at hi
    · rw [hopened]
      exact h.reads i w hi

theorem Sound.connect {s : ClientLife L} (h : s.Sound) (pub : Bytes) : (s.connect pub).Sound := by
  unfold ClientLife.connect
  split
  · exact h
  · rename_i hun
    constructor
    · intro w hw
      simp only [CellClient.joined,Option.some.injEq] at hw
      subst hw
      exact ⟨rfl,rfl,by simp⟩
    · intro i hi
      simp only [Option.some.injEq] at hi
      rw [hi]
    · intro i hi
      simp only [Function.update_apply] at hi
      split at hi
      · rename_i hio
        rw [hio]
      · have hrecv := h.created i hi
        simp [unstarted,hrecv,hi] at hun
    · intro i w hw
      simp only [Function.update_apply] at hw
      split at hw
      · simp at hw
      · obtain ⟨hwi,hlt⟩ := h.reads i w hw
        exact ⟨hwi,by simp only; omega⟩

theorem Sound.start {s : ClientLife L} (h : s.Sound) (i : Nat) : (s.start i).Sound := by
  unfold ClientLife.start
  split
  · rename_i hc
    split
    · rename_i w hw
      have hrecv := h.created i hc
      obtain ⟨hlast,hw',_⟩ := h.ws w hw
      rw [hrecv,Option.some.injEq] at hw'
      subst hw'
      refine h.moved (by simp) (by simp) (fun w' hw' => ?_)
      simp only [RecvTask.waiting.injEq,reduceCtorEq,or_false] at hw'
      exact ⟨hw'.symm,by omega⟩
    · exact h.finish i
  · exact h

theorem Sound.frame {s : ClientLife L} (h : s.Sound) (i : Nat) (raw : Bytes) :
    (s.frame i raw).Sound := by
  unfold ClientLife.frame
  split
  · rename_i w hw
    split
    · exact h.finish i
    · exact h
    · refine h.moved (by simp) (by simp) (fun w' hw' => ?_)
      simp only [RecvTask.handling.injEq,reduceCtorEq,false_or] at hw'
      exact hw' ▸ h.reads i w (.inl hw)
  · exact h

theorem Sound.step {s : ClientLife L} (h : s.Sound) (e : ClientEvent) : (s.step e).Sound := by
  cases e with
  | connect pub => exact h.connect pub
  | disconnect => exact h.disconnect
  | close w => exact ⟨h.ws,h.recv,h.created,h.reads⟩
  | start i => exact h.start i
  | frame i raw => exact h.frame i raw
  | returns i =>
    simp only [ClientLife.step]
    split
    · rename_i w hw
      refine h.moved (by simp) (by simp) (fun w' hw' => ?_)
      simp only [RecvTask.waiting.injEq,reduceCtorEq,or_false] at hw'
      exact hw' ▸ h.reads i w (.inr hw)
    · exact h
  | raises i =>
    simp only [ClientLife.step]
    split
    · exact h.finish i
    · exact h
  | ends i =>
    simp only [ClientLife.step]
    split
    · split
      · exact h
      · exact h.finish i
    · exact h

theorem sound_after (c : CellClient L) (events : List ClientEvent) :
    (Purging.after step (initial c) events).Sound := by
  have hrun : ∀ (events : List ClientEvent) (s : ClientLife L), s.Sound →
      (Purging.after step s events).Sound := by
    intro events
    induction events with
    | nil => exact fun s hs => hs
    | cons e events ih => exact fun s hs => ih _ (hs.step e)
  exact hrun events _ (sound_initial c)

/-- `disconnect` closes a socket only if its task has not been run. -/
theorem disconnect_isOpen {s : ClientLife L} (h : s.Sound) (w : Nat) :
    s.disconnect.isOpen w = false ↔
      s.isOpen w = false ∨ (s.client.ws = some w ∧ s.task w = .created) := by
  rw [← stopped_ws h w,disconnect_eq]
  cases hw : s.stopped.client.ws with
  | none => simp [s.stopped_rest.2.1]
  | some v =>
    by_cases hv : w = v
    · subst hv
      simp
    · simp [Function.update_of_ne hv,s.stopped_rest.2.1,Ne.symm hv]

/-- After `disconnect` the socket of the last `connect` is closed and `connected` is
`False` exactly if that socket was closed already, or was still set and its receive
task has never run. -/
theorem disconnect_closes_iff (c : CellClient L) (events : List ClientEvent) :
    ((after step (initial c) (events ++ [.disconnect])).isOpen
        (after step (initial c) events).latest = false ∧
      (after step (initial c) (events ++ [.disconnect])).connected = false) ↔
    (after step (initial c) events).isOpen (after step (initial c) events).latest = false ∨
      ((after step (initial c) events).client.ws = some (after step (initial c) events).latest ∧
        (after step (initial c) events).task (after step (initial c) events).latest =
          .created) := by
  have hs := sound_after c events
  rw [after_append]
  generalize after step (initial c) events = s at hs ⊢
  have hconn : s.disconnect.connected = false := by
    simp only [connected,s.disconnect_rest.1]
  exact (and_iff_left hconn).trans (disconnect_isOpen hs s.latest)

/-- The task that ends in an event, other than by `disconnect`. -/
def ending (s : ClientLife L) : ClientEvent → Option Nat
  | .start i => if s.task i = .created ∧ s.client.ws = none then some i else none
  | .frame i raw =>
    match s.task i with
    | .waiting _ =>
      match s.client.receive raw with
      | .error _ => some i
      | .ok _ => none
    | _ => none
  | .raises i =>
    match s.task i with
    | .handling _ => some i
    | _ => none
  | .ends i =>
    match s.task i with
    | .waiting ws => if s.isOpen ws then none else some i
    | _ => none
  | _ => none

/-- A `connect` has been made and no `disconnect` since. -/
def joined (events : List ClientEvent) : Bool :=
  events.foldl (fun b e => match e with
    | .connect _ => true
    | .disconnect => false
    | _ => b) false

theorem joined_concat (events : List ClientEvent) (e : ClientEvent) :
    joined (events ++ [e]) = match e with
      | .connect _ => true
      | .disconnect => false
      | _ => joined events := by
  simp only [joined,List.foldl_append,List.foldl_cons,List.foldl_nil]

/-- An event that is no call ends a task, or leaves the connection as it is. -/
theorem step_cases (s : ClientLife L) (e : ClientEvent) :
    (∃ pub, e = .connect pub) ∨ e = .disconnect ∨ (∃ w, e = .close w) ∨
    (∃ i, s.ending e = some i ∧ s.step e = s.finish i) ∨
    (s.ending e = none ∧ (∀ events, joined (events ++ [e]) = joined events) ∧
      (s.step e).client = s.client ∧ (s.step e).recvTask = s.recvTask ∧
      (s.step e).isOpen = s.isOpen ∧ (s.step e).opened = s.opened) := by
  cases e with
  | connect pub => exact .inl ⟨pub,rfl⟩
  | disconnect => exact .inr (.inl rfl)
  | close w => exact .inr (.inr (.inl ⟨w,rfl⟩))
  | start i =>
    refine .inr (.inr (.inr ?_))
    cases hi : s.task i with
    | created =>
      cases hw : s.client.ws with
      | none => exact .inl ⟨i,by simp [ending,hi,hw],by simp [step,ClientLife.start,hi,hw]⟩
      | some w => simp [ending,joined_concat,step,ClientLife.start,hi,hw]
    | _ => simp [ending,joined_concat,step,ClientLife.start,hi]
  | frame i raw =>
    refine .inr (.inr (.inr ?_))
    cases hi : s.task i with
    | waiting w =>
      cases hr : s.client.receive raw with
      | error e => exact .inl ⟨i,by simp [ending,hi,hr],by simp [step,ClientLife.frame,hi,hr]⟩
      | ok r => cases r <;> simp [ending,joined_concat,step,ClientLife.frame,hi,hr]
    | _ => simp [ending,joined_concat,step,ClientLife.frame,hi]
  | returns i =>
    refine .inr (.inr (.inr (.inr ?_)))
    cases hi : s.task i <;> simp [ending,joined_concat,step,hi]
  | raises i =>
    refine .inr (.inr (.inr ?_))
    cases hi : s.task i with
    | handling w => exact .inl ⟨i,by simp [ending,hi],by simp [step,hi]⟩
    | _ => simp [ending,joined_concat,step,hi]
  | ends i =>
    refine .inr (.inr (.inr ?_))
    cases hi : s.task i with
    | waiting w =>
      cases ho : s.isOpen w with
      | true => simp [ending,joined_concat,step,hi,ho]
      | false => exact .inl ⟨i,by simp [ending,hi,ho],by simp [step,hi,ho]⟩
    | _ => simp [ending,joined_concat,step,hi]

/-- `connected` says whether the last connection is there. -/
def Follows (events : List ClientEvent) (s : ClientLife L) : Prop :=
  s.connected = true ↔ joined events = true ∧ s.isOpen s.latest = true

/-- The end of an older connection's task leaves the connection as it is. -/
def SparesNewer (s : ClientLife L) (e : ClientEvent) : Prop :=
  ∀ i, s.ending e = some i → i + 1 < s.opened → (s.step e).client.ws = s.client.ws

/-- No task is ended by an exception: neither checking a frame nor the callback
raises. -/
def Steady (s : ClientLife L) : ClientEvent → Prop
  | .frame i raw => s.ending (.frame i raw) = none
  | .raises i => s.ending (.raises i) = none
  | _ => True

/-- No task of an older connection ends while a newer one is set. -/
def EndsAlone (s : ClientLife L) (e : ClientEvent) : Prop :=
  ∀ i, s.ending e = some i → i + 1 < s.opened → s.client.ws = none

/-- The last connection is set as long as its socket is open. -/
def Current (events : List ClientEvent) (s : ClientLife L) : Prop :=
  joined events = s.recvTask.isSome ∧
    ∀ w, s.recvTask = some w → s.isOpen w = true → s.client.ws = some w

/-- Without exceptions the task of a socket that is set and open goes on, so it is
an older one that ends. -/
theorem ending_older {s : ClientLife L} (hs : s.Sound) {e : ClientEvent} (hsteady : s.Steady e)
    {i w : Nat} (hend : s.ending e = some i) (hw : s.client.ws = some w)
    (hopen : s.isOpen w = true) : i + 1 < s.opened := by
  cases e with
  | connect _ | disconnect | close _ | returns _ => simp [ending] at hend
  | start j =>
    simp only [ending,hw] at hend
    simp at hend
  | frame j raw =>
    rw [show s.ending (.frame j raw) = none from hsteady] at hend
    cases hend
  | raises j =>
    rw [show s.ending (.raises j) = none from hsteady] at hend
    cases hend
  | ends j =>
    simp only [ending] at hend
    split at hend
    · rename_i v hv
      split at hend
      · cases hend
      · rename_i hclosed
        simp only [Option.some.injEq] at hend
        subst hend
        obtain ⟨rfl,hlt⟩ := hs.reads j v (.inl hv)
        have hlast := (hs.ws w hw).1
        have hne : v ≠ w := by
          rintro rfl
          exact hclosed hopen
        omega
    · cases hend

theorem Current.step {events : List ClientEvent} {s : ClientLife L} (hs : s.Sound)
    (hc : Current events s) {e : ClientEvent} (hsteady : s.Steady e) (halone : s.EndsAlone e) :
    Current (events ++ [e]) (s.step e) := by
  obtain ⟨hjoined,hset⟩ := hc
  rcases s.step_cases e with ⟨pub,rfl⟩ | rfl | ⟨w,rfl⟩ | ⟨i,hend,hstep⟩ | ⟨_,hno,hclient,hrecv,hopen,_⟩
  · rw [Current,joined_concat]
    simp only [ClientLife.step,ClientLife.connect]
    split
    · rename_i hun
      refine ⟨?_,hset⟩
      cases hr : s.recvTask with
      | none => simp [unstarted,hr] at hun
      | some w => rfl
    · refine ⟨rfl,fun w hw _ => ?_⟩
      exact hw
  · obtain ⟨_,hrecv,_⟩ := s.disconnect_rest
    rw [Current,joined_concat]
    simp only [ClientLife.step,hrecv]
    exact ⟨rfl,by simp⟩
  · rw [Current,joined_concat]
    refine ⟨hjoined,fun v hv hopen => hset v hv ?_⟩
    simp only [ClientLife.step,Function.update_apply] at hopen
    split at hopen
    · cases hopen
    · exact hopen
  · have hkeep : joined events = (s.step e).recvTask.isSome := by
      rw [hjoined,hstep]
      rfl
    refine ⟨?_,fun w hw hopen => ?_⟩
    · rw [← hkeep,joined_concat]
      cases e with
      | connect _ | disconnect => simp [ending] at hend
      | _ => rfl
    · rw [hstep] at hw hopen
      have hws := hset w hw hopen
      rw [halone i hend (ending_older hs hsteady hend hws hopen)] at hws
      cases hws
  · rw [Current,hno,hrecv,hclient,hopen]
    exact ⟨hjoined,hset⟩

theorem current_after (c : CellClient L) (events : List ClientEvent)
    (hsteady : Along step Steady (initial c) events)
    (halone : Along step EndsAlone (initial c) events) :
    Current events (after step (initial c) events) := by
  induction events using List.reverseRecOn with
  | nil => exact ⟨rfl,by simp [initial]⟩
  | append_singleton events e ih =>
    obtain ⟨hs,hse,_⟩ := along_append.mp hsteady
    obtain ⟨ha,hae,_⟩ := along_append.mp halone
    rw [after_append]
    exact (ih hs ha).step (sound_after c events) hse hae

theorem Current.follows {events : List ClientEvent} {s : ClientLife L} (hs : s.Sound)
    (hc : Current events s) : Follows events s := by
  obtain ⟨hjoined,hset⟩ := hc
  rw [Follows,hjoined,connected,latest]
  constructor
  · intro hconn
    cases hw : s.client.ws with
    | none => simp [hw] at hconn
    | some w =>
      obtain ⟨hlast,hrecv,_⟩ := hs.ws w hw
      simp only [hw] at hconn
      refine ⟨by simp [hrecv],?_⟩
      rwa [← hlast,Nat.add_sub_cancel]
  · rintro ⟨hsome,hopen⟩
    obtain ⟨w,hrecv⟩ := Option.isSome_iff_exists.mp hsome
    have hlast := hs.recv w hrecv
    rw [← hlast,Nat.add_sub_cancel] at hopen
    simp only [hset w hrecv hopen,hopen]

theorem ending_ws {s : ClientLife L} {e : ClientEvent} {i : Nat} (h : s.ending e = some i) :
    (s.step e).client.ws = none := by
  rcases s.step_cases e with ⟨pub,rfl⟩ | rfl | ⟨w,rfl⟩ | ⟨j,_,hstep⟩ | ⟨hnone,_⟩
  · cases h
  · cases h
  · cases h
  · rw [hstep]
    rfl
  · rw [hnone] at h
    cases h

theorem sparesNewer_iff (s : ClientLife L) (e : ClientEvent) : s.SparesNewer e ↔ s.EndsAlone e := by
  constructor
  · intro h i hi hlt
    rw [← h i hi hlt,ending_ws hi]
  · intro h i hi hlt
    rw [h i hi hlt,ending_ws hi]

/-- `connected` follows the last connection, and no end of an older one touches it,
exactly in the runs in which no task of an older connection ends while a newer
connection is set. -/
theorem connected_follows_iff (c : CellClient L) (events : List ClientEvent)
    (hsteady : Along step Steady (initial c) events) :
    ((∀ before rest, events = before ++ rest → Follows before (after step (initial c) before)) ∧
      Along step SparesNewer (initial c) events) ↔ Along step EndsAlone (initial c) events := by
  have hsame : Along step SparesNewer (initial c) events ↔
      Along step EndsAlone (initial c) events := by
    simp only [along_iff,sparesNewer_iff]
  rw [hsame]
  refine ⟨fun h => h.2,fun h => ⟨?_,h⟩⟩
  rintro before rest rfl
  exact (current_after c before (along_append.mp hsteady).1 (along_append.mp h).1).follows
    (sound_after c before)

def someClient : CellClient shortSigLib := ⟨sampleIdentity shortSigLib 3,true,none,"",[]⟩

/-- The receive task waits for a frame, as it does nearly always: its cancellation
clears the socket, and `disconnect` does not close it. -/
theorem disconnect_leaves_open :
    (after step (initial someClient) [.connect [],.start 0]).latest = 0 ∧
    (after step (initial someClient) [.connect [],.start 0]).task 0 = .waiting 0 ∧
    (after step (initial someClient) [.connect [],.start 0,.disconnect]).isOpen 0 = true ∧
    (after step (initial someClient) [.connect [],.start 0,.disconnect]).connected = false := by
  decide

/-- A reconnect after the first connection was lost and its task is over. -/
theorem connected_follows_sample :
    ((∀ before rest, [.connect [],.start 0,.close 0,.ends 0,.connect [],.start 1] = before ++ rest →
        Follows before (after step (initial someClient) before)) ∧
      Along step SparesNewer (initial someClient)
        [.connect [],.start 0,.close 0,.ends 0,.connect [],.start 1]) ↔
    Along step EndsAlone (initial someClient)
      [.connect [],.start 0,.close 0,.ends 0,.connect [],.start 1] :=
  connected_follows_iff someClient _ ⟨trivial,trivial,trivial,trivial,trivial,trivial,trivial⟩

/-- The first connection is closed after the second was opened: `connected` is
`False` though the second socket is open. -/
theorem older_end_disconnects :
    joined [.connect [],.start 0,.connect [],.start 1,.close 0,.ends 0] = true ∧
    (after step (initial someClient)
      [.connect [],.start 0,.connect [],.start 1,.close 0,.ends 0]).latest = 1 ∧
    (after step (initial someClient)
      [.connect [],.start 0,.connect [],.start 1,.close 0,.ends 0]).isOpen 1 = true ∧
    (after step (initial someClient)
      [.connect [],.start 0,.connect [],.start 1,.close 0,.ends 0]).connected = false := by
  decide

end ClientLife

end Nevod
