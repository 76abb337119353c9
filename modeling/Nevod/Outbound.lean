import Nevod.Client
import Nevod.Lib.Tasks

/-!
Opening a connection, at the level of the socket: the handshake of `connect`,
`connect_to_node` and the client's `connect` one frame at a time, and what is left of a
call that fails. A cancellation is an exception raised by what the call awaits.
-/

set_option autoImplicit false

namespace Nevod
open Text Resume

variable {L : Lib}

/-- A WebSocket: closed by this side, and closed or lost at the other. -/
structure OutSocket where
  closedHere : Bool
  lost : Bool

def OutSocket.closed (s : OutSocket) : Bool := s.closedHere || s.lost

def OutSocket.fresh : OutSocket := ⟨false,false⟩

/-- What a call awaits, and what it does to the registry and to the client. `io` is
one request of a handshake, or the frame sent after it. -/
inductive OutReq where
  | dial (uri : String)
  | io (ws : Nat) (q : AuthReq)
  | close (ws : Nat)
  | connAdd (conn : PeerConnection)
  | startRecv (conn : PeerConnection)
  | join (ws : Nat) (nodeSigningPub : Bytes)
  | recvTask (ws : Nat)

abbrev OutAns : OutReq → Type
  | .dial _ => Except Err Nat
  | .io _ q => AuthAns q
  | _ => Unit

abbrev OutProg := Prog OutReq OutAns Err

/-- A program that talks over one socket. -/
def AuthProg.over {α : Type} (ws : Nat) : AuthProg α → OutProg α
  | .ret a => .ret a
  | .raise e => .raise e
  | .ask q k => .ask (.io ws q) (fun a => AuthProg.over ws (k a))

namespace Outbound

def dial (address : String) : OutProg Nat :=
  .ask (.dial ("ws://" ++ address)) (fun a => .ofExcept a)

/-- What both ways of dialling a node do once the socket is open. -/
def authenticate (me : Identity L) (d : AuthDraw) (expectedNodeId : Option String) (ws : Nat) :
    OutProg PeerConnection := do
  let conn ← AuthProg.over ws (Transport.doAuth me ws expectedNodeId d)
  .ask (.connAdd conn) (fun _ => .ask (.startRecv conn) (fun _ => .ret conn))

def connect (me : Identity L) (d : AuthDraw) (address : String) : OutProg PeerConnection :=
  if !address.toList.contains ':' then
    .raise (.valueError ("invalid address: " ++ address))
  else do
    let ws ← dial address
    authenticate me d none ws

def connectToNode (me : Identity L) (d : AuthDraw) (nodeId address : String) :
    OutProg PeerConnection := do
  let ws ← dial address
  authenticate me d (some nodeId) ws

/-- The fields of the client are set before its registration is sent. -/
def register (self : CellClient L) (st : Stamp) (ws : Nat) (nodeSigningPub : Bytes) :
    OutProg Unit :=
  .ask (.join ws nodeSigningPub) (fun _ => do
    let reg ← Prog.ofExcept ((self.joined ws nodeSigningPub).registration st)
    .ask (.io ws (.send reg)) (fun a => do
      Prog.ofExcept a
      .ask (.recvTask ws) (fun _ => .ret ())))

/-- `CellClient.connect`. -/
def clientConnect (self : CellClient L) (d : AuthDraw) (st : Stamp) (address : String)
    (expectedNodeId : Option String) : OutProg Unit := do
  let ws ← dial address
  let (nodeSigningPub,_) ← AuthProg.over ws (Client.doAuth self.identity expectedNodeId d)
  register self st ws nodeSigningPub

/-- `except Exception` lets a cancellation pass. -/
def cancelledError : Err := .other "CancelledError"

/-- `_handle_incoming` up to its receive loop: the side that accepts the socket. -/
def handleIncoming (me : Identity L) (d : AuthDraw) (ws : Nat) : OutProg Unit := do
  let accepted ← Prog.rescue (do
      let conn ← AuthProg.over ws (Transport.doAuth me ws none d)
      pure (some conn))
    (fun e => if e = cancelledError then .raise e else .ask (.close ws) (fun _ => .ret none))
  match accepted with
  | none => pure ()
  | some conn => .ask (.connAdd conn) (fun _ => .ask (.startRecv conn) (fun _ => .ret ()))

end Outbound

/-- What a call can leave something behind in. The socket of the client is one that
was opened. -/
structure OutState (L : Lib) where
  sockets : List OutSocket
  connections : ConnectionRegistry
  client : CellClient L
  recvTask : Option Nat
  opened : ∀ ws, client.ws = some ws → ws < sockets.length

namespace OutState

def Closed (w : OutState L) (ws : Nat) : Prop := ∃ s, w.sockets[ws]? = some s ∧ s.closed = true

/-- The other side or the network has ended the connection. -/
def Lost (w : OutState L) (ws : Nat) : Prop := ∃ s, w.sockets[ws]? = some s ∧ s.lost = true

/-- Only the sockets differ. -/
structure SameState (w w' : OutState L) : Prop where
  connections : w'.connections = w.connections
  client : w'.client = w.client
  recvTask : w'.recvTask = w.recvTask

/-- `ConnectionClosed` is raised only for a socket that is closed; any other exception
can be raised at any await. -/
def Answers (w : OutState L) : (q : OutReq) → OutAns q → OutState L → Prop
  | .dial _,.ok ws,w' => ws = w.sockets.length ∧ w'.sockets = w.sockets ++ [OutSocket.fresh] ∧
      w.SameState w'
  | .dial _,.error _,w' => w' = w
  | .io ws (.send _),a,w' => w' = w ∧ (a = .error .connectionClosed → w.Closed ws)
  | .io ws .recv,a,w' => w' = w ∧ (a = .error .connectionClosed → w.Closed ws)
  | .close ws,_,w' => w'.sockets = w.sockets.modify ws (fun s => { s with closedHere := true }) ∧
      w.SameState w'
  | .connAdd conn,_,w' => w' = { w with connections := w.connections.add conn }
  | .startRecv _,_,w' => w' = w
  | .join ws pub,_,w' => w'.sockets = w.sockets ∧ w'.connections = w.connections ∧
      w'.client = w.client.joined ws pub ∧ w'.recvTask = w.recvTask
  | .recvTask ws,_,w' => w' = { w with recvTask := some ws }

/-- A connection is lost. -/
def Drifts (w w' : OutState L) : Prop :=
  ∃ ws, w'.sockets = w.sockets.modify ws (fun s => { s with lost := true }) ∧ w.SameState w'

end OutState

namespace Outbound

/-- One call, while connections may be lost at any moment. -/
def rules (L : Lib) : Rules Unit OutReq OutAns Err Unit (OutState L) where
  answer := fun _ w q a w' => w.Answers q a w'
  start := fun _ _ _ _ => False
  drift := fun w w' => w.Drifts w'

/-- The three ways of opening a connection. -/
inductive Call (L : Lib) where
  | connect (me : Identity L) (address : String)
  | connectToNode (me : Identity L) (nodeId address : String)
  | client (self : CellClient L) (st : Stamp) (address : String) (expectedNodeId : Option String)

def Call.prog (d : AuthDraw) : Call L → OutProg Unit
  | .connect me address => (Outbound.connect me d address).bind (fun _ => .ret ())
  | .connectToNode me nodeId address =>
    (Outbound.connectToNode me d nodeId address).bind (fun _ => .ret ())
  | .client self st address expectedNodeId => clientConnect self d st address expectedNodeId

def Call.me : Call L → Identity L
  | .connect me _ | .connectToNode me _ _ => me
  | .client self _ _ _ => self.identity

def Call.expected : Call L → Option String
  | .connect _ _ => none
  | .connectToNode _ nodeId _ => some nodeId
  | .client _ _ _ expectedNodeId => expectedNodeId

def begun (p : OutProg Unit) (w : OutState L) : Pool Unit OutReq OutAns Err Unit (OutState L) :=
  ⟨fun _ => p,fun _ => [],fun _ => p,w⟩

/-- The socket is closed, the registry is unchanged, and so is the client. -/
def LeavesNothing (w w' : OutState L) (ws : Nat) : Prop := w'.Closed ws ∧ w.SameState w'

/-- The peer's first frame could be answered, and its second one passed the check. -/
def Accepted (me : Identity L) (d : AuthDraw) (expected : Option String) (ws : Nat)
    (tr : List (Exchange OutReq OutAns)) : Prop :=
  ∃ uri c m1 f m2 r rest, responseFrame me d m1 = .ok f ∧
    checkResponse L d expected m2 = .ok (some r) ∧
    tr = ⟨.dial uri,.ok ws⟩ :: ⟨.io ws (.send c),.ok ()⟩ :: ⟨.io ws .recv,.ok m1⟩ ::
      ⟨.io ws (.send f),.ok ()⟩ :: ⟨.io ws .recv,.ok m2⟩ :: rest

/-- The exchanges of a handshake over one socket. -/
def onSocket (ws : Nat) (tr : List (Exchange AuthReq AuthAns)) : List (Exchange OutReq OutAns) :=
  tr.map (fun e => ⟨.io ws e.1,e.2⟩)

theorem onSocket_append_inv {ws : Nat} {tr tr' : List (Exchange AuthReq AuthAns)}
    {rest : List (Exchange OutReq OutAns)} (h : onSocket ws tr = onSocket ws tr' ++ rest) :
    ∃ rest', tr = tr' ++ rest' := by
  have hinj : Function.Injective
      (fun e : Exchange AuthReq AuthAns => (⟨.io ws e.1,e.2⟩ : Exchange OutReq OutAns)) := by
    rintro ⟨q,a⟩ ⟨q',a'⟩ he
    cases he
    rfl
  obtain ⟨l1,l2,rfl,h1,_⟩ := List.map_eq_append_iff.mp h
  exact ⟨l2,by rw [List.map_injective_iff.mpr hinj h1]⟩

section Paths

variable {α β : Type} {ws : Nat}

theorem path_over {p : AuthProg α} {tr : List (Exchange OutReq OutAns)} {p' : OutProg α}
    (h : Path (AuthProg.over ws p) tr p') :
    ∃ tr0 p0, Path p tr0 p0 ∧ tr = onSocket ws tr0 ∧ p' = AuthProg.over ws p0 := by
  induction p generalizing tr with
  | ret a =>
    obtain ⟨rfl,rfl⟩ := h.of_ret
    exact ⟨[],_,.here _,rfl,rfl⟩
  | raise e =>
    obtain ⟨rfl,rfl⟩ := h.of_raise
    exact ⟨[],_,.here _,rfl,rfl⟩
  | ask q k ih =>
    cases h with
    | here => exact ⟨[],_,.here _,rfl,rfl⟩
    | step _ _ a h =>
      obtain ⟨tr0,p0,hp,rfl,rfl⟩ := ih a h
      exact ⟨⟨q,a⟩ :: tr0,p0,.step q k a hp,rfl,rfl⟩

/-- A call raises in its handshake or in what follows it. -/
theorem path_raised {p : AuthProg α} {tail : α → OutProg β} {tr : List (Exchange OutReq OutAns)}
    {e : Err} (h : Path ((AuthProg.over ws p).bind tail) tr (.raise e)) :
    (∃ tr0, Path p tr0 (.raise e) ∧ tr = onSocket ws tr0) ∨
      ∃ tr0 a tr2, Path p tr0 (.ret a) ∧ tr = onSocket ws tr0 ++ tr2 ∧
        Path (tail a) tr2 (.raise e) := by
  rcases h.of_bind with ⟨p1,hp,he⟩ | ⟨tr1,tr2,a,rfl,hp,h2⟩
  · obtain ⟨tr0,p0,hp0,rfl,rfl⟩ := path_over hp
    cases p0 with
    | ret a => exact .inr ⟨tr0,a,[],hp0,by simp,by rw [he]; exact .here _⟩
    | raise e' =>
      cases he
      exact .inl ⟨tr0,hp0,rfl⟩
    | ask q k => cases he
  · obtain ⟨tr0,p0,hp0,rfl,he⟩ := path_over hp
    cases p0 with
    | ret b =>
      cases he
      exact .inr ⟨tr0,a,tr2,hp0,rfl,h2⟩
    | raise e' => cases he
    | ask q k => cases he

variable {me : Identity L} {d : AuthDraw} {expected : Option String}

/-- A handshake: the exchange, which returns exactly if it has found a key. -/
def Settles (me : Identity L) (d : AuthDraw) (expected : Option String) (auth : AuthProg α) : Prop :=
  ∃ k, auth = (exchange me expected d).bind k ∧ (∃ e, k none = .raise e) ∧
    ∀ r, ∃ a, k (some r) = .ret a

theorem settles_transport : Settles me d expected (Transport.doAuth me ws expected d) :=
  ⟨_,rfl,⟨_,rfl⟩,fun _ => ⟨_,rfl⟩⟩

theorem settles_client : Settles me d expected (Client.doAuth me expected d) :=
  ⟨_,rfl,⟨_,rfl⟩,fun _ => ⟨_,rfl⟩⟩

theorem Settles.path {auth : AuthProg α} (hauth : Settles me d expected auth)
    {tr : List (Exchange AuthReq AuthAns)} {p : AuthProg α} (h : Path auth tr p) (hp : p.Done) :
    ∃ p', Path (exchange me expected d) tr p' ∧ ((∃ a, p = .ret a) ↔ ∃ r, p' = .ret (some r)) := by
  obtain ⟨k,rfl,⟨e0,hnone⟩,hsome⟩ := hauth
  rcases h.of_bind with ⟨p1,h1,rfl⟩ | ⟨tr1,tr2,x,rfl,h1,h2⟩
  · refine ⟨p1,h1,?_⟩
    cases p1 with
    | ret x =>
      cases x with
      | none => simp [hnone]
      | some r =>
        obtain ⟨a,ha⟩ := hsome r
        simp [ha]
    | raise e => simp
    | ask q k' => exact hp.elim
  · cases x with
    | none =>
      rw [hnone] at h2
      obtain ⟨rfl,rfl⟩ := h2.of_raise
      exact ⟨.ret none,by simpa using h1,by simp⟩
    | some r =>
      obtain ⟨a,ha⟩ := hsome r
      rw [ha] at h2
      obtain ⟨rfl,rfl⟩ := h2.of_ret
      exact ⟨.ret (some r),by simpa using h1,by simp⟩

theorem accepted_of_path {uri : String} {tr : List (Exchange AuthReq AuthAns)} {r : AuthResult}
    (h : Path (exchange me expected d) tr (.ret (some r)))
    (rest : List (Exchange OutReq OutAns)) :
    Accepted me d expected ws (⟨.dial uri,.ok ws⟩ :: onSocket ws tr ++ rest) := by
  cases exchange_path h with
  | idle _ hp => exact (hp _ rfl).elim
  | opened _ _ _ _ _ _ hp => exact (hp _ rfl).elim
  | answered c m1 f a tr _ _ hf _ hp =>
    obtain ⟨rfl,m2,rfl,hk⟩ := hp _ rfl
    exact ⟨uri,c,m1,f,m2,r,rest,hf,hk,rfl⟩

theorem not_accepted_of_path {uri : String} {tr : List (Exchange AuthReq AuthAns)}
    {p : AuthProg (Option AuthResult)} (h : Path (exchange me expected d) tr p)
    (hp : ∀ r, p ≠ .ret (some r)) :
    ¬ Accepted me d expected ws (⟨.dial uri,.ok ws⟩ :: onSocket ws tr) := by
  rintro ⟨_,c,m1,f,m2,r,rest,hf,hk,he⟩
  have he : onSocket ws tr = onSocket ws
      [⟨.send c,.ok ()⟩,⟨.recv,.ok m1⟩,⟨.send f,.ok ()⟩,⟨.recv,.ok m2⟩] ++ rest :=
    (List.cons.inj he).2
  obtain ⟨rest',rfl⟩ := onSocket_append_inv he
  have hc : challengeFrame L me.id expected d = .ok c := by
    rcases exchange_sent h (f := c) (a := .ok ()) (by simp) with hc | ⟨m,_,_⟩
    · exact hc
    · cases exchange_path h with
      | opened _ _ _ _ hc _ _ => exact hc
      | answered _ _ _ _ _ _ hc _ _ _ => exact hc
  obtain ⟨p1,h1,h2⟩ := h.of_append
  have hdone := (exchange_completes hc hf m2).unique h1
  rw [hk] at hdone
  subst hdone
  obtain ⟨_,rfl⟩ := h2.of_ret
  exact hp r rfl

/-- How a call can raise: dialling fails, or the handshake does, or it has found a key
and what follows it raises. -/
theorem path_dialled {auth : Nat → AuthProg α} (hauth : ∀ ws, Settles me d expected (auth ws))
    {tail : Nat → α → OutProg β} {address : String} {tr : List (Exchange OutReq OutAns)} {e : Err}
    (h : Path ((dial address).bind (fun ws => (AuthProg.over ws (auth ws)).bind (tail ws))) tr
      (.raise e)) :
    (∃ uri x, tr = [⟨.dial uri,.error x⟩]) ∨
    (∃ uri ws tr0 p, tr = ⟨.dial uri,.ok ws⟩ :: onSocket ws tr0 ∧
      Path (exchange me expected d) tr0 p ∧ ∀ r, p ≠ .ret (some r)) ∨
    ∃ uri ws tr0 r a rest, tr = ⟨.dial uri,.ok ws⟩ :: onSocket ws tr0 ++ rest ∧
      Path (exchange me expected d) tr0 (.ret (some r)) ∧ Path (tail ws a) rest (.raise e) := by
  rcases h with _ | ⟨_,_,a,h⟩
  cases a with
  | error x =>
    obtain ⟨rfl,_⟩ := h.of_raise
    exact .inl ⟨_,x,rfl⟩
  | ok ws =>
    rcases path_raised h with ⟨tr0,hp,rfl⟩ | ⟨tr0,a,rest,hp,rfl,ht⟩
    · obtain ⟨p,hp,hret⟩ := (hauth ws).path hp trivial
      refine .inr (.inl ⟨_,ws,tr0,p,rfl,hp,fun r he => ?_⟩)
      obtain ⟨_,hr⟩ := hret.mpr ⟨r,he⟩
      cases hr
    · obtain ⟨p,hp,hret⟩ := (hauth ws).path hp trivial
      obtain ⟨r,rfl⟩ := hret.mp ⟨a,rfl⟩
      exact .inr (.inr ⟨_,ws,tr0,r,a,rest,rfl,hp,ht⟩)

end Paths

/-- What a call that raises may have asked for. -/
def Calm (ws : Nat) : OutReq → Prop
  | .dial _ | .io _ _ => True
  | .join ws' _ => ws' = ws
  | _ => False

def Joins (tr : List (Exchange OutReq OutAns)) : Prop :=
  ∃ x ∈ tr, ∃ ws pub, x.1 = .join ws pub

/-- The exchanges of a call that raises once socket `ws` is open. -/
structure Raised (me : Identity L) (d : AuthDraw) (expected : Option String) (ws : Nat)
    (tr : List (Exchange OutReq OutAns)) : Prop where
  opens : ∀ uri ws', (⟨.dial uri,.ok ws'⟩ : Exchange OutReq OutAns) ∈ tr → ws' = ws
  calm : ∀ x ∈ tr, Calm ws x.1
  joins : Joins tr ↔ Accepted me d expected ws tr

theorem mem_onSocket {ws : Nat} {tr : List (Exchange AuthReq AuthAns)}
    {x : Exchange OutReq OutAns} (h : x ∈ onSocket ws tr) : ∃ q, x.1 = .io ws q := by
  obtain ⟨e,_,rfl⟩ := List.mem_map.mp h
  exact ⟨e.1,rfl⟩

section Calls

variable {me : Identity L} {d : AuthDraw} {expected : Option String} {ws : Nat}

theorem raised_handshake {uri : String} {tr : List (Exchange AuthReq AuthAns)}
    {p : AuthProg (Option AuthResult)} (h : Path (exchange me expected d) tr p)
    (hp : ∀ r, p ≠ .ret (some r)) :
    Raised me d expected ws (⟨.dial uri,.ok ws⟩ :: onSocket ws tr) where
  opens := by
    intro uri' ws' hm
    rcases List.mem_cons.mp hm with hm | hm
    · cases hm
      rfl
    · obtain ⟨q,hq⟩ := mem_onSocket hm
      cases hq
  calm := by
    intro x hx
    rcases List.mem_cons.mp hx with rfl | hx
    · trivial
    · obtain ⟨q,hq⟩ := mem_onSocket hx
      rw [hq]
      trivial
  joins := by
    refine iff_of_false ?_ (not_accepted_of_path h hp)
    rintro ⟨x,hx,ws',pub,hj⟩
    rcases List.mem_cons.mp hx with rfl | hx
    · cases hj
    · obtain ⟨q,hq⟩ := mem_onSocket hx
      rw [hq] at hj
      cases hj

/-- What the registration asks for before it raises. -/
theorem path_register {self : CellClient L} {st : Stamp} {pub : Bytes} {e : Err}
    {tr : List (Exchange OutReq OutAns)} (h : Path (register self st ws pub) tr (.raise e)) :
    ∃ rest, tr = ⟨.join ws pub,()⟩ :: rest ∧ ∀ x ∈ rest, ∃ q, x.1 = .io ws q := by
  rcases h with _ | ⟨_,_,⟨⟩,h⟩
  simp only [Prog.bind_eq] at h
  cases hr : (self.joined ws pub).registration st with
  | error e' =>
    rw [hr] at h
    obtain ⟨rfl,_⟩ := h.of_raise
    exact ⟨[],rfl,by simp⟩
  | ok reg =>
    simp only [hr,Prog.ofExcept_ok,Prog.bind_ret] at h
    rcases h with _ | ⟨_,_,a,h⟩
    cases a with
    | error e' =>
      obtain ⟨rfl,_⟩ := h.of_raise
      exact ⟨_,rfl,by simp⟩
    | ok u =>
      rcases h with _ | ⟨_,_,_,h⟩
      obtain ⟨_,he⟩ := h.of_ret
      cases he

theorem raised_registration {self : CellClient L} {st : Stamp} {pub : Bytes} {e : Err}
    {uri : String} {tr : List (Exchange AuthReq AuthAns)} {r : AuthResult}
    {rest : List (Exchange OutReq OutAns)}
    (h : Path (exchange me expected d) tr (.ret (some r)))
    (ht : Path (register self st ws pub) rest (.raise e)) :
    Raised me d expected ws (⟨.dial uri,.ok ws⟩ :: onSocket ws tr ++ rest) := by
  obtain ⟨rest,rfl,hrest⟩ := path_register ht
  have hcases : ∀ x ∈ (⟨.dial uri,.ok ws⟩ :: onSocket ws tr ++ ⟨.join ws pub,()⟩ :: rest :
      List (Exchange OutReq OutAns)),
      x = ⟨.dial uri,.ok ws⟩ ∨ x = ⟨.join ws pub,()⟩ ∨ ∃ q, x.1 = .io ws q := by
    intro x hx
    rcases List.mem_append.mp hx with hx | hx
    · rcases List.mem_cons.mp hx with hx | hx
      · exact .inl hx
      · exact .inr (.inr (mem_onSocket hx))
    · rcases List.mem_cons.mp hx with hx | hx
      · exact .inr (.inl hx)
      · exact .inr (.inr (hrest x hx))
  refine ⟨fun uri' ws' hm => ?_,fun x hx => ?_,
    iff_of_true ⟨⟨.join ws pub,()⟩,by simp,ws,pub,rfl⟩ (accepted_of_path h _)⟩
  · rcases hcases _ hm with hm | hm | ⟨q,hq⟩
    · cases hm
      rfl
    · cases hm
    · cases hq
  · rcases hcases x hx with rfl | rfl | ⟨q,hq⟩
    · trivial
    · exact rfl
    · rw [hq]
      trivial

end Calls

/-- Every call that raises with a socket open has done nothing but talk over it, unless
its client has accepted the node. -/
theorem call_raised {d : AuthDraw} {call : Call L} {tr : List (Exchange OutReq OutAns)} {e : Err}
    (h : Path (call.prog d) tr (.raise e)) {uri : String} {ws : Nat}
    (hopen : (⟨.dial uri,.ok ws⟩ : Exchange OutReq OutAns) ∈ tr) :
    Raised call.me d call.expected ws tr := by
  have hnode : ∀ (me : Identity L) expected address,
      Path ((dial address).bind (fun ws => (authenticate me d expected ws).bind
        (fun _ => (.ret () : OutProg Unit)))) tr (.raise e) → Raised me d expected ws tr := by
    intro me expected address h
    simp only [authenticate,Prog.bind_eq,Prog.bind_assoc] at h
    rcases path_dialled (fun _ => settles_transport) h with
      ⟨uri,x,rfl⟩ | ⟨uri',ws',tr0,p,rfl,hp,hne⟩ | ⟨uri',ws',tr0,r,a,rest,rfl,hp,ht⟩
    · simp at hopen
    · have hr : Raised me d expected ws' (⟨.dial uri',.ok ws'⟩ :: onSocket ws' tr0) :=
        raised_handshake hp hne
      cases hr.opens _ _ hopen
      exact hr
    · have hsafe : (Prog.ask (.connAdd a) (fun _ => .ask (.startRecv a) (fun _ => .ret ())) :
          OutProg Unit).Safe := fun _ _ => trivial
      exact (ht.safe hsafe).elim
  cases call with
  | connect me address =>
    simp only [Call.prog,Outbound.connect] at h
    split at h
    · obtain ⟨rfl,_⟩ := h.of_raise
      simp at hopen
    · simp only [Prog.bind_eq,Prog.bind_assoc] at h
      exact hnode me none address h
  | connectToNode me nodeId address =>
    simp only [Call.prog,connectToNode,Prog.bind_eq,Prog.bind_assoc] at h
    exact hnode me (some nodeId) address h
  | client self st address expected =>
    simp only [Call.prog,clientConnect,Prog.bind_eq] at h
    rcases path_dialled (fun _ => settles_client) h with
      ⟨uri,x,rfl⟩ | ⟨uri',ws',tr0,p,rfl,hp,hne⟩ | ⟨uri',ws',tr0,r,a,rest,rfl,hp,ht⟩
    · simp at hopen
    · have hr : Raised self.identity d expected ws' (⟨.dial uri',.ok ws'⟩ :: onSocket ws' tr0) :=
        raised_handshake hp hne
      cases hr.opens _ _ hopen
      exact hr
    · have hr : Raised self.identity d expected ws'
          (⟨.dial uri',.ok ws'⟩ :: onSocket ws' tr0 ++ rest) := raised_registration hp ht
      cases hr.opens _ _ hopen
      exact hr

/-- What the exchanges of a call have done to the state it found. -/
structure Tracks (w0 : OutState L) (ws : Nat) (tr : List (Exchange OutReq OutAns))
    (w : OutState L) : Prop where
  same : ¬ Joins tr → w0.SameState w
  joined : Joins tr → w.client.ws = some ws
  grown : w0.sockets.length ≤ w.sockets.length
  opened : ∀ uri k, (⟨.dial uri,.ok k⟩ : Exchange OutReq OutAns) ∈ tr →
    w0.sockets.length ≤ k ∧ k < w.sockets.length
  untouched : ∀ k s, w0.sockets.length ≤ k → w.sockets[k]? = some s → s.closedHere = false

section Tracks

variable {w0 w w' : OutState L} {ws : Nat} {tr : List (Exchange OutReq OutAns)}

theorem joins_append {x : Exchange OutReq OutAns} :
    Joins (tr ++ [x]) ↔ Joins tr ∨ ∃ ws pub, x.1 = .join ws pub := by
  simp only [Joins,List.mem_append,List.mem_singleton]
  constructor
  · rintro ⟨y,hy | rfl,h⟩
    · exact .inl ⟨y,hy,h⟩
    · exact .inr h
  · rintro (⟨y,hy,h⟩ | h)
    · exact ⟨y,.inl hy,h⟩
    · exact ⟨x,.inr rfl,h⟩

/-- A request that is neither a dial nor a join changes nothing here. -/
theorem Tracks.io (h : Tracks w0 ws tr w) {k : Nat} {q : AuthReq} (a : AuthAns q) :
    Tracks w0 ws (tr ++ [⟨.io k q,a⟩]) w where
  same := fun hj => h.same (fun hj' => hj (joins_append.mpr (.inl hj')))
  joined := fun hj => h.joined ((joins_append.mp hj).resolve_right (by simp))
  grown := h.grown
  opened := fun uri k hm => h.opened uri k (by simpa using hm)
  untouched := h.untouched

theorem Tracks.dial (h : Tracks w0 ws tr w) {uri : String} {a : Except Err Nat}
    (ha : w.Answers (.dial uri) a w') : Tracks w0 ws (tr ++ [⟨.dial uri,a⟩]) w' := by
  have hjoins : Joins (tr ++ [⟨.dial uri,a⟩]) ↔ Joins tr := by simp [joins_append]
  cases a with
  | error e =>
    cases ha
    exact ⟨fun hj => h.same (hjoins.not.mp hj),fun hj => h.joined (hjoins.mp hj),h.grown,
      fun uri' k hm => h.opened uri' k (by simpa using hm),h.untouched⟩
  | ok n =>
    obtain ⟨rfl,hsockets,hsame⟩ := ha
    have hlen : w'.sockets.length = w.sockets.length + 1 := by simp [hsockets]
    have hgrown := h.grown
    refine ⟨fun hj => ?_,fun hj => ?_,by omega,fun uri' k hm => ?_,fun k s hk hs => ?_⟩
    · have hs := h.same (hjoins.not.mp hj)
      exact ⟨hsame.connections.trans hs.connections,hsame.client.trans hs.client,
        hsame.recvTask.trans hs.recvTask⟩
    · rw [hsame.client]
      exact h.joined (hjoins.mp hj)
    · rcases List.mem_append.mp hm with hm | hm
      · have hold := h.opened uri' k hm
        omega
      · have hk : k = w.sockets.length := by
          cases List.mem_singleton.mp hm
          rfl
        omega
    · rw [hsockets] at hs
      rcases Nat.lt_or_ge k w.sockets.length with hlt | hge
      · rw [List.getElem?_append_left hlt] at hs
        exact h.untouched k s hk hs
      · rw [List.getElem?_append_right hge,List.getElem?_singleton] at hs
        split at hs
        · cases hs
          rfl
        · cases hs

theorem Tracks.join (h : Tracks w0 ws tr w) {pub : Bytes} {a : OutAns (.join ws pub)}
    (ha : w.Answers (.join ws pub) a w') : Tracks w0 ws (tr ++ [⟨.join ws pub,a⟩]) w' := by
  obtain ⟨hsockets,_,hclient,_⟩ := ha
  refine ⟨fun hj => (hj (joins_append.mpr (.inr ⟨ws,pub,rfl⟩))).elim,fun _ => ?_,?_,?_,?_⟩
  · rw [hclient]
    rfl
  · rw [hsockets]
    exact h.grown
  · intro uri k hm
    rw [hsockets]
    exact h.opened uri k (by simpa using hm)
  · rw [hsockets]
    exact h.untouched

theorem Tracks.answer (h : Tracks w0 ws tr w) {q : OutReq} {a : OutAns q} (hq : Calm ws q)
    (ha : w.Answers q a w') : Tracks w0 ws (tr ++ [⟨q,a⟩]) w' := by
  cases q with
  | dial uri => exact h.dial ha
  | io k q =>
    have hw : w' = w := by
      cases q with
      | send f => exact ha.1
      | recv => exact ha.1
    subst hw
    exact h.io a
  | join k pub =>
    cases hq
    exact h.join ha
  | _ => exact hq.elim

theorem Tracks.drift (h : Tracks w0 ws tr w) (hd : w.Drifts w') : Tracks w0 ws tr w' := by
  obtain ⟨k,hsockets,hsame⟩ := hd
  have hlen : w'.sockets.length = w.sockets.length := by simp [hsockets]
  refine ⟨fun hj => ?_,fun hj => ?_,by rw [hlen]; exact h.grown,
    fun uri j hm => by rw [hlen]; exact h.opened uri j hm,fun j s hj hs => ?_⟩
  · have hs := h.same hj
    exact ⟨hsame.connections.trans hs.connections,hsame.client.trans hs.client,
      hsame.recvTask.trans hs.recvTask⟩
  · rw [hsame.client]
    exact h.joined hj
  · rw [hsockets,List.getElem?_modify] at hs
    obtain ⟨s',hs',rfl⟩ := Option.map_eq_some_iff.mp hs
    have hold := h.untouched j s' hj hs'
    split <;> exact hold

/-- A call in progress that only talks leaves what it found as it is. -/
theorem tracks_steps {p : OutProg Unit} {P : Pool Unit OutReq OutAns Err Unit (OutState L)}
    (hP : Pool.Steps (rules L) (begun p w0) P) (hcalm : ∀ x ∈ P.history (), Calm ws x.1) :
    Tracks w0 ws (P.history ()) P.world := by
  induction hP with
  | refl =>
    refine ⟨fun _ => ⟨rfl,rfl,rfl⟩,fun ⟨_,hx,_⟩ => absurd hx List.not_mem_nil,Nat.le_refl _,
      fun _ _ hm => absurd hm List.not_mem_nil,fun k s hk hs => ?_⟩
    simp only [begun,List.getElem?_eq_none hk] at hs
    cases hs
  | tail _ hs ih =>
    cases hs with
    | answer i q k a w ht ha =>
      simp only [Function.update_self,List.forall_mem_append,List.forall_mem_singleton] at hcalm ⊢
      exact (ih hcalm.1).answer hcalm.2 ha
    | start i p w _ h => exact h.elim
    | drift w hd => exact (ih hcalm).drift hd

end Tracks

theorem launched_steps {p : OutProg Unit} {w : OutState L}
    {P : Pool Unit OutReq OutAns Err Unit (OutState L)}
    (hP : Pool.Steps (rules L) (begun p w) P) : P.launched () = p := by
  refine Pool.invariant_of_steps (J := fun P => P.launched () = p) (fun P1 P2 h hs => ?_) hP rfl
  cases hs with
  | answer i q k a w ht ha => exact h
  | start i p w _ hstart => exact hstart.elim
  | drift w hd => exact h

/-- A call that fails after it has opened a socket never closes it: nothing is left
behind exactly if the connection was lost anyway, and no client has taken the node for
its own before it sends its registration. -/
theorem leavesNothing_iff {d : AuthDraw} {call : Call L} {w : OutState L}
    {P : Pool Unit OutReq OutAns Err Unit (OutState L)}
    (hP : Pool.Steps (rules L) (begun (call.prog d) w) P) {e : Err}
    (hend : P.tasks () = .raise e) {uri : String} {ws : Nat}
    (hopen : (⟨.dial uri,.ok ws⟩ : Exchange OutReq OutAns) ∈ P.history ()) :
    LeavesNothing w P.world ws ↔
      P.world.Lost ws ∧ ¬ Accepted call.me d call.expected ws (P.history ()) := by
  have hon : (begun (call.prog d) w).OnPath := fun _ => .here _
  have hpath := hon.steps hP ()
  rw [launched_steps hP,hend] at hpath
  have hraised := call_raised hpath hopen
  have htracks : Tracks w ws (P.history ()) P.world := tracks_steps hP hraised.calm
  obtain ⟨hold,hnew⟩ := htracks.opened uri ws hopen
  rw [← hraised.joins]
  constructor
  · rintro ⟨⟨s,hs,hclosed⟩,hsame⟩
    refine ⟨⟨s,hs,?_⟩,fun hj => ?_⟩
    · simpa [OutSocket.closed,htracks.untouched ws s hold hs] using hclosed
    · have hmine := w.opened ws (by rw [← hsame.client]; exact htracks.joined hj)
      omega
  · rintro ⟨⟨s,hs,hlost⟩,hj⟩
    exact ⟨⟨s,hs,by simp [OutSocket.closed,hlost]⟩,htracks.same hj⟩

/-- The side that accepts a connection closes it when the handshake fails. -/
theorem incoming_closes {me : Identity L} {d : AuthDraw} {ws : Nat}
    {tr : List (Exchange OutReq OutAns)}
    (h : Path (handleIncoming me d ws) tr (.ret ())) :
    (⟨.close ws,()⟩ : Exchange OutReq OutAns) ∈ tr ∨
      ∃ conn, (⟨.connAdd conn,()⟩ : Exchange OutReq OutAns) ∈ tr := by
  have hprog : Heeds (fun _ _ => True) (fun _ _ => True)
      (fun later _ => (⟨.close ws,()⟩ : Exchange OutReq OutAns) ∈ later ∨
        ∃ conn, (⟨.connAdd conn,()⟩ : Exchange OutReq OutAns) ∈ later) []
      (handleIncoming me d ws) := by
    have htry : Heeds (fun _ _ => True) (fun _ _ => True)
        (fun later x => x = none → (⟨.close ws,()⟩ : Exchange OutReq OutAns) ∈ later) []
        (Prog.rescue ((AuthProg.over ws (Transport.doAuth me ws none d)).bind
            (fun conn => .ret (some conn)))
          (fun e => if e = cancelledError then .raise e
            else .ask (.close ws) (fun _ => .ret none))) := by
      refine Heeds.rescue ((heeds_extends _).bind (fun _ conn _ he => by cases he)) (fun later e => ?_)
      split
      · trivial
      · exact ⟨trivial,fun _ _ _ => by simp⟩
    refine htry.bind (fun later x hx => ?_)
    cases x with
    | none => exact .inl (hx rfl)
    | some conn => exact ⟨trivial,fun _ _ => ⟨trivial,fun _ _ => .inr ⟨conn,by simp⟩⟩⟩
  exact (hprog.path h (fun _ _ => trivial)).2

section Refinement

variable {me : Identity L} {d : AuthDraw} {expected : Option String} {address : String}
  {tr : List (Exchange OutReq OutAns)} {p : OutProg PeerConnection}

/-- A connection that was authenticated is entered in the registry, and only that one. -/
theorem path_authenticate (h : Path ((dial address).bind (authenticate me d expected)) tr p)
    (hp : p.Done) :
    (∃ e, p = .raise e ∧ ∀ conn, (⟨.connAdd conn,()⟩ : Exchange OutReq OutAns) ∉ tr) ∨
      ∃ conn, p = .ret conn ∧
        ∀ c, (⟨.connAdd c,()⟩ : Exchange OutReq OutAns) ∈ tr ↔ c = conn := by
  have hio : ∀ {uri : String} {ws : Nat} {a : Except Err Nat}
      {tr0 : List (Exchange AuthReq AuthAns)} (conn : PeerConnection),
      (⟨.connAdd conn,()⟩ : Exchange OutReq OutAns) ∉ ⟨.dial uri,a⟩ :: onSocket ws tr0 := by
    intro uri ws a tr0 conn hm
    rcases List.mem_cons.mp hm with hm | hm
    · cases hm
    · obtain ⟨q,hq⟩ := mem_onSocket hm
      cases hq
  rcases h with _ | ⟨_,_,a,h⟩
  · exact hp.elim
  cases a with
  | error e =>
    obtain ⟨rfl,rfl⟩ := h.of_raise
    exact .inl ⟨e,rfl,by simp⟩
  | ok ws =>
    simp only [Prog.ofExcept_ok,Prog.bind_ret,authenticate,Prog.bind_eq] at h
    rcases h.of_bind with ⟨p1,hp1,rfl⟩ | ⟨tr1,tr2,conn,rfl,h1,h2⟩
    · obtain ⟨tr0,p0,_,rfl,rfl⟩ := path_over hp1
      cases p0 with
      | ret conn => exact hp.elim
      | raise e => exact .inl ⟨e,rfl,hio⟩
      | ask q k => exact hp.elim
    · obtain ⟨tr0,_,_,rfl,_⟩ := path_over h1
      rcases h2 with _ | ⟨_,_,_,h2⟩
      · exact hp.elim
      rcases h2 with _ | ⟨_,_,_,h2⟩
      · exact hp.elim
      obtain ⟨rfl,rfl⟩ := h2.of_ret
      refine .inr ⟨conn,rfl,fun c => ⟨fun hm => ?_,fun hc => by subst hc; simp⟩⟩
      rw [← List.cons_append] at hm
      rcases List.mem_append.mp hm with hm | hm
      · exact (hio c hm).elim
      · rcases List.mem_cons.mp hm with hm | hm
        · cases hm
          rfl
        · simp at hm

/-- What the rest of the program sees of a call: a `dial` with the same outcome, and
the same connections entered. -/
theorem outbound_refines (nodeId : String) (entryAddress : Val) (hp : p.Done) :
    (Path (Outbound.connect me d address) tr p → ∃ result tr', p = .ofExcept result ∧
      Path (Transport.connect address) tr' (.ofExcept result) ∧
      ∀ conn, (⟨.connAdd conn,()⟩ : Exchange OutReq OutAns) ∈ tr ↔
        (⟨.connAdd conn,()⟩ : Exchange Req Ans) ∈ tr') ∧
    (Path (connectToNode me d nodeId (entryAddress.pyStr L.repr)) tr p →
      ∃ result tr', p = .ofExcept result ∧
      Path (Transport.connectToNode L nodeId entryAddress) tr' (.ofExcept result) ∧
      ∀ conn, (⟨.connAdd conn,()⟩ : Exchange OutReq OutAns) ∈ tr ↔
        (⟨.connAdd conn,()⟩ : Exchange Req Ans) ∈ tr') := by
  refine ⟨fun h => ?_,fun h => ?_⟩
  · unfold Outbound.connect at h
    unfold Transport.connect
    split at h
    · obtain ⟨rfl,rfl⟩ := h.of_raise
      rename_i hcolon
      exact ⟨.error _,[],rfl,by rw [if_pos hcolon]; exact .here _,by simp⟩
    · rename_i hcolon
      rw [if_neg hcolon]
      rcases path_authenticate h hp with ⟨e,rfl,hnot⟩ | ⟨conn,rfl,hadd⟩
      · exact ⟨.error e,[⟨.dial none address,.error e⟩],rfl,.step _ _ _ (.here _),
          fun conn => by simp [hnot conn]⟩
      · refine ⟨.ok conn,[⟨.dial none address,.ok conn⟩,⟨.connAdd conn,()⟩,
          ⟨.startRecv conn false,()⟩],rfl,.step _ _ _ (.step _ _ _ (.step _ _ _ (.here _))),
          fun c => ?_⟩
        rw [hadd c]
        simp
  · rcases path_authenticate h hp with ⟨e,rfl,hnot⟩ | ⟨conn,rfl,hadd⟩
    · exact ⟨.error e,[⟨.dial (some nodeId) _,.error e⟩],rfl,.step _ _ _ (.here _),
        fun conn => by simp [hnot conn]⟩
    · refine ⟨.ok conn,[⟨.dial (some nodeId) _,.ok conn⟩,⟨.connAdd conn,()⟩,
        ⟨.startRecv conn false,()⟩],rfl,.step _ _ _ (.step _ _ _ (.step _ _ _ (.here _))),
        fun c => ?_⟩
      rw [hadd c]
      simp

end Refinement

theorem over_path {α : Type} (ws : Nat) {p p' : AuthProg α} {tr : List (Exchange AuthReq AuthAns)}
    (h : Path p tr p') : Path (AuthProg.over ws p) (onSocket ws tr) (AuthProg.over ws p') := by
  induction h with
  | here p => exact .here _
  | step q k a _ ih => exact .step (OutReq.io ws q) (fun a => AuthProg.over ws (k a)) a ih

/-- A node that knows nobody and has no client. -/
def idle : OutState shortSigLib where
  sockets := []
  connections := ConnectionRegistry.empty
  client := ⟨sampleIdentity shortSigLib 3,true,none,"",[]⟩
  recvTask := none
  opened := by simp

def sampleCall : Call shortSigLib := .connect (sampleIdentity shortSigLib 1) "h:1"

/-- The peer answers the challenge with a byte that starts no packet. -/
theorem exists_refused : ∃ (P : Pool Unit OutReq OutAns Err Unit (OutState shortSigLib)) (e : Err)
    (c : Bytes), Pool.Steps (rules shortSigLib) (begun (sampleCall.prog (sampleDraw 1)) idle) P ∧
      P.tasks () = .raise e ∧ P.history () = [⟨.dial "ws://h:1",.ok 0⟩,
        ⟨.io 0 (.send c),.ok ()⟩,⟨.io 0 .recv,.ok [0xc1]⟩] ∧
      P.world.sockets = [OutSocket.fresh] ∧ idle.SameState P.world := by
  obtain ⟨c,hc⟩ := exists_ok (x := challengeFrame shortSigLib (sampleIdentity shortSigLib 1).id
    none (sampleDraw 1)) (by decide +kernel)
  have hr : ∃ e, responseFrame (sampleIdentity shortSigLib 1) (sampleDraw 1) [0xc1] = .error e :=
    ⟨_,rfl⟩
  obtain ⟨e,hr⟩ := hr
  have hx : Path (exchange (sampleIdentity shortSigLib 1) none (sampleDraw 1))
      [⟨.send c,.ok ()⟩,⟨.recv,.ok [0xc1]⟩] (.raise e) := by
    unfold exchange AuthProg.send AuthProg.recv
    simp only [hc,Prog.bind_eq,Prog.ofExcept_ok,Prog.bind_ret,Prog.bind_ask]
    refine .step _ _ _ (.step _ _ _ ?_)
    simp only [hr,Prog.ofExcept_ok,Prog.bind_ret,Prog.ofExcept_error,Prog.bind_raise]
    exact .here _
  let w1 : OutState shortSigLib := { idle with sockets := [OutSocket.fresh], opened := by simp [idle] }
  have hpath : Path (sampleCall.prog (sampleDraw 1)) (⟨.dial "ws://h:1",.ok 0⟩ ::
      onSocket 0 [⟨.send c,.ok ()⟩,⟨.recv,.ok [0xc1]⟩]) (.raise e) := by
    refine .step _ _ _ ?_
    exact ((over_path 0 (hx.bind_left _)).bind_left _).bind_left _
  obtain ⟨P,hs,_,hh,ht,hw⟩ := Pool.exists_run_of_path (R := rules shortSigLib)
    (P := begun (sampleCall.prog (sampleDraw 1)) idle) (i := ()) (w := w1) hpath
    (.cons (v := w1) ⟨rfl,rfl,rfl,rfl,rfl⟩ (.cons (v := w1) ⟨rfl,fun h => by cases h⟩
      (.cons (v := w1) ⟨rfl,fun h => by cases h⟩ (.nil w1))))
  exact ⟨P,e,c,hs,by rw [ht]; rfl,by rw [hh]; rfl,by rw [hw],by rw [hw]; exact ⟨rfl,rfl,rfl⟩⟩

/-- Here the peer closes the socket as well. -/
theorem leavesNothing_sample :
    ∃ P : Pool Unit OutReq OutAns Err Unit (OutState shortSigLib),
      Pool.Steps (rules shortSigLib) (begun (sampleCall.prog (sampleDraw 1)) idle) P ∧
      LeavesNothing idle P.world 0 := by
  obtain ⟨P,e,c,hs,ht,hh,hsockets,hsame⟩ := exists_refused
  let w : OutState shortSigLib := { P.world with
    sockets := [⟨false,true⟩], opened := by rw [hsame.client]; simp [idle] }
  have hdrift : P.world.Drifts w := ⟨0,by rw [hsockets]; rfl,rfl,rfl,rfl⟩
  refine ⟨_,hs.tail (.drift w hdrift),?_⟩
  have hopen : (⟨.dial "ws://h:1",.ok 0⟩ : Exchange OutReq OutAns) ∈ P.history () := by simp [hh]
  refine (leavesNothing_iff (hs.tail (.drift w hdrift)) ht hopen).mpr ⟨⟨⟨false,true⟩,rfl,rfl⟩,?_⟩
  rintro ⟨_,_,_,_,_,_,_,_,_,he⟩
  simp [hh] at he

/-- The handshake fails, and the socket stays open. -/
theorem connect_leaks : ∃ (P : Pool Unit OutReq OutAns Err Unit (OutState shortSigLib)) (e : Err),
    Pool.Steps (rules shortSigLib) (begun (sampleCall.prog (sampleDraw 1)) idle) P ∧
      P.tasks () = .raise e ∧
      (⟨.dial "ws://h:1",.ok 0⟩ : Exchange OutReq OutAns) ∈ P.history () ∧
      ¬ LeavesNothing idle P.world 0 := by
  obtain ⟨P,e,c,hs,ht,hh,hsockets,_⟩ := exists_refused
  refine ⟨P,e,hs,ht,by simp [hh],fun h => ?_⟩
  obtain ⟨s,hsome,hclosed⟩ := h.1
  rw [hsockets] at hsome
  cases hsome
  cases hclosed

end Outbound

end Nevod
