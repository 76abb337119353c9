import Nevod.RecvLoop
import Nevod.Impostor

/-!
Two honest endpoints at the ends of one connection: their handshakes, whatever
they send each other from then on, and the receive loops that read it.
-/

set_option autoImplicit false

namespace Nevod
open Text Resume

variable {L : Lib}

/-- The bytes a map of byte strings takes at most. -/
def fieldsSize (fields : List (String × Bytes)) : Nat :=
  (fields.map (fun f => 10 + (utf8 f.1).length + f.2.length)).sum

def fieldsMap (fields : List (String × Bytes)) : Val :=
  .map (fields.map (fun f => (.str f.1,.bin f.2)))

/-- msgpack writes at most five bytes before a map, a text or a byte string. -/
def Lib.HeadLaws (L : Lib) : Prop :=
  ∀ fields b, L.packb (fieldsMap fields) = .ok b → b.length ≤ 5 + fieldsSize fields

/-- A raw X25519 public key is 32 bytes. -/
def Lib.EncKeyLaws (L : Lib) : Prop := ∀ k, (L.xPublic k).length = 32

/-- A stamp as `uuid4` and the clock give it: a text of bounded length, and a time
that msgpack has a format for. -/
def Stamp.Fits (st : Stamp) : Prop :=
  (utf8 st.id).length < 2^32 ∧ -2^63 ≤ st.ts ∧ st.ts < 2^64

instance (st : Stamp) : Decidable st.Fits := by
  unfold Stamp.Fits
  infer_instance

theorem le_fieldsSize (fields : List (String × Bytes)) :
    fields.length ≤ fieldsSize fields ∧
      ∀ f ∈ fields, (utf8 f.1).length + f.2.length ≤ fieldsSize fields := by
  induction fields with
  | nil => simp [fieldsSize]
  | cons g fields ih =>
    have hcons : fieldsSize (g :: fields) =
        10 + (utf8 g.1).length + g.2.length + fieldsSize fields := by
      simp [fieldsSize]
    rw [hcons,List.length_cons]
    refine ⟨by omega,List.forall_mem_cons.mpr ⟨by omega,fun f hf => ?_⟩⟩
    have := ih.2 f hf
    omega

theorem packable_fieldsMap {fields : List (String × Bytes)} (h : fieldsSize fields < 2^32) :
    (fieldsMap fields).packable packDepth = true := by
  obtain ⟨hlen,hmem⟩ := le_fieldsSize fields
  simp only [fieldsMap,packDepth,Val.packable,List.length_map,List.all_map,Bool.and_eq_true,
    decide_eq_true_eq,List.all_eq_true]
  refine ⟨by omega,fun f hf => ?_⟩
  have := hmem f hf
  simp only [Function.comp,MapKey.toVal,Val.packable,Bool.and_eq_true,decide_eq_true_eq]
  omega

theorem exists_makeEncoded (hp : L.PackLaws) (hh : L.HeadLaws) {st : Stamp}
    {type fromNode toNode : String} {fields : List (String × Bytes)} (hst : st.Fits)
    (htype : (utf8 type).length < 2^32) (hfrom : (utf8 fromNode).length < 2^32)
    (hto : (utf8 toNode).length < 2^32) (h : 5 + fieldsSize fields < 2^32) :
    ∃ p frame, makeEncoded L st type (fieldsMap fields) (.str fromNode) (.str toNode) = .ok p ∧
      pack L p = .ok frame := by
  have hfields : fieldsSize fields < 2^32 := by omega
  obtain ⟨payload,hpay⟩ := hp.packb_ok _ (packable_fieldsMap hfields)
  have hlen : payload.length ≤ 5 + fieldsSize fields := hh fields payload hpay
  obtain ⟨hid,hlo,hhi⟩ := hst
  let p : Packet :=
    { type := .str type, payload := .bin payload, id := .str st.id, ts := .int st.ts,
      fromAddr := .str fromNode, toAddr := .str toNode }
  have hpack : p.toDict.packable packDepth = true := by
    simp only [p,packDepth,Packet.toDict,Val.packable,List.all_cons,List.all_nil,
      Bool.and_eq_true,decide_eq_true_eq,MapKey.toVal]
    exact ⟨by simp,⟨by decide,by decide⟩,⟨by decide,hid⟩,⟨by decide,htype⟩,⟨by decide,hfrom⟩,
      ⟨by decide,hto⟩,⟨by decide,by omega⟩,⟨by decide,by decide⟩,⟨by decide,hlo,hhi⟩,trivial⟩
  obtain ⟨frame,hf⟩ := hp.packb_ok _ hpack
  refine ⟨p,frame,?_,hf⟩
  simp [p,makeEncoded,encodePayload,hpay,bind,Except.bind,pure,Except.pure]

theorem Identity.pub_length (hs : L.SigLaws) (me : Identity L) : me.signing.pub.length = 32 := by
  rw [me.signing.isPair]
  exact hs.pubLength me.signing.priv

theorem Identity.id_length (hs : L.SigLaws) (me : Identity L) : (utf8 me.id).length < 2^32 := by
  have h := length_utf8_le me.id
  rw [Identity.id,length_hex,me.pub_length hs] at h
  rw [Identity.id]
  omega

theorem exists_challengeFrame (hp : L.PackLaws) (hh : L.HeadLaws) (hs : L.SigLaws)
    (me : Identity L) {expected : Option String} {d : AuthDraw} (hd : d.challenge.Fits)
    (he : (utf8 (expected.getD "")).length < 2^32) :
    ∃ c, challengeFrame L me.id expected d = .ok c := by
  have hn := d.nonce.length
  have hsize : 5 + fieldsSize [("nonce",d.nonce.bytes)] < 2^32 := by
    have hkey : (utf8 "nonce").length = 5 := by decide
    simp only [fieldsSize,List.map_cons,List.map_nil,List.sum_cons,List.sum_nil,hkey,hn]
    omega
  obtain ⟨p,frame,hm,hpack⟩ := exists_makeEncoded hp hh hd
    (show (utf8 T.authChallenge).length < 2^32 by decide) (me.id_length hs) he hsize
  refine ⟨frame,?_⟩
  change makeAuthChallenge L d.challenge _ _ _ = _ at hm
  simp [challengeFrame,makeChallenge,hm,hpack,bind,Except.bind,pure,Except.pure]

theorem exists_responseFrame (hp : L.PackLaws) (hh : L.HeadLaws) (hs : L.SigLaws)
    (hx : L.EncKeyLaws) (me you : Identity L) {d d' : AuthDraw} {data : Bytes} {their : Packet}
    (hd : d.response.Fits) (hc : Challenges L data their d'.nonce.bytes)
    (hfrom : their.fromAddr = .str you.id) : ∃ f, responseFrame me d data = .ok f := by
  have hn := d'.nonce.length
  have hpub := me.pub_length hs
  have henc : me.encryption.pub.length = 32 := by
    rw [me.encryption.isPair]
    exact hx me.encryption.priv
  have hsig : (sign d'.nonce.bytes me.signing).length = 64 := hs.length me.signing.priv _
  have hsize : 5 + fieldsSize [("nonce",d'.nonce.bytes),("sig",sign d'.nonce.bytes me.signing),
      ("signing_pubkey",me.signing.pub),("enc_pubkey",me.encryption.pub)] < 2^32 := by
    have hkeys : (utf8 "nonce").length = 5 ∧ (utf8 "sig").length = 3 ∧
        (utf8 "signing_pubkey").length = 14 ∧ (utf8 "enc_pubkey").length = 10 := by decide
    simp only [fieldsSize,List.map_cons,List.map_nil,List.sum_cons,List.sum_nil,hkeys,hn,hpub,
      henc,hsig]
    omega
  obtain ⟨p,frame,hm,hpack⟩ := exists_makeEncoded hp hh hd
    (show (utf8 T.authResponse).length < 2^32 by decide) (me.id_length hs) (you.id_length hs) hsize
  refine ⟨frame,?_⟩
  have hr : respond me d data = .ok p := by
    rw [respond_challenges hc,hfrom]
    exact hm
  simp [responseFrame,hr,hpack,bind,Except.bind]

/-- An endpoint of a connection: a node with its socket, or a cell with its socket
and the callback of its application, which may answer each call differently. -/
inductive Endpoint (L : Lib) where
  | node (self : Node L) (ws : Nat)
  | cell (self : CellClient L) (ws : Nat) (callback : Nat → Val → Bytes → Except Err Unit)

namespace Endpoint

def identity : Endpoint L → Identity L
  | .node self _ => self.identity
  | .cell self _ _ => self.identity

/-- The handshake, and the peer as the endpoint keeps it: a node in its connection,
a cell in its client. -/
def doAuth (e : Endpoint L) (expected : Option String) (d : AuthDraw) : AuthProg AuthResult :=
  match e with
  | .node self ws => do
    let conn ← Transport.doAuth self.identity ws expected d
    pure ⟨conn.peerNodeId,conn.peerSigningPubkey,conn.peerEncPubkey⟩
  | .cell self ws _ => do
    let (nodeSigningPub,nodeEncPub) ← Client.doAuth self.identity expected d
    pure ⟨(self.joined ws nodeSigningPub).nodeId,nodeSigningPub,nodeEncPub⟩

/-- What the endpoint may put on its socket after its handshake: a node whatever it
passes to `send_via` or `send_to`, a cell its CELL_REGISTER and its messages. -/
def Sends (e : Endpoint L) (peer : AuthResult) (frame : Bytes) : Prop :=
  match e with
  | .node self _ => ∃ pkt signed, Transport.wireForm self pkt = .ok (signed,frame)
  | .cell self ws _ =>
    (∃ st, (self.joined ws peer.signingPubkey).registration st = .ok frame) ∨
    ∃ st rnd toCellId toNodeId key plaintext pkt,
      (self.joined ws peer.signingPubkey).send st rnd toCellId toNodeId key plaintext =
        .ok (pkt,frame)

/-- The receive loop of the endpoint is still running after it has read `frames`. -/
def Listens (e : Endpoint L) (peer : AuthResult) (frames : List Bytes) : Prop :=
  match e with
  | .node self ws => ∀ raw ∈ frames, (Transport.handleFrame L (Node.dispatch self)
      ⟨ws,peer.nodeId,peer.signingPubkey,peer.encPubkey,self.id⟩ raw).Safe
  | .cell self ws callback =>
    ((self.joined ws peer.signingPubkey).recvLoop callback 0 frames).2.ws = some ws

/-- No call of the application's callback raises. -/
def CallbackReturns : Endpoint L → Prop
  | .node _ _ => True
  | .cell _ _ callback => ∀ n fromAddr plaintext, callback n fromAddr plaintext = .ok ()

/-- What an endpoint with this identity is accepted as. -/
def asPeer (e : Endpoint L) : AuthResult :=
  ⟨e.identity.id,e.identity.signing.pub,.bin e.identity.encryption.pub⟩

theorem path_doAuth (e you : Endpoint L) {expected : Option String} {d : AuthDraw}
    {c c' f f' : Bytes} (hc : challengeFrame L e.identity.id expected d = .ok c)
    (hf : responseFrame e.identity d c' = .ok f)
    (hk : checkResponse L d expected f' = .ok (some you.asPeer)) :
    Path (e.doAuth expected d)
      [⟨.send c,.ok ()⟩,⟨.recv,.ok c'⟩,⟨.send f,.ok ()⟩,⟨.recv,.ok f'⟩] (.ret you.asPeer) := by
  have h := exchange_completes hc hf f'
  rw [hk] at h
  cases e with
  | node self ws => exact (transport_doAuth_completes ws hc hf hk).bind_left _
  | cell self ws callback =>
    have hclient : Path (Client.doAuth self.identity expected d) _ _ := h.bind_left _
    exact hclient.bind_left _

theorem sends_accepted (hp : L.PackLaws) (hs : L.SigLaws) {e : Endpoint L} {peer : AuthResult}
    {frame : Bytes} (h : e.Sends peer frame) :
    ∃ pkt, accepted L e.identity.signing.pub frame = some pkt := by
  cases e with
  | node self ws =>
    obtain ⟨pkt,signed,hw⟩ := h
    obtain ⟨hsign,hpack⟩ := wireForm_ok hw
    exact ⟨signed,accepted_of_signed hp hs hsign hpack⟩
  | cell self ws callback =>
    rcases h with ⟨st,hr⟩ | ⟨st,rnd,toCellId,toNodeId,key,plaintext,pkt,hsend⟩
    · obtain ⟨reg,signed,_,hsign,hpack⟩ := CellClient.registration_ok hr
      exact ⟨signed,accepted_of_signed hp hs hsign hpack⟩
    · obtain ⟨_,_,_,_,hsign,hpack⟩ := CellClient.send_ok hsend
      exact ⟨pkt,accepted_of_signed hp hs hsign hpack⟩

theorem listens {e : Endpoint L} (hcb : e.CallbackReturns) {peer : AuthResult}
    {frames : List Bytes}
    (h : ∀ raw ∈ frames, ∃ pkt, accepted L peer.signingPubkey raw = some pkt) :
    e.Listens peer frames := by
  have hread : ∀ raw ∈ frames, Readable L peer.signingPubkey raw := by
    intro raw hraw
    obtain ⟨pkt,hacc⟩ := h raw hraw
    obtain ⟨hu,hv⟩ := accepted_eq_some.mp hacc
    exact ⟨pkt,true,hu,hv⟩
  cases e with
  | node self ws =>
    intro raw hraw
    rw [Transport.handleFrame_readable (hread raw hraw)]
    cases accepted L peer.signingPubkey raw with
    | none => trivial
    | some pkt => exact Prog.safe_rescue (fun _ => trivial)
  | cell self ws callback =>
    have hgo : ((self.joined ws peer.signingPubkey).recvLoop callback 0 frames).2 =
        self.joined ws peer.signingPubkey := CellClient.recvLoop_goes_on hcb 0 hread
    exact congrArg CellClient.ws hgo

end Endpoint

/-- The two ends of a connection, what each expects of the other and what it draws. -/
structure Meeting (L : Lib) where
  ends : Bool → Endpoint L
  expected : Bool → Option String
  draw : Bool → AuthDraw
  expected_true : ∀ i, expected i = none ∨ expected i = some (ends (!i)).identity.id
  fits : ∀ i, (draw i).challenge.Fits ∧ (draw i).response.Fits

/-- The handshakes in progress, the frames on their way from each end, and what
each end has sent and its receive loop has read since its handshake. -/
structure Link where
  tasks : Bool → AuthProg AuthResult
  wire : Bool → List Bytes
  sent : Bool → List Bytes
  read : Bool → List Bytes

namespace Meeting

def initial (M : Meeting L) : Link where
  tasks := fun i => (M.ends i).doAuth (M.expected i) (M.draw i)
  wire := fun _ => []
  sent := fun _ => []
  read := fun _ => []

/-- One of the two programs goes on: its handshake sends or receives, or its receive
loop, which starts after the handshake, reads a frame. -/
inductive Advance (M : Meeting L) (s : Link) : Link → Prop where
  | send (i : Bool) (frame : Bytes) (k : Except Err Unit → AuthProg AuthResult)
      (ht : s.tasks i = .ask (.send frame) k) :
      Advance M s { s with
        tasks := Function.update s.tasks i (k (.ok ()))
        wire := Function.update s.wire i (s.wire i ++ [frame]) }
  | recv (i : Bool) (frame : Bytes) (later : List Bytes)
      (k : Except Err Bytes → AuthProg AuthResult) (ht : s.tasks i = .ask .recv k)
      (hw : s.wire (!i) = frame :: later) :
      Advance M s { s with
        tasks := Function.update s.tasks i (k (.ok frame))
        wire := Function.update s.wire (!i) later }
  | read (i : Bool) (peer : AuthResult) (frame : Bytes) (later : List Bytes)
      (ht : s.tasks i = .ret peer) (hl : (M.ends i).Listens peer (s.read i))
      (hw : s.wire (!i) = frame :: later) :
      Advance M s { s with
        wire := Function.update s.wire (!i) later
        read := Function.update s.read i (s.read i ++ [frame]) }

/-- Either that, or an end that has finished its handshake sends a frame. -/
inductive Step (M : Meeting L) (s : Link) : Link → Prop where
  | advance {s' : Link} (h : M.Advance s s') : Step M s s'
  | use (i : Bool) (peer : AuthResult) (frame : Bytes) (ht : s.tasks i = .ret peer)
      (hs : (M.ends i).Sends peer frame) :
      Step M s { s with
        wire := Function.update s.wire i (s.wire i ++ [frame])
        sent := Function.update s.sent i (s.sent i ++ [frame]) }

/-- Both handshakes have returned with the other end as the peer, and all that was
sent since has been read. -/
def Finished (M : Meeting L) (s : Link) : Prop :=
  ∀ i, s.tasks i = .ret (M.ends (!i)).asPeer ∧ s.wire i = [] ∧ s.read (!i) = s.sent i

/-- What is left of a handshake that sends `c` and `f` and receives `c'` and `f'`. -/
inductive Remains (c c' f f' : Bytes) : List (Exchange AuthReq AuthAns) → Prop where
  | all : Remains c c' f f' [⟨.send c,.ok ()⟩,⟨.recv,.ok c'⟩,⟨.send f,.ok ()⟩,⟨.recv,.ok f'⟩]
  | challenged : Remains c c' f f' [⟨.recv,.ok c'⟩,⟨.send f,.ok ()⟩,⟨.recv,.ok f'⟩]
  | answering : Remains c c' f f' [⟨.send f,.ok ()⟩,⟨.recv,.ok f'⟩]
  | answered : Remains c c' f f' [⟨.recv,.ok f'⟩]
  | nothing : Remains c c' f f' []

def outgoing (todo : List (Exchange AuthReq AuthAns)) : List Bytes :=
  todo.filterMap (fun e => match e with
    | ⟨.send f,_⟩ => some f
    | _ => none)

def incoming (todo : List (Exchange AuthReq AuthAns)) : List Bytes :=
  todo.filterMap (fun e => match e with
    | ⟨.recv,.ok m⟩ => some m
    | _ => none)

section Remaining

variable {c c' f f' m : Bytes} {todo : List (Exchange AuthReq AuthAns)}

@[simp] theorem outgoing_nil : outgoing [] = [] := rfl

@[simp] theorem incoming_nil : incoming [] = [] := rfl

@[simp] theorem outgoing_send (a : Except Err Unit) :
    outgoing (⟨.send m,a⟩ :: todo) = m :: outgoing todo := rfl

@[simp] theorem incoming_send (a : Except Err Unit) :
    incoming (⟨.send m,a⟩ :: todo) = incoming todo := rfl

@[simp] theorem outgoing_recv (a : Except Err Bytes) :
    outgoing (⟨.recv,a⟩ :: todo) = outgoing todo := rfl

@[simp] theorem incoming_recv : incoming (⟨.recv,.ok m⟩ :: todo) = m :: incoming todo := rfl

theorem Remains.of_send {a : Except Err Unit} (h : Remains c c' f f' (⟨.send m,a⟩ :: todo)) :
    a = .ok () ∧ Remains c c' f f' todo := by
  cases h with
  | all => exact ⟨rfl,.challenged⟩
  | answering => exact ⟨rfl,.answered⟩

/-- Where a handshake receives, it has more to receive than to send. -/
theorem Remains.of_recv {a : Except Err Bytes} (h : Remains c c' f f' (⟨.recv,a⟩ :: todo)) :
    ∃ m, a = .ok m ∧ Remains c c' f f' todo ∧
      (outgoing todo).length ≤ (incoming todo).length := by
  cases h with
  | challenged => exact ⟨_,rfl,.answering,by simp⟩
  | answered => exact ⟨_,rfl,.nothing,by simp⟩

end Remaining

/-- The frames on the wire from an end are those its peer's handshake still has to
receive, as far as they are sent, and behind them what was sent since. -/
structure Sound (M : Meeting L) (c f : Bool → Bytes) (s : Link)
    (todo : Bool → List (Exchange AuthReq AuthAns)) (flight rest : Bool → List Bytes) : Prop where
  path : ∀ i, Path (s.tasks i) (todo i) (.ret (M.ends (!i)).asPeer)
  remains : ∀ i, Remains (c i) (c (!i)) (f i) (f (!i)) (todo i)
  wire : ∀ i, s.wire i = flight i ++ rest i
  due : ∀ i, flight i ++ outgoing (todo i) = incoming (todo (!i))
  sent : ∀ i, s.sent i = s.read (!i) ++ rest i
  quiet : ∀ i, todo i ≠ [] → s.sent i = []
  signed : ∀ i, ∀ frame ∈ s.sent i,
    ∃ pkt, accepted L (M.ends i).identity.signing.pub frame = some pkt

section Soundness

variable {M : Meeting L} {c f : Bool → Bytes} {s s' : Link}
  {todo : Bool → List (Exchange AuthReq AuthAns)} {flight rest : Bool → List Bytes}

theorem Sound.next (h : M.Sound c f s todo flight rest) {i : Bool} {q : AuthReq}
    {k : AuthAns q → AuthProg AuthResult} (ht : s.tasks i = .ask q k) :
    ∃ a tr, todo i = ⟨q,a⟩ :: tr ∧ Path (k a) tr (.ret (M.ends (!i)).asPeer) := by
  have hp := h.path i
  rw [ht] at hp
  generalize todo i = t at hp
  rcases hp with _ | ⟨_,_,a,hp⟩
  exact ⟨a,_,rfl,hp⟩

theorem Sound.ended (h : M.Sound c f s todo flight rest) {i : Bool} {peer : AuthResult}
    (ht : s.tasks i = .ret peer) : todo i = [] ∧ peer = (M.ends (!i)).asPeer := by
  have hp := h.path i
  rw [ht] at hp
  obtain ⟨hnil,hret⟩ := hp.of_ret
  cases hret
  exact ⟨hnil,rfl⟩

theorem Sound.returned (h : M.Sound c f s todo flight rest) {i : Bool} (ht : todo i = []) :
    s.tasks i = .ret (M.ends (!i)).asPeer := by
  have hp := h.path i
  rw [ht] at hp
  generalize s.tasks i = p at hp
  cases hp
  rfl

/-- While a handshake is not finished, its end has sent nothing else. -/
theorem Sound.rest_nil (h : M.Sound c f s todo flight rest) {i : Bool} (ht : todo i ≠ []) :
    rest i = [] := by
  have hs := h.sent i
  rw [h.quiet i ht] at hs
  exact (List.append_eq_nil_iff.mp hs.symm).2

theorem not_ne_self (i : Bool) : (!i) ≠ i := by cases i <;> decide

theorem eq_not_of_ne {i j : Bool} (h : j ≠ i) : j = !i := by cases i <;> cases j <;> simp_all

/-- What is still to be done: a send puts a frame on the wire, which has then to be
read. -/
def work (s : Link) (todo : Bool → List (Exchange AuthReq AuthAns)) : ℕ :=
  2*((todo false).length + (todo true).length) + ((s.wire false).length + (s.wire true).length)

theorem sum_update {α : Type} (g : Bool → List α) (i : Bool) (l : List α) :
    (Function.update g i l false).length + (Function.update g i l true).length + (g i).length =
      (g false).length + (g true).length + l.length := by
  cases i <;> simp <;> omega

/-- The handshake of one end goes on, the other stays where it is. -/
theorem Sound.goesOn (h : M.Sound c f s todo flight rest) {i : Bool} {p : AuthProg AuthResult}
    {e : Exchange AuthReq AuthAns} {tr : List (Exchange AuthReq AuthAns)} (htodo : todo i = e :: tr)
    (hpath : Path p tr (.ret (M.ends (!i)).asPeer))
    (htail : Remains (c i) (c (!i)) (f i) (f (!i)) tr) :
    (∀ j, Path (Function.update s.tasks i p j) (Function.update todo i tr j)
      (.ret (M.ends (!j)).asPeer)) ∧
    (∀ j, Remains (c j) (c (!j)) (f j) (f (!j)) (Function.update todo i tr j)) ∧
    ∀ j, Function.update todo i tr j ≠ [] → s.sent j = [] := by
  refine ⟨fun j => ?_,fun j => ?_,fun j hne => h.quiet j ?_⟩
  · by_cases hj : j = i
    · subst hj
      simpa using hpath
    · simpa [hj] using h.path j
  · by_cases hj : j = i
    · subst hj
      simpa using htail
    · simpa [hj] using h.remains j
  · by_cases hj : j = i
    · subst hj
      simp [htodo]
    · simpa [hj] using hne

theorem Sound.send (h : M.Sound c f s todo flight rest) {i : Bool} {frame : Bytes}
    {k : Except Err Unit → AuthProg AuthResult} (ht : s.tasks i = .ask (.send frame) k) :
    ∃ todo' flight', M.Sound c f { s with
        tasks := Function.update s.tasks i (k (.ok ()))
        wire := Function.update s.wire i (s.wire i ++ [frame]) } todo' flight' rest ∧
      work { s with
        tasks := Function.update s.tasks i (k (.ok ()))
        wire := Function.update s.wire i (s.wire i ++ [frame]) } todo' < work s todo := by
  obtain ⟨a,tr,htodo,hpath⟩ := h.next ht
  have hrem := h.remains i
  rw [htodo] at hrem
  obtain ⟨rfl,htail⟩ := hrem.of_send
  have hrest : rest i = [] := h.rest_nil (by simp [htodo])
  have hdue := h.due i
  rw [htodo,outgoing_send] at hdue
  have hback := h.due (!i)
  rw [Bool.not_not,htodo,incoming_send] at hback
  obtain ⟨hpaths,hremains,hquiet⟩ := h.goesOn htodo hpath htail
  refine ⟨Function.update todo i tr,Function.update flight i (flight i ++ [frame]),
    { h with path := hpaths, remains := hremains, wire := ?_, due := ?_, quiet := hquiet },?_⟩
  · intro j
    by_cases hj : j = i
    · subst hj
      simp [h.wire j,hrest]
    · simpa [hj] using h.wire j
  · intro j
    by_cases hj : j = i
    · subst hj
      simpa [not_ne_self] using hdue
    · obtain rfl := eq_not_of_ne hj
      simpa [hj] using hback
  · have h1 := sum_update todo i tr
    have h2 := sum_update s.wire i (s.wire i ++ [frame])
    rw [htodo] at h1
    simp only [List.length_append,List.length_cons,List.length_nil] at h1 h2
    simp only [work]
    omega

theorem Sound.recv (h : M.Sound c f s todo flight rest) {i : Bool} {frame : Bytes}
    {later : List Bytes} {k : Except Err Bytes → AuthProg AuthResult}
    (ht : s.tasks i = .ask .recv k) (hw : s.wire (!i) = frame :: later) :
    ∃ todo' flight', M.Sound c f { s with
        tasks := Function.update s.tasks i (k (.ok frame))
        wire := Function.update s.wire (!i) later } todo' flight' rest ∧
      work { s with
        tasks := Function.update s.tasks i (k (.ok frame))
        wire := Function.update s.wire (!i) later } todo' < work s todo := by
  obtain ⟨a,tr,htodo,hpath⟩ := h.next ht
  have hrem := h.remains i
  rw [htodo] at hrem
  obtain ⟨m,rfl,htail,_⟩ := hrem.of_recv
  have hdue := h.due (!i)
  rw [Bool.not_not,htodo,incoming_recv] at hdue
  have hback := h.due i
  rw [htodo,outgoing_recv] at hback
  have hwire := h.wire (!i)
  rw [hw] at hwire
  cases hfl : flight (!i) with
  | nil =>
    -- what is due has not been sent, so nothing can be on the wire
    rw [hfl,List.nil_append] at hdue
    have hne : todo (!i) ≠ [] := by
      intro hnil
      simp [hnil] at hdue
    rw [hfl,h.rest_nil hne] at hwire
    cases hwire
  | cons m' fl =>
    rw [hfl,List.cons_append] at hdue hwire
    obtain ⟨rfl,hdue⟩ := List.cons.inj hdue
    obtain ⟨rfl,rfl⟩ := List.cons.inj hwire
    obtain ⟨hpaths,hremains,hquiet⟩ := h.goesOn htodo hpath htail
    refine ⟨Function.update todo i tr,Function.update flight (!i) fl,
      { h with path := hpaths, remains := hremains, wire := ?_, due := ?_, quiet := hquiet },?_⟩
    · intro j
      by_cases hj : j = i
      · subst hj
        simpa [(not_ne_self j).symm] using h.wire j
      · obtain rfl := eq_not_of_ne hj
        simp
    · intro j
      by_cases hj : j = i
      · subst hj
        simpa [not_ne_self,(not_ne_self j).symm] using hback
      · obtain rfl := eq_not_of_ne hj
        simpa [hj] using hdue
    · have h1 := sum_update todo i tr
      have h2 := sum_update s.wire (!i) (fl ++ rest (!i))
      rw [htodo] at h1
      rw [hw] at h2
      simp only [List.length_cons] at h1 h2
      simp only [work]
      omega

theorem Sound.read (h : M.Sound c f s todo flight rest) {i : Bool} {peer : AuthResult}
    {frame : Bytes} {later : List Bytes} (ht : s.tasks i = .ret peer)
    (hw : s.wire (!i) = frame :: later) :
    ∃ rest', M.Sound c f { s with
        wire := Function.update s.wire (!i) later
        read := Function.update s.read i (s.read i ++ [frame]) } todo flight rest' ∧
      work { s with
        wire := Function.update s.wire (!i) later
        read := Function.update s.read i (s.read i ++ [frame]) } todo < work s todo := by
  obtain ⟨htodo,_⟩ := h.ended ht
  have hdue := h.due (!i)
  rw [Bool.not_not,htodo,incoming_nil] at hdue
  have hfl := (List.append_eq_nil_iff.mp hdue).1
  have hwire := h.wire (!i)
  rw [hw,hfl,List.nil_append] at hwire
  have hsent := h.sent (!i)
  rw [Bool.not_not,← hwire] at hsent
  refine ⟨Function.update rest (!i) later,{ h with wire := ?_, sent := ?_ },?_⟩
  · intro j
    by_cases hj : j = i
    · subst hj
      simpa [(not_ne_self j).symm] using h.wire j
    · obtain rfl := eq_not_of_ne hj
      simp [hfl]
  · intro j
    by_cases hj : j = i
    · subst hj
      simpa [not_ne_self,(not_ne_self j).symm] using h.sent j
    · obtain rfl := eq_not_of_ne hj
      simpa using hsent
  · have h2 := sum_update s.wire (!i) later
    rw [hw] at h2
    simp only [List.length_cons] at h2
    simp only [work]
    omega

theorem Sound.use (hp : L.PackLaws) (hs : L.SigLaws) (h : M.Sound c f s todo flight rest)
    {i : Bool} {peer : AuthResult} {frame : Bytes} (ht : s.tasks i = .ret peer)
    (hf : (M.ends i).Sends peer frame) :
    ∃ rest', M.Sound c f { s with
      wire := Function.update s.wire i (s.wire i ++ [frame])
      sent := Function.update s.sent i (s.sent i ++ [frame]) } todo flight rest' := by
  obtain ⟨htodo,_⟩ := h.ended ht
  refine ⟨Function.update rest i (rest i ++ [frame]),
    { h with wire := ?_, sent := ?_, quiet := ?_, signed := ?_ }⟩
  · intro j
    by_cases hj : j = i
    · subst hj
      simp [h.wire j]
    · simpa [hj] using h.wire j
  · intro j
    by_cases hj : j = i
    · subst hj
      simp [h.sent j]
    · simpa [hj] using h.sent j
  · intro j hne
    have hj : j ≠ i := by
      rintro rfl
      exact hne htodo
    simpa [hj] using h.quiet j hne
  · intro j
    by_cases hj : j = i
    · subst hj
      intro g hg
      simp only [Function.update_self,List.mem_append,List.mem_singleton] at hg
      rcases hg with hg | rfl
      · exact h.signed j g hg
      · exact Endpoint.sends_accepted hp hs hf
    · simpa [hj] using h.signed j

theorem Sound.advance (h : M.Sound c f s todo flight rest) (hs : M.Advance s s') :
    ∃ todo' flight' rest', M.Sound c f s' todo' flight' rest' ∧ work s' todo' < work s todo := by
  cases hs with
  | send i frame k ht =>
    obtain ⟨todo',flight',h'⟩ := h.send ht
    exact ⟨todo',flight',rest,h'⟩
  | recv i frame later k ht hw =>
    obtain ⟨todo',flight',h'⟩ := h.recv ht hw
    exact ⟨todo',flight',rest,h'⟩
  | read i peer frame later ht _ hw =>
    obtain ⟨rest',h'⟩ := h.read ht hw
    exact ⟨todo,flight,rest',h'⟩

theorem Sound.step (hp : L.PackLaws) (hs : L.SigLaws) (h : M.Sound c f s todo flight rest)
    (hstep : M.Step s s') : ∃ todo' flight' rest', M.Sound c f s' todo' flight' rest' := by
  cases hstep with
  | advance ha =>
    obtain ⟨todo',flight',rest',h',_⟩ := h.advance ha
    exact ⟨todo',flight',rest',h'⟩
  | use i peer frame ht hf =>
    obtain ⟨rest',h'⟩ := h.use hp hs ht hf
    exact ⟨todo,flight,rest',h'⟩

theorem Sound.acc (h : M.Sound c f s todo flight rest) : Acc (fun t u => M.Advance u t) s := by
  generalize hn : work s todo = n
  induction n using Nat.strongRecOn generalizing s todo flight rest with
  | ind n ih =>
    refine Acc.intro s (fun t ht => ?_)
    obtain ⟨todo',flight',rest',h',hlt⟩ := h.advance ht
    exact ih _ (by omega) h' rfl

theorem Sound.asks (h : M.Sound c f s todo flight rest) {i : Bool} {q : AuthReq} {a : AuthAns q}
    {tr : List (Exchange AuthReq AuthAns)} (ht : todo i = ⟨q,a⟩ :: tr) :
    ∃ k, s.tasks i = .ask q k := by
  have hp := h.path i
  rw [ht] at hp
  generalize s.tasks i = p at hp
  cases hp
  exact ⟨_,rfl⟩

/-- A handshake that cannot go on waits for a frame that has not been sent. -/
theorem Sound.waits (h : M.Sound c f s todo flight rest) (hstuck : ∀ t, ¬ M.Advance s t)
    {i : Bool} (hne : todo i ≠ []) :
    ∃ m tr, todo i = ⟨.recv,.ok m⟩ :: tr ∧ outgoing (todo (!i)) = m :: incoming tr ∧
      (outgoing tr).length ≤ (incoming tr).length := by
  obtain ⟨⟨q,a⟩,tr,htodo⟩ := List.exists_cons_of_ne_nil hne
  obtain ⟨k,ht⟩ := h.asks htodo
  cases q with
  | send frame => exact absurd (.send i frame k ht) (hstuck _)
  | recv =>
    have hrem := h.remains i
    rw [htodo] at hrem
    obtain ⟨m,rfl,_,hlen⟩ := hrem.of_recv
    have hwire : s.wire (!i) = [] := by
      by_contra hw
      obtain ⟨frame,later,hw⟩ := List.exists_cons_of_ne_nil hw
      exact hstuck _ (.recv i frame later k ht hw)
    have hfl : flight (!i) = [] := by
      rw [h.wire] at hwire
      exact (List.append_eq_nil_iff.mp hwire).1
    have hdue := h.due (!i)
    rw [hfl,Bool.not_not,htodo,List.nil_append,incoming_recv] at hdue
    exact ⟨m,tr,htodo,hdue,hlen⟩

/-- Two handshakes do not wait for each other: each would have to be sent more than
it has to send itself. -/
theorem Sound.todo_nil (h : M.Sound c f s todo flight rest) (hstuck : ∀ t, ¬ M.Advance s t)
    (i : Bool) : todo i = [] := by
  by_contra hne
  obtain ⟨m,tr,htodo,hout,hlen⟩ := h.waits hstuck hne
  have hne' : todo (!i) ≠ [] := by
    intro hnil
    simp [hnil] at hout
  obtain ⟨m',tr',htodo',hout',hlen'⟩ := h.waits hstuck hne'
  rw [htodo',outgoing_recv] at hout
  rw [Bool.not_not,htodo,outgoing_recv] at hout'
  have h1 := congrArg List.length hout
  have h2 := congrArg List.length hout'
  simp only [List.length_cons] at h1 h2
  omega

theorem Sound.listens (h : M.Sound c f s todo flight rest)
    (hcb : ∀ i, (M.ends i).CallbackReturns) {i : Bool} {peer : AuthResult}
    (ht : s.tasks i = .ret peer) : (M.ends i).Listens peer (s.read i) := by
  obtain ⟨_,rfl⟩ := h.ended ht
  refine Endpoint.listens (hcb i) (fun frame hf => h.signed (!i) frame ?_)
  rw [h.sent (!i),Bool.not_not]
  exact List.mem_append_left _ hf

theorem Sound.finished (h : M.Sound c f s todo flight rest)
    (hcb : ∀ i, (M.ends i).CallbackReturns) (hstuck : ∀ t, ¬ M.Advance s t) : M.Finished s := by
  intro i
  have htodo := h.todo_nil hstuck
  have hwire : s.wire i = [] := by
    by_contra hw
    obtain ⟨frame,later,hw⟩ := List.exists_cons_of_ne_nil hw
    have hret := h.returned (htodo (!i))
    rw [← Bool.not_not i] at hw
    exact hstuck _ (.read (!i) _ frame later hret (h.listens hcb hret) hw)
  have hrest : rest i = [] := by
    rw [h.wire] at hwire
    exact (List.append_eq_nil_iff.mp hwire).2
  refine ⟨h.returned (htodo i),hwire,?_⟩
  rw [h.sent i,hrest,List.append_nil]

end Soundness

/-- Both ends can open and answer, and each accepts the answer of the other. -/
theorem sound_initial (hp : L.PackLaws) (hs : L.SigLaws) (hh : L.HeadLaws) (hx : L.EncKeyLaws)
    (M : Meeting L) : ∃ c f todo flight rest, M.Sound c f M.initial todo flight rest := by
  have hlen : ∀ i, (utf8 ((M.expected i).getD "")).length < 2^32 := by
    intro i
    rcases M.expected_true i with he | he
    · rw [he]
      decide
    · rw [he]
      exact (M.ends (!i)).identity.id_length hs
  have hexp : ∀ i, expects (M.expected i) (M.ends (!i)).identity.id = true := by
    intro i
    rcases M.expected_true i with he | he
    · rw [he]
      rfl
    · rw [he]
      simp [expects]
  have hopen := fun i => exists_challengeFrame hp hh hs (M.ends i).identity (M.fits i).1 (hlen i)
  choose c hc using hopen
  have hch := fun i => challenges_challengeFrame hp (hc i)
  choose their hch hfrom using hch
  have hanswer := fun i => exists_responseFrame hp hh hs hx (M.ends i).identity
    (M.ends (!i)).identity (M.fits i).2 (hch (!i)) (hfrom (!i))
  choose f hf using hanswer
  refine ⟨c,f,fun i => [⟨.send (c i),.ok ()⟩,⟨.recv,.ok (c (!i))⟩,⟨.send (f i),.ok ()⟩,
    ⟨.recv,.ok (f (!i))⟩],fun _ => [],fun _ => [],?_⟩
  refine ⟨fun i => ?_,fun i => .all,fun i => rfl,fun i => ?_,fun i => rfl,fun i _ => rfl,
    fun i frame hframe => by cases hframe⟩
  · have hanswered := hf (!i)
    rw [Bool.not_not] at hanswered
    exact Endpoint.path_doAuth (M.ends i) (M.ends (!i)) (hc i) (hf i)
      (checkResponse_expected hp hs hanswered (hch i) (hexp i))
  · simp

theorem sound_of_steps (hp : L.PackLaws) (hs : L.SigLaws) (hh : L.HeadLaws) (hx : L.EncKeyLaws)
    {M : Meeting L} {s : Link} (h : Relation.ReflTransGen M.Step M.initial s) :
    ∃ c f todo flight rest, M.Sound c f s todo flight rest := by
  induction h with
  | refl => exact sound_initial hp hs hh hx M
  | tail _ hstep ih =>
    obtain ⟨c,f,todo,flight,rest,h⟩ := ih
    obtain ⟨todo',flight',rest',h'⟩ := h.step hp hs hstep
    exact ⟨c,f,todo',flight',rest',h'⟩

/-- What is to be expected of a connection of two honest ends in state `s`. -/
structure Succeeds (M : Meeting L) (s : Link) : Prop where
  safe : ∀ i e, s.tasks i ≠ .raise e
  accepts : ∀ i peer, s.tasks i = .ret peer → peer = (M.ends (!i)).asPeer
  /-- What an end has sent since its handshake has been read by the receive loop of
  the other one, in order, up to what is still on the wire behind the frames that the
  handshake there has yet to receive. -/
  ordered : ∀ i, ∃ shaking rest, s.wire i = shaking ++ rest ∧
    s.sent i = s.read (!i) ++ rest ∧ ∀ peer, s.tasks (!i) = .ret peer → shaking = []
  checked : ∀ i, ∀ frame ∈ s.sent i,
    ∃ pkt, accepted L (M.ends i).asPeer.signingPubkey frame = some pkt
  listens : ∀ i peer, s.tasks i = .ret peer → (M.ends i).Listens peer (s.read i)
  /-- The programs go on only for so long, unless new frames are sent. -/
  terminates : Acc (fun t u => M.Advance u t) s
  completes : ∀ t, Relation.ReflTransGen M.Advance s t → (∀ u, ¬ M.Advance t u) → M.Finished t

theorem exists_stuck {M : Meeting L} {s : Link} (h : Acc (fun t u => M.Advance u t) s) :
    ∃ t, Relation.ReflTransGen M.Advance s t ∧ ∀ u, ¬ M.Advance t u := by
  induction h with
  | intro s _ ih =>
    by_cases hs : ∃ u, M.Advance s u
    · obtain ⟨u,hu⟩ := hs
      obtain ⟨t,ht,hstuck⟩ := ih u hu
      exact ⟨t,.head hu ht,hstuck⟩
    · exact ⟨s,.refl,fun u hu => hs ⟨u,hu⟩⟩

theorem sent_of_advance {M : Meeting L} {s t : Link} (h : Relation.ReflTransGen M.Advance s t) :
    t.sent = s.sent := by
  induction h with
  | refl => rfl
  | tail _ hstep ih => cases hstep <;> exact ih

end Meeting

theorem length_encodeAll {d : Nat} {fields : List (String × Bytes)} {b : Bytes}
    (h : Msgpack.encodeAll (Msgpack.encodeEntry (Msgpack.encode (d+1)))
      (fields.map (fun f => (.str f.1,.bin f.2))) = some b) : b.length ≤ fieldsSize fields := by
  induction fields generalizing b with
  | nil =>
    cases h
    simp
  | cons g fields ih =>
    have hcons : fieldsSize (g :: fields) =
        10 + (utf8 g.1).length + g.2.length + fieldsSize fields := by
      simp [fieldsSize]
    simp only [List.map_cons,Msgpack.encodeAll,Msgpack.encodeEntry,MapKey.toVal] at h
    cases hk : Msgpack.encode (d+1) (.str g.1) with
    | none => simp [hk] at h
    | some k =>
      cases hv : Msgpack.encode (d+1) (.bin g.2) with
      | none => simp [hk,hv] at h
      | some v =>
        simp only [hk,hv,Option.map_some,Option.map_eq_some_iff] at h
        obtain ⟨later,hlater,rfl⟩ := h
        have h1 := Msgpack.length_encode_str hk
        have h2 := Msgpack.length_encode_bin hv
        have h3 := ih hlater
        simp only [List.length_append,hcons]
        omega

theorem sampleLib_headLaws (digest : Bytes → Bytes) : (sampleLib digest).HeadLaws := by
  intro fields b h
  change Msgpack.packb _ = _ at h
  unfold Msgpack.packb at h
  split at h
  · rename_i b' he
    cases h
    simp only [fieldsMap,packDepth,Msgpack.encode,Option.bind_eq_some_iff] at he
    obtain ⟨body,hbody,hframed⟩ := he
    have h1 := length_encodeAll hbody
    have h2 := Msgpack.length_framed (Msgpack.length_putHead_map) hframed
    omega
  · cases h

/-- The client of the cell in the sample. -/
def newcomer : CellClient shortSigLib := ⟨sampleIdentity shortSigLib 3,true,none,"",[]⟩

/-- A node, and a cell that knows the node's id. -/
def sampleMeeting : Meeting shortSigLib where
  ends := fun i =>
    if i then .cell newcomer 0 (fun _ _ _ => .ok ()) else .node (sampleNode false) 0
  expected := fun i => if i then some (sampleNode false).id else none
  draw := fun i => sampleDraw (if i then 3 else 1)
  expected_true := by
    intro i
    cases i
    · exact .inl rfl
    · exact .inr rfl
  fits := by decide +kernel

theorem newcomer_registers : ∃ frame,
    (newcomer.joined 0 (sampleNode false).identity.signing.pub).registration ⟨"r",0⟩ =
      .ok frame :=
  exists_ok (by decide +kernel)

end Nevod
