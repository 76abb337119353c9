import Nevod.Auth
import Nevod.Sample
import Nevod.Lib.Resume

/-!
The mutual challenge-response handshake, `Transport._do_auth` and the client's
`_do_auth`: both send a challenge, answer the peer's and check its answer.
-/

set_option autoImplicit false

namespace Nevod
open Text Resume

/-- What `NodeIdentity` and `CellIdentity` share. -/
structure Identity (L : Lib) where
  signing : SigningKeypair L
  encryption : EncryptionKeypair L

variable {L : Lib}

/-- `node_id` and `cell_id`. -/
def Identity.id (self : Identity L) : String := hex self.signing.pub

/-- What a handshake awaits on its socket. A text frame is a failed `recv`. -/
inductive AuthReq where
  | send (frame : Bytes)
  | recv
  deriving DecidableEq

abbrev AuthAns : AuthReq → Type
  | .send _ => Except Err Unit
  | .recv => Except Err Bytes

abbrev AuthProg := Prog AuthReq AuthAns Err

def AuthProg.send (frame : Bytes) : AuthProg Unit :=
  .ask (.send frame) (fun a => .ofExcept a)

def AuthProg.recv : AuthProg Bytes := .ask .recv (fun a => .ofExcept a)

/-- The randomness and clock readings of one handshake. -/
structure AuthDraw where
  nonce : Nonce
  challenge : Stamp
  response : Stamp
  deriving DecidableEq

/-- The frame of our challenge. -/
def challengeFrame (L : Lib) (ourId : String) (expected : Option String) (d : AuthDraw) :
    Except Err Bytes := do
  let (pkt,_) ← makeChallenge L d.challenge d.nonce (.str ourId) (.str (expected.getD ""))
  pack L pkt

/-- The peer's first frame, answered. -/
def respond (me : Identity L) (d : AuthDraw) (data : Bytes) : Except Err Packet := do
  let their ← unpack L data
  if !their.type.eqStr T.authChallenge then
    throw (.valueError ("expected AUTH_CHALLENGE, got " ++ their.type.pyStr L.repr))
  let payload ← decodePayload L their.payload
  let nonce ← payload.item "nonce"
  makeResponse L d.response (.str me.id) their.fromAddr nonce me.signing me.encryption

def responseFrame (me : Identity L) (d : AuthDraw) (data : Bytes) : Except Err Bytes := do
  let response ← respond me d data
  pack L response

/-- The peer's second frame, checked. -/
def checkResponse (L : Lib) (d : AuthDraw) (expected : Option String) (data : Bytes) :
    Except Err (Option AuthResult) := do
  let their ← unpack L data
  if !their.type.eqStr T.authResponse then
    throw (.valueError ("expected AUTH_RESPONSE, got " ++ their.type.pyStr L.repr))
  verifyResponse L their d.nonce.bytes expected

/-- The exchange both `_do_auth` functions consist of. -/
def exchange (me : Identity L) (expected : Option String) (d : AuthDraw) :
    AuthProg (Option AuthResult) := do
  let challenge ← Prog.ofExcept (challengeFrame L me.id expected d)
  AuthProg.send challenge
  let first ← AuthProg.recv
  let response ← Prog.ofExcept (responseFrame me d first)
  AuthProg.send response
  let second ← AuthProg.recv
  Prog.ofExcept (checkResponse L d expected second)

/-- An authenticated connection to a remote node, on socket `ws`. -/
structure PeerConnection where
  ws : Nat
  peerNodeId : String
  peerSigningPubkey : Bytes
  peerEncPubkey : Val
  localNodeId : String

namespace Transport

def doAuth (me : Identity L) (ws : Nat) (expectedNodeId : Option String) (d : AuthDraw) :
    AuthProg PeerConnection := do
  match ← exchange me expectedNodeId d with
  | none => Prog.raise (.valueError "auth verification failed")
  | some r => pure ⟨ws,r.nodeId,r.signingPubkey,r.encPubkey,me.id⟩

end Transport

namespace Client

/-- The keys the peer proved and announced. -/
def doAuth (me : Identity L) (expectedPeerId : Option String) (d : AuthDraw) :
    AuthProg (Bytes × Val) := do
  match ← exchange me expectedPeerId d with
  | none => Prog.raise (.valueError "peer auth verification failed")
  | some r => pure (r.signingPubkey,r.encPubkey)

end Client

theorem challengeFrame_ok {ourId : String} {expected : Option String} {d : AuthDraw}
    {f : Bytes} (h : challengeFrame L ourId expected d = .ok f) :
    ∃ pkt, makeAuthChallenge L d.challenge (.str ourId) (.str (expected.getD ""))
        d.nonce.bytes = .ok pkt ∧ pack L pkt = .ok f := by
  obtain ⟨⟨pkt,n⟩,hc,h⟩ := exists_of_bind h
  exact ⟨pkt,(makeChallenge_ok hc).2,h⟩

/-- A frame is answered when it is a challenge with a byte string as its nonce. -/
structure Challenges (L : Lib) (data : Bytes) (their : Packet) (n : Bytes) : Prop where
  unpacked : unpack L data = .ok their
  type : their.type = .str T.authChallenge
  nonce : (decodePayload L their.payload).bind (fun d => d.item "nonce") = .ok (.bin n)

theorem Challenges.unique {data : Bytes} {p q : Packet} {m n : Bytes}
    (hm : Challenges L data p m) (hn : Challenges L data q n) : p = q ∧ m = n := by
  have hu := hm.unpacked.symm.trans hn.unpacked
  cases hu
  have hv := hm.nonce.symm.trans hn.nonce
  cases hv
  exact ⟨rfl,rfl⟩

theorem challenges_challengeFrame (h : L.PackLaws) {ourId : String} {expected : Option String}
    {d : AuthDraw} {f : Bytes} (hf : challengeFrame L ourId expected d = .ok f) :
    ∃ their, Challenges L f their d.nonce.bytes ∧ their.fromAddr = .str ourId := by
  obtain ⟨pkt,hm,hpack⟩ := challengeFrame_ok hf
  obtain ⟨payload,hpay,rfl⟩ := makeEncoded_ok hm
  have hu := unpack_pack h hpack
  have hd := h.unpackb_packb _ _ hpay
  rw [Val.orEmpty_bin,Val.orEmpty_bin] at hu
  refine ⟨_,⟨hu,rfl,?_⟩,rfl⟩
  simp [decodePayload,hd,Except.bind,Val.item,Val.lookup]

theorem respond_ok {me : Identity L} {d : AuthDraw} {data : Bytes} {p : Packet}
    (h : respond me d data = .ok p) :
    ∃ their n, Challenges L data their n ∧
      makeAuthResponse L d.response (.str me.id) their.fromAddr n (sign n me.signing)
        me.signing.pub me.encryption.pub = .ok p := by
  obtain ⟨their,hu,h⟩ := exists_of_bind h
  by_cases ht : their.type.eqStr T.authChallenge = true
  · simp only [ht,Bool.not_true,Bool.false_eq_true,if_false] at h
    obtain ⟨payload,hp,h⟩ := exists_of_bind h
    obtain ⟨nonce,hn,h⟩ := exists_of_bind h
    obtain ⟨n,rfl,hm⟩ := makeResponse_ok h
    exact ⟨their,n,⟨hu,Val.eqStr_iff.mp ht,by simp [hp,Except.bind,hn]⟩,hm⟩
  · simp [ht,throw,throwThe,MonadExceptOf.throw,bind,Except.bind] at h

theorem respond_challenges {me : Identity L} {d : AuthDraw} {data n : Bytes} {their : Packet}
    (h : Challenges L data their n) :
    respond me d data = makeAuthResponse L d.response (.str me.id) their.fromAddr n
      (sign n me.signing) me.signing.pub me.encryption.pub := by
  obtain ⟨payload,hp,hnonce⟩ := exists_of_bind h.nonce
  simp [respond,h.unpacked,h.type,Val.eqStr,hp,hnonce,makeResponse,Val.asBin,bind,Except.bind]

theorem responseFrame_ok {me : Identity L} {d : AuthDraw} {data f : Bytes}
    (h : responseFrame me d data = .ok f) : ∃ p, respond me d data = .ok p ∧ pack L p = .ok f := by
  exact exists_of_bind h

theorem checkResponse_some {d : AuthDraw} {expected : Option String} {data : Bytes}
    {r : AuthResult} (h : checkResponse L d expected data = .ok (some r)) :
    ∃ their, unpack L data = .ok their ∧ their.type = .str T.authResponse ∧
      verifyResponse L their d.nonce.bytes expected = .ok (some r) := by
  obtain ⟨their,hu,h⟩ := exists_of_bind h
  by_cases ht : their.type.eqStr T.authResponse = true
  · simp only [ht,Bool.not_true,Bool.false_eq_true,if_false] at h
    exact ⟨their,hu,Val.eqStr_iff.mp ht,h⟩
  · simp [ht,throw,throwThe,MonadExceptOf.throw,bind,Except.bind] at h

/-- How far a handshake has come: before its answer is sent nothing but the
challenge is, and it returns only after a second frame passed the check. -/
inductive ExchangeStage (me : Identity L) (expected : Option String) (d : AuthDraw) :
    List (Exchange AuthReq AuthAns) → AuthProg (Option AuthResult) → Prop where
  | idle (p : AuthProg (Option AuthResult)) (hp : ∀ r, p ≠ .ret r) :
      ExchangeStage me expected d [] p
  | opened (c : Bytes) (a : Except Err Unit) (tr : List (Exchange AuthReq AuthAns))
      (p : AuthProg (Option AuthResult))
      (hc : challengeFrame L me.id expected d = .ok c)
      (hs : ∀ f a, (⟨.send f,a⟩ : Exchange AuthReq AuthAns) ∉ tr)
      (hp : ∀ r, p ≠ .ret r) : ExchangeStage me expected d (⟨.send c,a⟩ :: tr) p
  | answered (c m1 f : Bytes) (a : Except Err Unit) (tr : List (Exchange AuthReq AuthAns))
      (p : AuthProg (Option AuthResult))
      (hc : challengeFrame L me.id expected d = .ok c)
      (hf : responseFrame me d m1 = .ok f)
      (hs : ∀ f a, (⟨.send f,a⟩ : Exchange AuthReq AuthAns) ∉ tr)
      (hp : ∀ r, p = .ret r → a = .ok () ∧ ∃ m2, tr = [⟨.recv,.ok m2⟩] ∧
        checkResponse L d expected m2 = .ok r) :
      ExchangeStage me expected d
        (⟨.send c,.ok ()⟩ :: ⟨.recv,.ok m1⟩ :: ⟨.send f,a⟩ :: tr) p

/-- The second half, from the peer's first frame on. -/
theorem exchange_path_answer {me : Identity L} {expected : Option String} {d : AuthDraw}
    {c m1 : Bytes} {tr : List (Exchange AuthReq AuthAns)} {p : AuthProg (Option AuthResult)}
    (hc : challengeFrame L me.id expected d = .ok c)
    (h : Path ((Prog.ofExcept (responseFrame me d m1)).bind (fun f =>
      .ask (.send f) (fun a => (Prog.ofExcept a).bind (fun _ =>
        .ask .recv (fun a => (Prog.ofExcept a).bind (fun m2 =>
          Prog.ofExcept (checkResponse L d expected m2))))))) tr p) :
    ExchangeStage me expected d (⟨.send c,.ok ()⟩ :: ⟨.recv,.ok m1⟩ :: tr) p := by
  cases hf : responseFrame me d m1 with
  | error e =>
    simp only [hf,Prog.ofExcept_error,Prog.bind_raise] at h
    obtain ⟨rfl,rfl⟩ := h.of_raise
    exact .opened c _ _ _ hc (by simp) (by simp)
  | ok f =>
    simp only [hf,Prog.ofExcept_ok,Prog.bind_ret] at h
    rcases h with _ | ⟨_,_,a,h⟩
    · exact .opened c _ _ _ hc (by simp) (by simp)
    · rcases a with e | ⟨⟨⟩⟩
      · obtain ⟨rfl,rfl⟩ := h.of_raise
        exact .answered c m1 f _ [] _ hc hf (by simp) (by simp)
      · rcases h with _ | ⟨_,_,a,h⟩
        · exact .answered c m1 f _ [] _ hc hf (by simp) (by simp)
        · rcases a with e | m2
          · obtain ⟨rfl,rfl⟩ := h.of_raise
            exact .answered c m1 f _ _ _ hc hf (by simp) (by simp)
          · cases hk : checkResponse L d expected m2 with
            | error e =>
              simp only [hk,Prog.ofExcept_ok,Prog.bind_ret,Prog.ofExcept_error] at h
              obtain ⟨rfl,rfl⟩ := h.of_raise
              exact .answered c m1 f _ _ _ hc hf (by simp) (by simp)
            | ok r =>
              simp only [hk,Prog.ofExcept_ok,Prog.bind_ret] at h
              obtain ⟨rfl,rfl⟩ := h.of_ret
              refine .answered c m1 f _ _ _ hc hf (by simp) ?_
              rintro r' hr'
              cases hr'
              exact ⟨rfl,m2,rfl,hk⟩

theorem exchange_path {me : Identity L} {expected : Option String} {d : AuthDraw}
    {tr : List (Exchange AuthReq AuthAns)} {p : AuthProg (Option AuthResult)}
    (h : Path (exchange me expected d) tr p) : ExchangeStage me expected d tr p := by
  unfold exchange AuthProg.send AuthProg.recv at h
  cases hc : challengeFrame L me.id expected d with
  | error e =>
    simp only [hc,Prog.bind_eq,Prog.ofExcept_error,Prog.bind_raise] at h
    obtain ⟨rfl,rfl⟩ := h.of_raise
    exact .idle _ (by simp)
  | ok c =>
    simp only [hc,Prog.bind_eq,Prog.ofExcept_ok,Prog.bind_ret,Prog.bind_ask] at h
    rcases h with _ | ⟨_,_,a,h⟩
    · exact .idle _ (by simp)
    · rcases a with e | ⟨⟨⟩⟩
      · obtain ⟨rfl,rfl⟩ := h.of_raise
        exact .opened c _ _ _ hc (by simp) (by simp)
      · rcases h with _ | ⟨_,_,a,h⟩
        · exact .opened c _ _ _ hc (by simp) (by simp)
        · rcases a with e | m1
          · obtain ⟨rfl,rfl⟩ := h.of_raise
            exact .opened c _ _ _ hc (by simp) (by simp)
          · exact exchange_path_answer hc h
theorem exchange_sent {me : Identity L} {expected : Option String} {d : AuthDraw}
    {tr : List (Exchange AuthReq AuthAns)} {p : AuthProg (Option AuthResult)}
    (h : Path (exchange me expected d) tr p) {f : Bytes} {a : Except Err Unit}
    (hf : (⟨.send f,a⟩ : Exchange AuthReq AuthAns) ∈ tr) :
    challengeFrame L me.id expected d = .ok f ∨
      ∃ m1, (⟨.recv,.ok m1⟩ : Exchange AuthReq AuthAns) ∈ tr ∧ responseFrame me d m1 = .ok f := by
  cases exchange_path h with
  | idle _ _ => simp at hf
  | opened c b tr _ hc hs _ =>
    rcases List.mem_cons.mp hf with hf | hf
    · cases hf
      exact .inl hc
    · exact absurd hf (hs f a)
  | answered c m1 g b tr _ hc hg hs _ =>
    simp only [List.mem_cons,Sigma.mk.injEq,AuthReq.send.injEq,reduceCtorEq,false_and,
      false_or] at hf
    rcases hf with ⟨rfl,_⟩ | ⟨rfl,_⟩ | hf
    · exact .inl hc
    · exact .inr ⟨m1,by simp,hg⟩
    · exact absurd hf (hs f a)

theorem exchange_returned {me : Identity L} {expected : Option String} {d : AuthDraw}
    {tr : List (Exchange AuthReq AuthAns)} {r : Option AuthResult}
    (h : Path (exchange me expected d) tr (.ret r)) :
    ∃ m2, (⟨.recv,.ok m2⟩ : Exchange AuthReq AuthAns) ∈ tr ∧
      checkResponse L d expected m2 = .ok r := by
  cases exchange_path h with
  | idle _ hp => exact absurd rfl (hp r)
  | opened _ _ _ _ _ _ hp => exact absurd rfl (hp r)
  | answered c m1 f a tr _ _ _ _ hp =>
    obtain ⟨_,m2,rfl,hk⟩ := hp r rfl
    exact ⟨m2,by simp,hk⟩

theorem exchange_completes {me : Identity L} {expected : Option String} {d : AuthDraw}
    {c m1 f : Bytes} (hc : challengeFrame L me.id expected d = .ok c)
    (hf : responseFrame me d m1 = .ok f) (m2 : Bytes) :
    Path (exchange me expected d)
      [⟨.send c,.ok ()⟩,⟨.recv,.ok m1⟩,⟨.send f,.ok ()⟩,⟨.recv,.ok m2⟩]
      (.ofExcept (checkResponse L d expected m2)) := by
  unfold exchange AuthProg.send AuthProg.recv
  simp only [hc,Prog.bind_eq,Prog.ofExcept_ok,Prog.bind_ret,Prog.bind_ask]
  refine .step _ _ _ (.step _ _ _ ?_)
  simp only [hf,Prog.ofExcept_ok,Prog.bind_ret]
  exact .step _ _ _ (.step _ _ _ (.here _))

theorem transport_doAuth_path {me : Identity L} {ws : Nat} {expected : Option String}
    {d : AuthDraw} {tr : List (Exchange AuthReq AuthAns)} {p : AuthProg PeerConnection}
    (h : Path (Transport.doAuth me ws expected d) tr p) :
    ∃ p', Path (exchange me expected d) tr p' ∧
      ∀ conn, p = .ret conn → ∃ r, p' = .ret (some r) ∧
        conn = ⟨ws,r.nodeId,r.signingPubkey,r.encPubkey,me.id⟩ := by
  rcases h.of_bind with ⟨p',hp,rfl⟩ | ⟨tr1,tr2,r,rfl,hp,h2⟩
  · refine ⟨p',hp,fun conn hc => ?_⟩
    cases p' with
    | raise e => cases hc
    | ask q k => cases hc
    | ret r =>
      cases r with
      | none => cases hc
      | some r =>
        cases hc
        exact ⟨r,rfl,rfl⟩
  · cases r with
    | none =>
      obtain ⟨rfl,rfl⟩ := Path.of_raise h2
      exact ⟨_,by simpa using hp,by simp⟩
    | some r =>
      obtain ⟨rfl,rfl⟩ := Path.of_ret h2
      refine ⟨_,by simpa using hp,fun conn hc => ⟨r,rfl,?_⟩⟩
      cases hc
      rfl

theorem transport_doAuth_completes {me : Identity L} (ws : Nat) {expected : Option String}
    {d : AuthDraw} {c m1 f m2 : Bytes} {r : AuthResult}
    (hc : challengeFrame L me.id expected d = .ok c) (hf : responseFrame me d m1 = .ok f)
    (hk : checkResponse L d expected m2 = .ok (some r)) :
    Path (Transport.doAuth me ws expected d)
      [⟨.send c,.ok ()⟩,⟨.recv,.ok m1⟩,⟨.send f,.ok ()⟩,⟨.recv,.ok m2⟩]
      (.ret ⟨ws,r.nodeId,r.signingPubkey,r.encPubkey,me.id⟩) := by
  have h := exchange_completes hc hf m2
  rw [hk] at h
  exact h.bind_left _

theorem client_doAuth_path {me : Identity L} {expected : Option String} {d : AuthDraw}
    {tr : List (Exchange AuthReq AuthAns)} {p : AuthProg (Bytes × Val)}
    (h : Path (Client.doAuth me expected d) tr p) :
    ∃ p', Path (exchange me expected d) tr p' := by
  rcases h.of_bind with ⟨p',hp,_⟩ | ⟨tr1,tr2,r,rfl,hp,h2⟩
  · exact ⟨p',hp⟩
  · cases r with
    | none =>
      obtain ⟨rfl,rfl⟩ := Path.of_raise h2
      exact ⟨_,by simpa using hp⟩
    | some r =>
      obtain ⟨rfl,rfl⟩ := Path.of_ret h2
      exact ⟨_,by simpa using hp⟩

/-- The frame sent right after a received one is the answer to it. -/
theorem exchange_answer {me : Identity L} {expected : Option String} {d : AuthDraw}
    {tr pre post : List (Exchange AuthReq AuthAns)} {p : AuthProg (Option AuthResult)}
    (h : Path (exchange me expected d) tr p) {m1 f : Bytes} {a : Except Err Unit}
    (htr : tr = pre ++ ⟨.recv,.ok m1⟩ :: ⟨.send f,a⟩ :: post) :
    responseFrame me d m1 = .ok f := by
  have hmem : (⟨.send f,a⟩ : Exchange AuthReq AuthAns) ∈ ⟨.recv,.ok m1⟩ :: ⟨.send f,a⟩ :: post := by
    simp
  cases exchange_path h with
  | idle _ _ => simp at htr
  | opened c b tr _ _ hs _ =>
    rcases pre with _ | ⟨x,pre⟩
    · simp at htr
    · simp only [List.cons_append,List.cons.injEq] at htr
      exact absurd (by simp [htr.2]) (hs f a)
  | answered c m g b tr _ _ hf hs _ =>
    rcases pre with _ | ⟨x,_ | ⟨y,_ | ⟨z,pre⟩⟩⟩
    · simp at htr
    · simp only [List.cons_append,List.nil_append,List.cons.injEq,Sigma.mk.injEq,heq_eq_eq,
        true_and,Except.ok.injEq,AuthReq.send.injEq] at htr
      rw [← htr.2.1,← htr.2.2.1.1]
      exact hf
    · simp at htr
    · simp only [List.cons_append,List.cons.injEq] at htr
      exact absurd (by simp [htr.2.2.2]) (hs f a)

def sampleIdentity (L : Lib) (b : UInt8) : Identity L :=
  ⟨genSigning L (Seed.fill b),genEncryption L (Seed.fill b)⟩

def sampleDraw (b : UInt8) : AuthDraw := ⟨Nonce.fill b,⟨"c",0⟩,⟨"r",0⟩⟩

end Nevod
