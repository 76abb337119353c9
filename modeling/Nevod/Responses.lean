import Nevod.Handshake

/-!
Which AUTH_RESPONSE packets `verify_response` accepts, and what an accepted one says
about its sender.
-/

set_option autoImplicit false

namespace Nevod
open Text

variable {L : Lib}

/-- `from_public_bytes` refuses exactly the keys that are not 32 bytes long. -/
def Lib.KeyLength (L : Lib) : Prop := ∀ pk, L.edKeyOk pk = true ↔ pk.length = 32

/-- The payload is a map with these byte strings in its four fields, the nonce is the
expected one, the key has the id that is given, and the signature is one of the nonce
under the key. -/
structure ValidResponse (L : Lib) (response : Packet) (expectedNonce : Bytes)
    (expectedNodeId : Option String) (sig pk enc : Bytes) : Prop where
  payload : ∃ entries, decodePayload L response.payload = .ok (.map entries) ∧
    Val.lookup "nonce" entries = some (.bin expectedNonce) ∧
    Val.lookup "sig" entries = some (.bin sig) ∧
    Val.lookup "signing_pubkey" entries = some (.bin pk) ∧
    Val.lookup "enc_pubkey" entries = some (.bin enc)
  expected : ∀ id, expectedNodeId = some id → hex pk = id
  signature : L.edKeyOk pk = true ∧ L.edValid pk sig expectedNonce = true

/-- A valid response gives its keys, and any other packet `None`; nothing raises. -/
structure VerifiesExactly (L : Lib) (response : Packet) (expectedNonce : Bytes)
    (expectedNodeId : Option String) : Prop where
  accepted : ∀ sig pk enc, ValidResponse L response expectedNonce expectedNodeId sig pk enc →
    verifyResponse L response expectedNonce expectedNodeId = .ok (some ⟨hex pk,pk,.bin enc⟩)
  refused : (¬ ∃ sig pk enc, ValidResponse L response expectedNonce expectedNodeId sig pk enc) →
    verifyResponse L response expectedNonce expectedNodeId = .ok none

/-- Where the four fields are there and the nonce is the expected one, the types and
lengths of the others are what the checks after it take for granted. -/
def Checkable (L : Lib) (response : Packet) (expectedNonce : Bytes)
    (expectedNodeId : Option String) : Prop :=
  ∀ c, authClaim L response = .ok c → c.nonce = .bin expectedNonce →
    ∃ id, pubkeyHex L c.signingPubkey = .ok id ∧ (expects expectedNodeId id = true →
      ∃ pk sig, c.signingPubkey = .bin pk ∧ pk.length = 32 ∧ c.sig = .bin sig ∧
        (L.edValid pk sig expectedNonce = true →
          (∃ enc, c.encPubkey = .bin enc) ∧ expectedNodeId ≠ some ""))

theorem item_ok {data v : Val} {key : String} (h : data.item key = .ok v) :
    ∃ entries, data = .map entries ∧ Val.lookup key entries = some v := by
  cases data with
  | map entries =>
    cases hl : Val.lookup key entries with
    | none => simp [Val.item,hl] at h
    | some w =>
      simp only [Val.item,hl,Except.ok.injEq] at h
      subst h
      exact ⟨entries,rfl,hl⟩
  | _ => simp [Val.item] at h

theorem authClaim_iff {response : Packet} {c : AuthClaim} :
    authClaim L response = .ok c ↔
      ∃ entries, decodePayload L response.payload = .ok (.map entries) ∧
        Val.lookup "nonce" entries = some c.nonce ∧ Val.lookup "sig" entries = some c.sig ∧
        Val.lookup "signing_pubkey" entries = some c.signingPubkey ∧
        Val.lookup "enc_pubkey" entries = some c.encPubkey := by
  constructor
  · intro h
    obtain ⟨data,hd,h⟩ := exists_of_bind h
    obtain ⟨nonce,hn,h⟩ := exists_of_bind h
    obtain ⟨sig,hs,h⟩ := exists_of_bind h
    obtain ⟨pk,hk,h⟩ := exists_of_bind h
    obtain ⟨enc,he,h⟩ := exists_of_bind h
    cases h
    obtain ⟨entries,rfl,hln⟩ := item_ok hn
    obtain ⟨_,hm,hls⟩ := item_ok hs
    cases hm
    obtain ⟨_,hm,hlk⟩ := item_ok hk
    cases hm
    obtain ⟨_,hm,hle⟩ := item_ok he
    cases hm
    exact ⟨entries,hd,hln,hls,hlk,hle⟩
  · rintro ⟨entries,hd,hn,hs,hk,he⟩
    simp [authClaim,hd,Val.item,hn,hs,hk,he,bind,Except.bind,pure,Except.pure]

theorem ValidResponse.claim {response : Packet} {n sig pk enc : Bytes} {expected : Option String}
    (h : ValidResponse L response n expected sig pk enc) :
    authClaim L response = .ok ⟨.bin n,.bin sig,.bin pk,.bin enc⟩ := authClaim_iff.mpr h.payload

theorem ValidResponse.expects {response : Packet} {n sig pk enc : Bytes} {expected : Option String}
    (h : ValidResponse L response n expected sig pk enc) : expects expected (hex pk) = true := by
  cases expected with
  | none => rfl
  | some id => simp [Nevod.expects,h.expected id rfl]

/-- What is left to check once the nonce is the expected one. -/
theorem verifyResponse_nonce {response : Packet} {n : Bytes} {expected : Option String}
    {c : AuthClaim} (hc : authClaim L response = .ok c) (hn : c.nonce = .bin n) :
    verifyResponse L response n expected = (pubkeyHex L c.signingPubkey).bind (fun id =>
      if expects expected id then (verify L n c.sig c.signingPubkey).bind (fun valid =>
        if valid then c.signingPubkey.asBin.bind (fun pk => .ok (some ⟨id,pk,c.encPubkey⟩))
        else .ok none)
      else .ok none) := by
  simp only [verifyResponse,hc,Val.eqBin_iff.mpr hn,Bool.not_true,Bool.false_eq_true,if_false]
  cases pubkeyHex L c.signingPubkey with
  | error e => rfl
  | ok id =>
    cases he : expects expected id with
    | false => simp [he,bind,Except.bind,pure,Except.pure]
    | true =>
      cases verify L n c.sig c.signingPubkey with
      | error e => simp [he,bind,Except.bind]
      | ok valid => cases valid <;> simp [he,bind,Except.bind,pure,Except.pure]

/-- Where no exception is raised, a response about the expected nonce is checkable. -/
theorem checkable_of_verifies (hkey : L.KeyLength) {response : Packet} {n : Bytes}
    {expected : Option String} (h : VerifiesExactly L response n expected) :
    Checkable L response n expected := by
  intro c hc hn
  have hraises : ∀ e, verifyResponse L response n expected ≠ .error e := by
    intro e he
    by_cases hv : ∃ sig pk enc, ValidResponse L response n expected sig pk enc
    · obtain ⟨sig,pk,enc,hv⟩ := hv
      rw [h.accepted sig pk enc hv] at he
      cases he
    · rw [h.refused hv] at he
      cases he
  cases hp : c.signingPubkey with
  | bin pk =>
    refine ⟨hex pk,rfl,fun hexp => ?_⟩
    have hlen : pk.length = 32 := by
      by_contra hne
      have hk : L.edKeyOk pk ≠ true := fun hk => hne ((hkey pk).mp hk)
      refine hraises (.valueError "An Ed25519 public key is 32 bytes long") ?_
      simp [verifyResponse_nonce hc hn,hp,pubkeyHex,hexp,verify,hk,Except.bind]
    have hk : L.edKeyOk pk = true := (hkey pk).mpr hlen
    cases hs : c.sig with
    | bin sig =>
      refine ⟨pk,sig,rfl,hlen,rfl,fun hval => ?_⟩
      have hres : verifyResponse L response n expected = .ok (some ⟨hex pk,pk,c.encPubkey⟩) := by
        simp [verifyResponse_nonce hc hn,hp,hs,pubkeyHex,hexp,verify,hk,hval,Val.asBin,Except.bind]
      by_cases hv : ∃ sig pk enc, ValidResponse L response n expected sig pk enc
      · obtain ⟨sig',pk',enc,hv⟩ := hv
        have hcv := hv.claim
        rw [hc,Except.ok.injEq] at hcv
        subst hcv
        cases hp
        refine ⟨⟨enc,rfl⟩,?_⟩
        rintro rfl
        have hne : pk ≠ [] := List.ne_nil_of_length_pos (by rw [hlen]; decide)
        exact hex_ne_empty hne (hv.expected "" rfl)
      · rw [h.refused hv] at hres
        cases hres
    | _ =>
      refine (hraises .typeError ?_).elim
      simp [verifyResponse_nonce hc hn,hp,hs,pubkeyHex,hexp,verify,hk,Except.bind]
  | float bits =>
    refine ⟨L.floatHex bits,rfl,fun hexp => (hraises .typeError ?_).elim⟩
    simp [verifyResponse_nonce hc hn,hp,pubkeyHex,hexp,verify,Except.bind]
  | _ =>
    refine (hraises .attributeError ?_).elim
    simp [verifyResponse_nonce hc hn,hp,pubkeyHex,Except.bind]

theorem refused_of_checkable (hkey : L.KeyLength) {response : Packet} {n : Bytes}
    {expected : Option String} (h : Checkable L response n expected)
    (hnot : ¬ ∃ sig pk enc, ValidResponse L response n expected sig pk enc) :
    verifyResponse L response n expected = .ok none := by
  cases hc : authClaim L response with
  | error e => simp [verifyResponse,hc]
  | ok c =>
    by_cases hn : c.nonce = .bin n
    · obtain ⟨id,hid,hcheck⟩ := h c hc hn
      rw [verifyResponse_nonce hc hn,hid]
      by_cases hexp : expects expected id = true
      · obtain ⟨pk,sig,hp,hlen,hs,henc⟩ := hcheck hexp
        have hk := (hkey pk).mpr hlen
        cases hval : L.edValid pk sig n with
        | false => simp [hexp,hp,hs,verify,hk,hval,Except.bind]
        | true =>
          obtain ⟨⟨enc,he⟩,hne⟩ := henc hval
          rw [hp,pubkeyHex,Except.ok.injEq] at hid
          subst hid
          refine (hnot ⟨sig,pk,enc,?_,?_,hk,hval⟩).elim
          · have hpay := authClaim_iff.mp hc
            rwa [hn,hs,hp,he] at hpay
          · rintro id rfl
            have hid : id ≠ "" := fun he => hne (by rw [he])
            simpa [expects,hid] using hexp
      · simp [hexp,Except.bind]
    · have hn' : c.nonce.eqBin n ≠ true := fun he => hn (Val.eqBin_iff.mp he)
      simp [verifyResponse,hc,hn']

/-- `verify_response` does what its docstring says exactly for the responses whose
fields have the types and lengths that the checks take for granted. -/
theorem verifyResponse_exact_iff (hkey : L.KeyLength) (response : Packet) (expectedNonce : Bytes)
    (expectedNodeId : Option String) :
    VerifiesExactly L response expectedNonce expectedNodeId ↔
      Checkable L response expectedNonce expectedNodeId := by
  refine ⟨checkable_of_verifies hkey,fun h => ⟨?_,refused_of_checkable hkey h⟩⟩
  intro sig pk enc hv
  exact verifyResponse_ok hv.claim hv.expects hv.signature.1 hv.signature.2

/-- A packet whose payload is a map with these four entries. -/
def responseOf (digest : Bytes → Bytes) (c : AuthClaim) : Packet :=
  { type := .str T.authResponse, id := .str "r", ts := .int 0,
    payload := .bin ((encodePayload (sampleLib digest) (.map [(.str "nonce",c.nonce),
      (.str "sig",c.sig),(.str "signing_pubkey",c.signingPubkey),
      (.str "enc_pubkey",c.encPubkey)])).toOption.getD []) }

theorem authClaim_responseOf (digest : Bytes → Bytes) {c : AuthClaim}
    (h : (encodePayload (sampleLib digest) (.map [(.str "nonce",c.nonce),(.str "sig",c.sig),
      (.str "signing_pubkey",c.signingPubkey),(.str "enc_pubkey",c.encPubkey)])).isOk = true) :
    authClaim (sampleLib digest) (responseOf digest c) = .ok c := by
  have hu := (sampleLib_packLaws digest).unpackb_packb _ _ (ok_toOption h [])
  refine authClaim_iff.mpr ⟨_,hu,?_⟩
  simp [Val.lookup]

def sampleNonce : Bytes := List.replicate 32 7

/-- What the owner of the key `b` answers to that nonce, with this encryption key. -/
def claimOf (L : Lib) (b : UInt8) (enc : Bytes) : AuthClaim :=
  ⟨.bin sampleNonce,.bin (sign sampleNonce (sampleIdentity L b).signing),
    .bin (sampleIdentity L b).signing.pub,.bin enc⟩

theorem shortSigLib_keyLength : shortSigLib.KeyLength := fun pk => by
  simp [shortSigLib,sampleLib]

theorem verifyResponse_exact_sample : shortSigLib.KeyLength ∧
    VerifiesExactly shortSigLib (responseOf digest32 (claimOf shortSigLib 2 [])) sampleNonce
      none := by
  have hg : authClaim shortSigLib (responseOf digest32 (claimOf shortSigLib 2 [])) =
      .ok (claimOf shortSigLib 2 []) := authClaim_responseOf digest32 (by decide +kernel)
  refine ⟨shortSigLib_keyLength,(verifyResponse_exact_iff shortSigLib_keyLength _ _ _).mpr ?_⟩
  intro c hc _
  rw [hg,Except.ok.injEq] at hc
  subst hc
  exact ⟨_,rfl,fun _ => ⟨_,_,rfl,by decide,rfl,fun _ => ⟨⟨_,rfl⟩,by simp⟩⟩⟩

/-- The key is one byte long. -/
def shortKeyClaim : AuthClaim := ⟨.bin sampleNonce,.bin [],.bin [1],.bin []⟩

theorem verifyResponse_raises :
    (∃ e, verifyResponse shortSigLib (responseOf digest32 shortKeyClaim) sampleNonce none =
      .error e) ∧
    ¬ VerifiesExactly shortSigLib (responseOf digest32 shortKeyClaim) sampleNonce none := by
  have hc : authClaim shortSigLib (responseOf digest32 shortKeyClaim) = .ok shortKeyClaim :=
    authClaim_responseOf digest32 (by decide +kernel)
  refine ⟨⟨.valueError "An Ed25519 public key is 32 bytes long",?_⟩,fun h => ?_⟩
  · rw [verifyResponse_nonce hc rfl]
    rfl
  · obtain ⟨_,_,hcheck⟩ := checkable_of_verifies shortSigLib_keyLength h _ hc rfl
    obtain ⟨pk,sig,hp,hlen,_⟩ := hcheck rfl
    cases hp
    cases hlen

section Keys

variable {B : Identity L} {x : Bytes} {p : Packet}

/-- The answer of `B` to the nonce `x`. -/
def Identity.Answers (B : Identity L) (x : Bytes) (p : Packet) : Prop :=
  ∃ st fromNode toNode,
    makeResponse L st fromNode toNode (.bin x) B.signing B.encryption = .ok p

theorem Identity.Answers.claim (hp : L.PackLaws) (h : B.Answers x p) :
    authClaim L p = .ok ⟨.bin x,.bin (sign x B.signing),.bin B.signing.pub,
      .bin B.encryption.pub⟩ := by
  obtain ⟨st,fromNode,toNode,hm⟩ := h
  obtain ⟨n,hn,hm⟩ := makeResponse_ok hm
  cases hn
  exact authClaim_makeAuthResponse hp hm

/-- A response that is accepted under the id of `B` shows the key of `B` and a
signature of the nonce under it. The encryption key it brings is whatever the sender
has put there: in the answer of `B` it can be replaced by anything. -/
theorem response_keys (hp : L.PackLaws) (hs : L.IdealSig) (h : B.Answers x p) :
    (∀ r expected res, verifyResponse L r x expected = .ok (some res) → res.nodeId = B.id →
      res.signingPubkey = B.signing.pub ∧
      ∃ c s, authClaim L r = .ok c ∧ c.nonce = .bin x ∧ c.sig = .bin s ∧
        L.edValid B.signing.pub s x = true ∧ c.signingPubkey = .bin B.signing.pub ∧
        res.encPubkey = c.encPubkey) ∧
    ∀ c, authClaim L p = .ok c → ∀ r enc, authClaim L r = .ok { c with encPubkey := enc } →
      verifyResponse L r x none = .ok (some ⟨B.id,B.signing.pub,enc⟩) := by
  refine ⟨fun r expected res hr hid => ?_,fun c hc r enc hr => ?_⟩
  · obtain ⟨c,s,hc,hn,hsig,hpk,henc,hnode,_,_,hval⟩ := verifyResponse_some hr
    have hkey : res.signingPubkey = B.signing.pub := hex_injective (hnode.symm.trans hid)
    rw [hkey] at hval hpk
    exact ⟨hkey,c,s,hc,hn,hsig,hval,hpk,henc.symm⟩
  · rw [h.claim hp,Except.ok.injEq] at hc
    subst hc
    refine verifyResponse_ok hr rfl ?_ ?_
    · rw [B.signing.isPair]
      exact hs.keyOk _
    · rw [sign,B.signing.isPair]
      exact (hs.valid_iff _ _ _).mpr rfl

end Keys

theorem exists_answer : ∃ p,
    (sampleIdentity idealSigLib 2).Answers sampleNonce p := by
  have h : (makeResponse idealSigLib ⟨"r",0⟩ (.str "b") (.str "a") (.bin sampleNonce)
      (sampleIdentity idealSigLib 2).signing
      (sampleIdentity idealSigLib 2).encryption).isOk = true := by decide +kernel
  obtain ⟨p,hp⟩ := exists_ok h
  exact ⟨p,_,_,_,hp⟩

theorem response_keys_sample : ∃ p res, (sampleIdentity idealSigLib 2).Answers sampleNonce p ∧
    verifyResponse idealSigLib p sampleNonce none = .ok (some res) ∧
    res.signingPubkey = (sampleIdentity idealSigLib 2).signing.pub := by
  obtain ⟨p,hp⟩ := exists_answer
  have hc := hp.claim (sampleLib_packLaws id)
  obtain ⟨hkeys,haccept⟩ := response_keys (sampleLib_packLaws id) idealSigLib_idealSig hp
  have hv := haccept _ hc p _ hc
  exact ⟨p,_,hp,hv,(hkeys p none _ hv rfl).1⟩

def otherKey : Bytes := List.replicate 32 6

/-- In the answer of the second sample key another encryption key is put in, and both
responses are accepted. -/
theorem encPubkey_replaced : ∃ p r res res', (sampleIdentity idealSigLib 2).Answers sampleNonce p ∧
    (∀ c, authClaim idealSigLib p = .ok c →
      authClaim idealSigLib r = .ok { c with encPubkey := .bin otherKey }) ∧
    verifyResponse idealSigLib p sampleNonce none = .ok (some res) ∧
    verifyResponse idealSigLib r sampleNonce none = .ok (some res') ∧
    res'.nodeId = (sampleIdentity idealSigLib 2).id ∧
    res.encPubkey = .bin (sampleIdentity idealSigLib 2).encryption.pub ∧
    res'.encPubkey ≠ .bin (sampleIdentity idealSigLib 2).encryption.pub := by
  obtain ⟨p,hp⟩ := exists_answer
  have hc := hp.claim (sampleLib_packLaws id)
  have hr : authClaim idealSigLib (responseOf id (claimOf idealSigLib 2 otherKey)) =
      .ok (claimOf idealSigLib 2 otherKey) := authClaim_responseOf id (by decide +kernel)
  have hv : verifyResponse idealSigLib p sampleNonce none = .ok (some _) :=
    verifyResponse_ok hc rfl (by decide) (by decide +kernel)
  have hv' : verifyResponse idealSigLib (responseOf id (claimOf idealSigLib 2 otherKey)) sampleNonce
      none = .ok (some _) := verifyResponse_ok hr rfl (by decide) (by decide +kernel)
  have hne : otherKey ≠ (sampleIdentity idealSigLib 2).encryption.pub := by decide +kernel
  refine ⟨p,_,_,_,hp,fun c hc' => ?_,hv,hv',rfl,rfl,fun he => hne (Val.bin.inj he)⟩
  cases hc.symm.trans hc'
  exact hr

end Nevod
