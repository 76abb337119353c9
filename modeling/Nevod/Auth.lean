import Nevod.Protocol

/-! `node/auth.py`. -/

set_option autoImplicit false

namespace Nevod
open Text

variable (L : Lib)

def makeChallenge (st : Stamp) (nonce : Nonce) (fromNode toNode : Val) :
    Except Err (Packet × Bytes) := do
  let pkt ← makeAuthChallenge L st fromNode toNode nonce.bytes
  pure (pkt,nonce.bytes)

/-- Whatever byte string the peer chose as its nonce is signed as it is. -/
def makeResponse (st : Stamp) (fromNode toNode nonce : Val) (signing : SigningKeypair L)
    (enc : EncryptionKeypair L) : Except Err Packet := do
  let nonce ← nonce.asBin
  let signature := sign nonce signing
  makeAuthResponse L st fromNode toNode nonce signature signing.pub enc.pub

structure AuthResult where
  nodeId : String
  signingPubkey : Bytes
  encPubkey : Val

/-- `signing_pubkey.hex()`: floats have the method too. -/
def pubkeyHex : Val → Except Err String
  | .bin b => .ok (hex b)
  | .float bits => .ok (L.floatHex bits)
  | _ => .error .attributeError

structure AuthClaim where
  nonce : Val
  sig : Val
  signingPubkey : Val
  encPubkey : Val

/-- The four items of an AUTH_RESPONSE payload. -/
def authClaim (response : Packet) : Except Err AuthClaim := do
  let data ← decodePayload L response.payload
  let nonce ← data.item "nonce"
  let sig ← data.item "sig"
  let signingPubkey ← data.item "signing_pubkey"
  let encPubkey ← data.item "enc_pubkey"
  pure ⟨nonce,sig,signingPubkey,encPubkey⟩

/-- An absent or empty `expected_node_id` is not checked. -/
def expects (expectedNodeId : Option String) (claim : String) : Bool :=
  match expectedNodeId with
  | none => true
  | some expected => expected == "" || claim == expected

def verifyResponse (response : Packet) (expectedNonce : Bytes)
    (expectedNodeId : Option String) : Except Err (Option AuthResult) :=
  match authClaim L response with
  | .error _ => .ok none
  | .ok c =>
    if !c.nonce.eqBin expectedNonce then .ok none
    else do
      let nodeIdClaim ← pubkeyHex L c.signingPubkey
      if !expects expectedNodeId nodeIdClaim then pure none
      else
        let valid ← verify L expectedNonce c.sig c.signingPubkey
        if !valid then pure none
        else
          let signingPubkey ← c.signingPubkey.asBin
          pure (some ⟨nodeIdClaim,signingPubkey,c.encPubkey⟩)

variable {L}

theorem verifyResponse_some {response : Packet} {expectedNonce : Bytes}
    {expectedNodeId : Option String} {r : AuthResult}
    (h : verifyResponse L response expectedNonce expectedNodeId = .ok (some r)) :
    ∃ c s, authClaim L response = .ok c ∧ c.nonce = .bin expectedNonce ∧ c.sig = .bin s ∧
      c.signingPubkey = .bin r.signingPubkey ∧ c.encPubkey = r.encPubkey ∧
      r.nodeId = hex r.signingPubkey ∧ expects expectedNodeId r.nodeId = true ∧
      L.edKeyOk r.signingPubkey = true ∧ L.edValid r.signingPubkey s expectedNonce = true := by
  unfold verifyResponse at h
  cases hc : authClaim L response with
  | error e => simp [hc] at h
  | ok c =>
    simp only [hc] at h
    by_cases hn : c.nonce.eqBin expectedNonce = true
    · simp only [hn,Bool.not_true,Bool.false_eq_true,if_false] at h
      obtain ⟨claim,hp,h⟩ := exists_of_bind h
      by_cases he : expects expectedNodeId claim = true
      · simp only [he,Bool.not_true,Bool.false_eq_true,if_false] at h
        obtain ⟨valid,hv,h⟩ := exists_of_bind h
        cases valid with
        | false => cases h
        | true =>
          obtain ⟨s,pk,hs,hpk,hk,hed⟩ := verify_true hv
          rw [hpk] at hp h
          cases h
          cases hp
          exact ⟨c,s,rfl,Val.eqBin_iff.mp hn,hs,hpk,rfl,rfl,he,hk,hed⟩
      · simp [he,pure,Except.pure] at h
    · simp [hn] at h

theorem verifyResponse_ok {response : Packet} {expectedNonce s pk : Bytes}
    {expectedNodeId : Option String} {enc : Val}
    (hc : authClaim L response = .ok ⟨.bin expectedNonce,.bin s,.bin pk,enc⟩)
    (he : expects expectedNodeId (hex pk) = true) (hk : L.edKeyOk pk = true)
    (hv : L.edValid pk s expectedNonce = true) :
    verifyResponse L response expectedNonce expectedNodeId = .ok (some ⟨hex pk,pk,enc⟩) := by
  simp [verifyResponse,hc,Val.eqBin,pubkeyHex,bind,Except.bind,he,verify,hk,hv,Val.asBin,
    pure,Except.pure]

theorem makeEncoded_ok {st : Stamp} {type : String} {data fromNode toNode : Val} {p : Packet}
    (h : makeEncoded L st type data fromNode toNode = .ok p) :
    ∃ payload, L.packb data = .ok payload ∧
      p = { type := .str type, payload := .bin payload, id := .str st.id, ts := .int st.ts,
            fromAddr := fromNode, toAddr := toNode } := by
  obtain ⟨payload,hp,h⟩ := exists_of_bind h
  exact ⟨payload,hp,(Except.ok.inj h).symm⟩

theorem makeChallenge_ok {st : Stamp} {nonce : Nonce} {fromNode toNode : Val} {p : Packet}
    {n : Bytes} (h : makeChallenge L st nonce fromNode toNode = .ok (p,n)) :
    n = nonce.bytes ∧ makeAuthChallenge L st fromNode toNode nonce.bytes = .ok p := by
  obtain ⟨pkt,hp,h⟩ := exists_of_bind h
  cases h
  exact ⟨rfl,hp⟩

theorem makeResponse_ok {st : Stamp} {fromNode toNode nonce : Val} {signing : SigningKeypair L}
    {enc : EncryptionKeypair L} {p : Packet}
    (h : makeResponse L st fromNode toNode nonce signing enc = .ok p) :
    ∃ n, nonce = .bin n ∧
      makeAuthResponse L st fromNode toNode n (sign n signing) signing.pub enc.pub = .ok p := by
  obtain ⟨n,hn,h⟩ := exists_of_bind h
  exact ⟨n,Val.asBin_ok hn,h⟩

theorem authClaim_makeAuthResponse (h : L.PackLaws) {st : Stamp} {fromNode toNode : Val}
    {nonce signature signingPubkey encPubkey : Bytes} {p : Packet}
    (hp : makeAuthResponse L st fromNode toNode nonce signature signingPubkey encPubkey = .ok p) :
    authClaim L p = .ok ⟨.bin nonce,.bin signature,.bin signingPubkey,.bin encPubkey⟩ := by
  obtain ⟨payload,hpay,rfl⟩ := makeEncoded_ok hp
  have hu := h.unpackb_packb _ _ hpay
  simp [authClaim,decodePayload,hu,bind,Except.bind,Val.item,Val.lookup,pure,Except.pure]

end Nevod
