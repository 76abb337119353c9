import Nevod.Handshake
import Nevod.Lib.Numeral

/-!
The key that answers challenges also signs packets. The answer to a challenge is
the signature of a packet exactly when the nonce is the signed form of one.
-/

set_option autoImplicit false

namespace Nevod
open Text Resume

variable {L : Lib}

/-- `tr` is what a node's or a cell's handshake has exchanged so far. -/
def Responds (me : Identity L) (tr : List (Exchange AuthReq AuthAns)) : Prop :=
  (∃ ws expected d p, Path (Transport.doAuth me ws expected d) tr p) ∨
  ∃ expected d p, Path (Client.doAuth me expected d) tr p

theorem Responds.exchange {me : Identity L} {tr : List (Exchange AuthReq AuthAns)}
    (h : Responds me tr) : ∃ expected d p, Path (exchange me expected d) tr p := by
  rcases h with ⟨ws,expected,d,p,h⟩ | ⟨expected,d,p,h⟩
  · obtain ⟨p',hp,_⟩ := transport_doAuth_path h
    exact ⟨expected,d,p',hp⟩
  · obtain ⟨p',hp⟩ := client_doAuth_path h
    exact ⟨expected,d,p',hp⟩

/-- The signed bytes of packets are the byte strings that end in a digit. -/
theorem exists_signBytes_iff (n : Bytes) :
    (∃ q : TypedPacket, q.signBytes = n) ↔ endsWithDigit n = true := by
  constructor
  · rintro ⟨q,rfl⟩
    exact endsWithDigit_append_decimal _ q.ts
  · intro h
    obtain ⟨pre,d,_,rfl⟩ := exists_decimal_of_endsWithDigit h
    exact ⟨⟨"","","","",pre,d,[],protoVersion⟩,rfl⟩

theorem verifyPacket_signature (h : L.IdealSig) (kp : SigningKeypair L) (n : Bytes)
    {q : Packet} {m : Bytes} (hq : q.signData L = .ok m) :
    verifyPacket L { q with sig := .bin (sign n kp) } kp.pub = .ok (decide (m = n)) := by
  have ht : (Val.bin (sign n kp)).truthy = true := by
    simpa [Val.truthy,sign] using h.nonempty kp.priv n
  unfold verifyPacket
  rw [signData_sig,hq]
  simp only [ht,Bool.not_true,Bool.false_eq_true,if_false,bind,Except.bind]
  exact verify_sign_ideal h kp _ _

theorem signature_fits_no_packet_iff (h : L.IdealSig) (kp : SigningKeypair L) (n : Bytes) :
    (∀ q : TypedPacket, verifyPacket L { q.packet with sig := .bin (sign n kp) } kp.pub ≠
      .ok true) ↔ endsWithDigit n = false := by
  have he := exists_signBytes_iff n
  simp only [verifyPacket_signature h kp n (TypedPacket.signData_packet L _),ne_eq,
    Except.ok.injEq,decide_eq_true_eq]
  rw [← Bool.not_eq_true,← he]
  simp

/-- A packet read from the wire may have a text as its timestamp. -/
def untimed (payload : Bytes) : Packet :=
  { type := .str "", payload := .bin payload, id := .str "", ts := .str "" }

theorem signData_untimed (payload : Bytes) : (untimed payload).signData L = .ok payload := by
  simp [untimed,Packet.signData,Val.encode,Val.asBin,Val.pyStr,bind,Except.bind,pure,
    Except.pure]

theorem responseFrame_claim (hp : L.PackLaws) {me : Identity L} {d : AuthDraw} {m1 f : Bytes}
    (h : responseFrame me d m1 = .ok f) :
    ∃ their n response, Challenges L m1 their n ∧ unpack L f = .ok response ∧
      response.type = .str T.authResponse ∧
      authClaim L response = .ok ⟨.bin n,.bin (sign n me.signing),.bin me.signing.pub,
        .bin me.encryption.pub⟩ := by
  obtain ⟨p,hr,hpack⟩ := responseFrame_ok h
  obtain ⟨their,n,hc,hm⟩ := respond_ok hr
  have hu := unpack_pack hp hpack
  have hclaim := authClaim_makeAuthResponse hp hm
  obtain ⟨payload,_,rfl⟩ := makeEncoded_ok hm
  rw [Val.orEmpty_bin,Val.orEmpty_bin] at hu
  exact ⟨their,n,_,hc,hu,rfl,hclaim⟩

/-- The signature in the frame `f` that answers the challenge `m1` verifies on
no packet exactly when the nonce in `m1` does not end in an ASCII digit; on
packets whose timestamp is not an integer it always verifies for some. -/
theorem handshake_signs_no_packet_iff (hi : L.IdealSig) (hp : L.PackLaws) {me : Identity L}
    {tr pre post : List (Exchange AuthReq AuthAns)} (hr : Responds me tr) {m1 f : Bytes}
    {a : Except Err Unit} (htr : tr = pre ++ ⟨.recv,.ok m1⟩ :: ⟨.send f,a⟩ :: post) :
    ∃ their n response claim, Challenges L m1 their n ∧ unpack L f = .ok response ∧
      response.type = .str T.authResponse ∧ authClaim L response = .ok claim ∧
      ((∀ q : TypedPacket, verifyPacket L { q.packet with sig := claim.sig } me.signing.pub ≠
        .ok true) ↔ endsWithDigit n = false) ∧
      ∃ q : Packet, verifyPacket L { q with sig := claim.sig } me.signing.pub = .ok true := by
  obtain ⟨expected,d,p,hx⟩ := hr.exchange
  have hf := exchange_answer hx htr
  obtain ⟨their,n,response,hc,hu,ht,hclaim⟩ := responseFrame_claim hp hf
  refine ⟨their,n,response,_,hc,hu,ht,hclaim,signature_fits_no_packet_iff hi me.signing n,?_⟩
  exact ⟨untimed n,by simpa using verifyPacket_signature hi me.signing n (signData_untimed n)⟩

/-- A handshake that has answered a challenge whose nonce is thirty-two times `b`. -/
theorem responds_sample (b : UInt8) (h : ((challengeFrame idealSigLib
      (sampleIdentity idealSigLib 2).id none (sampleDraw b)).bind
        (responseFrame (sampleIdentity idealSigLib 1) (sampleDraw 9))).isOk = true)
    (hc : (challengeFrame idealSigLib (sampleIdentity idealSigLib 1).id none
      (sampleDraw 9)).isOk = true) :
    ∃ c m1 f, challengeFrame idealSigLib (sampleIdentity idealSigLib 2).id none
        (sampleDraw b) = .ok m1 ∧
      responseFrame (sampleIdentity idealSigLib 1) (sampleDraw 9) m1 = .ok f ∧
      Responds (sampleIdentity idealSigLib 1)
        ([⟨.send c,.ok ()⟩] ++ ⟨.recv,.ok m1⟩ :: ⟨.send f,.ok ()⟩ :: [⟨.recv,.ok []⟩]) := by
  obtain ⟨m1,f,hm,hf⟩ := exists_ok_bind h
  obtain ⟨c,hk⟩ := exists_ok hc
  exact ⟨c,m1,f,hm,hf,.inl ⟨0,none,sampleDraw 9,_,(exchange_completes hk hf []).bind_left _⟩⟩

theorem handshake_signs_no_packet_sample :
    ∃ (m1 f : Bytes) (their : Packet) (n : Bytes) (response : Packet) (claim : AuthClaim),
      Challenges idealSigLib m1 their n ∧ unpack idealSigLib f = .ok response ∧
      response.type = .str T.authResponse ∧ authClaim idealSigLib response = .ok claim ∧
      ((∀ q : TypedPacket, verifyPacket idealSigLib { q.packet with sig := claim.sig }
        (sampleIdentity idealSigLib 1).signing.pub ≠ .ok true) ↔ endsWithDigit n = false) ∧
      ∃ q : Packet, verifyPacket idealSigLib { q with sig := claim.sig }
        (sampleIdentity idealSigLib 1).signing.pub = .ok true := by
  obtain ⟨c,m1,f,_,_,hr⟩ := responds_sample 7 (by decide +kernel) (by decide +kernel)
  exact ⟨m1,f,handshake_signs_no_packet_iff idealSigLib_idealSig (sampleLib_packLaws id) hr rfl⟩

/-- The nonce `"7777..."` is the signed form of a packet at time 7. -/
theorem handshake_signs_packet :
    ¬ ∀ (L : Lib), L.IdealSig → L.PackLaws → ∀ (me : Identity L)
      (tr pre post : List (Exchange AuthReq AuthAns)) (m1 f : Bytes) (a : Except Err Unit),
      Responds me tr → tr = pre ++ ⟨.recv,.ok m1⟩ :: ⟨.send f,a⟩ :: post →
      ∀ response claim, unpack L f = .ok response → authClaim L response = .ok claim →
      ∀ q : TypedPacket, verifyPacket L { q.packet with sig := claim.sig } me.signing.pub ≠
        .ok true := by
  intro h
  have hp : idealSigLib.PackLaws := sampleLib_packLaws id
  obtain ⟨c,m1,f,hm,hf,hr⟩ := responds_sample 55 (by decide +kernel) (by decide +kernel)
  obtain ⟨their,n,response,hc,hu,_,hclaim⟩ := responseFrame_claim hp hf
  obtain ⟨_,hc',_⟩ := challenges_challengeFrame hp hm
  have hn : n = (Nonce.fill 55).bytes := (hc.unique hc').2
  have hall := h idealSigLib idealSigLib_idealSig hp _ _ _ _ m1 f _ hr rfl response _ hu hclaim
  have hd := (signature_fits_no_packet_iff idealSigLib_idealSig _ n).mp hall
  rw [hn] at hd
  exact absurd hd (by decide)

end Nevod
