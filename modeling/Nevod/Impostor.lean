import Nevod.SigningOracle

/-!
One handshake against a channel held by an attacker without any key. Every
signature it can show that verifies is one the node itself has sent, so all it
can do is to hand the node's own words back.
-/

set_option autoImplicit false

namespace Nevod
open Text Resume

variable {L : Lib}

/-- The frame shows the signature `s` over `n` as one of the key `pk`. -/
def Carries (L : Lib) (frame n s pk : Bytes) : Prop :=
  ∃ p enc, unpack L frame = .ok p ∧ authClaim L p = .ok ⟨.bin n,.bin s,.bin pk,enc⟩

/-- Every signature shown in `m` that verifies has been shown in `known`. -/
def Unforged (L : Lib) (known : List Bytes) (m : Bytes) : Prop :=
  ∀ n s pk, Carries L m n s pk → L.edKeyOk pk = true → L.edValid pk s n = true →
    ∃ f ∈ known, ∃ s', Carries L f n s' pk

/-- A channel that decides from the frames sent so far whether the next one is
accepted and what is received next. -/
structure Attack where
  accept : List Bytes → Except Err Unit
  deliver : List Bytes → Except Err Bytes

def Attack.channel (atk : Attack) : Handler AuthReq AuthAns (List Bytes)
  | .send f, sent => (atk.accept sent,sent ++ [f])
  | .recv, sent => (atk.deliver sent,sent)

def Attack.NoForgery (L : Lib) (atk : Attack) : Prop :=
  ∀ sent m, atk.deliver sent = .ok m → Unforged L sent m

/-- The frame is a challenge with the node's own nonce, and can be answered. -/
def Echoes (me : Identity L) (d : AuthDraw) (m1 : Bytes) : Prop :=
  (∃ c, challengeFrame L me.id none d = .ok c) ∧ (∃ f, responseFrame me d m1 = .ok f) ∧
    ∃ their, Challenges L m1 their d.nonce.bytes

theorem run_exchange_iff (atk : Attack) {me : Identity L} {expected : Option String}
    {d : AuthDraw} {r : Option AuthResult} :
    (run atk.channel (exchange me expected d) []).result = .ok r ↔
      ∃ c m1 f m2, challengeFrame L me.id expected d = .ok c ∧ atk.accept [] = .ok () ∧
        atk.deliver [c] = .ok m1 ∧ responseFrame me d m1 = .ok f ∧
        atk.accept [c] = .ok () ∧ atk.deliver [c,f] = .ok m2 ∧
        checkResponse L d expected m2 = .ok r := by
  unfold exchange AuthProg.send AuthProg.recv
  cases hc : challengeFrame L me.id expected d with
  | error e => simp
  | ok c =>
    cases ha : atk.accept [] with
    | error e => simp [run_ask,Attack.channel,ha]
    | ok _ =>
      cases hm : atk.deliver [c] with
      | error e => simp [run_ask,Attack.channel,ha,hm]
      | ok m1 =>
        cases hf : responseFrame me d m1 with
        | error e => simp [run_ask,Attack.channel,ha,hm,hf]
        | ok f =>
          cases ha' : atk.accept [c] with
          | error e => simp [run_ask,Attack.channel,ha,hm,hf,ha']
          | ok _ =>
            cases hm' : atk.deliver [c,f] with
            | error e => simp [run_ask,Attack.channel,ha,hm,hf,ha',hm']
            | ok m2 =>
              cases hk : checkResponse L d expected m2 <;>
                simp [run_ask,Attack.channel,ha,hm,hf,ha',hm',hk]

theorem run_doAuth_iff (atk : Attack) {me : Identity L} {ws : Nat} {expected : Option String}
    {d : AuthDraw} :
    (∃ conn, (run atk.channel (Transport.doAuth me ws expected d) []).result = .ok conn) ↔
      ∃ r, (run atk.channel (exchange me expected d) []).result = .ok (some r) := by
  unfold Transport.doAuth
  simp only [Prog.bind_eq,run_bind]
  cases h : (run atk.channel (exchange me expected d) []).result with
  | error e => simp
  | ok r => cases r <;> simp

theorem not_carries_challengeFrame (hp : L.PackLaws) {ourId : String}
    {expected : Option String} {d : AuthDraw} {c n s pk : Bytes}
    (hc : challengeFrame L ourId expected d = .ok c) : ¬ Carries L c n s pk := by
  rintro ⟨p,enc,hu,hclaim⟩
  obtain ⟨pkt,hm,hpack⟩ := challengeFrame_ok hc
  obtain ⟨payload,hpay,rfl⟩ := makeEncoded_ok hm
  have hd := hp.unpackb_packb _ _ hpay
  rw [unpack_pack hp hpack] at hu
  cases hu
  simp [authClaim,decodePayload,hd,bind,Except.bind,Val.item,Val.lookup] at hclaim

theorem carries_responseFrame (hp : L.PackLaws) {me : Identity L} {d : AuthDraw}
    {m1 f n s pk : Bytes} (hf : responseFrame me d m1 = .ok f) (hc : Carries L f n s pk) :
    pk = me.signing.pub ∧ ∃ their, Challenges L m1 their n := by
  obtain ⟨their,n',response,hch,hu,_,hclaim⟩ := responseFrame_claim hp hf
  obtain ⟨p,enc,hu',hclaim'⟩ := hc
  rw [hu] at hu'
  cases hu'
  rw [hclaim] at hclaim'
  cases hclaim'
  exact ⟨rfl,their,hch⟩

theorem checkResponse_carries {d : AuthDraw} {expected : Option String} {m2 : Bytes}
    {r : AuthResult} (h : checkResponse L d expected m2 = .ok (some r)) :
    ∃ s, Carries L m2 d.nonce.bytes s r.signingPubkey ∧ r.nodeId = hex r.signingPubkey ∧
      L.edKeyOk r.signingPubkey = true ∧
      L.edValid r.signingPubkey s d.nonce.bytes = true := by
  obtain ⟨their,hu,_,hv⟩ := checkResponse_some h
  obtain ⟨c,s,hclaim,h1,h2,h3,_,hid,_,hk,hvalid⟩ := verifyResponse_some hv
  refine ⟨s,⟨their,c.encPubkey,hu,?_⟩,hid,hk,hvalid⟩
  rw [hclaim,← h1,← h2,← h3]

/-- An answer to a challenge that carries our nonce passes our check. -/
theorem checkResponse_expected (hp : L.PackLaws) (hs : L.SigLaws) {you : Identity L}
    {d d' : AuthDraw} {expected : Option String} {m1 f : Bytes} {their : Packet}
    (hf : responseFrame you d' m1 = .ok f) (hc : Challenges L m1 their d.nonce.bytes)
    (he : expects expected you.id = true) :
    checkResponse L d expected f =
      .ok (some ⟨you.id,you.signing.pub,.bin you.encryption.pub⟩) := by
  obtain ⟨_,n,response,hch,hu,ht,hclaim⟩ := responseFrame_claim hp hf
  obtain ⟨_,rfl⟩ := hch.unique hc
  have hk := hs.keyOk you.signing.priv
  have hv := hs.valid you.signing.priv d.nonce.bytes
  rw [← you.signing.isPair] at hk hv
  have hok : verifyResponse L response d.nonce.bytes expected =
      .ok (some ⟨hex you.signing.pub,you.signing.pub,.bin you.encryption.pub⟩) :=
    verifyResponse_ok hclaim he hk hv
  simp only [checkResponse,hu,ht,Val.eqStr,bind,Except.bind,beq_self_eq_true,Bool.not_true,
    Bool.false_eq_true,if_false]
  exact hok

theorem checkResponse_answer (hp : L.PackLaws) (hs : L.SigLaws) {you : Identity L}
    {d d' : AuthDraw} {m1 f : Bytes} {their : Packet} (hf : responseFrame you d' m1 = .ok f)
    (hc : Challenges L m1 their d.nonce.bytes) :
    ∃ r, checkResponse L d none f = .ok (some r) ∧ r.signingPubkey = you.signing.pub :=
  ⟨_,checkResponse_expected hp hs hf hc rfl,rfl⟩

theorem echoed_of_accepted (hp : L.PackLaws) {me : Identity L} {d : AuthDraw} {atk : Attack}
    (hatk : atk.NoForgery L) {r : AuthResult}
    (h : (run atk.channel (exchange me none d) []).result = .ok (some r)) :
    ∃ c m1, challengeFrame L me.id none d = .ok c ∧ atk.deliver [c] = .ok m1 ∧
      Echoes me d m1 := by
  obtain ⟨c,m1,f,m2,hc,_,hm1,hf,_,hm2,hk⟩ := (run_exchange_iff atk).mp h
  obtain ⟨s,hcar,_,hok,hvalid⟩ := checkResponse_carries hk
  obtain ⟨g,hg,s',hg'⟩ := hatk _ _ hm2 _ _ _ hcar hok hvalid
  refine ⟨c,m1,hc,hm1,⟨c,hc⟩,⟨f,hf⟩,?_⟩
  simp only [List.mem_cons,List.not_mem_nil,or_false] at hg
  rcases hg with rfl | rfl
  · exact absurd hg' (not_carries_challengeFrame hp hc)
  · exact (carries_responseFrame hp hf hg').2

/-- The attack that sends `m1` and then the node's latest frame. -/
def mirror (m1 : Bytes) : Attack where
  accept := fun _ => .ok ()
  deliver := fun sent =>
    match sent with
    | [] => .error .connectionClosed
    | [_] => .ok m1
    | _ :: f :: _ => .ok f

theorem Unforged.mono {known more : List Bytes} {m : Bytes} (h : Unforged L known m)
    (hk : known ⊆ more) : Unforged L more m := by
  intro n s pk hc hok hv
  obtain ⟨f,hf,s',hs⟩ := h n s pk hc hok hv
  exact ⟨f,hk hf,s',hs⟩

theorem unforged_of_mem {known : List Bytes} {m : Bytes} (h : m ∈ known) :
    Unforged L known m :=
  fun _ s _ hc _ _ => ⟨m,h,s,hc⟩

theorem mirror_noForgery {m1 : Bytes} (h : Unforged L [] m1) : (mirror m1).NoForgery L := by
  intro sent m hm
  match sent, hm with
  | [_], hm =>
    cases hm
    exact h.mono (by simp)
  | _ :: _ :: _, hm =>
    cases hm
    exact unforged_of_mem (by simp)

/-- A channel that hands the node's challenge and then its answer back to it. -/
theorem mirror_accepted (hp : L.PackLaws) (hs : L.SigLaws) {me : Identity L} (ws : Nat)
    {d : AuthDraw} {m1 : Bytes} (h : Echoes me d m1) :
    ∃ conn, (run (mirror m1).channel (Transport.doAuth me ws none d) []).result = .ok conn := by
  obtain ⟨⟨c,hc⟩,⟨f,hf⟩,their,hch⟩ := h
  obtain ⟨r,hr,_⟩ := checkResponse_answer hp hs hf hch
  exact (run_doAuth_iff (mirror m1)).mpr
    ⟨r,(run_exchange_iff _).mpr ⟨c,m1,f,f,hc,rfl,rfl,hf,rfl,rfl,hr⟩⟩

/-- Against every attack without a key that opens with `m1` the handshake fails,
exactly when `m1` is not the node's own nonce put back as a challenge. -/
theorem impostor_rejected_iff (hp : L.PackLaws) (hs : L.SigLaws) (me : Identity L) (ws : Nat)
    (d : AuthDraw) {m1 : Bytes} (hm1 : Unforged L [] m1) :
    (∀ atk : Attack, atk.NoForgery L →
      (∀ c, challengeFrame L me.id none d = .ok c → atk.deliver [c] = .ok m1) →
      ∀ conn, (run atk.channel (Transport.doAuth me ws none d) []).result ≠ .ok conn) ↔
      ¬ Echoes me d m1 := by
  constructor
  · intro hall hecho
    obtain ⟨conn,hconn⟩ := mirror_accepted hp hs ws hecho
    exact hall (mirror m1) (mirror_noForgery hm1) (fun _ _ => rfl) conn hconn
  · intro hne atk hatk hd conn hconn
    obtain ⟨r,hr⟩ := (run_doAuth_iff atk).mp ⟨conn,hconn⟩
    obtain ⟨c,m,hc,hm,hecho⟩ := echoed_of_accepted hp hatk hr
    rw [hd c hc] at hm
    cases hm
    exact hne hecho

theorem echoes_sample : ∃ m1, challengeFrame shortSigLib (sampleIdentity shortSigLib 1).id none
      (sampleDraw 9) = .ok m1 ∧
    Echoes (sampleIdentity shortSigLib 1) (sampleDraw 9) m1 := by
  have hp : shortSigLib.PackLaws := sampleLib_packLaws digest32
  have hok : ((challengeFrame shortSigLib (sampleIdentity shortSigLib 1).id none
      (sampleDraw 9)).bind
        (responseFrame (sampleIdentity shortSigLib 1) (sampleDraw 9))).isOk = true := by
    decide +kernel
  obtain ⟨m1,f,hc,hf⟩ := exists_ok_bind hok
  obtain ⟨their,hch,_⟩ := challenges_challengeFrame hp hc
  exact ⟨m1,hc,⟨m1,hc⟩,⟨f,hf⟩,their,hch⟩

theorem unforged_challengeFrame (hp : L.PackLaws) {ourId : String} {expected : Option String}
    {d : AuthDraw} {c : Bytes} (hc : challengeFrame L ourId expected d = .ok c) :
    Unforged L [] c :=
  fun _ _ _ hcar _ _ => absurd hcar (not_carries_challengeFrame hp hc)

theorem impostor_rejected_sample :
    ∃ m1, challengeFrame shortSigLib (sampleIdentity shortSigLib 1).id none (sampleDraw 9) =
        .ok m1 ∧
      ((∀ atk : Attack, atk.NoForgery shortSigLib →
        (∀ c, challengeFrame shortSigLib (sampleIdentity shortSigLib 1).id none
          (sampleDraw 9) = .ok c → atk.deliver [c] = .ok m1) →
        ∀ conn, (run atk.channel (Transport.doAuth (sampleIdentity shortSigLib 1) 0 none
          (sampleDraw 9)) []).result ≠ .ok conn) ↔
        ¬ Echoes (sampleIdentity shortSigLib 1) (sampleDraw 9) m1) := by
  have hp : shortSigLib.PackLaws := sampleLib_packLaws digest32
  obtain ⟨m1,hc,_⟩ := echoes_sample
  exact ⟨m1,hc,impostor_rejected_iff hp shortSigLib_sigLaws _ 0 _ (unforged_challengeFrame hp hc)⟩

/-- A node that is given its own challenge and its own answer accepts itself. -/
theorem impostor_accepted :
    ¬ ∀ (L : Lib), L.PackLaws → L.SigLaws → ∀ (me : Identity L) (ws : Nat) (d : AuthDraw)
      (atk : Attack), atk.NoForgery L →
      ∀ conn, (run atk.channel (Transport.doAuth me ws none d) []).result ≠ .ok conn := by
  intro h
  have hp : shortSigLib.PackLaws := sampleLib_packLaws digest32
  obtain ⟨m1,hc,hecho⟩ := echoes_sample
  obtain ⟨conn,hconn⟩ := mirror_accepted hp shortSigLib_sigLaws 0 hecho
  exact h shortSigLib hp shortSigLib_sigLaws _ 0 _ (mirror m1)
    (mirror_noForgery (unforged_challengeFrame hp hc)) conn hconn

end Nevod
