import Nevod.Impostor
import Nevod.Lib.Tasks

/-!
Any number of handshake sessions among honest nodes and an attacker who carries
all their frames and owns keys of its own.
-/

set_option autoImplicit false

namespace Nevod
open Text Resume

variable {L : Lib} {ι : Type}

/-- Handshake sessions, with all frames honest nodes have sent as the world. -/
abbrev AuthPool (ι : Type) := Pool ι AuthReq AuthAns Err PeerConnection (List Bytes)

/-- Who runs which session, and with which randomness. -/
structure Sessions (L : Lib) (ι : Type) where
  owner : ι → Identity L
  expected : ι → Option String
  draw : ι → AuthDraw
  /-- The public keys only honest nodes can sign for. -/
  honest : Bytes → Prop
  ownerHonest : ∀ i, honest (owner i).signing.pub
  fresh : ∀ i j, (draw i).nonce = (draw j).nonce → i = j

/-- The attacker can make up any frame, but a signature of an honest key that
verifies has been sent by an honest node. -/
def Sessions.Deliverable (S : Sessions L ι) (sent : List Bytes) (m : Bytes) : Prop :=
  ∀ n s pk, S.honest pk → Carries L m n s pk → L.edKeyOk pk = true →
    L.edValid pk s n = true → ∃ f ∈ sent, ∃ s', Carries L f n s' pk

def Sessions.rules (S : Sessions L ι) :
    Rules ι AuthReq AuthAns Err PeerConnection (List Bytes) where
  answer := fun _ sent q a sent' =>
    match q, a with
    | .send f, _ => sent' = sent ++ [f]
    | .recv, .ok m => S.Deliverable sent m ∧ sent' = sent
    | .recv, .error _ => sent' = sent
  start := fun _ _ _ _ => False
  drift := fun _ _ => False

def Sessions.program (S : Sessions L ι) (i : ι) : AuthProg PeerConnection :=
  Transport.doAuth (S.owner i) 0 (S.expected i) (S.draw i)

def Sessions.initial (S : Sessions L ι) :
    AuthPool ι :=
  ⟨S.program,fun _ => [],S.program,[]⟩

theorem Sessions.Deliverable.mono {S : Sessions L ι} {sent more : List Bytes} {m : Bytes}
    (h : S.Deliverable sent m) (hs : sent ⊆ more) : S.Deliverable more m := by
  intro n s pk hh hc hk hv
  obtain ⟨f,hf,s',hs'⟩ := h n s pk hh hc hk hv
  exact ⟨f,hs hf,s',hs'⟩

theorem Sessions.deliverable_of_mem {S : Sessions L ι} {sent : List Bytes} {m : Bytes}
    (h : m ∈ sent) : S.Deliverable sent m :=
  fun _ s _ _ hc _ _ => ⟨m,h,s,hc⟩

/-- Session `j` has answered the nonce `x`. -/
def Sessions.Answered (S : Sessions L ι)
    (P : AuthPool ι) (j : ι) (x : Bytes) : Prop :=
  ∃ m1 their f a, (⟨.recv,.ok m1⟩ : Exchange AuthReq AuthAns) ∈ P.history j ∧
    (⟨.send f,a⟩ : Exchange AuthReq AuthAns) ∈ P.history j ∧
    Challenges L m1 their x ∧ responseFrame (S.owner j) (S.draw j) m1 = .ok f

/-- Whatever honest nodes have sent or received stays explained by the history
of some session. -/
structure Sessions.Explained (S : Sessions L ι)
    (P : AuthPool ι) : Prop where
  launched : P.launched = S.program
  path : P.OnPath
  sent : ∀ f ∈ P.world, ∃ j a, (⟨.send f,a⟩ : Exchange AuthReq AuthAns) ∈ P.history j
  received : ∀ i m, (⟨.recv,.ok m⟩ : Exchange AuthReq AuthAns) ∈ P.history i →
    S.Deliverable P.world m

theorem Sessions.explained_initial (S : Sessions L ι) : S.Explained S.initial where
  launched := rfl
  path := fun i => .here (S.program i)
  sent := by simp [Sessions.initial]
  received := by simp [Sessions.initial]

/-- The sender of a frame that shows a signature is the owner of the key, and
has answered the nonce. -/
theorem Sessions.answered_of_carries (hp : L.PackLaws) {S : Sessions L ι}
    {P : AuthPool ι} (h : S.Explained P)
    {f n s pk : Bytes} (hf : f ∈ P.world) (hc : Carries L f n s pk) :
    ∃ j, (S.owner j).signing.pub = pk ∧ S.Answered P j n := by
  obtain ⟨j,a,hj⟩ := h.sent f hf
  have hpath := h.path j
  rw [h.launched] at hpath
  obtain ⟨p,hx,_⟩ := transport_doAuth_path hpath
  rcases exchange_sent hx hj with hch | ⟨m1,hm1,hr⟩
  · exact absurd hc (not_carries_challengeFrame hp hch)
  · obtain ⟨rfl,their,hch⟩ := carries_responseFrame hp hr hc
    exact ⟨j,rfl,m1,their,f,a,hm1,hj,hch,hr⟩

variable [DecidableEq ι]

abbrev Sessions.Reachable (S : Sessions L ι)
    (P : AuthPool ι) : Prop :=
  Pool.Steps S.rules S.initial P

theorem Sessions.Explained.step {S : Sessions L ι}
    {P P' : AuthPool ι} (h : S.Explained P)
    (hs : Pool.Step S.rules P P') : S.Explained P' := by
  have hpath := h.path.step hs
  cases hs with
  | start _ _ _ _ h => exact h.elim
  | drift _ h => exact h.elim
  | answer i q k a w ht hans =>
    have hkeep : ∀ j e, e ∈ P.history j →
        e ∈ Function.update P.history i (P.history i ++ [⟨q,a⟩]) j := by
      intro j e he
      by_cases hj : j = i
      · subst hj
        simp [he]
      · simpa [hj] using he
    have hnew : (⟨q,a⟩ : Exchange AuthReq AuthAns) ∈
        Function.update P.history i (P.history i ++ [⟨q,a⟩]) i := by simp
    have hold : ∀ j e, e ∈ Function.update P.history i (P.history i ++ [⟨q,a⟩]) j →
        e ∈ P.history j ∨ e = ⟨q,a⟩ := by
      intro j e he
      by_cases hj : j = i
      · subst hj
        simpa using he
      · exact .inl (by simpa [hj] using he)
    refine ⟨h.launched,hpath,?_,?_⟩
    · intro f hf
      have hcase : f ∈ P.world ∨ q = .send f := by
        cases q with
        | send g =>
          simp only [Sessions.rules] at hans
          subst hans
          rcases List.mem_append.mp hf with hf | hf
          · exact .inl hf
          · exact .inr (by simp_all)
        | recv =>
          cases a with
          | error e =>
            cases hans
            exact .inl hf
          | ok m =>
            rw [hans.2] at hf
            exact .inl hf
      rcases hcase with hf | rfl
      · obtain ⟨j,b,hj⟩ := h.sent f hf
        exact ⟨j,b,hkeep j _ hj⟩
      · exact ⟨i,a,hnew⟩
    · intro j m hm
      have hmore : P.world ⊆ w := by
        cases q with
        | send g =>
          simp only [Sessions.rules] at hans
          subst hans
          simp
        | recv => cases a with
          | error e => rw [show w = P.world from hans]; simp
          | ok m => rw [hans.2]; simp
      rcases hold j _ hm with hm | hm
      · exact (h.received j m hm).mono hmore
      · cases hm
        exact (hans.1).mono hmore

theorem Sessions.explained {S : Sessions L ι}
    {P : AuthPool ι} (h : S.Reachable P) :
    S.Explained P := by
  induction h with
  | refl => exact S.explained_initial
  | tail _ hs ih => exact ih.step hs

/-- Whoever is accepted under an honest key has answered the very nonce of the
session that accepts. -/
theorem accepted_was_answered (hp : L.PackLaws) {S : Sessions L ι}
    {P : AuthPool ι} (hr : S.Reachable P) {i : ι}
    {conn : PeerConnection} (hi : P.tasks i = .ret conn)
    (hh : S.honest conn.peerSigningPubkey) :
    ∃ j, (S.owner j).signing.pub = conn.peerSigningPubkey ∧
      S.Answered P j (S.draw i).nonce.bytes := by
  have h := S.explained hr
  have hpath := h.path i
  rw [h.launched,hi] at hpath
  obtain ⟨p,hx,hret⟩ := transport_doAuth_path hpath
  obtain ⟨r,rfl,rfl⟩ := hret conn rfl
  obtain ⟨m2,hm2,hk⟩ := exchange_returned hx
  obtain ⟨s,hcar,_,hok,hv⟩ := checkResponse_carries hk
  obtain ⟨f,hf,s',hc⟩ := h.received i m2 hm2 _ _ _ hh hcar hok hv
  exact S.answered_of_carries hp h hf hc

/-- Two sessions, one of `a` and one of `b`. -/
def pairSessions (a b : Identity L) (da db : AuthDraw) (h : da.nonce ≠ db.nonce) :
    Sessions L Bool where
  owner := fun i => if i then b else a
  expected := fun _ => none
  draw := fun i => if i then db else da
  honest := fun pk => pk = a.signing.pub ∨ pk = b.signing.pub
  ownerHonest := by simp
  fresh := by
    intro i j hij
    cases i <;> cases j <;> simp_all [eq_comm]

/-- The attacker `m` passes the challenges of `a` and `b` on to each other and the
answer of `b` to `a`, but gives `b` an answer of its own. -/
theorem relay_reachable (hp : L.PackLaws) (hs : L.SigLaws) {a b m : Identity L}
    {da db dm : AuthDraw} (hn : da.nonce ≠ db.nonce) {ca cb fa fb fm : Bytes}
    (hca : challengeFrame L a.id none da = .ok ca)
    (hcb : challengeFrame L b.id none db = .ok cb)
    (hfa : responseFrame a da cb = .ok fa) (hfb : responseFrame b db ca = .ok fb)
    (hfm : responseFrame m dm cb = .ok fm)
    (hm : ¬ (pairSessions a b da db hn).honest m.signing.pub) :
    ∃ P, (pairSessions a b da db hn).Reachable P ∧
      (∃ conn, P.tasks false = .ret conn ∧ conn.peerSigningPubkey = b.signing.pub) ∧
      ∃ conn, P.tasks true = .ret conn ∧ conn.peerSigningPubkey = m.signing.pub := by
  obtain ⟨_,hcha,_⟩ := challenges_challengeFrame hp hca
  obtain ⟨_,hchb,_⟩ := challenges_challengeFrame hp hcb
  obtain ⟨ra,hra,hrapk⟩ := checkResponse_answer hp hs hfb hcha
  obtain ⟨rb,hrb,hrbpk⟩ := checkResponse_answer hp hs hfm hchb
  have hpa := transport_doAuth_completes 0 hca hfa hra
  rw [← List.singleton_append] at hpa
  obtain ⟨pa,hpa1,hpa2⟩ := hpa.of_append
  have hpb := transport_doAuth_completes 0 hcb hfb hrb
  have hfmDeliver : ∀ sent, (pairSessions a b da db hn).Deliverable sent fm := by
    intro sent n s pk hh hc _ _
    rw [(carries_responseFrame hp hfm hc).1] at hh
    exact absurd hh hm
  -- first `a` opens, then `b` runs to its end, then `a` goes on
  obtain ⟨P1,h1,ht1,hw1⟩ := Pool.exists_steps_of_path (R := (pairSessions a b da db hn).rules)
    (P := (pairSessions a b da db hn).initial) (i := false) (w := [ca]) hpa1 (.cons rfl (.nil _))
  obtain ⟨P2,h2,ht2,hw2⟩ := Pool.exists_steps_of_path (R := (pairSessions a b da db hn).rules)
    (P := P1) (i := true) (w := [ca,cb,fb]) (by rw [ht1]; exact hpb) (by
      rw [hw1]
      exact .cons (v := [ca,cb]) rfl (.cons ⟨Sessions.deliverable_of_mem (by simp),rfl⟩
        (.cons rfl (.cons ⟨hfmDeliver _,rfl⟩ (.nil _)))))
  obtain ⟨P3,h3,ht3,_⟩ := Pool.exists_steps_of_path (R := (pairSessions a b da db hn).rules)
    (P := P2) (i := false) (w := [ca,cb,fb,fa]) (by rw [ht2,ht1]; simpa using hpa2) (by
      rw [hw2]
      exact .cons ⟨Sessions.deliverable_of_mem (by simp),rfl⟩ (.cons rfl
        (.cons ⟨Sessions.deliverable_of_mem (by simp),rfl⟩ (.nil _))))
  exact ⟨P3,(h1.trans h2).trans h3,⟨_,by rw [ht3]; rfl,hrapk⟩,⟨_,by rw [ht3,ht2]; rfl,hrbpk⟩⟩

theorem sampleDraw_fresh : (sampleDraw 1).nonce ≠ (sampleDraw 2).nonce := by decide

def samplePair : Sessions shortSigLib Bool :=
  pairSessions (sampleIdentity shortSigLib 1) (sampleIdentity shortSigLib 2) (sampleDraw 1)
    (sampleDraw 2) sampleDraw_fresh

/-- The key of the relay in the sample. -/
def sampleRelay : Identity shortSigLib := sampleIdentity shortSigLib 3

theorem sampleRelay_dishonest : ¬ samplePair.honest sampleRelay.signing.pub := by
  simp only [samplePair,pairSessions]
  decide

/-- The challenge of node `i`, and the answer of node `j` to it. -/
theorem sampleAnswer (i j : UInt8) (h : ((challengeFrame shortSigLib
      (sampleIdentity shortSigLib i).id none (sampleDraw i)).bind
        (responseFrame (sampleIdentity shortSigLib j) (sampleDraw j))).isOk = true) {c : Bytes}
    (hc : challengeFrame shortSigLib (sampleIdentity shortSigLib i).id none (sampleDraw i) =
      .ok c) : ∃ f, responseFrame (sampleIdentity shortSigLib j) (sampleDraw j) c = .ok f := by
  obtain ⟨c',f,hc',hf⟩ := exists_ok_bind h
  cases hc.symm.trans hc'
  exact ⟨f,hf⟩

theorem samplePair_relayed :
    ∃ P, samplePair.Reachable P ∧
      (∃ conn, P.tasks false = .ret conn ∧
        conn.peerSigningPubkey = (sampleIdentity shortSigLib 2).signing.pub) ∧
      ∃ conn, P.tasks true = .ret conn ∧ conn.peerSigningPubkey = sampleRelay.signing.pub := by
  obtain ⟨ca,hca⟩ : ∃ c, challengeFrame shortSigLib (sampleIdentity shortSigLib 1).id none
      (sampleDraw 1) = .ok c := exists_ok (by decide +kernel)
  obtain ⟨cb,hcb⟩ : ∃ c, challengeFrame shortSigLib (sampleIdentity shortSigLib 2).id none
      (sampleDraw 2) = .ok c := exists_ok (by decide +kernel)
  obtain ⟨fa,hfa⟩ := sampleAnswer 2 1 (by decide +kernel) hcb
  obtain ⟨fb,hfb⟩ := sampleAnswer 1 2 (by decide +kernel) hca
  obtain ⟨fm,hfm⟩ := sampleAnswer 2 3 (by decide +kernel) hcb
  exact relay_reachable (sampleLib_packLaws digest32) shortSigLib_sigLaws sampleDraw_fresh
    hca hcb hfa hfb hfm sampleRelay_dishonest

theorem accepted_was_answered_sample :
    ∃ P j, samplePair.Reachable P ∧
      (samplePair.owner j).signing.pub = (sampleIdentity shortSigLib 2).signing.pub ∧
      samplePair.Answered P j (sampleDraw 1).nonce.bytes := by
  obtain ⟨P,hr,⟨conn,hi,hpk⟩,_⟩ := samplePair_relayed
  obtain ⟨j,hj,ha⟩ := accepted_was_answered (sampleLib_packLaws digest32) hr hi
    (by rw [hpk]; exact .inr rfl)
  exact ⟨P,j,hr,hj.trans hpk,ha⟩

/-- `A` ends up with a connection labelled `B` while the session of `B` that
answered it belongs to the relay. -/
theorem agreement_relayed :
    ¬ ∀ (L : Lib), L.PackLaws → L.SigLaws → ∀ (S : Sessions L Bool) (P : AuthPool Bool),
      S.Reachable P → ∀ i conn, P.tasks i = .ret conn → S.honest conn.peerSigningPubkey →
      conn.peerSigningPubkey ≠ (S.owner i).signing.pub →
      ∃ j, (S.owner j).signing.pub = conn.peerSigningPubkey ∧
        S.Answered P j (S.draw i).nonce.bytes ∧
        ∀ conn', P.tasks j = .ret conn' →
          conn'.peerSigningPubkey = (S.owner i).signing.pub := by
  intro h
  obtain ⟨P,hr,⟨conn,hi,hpk⟩,conn',hi',hpk'⟩ := samplePair_relayed
  have hne : conn.peerSigningPubkey ≠ (samplePair.owner false).signing.pub := by
    rw [hpk]
    decide
  obtain ⟨j,hj,_,hpeer⟩ := h shortSigLib (sampleLib_packLaws digest32) shortSigLib_sigLaws
    samplePair P hr false conn hi (by rw [hpk]; exact .inr rfl) hne
  cases j with
  | false => exact absurd hj.symm hne
  | true =>
    have hp := hpeer conn' hi'
    rw [hpk'] at hp
    exact sampleRelay_dishonest (.inl hp)

end Nevod
