import Nevod.Protocol
import Nevod.Sample
import Nevod.Lib.Numeral

/-!
Which packets are determined by the bytes `sign_data` returns. The six fields
are joined without separators or lengths, so bytes can move between neighbours
and between the payload's tail and the timestamp.
-/

set_option autoImplicit false

namespace Nevod
open Text

/-- `p` and `q` agree on every field the signature is meant to cover. -/
def TypedPacket.SameContent (p q : TypedPacket) : Prop :=
  q.id = p.id ∧ q.type = p.type ∧ q.fromAddr = p.fromAddr ∧ q.toAddr = p.toAddr ∧
    q.payload = p.payload ∧ q.ts = p.ts

instance (p q : TypedPacket) : Decidable (p.SameContent q) := by
  unfold TypedPacket.SameContent
  infer_instance

def TypedPacket.texts (p : TypedPacket) : String := p.id ++ p.type ++ p.fromAddr ++ p.toAddr

theorem TypedPacket.signBytes_eq (p : TypedPacket) :
    p.signBytes = utf8 p.texts ++ (p.payload ++ decimal p.ts) := by
  simp [TypedPacket.signBytes,TypedPacket.texts]

/-- No byte of the packet can be read as part of another field. -/
structure TypedPacket.Unsplittable (p : TypedPacket) : Prop where
  texts : p.id = "" ∧ p.type = "" ∧ p.fromAddr = "" ∧ p.toAddr = ""
  ts : 0 ≤ p.ts ∧ p.ts < 10
  head : ∀ c : Char, ¬ String.utf8EncodeChar c <+: p.payload
  tail : endsInNumeral p.payload p.ts.toNat = false

theorem TypedPacket.texts_eq_empty {p : TypedPacket} :
    p.texts = "" ↔ p.id = "" ∧ p.type = "" ∧ p.fromAddr = "" ∧ p.toAddr = "" := by
  simp [TypedPacket.texts,and_assoc]

/-- The packet that has all of `payload` and `ts` but no text. -/
def TypedPacket.bare (payload : Bytes) (ts : Int) : TypedPacket :=
  ⟨"","","","",payload,ts,[],protoVersion⟩

theorem TypedPacket.signBytes_bare (payload : Bytes) (ts : Int) :
    (TypedPacket.bare payload ts).signBytes = payload ++ decimal ts := rfl

theorem decimal_small {n : Int} (h : 0 ≤ n ∧ n < 10) : decimal n = [digitByte n.toNat] := by
  have hn : ((n.toNat : Nat) : Int) = n := Int.toNat_of_nonneg h.1
  rw [← hn]
  exact decimal_digit (by omega)

/-- Every numeral but a single digit gives its leading bytes to the payload. -/
theorem exists_shorter_ts (n : Int) (h : ¬ (0 ≤ n ∧ n < 10)) :
    ∃ pre m, decimal n = pre ++ decimal m ∧ m ≠ n := by
  obtain ⟨pre,d,hd,hn⟩ := decimal_last n
  refine ⟨pre,d,by rw [hn,decimal_digit hd],?_⟩
  intro he
  omega

theorem unsplittable_of_injective {p : TypedPacket}
    (h : ∀ q : TypedPacket, p.signBytes = q.signBytes → p.SameContent q) :
    p.Unsplittable := by
  have htexts : p.id = "" ∧ p.type = "" ∧ p.fromAddr = "" ∧ p.toAddr = "" := by
    have hs := h (TypedPacket.bare (utf8 p.texts ++ p.payload) p.ts)
      (by simp [TypedPacket.signBytes_eq p,TypedPacket.signBytes_bare])
    exact ⟨hs.1.symm,hs.2.1.symm,hs.2.2.1.symm,hs.2.2.2.1.symm⟩
  have hbytes : p.signBytes = p.payload ++ decimal p.ts := by
    rw [p.signBytes_eq,TypedPacket.texts_eq_empty.mpr htexts]
    rfl
  have hts : 0 ≤ p.ts ∧ p.ts < 10 := by
    by_contra hts
    obtain ⟨pre,m,hm,hne⟩ := exists_shorter_ts p.ts hts
    have hs := h (TypedPacket.bare (p.payload ++ pre) m)
      (by rw [hbytes,hm,TypedPacket.signBytes_bare,List.append_assoc])
    exact hne hs.2.2.2.2.2
  refine ⟨htexts,hts,?_,?_⟩
  · rintro c ⟨rest,hrest⟩
    have hs := h { TypedPacket.bare rest p.ts with id := String.singleton c }
      (by rw [hbytes,← hrest]; simp [TypedPacket.signBytes,TypedPacket.bare])
    have hid := congrArg String.toList (hs.1.trans htexts.1)
    simp at hid
  · by_contra htail
    obtain ⟨pre,s,n,hp,hne,hn⟩ := exists_suffix_of_endsInNumeral
      (show p.ts.toNat < 10 by omega) (by simpa using htail)
    have hs := h (TypedPacket.bare pre n)
      (by rw [hbytes,hp,decimal_small hts,TypedPacket.signBytes_bare,← hn,List.append_assoc])
    have hpl : pre = pre ++ s := by
      rw [← hp]
      exact hs.2.2.2.2.1
    exact hne (List.self_eq_append_right.mp hpl)

theorem injective_of_unsplittable {p q : TypedPacket} (h : p.Unsplittable)
    (hq : p.signBytes = q.signBytes) : p.SameContent q := by
  have hdec := decimal_small h.ts
  rw [p.signBytes_eq,q.signBytes_eq,TypedPacket.texts_eq_empty.mpr h.texts,utf8_empty,
    List.nil_append,hdec] at hq
  have hqt : q.texts = "" := by
    by_contra hne
    obtain ⟨c,rest,hc⟩ := utf8_cons hne
    rw [hc,List.append_assoc] at hq
    have hpre : String.utf8EncodeChar c <+: p.payload ++ [digitByte p.ts.toNat] := ⟨_,hq.symm⟩
    -- a character that is no prefix of the payload takes up everything
    rcases List.prefix_concat_iff.mp (by simpa using hpre) with he | hp
    · rw [he] at hq
      have hnil := List.self_eq_append_right.mp hq
      simp [decimal_ne_nil] at hnil
    · exact h.head c hp
  rw [hqt,utf8_empty,List.nil_append] at hq
  obtain ⟨pre,d,hd,hqd⟩ := decimal_last q.ts
  rw [hqd,← List.append_assoc] at hq
  have hsplit := List.append_inj' hq rfl
  have hpre : pre = [] := by
    by_contra hne
    have hlt : p.ts.toNat < 10 := by
      have := h.ts
      omega
    have hn : pre ++ [digitByte p.ts.toNat] = decimal q.ts := by rw [hqd,hsplit.2]
    have he := endsInNumeral_of_suffix q.payload hlt hne hn
    rw [← hsplit.1] at he
    simp [h.tail] at he
  subst hpre
  have hts : p.ts = q.ts := by
    apply decimal_injective
    rw [hdec,hqd,hsplit.2,List.nil_append]
  obtain ⟨h1,h2,h3,h4⟩ := h.texts
  obtain ⟨g1,g2,g3,g4⟩ := TypedPacket.texts_eq_empty.mp hqt
  refine ⟨g1.trans h1.symm,g2.trans h2.symm,g3.trans h3.symm,g4.trans h4.symm,?_,hts.symm⟩
  rw [hsplit.1,List.append_nil]

theorem signBytes_injective_iff (p : TypedPacket) :
    (∀ q : TypedPacket, p.signBytes = q.signBytes → p.SameContent q) ↔ p.Unsplittable :=
  ⟨unsplittable_of_injective,fun h _ => injective_of_unsplittable h⟩

variable {L : Lib}

/-- The signature of `p` verifies on `q` when their signed bytes agree. -/
theorem verify_moved_signature (h : L.IdealSig) (kp : SigningKeypair L) (p q : TypedPacket) :
    verifyPacket L { q.packet with sig := .bin (sign p.signBytes kp) } kp.pub =
      .ok (decide (q.signBytes = p.signBytes)) := by
  have ht : (Val.bin (sign p.signBytes kp)).truthy = true := by
    simpa [Val.truthy,sign] using h.nonempty kp.priv p.signBytes
  unfold verifyPacket
  rw [signData_sig,TypedPacket.signData_packet]
  simp only [ht,Bool.not_true,Bool.false_eq_true,if_false,bind,Except.bind]
  exact verify_sign_ideal h kp _ _

theorem moved_signature_rejected_iff (h : L.IdealSig) (kp : SigningKeypair L)
    (p : TypedPacket) :
    (∀ q : TypedPacket, ¬ p.SameContent q →
      verifyPacket L { q.packet with sig := .bin (sign p.signBytes kp) } kp.pub = .ok false) ↔
      p.Unsplittable := by
  rw [← signBytes_injective_iff]
  simp only [verify_moved_signature h,Except.ok.injEq,decide_eq_false_iff_not]
  constructor
  · intro hq q he
    by_contra hn
    exact hq q hn he.symm
  · exact fun hq q hn he => hn (hq q he.symm)

/-- The signed bytes determine the packet, and its signature fits no other
packet, exactly when no byte of it can be read as part of another field. -/
theorem signData_tamper_evident_iff (h : L.IdealSig) (kp : SigningKeypair L)
    (p : TypedPacket) :
    ((∀ q : TypedPacket, p.packet.signData L = q.packet.signData L → p.SameContent q) ↔
      p.Unsplittable) ∧
    ((∀ (q : TypedPacket) (signed : Packet), signPacket L p.packet kp = .ok signed →
      ¬ p.SameContent q →
      verifyPacket L { q.packet with sig := signed.sig } kp.pub = .ok false) ↔
      p.Unsplittable) := by
  constructor
  · rw [← signBytes_injective_iff]
    simp
  · rw [← moved_signature_rejected_iff h kp]
    constructor
    · exact fun hq q => hq q _ rfl
    · intro hq q signed hs
      cases hs
      exact hq q

theorem signData_tamper_evident_small :
    ((∀ q : TypedPacket, (TypedPacket.bare [] 7).packet.signData idealSigLib =
        q.packet.signData idealSigLib → (TypedPacket.bare [] 7).SameContent q) ↔
      (TypedPacket.bare [] 7).Unsplittable) ∧
    ((∀ (q : TypedPacket) (signed : Packet),
      signPacket idealSigLib (TypedPacket.bare [] 7).packet
        (genSigning idealSigLib (Seed.fill 1)) = .ok signed →
      ¬ (TypedPacket.bare [] 7).SameContent q →
      verifyPacket idealSigLib { q.packet with sig := signed.sig }
        (genSigning idealSigLib (Seed.fill 1)).pub = .ok false) ↔
      (TypedPacket.bare [] 7).Unsplittable) :=
  signData_tamper_evident_iff idealSigLib_idealSig _ _

/-- The payload's last byte `1` is also the first digit of another timestamp. -/
theorem signData_resplit :
    ¬ ∀ (L : Lib) (p q : TypedPacket), p.packet.signData L = q.packet.signData L →
      p.SameContent q := by
  intro h
  have hb : [120,49] ++ decimal 700 = [120] ++ decimal 1700 := by
    rw [decimal_nonneg (by decide),decimal_nonneg (by decide)]
    decide
  have hs := h idealSigLib ⟨"8f1c","msg","a@n","b@n",[120,49],700,[],1⟩
    ⟨"8f1c","msg","a@n","b@n",[120],1700,[],1⟩
    (by simp only [TypedPacket.signData_packet,TypedPacket.signBytes_eq,TypedPacket.texts,hb])
  exact absurd hs.2.2.2.2.2 (by decide)

end Nevod
