import Nevod.External

/-! `node/crypto.py`. Randomness is passed in by the caller. -/

set_option autoImplicit false

namespace Nevod
open Text

variable (L : Lib)

def kdfInfo : Bytes := utf8 "nevod-e2e-v1"

structure SigningKeypair where
  priv : Seed
  pub : Bytes
  isPair : pub = L.edPublic priv

structure EncryptionKeypair where
  priv : Seed
  pub : Bytes
  isPair : pub = L.xPublic priv

def genSigning (seed : Seed) : SigningKeypair L := ⟨seed,L.edPublic seed,rfl⟩

def genEncryption (seed : Seed) : EncryptionKeypair L := ⟨seed,L.xPublic seed,rfl⟩

variable {L}

def sign (message : Bytes) (key : SigningKeypair L) : Bytes := L.edSign key.priv message

variable (L)

/-- Only `InvalidSignature` is turned into `False`; a malformed key or a value
of another type raises. -/
def verify (message : Bytes) (signature pubkeyBytes : Val) : Except Err Bool :=
  match pubkeyBytes with
  | .bin pub =>
    if L.edKeyOk pub then
      match signature with
      | .bin sig => .ok (L.edValid pub sig message)
      | _ => .error .typeError
    else .error (.valueError "An Ed25519 public key is 32 bytes long")
  | _ => .error .typeError

def kdf (sharedSecret ephemeralPubkey : Bytes) : Bytes :=
  L.hkdf sharedSecret ephemeralPubkey kdfInfo

/-- The ephemeral private key and the 12 nonce bytes one `encrypt` call draws. -/
structure SealRandom where
  ephemeral : Seed
  nonce : Bytes
  nonceLength : nonce.length = 12

structure Encrypted where
  ephemeralPubkey : Bytes
  nonce : Bytes
  ciphertext : Bytes
  deriving DecidableEq, Repr

def encrypt (rnd : SealRandom) (plaintext recipientEncPubkey : Bytes) :
    Except Err Encrypted :=
  match L.xExchange rnd.ephemeral recipientEncPubkey with
  | .error e => .error e
  | .ok shared =>
    let key := kdf L shared (L.xPublic rnd.ephemeral)
    match L.aeadEncrypt key rnd.nonce plaintext with
    | .error e => .error e
    | .ok ciphertext => .ok ⟨L.xPublic rnd.ephemeral,rnd.nonce,ciphertext⟩

variable {L}

def decrypt (ciphertext nonce ephemeralPubkey : Bytes) (encKeypair : EncryptionKeypair L) :
    Except Err Bytes :=
  match L.xExchange encKeypair.priv ephemeralPubkey with
  | .error e => .error e
  | .ok shared => L.aeadDecrypt (kdf L shared ephemeralPubkey) nonce ciphertext

theorem verify_sign (h : L.SigLaws) (key : SigningKeypair L) (m : Bytes) :
    verify L m (.bin (sign m key)) (.bin key.pub) = .ok true := by
  simp [verify,sign,key.isPair,h.keyOk,h.valid]

theorem verify_sign_ideal (h : L.IdealSig) (key : SigningKeypair L) (m m' : Bytes) :
    verify L m' (.bin (sign m key)) (.bin key.pub) = .ok (decide (m' = m)) := by
  have hv := h.valid_iff key.priv m m'
  simp only [verify,sign,key.isPair,h.keyOk,if_true]
  by_cases hm : m' = m
  · simp [hm,(h.valid_iff key.priv m m).mpr rfl]
  · have hf : L.edValid (L.edPublic key.priv) (L.edSign key.priv m) m' = false := by
      simpa [hm] using hv
    simp [hf,hm]

theorem verify_true {m : Bytes} {sig pub : Val} (h : verify L m sig pub = .ok true) :
    ∃ s pk, sig = .bin s ∧ pub = .bin pk ∧ L.edKeyOk pk = true ∧ L.edValid pk s m = true := by
  unfold verify at h
  split at h
  · rename_i pk
    by_cases hk : L.edKeyOk pk = true
    · rw [if_pos hk] at h
      split at h
      · rename_i s
        exact ⟨s,pk,rfl,rfl,hk,by simpa using h⟩
      · simp at h
    · rw [if_neg hk] at h
      simp at h
  · simp at h

/-- `decrypt` inverts `encrypt` for the recipient's own key pair. -/
theorem decrypt_encrypt (h : L.SealLaws) {rnd : SealRandom} {plaintext : Bytes}
    {kp : EncryptionKeypair L} {enc : Encrypted}
    (he : encrypt L rnd plaintext kp.pub = .ok enc) :
    decrypt enc.ciphertext enc.nonce enc.ephemeralPubkey kp = .ok plaintext := by
  obtain ⟨s,h1,h2⟩ := h.exchange rnd.ephemeral kp.priv
  rw [encrypt,kp.isPair,h1] at he
  cases hc : L.aeadEncrypt (kdf L s (L.xPublic rnd.ephemeral)) rnd.nonce plaintext with
  | error e => simp [hc] at he
  | ok c =>
    simp [hc] at he
    subst he
    simp only [decrypt,h2]
    exact h.decrypt _ _ _ _ rnd.nonceLength hc

end Nevod
