import Nevod.Msgpack

/-!
Implementations of the packages for concrete runs: the msgpack codec with
stand-ins for the primitives. Nothing about them is secret or hard to forge,
they only satisfy the laws.
-/

set_option autoImplicit false

namespace Nevod
open Text

/-- The signature is the public key followed by a digest of the message. -/
def sampleLib (digest : Bytes → Bytes) : Lib where
  packb := Msgpack.packb
  unpackb := Msgpack.unpackb
  repr := fun _ => "<object>"
  floatHex := fun _ => "0x0.0p+0"
  realText := fun _ => none
  edPublic := Seed.bytes
  edSign := fun k m => k.bytes ++ digest m
  edKeyOk := fun pub => pub.length == 32
  edValid := fun pub sig m => sig == pub ++ digest m
  xPublic := Seed.bytes
  xExchange := fun k pub =>
    if pub.length = 32 then .ok (List.zipWith (· + ·) k.bytes pub)
    else .error (.valueError "An X25519 public key is 32 bytes long")
  hkdf := fun secret _ _ => secret
  aeadEncrypt := fun key nonce plaintext => .ok (key ++ nonce ++ plaintext)
  aeadDecrypt := fun key nonce ciphertext =>
    if key ++ nonce <+: ciphertext then .ok (ciphertext.drop (key ++ nonce).length)
    else .error .invalidTag

/-- The first 32 bytes of the message, filled up with zeros. -/
def digest32 (m : Bytes) : Bytes := (m ++ List.replicate 32 0).take 32

/-- Signatures of 64 bytes. -/
def shortSigLib : Lib := sampleLib digest32

/-- Signatures that determine the message. -/
def idealSigLib : Lib := sampleLib id

theorem sampleLib_packLaws (digest : Bytes → Bytes) : (sampleLib digest).PackLaws where
  unpackb_packb := fun _ _ h => Msgpack.unpackb_packb h
  packb_ok := fun _ h => Msgpack.packb_ok h
  packable := fun _ _ h => Msgpack.packable_of_packb h

theorem sampleLib_sealLaws (digest : Bytes → Bytes) : (sampleLib digest).SealLaws where
  exchange := by
    intro a b
    refine ⟨List.zipWith (· + ·) a.bytes b.bytes,?_,?_⟩
    · simp [sampleLib,b.length]
    · rw [List.zipWith_comm]
      simp [sampleLib,a.length,UInt8.add_comm]
  decrypt := by
    intro k n p c _ h
    simp only [sampleLib,Except.ok.injEq] at h
    subst h
    simp [sampleLib]

theorem shortSigLib_sigLaws : shortSigLib.SigLaws where
  keyOk := fun k => by simp [shortSigLib,sampleLib,k.length]
  valid := fun k m => by simp [shortSigLib,sampleLib]
  length := fun k m => by simp [shortSigLib,sampleLib,k.length,digest32]
  pubLength := fun k => by simp [shortSigLib,sampleLib,k.length]

theorem idealSigLib_idealSig : idealSigLib.IdealSig where
  keyOk := fun k => by simp [idealSigLib,sampleLib,k.length]
  valid_iff := by
    intro k m m'
    simp only [idealSigLib,sampleLib,id,beq_iff_eq,List.append_cancel_left_eq]
    exact eq_comm
  nonempty := by
    intro k m h
    have hl := congrArg List.length h
    simp [idealSigLib,sampleLib,k.length] at hl

theorem exists_ok {ε α : Type} {x : Except ε α} (h : x.isOk = true) : ∃ a, x = .ok a := by
  cases x with
  | error e => cases h
  | ok a => exact ⟨a,rfl⟩

theorem exists_ok_bind {ε α β : Type} {x : Except ε α} {f : α → Except ε β}
    (h : (x.bind f).isOk = true) : ∃ a b, x = .ok a ∧ f a = .ok b := by
  obtain ⟨b,hb⟩ := exists_ok h
  obtain ⟨a,ha,hf⟩ := exists_of_bind hb
  exact ⟨a,b,ha,hf⟩

theorem ok_toOption {ε α : Type} {x : Except ε α} (h : x.isOk = true) (d : α) :
    x = .ok (x.toOption.getD d) := by
  obtain ⟨a,rfl⟩ := exists_ok h
  rfl

/-- Thirty-two equal bytes. -/
def Seed.fill (b : UInt8) : Seed := ⟨List.replicate 32 b,by simp⟩

def Nonce.fill (b : UInt8) : Nonce := ⟨List.replicate 32 b,by simp⟩

end Nevod
