import Nevod.Value

/-!
The packages the program is built on: msgpack, the Ed25519, X25519, HKDF and
ChaCha20-Poly1305 primitives of `cryptography`, and three text conversions of
Python and SQLite. They are parameters of everything below; what the code relies
on is stated as separate laws.
-/

set_option autoImplicit false

namespace Nevod
open Text

/-- The 32 bytes a private key is made of. -/
structure Seed where
  bytes : Bytes
  length : bytes.length = 32
  deriving DecidableEq

/-- `os.urandom(NONCE_SIZE)`. -/
structure Nonce where
  bytes : Bytes
  length : bytes.length = 32
  deriving DecidableEq

structure Lib where
  packb : Val → Except Err Bytes
  unpackb : Bytes → Except Err Val
  /-- `str` of floats and containers. -/
  repr : Val → String
  floatHex : UInt64 → String
  realText : UInt64 → Option String
  edPublic : Seed → Bytes
  edSign : Seed → Bytes → Bytes
  /-- `Ed25519PublicKey.from_public_bytes` accepts the bytes. -/
  edKeyOk : Bytes → Bool
  /-- Public key, signature, message. -/
  edValid : Bytes → Bytes → Bytes → Bool
  xPublic : Seed → Bytes
  xExchange : Seed → Bytes → Except Err Bytes
  hkdf : Bytes → Bytes → Bytes → Bytes
  aeadEncrypt : Bytes → Bytes → Bytes → Except Err Bytes
  aeadDecrypt : Bytes → Bytes → Bytes → Except Err Bytes

/-- Values that msgpack has a format for, at most `depth` levels deep. -/
def Val.packable : Nat → Val → Bool
  | 0, _ => false
  | _+1, .none => true
  | _+1, .bool _ => true
  | _+1, .float _ => true
  | _+1, .int n => decide (-2^63 ≤ n ∧ n < 2^64)
  | _+1, .str s => decide ((utf8 s).length < 2^32)
  | _+1, .bin b => decide (b.length < 2^32)
  | depth+1, .arr items =>
    decide (items.length < 2^32) && items.all (Val.packable depth)
  | depth+1, .map entries =>
    decide (entries.length < 2^32) &&
      entries.all (fun e => Val.packable depth e.1.toVal && Val.packable depth e.2)
  | _+1, .ext code data => decide (0 ≤ code ∧ code < 128 ∧ data.length < 2^32)

/-- `DEFAULT_RECURSE_LIMIT` of the packer. -/
def packDepth : Nat := 511

/-- What the code relies on of msgpack: it reads back what it wrote, and writes
exactly what it has a format for. -/
structure Lib.PackLaws (L : Lib) : Prop where
  unpackb_packb : ∀ v b, L.packb v = .ok b → L.unpackb b = .ok v
  packb_ok : ∀ v, v.packable packDepth = true → ∃ b, L.packb v = .ok b
  packable : ∀ v b, L.packb v = .ok b → v.packable packDepth = true

/-- A signature made by a key verifies under its public key. -/
structure Lib.SigLaws (L : Lib) : Prop where
  keyOk : ∀ k, L.edKeyOk (L.edPublic k) = true
  valid : ∀ k m, L.edValid (L.edPublic k) (L.edSign k m) m = true
  length : ∀ k m, (L.edSign k m).length = 64
  pubLength : ∀ k, (L.edPublic k).length = 32

/-- The ideal scheme: a signature made by a key verifies under that key exactly
for the bytes that were signed. -/
structure Lib.IdealSig (L : Lib) : Prop where
  keyOk : ∀ k, L.edKeyOk (L.edPublic k) = true
  valid_iff : ∀ k m m', L.edValid (L.edPublic k) (L.edSign k m) m' = true ↔ m' = m
  nonempty : ∀ k m, L.edSign k m ≠ []

/-- Key agreement is symmetric, and decryption inverts encryption. -/
structure Lib.SealLaws (L : Lib) : Prop where
  exchange : ∀ a b, ∃ s, L.xExchange a (L.xPublic b) = .ok s ∧
    L.xExchange b (L.xPublic a) = .ok s
  decrypt : ∀ k n p c, n.length = 12 → L.aeadEncrypt k n p = .ok c →
    L.aeadDecrypt k n c = .ok p

end Nevod
