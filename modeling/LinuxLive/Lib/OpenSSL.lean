import LinuxLive.Lib.Bytes

/-!
# SHA-256 and Ed25519

The two primitives of OpenSSL, taken by what is documented of them: the lengths of
their results, and that a signature verifies under the public key of its secret key.
-/

namespace LinuxLive

structure OpenSSL where
  sha256 : Bytes → Bytes
  sha256_length : ∀ m, (sha256 m).length = 32
  /-- The raw public key of a raw private key. -/
  publicKey : Bytes → Bytes
  publicKey_length : ∀ sk, (publicKey sk).length = 32
  /-- `EVP_DigestSign` with a private key. -/
  sign : Bytes → Bytes → Bytes
  sign_length : ∀ sk m, (sign sk m).length = 64
  /-- `EVP_DigestVerify` with a public key, a signature and a message. -/
  verify : Bytes → Bytes → Bytes → Bool
  verify_sign : ∀ sk m, verify (publicKey sk) (sign sk m) m = true

namespace OpenSSL

/-- A digest and a signature that are known; everything else is zeros. -/
structure Known where
  text : Bytes
  digest : Bytes
  secretKey : Bytes
  publicKey : Bytes
  message : Bytes
  signature : Bytes
  digest_length : digest.length = 32
  publicKey_length : publicKey.length = 32
  publicKey_ne : publicKey ≠ List.replicate 32 0
  signature_length : signature.length = 64

def ofKnown (k : Known) : OpenSSL where
  sha256 m := if m = k.text then k.digest else List.replicate 32 0
  sha256_length m := by
    split
    · exact k.digest_length
    · exact List.length_replicate
  publicKey sk := if sk = k.secretKey then k.publicKey else List.replicate 32 0
  publicKey_length sk := by
    split
    · exact k.publicKey_length
    · exact List.length_replicate
  sign sk m := if sk = k.secretKey ∧ m = k.message then k.signature else List.replicate 64 0
  sign_length sk m := by
    split
    · exact k.signature_length
    · exact List.length_replicate
  verify pk sig m :=
    decide (sig = if pk = k.publicKey ∧ m = k.message then k.signature else List.replicate 64 0)
  verify_sign sk m := by
    have hzero : ¬ List.replicate 32 0 = k.publicKey := fun h => k.publicKey_ne h.symm
    by_cases hsk : sk = k.secretKey
    · simp [hsk]
    · simp only [hsk, if_false, false_and, hzero, decide_true]

/-- A known value of the right length, or zeros. -/
def sized (n : Nat) (known : Option Bytes) : Bytes :=
  if (known.getD []).length = n then known.getD [] else List.replicate n 0

theorem length_sized (n : Nat) (known : Option Bytes) : (sized n known).length = n := by
  unfold sized
  split
  · assumption
  · exact List.length_replicate

/-- Digests, public keys and signatures out of tables, a signature under the public key and the
message. -/
def ofTables (digests keys : List (Bytes × Bytes)) (signatures : List ((Bytes × Bytes) × Bytes)) :
    OpenSSL where
  sha256 m := sized 32 (digests.lookup m)
  sha256_length _ := length_sized _ _
  publicKey sk := sized 32 (keys.lookup sk)
  publicKey_length _ := length_sized _ _
  sign sk m := sized 64 (signatures.lookup (sized 32 (keys.lookup sk), m))
  sign_length _ _ := length_sized _ _
  verify pk sig m := decide (sig = sized 64 (signatures.lookup (pk, m)))
  verify_sign _ _ := decide_eq_true rfl

end OpenSSL

end LinuxLive
