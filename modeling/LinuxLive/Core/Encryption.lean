import Mathlib.Data.List.Basic
import LinuxLive.Lib.OpenSSL

/-!
# Encrypted messages

`Encryption::derive_shared_secret`, `encrypt` and `decrypt` over what they call of OpenSSL.
-/

namespace LinuxLive

/-- The functions of OpenSSL that only direct messages use. -/
structure EVP where
  /-- `EVP_PKEY_derive` with a private and a public X25519 key. -/
  derive : Bytes → Bytes → Bytes
  /-- `EVP_aes_256_cbc` with a key and an initial vector. -/
  aes256Cbc : Bytes → Bytes → Bytes → Bytes
  /-- `BIO_f_base64` without line breaks. -/
  base64 : Bytes → Bytes

namespace Encryption

def deriveSharedSecret (ssl : OpenSSL) (evp : EVP) (privkey pubkey : Bytes) : Bytes :=
  ssl.sha256 (evp.derive privkey pubkey)

/-- `encrypt` with the initial vector that `RAND_bytes` gives. -/
def encrypt (ssl : OpenSSL) (evp : EVP) (iv senderPrivkey recipientPubkey plaintext : Bytes) :
    Bytes :=
  let shared := deriveSharedSecret ssl evp senderPrivkey recipientPubkey
  evp.base64 (iv ++ evp.aes256Cbc shared iv plaintext)

end Encryption

/-- The inverse functions of OpenSSL, and what is documented of both directions. -/
structure EVPInverse extends EVP where
  /-- `EVP_DecryptUpdate` and `EVP_DecryptFinal_ex` with a key and an initial vector. -/
  aes256CbcDecrypt : Bytes → Bytes → Bytes → Bytes
  /-- `BIO_f_base64` read without line breaks; empty for a text that is refused. -/
  base64Decode : Bytes → Bytes
  decrypt_encrypt : ∀ key iv m, key.length = 32 → iv.length = 16 →
    aes256CbcDecrypt key iv (aes256Cbc key iv m) = m
  decode_encode : ∀ data, base64Decode (base64 data) = data
  base64_ascii : ∀ data, ∀ b ∈ base64 data, b ≤ 0x7F

namespace Encryption

/-- A text too short for an initial vector decrypts to nothing. -/
def decrypt (ssl : OpenSSL) (evp : EVPInverse)
    (recipientPrivkey senderPubkey ciphertextBase64 : Bytes) : Bytes :=
  let shared := deriveSharedSecret ssl evp.toEVP recipientPrivkey senderPubkey
  let decoded := evp.base64Decode ciphertextBase64
  if decoded.length < 16 then []
  else evp.aes256CbcDecrypt shared (decoded.take 16) (decoded.drop 16)

section decrypt

variable {ssl : OpenSSL} {evp : EVPInverse} {iv senderPrivkey recipientPubkey recipientPrivkey
  senderPubkey m : Bytes}

/-- Vector and ciphertext arrive at the recipient; the key is its own. -/
theorem decrypt_encrypt (hiv : iv.length = 16) :
    decrypt ssl evp recipientPrivkey senderPubkey
        (encrypt ssl evp.toEVP iv senderPrivkey recipientPubkey m) =
      evp.aes256CbcDecrypt (deriveSharedSecret ssl evp.toEVP recipientPrivkey senderPubkey) iv
        (evp.aes256Cbc (deriveSharedSecret ssl evp.toEVP senderPrivkey recipientPubkey) iv m) := by
  simp only [decrypt, encrypt, evp.decode_encode]
  rw [if_neg (by rw [List.length_append]; omega), List.take_left' hiv, List.drop_left' hiv]

end decrypt

end Encryption

end LinuxLive
