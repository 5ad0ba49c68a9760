import LinuxLive.Core.IdentityFile
import LinuxLive.Core.RelayClient

/-!
# Direct messages from one identity to another

The key that `send_dm` encrypts with and the key that `decrypt` derives on the other side.
-/

namespace LinuxLive

open Json RelayClient IdentityManager

/-- The identities that `generate` and `login` make. -/
inductive Made (ssl : OpenSSL) : Identity → Prop where
  | generated {secretKey displayName : Bytes} {now : UInt64} (h : secretKey.length = 32) :
      Made ssl (generate ssl secretKey h displayName now)
  | loggedIn {file : Option Bytes} {privateKeyHex : Bytes} {now : UInt64} {id : Identity}
      (h : login ssl file privateKeyHex now = some id) : Made ssl id

theorem Made.publicKey_eq {ssl : OpenSSL} {id : Identity} (h : Made ssl id) :
    id.publicKey = ssl.publicKey id.secretKey := by
  cases h with
  | generated h => rfl
  | @loggedIn file text now _ h =>
      cases hkey : hexToKey text 32 with
      | none =>
          rw [login_eq_none hkey] at h
          cases h
      | some secretKey =>
          obtain ⟨id', hid', hsecret, hpublic⟩ := login_of_hexToKey ssl file now hkey
          rw [hid'] at h
          cases h
          rw [hpublic, hsecret]

theorem readKeyPair_keyToHex (id : Identity) :
    ∃ kp, readKeyPair (keyToHex id.secretKey) (keyToHex id.publicKey) = some kp ∧
      kp.secretKey = id.secretKey := by
  have hsecret := hexToKey_keyToHex id.secretKey_length
  have hpublic := hexToKey_keyToHex id.publicKey_length
  unfold readKeyPair
  split
  · rename_i sk pk hsk hpk
    rw [hsecret] at hsk
    cases hsk
    exact ⟨_, rfl, rfl⟩
  · rename_i hno
    exact (hno _ _ hsecret hpublic).elim

section messages

variable (lib : JsonText) (ssl : OpenSSL) (evp : EVPInverse) (a b : Identity)

def dmFrame (m iv : Bytes) (now : UInt64) : Option Bytes :=
  sendDm lib ssl evp.toEVP (keyToHex b.publicKey) m (keyToHex a.secretKey) (keyToHex a.publicKey)
    iv now

/-- Every message that `a` sends to `b` decrypts to itself with the keys of `b` and `a`. -/
def DmsReadable : Prop :=
  ∀ m iv now, iv.length = 16 → ∃ raw e, dmFrame lib ssl evp a b m iv now = some raw ∧
    lib.parse raw = some (.arr [.str (lit "EVENT"), wireJson e]) ∧
    Encryption.decrypt ssl evp b.secretKey a.publicKey e.content = m

/-- X25519 gives both sides one secret, when each is given the Ed25519 public key of the other. -/
def Agree (secretKey secretKey' : Bytes) : Prop :=
  evp.derive secretKey (ssl.publicKey secretKey') = evp.derive secretKey' (ssl.publicKey secretKey)

/-- SHA-256 tells the two secrets apart. -/
def NoSecretCollision (secretKey secretKey' : Bytes) : Prop :=
  ssl.sha256 (evp.derive secretKey (ssl.publicKey secretKey')) =
      ssl.sha256 (evp.derive secretKey' (ssl.publicKey secretKey)) →
    Agree ssl evp secretKey secretKey'

/-- No key decrypts everything that another key encrypts. -/
def KeysMatter : Prop :=
  ∀ key key' : Bytes, key.length = 32 → key'.length = 32 →
    (∀ iv m, iv.length = 16 → evp.aes256CbcDecrypt key' iv (evp.aes256Cbc key iv m) = m) →
      key = key'

theorem dmFrame_spec (m iv : Bytes) (now : UInt64) :
    ∃ raw e, dmFrame lib ssl evp a b m iv now = some raw ∧
      lib.parse raw = some (.arr [.str (lit "EVENT"), wireJson e]) ∧
      e.content = Encryption.encrypt ssl evp.toEVP iv a.secretKey b.publicKey m := by
  obtain ⟨kp, hkp, hsecret⟩ := readKeyPair_keyToHex a
  have hrecipient := hexToKey_keyToHex b.publicKey_length
  let encrypted := Encryption.encrypt ssl evp.toEVP iv a.secretKey b.publicKey m
  have htags : utf8Tags [[lit "p", keyToHex b.publicKey]] = true := by
    simp [utf8Tags, keyToHex, utf8_toHex]
  have hcontent : utf8 encrypted = true := utf8_of_ascii (evp.base64_ascii _)
  have hsigns : ∃ e, signEvent lib ssl
      ⟨0, now, 4, [[lit "p", keyToHex b.publicKey]], encrypted, keyToHex a.publicKey, []⟩ kp =
        some e := exists_signEvent ssl kp htags hcontent
  obtain ⟨e, hsign⟩ := hsigns
  have hdm : dmFrame lib ssl evp a b m iv now =
      lib.dump none (.arr [.str (lit "EVENT"), wireJson e]) := by
    rw [← send_of_signEvent hkp hsign, dmFrame, sendDm, hkp, hrecipient]
    simp only [bind, Option.bind, hsecret]
    rfl
  have hu : (Json.arr [.str (lit "EVENT"), wireJson e]).utf8 = true := by
    simp [utf8_arr, utf8_wireJson hsign]
  obtain ⟨raw, hraw⟩ := lib.dump_of_utf8 none hu
  have hcanonical : (Json.arr [.str (lit "EVENT"), wireJson e]).canonical = true := by
    simp [canonical_arr, canonical_wireJson]
  exact ⟨raw, e, hdm.trans hraw, lib.parse_dump none _ raw hcanonical hraw,
    (signEvent_spec hsign).2.2.2.1⟩

variable {ssl evp a b}

theorem dmsReadable_of_agree (lib : JsonText) (ha : Made ssl a) (hb : Made ssl b)
    (h : Agree ssl evp a.secretKey b.secretKey) : DmsReadable lib ssl evp a b := by
  intro m iv now hiv
  obtain ⟨raw, e, hraw, hparse, hcontent⟩ := dmFrame_spec lib ssl evp a b m iv now
  have hshared : Encryption.deriveSharedSecret ssl evp.toEVP b.secretKey a.publicKey =
      Encryption.deriveSharedSecret ssl evp.toEVP a.secretKey b.publicKey := by
    unfold Encryption.deriveSharedSecret
    rw [ha.publicKey_eq, hb.publicKey_eq, ← h]
  refine ⟨raw, e, hraw, hparse, ?_⟩
  rw [hcontent, Encryption.decrypt_encrypt hiv, hshared]
  exact evp.decrypt_encrypt _ _ _ (ssl.sha256_length _) hiv

/-- What is read is the plaintext decrypted with the key of the other side. -/
theorem decrypt_of_dmsReadable {lib : JsonText} (h : DmsReadable lib ssl evp a b) (m iv : Bytes)
    (hiv : iv.length = 16) :
    evp.aes256CbcDecrypt
        (Encryption.deriveSharedSecret ssl evp.toEVP b.secretKey a.publicKey) iv
        (evp.aes256Cbc (Encryption.deriveSharedSecret ssl evp.toEVP a.secretKey b.publicKey) iv m) =
      m := by
  obtain ⟨raw, e, hraw, hparse, hcontent⟩ := dmFrame_spec lib ssl evp a b m iv 0
  obtain ⟨raw', e', hraw', hparse', hread⟩ := h m iv 0 hiv
  rw [hraw] at hraw'
  cases hraw'
  rw [hparse] at hparse'
  simp only [Option.some.injEq, Json.arr.injEq, List.cons.injEq, wireJson_inj, true_and,
    and_true] at hparse'
  rw [← hparse', hcontent, Encryption.decrypt_encrypt hiv] at hread
  exact hread

theorem agree_of_dmsReadable {lib : JsonText} (ha : Made ssl a) (hb : Made ssl b)
    (hkeys : KeysMatter evp) (hsha : NoSecretCollision ssl evp a.secretKey b.secretKey)
    (h : DmsReadable lib ssl evp a b) : Agree ssl evp a.secretKey b.secretKey := by
  apply hsha
  rw [← ha.publicKey_eq, ← hb.publicKey_eq]
  apply hkeys _ _ (ssl.sha256_length _) (ssl.sha256_length _)
  intro iv m hiv
  exact decrypt_of_dmsReadable h m iv hiv

/-- With X25519 public keys in the identities the two sides would agree. -/
theorem agree_of_x25519 {xPublicKey : Bytes → Bytes}
    (hcomm : ∀ sk sk', evp.derive sk (xPublicKey sk') = evp.derive sk' (xPublicKey sk))
    (hkey : ∀ sk, ssl.publicKey sk = xPublicKey sk) (sk sk' : Bytes) : Agree ssl evp sk sk' := by
  unfold Agree
  rw [hkey, hkey, hcomm]

/-- Two identities can read each other's messages if X25519 agrees on their Ed25519 keys, and,
as far as SHA-256 and AES tell secrets apart, only then. -/
theorem dms_readable_iff (lib : JsonText) (evp : EVPInverse) (ha : Made ssl a) (hb : Made ssl b) :
    (Agree ssl evp a.secretKey b.secretKey → DmsReadable lib ssl evp a b) ∧
      (KeysMatter evp → NoSecretCollision ssl evp a.secretKey b.secretKey →
        (DmsReadable lib ssl evp a b ↔ Agree ssl evp a.secretKey b.secretKey)) := by
  refine ⟨dmsReadable_of_agree lib ha hb, ?_⟩
  intro hkeys hsha
  exact ⟨agree_of_dmsReadable ha hb hkeys hsha, dmsReadable_of_agree lib ha hb⟩

end messages

/-! ## Two identities of the standard -/

/-- What OpenSSL computes for two key pairs, a vector and a message. -/
structure KnownDm where
  secrets : List ((Bytes × Bytes) × Bytes)
  key : Bytes
  iv : Bytes
  message : Bytes
  ciphertext : Bytes
  encoded : Bytes
  ciphertext_short : ciphertext.length < 32
  encoded_ascii : ∀ b ∈ encoded, b ≤ 0x7F
  encoded_head : encoded.head? ≠ some 35

/-- The known values; any other ciphertext is the plaintext behind its key, and any other
encoding is hexadecimal behind a `#`. -/
def EVPInverse.ofKnown (k : KnownDm) : EVPInverse where
  derive privkey pubkey := (k.secrets.lookup (privkey, pubkey)).getD []
  aes256Cbc key iv m :=
    if key = k.key ∧ iv = k.iv ∧ m = k.message then k.ciphertext else key ++ m
  base64 data := if data = k.iv ++ k.ciphertext then k.encoded else 35 :: toHex data
  aes256CbcDecrypt key iv c :=
    if c = k.ciphertext then (if key = k.key ∧ iv = k.iv then k.message else [])
    else if c.take 32 = key then c.drop 32 else []
  base64Decode text := if text = k.encoded then k.iv ++ k.ciphertext else fromHex (text.drop 1)
  decrypt_encrypt := by
    intro key iv m hkey _
    by_cases hknown : key = k.key ∧ iv = k.iv ∧ m = k.message
    · simp [hknown]
    · have hne : key ++ m ≠ k.ciphertext := by
        intro h
        have hlen := congrArg List.length h
        have hshort := k.ciphertext_short
        rw [List.length_append] at hlen
        omega
      simp [hknown, hne, List.take_left' hkey, List.drop_left' hkey]
  decode_encode := by
    intro data
    by_cases hknown : data = k.iv ++ k.ciphertext
    · simp [hknown]
    · have hne : 35 :: toHex data ≠ k.encoded := by
        intro h
        exact k.encoded_head (by rw [← h]; rfl)
      simp [hknown, hne, fromHex_toHex]
  base64_ascii := by
    intro data b hb
    split at hb
    · exact k.encoded_ascii b hb
    · rcases List.mem_cons.mp hb with rfl | hb
      · decide
      · obtain ⟨d, hd, rfl⟩ := mem_toHex hb
        exact hexDigit_le d hd

theorem keysMatter_ofKnown (k : KnownDm) (hmessage : k.message ≠ [0]) :
    KeysMatter (.ofKnown k) := by
  intro key key' hkey hkey' h
  have hsame := h (List.replicate 16 0) [0] List.length_replicate
  have hne : key ++ [0] ≠ k.ciphertext := by
    intro heq
    have hlen := congrArg List.length heq
    have hshort := k.ciphertext_short
    rw [List.length_append] at hlen
    omega
  simp only [EVPInverse.ofKnown, Ne.symm hmessage, and_false, if_false, hne] at hsame
  rw [List.take_left' hkey] at hsame
  by_contra hdiff
  rw [if_neg hdiff] at hsame
  cases hsame

/-- The message `hi` from the first identity to the second. -/
def dmEVP : EVPInverse := .ofKnown {
  secrets := [
    ((sampleKeys.secretKey, otherKeys.publicKey),
      fromHex (lit "71fb0b1b662688c0f489742c9655e11e343603e0484ae5c652c8b76c7939c452")),
    ((otherKeys.secretKey, sampleKeys.publicKey),
      fromHex (lit "8759821ad861ab1044112425c9ddcb9ab9f3df546687bb6fc8af3212316bdd4a"))]
  key := fromHex (lit "6df67dee340855bff7e7609ce7fc4900ab895b36ba2abcf595f0e940b4d056d7")
  iv := fromHex (lit "000102030405060708090a0b0c0d0e0f")
  message := lit "hi"
  ciphertext := fromHex (lit "f8d1123926bf1e1e2c60b6727d877da9")
  encoded := lit "AAECAwQFBgcICQoLDA0OD/jREjkmvx4eLGC2cn2Hfak="
  ciphertext_short := by decide
  encoded_ascii := by decide +kernel
  encoded_head := by decide }

def dmText : Bytes :=
  lit "[0,1700000000,4,[[\"p\",\"3d4017c3e843895a92b70aa74d1b7ebc9c982ccf2ec4968cc0cd55f12af4660c\"]]," ++
    lit "\"AAECAwQFBgcICQoLDA0OD/jREjkmvx4eLGC2cn2Hfak=\"]"

/-- The digests, the keys and the signature are those of the standards. -/
def dmSSL : OpenSSL := .ofTables
  [(fromHex (lit "71fb0b1b662688c0f489742c9655e11e343603e0484ae5c652c8b76c7939c452"),
      fromHex (lit "6df67dee340855bff7e7609ce7fc4900ab895b36ba2abcf595f0e940b4d056d7")),
    (fromHex (lit "8759821ad861ab1044112425c9ddcb9ab9f3df546687bb6fc8af3212316bdd4a"),
      fromHex (lit "f74156d4b3cafa27dd8834666b1d793cd6e4c1a0b080675af05b7b00497783e1")),
    (dmText, fromHex (lit "08e4eea875aabc0b97322404d4d8f62695c5f770457fdeca3f526e5a1fe969de"))]
  [(sampleKeys.secretKey, sampleKeys.publicKey), (otherKeys.secretKey, otherKeys.publicKey)]
  [((sampleKeys.publicKey, lit "640899454289493003\n1700000000\n4\n"),
      fromHex (lit "556ce5c51b4aa2ecc07955b15a003173d9db58f30e8f6633d1bf396b9ba447bc38fc1e4445f0895033bc193fe93c8a4a62a8ed64b39a5f9a50cb3a89f932a70b"))]

def ann : Identity := generate dmSSL sampleKeys.secretKey rfl (lit "ann") 1700000000

def bob : Identity := generate dmSSL otherKeys.secretKey rfl (lit "bob") 1700000000

theorem keysMatter_dmEVP : KeysMatter dmEVP := keysMatter_ofKnown _ (by decide)

theorem noSecretCollision_ann_bob :
    NoSecretCollision dmSSL dmEVP ann.secretKey bob.secretKey := by
  intro hsame
  exact absurd hsame (by decide)

theorem dms_readable_iff_ann_bob :
    (Agree dmSSL dmEVP ann.secretKey bob.secretKey →
        DmsReadable Json.codec dmSSL dmEVP ann bob) ∧
      (DmsReadable Json.codec dmSSL dmEVP ann bob ↔
        Agree dmSSL dmEVP ann.secretKey bob.secretKey) := by
  have hboth := dms_readable_iff Json.codec dmEVP (.generated rfl : Made dmSSL ann)
    (.generated rfl : Made dmSSL bob)
  exact ⟨hboth.1, hboth.2 keysMatter_dmEVP noSecretCollision_ann_bob⟩

/-- The message of ann to bob is sent and comes out empty. -/
theorem dm_is_unreadable :
    Made dmSSL ann ∧ Made dmSSL bob ∧
      ∃ raw e, dmFrame Json.codec dmSSL dmEVP ann bob (lit "hi")
          (fromHex (lit "000102030405060708090a0b0c0d0e0f")) 1700000000 = some raw ∧
        Json.codec.parse raw = some (.arr [.str (lit "EVENT"), wireJson e]) ∧
        e.content = lit "AAECAwQFBgcICQoLDA0OD/jREjkmvx4eLGC2cn2Hfak=" ∧
        Encryption.decrypt dmSSL dmEVP bob.secretKey ann.publicKey e.content = [] ∧
        ¬ DmsReadable Json.codec dmSSL dmEVP ann bob := by
  obtain ⟨raw, e, hraw, hparse, hcontent⟩ := dmFrame_spec Json.codec dmSSL dmEVP ann bob (lit "hi")
    (fromHex (lit "000102030405060708090a0b0c0d0e0f")) 1700000000
  have hencoded : e.content = lit "AAECAwQFBgcICQoLDA0OD/jREjkmvx4eLGC2cn2Hfak=" := by
    rw [hcontent]
    decide
  have hempty : Encryption.decrypt dmSSL dmEVP bob.secretKey ann.publicKey e.content = [] := by
    rw [hencoded]
    decide
  refine ⟨.generated rfl, .generated rfl, raw, e, hraw, hparse, hencoded, hempty, ?_⟩
  intro h
  have hread := decrypt_of_dmsReadable h (lit "hi")
    (fromHex (lit "000102030405060708090a0b0c0d0e0f")) rfl
  exact absurd hread (by decide)

end LinuxLive
