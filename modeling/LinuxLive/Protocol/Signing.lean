import LinuxLive.Lib.Hex
import LinuxLive.Lib.JsonCodec
import LinuxLive.Lib.OpenSSL
import LinuxLive.Protocol.Event

/-!
# Signed events

The id and the signature of an event, the check of a signature, and the alterations of
a signed event that the check notices.
-/

namespace LinuxLive

open Json

structure KeyPair where
  secretKey : Bytes
  publicKey : Bytes
  secretKey_length : secretKey.length = 32
  publicKey_length : publicKey.length = 32

/-- `generate_keypair` with the secret key that OpenSSL draws. -/
def generateKeypair (ssl : OpenSSL) (secretKey : Bytes) (h : secretKey.length = 32) : KeyPair where
  secretKey := secretKey
  publicKey := ssl.publicKey secretKey
  secretKey_length := h
  publicKey_length := ssl.publicKey_length secretKey

def firstWord (hash : Bytes) : UInt64 :=
  (hash.take 8).foldl (fun id b => id <<< 8 ||| b.toUInt64) 0

def idJson (event : Event) : Json :=
  .arr [.int 0, .int event.createdAt.toNat, .int event.kind.toNat, tagsJson event.tags,
    .str event.content]

/-- `none` is the exception of `dump()`. -/
def computeEventId (lib : JsonText) (ssl : OpenSSL) (event : Event) : Option UInt64 :=
  (lib.dump none (idJson event)).map fun serialized => firstWord (ssl.sha256 serialized)

/-- The text under the signature, built alike by `sign_event` and `verify_signature`. -/
def signedText (event : Event) : Bytes :=
  decimal event.id.toNat ++ lit "\n" ++ decimal event.createdAt.toNat ++ lit "\n" ++
    decimal event.kind.toNat ++ lit "\n"

def signEvent (lib : JsonText) (ssl : OpenSSL) (event : Event) (keypair : KeyPair) : Option Event :=
  (computeEventId lib ssl event).map fun id =>
    let event := { event with id := id, pubkey := toHex keypair.publicKey }
    { event with sig := toHex (ssl.sign keypair.secretKey (signedText event)) }

def verifySignature (ssl : OpenSSL) (event : Event) : Bool :=
  if event.sig = [] || event.pubkey = [] then false
  else if event.pubkey.length ≠ 64 then false
  else if event.sig.length ≠ 128 then false
  else ssl.verify (fromHex event.pubkey) (fromHex event.sig) (signedText event)

/-! ## What is signed -/

theorem signedText_inj {e e' : Event} :
    signedText e = signedText e' ↔ e.id = e'.id ∧ e.createdAt = e'.createdAt ∧ e.kind = e'.kind := by
  have hnewline : isDigit 10 = false := rfl
  have hlit : lit "\n" = [10] := rfl
  simp only [signedText, hlit, List.append_assoc, List.cons_append, List.nil_append,
    decimal_append_inj hnewline, UInt64.toNat_inj, UInt16.toNat_inj, and_true]

section sign

variable {lib : JsonText} {ssl : OpenSSL} {e s : Event} {kp : KeyPair}

theorem signEvent_spec (h : signEvent lib ssl e kp = some s) :
    s.createdAt = e.createdAt ∧ s.kind = e.kind ∧ s.tags = e.tags ∧ s.content = e.content ∧
      computeEventId lib ssl e = some s.id ∧ s.pubkey = toHex kp.publicKey ∧
      s.sig = toHex (ssl.sign kp.secretKey (signedText s)) := by
  obtain ⟨id, hid, rfl⟩ := Option.map_eq_some_iff.mp h
  exact ⟨rfl, rfl, rfl, rfl, hid, rfl, rfl⟩

theorem computeEventId_signed (h : signEvent lib ssl e kp = some s) :
    computeEventId lib ssl s = some s.id := by
  obtain ⟨hcreated, hkind, htags, hcontent, hid, _⟩ := signEvent_spec h
  have hjson : idJson s = idJson e := by simp only [idJson, hcreated, hkind, htags, hcontent]
  rw [← hid, computeEventId, hjson, computeEventId]

/-- Signing fails only on a text that is not UTF-8. -/
theorem exists_signEvent (ssl : OpenSSL) (kp : KeyPair) (htags : utf8Tags e.tags = true)
    (hcontent : utf8 e.content = true) : ∃ s, signEvent lib ssl e kp = some s := by
  have hu : (idJson e).utf8 = true := by
    simp [idJson, utf8_arr, utf8_tagsJson, htags, hcontent]
  obtain ⟨text, hdump⟩ := lib.dump_of_utf8 none hu
  exact ⟨_, by rw [signEvent, computeEventId, hdump, Option.map_some, Option.map_some]⟩

theorem utf8_signed (h : signEvent lib ssl e kp = some s) : s.utf8 = true := by
  obtain ⟨_, _, htags, hcontent, hid, hpubkey, hsig⟩ := signEvent_spec h
  obtain ⟨text, hdump, _⟩ := Option.map_eq_some_iff.mp hid
  have hu := lib.utf8_of_dump hdump
  simp only [idJson, utf8_arr, List.forall_mem_cons, utf8_str, utf8_tagsJson] at hu
  obtain ⟨_, _, _, htags', hcontent', _⟩ := hu
  rw [Event.utf8_iff, hpubkey, hsig, htags, hcontent]
  exact ⟨htags', hcontent', utf8_toHex _, utf8_toHex _⟩

theorem verifySignature_iff : verifySignature ssl e = true ↔
    e.pubkey.length = 64 ∧ e.sig.length = 128 ∧
      ssl.verify (fromHex e.pubkey) (fromHex e.sig) (signedText e) = true := by
  unfold verifySignature
  split
  · rename_i hempty
    simp only [Bool.or_eq_true, decide_eq_true_eq] at hempty
    rcases hempty with h | h
    · simp [h]
    · simp [h]
  · split
    · rename_i hpubkey
      simp [hpubkey]
    · split
      · rename_i hsig
        simp [hsig]
      · rename_i hpubkey hsig
        simp only [ne_eq, Decidable.not_not] at hpubkey hsig
        simp [hpubkey, hsig]

theorem verifySignature_signEvent (h : signEvent lib ssl e kp = some s)
    (hkeys : kp.publicKey = ssl.publicKey kp.secretKey) : verifySignature ssl s = true := by
  obtain ⟨_, _, _, _, _, hpubkey, hsig⟩ := signEvent_spec h
  rw [verifySignature_iff, hpubkey, hsig, fromHex_toHex, fromHex_toHex, length_toHex, length_toHex,
    kp.publicKey_length, ssl.sign_length, hkeys]
  exact ⟨rfl, rfl, ssl.verify_sign _ _⟩

end sign

/-! ## Tampering -/

/-- If the bytes that are checked for `s'` verify, then they are those that signing
produced for `s`. -/
def OnlySigned (ssl : OpenSSL) (kp : KeyPair) (s s' : Event) : Prop :=
  ssl.verify (fromHex s'.pubkey) (fromHex s'.sig) (signedText s') = true →
    fromHex s'.pubkey = ssl.publicKey kp.secretKey ∧
      fromHex s'.sig = ssl.sign kp.secretKey (signedText s) ∧ signedText s' = signedText s

/-- An altered event is refused exactly if the id, the time or the kind differs, or the key
or the signature is not a spelling of the same bytes. -/
theorem tampering_detected_iff (lib : JsonText) (ssl : OpenSSL) (e s s' : Event) (kp : KeyPair)
    (hs : signEvent lib ssl e kp = some s) (honly : OnlySigned ssl kp s s') :
    (s' ≠ s → verifySignature ssl s' = false) ↔
      s' = s ∨ s'.id ≠ s.id ∨ s'.createdAt ≠ s.createdAt ∨ s'.kind ≠ s.kind ∨
        ¬ Spells s'.pubkey (ssl.publicKey kp.secretKey) ∨ ¬ Spells s'.sig (fromHex s.sig) := by
  obtain ⟨_, _, _, _, _, _, hsig⟩ := signEvent_spec hs
  have hbytes : fromHex s.sig = ssl.sign kp.secretKey (signedText s) := by rw [hsig, fromHex_toHex]
  have hverify : verifySignature ssl s' = true ↔
      s'.id = s.id ∧ s'.createdAt = s.createdAt ∧ s'.kind = s.kind ∧
        Spells s'.pubkey (ssl.publicKey kp.secretKey) ∧ Spells s'.sig (fromHex s.sig) := by
    rw [verifySignature_iff, hbytes]
    constructor
    · intro h
      obtain ⟨hpubkey, hsig', htext⟩ := honly h.2.2
      obtain ⟨hid, hcreated, hkind⟩ := signedText_inj.mp htext
      refine ⟨hid, hcreated, hkind, ⟨?_, hpubkey⟩, ⟨?_, hsig'⟩⟩
      · rw [h.1, ssl.publicKey_length]
      · rw [h.2.1, ssl.sign_length]
    · intro h
      obtain ⟨hid, hcreated, hkind, hpubkey, hsig'⟩ := h
      have htext := signedText_inj.mpr ⟨hid, hcreated, hkind⟩
      refine ⟨?_, ?_, ?_⟩
      · rw [hpubkey.length, ssl.publicKey_length]
      · rw [hsig'.length, ssl.sign_length]
      · rw [hpubkey.reads, hsig'.reads, htext]
        exact ssl.verify_sign _ _
  rw [← Bool.not_eq_true, hverify]
  simp only [not_and_or, ne_eq]
  exact or_iff_not_imp_left.symm

/-! ## A signed event and its alteration -/

def sampleKeys : KeyPair where
  secretKey := fromHex (lit "9d61b19deffd5a60ba844af492ec2cc44449c5697b326919703bac031cae7f60")
  publicKey := fromHex (lit "d75a980182b10ab7d54bfed3c964073a0ee172f3daa62325af021a68f707511a")
  secretKey_length := rfl
  publicKey_length := rfl

theorem sampleKeys_publicKey_ne : sampleKeys.publicKey ≠ List.replicate 32 0 := by decide

def sampleEvent : Event where
  id := 0
  createdAt := 1700000000
  kind := 1
  tags := []
  content := lit "Original content"
  pubkey := []
  sig := []

/-- The digest, the key and the signature are those of the standards. -/
def sampleSSL : OpenSSL := .ofKnown {
  text := lit "[0,1700000000,1,[],\"Original content\"]"
  digest := fromHex (lit "4edae13126c2b88469218262b42b17a22f4b222f102128a8ed9535f7cc50cec0")
  secretKey := sampleKeys.secretKey
  publicKey := sampleKeys.publicKey
  message := lit "5682101481101244548\n1700000000\n1\n"
  signature := fromHex (lit "a6b767cddcb81bee31239591678d0748cc02fc6848bdb6e6a89c262a89d603c25aa4da25846288bb096cfa218542d14ee9f4509f7bb9076a77de236c51458b04")
  digest_length := rfl
  publicKey_length := sampleKeys.publicKey_length
  publicKey_ne := sampleKeys_publicKey_ne
  signature_length := by decide +kernel }

def sampleSigned : Event where
  id := 5682101481101244548
  createdAt := 1700000000
  kind := 1
  tags := []
  content := lit "Original content"
  pubkey := lit "d75a980182b10ab7d54bfed3c964073a0ee172f3daa62325af021a68f707511a"
  sig := lit "a6b767cddcb81bee31239591678d0748cc02fc6848bdb6e6a89c262a89d603c25aa4da25846288bb096cfa218542d14ee9f4509f7bb9076a77de236c51458b04"

theorem signEvent_sample :
    signEvent Json.codec sampleSSL sampleEvent sampleKeys = some sampleSigned := by
  decide +kernel

def sampleTampered : Event := { sampleSigned with content := lit "Tampered content" }

theorem onlySigned_sample : OnlySigned sampleSSL sampleKeys sampleSigned sampleTampered := by
  intro _
  decide +kernel

theorem tampering_detected_iff_sample :
    (sampleTampered ≠ sampleSigned → verifySignature sampleSSL sampleTampered = false) ↔
      sampleTampered = sampleSigned ∨ sampleTampered.id ≠ sampleSigned.id ∨
        sampleTampered.createdAt ≠ sampleSigned.createdAt ∨
        sampleTampered.kind ≠ sampleSigned.kind ∨
        ¬ Spells sampleTampered.pubkey (sampleSSL.publicKey sampleKeys.secretKey) ∨
        ¬ Spells sampleTampered.sig (fromHex sampleSigned.sig) :=
  tampering_detected_iff Json.codec sampleSSL sampleEvent sampleSigned sampleTampered sampleKeys
    signEvent_sample onlySigned_sample

/-- The altered content of the tamper test passes the check. -/
theorem tampered_content_verifies :
    signEvent Json.codec sampleSSL sampleEvent sampleKeys = some sampleSigned ∧
      OnlySigned sampleSSL sampleKeys sampleSigned sampleTampered ∧
      sampleTampered.content ≠ sampleSigned.content ∧
      verifySignature sampleSSL sampleTampered = true :=
  ⟨signEvent_sample, onlySigned_sample, by decide, by decide +kernel⟩

end LinuxLive
