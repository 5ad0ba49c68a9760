import LinuxLive.Protocol.Signing

/-!
# What an event id identifies

The id is a digest of the time, the kind, the tags and the content.  The author has no
part in it.
-/

namespace LinuxLive

open Json

theorem tagsJson_inj {tags tags' : List (List Bytes)} :
    tagsJson tags = tagsJson tags' ↔ tags = tags' := by
  have hstr : Function.Injective Json.str := fun _ _ h => Json.str.inj h
  have htag : Function.Injective fun tag : List Bytes => Json.arr (tag.map .str) :=
    fun _ _ h => List.map_injective_iff.mpr hstr (Json.arr.inj h)
  unfold tagsJson
  rw [Json.arr.injEq]
  exact (List.map_injective_iff.mpr htag).eq_iff

theorem idJson_inj {e e' : Event} : idJson e = idJson e' ↔
    e.createdAt = e'.createdAt ∧ e.kind = e'.kind ∧ e.tags = e'.tags ∧ e.content = e'.content := by
  simp only [idJson, Json.arr.injEq, List.cons.injEq, Json.int.injEq, tagsJson_inj, Json.str.injEq,
    Int.natCast_inj, UInt64.toNat_inj, UInt16.toNat_inj, true_and, and_true]

theorem canonical_idJson (e : Event) : (idJson e).canonical = true := by
  have hcreated := canonical_natCast e.createdAt.toNat_lt
  have hkind := canonical_natCast (Nat.lt_trans e.kind.toNat_lt (by decide))
  have hzero : (Json.int 0).canonical = true := canonical_natCast (show 0 < 2 ^ 64 by decide)
  simp [idJson, canonical_arr, hcreated, hkind, hzero, canonical_tagsJson]

/-- The digests of the serialisations of two events, cut to 64 bits, are equal only for
equal texts. -/
def NoCollision (lib : JsonText) (ssl : OpenSSL) (e e' : Event) : Prop :=
  ∀ text text', lib.dump none (idJson e) = some text → lib.dump none (idJson e') = some text' →
    firstWord (ssl.sha256 text) = firstWord (ssl.sha256 text') → text = text'

section ids

variable {lib : JsonText} {ssl : OpenSSL} {e e' s s' : Event} {kp kp' : KeyPair}

theorem idJson_eq_of_id {id : UInt64} (hid : computeEventId lib ssl e = some id)
    (hid' : computeEventId lib ssl e' = some id) (hsha : NoCollision lib ssl e e') :
    idJson e = idJson e' := by
  obtain ⟨text, htext, hword⟩ := Option.map_eq_some_iff.mp hid
  obtain ⟨text', htext', hword'⟩ := Option.map_eq_some_iff.mp hid'
  have hsame : text = text' := hsha text text' htext htext' (by rw [hword, hword'])
  have hparse := lib.parse_dump none _ text (canonical_idJson e) htext
  have hparse' := lib.parse_dump none _ text' (canonical_idJson e') htext'
  rw [hsame, hparse'] at hparse
  exact (Option.some.inj hparse).symm

theorem id_eq_iff (hs : signEvent lib ssl e kp = some s) (hs' : signEvent lib ssl e' kp' = some s')
    (hsha : NoCollision lib ssl e e') : s.id = s'.id ↔ idJson e = idJson e' := by
  obtain ⟨_, _, _, _, hid, _⟩ := signEvent_spec hs
  obtain ⟨_, _, _, _, hid', _⟩ := signEvent_spec hs'
  constructor
  · intro h
    rw [← h] at hid'
    exact idJson_eq_of_id hid hid' hsha
  · intro h
    have hsame : computeEventId lib ssl e = computeEventId lib ssl e' := by
      unfold computeEventId
      rw [h]
    rw [hid, hid'] at hsame
    exact Option.some.inj hsame

end ids

/-- An id tells two signed events apart exactly if their signers are one or if their time,
kind, tags or content differ. -/
theorem id_identifies_iff (lib : JsonText) (ssl : OpenSSL) (e e' s s' : Event) (kp kp' : KeyPair)
    (hs : signEvent lib ssl e kp = some s) (hs' : signEvent lib ssl e' kp' = some s')
    (hsha : NoCollision lib ssl e e') :
    (s.id = s'.id → e.createdAt = e'.createdAt ∧ e.kind = e'.kind ∧ e.tags = e'.tags ∧
      e.content = e'.content ∧ kp.publicKey = kp'.publicKey) ↔
    kp.publicKey = kp'.publicKey ∨ e.createdAt ≠ e'.createdAt ∨ e.kind ≠ e'.kind ∨
      e.tags ≠ e'.tags ∨ e.content ≠ e'.content := by
  rw [id_eq_iff hs hs' hsha, idJson_inj]
  tauto

/-- A second key pair of the standard. -/
def otherKeys : KeyPair where
  secretKey := fromHex (lit "4ccd089b28ff96da9db6c346ec114e0f5b8a319f35aba624da8cf6ed4fb8a6fb")
  publicKey := fromHex (lit "3d4017c3e843895a92b70aa74d1b7ebc9c982ccf2ec4968cc0cd55f12af4660c")
  secretKey_length := rfl
  publicKey_length := rfl

def otherSigned : Event :=
  { sampleSigned with pubkey := toHex otherKeys.publicKey, sig := toHex (List.replicate 64 0) }

theorem signEvent_other :
    signEvent Json.codec sampleSSL sampleEvent otherKeys = some otherSigned := by
  decide

theorem noCollision_self (lib : JsonText) (ssl : OpenSSL) (e : Event) :
    NoCollision lib ssl e e := by
  intro text text' htext htext' _
  rw [htext] at htext'
  exact Option.some.inj htext'

theorem id_identifies_iff_sample :
    (sampleSigned.id = otherSigned.id → sampleEvent.createdAt = sampleEvent.createdAt ∧
      sampleEvent.kind = sampleEvent.kind ∧ sampleEvent.tags = sampleEvent.tags ∧
      sampleEvent.content = sampleEvent.content ∧ sampleKeys.publicKey = otherKeys.publicKey) ↔
    sampleKeys.publicKey = otherKeys.publicKey ∨ sampleEvent.createdAt ≠ sampleEvent.createdAt ∨
      sampleEvent.kind ≠ sampleEvent.kind ∨ sampleEvent.tags ≠ sampleEvent.tags ∨
      sampleEvent.content ≠ sampleEvent.content :=
  id_identifies_iff Json.codec sampleSSL sampleEvent sampleEvent sampleSigned otherSigned sampleKeys
    otherKeys signEvent_sample signEvent_other (noCollision_self _ _ _)

/-- The same text at the same time, signed by two keys. -/
theorem ids_of_two_authors :
    signEvent Json.codec sampleSSL sampleEvent sampleKeys = some sampleSigned ∧
      signEvent Json.codec sampleSSL sampleEvent otherKeys = some otherSigned ∧
      NoCollision Json.codec sampleSSL sampleEvent sampleEvent ∧
      sampleSigned.id = otherSigned.id ∧ sampleKeys.publicKey ≠ otherKeys.publicKey :=
  ⟨signEvent_sample, signEvent_other, noCollision_self _ _ _, rfl, by decide⟩

end LinuxLive
