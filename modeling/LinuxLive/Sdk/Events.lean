import Mathlib.Data.List.TakeWhile
import LinuxLive.Protocol.Signing

/-!
# Events of the C interface

`lili_event_t` and the functions of the SDK that sign, verify and serialise it.  The
struct has no tags.
-/

namespace LinuxLive

/-- A `char*` string: the bytes up to its terminator. -/
structure CString where
  chars : Bytes
  no_nul : 0 ∉ chars

/-- `strdup(s.c_str())`. -/
def CString.dup (s : Bytes) : CString where
  chars := s.takeWhile (· != 0)
  no_nul h := by simpa using List.mem_takeWhile_imp h

theorem CString.dup_chars {s : Bytes} (h : 0 ∉ s) : (CString.dup s).chars = s := by
  apply List.takeWhile_eq_self_iff.mpr
  intro b hb
  simp only [bne_iff_ne, ne_eq]
  intro hzero
  exact h (hzero ▸ hb)

structure LiliEvent where
  id : UInt64
  createdAt : UInt64
  kind : UInt16
  content : CString
  pubkey : CString
  sig : CString

namespace Sdk

/-- The native event that the functions build of a struct. -/
def nativeEvent (event : LiliEvent) : Event where
  id := event.id
  createdAt := event.createdAt
  kind := event.kind
  tags := []
  content := event.content.chars
  pubkey := event.pubkey.chars
  sig := event.sig.chars

/-- `none` is the exception of `sign_event`; the `sig` of the struct is not read. -/
def liliSignEvent (lib : JsonText) (ssl : OpenSSL) (event : LiliEvent) (kp : KeyPair) :
    Option LiliEvent :=
  (signEvent lib ssl { nativeEvent event with sig := [] } kp).map fun signed =>
    { event with id := signed.id, pubkey := .dup signed.pubkey, sig := .dup signed.sig }

def liliVerifyEvent (ssl : OpenSSL) (event : LiliEvent) : Int :=
  if verifySignature ssl (nativeEvent event) then 1 else 0

/-- The struct holds the signed event, which has no tags. -/
theorem nativeEvent_of_liliSignEvent {lib : JsonText} {ssl : OpenSSL} {event event' : LiliEvent}
    {kp : KeyPair} (h : liliSignEvent lib ssl event kp = some event') :
    signEvent lib ssl { nativeEvent event with sig := [] } kp = some (nativeEvent event') := by
  obtain ⟨signed, hsigned, rfl⟩ := Option.map_eq_some_iff.mp h
  obtain ⟨hcreated, hkind, htags, hcontent, _, hpubkey, hsig⟩ := signEvent_spec hsigned
  have hpubkey' : (CString.dup signed.pubkey).chars = signed.pubkey := by
    rw [hpubkey]
    exact CString.dup_chars (zero_not_mem_toHex _)
  have hsig' : (CString.dup signed.sig).chars = signed.sig := by
    rw [hsig]
    exact CString.dup_chars (zero_not_mem_toHex _)
  rw [hsigned]
  cases signed
  simp only [nativeEvent] at hcreated hkind htags hcontent hpubkey' hsig' ⊢
  simp [hcreated, hkind, htags, hcontent, hpubkey', hsig']

end Sdk

/-- A signed event verifies, comes back from its text in every field, and verifies then;
so does every event that the C interface signs. -/
theorem signed_event_survives (lib : JsonText) (ssl : OpenSSL) (kp : KeyPair)
    (hkeys : kp.publicKey = ssl.publicKey kp.secretKey) :
    (∀ e : Event, utf8Tags e.tags = true → utf8 e.content = true →
      ∃ s text s', signEvent lib ssl e kp = some s ∧ verifySignature ssl s = true ∧
        s.serialize lib = some text ∧ Event.deserialize lib text = some s' ∧ s' = s ∧
        verifySignature ssl s' = true) ∧
    ∀ event event' : LiliEvent, Sdk.liliSignEvent lib ssl event kp = some event' →
      Sdk.liliVerifyEvent ssl event' = 1 := by
  constructor
  · intro e htags hcontent
    obtain ⟨s, hs⟩ := exists_signEvent ssl kp htags hcontent
    obtain ⟨text, htext⟩ := lib.dump_of_utf8 none (Event.utf8_json (utf8_signed hs))
    have hverify := verifySignature_signEvent hs hkeys
    exact ⟨s, text, s, hs, hverify, htext, Event.deserialize_serialize lib htext, rfl, hverify⟩
  · intro event event' h
    have hverify := verifySignature_signEvent (Sdk.nativeEvent_of_liliSignEvent h) hkeys
    rw [Sdk.liliVerifyEvent, hverify]
    rfl

def sampleLiliEvent : LiliEvent where
  id := 0
  createdAt := 1700000000
  kind := 1
  content := ⟨lit "Original content", by decide⟩
  pubkey := ⟨[], List.not_mem_nil⟩
  sig := ⟨[], List.not_mem_nil⟩

theorem exists_liliSignEvent_sample :
    ∃ event, Sdk.liliSignEvent Json.codec sampleSSL sampleLiliEvent sampleKeys = some event := by
  have hnative : { Sdk.nativeEvent sampleLiliEvent with sig := [] } = sampleEvent := rfl
  rw [Sdk.liliSignEvent, hnative, signEvent_sample]
  exact ⟨_, rfl⟩

theorem signed_event_survives_sample :
    (∃ s text s', signEvent Json.codec sampleSSL sampleEvent sampleKeys = some s ∧
      verifySignature sampleSSL s = true ∧ s.serialize Json.codec = some text ∧
      Event.deserialize Json.codec text = some s' ∧ s' = s ∧
      verifySignature sampleSSL s' = true) ∧
    ∃ event, Sdk.liliSignEvent Json.codec sampleSSL sampleLiliEvent sampleKeys = some event ∧
      Sdk.liliVerifyEvent sampleSSL event = 1 := by
  have hsurvives := signed_event_survives Json.codec sampleSSL sampleKeys (by decide)
  obtain ⟨event, hevent⟩ := exists_liliSignEvent_sample
  exact ⟨hsurvives.1 sampleEvent rfl rfl, event, hevent, hsurvives.2 _ event hevent⟩

end LinuxLive
