import LinuxLive.System.Frames

/-!
# The two forms of an event

`Event::serialize` writes the id as a number, the senders and the relay as a text; each
reader accepts the form of its own side only.
-/

namespace LinuxLive

open Json Relay

/-- The relay takes the event of a message without an exception. -/
def Stores (lib : JsonText) (s : RelayServer) (session : ClientSession) (raw : Bytes)
    (checkedAt recordedAt : UInt64) (e : Event) : Prop :=
  (handleClientMessage lib s session raw checkedAt recordedAt).thrown = none ∧
    (handleClientMessage lib s session raw checkedAt recordedAt).server.events =
      s.events ++ [storedEvent e raw.length]

/-- `Event::deserialize` makes no event of an object on the wire. -/
def Unreadable (lib : JsonText) (j : Json) : Prop :=
  ∃ text, lib.dump none j = some text ∧ Event.deserialize lib text = none

/-- Every relay with room for the event stores it in the form of `Event::serialize`. -/
def SerializedIsStored (lib : JsonText) (e : Event) : Prop :=
  ∀ s session raw checkedAt recordedAt,
    lib.parse raw = some (.arr [.str (lit "EVENT"), e.json]) →
    Passes s e.pubkey e.kind checkedAt → s.canStoreEvent (storedEvent e raw.length) = true →
    Stores lib s session raw checkedAt recordedAt e

section forms

variable {lib : JsonText} {ssl : OpenSSL} {e signed : Event} {kp : KeyPair}

theorem eventHead_json (e : Event) : eventHead e.json = .ok (e.pubkey, e.kind) := by
  have hpubkey : e.json.field? (lit "pubkey") = some (.str e.pubkey) := rfl
  have hkind : e.json.field? (lit "kind") = some (.int e.kind.toNat) := rfl
  obtain ⟨hnonneg, hlt⟩ := kind_range e.kind
  have hbmod : ((e.kind.toNat : Int)).bmod (2 ^ 32) = e.kind.toNat :=
    Int.bmod_eq_of_le (by omega) (by omega)
  unfold eventHead
  rw [value_of_field? hpubkey, value_of_field? hkind]
  simp only [getString, getInt_int, bind, Except.bind, pure, Except.pure, hbmod, ofInt_toNat_uint16]

/-- The relay asks for a text and finds a number. -/
theorem readStoredEvent_json (e : Event) (size : Nat) :
    readStoredEvent e.json e.pubkey e.kind size = .error .wrongType302 := by
  have hid : e.json.field? (lit "id") = some (.int e.id.toNat) := rfl
  unfold readStoredEvent
  rw [value_of_field? hid]
  rfl

/-- Past its checks the relay throws on the form of `Event::serialize`. -/
theorem handle_serialized {s : RelayServer} {session : ClientSession} {raw : Bytes}
    {checkedAt recordedAt : UInt64}
    (hparse : lib.parse raw = some (.arr [.str (lit "EVENT"), e.json]))
    (hp : Passes s e.pubkey e.kind checkedAt) :
    handleClientMessage lib s session raw checkedAt recordedAt =
      ⟨(s.checkRateLimit e.pubkey checkedAt).2, [], some .wrongType302⟩ := by
  rw [handleClientMessage_event hparse, handleEvent_of_passes lib (eventHead_json e) hp,
    readStoredEvent_json]

/-- A text where the id is expected ends `Event::deserialize`. -/
theorem deserialize_of_textId {j : Json} {id text : Bytes}
    (hid : j.field? (lit "id") = some (.str id)) (hparse : lib.parse text = some j) :
    Event.deserialize lib text = none := by
  cases j with
  | obj fields =>
      have hlookup : fields.lookup (lit "id") = some (.str id) := hid
      have hread : Event.ofJson (.obj fields) = .error .wrongType302 := by
        unfold Event.ofJson
        simp only [index, hlookup]
        rfl
      simp only [Event.deserialize, hparse, hread]
  | _ => cases hid

theorem utf8_storedEvent (hs : signEvent lib ssl e kp = some signed) (size : Nat) :
    (storedEvent signed size).utf8 = true := by
  obtain ⟨htags, hcontent, hpubkey, hsig⟩ := Event.utf8_iff.mp (utf8_signed hs)
  simp [StoredEvent.utf8, storedEvent, hpubkey, hcontent, hsig, htags, utf8_decimal]

/-- A relay that has room for one event of a kind and a size. -/
def roomFor (kind : UInt16) (size : Nat) : RelayServer :=
  RelayServer.create { allowedKinds := {kind}, maxEventSizeBytes := size }

theorem passes_roomFor (kind : UInt16) (size : Nat) (pubkey : Bytes) (now : UInt64) :
    Passes (roomFor kind size) pubkey kind now := by
  refine ⟨rfl, ?_, ?_⟩
  · simp [RelayServer.isEventAllowed, roomFor, RelayServer.create]
  · have hts : (roomFor kind size).timestamps pubkey = [] := rfl
    simp only [RelayServer.checkRateLimit, hts, RelayServer.popExpired, List.dropWhile_nil]
    show decide ((0 : Int).bmod (2 ^ 32) < 30) = true
    decide

theorem canStoreEvent_roomFor (e : Event) (size : Nat) :
    (roomFor e.kind size).canStoreEvent (storedEvent e size) = true := by
  rw [RelayServer.canStoreEvent_iff]
  refine ⟨Nat.le_refl _, ?_, ?_, ?_⟩
  · show 0 < 100000
    omega
  · show 0 < 10000
    omega
  · show 0 < 100
    omega

theorem not_serializedIsStored (hs : signEvent lib ssl e kp = some signed) :
    ¬ SerializedIsStored lib signed := by
  intro h
  have hutf8 : (Json.arr [.str (lit "EVENT"), signed.json]).utf8 = true := by
    simp [utf8_arr, Event.utf8_json (utf8_signed hs)]
  obtain ⟨raw, hraw⟩ := lib.dump_of_utf8 none hutf8
  have hparse : lib.parse raw = some (.arr [.str (lit "EVENT"), signed.json]) := by
    refine lib.parse_dump none _ raw ?_ hraw
    simp [canonical_arr, Event.canonical_json]
  have hpass := passes_roomFor signed.kind raw.length signed.pubkey 0
  obtain ⟨hthrown, _⟩ := h _ ⟨0, true, true⟩ raw 0 0 hparse hpass (canStoreEvent_roomFor signed raw.length)
  rw [handle_serialized hparse hpass] at hthrown
  cases hthrown

theorem unreadable_of_textId {j : Json} {id : Bytes} (hid : j.field? (lit "id") = some (.str id))
    (hutf8 : j.utf8 = true) (hcanonical : j.canonical = true) : Unreadable lib j := by
  obtain ⟨text, hdump⟩ := lib.dump_of_utf8 none hutf8
  exact ⟨text, hdump, deserialize_of_textId hid (lib.parse_dump none _ text hcanonical hdump)⟩

end forms

/-- No signed event passes between the two sides: the relay throws on the serialized form,
and the objects of the senders and of the relay are no events for `deserialize`. -/
theorem wire_formats_disagree (lib : JsonText) (ssl : OpenSSL) (e signed : Event) (kp : KeyPair)
    (hs : signEvent lib ssl e kp = some signed) :
    (∀ s session raw checkedAt recordedAt,
      lib.parse raw = some (.arr [.str (lit "EVENT"), signed.json]) →
      Passes s signed.pubkey signed.kind checkedAt →
      handleClientMessage lib s session raw checkedAt recordedAt =
        ⟨(s.checkRateLimit signed.pubkey checkedAt).2, [], some .wrongType302⟩) ∧
    ¬ SerializedIsStored lib signed ∧ Unreadable lib (RelayClient.wireJson signed) ∧
      ∀ size, Unreadable lib (eventJson (storedEvent signed size)) := by
  refine ⟨?_, not_serializedIsStored hs, ?_, ?_⟩
  · intro s session raw checkedAt recordedAt hparse hpass
    exact handle_serialized hparse hpass
  · exact unreadable_of_textId (RelayClient.wireJson_fields signed).1 (RelayClient.utf8_wireJson hs)
      (RelayClient.canonical_wireJson signed)
  · intro size
    have hutf8 := (utf8_eventJson (storedEvent signed size)).trans (utf8_storedEvent hs size)
    exact unreadable_of_textId (eventJson_fields (storedEvent signed size)).1 hutf8
      (canonical_eventJson _)

theorem wire_formats_disagree_sample :
    (∀ s session raw checkedAt recordedAt,
      Json.codec.parse raw = some (.arr [.str (lit "EVENT"), sampleSigned.json]) →
      Passes s sampleSigned.pubkey sampleSigned.kind checkedAt →
      handleClientMessage Json.codec s session raw checkedAt recordedAt =
        ⟨(s.checkRateLimit sampleSigned.pubkey checkedAt).2, [], some .wrongType302⟩) ∧
    ¬ SerializedIsStored Json.codec sampleSigned ∧
      Unreadable Json.codec (RelayClient.wireJson sampleSigned) ∧
      ∀ size, Unreadable Json.codec (eventJson (storedEvent sampleSigned size)) :=
  wire_formats_disagree Json.codec sampleSSL sampleEvent sampleSigned sampleKeys signEvent_sample

def serializedFrame : Option Bytes :=
  (Event.serialize Json.codec sampleSigned).bind (RelayClient.publishEvent Json.codec)

/-- A fresh relay throws on it, and the published form is not read back. -/
theorem serialized_event_throws :
    signEvent Json.codec sampleSSL sampleEvent sampleKeys = some sampleSigned ∧
    (serializedFrame.map fun raw =>
      (handleClientMessage Json.codec (RelayServer.create {}) ⟨0, true, true⟩ raw 100 100).thrown) =
      some (some .wrongType302) ∧
    ((Json.codec.dump none (RelayClient.wireJson sampleSigned)).map
      (Event.deserialize Json.codec)) = some none :=
  ⟨signEvent_sample, by decide +kernel, by decide +kernel⟩

end LinuxLive
