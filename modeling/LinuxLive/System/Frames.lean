import LinuxLive.Core.RelayClient
import LinuxLive.Relay.Acknowledge

/-!
# Frames of the relay at the client

What the callback of a `RelayClient` is called with when the relay answers it.
-/

namespace LinuxLive

open Json Relay

/-- The calls of the event callback of the client behind one session. -/
def callbacks (lib : JsonText) (fd : Nat) (sent : List (Nat × Bytes)) : List RelayEvent :=
  (framesTo fd sent).filterMap (RelayClient.onMessage lib)

/-! ## The seven values of an event -/

/-- The object carries the values, each in its JSON type. -/
structure HasValues (event : Json) (v : RelayEvent) : Prop where
  id : event.field? (lit "id") = some (.str v.id)
  pubkey : event.field? (lit "pubkey") = some (.str v.pubkey)
  kind : event.field? (lit "kind") = some (.int v.kind)
  content : event.field? (lit "content") = some (.str v.content)
  createdAt : event.field? (lit "created_at") = some (.int v.createdAt.toNat)
  sig : event.field? (lit "sig") = some (.str v.sig)
  tags : event.field? (lit "tags") = some (tagsJson v.tags)
  kind_range : 0 ≤ v.kind ∧ v.kind < 2 ^ 16

/-- A time that is read as an `int` and kept in 64 bits: cut, then extended by its sign. -/
def throughInt (time : UInt64) : UInt64 := UInt64.ofInt ((time.toNat : Int).bmod (2 ^ 32))

def RelayEvent.stored (v : RelayEvent) (size : Nat) : StoredEvent where
  id := v.id
  pubkey := v.pubkey
  kind := UInt16.ofInt v.kind
  content := v.content
  tags := v.tags
  createdAt := throughInt v.createdAt
  sig := v.sig
  sizeBytes := size

namespace HasValues

variable {event : Json} {v : RelayEvent}

/-- A kind fits the 32 bits that it is read through. -/
theorem bmod_kind (h : HasValues event v) : v.kind.bmod (2 ^ 32) = v.kind := by
  obtain ⟨hnonneg, hlt⟩ := h.kind_range
  exact Int.bmod_eq_of_le (by omega) (by omega)

theorem toNat_kind (h : HasValues event v) : ((UInt16.ofInt v.kind).toNat : Int) = v.kind := by
  obtain ⟨hnonneg, hlt⟩ := h.kind_range
  rw [UInt16.ofInt, UInt16.toNat_ofNat']
  omega

theorem eventHead (h : HasValues event v) :
    eventHead event = .ok (v.pubkey, UInt16.ofInt v.kind) := by
  unfold Relay.eventHead
  rw [value_of_field? h.pubkey, value_of_field? h.kind]
  simp only [getString, getInt_int, h.bmod_kind, bind, Except.bind, pure, Except.pure]

theorem readStoredEvent (h : HasValues event v) (size : Nat) :
    readStoredEvent event v.pubkey (UInt16.ofInt v.kind) size = .ok (v.stored size) := by
  unfold Relay.readStoredEvent
  rw [value_of_field? h.id, value_of_field? h.content, value_of_field? h.createdAt,
    value_of_field? h.sig, readTags_of_field? h.tags]
  rfl

theorem readRelayEvent (h : HasValues event v) : RelayClient.readRelayEvent event =
    .ok { v with createdAt := throughInt v.createdAt } := by
  unfold RelayClient.readRelayEvent
  rw [value_of_field? h.id, value_of_field? h.pubkey, value_of_field? h.kind,
    value_of_field? h.content, value_of_field? h.createdAt, value_of_field? h.sig,
    readTags_of_field? h.tags]
  simp only [getString, getInt_int, h.bmod_kind]
  rfl

theorem readsAs {lib : JsonText} {raw : Bytes} {rest : List Json} {se : StoredEvent}
    (h : HasValues event v) (hparse : lib.parse raw = some (.arr (.str (lit "EVENT") :: event :: rest))) :
    ReadsAs lib raw se ↔ se = v.stored raw.length := by
  constructor
  · intro hread
    obtain ⟨event', rest', hparse', hhead, hse⟩ := hread
    cases hparse.symm.trans hparse'
    obtain ⟨hpubkey, hkind⟩ := Prod.mk.inj (Except.ok.inj (h.eventHead.symm.trans hhead))
    rw [← hpubkey, ← hkind, h.readStoredEvent] at hse
    exact (Except.ok.inj hse).symm
  · intro hse
    subst hse
    exact ⟨event, rest, hparse, h.eventHead, h.readStoredEvent raw.length⟩

end HasValues

/-! ## Events on the wire -/

def relayEvent (e : StoredEvent) : RelayEvent where
  id := e.id
  pubkey := e.pubkey
  kind := e.kind.toNat
  content := e.content
  tags := e.tags
  createdAt := throughInt e.createdAt
  sig := e.sig

def Relay.StoredEvent.values (e : StoredEvent) : RelayEvent where
  id := e.id
  pubkey := e.pubkey
  kind := e.kind.toNat
  content := e.content
  tags := e.tags
  createdAt := e.createdAt
  sig := e.sig

/-- The text is an `EVENT` for the subscription, with the seven values of the event and nothing
else. -/
def IsReply (lib : JsonText) (subId text : Bytes) (e : StoredEvent) : Prop :=
  ∃ members, lib.parse text = some (.arr [.str (lit "EVENT"), .str subId, .obj members]) ∧
    members.length = 7 ∧ HasValues (.obj members) e.values

section frames

variable {lib : JsonText} {subId text : Bytes} {e : StoredEvent}

theorem canonical_eventJson (e : StoredEvent) : (eventJson e).canonical = true := by
  have hcreated := canonical_natCast e.createdAt.toNat_lt
  have hkind := canonical_natCast (Nat.lt_trans e.kind.toNat_lt (by decide))
  exact canonical_object (by simp [hcreated, hkind, canonical_tagsJson])

theorem canonical_eventMessage (subId : Bytes) (e : StoredEvent) :
    (eventMessage subId e).canonical = true := by
  simp [eventMessage, canonical_arr, canonical_eventJson]

theorem parse_eventMessage (h : lib.dump none (eventMessage subId e) = some text) :
    lib.parse text = some (eventMessage subId e) :=
  lib.parse_dump none _ text (canonical_eventMessage subId e) h

theorem kind_range (kind : UInt16) : 0 ≤ (kind.toNat : Int) ∧ (kind.toNat : Int) < 2 ^ 16 := by
  have hlt := kind.toNat_lt
  omega

theorem hasValues_eventJson (e : StoredEvent) : HasValues (eventJson e) e.values := by
  obtain ⟨hid, hpubkey, hkind, hcontent, hcreated, hsig, htags⟩ := eventJson_fields e
  exact ⟨hid, hpubkey, hkind, hcontent, hcreated, hsig, htags, kind_range e.kind⟩

theorem isReply_eventMessage (h : lib.dump none (eventMessage subId e) = some text) :
    IsReply lib subId text e :=
  ⟨_, parse_eventMessage h, rfl, hasValues_eventJson e⟩

theorem onMessage_eventMessage (h : lib.dump none (eventMessage subId e) = some text) :
    RelayClient.onMessage lib text = some (relayEvent e) := by
  simp only [RelayClient.onMessage, parse_eventMessage h, eventMessage, getString, if_true,
    (hasValues_eventJson e).readRelayEvent]
  rfl

def storedEvent (e : Event) (size : Nat) : StoredEvent where
  id := decimal e.id.toNat
  pubkey := e.pubkey
  kind := e.kind
  content := e.content
  tags := e.tags
  createdAt := throughInt e.createdAt
  sig := e.sig
  sizeBytes := size

theorem hasValues_wireJson (e : Event) : HasValues (RelayClient.wireJson e)
    ⟨decimal e.id.toNat, e.pubkey, e.kind.toNat, e.content, e.tags, e.createdAt, e.sig⟩ := by
  obtain ⟨hid, hpubkey, hkind, hcontent, hcreated, hsig, htags⟩ := RelayClient.wireJson_fields e
  exact ⟨hid, hpubkey, hkind, hcontent, hcreated, hsig, htags, kind_range e.kind⟩

theorem readsAs_wireJson {raw : Bytes} {e : Event} {se : StoredEvent}
    (hparse : lib.parse raw = some (.arr [.str (lit "EVENT"), RelayClient.wireJson e])) :
    ReadsAs lib raw se ↔ se = storedEvent e raw.length := by
  rw [(hasValues_wireJson e).readsAs hparse]
  simp only [RelayEvent.stored, storedEvent, ofInt_toNat_uint16]

theorem mem_framesTo {fd : Nat} {sent : List (Nat × Bytes)} {text : Bytes} :
    text ∈ framesTo fd sent ↔ (fd, text) ∈ sent := by
  simp [framesTo]

end frames

end LinuxLive
