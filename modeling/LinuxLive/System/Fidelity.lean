import LinuxLive.System.LiveDelivery
import LinuxLive.System.Subscriptions

/-!
# Fidelity of the relay

The seven values of an event on their way through the store and back to a client: the
time goes through an `int` on the way in, the others arrive as they were sent.
-/

namespace LinuxLive

open Json Relay RelayClient

/-- A time survives an `int` exactly if its upper 33 bits are all equal. -/
theorem throughInt_eq_iff (time : UInt64) :
    throughInt time = time ↔ time.toNat < 2 ^ 31 ∨ 2 ^ 64 - 2 ^ 31 ≤ time.toNat := by
  have hlt := time.toNat_lt
  rw [← UInt64.toNat_inj, throughInt, UInt64.ofInt, UInt64.toNat_ofNat', Int.bmod_def]
  split
  · omega
  · omega

/-- A reply that has the values, and the callback that is called with them. -/
structure CarriesValues (lib : JsonText) (subId text : Bytes) (v : RelayEvent) : Prop where
  reply : ∃ event, lib.parse text = some (.arr [.str (lit "EVENT"), .str subId, event]) ∧
    HasValues event v
  callback : onMessage lib text = some v

/-- From `s` on, every reply to a REQ that carries the stored event has the values. -/
def Faithful (lib : JsonText) (s : RelayServer) (se : StoredEvent) (v : RelayEvent) : Prop :=
  ∀ s' session raw checkedAt recordedAt subId rest text,
    Reachable (Step lib) s s' →
    lib.parse raw = some (.arr (.str (lit "REQ") :: .str subId :: rest)) →
    (session.fd, text) ∈ (handleClientMessage lib s' session raw checkedAt recordedAt).sent →
    lib.dump none (eventMessage subId se) = some text → CarriesValues lib subId text v

section fidelity

variable {lib : JsonText} {s : RelayServer} {session : ClientSession} {event : Json}
  {v : RelayEvent} {raw : Bytes} {se : StoredEvent}

theorem HasValues.unique {w : RelayEvent} (h : HasValues event v) (h' : HasValues event w) :
    v = w := by
  have hid := h.id.symm.trans h'.id
  have hpubkey := h.pubkey.symm.trans h'.pubkey
  have hkind := h.kind.symm.trans h'.kind
  have hcontent := h.content.symm.trans h'.content
  have hcreated := h.createdAt.symm.trans h'.createdAt
  have hsig := h.sig.symm.trans h'.sig
  have htags := Except.ok.inj ((readTags_of_field? h.tags).symm.trans (readTags_of_field? h'.tags))
  simp only [Option.some.injEq, Json.str.injEq, Json.int.injEq, Int.natCast_inj,
    UInt64.toNat_inj] at hid hpubkey hkind hcontent hcreated hsig
  cases v
  cases w
  simp_all

theorem HasValues.written (h : HasValues event v) (size : Nat) :
    HasValues (eventJson (v.stored size)) { v with createdAt := throughInt v.createdAt } := by
  have hwritten := hasValues_eventJson (v.stored size)
  simp only [Relay.StoredEvent.values, RelayEvent.stored, h.toNat_kind] at hwritten
  exact hwritten

theorem relayEvent_stored (h : HasValues event v) (size : Nat) : relayEvent (v.stored size) =
    { v with createdAt := throughInt (throughInt v.createdAt) } := by
  simp only [relayEvent, RelayEvent.stored, h.toNat_kind]

/-- A relay that can write its store answers the empty filter with every event. -/
theorem reply_of_mem (lib : JsonText) (hs : StoreReadable s) (hmem : se ∈ s.events) :
    ∃ raw text, lib.parse raw = some (.arr [.str (lit "REQ"), .str [], .obj []]) ∧
      lib.dump none (eventMessage [] se) = some text ∧
      (0, text) ∈ (handleClientMessage lib s ⟨0, true, true⟩ raw 0 0).sent := by
  have hutf8 : (Json.arr [.str (lit "REQ"), .str [], .obj []]).utf8 = true := by decide
  obtain ⟨raw, hraw⟩ := lib.dump_of_utf8 none hutf8
  have hparse := lib.parse_dump none _ raw (by decide) hraw
  have htyped : ∀ e ∈ s.events,
      FilterTyped (.obj []) e ∧ (Matches (.obj []) e → e.utf8 = true) := by
    intro e he
    refine ⟨⟨?_, ?_, ?_⟩, fun _ => hs e he⟩
    · intro list hlist
      cases hlist
    · intro _ list hlist
      cases hlist
    · intro _ _ list hlist
      cases hlist
  have hmatch : Matches (.obj []) se := by
    rw [matches_iff]
    refine ⟨?_, ?_, ?_⟩ <;> intro list hlist <;> cases hlist
  obtain ⟨eose, _, hloop, hreq⟩ := handleReq_of_typed lib ⟨0, true, true⟩ utf8_nil htyped
  obtain ⟨text, hdump, hsub⟩ := reqLoop_complete lib ⟨0, true, true⟩ hloop hmem hmatch
  refine ⟨raw, text, hparse, hdump, ?_⟩
  rw [handleClientMessage_req hparse, List.head?_cons, hreq]
  exact List.mem_append_left _ (hsub (by simp [sendWsText]))

theorem createdAt_of_faithful (hs : StoreReadable s) (hmem : v.stored raw.length ∈ s.events)
    (h : HasValues event v) (hfaithful : Faithful lib s (v.stored raw.length) v) :
    throughInt v.createdAt = v.createdAt := by
  obtain ⟨req, text, hparse, hdump, hsent⟩ := reply_of_mem lib hs hmem
  have hcarries := hfaithful s ⟨0, true, true⟩ req 0 0 [] _ text (.refl s) hparse hsent hdump
  obtain ⟨event', hreply, hvalues⟩ := hcarries.reply
  rw [parse_eventMessage hdump] at hreply
  have hevent : eventJson (v.stored raw.length) = event' := by simpa [eventMessage] using hreply
  subst hevent
  have hcreated := congrArg RelayEvent.createdAt ((h.written raw.length).unique hvalues)
  exact hcreated

end fidelity

/-- The replies for a stored event are faithful exactly if its time survives an `int`. -/
theorem faithful_iff (lib : JsonText) (config : RelayConfig) (s : RelayServer)
    (session : ClientSession) (raw : Bytes) (checkedAt recordedAt : UInt64) (event : Json)
    (rest : List Json) (v : RelayEvent) (hs : Reachable (Step lib) (RelayServer.create config) s)
    (hparse : lib.parse raw = some (.arr (.str (lit "EVENT") :: event :: rest)))
    (hvalues : HasValues event v) (happ : Appends lib s session raw checkedAt recordedAt) :
    (∀ se, ReadsAs lib raw se →
      Faithful lib (handleClientMessage lib s session raw checkedAt recordedAt).server se v) ↔
      v.createdAt.toNat < 2 ^ 31 ∨ 2 ^ 64 - 2 ^ 31 ≤ v.createdAt.toNat := by
  rw [← throughInt_eq_iff]
  constructor
  · intro h
    have hread := (hvalues.readsAs hparse).mpr rfl
    refine createdAt_of_faithful ?_ ?_ hvalues (h _ hread)
    · exact storeReadable_of_reachable (hs.snoc (step_of_appends happ))
    · obtain ⟨se, hse, hevents⟩ := happ
      rw [hevents, ← (hvalues.readsAs hparse).mp hse]
      exact List.mem_append_right _ (List.mem_singleton_self se)
  · intro htime se hread
    rw [(hvalues.readsAs hparse).mp hread]
    intro s' t req at₁ at₂ subId more text _ _ _ hdump
    have hwritten := hvalues.written raw.length
    rw [htime] at hwritten
    refine ⟨⟨_, parse_eventMessage hdump, hwritten⟩, ?_⟩
    have hcallback := onMessage_eventMessage hdump
    rw [relayEvent_stored hvalues, htime, htime] at hcallback
    exact hcallback

/-! ## A time past the year 2038 -/

def lateFrame : Bytes :=
  lit "[\"EVENT\",\x7b\"content\":\"c\",\"created_at\":2147483648,\"id\":\"a\",\"kind\":1,\"pubkey\":\"b\",\"sig\":\"d\",\"tags\":[]\x7d]"

def lateJson : Json := .obj [
  (lit "content", .str (lit "c")),
  (lit "created_at", .int 2147483648),
  (lit "id", .str (lit "a")),
  (lit "kind", .int 1),
  (lit "pubkey", .str (lit "b")),
  (lit "sig", .str (lit "d")),
  (lit "tags", .arr [])]

def lateValues : RelayEvent := ⟨lit "a", lit "b", 1, lit "c", [], 2147483648, lit "d"⟩

theorem hasValues_late : HasValues lateJson lateValues :=
  ⟨rfl, rfl, rfl, rfl, rfl, rfl, rfl, by decide⟩

theorem parse_lateFrame :
    Json.codec.parse lateFrame = some (.arr [.str (lit "EVENT"), lateJson]) :=
  Json.codec.parse_dump none _ _ (by decide) (by decide)

theorem appends_late :
    Appends Json.codec (RelayServer.create {}) ⟨0, true, true⟩ lateFrame 100 100 := by
  refine ⟨lateValues.stored lateFrame.length, (hasValues_late.readsAs parse_lateFrame).mpr rfl, ?_⟩
  decide +kernel

theorem faithful_iff_late :
    (∀ se, ReadsAs Json.codec lateFrame se →
      Faithful Json.codec (handleClientMessage Json.codec (RelayServer.create {}) ⟨0, true, true⟩
        lateFrame 100 100).server se lateValues) ↔
      lateValues.createdAt.toNat < 2 ^ 31 ∨ 2 ^ 64 - 2 ^ 31 ≤ lateValues.createdAt.toNat :=
  faithful_iff Json.codec {} (RelayServer.create {}) ⟨0, true, true⟩ lateFrame 100 100 lateJson []
    lateValues (.refl _) parse_lateFrame hasValues_late appends_late

/-- The reply has another time than the event that was stored. -/
theorem late_time_is_changed :
    Json.codec.parse lateFrame = some (.arr [.str (lit "EVENT"), lateJson]) ∧
    HasValues lateJson lateValues ∧
    Appends Json.codec (RelayServer.create {}) ⟨0, true, true⟩ lateFrame 100 100 ∧
    ¬ ∀ se, ReadsAs Json.codec lateFrame se →
      Faithful Json.codec (handleClientMessage Json.codec (RelayServer.create {}) ⟨0, true, true⟩
        lateFrame 100 100).server se lateValues := by
  refine ⟨parse_lateFrame, hasValues_late, appends_late, ?_⟩
  intro h
  have hread := (hasValues_late.readsAs parse_lateFrame).mpr rfl
  have hs : Reachable (Step Json.codec) (RelayServer.create {}) _ :=
    (Reachable.refl _).snoc (step_of_appends appends_late)
  obtain ⟨se, hse, hevents⟩ := appends_late
  have hmem : lateValues.stored lateFrame.length ∈ (handleClientMessage Json.codec
      (RelayServer.create {}) ⟨0, true, true⟩ lateFrame 100 100).server.events := by
    rw [hevents, ← (hasValues_late.readsAs parse_lateFrame).mp hse]
    exact List.mem_append_right _ (List.mem_singleton_self se)
  have htime := createdAt_of_faithful (storeReadable_of_reachable hs) hmem hasValues_late (h _ hread)
  have hchanged : throughInt lateValues.createdAt ≠ lateValues.createdAt := by decide
  exact hchanged htime

end LinuxLive
