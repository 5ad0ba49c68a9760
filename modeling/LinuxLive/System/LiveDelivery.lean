import LinuxLive.System.Frames

/-!
# Live delivery

An event that one client publishes, forwarded to the session of another: the frame has
two items, and the handler of the other client asks for three.
-/

namespace LinuxLive

open Json Relay

/-- The callback's event has the values of the published one. -/
structure Carries (re : RelayEvent) (se : StoredEvent) : Prop where
  id : re.id = se.id
  pubkey : re.pubkey = se.pubkey
  kind : re.kind = se.kind.toNat
  content : re.content = se.content
  tags : re.tags = se.tags
  sig : re.sig = se.sig

theorem carries_relayEvent (e : StoredEvent) : Carries (relayEvent e) e :=
  ⟨rfl, rfl, rfl, rfl, rfl, rfl⟩

/-- The client behind `t` has its callback called once, with the event of the message. -/
def LiveDelivery (lib : JsonText) (s : RelayServer) (session t : ClientSession) (raw : Bytes)
    (checkedAt recordedAt : UInt64) : Prop :=
  ∃ se re, ReadsAs lib raw se ∧ Carries re se ∧
    callbacks lib t.fd (handleClientMessage lib s session raw checkedAt recordedAt).sent = [re]

section forwarded

variable {lib : JsonText} {s : RelayServer} {session t : ClientSession} {raw : Bytes}
  {checkedAt recordedAt : UInt64}

theorem framesTo_of_appends (h : Appends lib s session raw checkedAt recordedAt)
    (ht : t ∈ s.sessions) (hne : t.fd ≠ session.fd) (hopen : t.isOpen = true) :
    framesTo t.fd (handleClientMessage lib s session raw checkedAt recordedAt).sent = [raw] := by
  obtain ⟨se, ok, _, heq⟩ := handle_of_appends h
  have ht' : t ∈ ((s.checkRateLimit se.pubkey checkedAt).2.storeIfRoom se recordedAt).sessions := by
    simpa using ht
  rw [heq]
  simp [framesTo_sendWsText, framesTo_forward ht' hne hopen, hne.symm]

/-- A published message never reaches the callback of the client it is forwarded to. -/
theorem callbacks_of_published {eventJson : Bytes}
    (hpub : RelayClient.publishEvent lib eventJson = some raw)
    (h : Appends lib s session raw checkedAt recordedAt)
    (ht : t ∈ s.sessions) (hne : t.fd ≠ session.fd) (hopen : t.isOpen = true) :
    callbacks lib t.fd (handleClientMessage lib s session raw checkedAt recordedAt).sent = [] := by
  obtain ⟨event, _, hparse⟩ := RelayClient.parse_publishEvent hpub
  rw [callbacks, framesTo_of_appends h ht hne hopen, List.filterMap_cons,
    RelayClient.onMessage_pair hparse, List.filterMap_nil]

end forwarded

/-- Whatever is published, the clients of the other sessions are not told: the relay admits
the event and forwards it, and no callback is called. -/
theorem not_liveDelivery (lib : JsonText) (s : RelayServer) (session t : ClientSession)
    (eventJson raw : Bytes) (checkedAt recordedAt : UInt64)
    (hpub : RelayClient.publishEvent lib eventJson = some raw)
    (happ : Appends lib s session raw checkedAt recordedAt)
    (ht : t ∈ s.sessions) (hne : t.fd ≠ session.fd) (hopen : t.isOpen = true) :
    framesTo t.fd (handleClientMessage lib s session raw checkedAt recordedAt).sent = [raw] ∧
      ¬ LiveDelivery lib s session t raw checkedAt recordedAt := by
  refine ⟨framesTo_of_appends happ ht hne hopen, ?_⟩
  intro hlive
  obtain ⟨_, re, _, _, hcalls⟩ := hlive
  rw [callbacks_of_published hpub happ ht hne hopen] at hcalls
  simp at hcalls

def twoClients : RelayServer :=
  { RelayServer.create {} with
    sessions := [⟨0, true, true⟩, ⟨1, true, true⟩]
    sessions_nodup := by decide }

theorem appends_twoClients : Appends Json.codec twoClients ⟨0, true, true⟩
    (lit "[\"EVENT\",\x7b\"kind\":42\x7d]") 100 100 := by
  refine ⟨⟨[], [], 42, [], [], 0, [], 21⟩, ⟨.obj [(lit "kind", .int 42)], [], rfl, rfl, rfl⟩, ?_⟩
  decide +kernel

theorem not_liveDelivery_twoClients :
    framesTo 1 (handleClientMessage Json.codec twoClients ⟨0, true, true⟩
      (lit "[\"EVENT\",\x7b\"kind\":42\x7d]") 100 100).sent =
      [lit "[\"EVENT\",\x7b\"kind\":42\x7d]"] ∧
    ¬ LiveDelivery Json.codec twoClients ⟨0, true, true⟩ ⟨1, true, true⟩
      (lit "[\"EVENT\",\x7b\"kind\":42\x7d]") 100 100 :=
  not_liveDelivery Json.codec twoClients ⟨0, true, true⟩ ⟨1, true, true⟩ (lit "\x7b\"kind\":42\x7d")
    _ 100 100 rfl appends_twoClients (by simp [twoClients]) (by decide) rfl

theorem published_event_is_not_delivered :
    RelayClient.publishEvent Json.codec (lit "\x7b\"kind\":42\x7d") =
      some (lit "[\"EVENT\",\x7b\"kind\":42\x7d]") ∧
    Appends Json.codec twoClients ⟨0, true, true⟩ (lit "[\"EVENT\",\x7b\"kind\":42\x7d]") 100 100 ∧
    ¬ LiveDelivery Json.codec twoClients ⟨0, true, true⟩ ⟨1, true, true⟩
      (lit "[\"EVENT\",\x7b\"kind\":42\x7d]") 100 100 := by
  refine ⟨rfl, appends_twoClients, ?_⟩
  intro hlive
  obtain ⟨_, re, _, _, hcalls⟩ := hlive
  have hnone : callbacks Json.codec 1 (handleClientMessage Json.codec twoClients ⟨0, true, true⟩
      (lit "[\"EVENT\",\x7b\"kind\":42\x7d]") 100 100).sent = [] := rfl
  rw [hnone] at hcalls
  simp at hcalls

end LinuxLive
