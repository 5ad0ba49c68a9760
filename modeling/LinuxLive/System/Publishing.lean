import LinuxLive.System.ChannelHistory

/-!
# What the relay keeps of what a client publishes

The four senders of `RelayClient` against a relay with the default configuration: which
of their events pass the kind gate, are stored and come back to a subscription.
-/

namespace LinuxLive

open Json Relay RelayClient

inductive Publication where
  | channelMessage (channelId content : Bytes)
  | dm (recipientPubkey content iv : Bytes)
  | profile (displayName bio : Bytes)
  | achievement (achievementId name description icon : Bytes)

namespace Publication

def kind : Publication → UInt16
  | .channelMessage .. => 42
  | .dm .. => 4
  | .profile .. => 0
  | .achievement .. => 30079

def send (lib : JsonText) (ssl : OpenSSL) (evp : EVP) (privkey pubkey : Bytes) (now : UInt64) :
    Publication → Option Bytes
  | .channelMessage channelId content =>
      sendChannelMessage lib ssl channelId content privkey pubkey now
  | .dm recipientPubkey content iv =>
      sendDm lib ssl evp recipientPubkey content privkey pubkey iv now
  | .profile displayName bio => sendProfile lib ssl displayName bio privkey pubkey now
  | .achievement achievementId name description icon =>
      sendAchievement lib ssl achievementId name description icon privkey pubkey now

theorem parse_send {lib : JsonText} {ssl : OpenSSL} {evp : EVP} {privkey pubkey raw : Bytes}
    {now : UInt64} {p : Publication} (h : p.send lib ssl evp privkey pubkey now = some raw) :
    ∃ signed : Event, signed.kind = p.kind ∧
      lib.parse raw = some (.arr [.str (lit "EVENT"), wireJson signed]) := by
  have hall : ∀ {kind : UInt16} {tags : List (List Bytes)} {content : Bytes},
      RelayClient.send lib ssl kind tags content privkey pubkey now = some raw →
        ∃ signed : Event, signed.kind = kind ∧
          lib.parse raw = some (.arr [.str (lit "EVENT"), wireJson signed]) := by
    intro kind tags content hsend
    obtain ⟨kp, signed, hsigned, hparse⟩ := RelayClient.parse_send hsend
    exact ⟨signed, (signEvent_spec hsigned).2.1, hparse⟩
  cases p with
  | channelMessage channelId content => exact hall h
  | dm recipientPubkey content iv =>
      obtain ⟨_, _, h⟩ := Option.bind_eq_some_iff.mp h
      obtain ⟨_, _, h⟩ := Option.bind_eq_some_iff.mp h
      exact hall h
  | profile displayName bio =>
      obtain ⟨_, _, h⟩ := Option.bind_eq_some_iff.mp h
      exact hall h
  | achievement achievementId name description icon =>
      obtain ⟨_, _, h⟩ := Option.bind_eq_some_iff.mp h
      exact hall h

end Publication

/-- Neither the counts of the quotas nor the rate limit are exhausted for the event. -/
structure HasRoom (s : RelayServer) (se : StoredEvent) (checkedAt : UInt64) : Prop where
  total : s.events.length < s.config.maxTotalEvents
  perKind : s.events.countP (fun e => e.kind = se.kind) < s.config.maxEventsPerKind
  perPubkey : s.events.countP (fun e => e.pubkey = se.pubkey) < s.config.maxEventsPerPubkey
  rate : (s.checkRateLimit se.pubkey checkedAt).1 = true

/-- The event of the message is stored, and as long as it is, every subscription for its
kind and author makes the relay send its values. -/
def Kept (lib : JsonText) (s : RelayServer) (session : ClientSession) (raw : Bytes)
    (checkedAt recordedAt : UInt64) : Prop :=
  ∃ se, ReadsAs lib raw se ∧
    (handleClientMessage lib s session raw checkedAt recordedAt).server.events =
      s.events ++ [se] ∧
    ∀ s' client now at₁ at₂,
      Reachable (Step lib) (handleClientMessage lib s session raw checkedAt recordedAt).server s' →
      se ∈ s'.events → client.isOpen = true →
      ∃ req text, subscribe lib [(se.kind.toNat : Int)] se.pubkey [] now = some req ∧
        IsReply lib (lit "sub_" ++ decimal now) text se ∧
        (client.fd, text) ∈ (handleClientMessage lib s' client req at₁ at₂).sent

section kept

variable {lib : JsonText} {s : RelayServer} {session : ClientSession} {raw : Bytes}
  {checkedAt recordedAt : UInt64}

/-- What is appended in a run from the empty store can be asked for. -/
theorem kept_iff_appends (hs : Reachable (Step lib) (RelayServer.create {}) s) :
    Kept lib s session raw checkedAt recordedAt ↔
      Appends lib s session raw checkedAt recordedAt := by
  constructor
  · intro h
    obtain ⟨se, hread, happ, _⟩ := h
    exact ⟨se, hread, happ⟩
  · intro h
    have hafter := hs.snoc (step_of_appends h)
    obtain ⟨se, hread, happ⟩ := h
    refine ⟨se, hread, happ, ?_⟩
    intro s' client now at₁ at₂ hreach hmem hopen
    have hreadable : StoreReadable s' := storeReadable_of_reachable (hafter.trans hreach)
    have hpubkey : utf8 se.pubkey = true := by
      have hutf8 := hread.utf8
      simp only [StoredEvent.utf8, Bool.and_eq_true] at hutf8
      exact hutf8.1.1.1.2
    have hkind : ∀ k ∈ [(se.kind.toNat : Int)], IsInt k := by
      intro k hk
      have hlt := se.kind.toNat_lt
      rw [List.mem_singleton.mp hk]
      unfold IsInt
      omega
    have hmatch : Matches (subscriptionFilter [(se.kind.toNat : Int)] se.pubkey []) se := by
      rw [matches_subscription hkind]
      exact ⟨.inr (List.mem_singleton_self _), .inr rfl, .inl rfl⟩
    obtain ⟨req, hreq⟩ := subscribe_of_utf8 lib [(se.kind.toNat : Int)] now hpubkey utf8_nil
    obtain ⟨text, hdump, hsent⟩ := mem_sent_subscribe _ _ hreadable hopen hkind hreq hmem hmatch
    exact ⟨req, text, hreq, isReply_eventMessage hdump, hsent⟩

theorem allowedKinds_create :
    (RelayServer.create {}).config.allowedKinds = {1, 42, 30019, 30020, 30079, 30080} := rfl

theorem kind_mem_allowedKinds (p : Publication) :
    p.kind ∈ (RelayServer.create {}).config.allowedKinds ↔ p.kind = 42 ∨ p.kind = 30079 := by
  rw [allowedKinds_create]
  cases p <;> simp [Publication.kind]

end kept

/-- With room for it, the relay keeps what a client publishes exactly if it is a channel
message or an achievement and not too long. -/
theorem kept_iff (lib : JsonText) (ssl : OpenSSL) (evp : EVP) (p : Publication)
    (privkey pubkey raw : Bytes) (now : UInt64) (s : RelayServer) (session : ClientSession)
    (checkedAt recordedAt : UInt64) (hsend : p.send lib ssl evp privkey pubkey now = some raw)
    (hs : Reachable (Step lib) (RelayServer.create {}) s)
    (hconfig : s.config = (RelayServer.create {}).config)
    (hroom : ∀ se, ReadsAs lib raw se → HasRoom s se checkedAt) :
    Kept lib s session raw checkedAt recordedAt ↔
      (p.kind = 42 ∨ p.kind = 30079) ∧ raw.length ≤ 65536 := by
  obtain ⟨signed, hkind, hparse⟩ := Publication.parse_send hsend
  have hread : ReadsAs lib raw (storedEvent signed raw.length) :=
    (readsAs_wireJson hparse).mpr rfl
  obtain ⟨htotal, hperKind, hperPubkey, hrate⟩ := hroom _ hread
  rw [kept_iff_appends hs, appends_iff hread, RelayServer.canStoreEvent_iff,
    ← kind_mem_allowedKinds, ← hconfig, ← hkind]
  have hmax : s.config.maxEventSizeBytes = 65536 := by
    rw [hconfig]
    rfl
  rw [hmax]
  constructor
  · intro h
    exact ⟨of_decide_eq_true h.1.allowed, h.2.1⟩
  · intro h
    refine ⟨⟨?_, decide_eq_true h.1, hrate⟩, h.2, htotal, hperKind, hperPubkey⟩
    rw [RelayServer.isPubkeyBanned, hconfig]
    rfl

/-! ## A profile that is not kept -/

/-- The digest and the signature are those of the standards. -/
def profileSSL : OpenSSL := .ofKnown {
  text := lit "[0,1700000000,0,[],\"\x7b\\\"about\\\":\\\"\\\",\\\"name\\\":\\\"ann\\\"\x7d\"]"
  digest := fromHex (lit "ee79a0de9837449ae513bf489943143316316e1f35a59bbb9f7c88cb72f90002")
  secretKey := sampleKeys.secretKey
  publicKey := sampleKeys.publicKey
  message := lit "17183942731105780890\n1700000000\n0\n"
  signature := fromHex (lit "0b77ed14d3d75e56264b33070c60704c8e47cb62f6649ccd1c03a9d71d097fb733e8db0578fd2c6a45e797854148763734d42e3a7e29fe9d3386f75e5dddd206")
  digest_length := rfl
  publicKey_length := sampleKeys.publicKey_length
  publicKey_ne := sampleKeys_publicKey_ne
  signature_length := by decide +kernel }

def profileSigned : Event where
  id := 17183942731105780890
  createdAt := 1700000000
  kind := 0
  tags := []
  content := lit "\x7b\"about\":\"\",\"name\":\"ann\"\x7d"
  pubkey := toHex sampleKeys.publicKey
  sig := lit "0b77ed14d3d75e56264b33070c60704c8e47cb62f6649ccd1c03a9d71d097fb733e8db0578fd2c6a45e797854148763734d42e3a7e29fe9d3386f75e5dddd206"

/-- No direct message is sent here. -/
def unusedEVP : EVP where
  derive _ _ := []
  aes256Cbc _ _ _ := []
  base64 _ := []

/-- What `send_profile` sends for the name `ann`. -/
def profileFrame : Bytes :=
  (Json.codec.dump none (.arr [.str (lit "EVENT"), wireJson profileSigned])).getD []

theorem dump_profileFrame :
    Json.codec.dump none (.arr [.str (lit "EVENT"), wireJson profileSigned]) =
      some profileFrame := by
  have hutf8 : (Json.arr [.str (lit "EVENT"), wireJson profileSigned]).utf8 = true := by
    decide +kernel
  obtain ⟨text, htext⟩ := Json.codec.dump_of_utf8 none hutf8
  rw [profileFrame, htext, Option.getD_some]

theorem parse_profileFrame : Json.codec.parse profileFrame =
    some (.arr [.str (lit "EVENT"), wireJson profileSigned]) := by
  apply Json.codec.parse_dump none _ _ _ dump_profileFrame
  simp [canonical_arr, canonical_wireJson]

theorem sendProfile_ann :
    sendProfile Json.codec profileSSL (lit "ann") [] (toHex sampleKeys.secretKey)
      (toHex sampleKeys.publicKey) 1700000000 = some profileFrame := by
  have hkp : readKeyPair (toHex sampleKeys.secretKey) (toHex sampleKeys.publicKey) =
      some sampleKeys := rfl
  have hcontent : Json.codec.dump none (object [(lit "name", .str (lit "ann")),
      (lit "about", .str [])]) = some profileSigned.content := by
    decide
  have hsigned : signEvent Json.codec profileSSL ⟨0, 1700000000, 0, [], profileSigned.content,
      toHex sampleKeys.publicKey, []⟩ sampleKeys = some profileSigned := by
    decide +kernel
  rw [sendProfile, hcontent, Option.bind_eq_bind, Option.bind_some,
    send_of_signEvent hkp hsigned, dump_profileFrame]

theorem hasRoom_create (se : StoredEvent) (checkedAt : UInt64) :
    HasRoom (RelayServer.create {}) se checkedAt where
  total := by simp [RelayServer.create]
  perKind := by simp [RelayServer.create]
  perPubkey := by simp [RelayServer.create]
  rate := by
    have hempty : (RelayServer.create {}).timestamps se.pubkey = [] := rfl
    have hlimit : (RelayServer.create {}).underLimit 0 = true := by decide
    simp only [RelayServer.checkRateLimit, hempty, RelayServer.popExpired, List.dropWhile_nil,
      List.length_nil, hlimit]

theorem kept_iff_chat :
    Kept Json.codec (RelayServer.create {}) ⟨0, true, true⟩ chatFrame 100 100 ↔
      ((Publication.channelMessage (lit "node-1") (lit "hi")).kind = 42 ∨
        (Publication.channelMessage (lit "node-1") (lit "hi")).kind = 30079) ∧
          chatFrame.length ≤ 65536 :=
  kept_iff Json.codec chatSSL unusedEVP (.channelMessage (lit "node-1") (lit "hi"))
    (toHex sampleKeys.secretKey) (toHex sampleKeys.publicKey) chatFrame 1700000000
    (RelayServer.create {}) ⟨0, true, true⟩ 100 100 sendChannelMessage_chat (.refl _) rfl
    fun se _ => hasRoom_create se 100

/-- A fresh relay does not keep a profile. -/
theorem profile_is_not_kept :
    sendProfile Json.codec profileSSL (lit "ann") [] (toHex sampleKeys.secretKey)
        (toHex sampleKeys.publicKey) 1700000000 = some profileFrame ∧
      (∀ se, ReadsAs Json.codec profileFrame se → HasRoom (RelayServer.create {}) se 100) ∧
      ¬ Kept Json.codec (RelayServer.create {}) ⟨0, true, true⟩ profileFrame 100 100 := by
  refine ⟨sendProfile_ann, fun se _ => hasRoom_create se 100, ?_⟩
  intro hkept
  have happ := (kept_iff_appends (.refl _)).mp hkept
  have hread := (readsAs_wireJson parse_profileFrame).mpr rfl
  have hallowed := ((appends_iff hread).mp happ).1.allowed
  cases hallowed

end LinuxLive
