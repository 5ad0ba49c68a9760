import LinuxLive.Gui.App
import LinuxLive.System.LiveDelivery
import LinuxLive.System.Subscriptions
import Mathlib.Data.List.ReduceOption

/-!
# Channel history

A channel message names its channel in a tag; the subscription of the connect callback
names it in `ids`, which the relay compares with the id of the event.
-/

namespace LinuxLive

open Json Relay RelayClient

/-- The event that some call of `send_channel_message` for the channel published. -/
def PublishedTo (lib : JsonText) (ssl : OpenSSL) (channelId : Bytes) (se : StoredEvent) : Prop :=
  ∃ content privkey pubkey now raw,
    sendChannelMessage lib ssl channelId content privkey pubkey now = some raw ∧ ReadsAs lib raw se

/-- The calls of the event callback in answer to the subscriptions of the connect callback;
a REQ leaves the server as it is. -/
def answers (lib : JsonText) (s : RelayServer) (session : ClientSession)
    (publicKey : Option Bytes) (nodeId : Bytes) (now₁ now₂ now₃ : Nat) (at₁ at₂ : UInt64) : List RelayEvent :=
  (App.connectSubscriptions lib publicKey nodeId now₁ now₂ now₃).flatMap fun raw =>
    callbacks lib session.fd (handleClientMessage lib s session raw at₁ at₂).sent

/-- Every stored message of the channel reaches the callback. -/
def ChannelHistory (lib : JsonText) (ssl : OpenSSL) (s : RelayServer) (session : ClientSession)
    (publicKey : Option Bytes) (nodeId : Bytes) (now₁ now₂ now₃ : Nat) (at₁ at₂ : UInt64) : Prop :=
  ∀ se ∈ s.events, PublishedTo lib ssl nodeId se →
    ∃ re ∈ answers lib s session publicKey nodeId now₁ now₂ now₃ at₁ at₂, Carries re se

section history

variable {lib : JsonText} {ssl : OpenSSL} {s : RelayServer} {session : ClientSession}
  {publicKey : Option Bytes} {nodeId : Bytes} {now₁ now₂ now₃ : Nat} {at₁ at₂ : UInt64} {se : StoredEvent}

theorem PublishedTo.spec (h : PublishedTo lib ssl nodeId se) :
    se.kind = 42 ∧ se.tags = [[lit "e", nodeId]] ∧ se.id ≠ [] ∧ se.utf8 = true := by
  obtain ⟨content, privkey, pubkey, now, raw, hsend, hread⟩ := h
  have hutf8 := hread.utf8
  obtain ⟨kp, signed, hsigned, hparse⟩ := parse_send hsend
  obtain ⟨_, hkind, htags, _⟩ := signEvent_spec hsigned
  rw [readsAs_wireJson hparse] at hread
  subst hread
  exact ⟨hkind, htags, decimal_ne_nil _, hutf8⟩

theorem isInt_kinds : ∀ k : Event.Kind, ∀ n ∈ [(k.value.toNat : Int)], IsInt n := by
  intro k n hn
  have hlt := k.value.toNat_lt
  rw [List.mem_singleton.mp hn]
  unfold IsInt
  omega

theorem mem_connectSubscriptions {raw : Bytes}
    (h : raw ∈ App.connectSubscriptions lib publicKey nodeId now₁ now₂ now₃) :
    ∃ kind author id now,
      subscribe lib [((Event.Kind.value kind).toNat : Int)] author id now = some raw ∧
        (kind = .channelMessage → id = nodeId ∧ nodeId ≠ []) := by
  have hmem := (List.takeWhile_prefix _).subset (List.reduceOption_mem_iff.mp h)
  simp only [List.mem_append] at hmem
  rcases hmem with (hmem | hmem) | hmem
  · split at hmem
    · cases hmem
    · exact ⟨.achievement, _, _, _, (List.mem_singleton.mp hmem).symm, by simp⟩
  · exact ⟨.metadata, _, _, _, (List.mem_singleton.mp hmem).symm, by simp⟩
  · split at hmem
    · cases hmem
    · rename_i hne
      refine ⟨.channelMessage, _, _, _, (List.mem_singleton.mp hmem).symm, fun _ => ⟨rfl, ?_⟩⟩
      simpa using hne

theorem channel_mem_connectSubscriptions (lib : JsonText) (publicKey : Option Bytes)
    (now₁ now₂ now₃ : Nat) (hnode : utf8 nodeId = true) (hne : nodeId ≠ []) :
    ∃ raw ∈ App.connectSubscriptions lib publicKey nodeId now₁ now₂ now₃,
      subscribe lib [((Event.Kind.channelMessage.value).toNat : Int)] [] nodeId now₃ = some raw := by
  obtain ⟨achievements, hach⟩ := subscribe_of_utf8 lib
    [((Event.Kind.achievement.value).toNat : Int)] now₁ (App.utf8_currentPubkeyHex publicKey) utf8_nil
  obtain ⟨profiles, hprof⟩ := subscribe_of_utf8 lib
    [((Event.Kind.metadata.value).toNat : Int)] now₂ utf8_nil utf8_nil
  obtain ⟨raw, hraw⟩ := subscribe_of_utf8 lib
    [((Event.Kind.channelMessage.value).toNat : Int)] now₃ utf8_nil hnode
  have hnode' : nodeId.isEmpty = false := by simpa using hne
  refine ⟨raw, ?_, hraw⟩
  simp only [App.connectSubscriptions, hach, hprof, hraw, hnode']
  cases (App.currentPubkeyHex publicKey).isEmpty <;> simp [List.reduceOption]

/-- A message that came through the channel subscription bears the id of the node. -/
theorem id_of_mem_answers (hs : StoreReadable s) (hopen : session.isOpen = true) {re : RelayEvent}
    (hre : re ∈ answers lib s session publicKey nodeId now₁ now₂ now₃ at₁ at₂) (hkind : re.kind = 42) :
    re.id = nodeId := by
  obtain ⟨raw, hraw, hmem⟩ := List.mem_flatMap.mp hre
  obtain ⟨kind, author, id, now, hsub, hchannel⟩ := mem_connectSubscriptions hraw
  obtain ⟨e, _, hmatch, rfl⟩ := (mem_callbacks_subscribe hs hopen (isInt_kinds kind) hsub re).mp hmem
  obtain ⟨hkinds, _, hids⟩ := (matches_subscription (isInt_kinds kind)).mp hmatch
  have hvalue : (e.kind.toNat : Int) = kind.value.toNat := by simpa using hkinds
  have h42 : (kind.value.toNat : Int) = 42 := hvalue.symm.trans hkind
  have hkind' : kind = .channelMessage := by
    cases kind with
    | channelMessage => rfl
    | _ => exact absurd h42 (by decide)
  obtain ⟨rfl, hne⟩ := hchannel hkind'
  exact hids.resolve_left hne

/-- The event id is the only thing that can bring a channel message back. -/
theorem id_of_channelHistory (hs : StoreReadable s) (hopen : session.isOpen = true)
    (h : ChannelHistory lib ssl s session publicKey nodeId now₁ now₂ now₃ at₁ at₂)
    (hmem : se ∈ s.events) (hpub : PublishedTo lib ssl nodeId se) : se.id = nodeId := by
  obtain ⟨re, hre, hcarries⟩ := h se hmem hpub
  obtain ⟨hkind, _⟩ := hpub.spec
  rw [← hcarries.id]
  refine id_of_mem_answers hs hopen hre ?_
  rw [hcarries.kind, hkind]
  rfl

end history

/-- The history is complete exactly if each stored message of the channel has the id of the
node as its own event id. -/
theorem channelHistory_iff (lib : JsonText) (ssl : OpenSSL) (s : RelayServer)
    (session : ClientSession) (publicKey : Option Bytes) (nodeId : Bytes) (now₁ now₂ now₃ : Nat)
    (at₁ at₂ : UInt64) (hs : StoreReadable s) (hopen : session.isOpen = true) :
    ChannelHistory lib ssl s session publicKey nodeId now₁ now₂ now₃ at₁ at₂ ↔
      ∀ se ∈ s.events, PublishedTo lib ssl nodeId se → se.id = nodeId := by
  constructor
  · intro h se hmem hpub
    exact id_of_channelHistory hs hopen h hmem hpub
  · intro h se hmem hpub
    obtain ⟨hkind, _, hne, hutf8⟩ := hpub.spec
    have hid := h se hmem hpub
    rw [hid] at hne
    have hnode : utf8 nodeId = true := by
      simp only [StoredEvent.utf8, Bool.and_eq_true, hid] at hutf8
      exact hutf8.1.1.1.1
    obtain ⟨raw, hraw, hsub⟩ := channel_mem_connectSubscriptions lib publicKey now₁ now₂ now₃
      hnode hne
    refine ⟨relayEvent se, List.mem_flatMap.mpr ⟨raw, hraw, ?_⟩, carries_relayEvent se⟩
    refine (mem_callbacks_subscribe hs hopen (isInt_kinds .channelMessage) hsub _).mpr
      ⟨se, hmem, ?_, rfl⟩
    rw [matches_subscription (isInt_kinds .channelMessage)]
    exact ⟨.inr (by simp [hkind, Event.Kind.value]), .inl rfl, .inr hid⟩

/-! ## A message in a channel -/

/-- The digest and the signature are those of the standards. -/
def chatSSL : OpenSSL := .ofKnown {
  text := lit "[0,1700000000,42,[[\"e\",\"node-1\"]],\"hi\"]"
  digest := fromHex (lit "13c889356593f243c1673527dc3a50ac83586dd6d490ca8aa7f258690f036c36")
  secretKey := sampleKeys.secretKey
  publicKey := sampleKeys.publicKey
  message := lit "1425540144493228611\n1700000000\n42\n"
  signature := fromHex (lit "cecd1edad8c05a49ef825217578d6fa8f8d8f39131e3c1f793505797bde288a83321811bedf4d34862aee6f5c03b28e776a8eb06badab0e7c81c08a66df22105")
  digest_length := rfl
  publicKey_length := sampleKeys.publicKey_length
  publicKey_ne := sampleKeys_publicKey_ne
  signature_length := by decide +kernel }

def chatSigned : Event where
  id := 1425540144493228611
  createdAt := 1700000000
  kind := 42
  tags := [[lit "e", lit "node-1"]]
  content := lit "hi"
  pubkey := toHex sampleKeys.publicKey
  sig := lit "cecd1edad8c05a49ef825217578d6fa8f8d8f39131e3c1f793505797bde288a83321811bedf4d34862aee6f5c03b28e776a8eb06badab0e7c81c08a66df22105"

/-- What `send_channel_message` sends for a message in the channel of `node-1`. -/
def chatFrame : Bytes :=
  (Json.codec.dump none (.arr [.str (lit "EVENT"), wireJson chatSigned])).getD []

def chatStored : StoredEvent := storedEvent chatSigned chatFrame.length

def chatRelay : RelayServer :=
  (handleClientMessage Json.codec (RelayServer.create {}) ⟨0, true, true⟩ chatFrame 100 100).server

theorem dump_chatFrame :
    Json.codec.dump none (.arr [.str (lit "EVENT"), wireJson chatSigned]) = some chatFrame := by
  have hutf8 : (Json.arr [.str (lit "EVENT"), wireJson chatSigned]).utf8 = true := by
    decide +kernel
  obtain ⟨text, htext⟩ := Json.codec.dump_of_utf8 none hutf8
  rw [chatFrame, htext, Option.getD_some]

theorem parse_chatFrame : Json.codec.parse chatFrame =
    some (.arr [.str (lit "EVENT"), wireJson chatSigned]) := by
  refine Json.codec.parse_dump none _ _ ?_ dump_chatFrame
  simp [canonical_arr, canonical_wireJson]

theorem chatRelay_events : chatRelay.events = [chatStored] := by
  rw [chatRelay, handleClientMessage_event parse_chatFrame]
  decide +kernel

theorem storeReadable_chatRelay : StoreReadable chatRelay := by
  intro e he
  rw [chatRelay_events, List.mem_singleton] at he
  subst he
  decide +kernel

theorem sendChannelMessage_chat :
    sendChannelMessage Json.codec chatSSL (lit "node-1") (lit "hi") (toHex sampleKeys.secretKey)
      (toHex sampleKeys.publicKey) 1700000000 = some chatFrame := by
  have hkp : readKeyPair (toHex sampleKeys.secretKey) (toHex sampleKeys.publicKey) =
      some sampleKeys := rfl
  have hsigned : signEvent Json.codec chatSSL ⟨0, 1700000000, 42, [[lit "e", lit "node-1"]],
      lit "hi", toHex sampleKeys.publicKey, []⟩ sampleKeys = some chatSigned := by
    decide +kernel
  exact (send_of_signEvent hkp hsigned).trans dump_chatFrame

theorem publishedTo_chatStored : PublishedTo Json.codec chatSSL (lit "node-1") chatStored := by
  refine ⟨lit "hi", toHex sampleKeys.secretKey, toHex sampleKeys.publicKey, 1700000000, chatFrame,
    sendChannelMessage_chat, ?_⟩
  rw [readsAs_wireJson parse_chatFrame]
  rfl

theorem channelHistory_iff_chat :
    ChannelHistory Json.codec chatSSL chatRelay ⟨1, true, true⟩ none (lit "node-1") 0 0 0 100 100 ↔
      ∀ se ∈ chatRelay.events, PublishedTo Json.codec chatSSL (lit "node-1") se →
        se.id = lit "node-1" :=
  channelHistory_iff Json.codec chatSSL chatRelay ⟨1, true, true⟩ none (lit "node-1") 0 0 0 100 100
    storeReadable_chatRelay rfl

/-- The one message of the channel does not come back. -/
theorem channel_message_is_not_found :
    chatRelay.events = [chatStored] ∧ PublishedTo Json.codec chatSSL (lit "node-1") chatStored ∧
      ¬ ChannelHistory Json.codec chatSSL chatRelay ⟨1, true, true⟩ none (lit "node-1") 0 0 0
        100 100 := by
  refine ⟨chatRelay_events, publishedTo_chatStored, ?_⟩
  intro h
  have hmem : chatStored ∈ chatRelay.events := by simp [chatRelay_events]
  exact absurd (id_of_channelHistory storeReadable_chatRelay rfl h hmem publishedTo_chatStored)
    (by decide)

end LinuxLive
