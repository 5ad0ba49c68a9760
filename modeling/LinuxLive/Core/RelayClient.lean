import LinuxLive.Core.Encryption
import LinuxLive.Core.Identity
import LinuxLive.Protocol.Ids

/-!
# The client of a relay

`RelayClient`: the handler of incoming text frames, and the frames of `subscribe`,
`publish_event` and the senders.
-/

namespace LinuxLive

open Json

/-- What the event callback is given. -/
structure RelayEvent where
  id : Bytes
  pubkey : Bytes
  kind : Int
  content : Bytes
  tags : List (List Bytes)
  createdAt : UInt64
  sig : Bytes
  deriving DecidableEq

namespace RelayClient

/-! ## Incoming frames -/

def readRelayEvent (ev : Json) : Except JsonError RelayEvent := do
  let id ← ev.value getString (lit "id") []
  let pubkey ← ev.value getString (lit "pubkey") []
  let kind ← ev.value getInt (lit "kind") 0
  let content ← ev.value getString (lit "content") []
  let createdAt ← ev.value getInt (lit "created_at") 0
  let sig ← ev.value getString (lit "sig") []
  let tags ← readTags ev
  return {
    id := id
    pubkey := pubkey
    kind := kind
    content := content
    tags := tags
    createdAt := UInt64.ofInt createdAt
    sig := sig }

/-- The event that the callback is called with; exceptions end in `catch (...) {}`. -/
def onMessage (lib : JsonText) (msg : Bytes) : Option RelayEvent :=
  match lib.parse msg with
  | some (.arr (type :: _ :: rest)) =>
      match type.getString with
      | .error _ => none
      | .ok type =>
          if type = lit "EVENT" then
            match rest with
            | [] => none
            | ev :: _ => (readRelayEvent ev).toOption
          else none
  | _ => none

/-! ## Outgoing frames -/

/-- The filter of `subscribe`: a list for each argument that is not empty. -/
def subscriptionFilter (kinds : List Int) (authorPubkey eventId : Bytes) : Json :=
  object (
    (if kinds.isEmpty then [] else [(lit "kinds", .arr (kinds.map .int))]) ++
    (if authorPubkey.isEmpty then [] else [(lit "authors", .arr [.str authorPubkey])]) ++
    (if eventId.isEmpty then [] else [(lit "ids", .arr [.str eventId])]))

/-- `subscribe` at a reading of `time(nullptr)`; `none` is the exception of `dump()`. -/
def subscribe (lib : JsonText) (kinds : List Int) (authorPubkey eventId : Bytes) (now : Nat) :
    Option Bytes :=
  let subId := lit "sub_" ++ decimal now
  lib.dump none (.arr [.str (lit "REQ"), .str subId,
    subscriptionFilter kinds authorPubkey eventId])

/-- `none`: the text does not parse and nothing is sent. -/
def publishEvent (lib : JsonText) (eventJson : Bytes) : Option Bytes :=
  (lib.parse eventJson).bind fun event => lib.dump none (.arr [.str (lit "EVENT"), event])

/-- The object that every sender publishes for a signed event: the id as a string. -/
def wireJson (e : Event) : Json :=
  object [
    (lit "id", .str (decimal e.id.toNat)),
    (lit "pubkey", .str e.pubkey),
    (lit "kind", .int e.kind.toNat),
    (lit "content", .str e.content),
    (lit "created_at", .int e.createdAt.toNat),
    (lit "tags", tagsJson e.tags),
    (lit "sig", .str e.sig)]

def readKeyPair (privkey pubkey : Bytes) : Option KeyPair :=
  match hs : IdentityManager.hexToKey privkey 32, hp : IdentityManager.hexToKey pubkey 32 with
  | some secretKey, some publicKey => some {
      secretKey := secretKey
      publicKey := publicKey
      secretKey_length := IdentityManager.length_hexToKey hs
      publicKey_length := IdentityManager.length_hexToKey hp }
  | _, _ => none

/-- What the senders have in common: the frame that is sent, `none` if one of the keys is
refused or an exception leaves the sender. -/
def send (lib : JsonText) (ssl : OpenSSL) (kind : UInt16) (tags : List (List Bytes))
    (content privkey pubkey : Bytes) (now : UInt64) : Option Bytes := do
  let kp ← readKeyPair privkey pubkey
  let signed ← signEvent lib ssl {
    id := 0
    createdAt := now
    kind := kind
    tags := tags
    content := content
    pubkey := pubkey
    sig := [] } kp
  let text ← lib.dump none (wireJson signed)
  publishEvent lib text

def sendChannelMessage (lib : JsonText) (ssl : OpenSSL)
    (channelId content senderPrivkey senderPubkey : Bytes) (now : UInt64) : Option Bytes :=
  send lib ssl 42 [[lit "e", channelId]] content senderPrivkey senderPubkey now

/-- `send_dm` with the initial vector of its encryption. -/
def sendDm (lib : JsonText) (ssl : OpenSSL) (evp : EVP)
    (recipientPubkey content senderPrivkey senderPubkey iv : Bytes) (now : UInt64) :
    Option Bytes := do
  let kp ← readKeyPair senderPrivkey senderPubkey
  let recipKey ← IdentityManager.hexToKey recipientPubkey 32
  let encrypted := Encryption.encrypt ssl evp iv kp.secretKey recipKey content
  send lib ssl 4 [[lit "p", recipientPubkey]] encrypted senderPrivkey senderPubkey now

def sendProfile (lib : JsonText) (ssl : OpenSSL)
    (displayName bio senderPrivkey senderPubkey : Bytes) (now : UInt64) : Option Bytes := do
  let content ← lib.dump none (object [
    (lit "name", .str displayName),
    (lit "about", .str bio)])
  send lib ssl 0 [] content senderPrivkey senderPubkey now

def sendAchievement (lib : JsonText) (ssl : OpenSSL)
    (achievementId name description icon senderPrivkey senderPubkey : Bytes) (now : UInt64) :
    Option Bytes := do
  let content ← lib.dump none (object [
    (lit "achievement_id", .str achievementId),
    (lit "name", .str name),
    (lit "description", .str description),
    (lit "icon", .str icon)])
  send lib ssl 30079 [[lit "d", achievementId], [lit "achievement", achievementId]] content
    senderPrivkey senderPubkey now

/-! ## What is asked for -/

section subscribe

variable {lib : JsonText} {kinds : List Int} {authorPubkey eventId : Bytes} {now : Nat}

theorem subscriptionFilter_fields (kinds : List Int) (authorPubkey eventId : Bytes) :
    (subscriptionFilter kinds authorPubkey eventId).field? (lit "kinds") =
        (if kinds.isEmpty then none else some (.arr (kinds.map .int))) ∧
      (subscriptionFilter kinds authorPubkey eventId).field? (lit "authors") =
        (if authorPubkey.isEmpty then none else some (.arr [.str authorPubkey])) ∧
      (subscriptionFilter kinds authorPubkey eventId).field? (lit "ids") =
        (if eventId.isEmpty then none else some (.arr [.str eventId])) := by
  unfold subscriptionFilter
  cases kinds.isEmpty <;> cases authorPubkey.isEmpty <;> cases eventId.isEmpty <;>
    exact ⟨rfl, rfl, rfl⟩

theorem utf8_subscription (ha : utf8 authorPubkey = true) (hi : utf8 eventId = true) :
    (Json.arr [.str (lit "REQ"), .str (lit "sub_" ++ decimal now),
      subscriptionFilter kinds authorPubkey eventId]).utf8 = true := by
  have hsub : utf8 (lit "sub_" ++ decimal now) = true := by
    rw [utf8_append (utf8_lit _), utf8_decimal]
  have hfilter : (subscriptionFilter kinds authorPubkey eventId).utf8 = true := by
    apply utf8_object
    cases kinds.isEmpty <;> cases authorPubkey.isEmpty <;> cases eventId.isEmpty <;>
      simp [ha, hi, utf8_arr]
  simp [utf8_arr, hsub, hfilter]

theorem subscribe_of_utf8 (lib : JsonText) (kinds : List Int) (now : Nat)
    (ha : utf8 authorPubkey = true) (hi : utf8 eventId = true) :
    ∃ raw, subscribe lib kinds authorPubkey eventId now = some raw :=
  lib.dump_of_utf8 none (utf8_subscription ha hi)

/-- An `int` among the kinds. -/
def IsInt (k : Int) : Prop := -2 ^ 31 ≤ k ∧ k < 2 ^ 31

theorem parse_subscribe {raw : Bytes} (hk : ∀ k ∈ kinds, IsInt k)
    (h : subscribe lib kinds authorPubkey eventId now = some raw) :
    lib.parse raw = some (.arr [.str (lit "REQ"), .str (lit "sub_" ++ decimal now),
      subscriptionFilter kinds authorPubkey eventId]) := by
  have hints : ∀ k ∈ kinds, (Json.int k).canonical = true := by
    intro k hmem
    have := hk k hmem
    exact canonical_int ⟨by unfold IsInt at this; omega, by unfold IsInt at this; omega⟩
  have hkinds : (Json.arr (kinds.map .int)).canonical = true := by simpa [canonical_arr] using hints
  have hone : ∀ s, (Json.arr [.str s]).canonical = true := by simp [canonical_arr]
  have hfilter : (subscriptionFilter kinds authorPubkey eventId).canonical = true := by
    apply canonical_object
    cases kinds.isEmpty <;> cases authorPubkey.isEmpty <;> cases eventId.isEmpty <;>
      simp [hkinds, hone]
  refine lib.parse_dump none _ raw ?_ h
  simp [canonical_arr, hfilter]

end subscribe

/-! ## What is published -/

section publish

variable {lib : JsonText} {ssl : OpenSSL} {e : Event}

theorem canonical_wireJson (e : Event) : (wireJson e).canonical = true := by
  have hcreated := canonical_natCast e.createdAt.toNat_lt
  have hkind := canonical_natCast (Nat.lt_trans e.kind.toNat_lt (by decide))
  exact canonical_object (by simp [hcreated, hkind, canonical_tagsJson])

theorem wireJson_fields (e : Event) :
    (wireJson e).field? (lit "id") = some (.str (decimal e.id.toNat)) ∧
      (wireJson e).field? (lit "pubkey") = some (.str e.pubkey) ∧
      (wireJson e).field? (lit "kind") = some (.int e.kind.toNat) ∧
      (wireJson e).field? (lit "content") = some (.str e.content) ∧
      (wireJson e).field? (lit "created_at") = some (.int e.createdAt.toNat) ∧
      (wireJson e).field? (lit "sig") = some (.str e.sig) ∧
      (wireJson e).field? (lit "tags") = some (tagsJson e.tags) :=
  ⟨rfl, rfl, rfl, rfl, rfl, rfl, rfl⟩

theorem wireJson_inj {e e' : Event} : wireJson e = wireJson e' ↔ e = e' := by
  constructor
  · intro h
    obtain ⟨hid, hpubkey, hkind, hcontent, hcreated, hsig, htags⟩ := wireJson_fields e
    obtain ⟨hid', hpubkey', hkind', hcontent', hcreated', hsig', htags'⟩ :=
      wireJson_fields e'
    rw [h] at hid hpubkey hkind hcontent hcreated hsig htags
    simp only [hid', hpubkey', hkind', hcontent', hcreated', hsig', htags', Option.some.injEq,
      Json.str.injEq, Json.int.injEq, decimal_inj, tagsJson_inj, Int.natCast_inj,
      UInt64.toNat_inj, UInt16.toNat_inj] at hid hpubkey hkind hcontent hcreated hsig htags
    cases e
    cases e'
    simp only [Event.mk.injEq]
    exact ⟨hid.symm, hcreated.symm, hkind.symm, htags.symm, hcontent.symm, hpubkey.symm, hsig.symm⟩
  · exact fun h => congrArg wireJson h

theorem utf8_wireJson {kp : KeyPair} {signed : Event} (hs : signEvent lib ssl e kp = some signed) :
    (wireJson signed).utf8 = true := by
  obtain ⟨htags, hcontent, hpubkey, hsig⟩ := Event.utf8_iff.mp (utf8_signed hs)
  apply utf8_object
  simp [hpubkey, hcontent, hsig, htags, utf8_tagsJson, utf8_decimal]

theorem parse_publishEvent {text raw : Bytes} (h : publishEvent lib text = some raw) :
    ∃ event, lib.parse text = some event ∧
      lib.parse raw = some (.arr [.str (lit "EVENT"), event]) := by
  obtain ⟨event, hparse, hdump⟩ := Option.bind_eq_some_iff.mp h
  refine ⟨event, hparse, lib.parse_dump none _ raw ?_ hdump⟩
  simp [canonical_arr, lib.parse_canonical text event hparse]

theorem parse_send {kind : UInt16} {tags : List (List Bytes)} {content privkey pubkey raw : Bytes}
    {now : UInt64} (h : send lib ssl kind tags content privkey pubkey now = some raw) :
    ∃ kp signed, signEvent lib ssl ⟨0, now, kind, tags, content, pubkey, []⟩ kp = some signed ∧
      lib.parse raw = some (.arr [.str (lit "EVENT"), wireJson signed]) := by
  obtain ⟨kp, _, h⟩ := Option.bind_eq_some_iff.mp h
  obtain ⟨signed, hsigned, h⟩ := Option.bind_eq_some_iff.mp h
  obtain ⟨text, htext, hpub⟩ := Option.bind_eq_some_iff.mp h
  obtain ⟨event, hevent, hparse⟩ := parse_publishEvent hpub
  have hwire := lib.parse_dump none _ text (canonical_wireJson signed) htext
  cases hevent.symm.trans hwire
  exact ⟨kp, signed, hsigned, hparse⟩

/-- With its keys read and its event signed, a sender sends the object in one frame. -/
theorem send_of_signEvent {kind : UInt16} {tags : List (List Bytes)}
    {content privkey pubkey : Bytes} {now : UInt64} {kp : KeyPair} {signed : Event}
    (hkp : readKeyPair privkey pubkey = some kp)
    (hs : signEvent lib ssl ⟨0, now, kind, tags, content, pubkey, []⟩ kp = some signed) :
    send lib ssl kind tags content privkey pubkey now =
      lib.dump none (.arr [.str (lit "EVENT"), wireJson signed]) := by
  have hutf8 : (Json.arr [.str (lit "EVENT"), wireJson signed]).utf8 = (wireJson signed).utf8 := by
    rw [Bool.eq_iff_iff]
    simp [utf8_arr]
  have hsend : send lib ssl kind tags content privkey pubkey now =
      (lib.dump none (wireJson signed)).bind (publishEvent lib) := by
    simp only [send, hkp, hs, bind, Option.bind]
  rw [hsend]
  cases htext : lib.dump none (wireJson signed) with
  | none =>
      rw [lib.dump_eq_none_iff, ← hutf8] at htext
      rw [lib.dump_eq_none_iff.mpr htext, Option.bind_none]
  | some text =>
      have hparse := lib.parse_dump none _ text (canonical_wireJson signed) htext
      simp only [Option.bind_some, publishEvent, hparse]

theorem onMessage_pair {type body : Json} {msg : Bytes}
    (h : lib.parse msg = some (.arr [type, body])) : onMessage lib msg = none := by
  simp only [onMessage, h]
  cases type.getString with
  | error e => rfl
  | ok type => simp

end publish

end RelayClient

end LinuxLive
