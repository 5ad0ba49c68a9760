import LinuxLive.Protocol.Achievements
import LinuxLive.Protocol.Ids
import LinuxLive.Sdk.Events

/-!
# Achievements of the C interface

`lili_create_achievement` and `lili_serialize_event`, and what is left of a created event
behind them.
-/

namespace LinuxLive

open Json Protocol

namespace Sdk

/-- The achievement that `lili_create_achievement` fills in. -/
def sdkAchievement (name description : CString) (tier : Int32) : Achievement where
  name := name.chars
  description := description.chars
  tier := tier
  criteria := []

/-- `lili_create_achievement` with the key pair of `generate_keypair`; `none` is the exception
of a `dump()`. -/
def liliCreateAchievement (lib : JsonText) (ssl : OpenSSL) (name description : CString)
    (tier : Int32) (keypair : KeyPair) (now : UInt64) : Option LiliEvent :=
  (createAchievementEvent lib ssl (sdkAchievement name description tier) keypair now).map
    fun event => {
      id := event.id
      createdAt := event.createdAt
      kind := event.kind
      content := .dup event.content
      pubkey := .dup event.pubkey
      sig := .dup event.sig }

def liliSerializeEvent (lib : JsonText) (event : LiliEvent) : Option CString :=
  ((nativeEvent event).serialize lib).map .dup

/-- The event that `Event::deserialize` makes of the text that the SDK hands out. -/
def handedOut (lib : JsonText) (event : LiliEvent) : Option Event :=
  (liliSerializeEvent lib event).bind fun text => Event.deserialize lib text.chars

section handedOut

variable {lib : JsonText} {ssl : OpenSSL} {event : LiliEvent}

/-- The struct comes out as it is. -/
theorem handedOut_eq (hnul : lib.EscapesNul) (hu : (nativeEvent event).utf8 = true) :
    handedOut lib event = some (nativeEvent event) := by
  obtain ⟨text, htext⟩ := lib.dump_of_utf8 none (Event.utf8_json hu)
  have hserialize : (nativeEvent event).serialize lib = some text := htext
  have hchars : (CString.dup text).chars = text := CString.dup_chars (hnul none _ text htext)
  simp only [handedOut, liliSerializeEvent, hserialize, Option.map_some, Option.bind_some, hchars,
    Event.deserialize_serialize lib hserialize]

def KeepsTags (lib : JsonText) (a : Achievement) (event : LiliEvent) : Prop :=
  ∃ e, handedOut lib event = some e ∧ e.tags = achievementTags a

/-- The event that is handed out has the id of its own fields. -/
def KeepsId (lib : JsonText) (ssl : OpenSSL) (event : LiliEvent) : Prop :=
  ∃ e, handedOut lib event = some e ∧ computeEventId lib ssl e = some e.id

theorem not_keepsTags (hnul : lib.EscapesNul) (hu : (nativeEvent event).utf8 = true)
    (a : Achievement) : ¬ KeepsTags lib a event := by
  intro h
  obtain ⟨e, he, htags⟩ := h
  rw [handedOut_eq hnul hu] at he
  cases he
  cases htags

/-- The struct of a created achievement is its event without the tags. -/
theorem nativeEvent_of_create {name description : CString} {tier : Int32} {keypair : KeyPair}
    {now : UInt64} (hnul : lib.EscapesNul)
    (h : liliCreateAchievement lib ssl name description tier keypair now = some event) :
    ∃ e, createAchievementEvent lib ssl (sdkAchievement name description tier) keypair now =
        some e ∧ nativeEvent event = { e with tags := [] } := by
  obtain ⟨e, he, rfl⟩ := Option.map_eq_some_iff.mp h
  obtain ⟨content, hdump, hsign, _, _, hcontent⟩ := createAchievementEvent_spec he
  obtain ⟨_, _, _, _, _, hpubkey, hsig⟩ := signEvent_spec hsign
  have hcontent' : (CString.dup e.content).chars = e.content := by
    rw [hcontent]
    exact CString.dup_chars (hnul none _ content hdump)
  have hpubkey' : (CString.dup e.pubkey).chars = e.pubkey := by
    rw [hpubkey]
    exact CString.dup_chars (zero_not_mem_toHex _)
  have hsig' : (CString.dup e.sig).chars = e.sig := by
    rw [hsig]
    exact CString.dup_chars (zero_not_mem_toHex _)
  exact ⟨e, he, by simp only [nativeEvent, hcontent', hpubkey', hsig']⟩

end handedOut

/-- No achievement keeps its tags through the SDK, and its id is not the one of the event that
is handed out until the event is signed again. -/
theorem achievements_lose_tags (lib : JsonText) (ssl : OpenSSL) (name description : CString)
    (tier : Int32) (keypair : KeyPair) (now : UInt64) (hnul : lib.EscapesNul) {event : LiliEvent}
    (h : liliCreateAchievement lib ssl name description tier keypair now = some event)
    (hsha : NoCollision lib ssl
      { nativeEvent event with tags := achievementTags (sdkAchievement name description tier) }
      (nativeEvent event)) :
    (¬ KeepsTags lib (sdkAchievement name description tier) event ∧ ¬ KeepsId lib ssl event) ∧
      ∀ kp event', liliSignEvent lib ssl event kp = some event' →
        ¬ KeepsTags lib (sdkAchievement name description tier) event' ∧
          KeepsId lib ssl event' := by
  obtain ⟨e, he, hnative⟩ := nativeEvent_of_create hnul h
  obtain ⟨content, _, hsign, _, htags, _⟩ := createAchievementEvent_spec he
  have hsigned := utf8_signed hsign
  have hu : (nativeEvent event).utf8 = true := by
    rw [Event.utf8_iff] at hsigned
    rw [hnative, Event.utf8_iff]
    exact ⟨rfl, hsigned.2⟩
  constructor
  · refine ⟨not_keepsTags hnul hu _, ?_⟩
    intro hkeeps
    obtain ⟨e', he', hid⟩ := hkeeps
    rw [handedOut_eq hnul hu] at he'
    cases he'
    have hcreated : computeEventId lib ssl
        { nativeEvent event with
          tags := achievementTags (sdkAchievement name description tier) } =
        some (nativeEvent event).id := by
      rw [hnative, ← htags]
      exact computeEventId_signed hsign
    have hfields := idJson_inj.mp (idJson_eq_of_id hcreated hid hsha)
    cases hfields.2.2.1
  · intro kp event' hsign'
    have hsigned' := nativeEvent_of_liliSignEvent hsign'
    have hu' := utf8_signed hsigned'
    exact ⟨not_keepsTags hnul hu' _, nativeEvent event', handedOut_eq hnul hu',
      computeEventId_signed hsigned'⟩

def lanPartyName : CString := ⟨lit "LAN party", by decide⟩

def lanPartyDescription : CString := ⟨lit "Met a friend", by decide⟩

def lanPartyStruct : LiliEvent where
  id := 12383981914005848634
  createdAt := 1700000000
  kind := 30079
  content := .dup lanPartyContent
  pubkey := .dup lanPartyEvent.pubkey
  sig := .dup lanPartyEvent.sig

theorem liliCreateAchievement_lanParty : liliCreateAchievement Json.codec lanPartySSL lanPartyName
    lanPartyDescription 1 sampleKeys 1700000000 = some lanPartyStruct := by
  have hachievement : sdkAchievement lanPartyName lanPartyDescription 1 = lanParty := rfl
  rw [liliCreateAchievement, hachievement, createAchievementEvent_lanParty]
  rfl

theorem noCollision_lanParty : NoCollision Json.codec lanPartySSL
    { nativeEvent lanPartyStruct with
      tags := achievementTags (sdkAchievement lanPartyName lanPartyDescription 1) }
    (nativeEvent lanPartyStruct) := by
  intro text text' htext htext' hword
  have hid : computeEventId Json.codec lanPartySSL
      { nativeEvent lanPartyStruct with
        tags := achievementTags (sdkAchievement lanPartyName lanPartyDescription 1) } =
      some 12383981914005848634 := by
    decide
  have hid' : computeEventId Json.codec lanPartySSL (nativeEvent lanPartyStruct) =
      some 13082571232191077168 := by
    decide
  rw [computeEventId, htext, Option.map_some, Option.some.injEq] at hid
  rw [computeEventId, htext', Option.map_some, Option.some.injEq] at hid'
  rw [hid, hid'] at hword
  exact absurd hword (by decide)

theorem achievements_lose_tags_lanParty :
    (¬ KeepsTags Json.codec (sdkAchievement lanPartyName lanPartyDescription 1) lanPartyStruct ∧
        ¬ KeepsId Json.codec lanPartySSL lanPartyStruct) ∧
      ∀ kp event', liliSignEvent Json.codec lanPartySSL lanPartyStruct kp = some event' →
        ¬ KeepsTags Json.codec (sdkAchievement lanPartyName lanPartyDescription 1) event' ∧
          KeepsId Json.codec lanPartySSL event' :=
  achievements_lose_tags Json.codec lanPartySSL lanPartyName lanPartyDescription 1 sampleKeys
    1700000000 Json.codec_escapesNul liliCreateAchievement_lanParty noCollision_lanParty

/-- The achievement is handed out without its tags and with the id that it has with them. -/
theorem lanParty_is_not_intact :
    liliCreateAchievement Json.codec lanPartySSL lanPartyName lanPartyDescription 1 sampleKeys
        1700000000 = some lanPartyStruct ∧
      handedOut Json.codec lanPartyStruct = some { lanPartyEvent with tags := [] } ∧
      ¬ KeepsTags Json.codec (sdkAchievement lanPartyName lanPartyDescription 1) lanPartyStruct ∧
      ¬ KeepsId Json.codec lanPartySSL lanPartyStruct := by
  have hnative : nativeEvent lanPartyStruct = { lanPartyEvent with tags := [] } := by
    decide +kernel
  have hu : (nativeEvent lanPartyStruct).utf8 = true := by decide +kernel
  have hout : handedOut Json.codec lanPartyStruct = some { lanPartyEvent with tags := [] } := by
    rw [handedOut_eq Json.codec_escapesNul hu, hnative]
  refine ⟨liliCreateAchievement_lanParty, hout, ?_, ?_⟩
  · exact not_keepsTags Json.codec_escapesNul hu _
  · intro h
    obtain ⟨e, he, hid⟩ := h
    rw [hout] at he
    cases he
    exact absurd hid (by decide +kernel)

end Sdk

end LinuxLive
