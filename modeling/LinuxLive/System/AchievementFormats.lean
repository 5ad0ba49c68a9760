import LinuxLive.Core.ExportFile
import LinuxLive.Core.RelayClient
import LinuxLive.Protocol.Achievements

/-!
# The formats of achievement events

Three producers of events of kind 30079, two readers of them, and which reader gives back
what which producer was given.
-/

namespace LinuxLive

open Json

/-- An achievement as one of the producers is given it. -/
inductive Production where
  /-- `create_achievement_event` -/
  | created (a : Protocol.Achievement)
  /-- `RelayClient::send_achievement` -/
  | sent (achievementId name description icon : Bytes)
  /-- `Persistence::export_achievements` -/
  | exported (a : StoredAchievement)

namespace Production

def name : Production → Bytes
  | created a => a.name
  | sent _ name _ _ => name
  | exported a => a.name

def description : Production → Bytes
  | created a => a.description
  | sent _ _ description _ => description
  | exported a => a.description

def dValue : Production → Bytes
  | created a => a.name
  | sent achievementId _ _ _ => achievementId
  | exported a => a.id

end Production

/-- An exported event as a `lili::Event`.  The file has no id for it. -/
def exportedEvent (a : StoredAchievement) (content pubkeyHex : Bytes) (now id : UInt64) :
    Event where
  id := id
  createdAt := if 0 < a.unlockedAt then a.unlockedAt else now
  kind := 30079
  tags := [[lit "d", a.id], [lit "achievement", a.id]]
  content := content
  pubkey := pubkeyHex
  sig := []

/-- An event of kind 30079 that the program makes, as a struct and as an object. -/
inductive Produces (lib : JsonText) (ssl : OpenSSL) : Production → Event → Json → Prop where
  | created {a : Protocol.Achievement} {keypair : KeyPair} {now : UInt64} {e : Event}
      (h : Protocol.createAchievementEvent lib ssl a keypair now = some e) :
      Produces lib ssl (.created a) e e.json
  | sent {achievementId name description icon privkey pubkey raw : Bytes} {now : UInt64} {e : Event}
      (h : RelayClient.sendAchievement lib ssl achievementId name description icon privkey pubkey
        now = some raw)
      (hraw : lib.parse raw = some (.arr [.str (lit "EVENT"), RelayClient.wireJson e])) :
      Produces lib ssl (.sent achievementId name description icon) e (RelayClient.wireJson e)
  | exported {a : StoredAchievement} {content pubkeyHex : Bytes} {now id : UInt64}
      (hunlocked : a.unlocked = true)
      (h : lib.dump none (Persistence.exportContent a) = some content) :
      Produces lib ssl (.exported a) (exportedEvent a content pubkeyHex now id)
        (Persistence.exportEvent a content pubkeyHex now)

inductive AchievementReader where
  | parseAchievementEvent
  | importAchievements

/-- The reader accepts the event and gives back name, description and `d` value of the
producer.  An `Achievement` is identified by its name, a `StoredAchievement` by its id. -/
def GivesBack (lib : JsonText) (p : Production) (e : Event) (j : Json) :
    AchievementReader → Prop
  | .parseAchievementEvent => ∃ a, Protocol.parseAchievementEvent lib e = some a ∧
      a.name = p.name ∧ a.description = p.description ∧ a.name = p.dValue
  | .importAchievements => ∃ a, Persistence.importEvent lib j = .ok (some a) ∧
      a.name = p.name ∧ a.description = p.description ∧ a.id = p.dValue

/-- The two formats: the one of the protocol library, and the one of client and files. -/
def SameFormat : Production → AchievementReader → Prop
  | .created _, .parseAchievementEvent => True
  | .created _, .importAchievements => False
  | .sent .., .parseAchievementEvent => False
  | .sent .., .importAchievements => True
  | .exported _, .parseAchievementEvent => False
  | .exported _, .importAchievements => True

/-! ## What the readers make of an event -/

section readers

variable {lib : JsonText} {ssl : OpenSSL} {e : Event} {j content : Json} {text : Bytes}

/-- The tier has to be a number for `parse_achievement_event`. -/
theorem readAchievement_error {tier : Json} (htier : content.index (lit "tier") = .ok tier)
    (hint : ∀ n, tier.getInt ≠ .ok n) (a : Protocol.Achievement) :
    Protocol.readAchievement content ≠ .ok a := by
  intro hread
  simp only [Protocol.readAchievement, bind_eq_ok, htier] at hread
  obtain ⟨_, _, _, _, _, _, _, _, t, ht, n, hn, _⟩ := hread
  cases ht
  exact hint n hn

theorem parseAchievementEvent_eq_none (hparse : lib.parse e.content = some content)
    (herror : ∀ a, Protocol.readAchievement content ≠ .ok a) :
    Protocol.parseAchievementEvent lib e = none := by
  unfold Protocol.parseAchievementEvent
  split
  · rfl
  · rw [hparse]
    cases hread : Protocol.readAchievement content with
    | error err => simp only [hread, Except.toOption]
    | ok a => exact (herror a hread).elim

/-- The tier has to be a text for `import_achievements`, or missing. -/
theorem importContent_error {tier : Json} (htier : content.field? (lit "tier") = some tier)
    (hstring : ∀ t, tier.getString ≠ .ok t) (a : StoredAchievement) :
    Persistence.importContent content ≠ .ok a := by
  intro hread
  simp only [Persistence.importContent, bind_eq_ok, value_of_field? htier] at hread
  obtain ⟨_, _, _, _, _, _, _, _, t, ht, _⟩ := hread
  exact hstring t ht

end readers

/-! ## The three producers -/

section producers

variable {lib : JsonText} {ssl : OpenSSL} {e : Event} {j : Json}

/-- The content that `send_achievement` puts together. -/
def sentContent (achievementId name description icon : Bytes) : Json :=
  object [
    (lit "achievement_id", .str achievementId),
    (lit "name", .str name),
    (lit "description", .str description),
    (lit "icon", .str icon)]

theorem sendAchievement_spec {achievementId name description icon privkey pubkey raw : Bytes}
    {now : UInt64}
    (h : RelayClient.sendAchievement lib ssl achievementId name description icon privkey pubkey
      now = some raw)
    (hraw : lib.parse raw = some (.arr [.str (lit "EVENT"), RelayClient.wireJson e])) :
    e.kind = 30079 ∧
      lib.parse e.content = some (sentContent achievementId name description icon) := by
  obtain ⟨content, hdump, hsend⟩ := Option.bind_eq_some_iff.mp h
  obtain ⟨kp, signed, hsigned, hparse⟩ := RelayClient.parse_send hsend
  rw [hraw] at hparse
  simp only [Option.some.injEq, Json.arr.injEq, List.cons.injEq, RelayClient.wireJson_inj, true_and,
    and_true] at hparse
  obtain ⟨_, hkind, _, hcontent, _⟩ := signEvent_spec hsigned
  rw [hparse, hkind, hcontent]
  exact ⟨rfl, lib.parse_dump none _ content (canonical_object (by simp)) hdump⟩

theorem importContent_sentContent (achievementId name description icon : Bytes) :
    Persistence.importContent (sentContent achievementId name description icon) =
      .ok ⟨achievementId, name, description, [], [], icon, true, 0⟩ := rfl

theorem sent_formats {achievementId name description icon : Bytes} (hkind : e.kind = 30079)
    (hparse : lib.parse e.content = some (sentContent achievementId name description icon)) :
    Protocol.parseAchievementEvent lib e = none ∧
      Persistence.importEvent lib (RelayClient.wireJson e) =
        .ok (some ⟨achievementId, name, description, [], [], icon, true, 0⟩) := by
  constructor
  · apply parseAchievementEvent_eq_none hparse
    have hnull : (sentContent achievementId name description icon).index (lit "tier") =
        .ok .null := rfl
    exact readAchievement_error hnull (by simp [getInt, arithmetic, number, Except.map])
  · obtain ⟨_, _, hkindField, hcontentField, _⟩ := RelayClient.wireJson_fields e
    rw [hkind] at hkindField
    rw [Persistence.importEvent_of_fields hkindField hcontentField hparse,
      importContent_sentContent]
    rfl

theorem exported_formats {a : StoredAchievement} {content : Bytes} (hunlocked : a.unlocked = true)
    (hdump : lib.dump none (Persistence.exportContent a) = some content) (pubkeyHex : Bytes)
    (now id : UInt64) :
    Protocol.parseAchievementEvent lib (exportedEvent a content pubkeyHex now id) = none ∧
      Persistence.importEvent lib (Persistence.exportEvent a content pubkeyHex now) =
        .ok (some a) := by
  constructor
  · have hparse := lib.parse_dump none _ content (Persistence.canonical_exportContent a) hdump
    apply parseAchievementEvent_eq_none hparse
    have htier : (Persistence.exportContent a).index (lit "tier") = .ok (.str a.tier) := rfl
    exact readAchievement_error htier (by simp [getInt, arithmetic, number, Except.map])
  · exact Persistence.importEvent_exportEvent hdump hunlocked

theorem created_formats {a : Protocol.Achievement} {keypair : KeyPair} {now : UInt64}
    (h : Protocol.createAchievementEvent lib ssl a keypair now = some e) :
    Protocol.parseAchievementEvent lib e = some a ∧
      ∀ b, Persistence.importEvent lib e.json ≠ .ok (some b) := by
  refine ⟨Protocol.parseAchievementEvent_created h, ?_⟩
  intro b himport
  obtain ⟨content, hdump, _, hkind, _, hcontent⟩ := Protocol.createAchievementEvent_spec h
  have hparse := lib.parse_dump none _ content (Protocol.canonical_achievementContent a) hdump
  obtain ⟨_, _, hkindField, _, hcontentField, _⟩ := Event.json_fields e
  rw [hkind] at hkindField
  rw [hcontent] at hcontentField
  rw [Persistence.importEvent_of_fields hkindField hcontentField hparse] at himport
  have htier : (Protocol.achievementContent a).field? (lit "tier") =
      some (.int a.tier.toInt) := rfl
  have herror := importContent_error htier (by simp [getString])
  cases hread : Persistence.importContent (Protocol.achievementContent a) with
  | error err => simp [hread, Except.map] at himport
  | ok c => exact herror c hread

end producers

/-- A reader gives an event back exactly if it is of the producer's format, and
`parse_achievement_event` undoes `create_achievement_event`. -/
theorem achievement_formats_iff {lib : JsonText} {ssl : OpenSSL} {p : Production} {e : Event}
    {j : Json} (h : Produces lib ssl p e j) :
    (∀ reader, GivesBack lib p e j reader ↔ SameFormat p reader) ∧
      ∀ a, p = .created a → Protocol.parseAchievementEvent lib e = some a := by
  cases h with
  | created h =>
      obtain ⟨hparse, himport⟩ := created_formats h
      refine ⟨?_, ?_⟩
      · intro reader
        cases reader with
        | parseAchievementEvent => exact iff_of_true ⟨_, hparse, rfl, rfl, rfl⟩ trivial
        | importAchievements => exact iff_of_false (fun hback => himport _ hback.choose_spec.1) id
      · intro a ha
        cases ha
        exact hparse
  | sent h hraw =>
      obtain ⟨hkind, hcontent⟩ := sendAchievement_spec h hraw
      obtain ⟨hparse, himport⟩ := sent_formats hkind hcontent
      refine ⟨?_, fun a ha => Production.noConfusion ha⟩
      intro reader
      cases reader with
      | parseAchievementEvent =>
          exact iff_of_false (fun hback => by simp [GivesBack, hparse] at hback) id
      | importAchievements => exact iff_of_true ⟨_, himport, rfl, rfl, rfl⟩ trivial
  | @exported _ _ pubkeyHex now eventId hunlocked hdump =>
      obtain ⟨hparse, himport⟩ := exported_formats hunlocked hdump pubkeyHex now eventId
      refine ⟨?_, fun a ha => Production.noConfusion ha⟩
      intro reader
      cases reader with
      | parseAchievementEvent =>
          exact iff_of_false (fun hback => by simp [GivesBack, hparse] at hback) id
      | importAchievements => exact iff_of_true ⟨_, himport, rfl, rfl, rfl⟩ trivial

theorem produces_lanParty : Produces Json.codec Protocol.lanPartySSL (.created Protocol.lanParty)
    Protocol.lanPartyEvent Protocol.lanPartyEvent.json :=
  .created Protocol.createAchievementEvent_lanParty

theorem achievement_formats_lanParty :
    (∀ reader, GivesBack Json.codec (.created Protocol.lanParty) Protocol.lanPartyEvent
        Protocol.lanPartyEvent.json reader ↔ SameFormat (.created Protocol.lanParty) reader) ∧
      ∀ a, Production.created Protocol.lanParty = .created a →
        Protocol.parseAchievementEvent Json.codec Protocol.lanPartyEvent = some a :=
  achievement_formats_iff produces_lanParty

/-- The importer does not accept a created achievement. -/
theorem created_achievement_is_not_imported :
    Produces Json.codec Protocol.lanPartySSL (.created Protocol.lanParty) Protocol.lanPartyEvent
        Protocol.lanPartyEvent.json ∧
      Persistence.importEvent Json.codec Protocol.lanPartyEvent.json = .error .wrongType302 ∧
      ¬ GivesBack Json.codec (.created Protocol.lanParty) Protocol.lanPartyEvent
        Protocol.lanPartyEvent.json .importAchievements := by
  have herror : Persistence.importEvent Json.codec Protocol.lanPartyEvent.json =
      .error .wrongType302 := by
    decide
  refine ⟨produces_lanParty, herror, ?_⟩
  intro h
  obtain ⟨a, ha, _⟩ := h
  rw [herror] at ha
  cases ha

end LinuxLive
