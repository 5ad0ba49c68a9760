import LinuxLive.Protocol.Signing

/-!
# Achievement events

`create_achievement_event` and `parse_achievement_event`.
-/

namespace LinuxLive

open Json

namespace Protocol

/-- `enum class AchievementTier`: a cast makes a tier of any `int`. -/
abbrev AchievementTier := Int32

structure Achievement where
  name : Bytes
  description : Bytes
  tier : AchievementTier
  criteria : List Bytes
  deriving DecidableEq

def achievementContent (a : Achievement) : Json :=
  object [
    (lit "name", .str a.name),
    (lit "description", .str a.description),
    (lit "tier", .int a.tier.toInt),
    (lit "criteria", .arr (a.criteria.map .str))]

def achievementTags (a : Achievement) : List (List Bytes) :=
  [[lit "d", a.name], [lit "tier", intText a.tier.toInt]]

/-- `none` is the exception of a `dump()`. -/
def createAchievementEvent (lib : JsonText) (ssl : OpenSSL) (a : Achievement) (keypair : KeyPair)
    (now : UInt64) : Option Event := do
  let content ← lib.dump none (achievementContent a)
  signEvent lib ssl {
    id := 0
    createdAt := now
    kind := Event.Kind.achievement.value
    tags := achievementTags a
    content := content
    pubkey := []
    sig := [] } keypair

def readAchievement (j : Json) : Except JsonError Achievement := do
  let name ← (← j.index (lit "name")).getString
  let description ← (← j.index (lit "description")).getString
  let tier ← (← j.index (lit "tier")).getInt
  let criteria ← (← j.index (lit "criteria")).getVector getString
  return {
    name := name
    description := description
    tier := Int32.ofInt tier
    criteria := criteria }

/-- Every exception ends in `std::nullopt`. -/
def parseAchievementEvent (lib : JsonText) (event : Event) : Option Achievement :=
  if event.kind ≠ Event.Kind.achievement.value then none
  else
    match lib.parse event.content with
    | none => none
    | some j => (readAchievement j).toOption

/-! ## A created event is read back -/

theorem canonical_achievementContent (a : Achievement) :
    (achievementContent a).canonical = true := by
  have htier := canonical_int32 a.tier
  exact canonical_object (by simp [htier, canonical_arr])

theorem readAchievement_content (a : Achievement) :
    readAchievement (achievementContent a) = .ok a := by
  have hfield : ∀ {v : Json} (key : Bytes), (achievementContent a).field? key = some v →
      (achievementContent a).index key = .ok v := fun _ h => index_of_field? h
  have hitem : ∀ s : Bytes, (Json.str s).getString = .ok s := fun _ => rfl
  have hcriteria : (Json.arr (a.criteria.map .str)).getVector getString = .ok a.criteria :=
    mapM_map_ok hitem a.criteria
  unfold readAchievement
  rw [hfield (lit "name") rfl, hfield (lit "description") rfl, hfield (lit "tier") rfl,
    hfield (lit "criteria") rfl]
  simp only [bind, Except.bind, getString, getInt_int32, hcriteria, Int32.ofInt_toInt]
  rfl

section created

variable {lib : JsonText} {ssl : OpenSSL} {a : Achievement} {keypair : KeyPair} {now : UInt64}
  {e : Event}

theorem createAchievementEvent_spec
    (h : createAchievementEvent lib ssl a keypair now = some e) :
    ∃ content, lib.dump none (achievementContent a) = some content ∧
      signEvent lib ssl ⟨0, now, Event.Kind.achievement.value, achievementTags a, content, [], []⟩
        keypair = some e ∧
      e.kind = Event.Kind.achievement.value ∧ e.tags = achievementTags a ∧ e.content = content := by
  obtain ⟨content, hdump, hsign⟩ := Option.bind_eq_some_iff.mp h
  obtain ⟨_, hkind, htags, hcontent, _⟩ := signEvent_spec hsign
  exact ⟨content, hdump, hsign, hkind, htags, hcontent⟩

theorem parseAchievementEvent_created
    (h : createAchievementEvent lib ssl a keypair now = some e) :
    parseAchievementEvent lib e = some a := by
  obtain ⟨content, hdump, _, hkind, _, hcontent⟩ := createAchievementEvent_spec h
  have hparse := lib.parse_dump none _ content (canonical_achievementContent a) hdump
  rw [parseAchievementEvent, if_neg (not_not_intro hkind), hcontent, hparse]
  simp only [readAchievement_content, Except.toOption]

end created

/-! ## An achievement and its event -/

def lanParty : Achievement where
  name := lit "LAN party"
  description := lit "Met a friend"
  tier := 1
  criteria := []

def lanPartyContent : Bytes :=
  lit "\x7b\"criteria\":[],\"description\":\"Met a friend\",\"name\":\"LAN party\",\"tier\":1\x7d"

/-- The text under the id of the event, and the one it would have without tags. -/
def lanPartyText (tags : String) : Bytes :=
  lit "[0,1700000000,30079," ++ lit tags ++ lit ",\"\x7b\\\"criteria\\\":[],\\\"description\\\":" ++
    lit "\\\"Met a friend\\\",\\\"name\\\":\\\"LAN party\\\",\\\"tier\\\":1\x7d\"]"

/-- The digests and signatures are those of the standards. -/
def lanPartySSL : OpenSSL := .ofTables
  [(lanPartyText "[[\"d\",\"LAN party\"],[\"tier\",\"1\"]]",
      fromHex (lit "abdcbdf0092e423a6b6f09a676cce4cdf2084cb5eb171d5e0fdaa1e66ac719c2")),
    (lanPartyText "[]",
      fromHex (lit "b58ea138a37e5b30ee9157f5340712d6b40306c463a5f2db28df7c90ffdd7216"))]
  [(sampleKeys.secretKey, sampleKeys.publicKey)]
  [((sampleKeys.publicKey, lit "12383981914005848634\n1700000000\n30079\n"),
      fromHex (lit "573e05a9e2526b61761c9e08d960092cd548ab4f57848df6dd13c1f07d8aa2fe5921f2eb2b6fa862b88bd79c4711027b555a7f3fb17834f6e342403b3646e80a")),
    ((sampleKeys.publicKey, lit "13082571232191077168\n1700000000\n30079\n"),
      fromHex (lit "700e37ad224edd144c8d15844907cc8f281b919bb0cf9bc01d87f0711236b4a333ca01d807fb0885f1034398dee8defc2e8b0edaf488eba0d781396ad7c5c305"))]

def lanPartyEvent : Event where
  id := 12383981914005848634
  createdAt := 1700000000
  kind := 30079
  tags := [[lit "d", lit "LAN party"], [lit "tier", lit "1"]]
  content := lanPartyContent
  pubkey := toHex sampleKeys.publicKey
  sig := lit "573e05a9e2526b61761c9e08d960092cd548ab4f57848df6dd13c1f07d8aa2fe5921f2eb2b6fa862b88bd79c4711027b555a7f3fb17834f6e342403b3646e80a"

theorem createAchievementEvent_lanParty :
    createAchievementEvent Json.codec lanPartySSL lanParty sampleKeys 1700000000 =
      some lanPartyEvent := by
  decide +kernel

end Protocol

end LinuxLive
