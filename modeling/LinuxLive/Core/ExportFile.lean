import LinuxLive.Core.Persistence
import LinuxLive.Lib.Hex
import LinuxLive.Lib.JsonCodec

/-!
# Export files

`Persistence::export_achievements` and `import_achievements` on the content of the file.
-/

namespace LinuxLive.Persistence

open Json

/-! ## Export -/

def exportContent (a : StoredAchievement) : Json :=
  object [
    (lit "achievement_id", .str a.id),
    (lit "name", .str a.name),
    (lit "description", .str a.description),
    (lit "icon", .str a.icon),
    (lit "tier", .str a.tier),
    (lit "category", .str a.category),
    (lit "unlocked_at", .int a.unlockedAt.toNat)]

def exportEvent (a : StoredAchievement) (content pubkeyHex : Bytes) (now : UInt64) : Json :=
  object [
    (lit "kind", .int 30079),
    (lit "content", .str content),
    (lit "pubkey", .str pubkeyHex),
    (lit "created_at", .int (if 0 < a.unlockedAt then a.unlockedAt else now).toNat),
    (lit "tags", .arr [
      .arr [.str (lit "d"), .str a.id],
      .arr [.str (lit "achievement"), .str a.id]]),
    (lit "sig", .str [])]

/-- The events of the unlocked achievements; `none` is the exception of a `dump()`. -/
def exportEvents (lib : JsonText) (achievements : List StoredAchievement) (pubkeyHex : Bytes)
    (now : UInt64) : Option (List Json) :=
  (achievements.filter StoredAchievement.unlocked).mapM fun a =>
    (lib.dump none (exportContent a)).map fun content => exportEvent a content pubkeyHex now

def exportFile (events : List Json) (pubkeyHex : Bytes) (now : UInt64) : Json :=
  object [
    (lit "version", .int 1),
    (lit "pubkey", .str pubkeyHex),
    (lit "exported_at", .int now.toNat),
    (lit "events", .arr events)]

/-- The file that is written, `none` if an exception comes before the stream is opened,
and the exception. -/
def exportAchievements (lib : JsonText) (achievements : List StoredAchievement) (pubkeyHex : Bytes)
    (now : UInt64) : Option Bytes × Option JsonError :=
  match exportEvents lib achievements pubkeyHex now with
  | none => (none, some .invalidUtf8316)
  | some events =>
      match lib.dump (some 2) (exportFile events pubkeyHex now) with
      | none => (some [], some .invalidUtf8316)
      | some text => (some text, none)

/-! ## Import -/

/-- `get<unsigned long long>`, which is not the type that the library stores. -/
def getULongLong (j : Json) : Except JsonError UInt64 := (j.arithmetic uint64).map UInt64.ofInt

theorem reads_getULongLong : Reads getULongLong (.arithmetic uint64) :=
  (reads_arithmetic uint64).map _

def importContent (content : Json) : Except JsonError StoredAchievement := do
  let id ← content.value getString (lit "achievement_id") []
  let name ← content.value getString (lit "name") []
  let description ← content.value getString (lit "description") []
  let icon ← content.value getString (lit "icon") []
  let tier ← content.value getString (lit "tier") []
  let category ← content.value getString (lit "category") []
  let unlockedAt ← content.value getULongLong (lit "unlocked_at") 0
  return {
    id := id
    name := name
    description := description
    tier := tier
    category := category
    icon := icon
    unlocked := true
    unlockedAt := unlockedAt }

/-- One turn of the loop; `none` is a `continue`. -/
def importEvent (lib : JsonText) (ev : Json) : Except JsonError (Option StoredAchievement) := do
  if !ev.contains (lit "content") || !ev.contains (lit "kind") then return none
  let kind ← (← ev.constIndex (lit "kind")).getInt
  if kind ≠ 30079 then return none
  let text ← (← ev.constIndex (lit "content")).getString
  let content ← (lib.parse text).elim (.error .parseError101) .ok
  let a ← importContent content
  return some a

/-- The loop over the events; an exception keeps what was read before it. -/
def importEvents (lib : JsonText) : List Json → List StoredAchievement
  | [] => []
  | ev :: events =>
      match importEvent lib ev with
      | .error _ => []
      | .ok none => importEvents lib events
      | .ok (some a) => a :: importEvents lib events

def importAchievements (lib : JsonText) (file : Option Bytes) : List StoredAchievement :=
  match file.bind lib.parse with
  | none => []
  | some j =>
      match j.field? (lit "events") with
      | none => []
      | some events => importEvents lib events.items

/-- The import of a file returns; `importAchievements` is then its result. -/
def importReturns (lib : JsonText) (file : Option Bytes) : Bool :=
  match file.bind lib.parse with
  | none => true
  | some j =>
      match j.field? (lit "events") with
      | none => true
      | some events => returns (importEvent lib) .undefined events.items

/-! ## What is imported -/

section imported

variable {lib : JsonText} {file : Option Bytes} {a : StoredAchievement}

theorem utf8_importContent {content : Json} (hu : content.utf8 = true)
    (h : importContent content = .ok a) : a.utf8 = true ∧ a.unlocked = true := by
  simp only [importContent, bind_eq_ok] at h
  obtain ⟨_, h₁, _, h₂, _, h₃, _, h₄, _, h₅, _, h₆, _, _, h⟩ := h
  cases h
  simp only [StoredAchievement.utf8, Bool.and_eq_true, and_true]
  exact ⟨⟨⟨⟨⟨utf8_value hu rfl h₁, utf8_value hu rfl h₂⟩, utf8_value hu rfl h₃⟩,
    utf8_value hu rfl h₅⟩, utf8_value hu rfl h₆⟩, utf8_value hu rfl h₄⟩

theorem utf8_importEvent {ev : Json} (h : importEvent lib ev = .ok (some a)) :
    a.utf8 = true ∧ a.unlocked = true := by
  unfold importEvent at h
  split at h
  · cases h
  · simp only [bind_eq_ok] at h
    obtain ⟨_, _, kind, _, h⟩ := h
    split at h
    · cases h
    · simp only [bind_eq_ok] at h
      obtain ⟨_, _, text, _, content, hparse, b, hb, h⟩ := h
      cases h
      cases hcontent : lib.parse text with
      | none => simp [hcontent] at hparse
      | some j =>
          simp only [hcontent, Option.elim_some, Except.ok.injEq] at hparse
          exact utf8_importContent (lib.parse_utf8 _ _ (hparse ▸ hcontent)) hb

theorem utf8_importAchievements (ha : a ∈ importAchievements lib file) :
    a.utf8 = true ∧ a.unlocked = true := by
  have hevents : ∀ events : List Json, a ∈ importEvents lib events →
      a.utf8 = true ∧ a.unlocked = true := by
    intro events
    induction events with
    | nil => exact fun h => absurd h List.not_mem_nil
    | cons ev events ih =>
        intro h
        unfold importEvents at h
        split at h
        · cases h
        · exact ih h
        · rename_i b hb
          rcases List.mem_cons.mp h with h | h
          · rw [h]
            exact utf8_importEvent hb
          · exact ih h
  unfold importAchievements at ha
  split at ha
  · cases ha
  · split at ha
    · cases ha
    · exact hevents _ ha

end imported

/-! ## An exported file -/

section exported

variable {lib : JsonText} {a : StoredAchievement} {pubkeyHex : Bytes} {now : UInt64}

theorem canonical_exportContent (a : StoredAchievement) : (exportContent a).canonical = true := by
  have hat := canonical_natCast a.unlockedAt.toNat_lt
  exact canonical_object (by simp [hat])

theorem importContent_exportContent (h : a.unlocked = true) :
    importContent (exportContent a) = .ok a := by
  have hat : getULongLong (.int a.unlockedAt.toNat) = .ok a.unlockedAt :=
    congrArg Except.ok (ofInt_toNat_uint64 a.unlockedAt)
  have hfield : ∀ {α : Type} {get : Json → Except JsonError α} {default : α} {v : Json}
      (key : Bytes), (exportContent a).field? key = some v →
        (exportContent a).value get key default = get v := fun _ h => value_of_field? h
  unfold importContent
  rw [hfield (lit "achievement_id") rfl, hfield (lit "name") rfl, hfield (lit "description") rfl,
    hfield (lit "icon") rfl, hfield (lit "tier") rfl, hfield (lit "category") rfl,
    hfield (lit "unlocked_at") rfl]
  simp only [bind, Except.bind, getString, hat]
  rw [← h]
  rfl

/-- An event of kind 30079 is read by what its content holds. -/
theorem importEvent_of_fields {ev content : Json} {text : Bytes}
    (hkind : ev.field? (lit "kind") = some (.int 30079))
    (hcontent : ev.field? (lit "content") = some (.str text))
    (hparse : lib.parse text = some content) :
    importEvent lib ev = (importContent content).map some := by
  have hint : (Json.int 30079).getInt = .ok 30079 := rfl
  unfold importEvent
  rw [constIndex_of_field? hkind, constIndex_of_field? hcontent]
  simp only [contains, hkind, hcontent, hint, hparse, getString, bind, Except.bind, pure,
    Except.pure, Option.isSome_some, Bool.not_true, Bool.or_self, Bool.false_eq_true, if_false,
    ne_eq, not_true_eq_false, Option.elim_some]
  cases importContent content <;> rfl

theorem importEvent_exportEvent {content : Bytes}
    (hdump : lib.dump none (exportContent a) = some content) (h : a.unlocked = true) :
    importEvent lib (exportEvent a content pubkeyHex now) = .ok (some a) := by
  have hparse := lib.parse_dump none _ content (canonical_exportContent a) hdump
  rw [importEvent_of_fields rfl rfl hparse, importContent_exportContent h]
  rfl

theorem importEvents_exportEvents {achievements : List StoredAchievement} {events : List Json}
    (h : exportEvents lib achievements pubkeyHex now = some events) :
    importEvents lib events = achievements.filter StoredAchievement.unlocked := by
  unfold exportEvents at h
  have hall : ∀ a ∈ achievements.filter StoredAchievement.unlocked, a.unlocked = true :=
    fun a ha => (List.mem_filter.mp ha).2
  generalize achievements.filter StoredAchievement.unlocked = unlocked at h hall
  induction unlocked generalizing events with
  | nil =>
      cases h
      rfl
  | cons a unlocked ih =>
      rw [List.mapM_cons] at h
      cases hdump : lib.dump none (exportContent a) with
      | none => simp [hdump] at h
      | some content =>
          cases hrest : unlocked.mapM fun a => (lib.dump none (exportContent a)).map fun content =>
              exportEvent a content pubkeyHex now with
          | none => simp [hdump, hrest] at h
          | some rest =>
              simp only [hdump, hrest, Option.map_some, bind, Option.bind, pure,
                Option.some.injEq] at h
              have hrec := ih hrest fun b hb => hall b (List.mem_cons_of_mem a hb)
              rw [← h, importEvents, importEvent_exportEvent hdump (hall a List.mem_cons_self), hrec]

theorem canonical_exportEvent (a : StoredAchievement) (content pubkeyHex : Bytes) (now : UInt64) :
    (exportEvent a content pubkeyHex now).canonical = true := by
  have hkind : (Json.int 30079).canonical = true := canonical_int (by omega)
  have hat := canonical_natCast (if 0 < a.unlockedAt then a.unlockedAt else now).toNat_lt
  exact canonical_object (by simp [hkind, hat, canonical_arr])

theorem mem_exportEvents {achievements : List StoredAchievement} {events : List Json} {ev : Json}
    (h : exportEvents lib achievements pubkeyHex now = some events) (hev : ev ∈ events) :
    ∃ a ∈ achievements, ∃ content, lib.dump none (exportContent a) = some content ∧
      ev = exportEvent a content pubkeyHex now := by
  unfold exportEvents at h
  have hmem : ∀ a ∈ achievements.filter StoredAchievement.unlocked, a ∈ achievements :=
    fun a ha => (List.mem_filter.mp ha).1
  generalize achievements.filter StoredAchievement.unlocked = unlocked at h hmem
  induction unlocked generalizing events with
  | nil =>
      cases h
      cases hev
  | cons a unlocked ih =>
      rw [List.mapM_cons] at h
      simp only [bind, Option.bind_eq_some_iff, Option.map_eq_some_iff, pure,
        Option.some.injEq] at h
      obtain ⟨_, ⟨content, hcontent, rfl⟩, rest, hrest, rfl⟩ := h
      rcases List.mem_cons.mp hev with hev | hev
      · exact ⟨a, hmem a List.mem_cons_self, content, hcontent, hev⟩
      · exact ih hev hrest fun b hb => hmem b (List.mem_cons_of_mem a hb)

theorem canonical_exportFile {events : List Json} (h : ∀ ev ∈ events, ev.canonical = true) :
    (exportFile events pubkeyHex now).canonical = true := by
  have hversion : (Json.int 1).canonical = true := canonical_int (by omega)
  have hat := canonical_natCast now.toNat_lt
  have hevents : (Json.arr events).canonical = true := canonical_arr.mpr h
  exact canonical_object (by simp [hversion, hat, hevents])

theorem importAchievements_exported {achievements : List StoredAchievement}
    (h : (exportAchievements lib achievements pubkeyHex now).2 = none) :
    importAchievements lib (exportAchievements lib achievements pubkeyHex now).1 =
      achievements.filter StoredAchievement.unlocked := by
  unfold exportAchievements at h ⊢
  cases hevents : exportEvents lib achievements pubkeyHex now with
  | none => simp [hevents] at h
  | some events =>
      cases htext : lib.dump (some 2) (exportFile events pubkeyHex now) with
      | none => simp [hevents, htext] at h
      | some text =>
          have hcanonical : (exportFile events pubkeyHex now).canonical = true := by
            apply canonical_exportFile
            intro ev hev
            obtain ⟨a, _, content, _, rfl⟩ := mem_exportEvents hevents hev
            exact canonical_exportEvent a content pubkeyHex now
          have hparse := lib.parse_dump (some 2) _ text hcanonical htext
          have hfield : (exportFile events pubkeyHex now).field? (lit "events") =
              some (.arr events) := rfl
          have himport : importAchievements lib (some text) = importEvents lib events := by
            simp only [importAchievements, Option.bind_some, hparse, hfield]
            rfl
          simp only [htext]
          rw [himport, importEvents_exportEvents hevents]

/-! ## Export and import -/

theorem utf8_exportContent (h : a.utf8 = true) : (exportContent a).utf8 = true := by
  simp only [StoredAchievement.utf8, Bool.and_eq_true] at h
  obtain ⟨⟨⟨⟨⟨hid, hname⟩, hdescription⟩, htier⟩, hcategory⟩, hicon⟩ := h
  exact utf8_object (by simp [hid, hname, hdescription, htier, hcategory, hicon])

theorem utf8_exportEvent {content : Bytes} (ha : a.utf8 = true) (hcontent : utf8 content = true)
    (hpubkey : utf8 pubkeyHex = true) : (exportEvent a content pubkeyHex now).utf8 = true := by
  have hid : utf8 a.id = true := by
    simp only [StoredAchievement.utf8, Bool.and_eq_true] at ha
    exact ha.1.1.1.1.1
  exact utf8_object (by simp [utf8_arr, hid, hcontent, hpubkey])

theorem utf8_exportFile {events : List Json} (now : UInt64) (hpubkey : utf8 pubkeyHex = true)
    (h : ∀ ev ∈ events, ev.utf8 = true) : (exportFile events pubkeyHex now).utf8 = true := by
  have hevents : (Json.arr events).utf8 = true := utf8_arr.mpr h
  exact utf8_object (by simp [hpubkey, hevents])

theorem exists_exportEvents (lib : JsonText) {achievements : List StoredAchievement}
    (pubkeyHex : Bytes) (now : UInt64) (h : ∀ a ∈ achievements, a.utf8 = true) :
    ∃ events, exportEvents lib achievements pubkeyHex now = some events := by
  unfold exportEvents
  have hunlocked : ∀ a ∈ achievements.filter StoredAchievement.unlocked, a.utf8 = true :=
    fun a ha => h a (List.mem_filter.mp ha).1
  generalize achievements.filter StoredAchievement.unlocked = unlocked at hunlocked
  induction unlocked with
  | nil => exact ⟨[], rfl⟩
  | cons a unlocked ih =>
      obtain ⟨content, hcontent⟩ :=
        lib.dump_of_utf8 none (utf8_exportContent (hunlocked a List.mem_cons_self))
      obtain ⟨events, hevents⟩ := ih fun b hb => hunlocked b (List.mem_cons_of_mem a hb)
      refine ⟨exportEvent a content pubkeyHex now :: events, ?_⟩
      rw [List.mapM_cons, hcontent, hevents]
      rfl

theorem exportAchievements_returns {achievements : List StoredAchievement} (now : UInt64)
    (hwrites : lib.WritesUtf8) (hpubkey : utf8 pubkeyHex = true)
    (h : ∀ a ∈ achievements, a.utf8 = true) :
    ∃ text, exportAchievements lib achievements pubkeyHex now = (some text, none) := by
  obtain ⟨events, hevents⟩ := exists_exportEvents lib pubkeyHex now h
  have hutf8 : ∀ ev ∈ events, ev.utf8 = true := by
    intro ev hev
    obtain ⟨a, ha, content, hcontent, rfl⟩ := mem_exportEvents hevents hev
    exact utf8_exportEvent (h a ha) (hwrites _ _ _ hcontent) hpubkey
  obtain ⟨text, htext⟩ := lib.dump_of_utf8 (some 2) (utf8_exportFile now hpubkey hutf8)
  exact ⟨text, by simp only [exportAchievements, hevents, htext]⟩

end exported

/-- The import of an exported file gives back the unlocked achievements, in order and with
every field. -/
theorem importAchievements_exportAchievements (lib : JsonText)
    (achievements : List StoredAchievement) (pubkeyHex : Bytes) (now : UInt64)
    (hwrites : lib.WritesUtf8) (hpubkey : utf8 pubkeyHex = true)
    (h : ∀ a ∈ achievements, a.utf8 = true) :
    ∃ text, exportAchievements lib achievements pubkeyHex now = (some text, none) ∧
      importAchievements lib (some text) = achievements.filter StoredAchievement.unlocked := by
  obtain ⟨text, htext⟩ := exportAchievements_returns now hwrites hpubkey h
  have hreturns : (exportAchievements lib achievements pubkeyHex now).2 = none := by rw [htext]
  have himport := importAchievements_exported hreturns
  rw [htext] at himport
  exact ⟨text, htext, himport⟩

def earlyBird : StoredAchievement where
  id := lit "early-bird"
  name := lit "Early bird"
  description := lit "Up before \"six\""
  tier := lit "silver"
  category := lit "milestones"
  icon := []
  unlocked := false
  unlockedAt := 0

def nightOwl : StoredAchievement where
  id := lit "night-owl"
  name := lit "Night owl"
  description := lit "Up at 3 \\ 4 o'clock"
  tier := lit "gold"
  category := lit "milestones"
  icon := lit "🦉"
  unlocked := true
  unlockedAt := 18446744073709551615

theorem importAchievements_exportAchievements_nightOwl :
    ∃ text, exportAchievements Json.codec [earlyBird, nightOwl] (toHex (List.replicate 32 1))
        1700000000 = (some text, none) ∧
      importAchievements Json.codec (some text) = [nightOwl] :=
  importAchievements_exportAchievements Json.codec [earlyBird, nightOwl] _ 1700000000
    Json.codec_writesUtf8 (utf8_toHex _) (by decide)

end LinuxLive.Persistence
