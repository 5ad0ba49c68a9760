import LinuxLive.Lib.RecordFormat

/-!
# `achievements.json`

`Persistence::save_achievements` and `load_achievements` on the content of the file.
-/

namespace LinuxLive

open Json

structure StoredAchievement where
  id : Bytes
  name : Bytes
  description : Bytes
  tier : Bytes
  category : Bytes
  icon : Bytes
  unlocked : Bool
  unlockedAt : UInt64
  deriving DecidableEq

namespace StoredAchievement

def utf8 (a : StoredAchievement) : Bool :=
  LinuxLive.utf8 a.id && LinuxLive.utf8 a.name && LinuxLive.utf8 a.description &&
    LinuxLive.utf8 a.tier && LinuxLive.utf8 a.category && LinuxLive.utf8 a.icon

def json (a : StoredAchievement) : Json :=
  object [
    (lit "id", .str a.id),
    (lit "name", .str a.name),
    (lit "description", .str a.description),
    (lit "tier", .str a.tier),
    (lit "category", .str a.category),
    (lit "icon", .str a.icon),
    (lit "unlocked", .bool a.unlocked),
    (lit "unlocked_at", .int a.unlockedAt.toNat)]

def ofJson (item : Json) : Except JsonError StoredAchievement := do
  let id ← (← item.constIndex (lit "id")).getString
  let name ← (← item.constIndex (lit "name")).getString
  let description ← (← item.constIndex (lit "description")).getString
  let tier ← (← item.constIndex (lit "tier")).getString
  let category ← (← item.constIndex (lit "category")).getString
  let icon ← (← item.constIndex (lit "icon")).getString
  let unlocked ← (← item.constIndex (lit "unlocked")).getBool
  let unlockedAt ← (← item.constIndex (lit "unlocked_at")).getUInt64
  return {
    id := id
    name := name
    description := description
    tier := tier
    category := category
    icon := icon
    unlocked := unlocked
    unlockedAt := unlockedAt }

end StoredAchievement

namespace Persistence

/-- The file that `save_achievements` leaves and the exception of `dump(2)`: the stream has
emptied the file before there is a text to write. -/
def saveAchievements (lib : JsonText) (achievements : List StoredAchievement) :
    Bytes × Option JsonError :=
  match lib.dump (some 2) (.arr (achievements.map StoredAchievement.json)) with
  | none => ([], some .invalidUtf8316)
  | some text => (text, none)

/-- The loop over the items; an exception keeps what was read before it. -/
def readAchievements : List Json → List StoredAchievement
  | [] => []
  | item :: items =>
      match StoredAchievement.ofJson item with
      | .error _ => []
      | .ok a => a :: readAchievements items

def loadAchievements (lib : JsonText) (file : Option Bytes) : List StoredAchievement :=
  match file.bind lib.parse with
  | none => []
  | some j => readAchievements j.items

/-! ## One achievement in the file -/

theorem json_eq (a : StoredAchievement) : a.json = .obj [
    (lit "category", .str a.category),
    (lit "description", .str a.description),
    (lit "icon", .str a.icon),
    (lit "id", .str a.id),
    (lit "name", .str a.name),
    (lit "tier", .str a.tier),
    (lit "unlocked", .bool a.unlocked),
    (lit "unlocked_at", .int a.unlockedAt.toNat)] := rfl

theorem json_fields (a : StoredAchievement) :
    a.json.field? (lit "id") = some (.str a.id) ∧
      a.json.field? (lit "name") = some (.str a.name) ∧
      a.json.field? (lit "description") = some (.str a.description) ∧
      a.json.field? (lit "tier") = some (.str a.tier) ∧
      a.json.field? (lit "category") = some (.str a.category) ∧
      a.json.field? (lit "icon") = some (.str a.icon) ∧
      a.json.field? (lit "unlocked") = some (.bool a.unlocked) ∧
      a.json.field? (lit "unlocked_at") = some (.int a.unlockedAt.toNat) := by
  rw [json_eq]
  exact ⟨rfl, rfl, rfl, rfl, rfl, rfl, rfl, rfl⟩

theorem ofJson_json (a : StoredAchievement) : StoredAchievement.ofJson a.json = .ok a := by
  obtain ⟨hid, hname, hdescription, htier, hcategory, hicon, hunlocked, hat⟩ := json_fields a
  unfold StoredAchievement.ofJson
  rw [constIndex_of_field? hid, constIndex_of_field? hname, constIndex_of_field? hdescription,
    constIndex_of_field? htier, constIndex_of_field? hcategory, constIndex_of_field? hicon,
    constIndex_of_field? hunlocked, constIndex_of_field? hat]
  simp only [bind, Except.bind, getString, getBool, getUInt64_int_toNat]
  rfl

theorem canonical_json (a : StoredAchievement) : a.json.canonical = true := by
  have hat := canonical_natCast a.unlockedAt.toNat_lt
  exact canonical_object (by simp [hat])

theorem utf8_json (a : StoredAchievement) : a.json.utf8 = a.utf8 := by
  rw [Bool.eq_iff_iff, json_eq, utf8_obj]
  simp only [List.forall_mem_cons, utf8_lit, utf8_str, utf8_bool, utf8_int, StoredAchievement.utf8,
    Bool.and_eq_true]
  constructor
  · intro h
    obtain ⟨⟨_, hcategory⟩, ⟨_, hdescription⟩, ⟨_, hicon⟩, ⟨_, hid⟩, ⟨_, hname⟩, ⟨_, htier⟩, _⟩ := h
    exact ⟨⟨⟨⟨⟨hid, hname⟩, hdescription⟩, htier⟩, hcategory⟩, hicon⟩
  · intro h
    obtain ⟨⟨⟨⟨⟨hid, hname⟩, hdescription⟩, htier⟩, hcategory⟩, hicon⟩ := h
    simp [hid, hname, hdescription, htier, hcategory, hicon]

theorem utf8_ofJson (item : Json) (a : StoredAchievement) (hu : item.utf8 = true)
    (h : StoredAchievement.ofJson item = .ok a) : a.utf8 = true := by
  simp only [StoredAchievement.ofJson, bind_eq_ok] at h
  obtain ⟨_, hv₁, _, h₁, _, hv₂, _, h₂, _, hv₃, _, h₃, _, hv₄, _, h₄, _, hv₅, _, h₅, _, hv₆, _, h₆,
    _, _, _, _, _, _, _, _, h⟩ := h
  cases h
  simp only [StoredAchievement.utf8, Bool.and_eq_true]
  exact ⟨⟨⟨⟨⟨utf8_constIndex hu hv₁ h₁, utf8_constIndex hu hv₂ h₂⟩, utf8_constIndex hu hv₃ h₃⟩,
    utf8_constIndex hu hv₄ h₄⟩, utf8_constIndex hu hv₅ h₅⟩, utf8_constIndex hu hv₆ h₆⟩

def codec : RecordCodec StoredAchievement where
  json := StoredAchievement.json
  ofJson := StoredAchievement.ofJson
  utf8 := StoredAchievement.utf8
  ofJson_json := ofJson_json
  canonical_json := canonical_json
  utf8_json := utf8_json
  utf8_ofJson := utf8_ofJson

def fields : List FieldSpec :=
  [⟨lit "id", true, .string⟩, ⟨lit "name", true, .string⟩, ⟨lit "description", true, .string⟩,
    ⟨lit "tier", true, .string⟩, ⟨lit "category", true, .string⟩, ⟨lit "icon", true, .string⟩,
    ⟨lit "unlocked", true, .bool⟩, ⟨lit "unlocked_at", true, .number uint64⟩]

theorem ofJson_ok_iff {item : Json} :
    (∃ a, StoredAchievement.ofJson item = .ok a) ↔ WellFormed fields item :=
  ok_mandatory_iff reads_getString fun _ => ok_mandatory_iff reads_getString fun _ =>
  ok_mandatory_iff reads_getString fun _ => ok_mandatory_iff reads_getString fun _ =>
  ok_mandatory_iff reads_getString fun _ => ok_mandatory_iff reads_getString fun _ =>
  ok_mandatory_iff reads_getBool fun _ => ok_mandatory_iff reads_getUInt64 fun _ => ok_pure_iff

theorem ofJson_undefined_iff {item : Json} :
    StoredAchievement.ofJson item = .error .undefined ↔ Undefined fields item :=
  undefined_mandatory_iff reads_getString fun _ => undefined_mandatory_iff reads_getString fun _ =>
  undefined_mandatory_iff reads_getString fun _ => undefined_mandatory_iff reads_getString fun _ =>
  undefined_mandatory_iff reads_getString fun _ => undefined_mandatory_iff reads_getString fun _ =>
  undefined_mandatory_iff reads_getBool fun _ => undefined_mandatory_iff reads_getUInt64 fun _ =>
  undefined_pure_iff

def format : RecordFormat codec where
  wellFormed := WellFormed fields
  undefined := Undefined fields
  ok_iff _ := ofJson_ok_iff
  undefined_iff _ := ofJson_undefined_iff

/-! ## The file -/

section file

variable {lib : JsonText} {file : Option Bytes} {achievements : List StoredAchievement}
  {a : StoredAchievement}

theorem readAchievements_eq (items : List Json) : readAchievements items = codec.read items := by
  induction items with
  | nil => rfl
  | cons item items ih =>
      have hitem : codec.ofJson item = StoredAchievement.ofJson item := rfl
      simp only [readAchievements, RecordCodec.read, ih, hitem]
      cases StoredAchievement.ofJson item <;> rfl

theorem loadAchievements_eq (lib : JsonText) (file : Option Bytes) :
    loadAchievements lib file = codec.load lib file := by
  unfold loadAchievements RecordCodec.load
  cases file.bind lib.parse with
  | none => rfl
  | some j => exact readAchievements_eq j.items

theorem utf8_loadAchievements (ha : a ∈ loadAchievements lib file) : a.utf8 = true := by
  rw [loadAchievements_eq] at ha
  exact codec.utf8_load ha

theorem saveAchievements_iff : (saveAchievements lib achievements).2 = none ↔
    ∀ a ∈ achievements, a.utf8 = true := codec.save_iff

theorem parse_saved (h : (saveAchievements lib achievements).2 = none) :
    lib.parse (saveAchievements lib achievements).1 =
      some (.arr (achievements.map StoredAchievement.json)) := codec.parse_saved h

theorem loadAchievements_saved (h : (saveAchievements lib achievements).2 = none) :
    loadAchievements lib (some (saveAchievements lib achievements).1) = achievements := by
  rw [loadAchievements_eq]
  exact codec.load_saved h

theorem saved_of_throws (h : (saveAchievements lib achievements).2 ≠ none) :
    (saveAchievements lib achievements).1 = [] := codec.saved_of_throws h

end file

end Persistence

end LinuxLive
