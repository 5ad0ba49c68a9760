import LinuxLive.Core.FriendsFile
import LinuxLive.Core.ImportEvents
import LinuxLive.Core.MessagesFile
import LinuxLive.Core.NodesFile

/-!
# Bad records

What one malformed record costs the loaders of the data directory and the import, each of
which reads its records in one loop inside one handler.
-/

namespace LinuxLive

open Json Persistence RecordCodec

/-- Every loader returns all well-formed records of its array, and returns at all, exactly
if the malformed ones come last and the first of them lacks no mandatory field. -/
theorem bad_records_iff (lib : JsonText) :
    (∀ text items, lib.parse text = some (.arr items) →
      (ReadsAll StoredNode.codec.step .undefined items (loadNodes lib (some text)) ↔
        (grading StoredNode.format).BadLast items) ∧
      (ReadsAll Persistence.codec.step .undefined items (loadAchievements lib (some text)) ↔
        (grading Persistence.format).BadLast items) ∧
      (ReadsAll StoredMessage.codec.step .undefined items (loadMessages lib (some text)) ↔
        (grading StoredMessage.format).BadLast items) ∧
      (ReadsAll friendCodec.step .undefined items (loadFriends lib (some text)) ↔
        (grading friendFormat).BadLast items)) ∧
    ∀ text j events, lib.parse text = some j → j.field? (lit "events") = some (.arr events) →
      (ReadsAll (importEvent lib) .undefined events (importAchievements lib (some text)) ↔
        (eventGrading lib).BadLast events) := by
  constructor
  · intro text items h
    rw [loadAchievements_eq]
    exact ⟨load_readsAll_iff _ h, load_readsAll_iff _ h, load_readsAll_iff _ h,
      load_readsAll_iff _ h⟩
  · intro text j events hparse hevents
    exact importAchievements_readsAll_iff hparse hevents

/-- A load shortens the list for good: the next save writes what was loaded, and no more. -/
theorem lost_records_stay_lost (lib : JsonText) (file : Option Bytes) :
    loadNodes lib (some (saveNodes lib (loadNodes lib file)).1) = loadNodes lib file ∧
    loadAchievements lib (some (saveAchievements lib (loadAchievements lib file)).1) =
      loadAchievements lib file ∧
    loadMessages lib (some (saveMessages lib (loadMessages lib file)).1) =
      loadMessages lib file ∧
    loadFriends lib (some (saveFriends lib (loadFriends lib file)).1) = loadFriends lib file := by
  have hachievements := (load_save_load Persistence.codec lib file).2
  rw [← loadAchievements_eq, ← loadAchievements_eq] at hachievements
  exact ⟨(load_save_load _ lib file).2, hachievements, (load_save_load _ lib file).2,
    (load_save_load _ lib file).2⟩

/-! ## A node behind a bad one -/

def twoNodes : List Json :=
  [.obj [(lit "id", .int 5), (lit "name", .str (lit "old"))],
    .obj [(lit "id", .str (lit "7")), (lit "name", .str (lit "LAN"))]]

def twoNodesText : Bytes :=
  lit "[\x7b\"id\":5,\"name\":\"old\"\x7d,\x7b\"id\":\"7\",\"name\":\"LAN\"\x7d]"

theorem parse_twoNodesText : Json.codec.parse twoNodesText = some (.arr twoNodes) := by rfl

theorem bad_records_iff_twoNodes :
    ReadsAll StoredNode.codec.step .undefined twoNodes
        (loadNodes Json.codec (some twoNodesText)) ↔
      (grading StoredNode.format).BadLast twoNodes :=
  ((bad_records_iff Json.codec).1 twoNodesText twoNodes parse_twoNodesText).1

/-- The second node is well-formed and lost. -/
theorem node_is_lost :
    loadNodes Json.codec (some twoNodesText) = [] ∧
      ¬ ∀ text items, Json.codec.parse text = some (.arr items) →
        ReadsAll StoredNode.codec.step .undefined items (loadNodes Json.codec (some text)) := by
  have hload : loadNodes Json.codec (some twoNodesText) = [] := by
    rw [loadNodes, load, Option.bind_some, parse_twoNodesText]
    rfl
  refine ⟨hload, fun hall => ?_⟩
  have hrecords := (hall _ _ parse_twoNodesText).records
  rw [hload] at hrecords
  cases hrecords

end LinuxLive
