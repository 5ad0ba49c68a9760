import LinuxLive.Core.MessagesFile
import LinuxLive.Core.Persistence
import LinuxLive.Core.ProfileFile

/-!
# Saves that fail

The file behind a save whose `dump` throws: each writer opens its stream, which empties the
file, before it has the text.
-/

namespace LinuxLive

open Persistence

/-- The writers with their arguments; the key of the friends and the node of the messages
only name the file. -/
inductive Save where
  | achievements (achievements : List StoredAchievement)
  | messages (nodeId : Bytes) (messages : List StoredMessage)
  | nodes (nodes : List StoredNode)
  | profile (pubkey displayName bio : Bytes)
  | friends (pubkey : Bytes) (friendPubkeys : List Bytes)
  | relayList (urls : List Bytes)

namespace Save

/-- The content that the stream leaves, and the exception of `dump(2)`. -/
def saved (lib : JsonText) : Save → Bytes × Option JsonError
  | achievements as => saveAchievements lib as
  | messages _ ms => saveMessages lib ms
  | nodes ns => saveNodes lib ns
  | profile pubkey displayName bio => saveProfile lib pubkey displayName bio
  | friends _ friendPubkeys => saveFriends lib friendPubkeys
  | relayList urls => saveRelayList lib urls

/-- The file behind a save; a stream that is not opened leaves it. -/
def fileAfter (lib : JsonText) (opens : Bool) (file : Option Bytes) (s : Save) : Option Bytes :=
  if opens then some (s.saved lib).1 else file

def Utf8 : Save → Prop
  | achievements as => ∀ a ∈ as, a.utf8 = true
  | messages _ ms => ∀ m ∈ ms, m.utf8 = true
  | nodes ns => ∀ n ∈ ns, n.utf8 = true
  | profile pubkey displayName bio =>
      utf8 pubkey = true ∧ utf8 displayName = true ∧ utf8 bio = true
  | friends _ friendPubkeys => ∀ pubkey ∈ friendPubkeys, utf8 pubkey = true
  | relayList urls => ∀ url ∈ urls, utf8 url = true

/-- If the save throws, the file is what it was. -/
def DestroysNothing (lib : JsonText) (opens : Bool) (file : Option Bytes) (s : Save) : Prop :=
  (s.saved lib).2 ≠ none → s.fileAfter lib opens file = file

variable {lib : JsonText} {s : Save} {opens : Bool} {file : Option Bytes}

/-- Rendering is the one step that throws, and it does for a text that is not UTF-8. -/
theorem saved_iff (lib : JsonText) : (s.saved lib).2 = none ↔ s.Utf8 := by
  cases s with
  | achievements as => exact saveAchievements_iff
  | messages nodeId ms => exact RecordCodec.save_iff
  | nodes ns => exact RecordCodec.save_iff
  | profile pubkey displayName bio => exact saveProfile_iff
  | friends pubkey friendPubkeys => exact RecordCodec.save_iff
  | relayList urls => exact RecordCodec.save_iff

theorem saved_of_throws (h : (s.saved lib).2 ≠ none) : (s.saved lib).1 = [] := by
  cases s with
  | achievements as => exact Persistence.saved_of_throws h
  | messages nodeId ms => exact RecordCodec.saved_of_throws h
  | nodes ns => exact RecordCodec.saved_of_throws h
  | profile pubkey displayName bio => exact JsonText.streamed_of_throws h
  | friends pubkey friendPubkeys => exact RecordCodec.saved_of_throws h
  | relayList urls => exact RecordCodec.saved_of_throws h

end Save

/-- A save destroys nothing exactly if it cannot throw, does not get at the file, or finds
it empty. -/
theorem destroysNothing_iff (lib : JsonText) (opens : Bool) (file : Option Bytes) (s : Save) :
    s.DestroysNothing lib opens file ↔ s.Utf8 ∨ opens = false ∨ file = some [] := by
  rw [← Save.saved_iff lib]
  constructor
  · intro h
    by_cases hthrows : (s.saved lib).2 = none
    · exact .inl hthrows
    · have hkept := h hthrows
      rw [Save.fileAfter, Save.saved_of_throws hthrows] at hkept
      cases opens with
      | false => exact .inr (.inl rfl)
      | true => exact .inr (.inr hkept.symm)
  · intro h hthrows
    rw [Save.fileAfter, Save.saved_of_throws hthrows]
    obtain hsaved | rfl | rfl := h
    · exact absurd hsaved hthrows
    · rfl
    · cases opens <;> rfl

def lanStored : StoredNode where
  id := lit "7"
  name := lit "LAN party"
  description := []
  creatorPubkey := []
  adminPrivkey := []
  relayUrl := []
  createdAt := 1700000000
  memberCount := 1
  isLocal := true
  running := true

/-- One byte in the name of a second node empties the file of both. -/
theorem failed_save_empties_file :
    (∀ lib file,
      (Save.nodes [lanStored, { lanStored with name := [0xFF] }]).fileAfter lib true file =
        some []) ∧
      ¬ ∀ lib opens file s, Save.DestroysNothing lib opens file s := by
  have hutf8 : ¬ (Save.nodes [lanStored, { lanStored with name := [0xFF] }]).Utf8 := by
    intro h
    exact absurd (h { lanStored with name := [0xFF] } (by simp)) (by decide)
  have hempty : ∀ lib file,
      (Save.nodes [lanStored, { lanStored with name := [0xFF] }]).fileAfter lib true file =
        some [] := by
    intro lib file
    have hthrows := fun hsaved => hutf8 ((Save.saved_iff lib).mp hsaved)
    rw [Save.fileAfter, if_pos rfl, Save.saved_of_throws hthrows]
  refine ⟨hempty, fun hall => ?_⟩
  have hkept := hall Json.codec true (some (saveNodes Json.codec [lanStored]).1)
    (.nodes [lanStored, { lanStored with name := [0xFF] }])
    fun hsaved => hutf8 ((Save.saved_iff _).mp hsaved)
  have hsaved : (saveNodes Json.codec [lanStored]).2 = none := by
    refine RecordCodec.save_iff.mpr ?_
    decide
  have hparse := StoredNode.codec.parse_saved hsaved
  rw [hempty, Option.some.injEq] at hkept
  have hnone : Json.codec.parse (saveNodes Json.codec [lanStored]).1 = none := by
    rw [← hkept]
    exact Json.codec.parse_nil
  rw [saveNodes, hparse] at hnone
  cases hnone

end LinuxLive
