import LinuxLive.Core.FriendsFile
import LinuxLive.Core.NodesFile

/-!
# The profile and the list of relays

`Persistence::save_profile`, `load_profile`, `save_relay_list` and `load_relay_list` on the
content of their files.
-/

namespace LinuxLive.Persistence

open Json

def profileJson (pubkey displayName bio : Bytes) : Json :=
  object [
    (lit "pubkey", .str pubkey),
    (lit "display_name", .str displayName),
    (lit "bio", .str bio)]

def saveProfile (lib : JsonText) (pubkey displayName bio : Bytes) : Bytes × Option JsonError :=
  lib.streamed (profileJson pubkey displayName bio)

/-- What `load_profile` makes of the two strings that it is given. -/
structure LoadedProfile where
  ok : Bool
  displayName : Bytes
  bio : Bytes
  deriving DecidableEq

def loadProfile (lib : JsonText) (file : Option Bytes) (displayName bio : Bytes) : LoadedProfile :=
  match file.bind lib.parse with
  | none => ⟨false, displayName, bio⟩
  | some j =>
      match j.index (lit "display_name") >>= getString with
      | .error _ => ⟨false, displayName, bio⟩
      | .ok displayName =>
          match j.value getString (lit "bio") [] with
          | .error _ => ⟨false, displayName, bio⟩
          | .ok bio => ⟨true, displayName, bio⟩

/-- An array of texts, as for the friends. -/
def saveRelayList (lib : JsonText) (urls : List Bytes) : Bytes × Option JsonError :=
  friendCodec.save lib urls

/-- Without a list the configured relay stands for it. -/
def loadRelayList (lib : JsonText) (file config : Option Bytes) : List Bytes :=
  match file with
  | none =>
      let single := loadRelayUrl lib config
      if single = [] then [] else [single]
  | some text => friendCodec.load lib (some text)

section profile

variable {lib : JsonText} {pubkey displayName bio : Bytes} {urls : List Bytes}

theorem profileJson_eq (pubkey displayName bio : Bytes) :
    profileJson pubkey displayName bio = .obj [
    (lit "bio", .str bio),
    (lit "display_name", .str displayName),
    (lit "pubkey", .str pubkey)] := rfl

theorem canonical_profileJson (pubkey displayName bio : Bytes) :
    (profileJson pubkey displayName bio).canonical = true := canonical_object (by simp)

theorem utf8_profileJson (pubkey displayName bio : Bytes) :
    (profileJson pubkey displayName bio).utf8 = true ↔
      utf8 pubkey = true ∧ utf8 displayName = true ∧ utf8 bio = true := by
  rw [profileJson_eq, utf8_obj]
  simp only [List.forall_mem_cons, utf8_lit, utf8_str]
  constructor
  · intro h
    obtain ⟨⟨_, hbio⟩, ⟨_, hname⟩, ⟨_, hpubkey⟩, _⟩ := h
    exact ⟨hpubkey, hname, hbio⟩
  · intro h
    obtain ⟨hpubkey, hname, hbio⟩ := h
    simp [hpubkey, hname, hbio]

theorem saveProfile_iff : (saveProfile lib pubkey displayName bio).2 = none ↔
    utf8 pubkey = true ∧ utf8 displayName = true ∧ utf8 bio = true := by
  rw [← utf8_profileJson, saveProfile, JsonText.streamed_iff]

theorem loadProfile_saved (h : (saveProfile lib pubkey displayName bio).2 = none)
    (name text : Bytes) :
    loadProfile lib (some (saveProfile lib pubkey displayName bio).1) name text =
      ⟨true, displayName, bio⟩ := by
  have hname : (profileJson pubkey displayName bio).index (lit "display_name") =
      .ok (.str displayName) := index_of_field? rfl
  have hbio : (profileJson pubkey displayName bio).value getString (lit "bio") [] = .ok bio :=
    (value_of_field? rfl).trans rfl
  have hparse : lib.parse (saveProfile lib pubkey displayName bio).1 =
      some (profileJson pubkey displayName bio) :=
    JsonText.parse_streamed (canonical_profileJson _ _ _) h
  rw [loadProfile, Option.bind_some, hparse]
  simp only [hname, hbio, bind, Except.bind, getString]

theorem loadRelayList_saved (h : (saveRelayList lib urls).2 = none) (config : Option Bytes) :
    loadRelayList lib (some (saveRelayList lib urls).1) config = urls :=
  friendCodec.load_saved h

end profile

end LinuxLive.Persistence
