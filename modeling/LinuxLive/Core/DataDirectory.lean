import LinuxLive.Core.MessagesFile
import LinuxLive.Core.Persistence
import LinuxLive.Core.ProfileFile
import LinuxLive.Lib.Machines
import LinuxLive.Lib.Paths

/-!
# The data directory

The files behind `Persistence`, by the paths that it makes for them, and the saves and loads
over these files.  They behave as values that are kept apart, each replaced by its saves.
-/

namespace LinuxLive

def EnvText := { text : Bytes // 0 ∉ text }

def IdentityManager.dataDir (home user : Option EnvText) : Bytes :=
  let home : Option EnvText := home.or user
  home.elim (lit "/tmp") Subtype.val ++ lit "/" ++ lit ".lili"

theorem IdentityManager.notMem_dataDir (home user : Option EnvText) : 0 ∉ dataDir home user := by
  have hend : 0 ∉ lit "/" ++ lit ".lili" := by decide
  unfold dataDir
  rw [List.append_assoc, List.mem_append]
  cases home.or user with
  | none => exact fun h => h.elim (by decide) hend
  | some home => exact fun h => h.elim home.2 hend

/-- A key or an id that can stand in the name of a file. -/
def NameText := { text : Bytes // 47 ∉ text ∧ 0 ∉ text }
  deriving DecidableEq

def NameText.short (pubkey : NameText) : NameText :=
  ⟨pubkey.1.take 16, fun h => pubkey.2.1 (List.mem_of_mem_take h),
    fun h => pubkey.2.2 (List.mem_of_mem_take h)⟩

/-- The files of the data directory; a profile and a friend list by the first 16
characters of their key. -/
inductive DataFile where
  | identity
  | achievements
  | nodes
  | relayConfig
  | relayList
  | messages (nodeId : NameText)
  | profile (key : NameText)
  | friends (key : NameText)
  deriving DecidableEq

namespace DataFile

def name : DataFile → Bytes
  | .identity => lit "identity.json"
  | .achievements => lit "achievements.json"
  | .nodes => lit "nodes.json"
  | .relayConfig => lit "config.json"
  | .relayList => lit "relay_list.json"
  | .messages nodeId => nodeId.1 ++ lit ".json"
  | .profile key => lit "profile_" ++ key.1 ++ lit ".json"
  | .friends key => lit "friends_" ++ key.1 ++ lit ".json"

def path (dataDir : Bytes) (f : DataFile) : Bytes :=
  match f with
  | .messages _ => dataDir ++ lit "/messages" ++ lit "/" ++ f.name
  | _ => dataDir ++ lit "/" ++ f.name

/-! ## Different files -/

theorem isName_json {text : Bytes} (hslash : 47 ∉ text) (hzero : 0 ∉ text) :
    Paths.IsName (text ++ lit ".json") := by
  have hjson : 47 ∉ lit ".json" ∧ 0 ∉ lit ".json" := by decide
  have hlength : 5 ≤ (text ++ lit ".json").length := by
    rw [List.length_append]
    exact Nat.le_add_left 5 _
  have hne : ∀ short : Bytes, short.length < 5 → text ++ lit ".json" ≠ short := by
    intro short hshort heq
    rw [heq] at hlength
    omega
  refine ⟨hne _ (by decide), hne _ (by decide), hne _ (by decide), ?_, ?_⟩
  · simp [hslash, hjson.1]
  · simp [hzero, hjson.2]

theorem isName_name (f : DataFile) : Paths.IsName f.name := by
  have hjoin : ∀ (start : Bytes) (key : NameText), 47 ∉ start → 0 ∉ start →
      Paths.IsName (start ++ key.1 ++ lit ".json") := by
    intro start key hslash hzero
    have hkey := key.2
    exact isName_json (by simp [hslash, hkey.1]) (by simp [hzero, hkey.2])
  cases f with
  | messages nodeId => exact isName_json nodeId.2.1 nodeId.2.2
  | profile key => exact hjoin _ key (by decide) (by decide)
  | friends key => exact hjoin _ key (by decide) (by decide)
  | _ => decide

def names (f : DataFile) : List Bytes :=
  match f with
  | .messages _ => [lit "messages", f.name]
  | _ => [f.name]

theorem resolve_path {dataDir : Bytes} (hdir : 0 ∉ dataDir) (f : DataFile) :
    Paths.resolve (f.path dataDir) = Paths.resolve dataDir ++ f.names := by
  have hname := isName_name f
  have hslash : ∀ text : Bytes, dataDir ++ lit "/" ++ text = dataDir ++ 47 :: text := by
    intro text
    rw [List.append_assoc]
    rfl
  cases f with
  | messages nodeId =>
      have hmessages : Paths.IsName (lit "messages") := by decide
      have hdir' : 0 ∉ dataDir ++ 47 :: lit "messages" := by
        simp [hdir, hmessages.2.2.2.2]
      have hpath : (messages nodeId).path dataDir =
          (dataDir ++ 47 :: lit "messages") ++ 47 :: (messages nodeId).name := by
        rw [path, List.append_assoc _ (lit "/")]
        rfl
      rw [hpath, Paths.resolve_child hdir' hname, Paths.resolve_child hdir hmessages,
        List.append_assoc]
      rfl
  | _ => exact (congrArg _ (hslash _)).trans (Paths.resolve_child hdir hname)

/-- The first letters tell the files of the directory apart; those of the messages are in a
directory of their own. -/
def letter : DataFile → UInt8
  | .identity => 105
  | .achievements => 97
  | .nodes => 110
  | .relayConfig => 99
  | .relayList => 114
  | .messages _ => 0
  | .profile _ => 112
  | .friends _ => 102

theorem head_name {f : DataFile} (hf : f.names.length = 1) : f.name.head? = some f.letter := by
  cases f with
  | messages nodeId => cases hf
  | _ => rfl

theorem name_eq {f g : DataFile} (h : f.names = g.names) : f.name = g.name := by
  have hlast : ∀ f : DataFile, f.names.getLast? = some f.name := by
    intro f
    cases f <;> rfl
  rw [← Option.some.injEq, ← hlast, ← hlast, h]

theorem letter_eq {f g : DataFile} (h : f.names = g.names) : f.letter = g.letter := by
  have hlength := congrArg List.length h
  by_cases hf : f.names.length = 1
  · rw [← Option.some.injEq, ← head_name hf, ← head_name (hlength ▸ hf), name_eq h]
  · cases f with
    | messages nodeId =>
        cases g with
        | messages nodeId' => rfl
        | _ => cases hlength
    | _ => exact absurd rfl hf

theorem names_inj {f g : DataFile} (h : f.names = g.names) : f = g := by
  have hletter := letter_eq h
  have hname := name_eq h
  have hkey : ∀ (start : Bytes) {key key' : NameText},
      start ++ key.1 ++ lit ".json" = start ++ key'.1 ++ lit ".json" → key = key' := by
    intro start key key' heq
    rw [List.append_cancel_right_eq, List.append_cancel_left_eq] at heq
    exact Subtype.ext heq
  cases f with
  | messages nodeId =>
      cases g with
      | messages nodeId' => rw [hkey [] hname]
      | _ => simp [letter] at hletter
  | profile key =>
      cases g with
      | profile key' => rw [hkey _ hname]
      | _ => simp [letter] at hletter
  | friends key =>
      cases g with
      | friends key' => rw [hkey _ hname]
      | _ => simp [letter] at hletter
  | _ => cases g <;> first | rfl | simp [letter] at hletter

theorem resolve_path_inj {dataDir : Bytes} (hdir : 0 ∉ dataDir) {f g : DataFile} :
    Paths.resolve (f.path dataDir) = Paths.resolve (g.path dataDir) ↔ f = g := by
  constructor
  · intro h
    rw [resolve_path hdir, resolve_path hdir, List.append_cancel_left_eq] at h
    exact names_inj h
  · intro h
    rw [h]

end DataFile

/-! ## The calls -/

namespace Persistence

/-- The methods of `Persistence` that work on the data directory. -/
inductive Call where
  | saveAchievements (achievements : List StoredAchievement)
  | loadAchievements
  | saveMessages (nodeId : NameText) (messages : List StoredMessage)
  | loadMessages (nodeId : NameText)
  | saveNodes (nodes : List StoredNode)
  | loadNodes
  | saveProfile (pubkey : NameText) (displayName bio : Bytes)
  | loadProfile (pubkey : NameText) (displayName bio : Bytes)
  | saveRelayUrl (url : Bytes)
  | loadRelayUrl
  | saveFriends (pubkey : NameText) (friendPubkeys : List Bytes)
  | loadFriends (pubkey : NameText)
  | saveRelayList (urls : List Bytes)
  | loadRelayList

/-- What a call returns; nothing can be said of what comes behind an undefined one. -/
inductive Answer where
  | saved (good : Bool)
  | threw (e : JsonError)
  | undefined
  | achievements (achievements : List StoredAchievement)
  | messages (messages : List StoredMessage)
  | nodes (nodes : List StoredNode)
  | profile (profile : LoadedProfile)
  | relayUrl (url : Bytes)
  | friends (friendPubkeys : List Bytes)
  | relayList (urls : List Bytes)

abbrev Files := List Bytes → Option Bytes

/-- The streams that open, when a call makes them. -/
abbrev Opens := DataFile → Bool

section calls

variable (lib : JsonText) (dataDir : Bytes)

def relayUrlJson (url : Bytes) : Json := Json.object [(lit "relay_url", .str url)]

def saveRelayUrl (url : Bytes) : Bytes × Option JsonError := lib.streamed (relayUrlJson url)

def read (files : Files) (f : DataFile) : Option Bytes := files (Paths.resolve (f.path dataDir))

/-- What a load has of a file; `none` is a stream that does not open. -/
def stream (files : Files) (opens : Opens) (f : DataFile) : Option Bytes :=
  if opens f then read dataDir files f else none

def write (files : Files) (f : DataFile) (opens : Opens) (saved : Bytes × Option JsonError) :
    Files × Answer :=
  (if opens f then Function.update files (Paths.resolve (f.path dataDir)) (some saved.1) else files,
    match saved.2 with
    | none => .saved (opens f)
    | some e => .threw e)

def call : Machine Files (Call × Opens) Answer
  | files, (.saveAchievements achievements, opens) =>
      write dataDir files .achievements opens (saveAchievements lib achievements)
  | files, (.loadAchievements, opens) =>
      let file := stream dataDir files opens .achievements
      (files, if Persistence.codec.loads lib file then .achievements (loadAchievements lib file)
        else .undefined)
  | files, (.saveMessages nodeId messages, opens) =>
      write dataDir files (.messages nodeId) opens (saveMessages lib messages)
  | files, (.loadMessages nodeId, opens) =>
      let file := stream dataDir files opens (.messages nodeId)
      (files, if StoredMessage.codec.loads lib file then .messages (loadMessages lib file)
        else .undefined)
  | files, (.saveNodes nodes, opens) =>
      write dataDir files .nodes opens (saveNodes lib nodes)
  | files, (.loadNodes, opens) =>
      let file := stream dataDir files opens .nodes
      (files, if StoredNode.codec.loads lib file then .nodes (loadNodes lib file) else .undefined)
  | files, (.saveProfile pubkey displayName bio, opens) =>
      write dataDir files (.profile pubkey.short) opens (saveProfile lib pubkey.1 displayName bio)
  | files, (.loadProfile pubkey displayName bio, opens) =>
      (files, .profile
        (loadProfile lib (stream dataDir files opens (.profile pubkey.short)) displayName bio))
  | files, (.saveRelayUrl url, opens) =>
      write dataDir files .relayConfig opens (saveRelayUrl lib url)
  | files, (.loadRelayUrl, opens) =>
      (files, .relayUrl (loadRelayUrl lib (stream dataDir files opens .relayConfig)))
  | files, (.saveFriends pubkey friendPubkeys, opens) =>
      write dataDir files (.friends pubkey.short) opens (saveFriends lib friendPubkeys)
  | files, (.loadFriends pubkey, opens) =>
      (files, .friends (loadFriends lib (stream dataDir files opens (.friends pubkey.short))))
  | files, (.saveRelayList urls, opens) =>
      write dataDir files .relayList opens (saveRelayList lib urls)
  | files, (.loadRelayList, opens) =>
      (files, .relayList (loadRelayList lib (stream dataDir files opens .relayList)
        (stream dataDir files opens .relayConfig)))

end calls

/-! ## The values -/

def LoadedProfile.found (displayName bio : Bytes) (_ _ : Bytes) : LoadedProfile :=
  ⟨true, displayName, bio⟩

def LoadedProfile.missing (displayName bio : Bytes) : LoadedProfile := ⟨false, displayName, bio⟩

/-- What the data directory is for.  `none` is a list with a record that lacks a mandatory
field, so that its load is undefined. -/
structure Stores where
  achievements : Option (List StoredAchievement)
  messages : NameText → Option (List StoredMessage)
  nodes : Option (List StoredNode)
  profile : NameText → Bytes → Bytes → LoadedProfile
  relayUrl : Bytes
  friends : NameText → List Bytes
  /-- `none`: a list was never saved. -/
  relayList : Option (List Bytes)

namespace Stores

/-- A new value takes the place of the old one, or one that can not be written empties it. -/
def replace (c : Stores) (opens : Bool) (fits : Prop) [Decidable fits] (new empty : Stores) :
    Stores × Answer :=
  (if opens then if fits then new else empty else c,
    if fits then .saved opens else .threw .invalidUtf8316)

/-- The list that was saved, else the one relay; a stream that does not open is as if nothing
was ever saved. -/
def relays (c : Stores) (opens : Opens) : List Bytes :=
  match if opens .relayList then c.relayList else none with
  | some urls => urls
  | none =>
      let url := if opens .relayConfig then c.relayUrl else defaultRelayUrl
      if url = [] then [] else [url]

def loaded {α : Type} (answer : List α → Answer) (opens : Bool) (value : Option (List α)) : Answer :=
  if opens then value.elim .undefined answer else answer []

def call : Machine Stores (Call × Opens) Answer
  | c, (.saveAchievements achievements, opens) =>
      c.replace (opens .achievements) (∀ a ∈ achievements, a.utf8 = true)
        { c with achievements := some achievements } { c with achievements := some [] }
  | c, (.loadAchievements, opens) =>
      (c, loaded .achievements (opens .achievements) c.achievements)
  | c, (.saveMessages nodeId messages, opens) =>
      c.replace (opens (.messages nodeId)) (∀ m ∈ messages, m.utf8 = true)
        { c with messages := Function.update c.messages nodeId (some messages) }
        { c with messages := Function.update c.messages nodeId (some []) }
  | c, (.loadMessages nodeId, opens) =>
      (c, loaded .messages (opens (.messages nodeId)) (c.messages nodeId))
  | c, (.saveNodes nodes, opens) =>
      c.replace (opens .nodes) (∀ n ∈ nodes, n.utf8 = true)
        { c with nodes := some nodes } { c with nodes := some [] }
  | c, (.loadNodes, opens) => (c, loaded .nodes (opens .nodes) c.nodes)
  | c, (.saveProfile pubkey displayName bio, opens) =>
      c.replace (opens (.profile pubkey.short))
        (utf8 pubkey.1 = true ∧ utf8 displayName = true ∧ utf8 bio = true)
        { c with profile := Function.update c.profile pubkey.short (.found displayName bio) }
        { c with profile := Function.update c.profile pubkey.short .missing }
  | c, (.loadProfile pubkey displayName bio, opens) =>
      (c, .profile (if opens (.profile pubkey.short) then c.profile pubkey.short displayName bio
        else .missing displayName bio))
  | c, (.saveRelayUrl url, opens) =>
      c.replace (opens .relayConfig) (utf8 url = true) { c with relayUrl := url }
        { c with relayUrl := defaultRelayUrl }
  | c, (.loadRelayUrl, opens) =>
      (c, .relayUrl (if opens .relayConfig then c.relayUrl else defaultRelayUrl))
  | c, (.saveFriends pubkey friendPubkeys, opens) =>
      c.replace (opens (.friends pubkey.short)) (∀ key ∈ friendPubkeys, utf8 key = true)
        { c with friends := Function.update c.friends pubkey.short friendPubkeys }
        { c with friends := Function.update c.friends pubkey.short [] }
  | c, (.loadFriends pubkey, opens) =>
      (c, .friends (if opens (.friends pubkey.short) then c.friends pubkey.short else []))
  | c, (.saveRelayList urls, opens) =>
      c.replace (opens .relayList) (∀ url ∈ urls, utf8 url = true)
        { c with relayList := some urls } { c with relayList := some [] }
  | c, (.loadRelayList, opens) => (c, .relayList (c.relays opens))

/-- What the contents of the files stand for. -/
def ofReads (lib : JsonText) (get : DataFile → Option Bytes) : Stores where
  achievements := Persistence.codec.load? lib (get .achievements)
  messages := fun nodeId => StoredMessage.codec.load? lib (get (.messages nodeId))
  nodes := StoredNode.codec.load? lib (get .nodes)
  profile := fun key => loadProfile lib (get (.profile key))
  relayUrl := loadRelayUrl lib (get .relayConfig)
  friends := fun key => loadFriends lib (get (.friends key))
  relayList := (get .relayList).map fun text => friendCodec.load lib (some text)

def ofFiles (lib : JsonText) (dataDir : Bytes) (files : Files) : Stores :=
  ofReads lib (read dataDir files)

section reads

variable {lib : JsonText} {get : DataFile → Option Bytes} {file : Option Bytes} {key : NameText}

theorem ofReads_achievements : ofReads lib (Function.update get .achievements file) =
    { ofReads lib get with achievements := Persistence.codec.load? lib file } := by
  simp [ofReads]

theorem ofReads_nodes : ofReads lib (Function.update get .nodes file) =
    { ofReads lib get with nodes := StoredNode.codec.load? lib file } := by
  simp [ofReads]

theorem ofReads_relayConfig : ofReads lib (Function.update get .relayConfig file) =
    { ofReads lib get with relayUrl := loadRelayUrl lib file } := by
  simp [ofReads]

theorem ofReads_relayList (text : Bytes) :
    ofReads lib (Function.update get .relayList (some text)) =
      { ofReads lib get with relayList := some (friendCodec.load lib (some text)) } := by
  simp [ofReads]

theorem update_family {α : Type} (load : Option Bytes → α) {family : NameText → DataFile}
    (hfamily : Function.Injective family) :
    (fun k => load (Function.update get (family key) file (family k))) =
      Function.update (fun k => load (get (family k))) key (load file) := by
  funext k
  by_cases hk : k = key
  · subst hk
    rw [Function.update_self, Function.update_self]
  · rw [Function.update_of_ne (hfamily.ne hk), Function.update_of_ne hk]

theorem ofReads_messages : ofReads lib (Function.update get (.messages key) file) =
    { ofReads lib get with
      messages := Function.update (ofReads lib get).messages key
        (StoredMessage.codec.load? lib file) } := by
  have hfamily : Function.Injective DataFile.messages := fun _ _ h => by injection h
  simp [ofReads, update_family _ hfamily]

theorem ofReads_profile : ofReads lib (Function.update get (.profile key) file) =
    { ofReads lib get with
      profile := Function.update (ofReads lib get).profile key (loadProfile lib file) } := by
  have hfamily : Function.Injective DataFile.profile := fun _ _ h => by injection h
  simp [ofReads, update_family _ hfamily]

theorem ofReads_friends : ofReads lib (Function.update get (.friends key) file) =
    { ofReads lib get with
      friends := Function.update (ofReads lib get).friends key (loadFriends lib file) } := by
  have hfamily : Function.Injective DataFile.friends := fun _ _ h => by injection h
  simp [ofReads, update_family _ hfamily]

end reads

section refines

variable {lib : JsonText} {dataDir : Bytes} {files : Files} {f : DataFile} {j : Json}
  {opens : Opens} {fits : Prop} [Decidable fits]

theorem read_update (hdir : 0 ∉ dataDir) (file : Option Bytes) :
    read dataDir (Function.update files (Paths.resolve (f.path dataDir)) file) =
      Function.update (read dataDir files) f file := by
  funext g
  simp only [read, Function.update_apply, DataFile.resolve_path_inj hdir]

/-- A save replaces the value of its file: by the new one, or, if that can not be written, by
what an empty file stands for. -/
theorem write_refines {saved : Bytes × Option JsonError} {new empty : Stores} (hdir : 0 ∉ dataDir)
    (hsaved : saved = lib.streamed j) (hfits : saved.2 = none ↔ fits)
    (hnew : saved.2 = none →
      ofReads lib (Function.update (read dataDir files) f (some saved.1)) = new)
    (hempty : ofReads lib (Function.update (read dataDir files) f (some [])) = empty) :
    ofFiles lib dataDir (write dataDir files f opens saved).1 =
        ((ofFiles lib dataDir files).replace (opens f) fits new empty).1 ∧
      (write dataDir files f opens saved).2 =
        ((ofFiles lib dataDir files).replace (opens f) fits new empty).2 := by
  by_cases hf : fits
  · have hgood := hfits.mpr hf
    cases hopens : opens f with
    | false => simp [write, replace, hf, hgood, hopens]
    | true => simp [write, replace, hf, hgood, hopens, ofFiles, read_update hdir, hnew]
  · have hthrows : saved.2 ≠ none := fun h => hf (hfits.mp h)
    have hnothing : saved = ([], some .invalidUtf8316) := by
      subst hsaved
      unfold JsonText.streamed at hthrows ⊢
      split
      · rfl
      · rename_i hdump
        simp [hdump] at hthrows
    subst hnothing
    cases hopens : opens f with
    | false => simp [write, replace, hf, hopens]
    | true => simp [write, replace, hf, hopens, ofFiles, read_update hdir, hempty]

theorem relayUrlJson_eq (url : Bytes) : relayUrlJson url = .obj [(lit "relay_url", .str url)] := rfl

theorem saveRelayUrl_iff {url : Bytes} : (saveRelayUrl lib url).2 = none ↔ utf8 url = true := by
  rw [saveRelayUrl, JsonText.streamed_iff, relayUrlJson_eq, Json.utf8_obj]
  simp

theorem loadRelayUrl_saved {url : Bytes} (h : (saveRelayUrl lib url).2 = none) :
    loadRelayUrl lib (some (saveRelayUrl lib url).1) = url := by
  have hindex : (relayUrlJson url).index (lit "relay_url") = .ok (.str url) :=
    Json.index_of_field? rfl
  have hparse : lib.parse (saveRelayUrl lib url).1 = some (relayUrlJson url) :=
    JsonText.parse_streamed (Json.canonical_object (by simp)) h
  rw [loadRelayUrl, Option.bind_some, hparse]
  simp only [hindex]
  rfl

theorem loadRelayUrl_nil : loadRelayUrl lib (some []) = defaultRelayUrl := by
  rw [loadRelayUrl, Option.bind_some, lib.parse_nil]

theorem loadProfile_nil : loadProfile lib (some []) = LoadedProfile.missing := by
  funext displayName bio
  rw [loadProfile, Option.bind_some, lib.parse_nil]
  rfl

theorem loadProfile_found {pubkey displayName bio : Bytes}
    (h : (saveProfile lib pubkey displayName bio).2 = none) :
    loadProfile lib (some (saveProfile lib pubkey displayName bio).1) = .found displayName bio := by
  funext name text
  exact loadProfile_saved h name text

theorem load_refines {α : Type} {codec : RecordCodec α} (answer : List α → Answer) (files : Files)
    (opens : Opens) (f : DataFile) :
    (if codec.loads lib (stream dataDir files opens f) then
        answer (codec.load lib (stream dataDir files opens f))
      else .undefined) =
      loaded answer (opens f) (codec.load? lib (read dataDir files f)) := by
  unfold stream loaded RecordCodec.load?
  cases opens f with
  | false => rfl
  | true =>
      rw [if_pos rfl, if_pos rfl]
      split <;> rfl

theorem loadRelayList_refines (files : Files) (opens : Opens) :
    loadRelayList lib (stream dataDir files opens .relayList)
        (stream dataDir files opens .relayConfig) =
      (ofFiles lib dataDir files).relays opens := by
  have hurl : loadRelayUrl lib (stream dataDir files opens .relayConfig) =
      if opens .relayConfig then (ofFiles lib dataDir files).relayUrl else defaultRelayUrl := by
    unfold stream
    split <;> rfl
  have hlist : (if opens .relayList then (ofFiles lib dataDir files).relayList else none) =
      (stream dataDir files opens .relayList).map fun text =>
        friendCodec.load lib (some text) := by
    unfold stream
    split <;> rfl
  unfold loadRelayList relays
  rw [hurl, hlist]
  cases stream dataDir files opens .relayList <;> rfl

/-- With the files and with the values the calls do the same. -/
theorem call_refines (hdir : 0 ∉ dataDir) :
    Machine.Refines (Persistence.call lib dataDir) Stores.call
      fun files c => ofFiles lib dataDir files = c := by
  intro files _ a hc
  subst hc
  obtain ⟨c, opens⟩ := a
  cases c with
  | saveAchievements achievements =>
      refine write_refines hdir rfl saveAchievements_iff (fun hgood => ?_) ?_
      · have hload : Persistence.codec.load? lib (some (saveAchievements lib achievements).1) =
            some achievements := Persistence.codec.load?_saved hgood
        rw [ofReads_achievements, hload]
        rfl
      · rw [ofReads_achievements, RecordCodec.load?_nil]
        rfl
  | saveMessages nodeId messages =>
      refine write_refines hdir rfl RecordCodec.save_iff (fun hgood => ?_) ?_
      · rw [ofReads_messages, saveMessages, RecordCodec.load?_saved hgood]
        rfl
      · rw [ofReads_messages, RecordCodec.load?_nil]
        rfl
  | saveNodes nodes =>
      refine write_refines hdir rfl RecordCodec.save_iff (fun hgood => ?_) ?_
      · rw [ofReads_nodes, saveNodes, RecordCodec.load?_saved hgood]
        rfl
      · rw [ofReads_nodes, RecordCodec.load?_nil]
        rfl
  | saveProfile pubkey displayName bio =>
      refine write_refines hdir rfl saveProfile_iff (fun hgood => ?_) ?_
      · rw [ofReads_profile, loadProfile_found hgood]
        rfl
      · rw [ofReads_profile, loadProfile_nil]
        rfl
  | saveRelayUrl url =>
      refine write_refines hdir rfl saveRelayUrl_iff (fun hgood => ?_) ?_
      · rw [ofReads_relayConfig, loadRelayUrl_saved hgood]
        rfl
      · rw [ofReads_relayConfig, loadRelayUrl_nil]
        rfl
  | saveFriends pubkey friendPubkeys =>
      refine write_refines hdir rfl RecordCodec.save_iff (fun hgood => ?_) ?_
      · rw [ofReads_friends, loadFriends, saveFriends, RecordCodec.load_saved hgood]
        rfl
      · rw [ofReads_friends, loadFriends, RecordCodec.load_nil]
        rfl
  | saveRelayList urls =>
      refine write_refines hdir rfl RecordCodec.save_iff (fun hgood => ?_) ?_
      · rw [ofReads_relayList, saveRelayList, RecordCodec.load_saved hgood]
        rfl
      · rw [ofReads_relayList, RecordCodec.load_nil]
        rfl
  | loadAchievements =>
      refine ⟨rfl, ?_⟩
      simp only [Persistence.call, loadAchievements_eq]
      exact load_refines .achievements files opens .achievements
  | loadMessages nodeId =>
      exact ⟨rfl, load_refines .messages files opens (.messages nodeId)⟩
  | loadNodes => exact ⟨rfl, load_refines .nodes files opens .nodes⟩
  | loadProfile pubkey displayName bio =>
      refine ⟨rfl, congrArg Answer.profile ?_⟩
      unfold stream
      split <;> rfl
  | loadRelayUrl =>
      refine ⟨rfl, congrArg Answer.relayUrl ?_⟩
      unfold stream
      split <;> rfl
  | loadFriends pubkey =>
      refine ⟨rfl, congrArg Answer.friends ?_⟩
      unfold stream
      split <;> rfl
  | loadRelayList => exact ⟨rfl, congrArg Answer.relayList (loadRelayList_refines files opens)⟩

/-- A call changes no file but the ones behind the calls. -/
theorem call_other {path : List Bytes} (hpath : ∀ f : DataFile, f ≠ .identity →
      path ≠ Paths.resolve (f.path dataDir)) (a : Call × Opens) :
    (Persistence.call lib dataDir files a).1 path = files path := by
  have hwrite : ∀ (f : DataFile) (saved : Bytes × Option JsonError), f ≠ .identity →
      (write dataDir files f a.2 saved).1 path = files path := by
    intro f saved hf
    unfold write
    split
    · exact Function.update_of_ne (hpath f hf) ..
    · rfl
  obtain ⟨c, opens⟩ := a
  cases c <;> first | rfl | exact hwrite _ _ (by simp)

end refines

/-- Over any sequence of calls the files behave as the values do, and no other file of the
data directory is touched. -/
theorem calls_agree (lib : JsonText) (home user : Option EnvText) (files : Files)
    (calls : List (Call × Opens)) :
    (Persistence.call lib (IdentityManager.dataDir home user)).answers files calls =
        Machine.answers Stores.call (ofFiles lib (IdentityManager.dataDir home user) files) calls ∧
      ∀ path : List Bytes,
        (∀ f : DataFile, f ≠ .identity →
          path ≠ Paths.resolve (f.path (IdentityManager.dataDir home user))) →
        (Persistence.call lib (IdentityManager.dataDir home user)).after files calls path =
          files path := by
  constructor
  · exact (call_refines (IdentityManager.notMem_dataDir home user)).answers rfl calls
  · intro path hpath
    refine Machine.after_keeps (P := fun now : Files => now path = files path) ?_ rfl calls
    intro now a hnow
    exact (call_other hpath a).trans hnow

end Stores

end Persistence

end LinuxLive
