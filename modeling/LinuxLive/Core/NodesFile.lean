import LinuxLive.Core.ExportFile
import LinuxLive.Lib.RecordFormat

/-!
# `nodes.json` and `config.json`

`Persistence::save_nodes` and `load_nodes`, and `load_relay_url`, on the content of the
files.
-/

namespace LinuxLive

open Json

structure StoredNode where
  id : Bytes
  name : Bytes
  description : Bytes
  creatorPubkey : Bytes
  adminPrivkey : Bytes
  relayUrl : Bytes
  createdAt : UInt64
  memberCount : Int32
  isLocal : Bool
  running : Bool
  deriving DecidableEq

namespace StoredNode

def utf8 (n : StoredNode) : Bool :=
  LinuxLive.utf8 n.id && LinuxLive.utf8 n.name && LinuxLive.utf8 n.description &&
    LinuxLive.utf8 n.creatorPubkey && LinuxLive.utf8 n.adminPrivkey && LinuxLive.utf8 n.relayUrl

def json (n : StoredNode) : Json :=
  object [
    (lit "id", .str n.id),
    (lit "name", .str n.name),
    (lit "description", .str n.description),
    (lit "creator_pubkey", .str n.creatorPubkey),
    (lit "admin_privkey", .str n.adminPrivkey),
    (lit "relay_url", .str n.relayUrl),
    (lit "created_at", .int n.createdAt.toNat),
    (lit "member_count", .int n.memberCount.toInt),
    (lit "is_local", .bool n.isLocal),
    (lit "running", .bool n.running)]

/-- Only id and name have to be there. -/
def ofJson (item : Json) : Except JsonError StoredNode := do
  let id ← (← item.constIndex (lit "id")).getString
  let name ← (← item.constIndex (lit "name")).getString
  let description ← item.value getString (lit "description") []
  let creatorPubkey ← item.value getString (lit "creator_pubkey") []
  let adminPrivkey ← item.value getString (lit "admin_privkey") []
  let relayUrl ← item.value getString (lit "relay_url") []
  let createdAt ← item.value Persistence.getULongLong (lit "created_at") 0
  let memberCount ← item.value getInt (lit "member_count") 1
  let isLocal ← item.value getBool (lit "is_local") false
  let running ← item.value getBool (lit "running") isLocal
  return {
    id := id
    name := name
    description := description
    creatorPubkey := creatorPubkey
    adminPrivkey := adminPrivkey
    relayUrl := relayUrl
    createdAt := createdAt
    memberCount := Int32.ofInt memberCount
    isLocal := isLocal
    running := running }

theorem json_eq (n : StoredNode) : n.json = .obj [
    (lit "admin_privkey", .str n.adminPrivkey),
    (lit "created_at", .int n.createdAt.toNat),
    (lit "creator_pubkey", .str n.creatorPubkey),
    (lit "description", .str n.description),
    (lit "id", .str n.id),
    (lit "is_local", .bool n.isLocal),
    (lit "member_count", .int n.memberCount.toInt),
    (lit "name", .str n.name),
    (lit "relay_url", .str n.relayUrl),
    (lit "running", .bool n.running)] := rfl

theorem json_fields (n : StoredNode) :
    n.json.field? (lit "id") = some (.str n.id) ∧
      n.json.field? (lit "name") = some (.str n.name) ∧
      n.json.field? (lit "description") = some (.str n.description) ∧
      n.json.field? (lit "creator_pubkey") = some (.str n.creatorPubkey) ∧
      n.json.field? (lit "admin_privkey") = some (.str n.adminPrivkey) ∧
      n.json.field? (lit "relay_url") = some (.str n.relayUrl) ∧
      n.json.field? (lit "created_at") = some (.int n.createdAt.toNat) ∧
      n.json.field? (lit "member_count") = some (.int n.memberCount.toInt) ∧
      n.json.field? (lit "is_local") = some (.bool n.isLocal) ∧
      n.json.field? (lit "running") = some (.bool n.running) := by
  rw [json_eq]
  exact ⟨rfl, rfl, rfl, rfl, rfl, rfl, rfl, rfl, rfl, rfl⟩

theorem ofJson_json (n : StoredNode) : ofJson n.json = .ok n := by
  obtain ⟨hid, hname, hdescription, hcreator, hadmin, hrelay, hcreated, hmembers, hlocal,
    hrunning⟩ := json_fields n
  have hat : Persistence.getULongLong (.int n.createdAt.toNat) = .ok n.createdAt :=
    congrArg Except.ok (ofInt_toNat_uint64 n.createdAt)
  unfold ofJson
  rw [constIndex_of_field? hid, constIndex_of_field? hname, value_of_field? hdescription,
    value_of_field? hcreator, value_of_field? hadmin, value_of_field? hrelay,
    value_of_field? hcreated, value_of_field? hmembers, value_of_field? hlocal]
  simp only [bind, Except.bind, getString, getBool, hat, getInt_int32, value_of_field? hrunning,
    Int32.ofInt_toInt]
  rfl

theorem canonical_json (n : StoredNode) : n.json.canonical = true := by
  have hat := canonical_natCast n.createdAt.toNat_lt
  have hcount := canonical_int32 n.memberCount
  exact canonical_object (by simp [hat, hcount])

theorem utf8_json (n : StoredNode) : n.json.utf8 = n.utf8 := by
  rw [Bool.eq_iff_iff, json_eq, utf8_obj]
  simp only [List.forall_mem_cons, utf8_lit, utf8_str, utf8_bool, utf8_int, utf8,
    Bool.and_eq_true]
  constructor
  · intro h
    obtain ⟨⟨_, hadmin⟩, _, ⟨_, hcreator⟩, ⟨_, hdescription⟩, ⟨_, hid⟩, _, _, ⟨_, hname⟩,
      ⟨_, hrelay⟩, _⟩ := h
    exact ⟨⟨⟨⟨⟨hid, hname⟩, hdescription⟩, hcreator⟩, hadmin⟩, hrelay⟩
  · intro h
    obtain ⟨⟨⟨⟨⟨hid, hname⟩, hdescription⟩, hcreator⟩, hadmin⟩, hrelay⟩ := h
    simp [hid, hname, hdescription, hcreator, hadmin, hrelay]

theorem utf8_ofJson (item : Json) (n : StoredNode) (hu : item.utf8 = true)
    (h : ofJson item = .ok n) : n.utf8 = true := by
  simp only [ofJson, bind_eq_ok] at h
  obtain ⟨_, hv₁, _, hid, _, hv₂, _, hname, _, hdescription, _, hcreator, _, hadmin, _, hrelay,
    _, _, _, _, _, _, _, _, h⟩ := h
  cases h
  simp only [utf8, Bool.and_eq_true]
  exact ⟨⟨⟨⟨⟨utf8_constIndex hu hv₁ hid, utf8_constIndex hu hv₂ hname⟩,
    utf8_value hu rfl hdescription⟩, utf8_value hu rfl hcreator⟩, utf8_value hu rfl hadmin⟩,
    utf8_value hu rfl hrelay⟩

def codec : RecordCodec StoredNode where
  json := json
  ofJson := ofJson
  utf8 := utf8
  ofJson_json := ofJson_json
  canonical_json := canonical_json
  utf8_json := utf8_json
  utf8_ofJson := utf8_ofJson

def fields : List FieldSpec :=
  [⟨lit "id", true, .string⟩, ⟨lit "name", true, .string⟩, ⟨lit "description", false, .string⟩,
    ⟨lit "creator_pubkey", false, .string⟩, ⟨lit "admin_privkey", false, .string⟩,
    ⟨lit "relay_url", false, .string⟩, ⟨lit "created_at", false, .arithmetic uint64⟩,
    ⟨lit "member_count", false, .arithmetic int32⟩, ⟨lit "is_local", false, .bool⟩,
    ⟨lit "running", false, .bool⟩]

theorem ofJson_ok_iff {item : Json} : (∃ n, ofJson item = .ok n) ↔ WellFormed fields item :=
  ok_mandatory_iff reads_getString fun _ => ok_mandatory_iff reads_getString fun _ =>
  ok_optional_iff reads_getString fun _ => ok_optional_iff reads_getString fun _ =>
  ok_optional_iff reads_getString fun _ => ok_optional_iff reads_getString fun _ =>
  ok_optional_iff Persistence.reads_getULongLong fun _ => ok_optional_iff reads_getInt fun _ =>
  ok_optional_iff reads_getBool fun _ => ok_optional_iff reads_getBool fun _ => ok_pure_iff

theorem ofJson_undefined_iff {item : Json} : ofJson item = .error .undefined ↔ Undefined fields item :=
  undefined_mandatory_iff reads_getString fun _ => undefined_mandatory_iff reads_getString fun _ =>
  undefined_optional_iff reads_getString fun _ => undefined_optional_iff reads_getString fun _ =>
  undefined_optional_iff reads_getString fun _ => undefined_optional_iff reads_getString fun _ =>
  undefined_optional_iff Persistence.reads_getULongLong fun _ =>
  undefined_optional_iff reads_getInt fun _ => undefined_optional_iff reads_getBool fun _ =>
  undefined_optional_iff reads_getBool fun _ => undefined_pure_iff

def format : RecordFormat codec where
  wellFormed := WellFormed fields
  undefined := Undefined fields
  ok_iff _ := ofJson_ok_iff
  undefined_iff _ := ofJson_undefined_iff

end StoredNode

namespace Persistence

def saveNodes (lib : JsonText) (nodes : List StoredNode) : Bytes × Option JsonError :=
  StoredNode.codec.save lib nodes

def loadNodes (lib : JsonText) (file : Option Bytes) : List StoredNode :=
  StoredNode.codec.load lib file

def defaultRelayUrl : Bytes := lit "ws://localhost:8080"

def loadRelayUrl (lib : JsonText) (file : Option Bytes) : Bytes :=
  match file.bind lib.parse with
  | none => defaultRelayUrl
  | some j =>
      match j.index (lit "relay_url") with
      | .error _ => defaultRelayUrl
      | .ok url => (url.getString.toOption).getD defaultRelayUrl

theorem utf8_loadRelayUrl (lib : JsonText) (file : Option Bytes) :
    LinuxLive.utf8 (loadRelayUrl lib file) = true := by
  have hdefault : LinuxLive.utf8 defaultRelayUrl = true := utf8_lit _
  unfold loadRelayUrl
  split
  · exact hdefault
  · rename_i j hj
    obtain ⟨text, _, hparse⟩ := Option.bind_eq_some_iff.mp hj
    split
    · exact hdefault
    · rename_i v hv
      cases hs : v.getString with
      | error _ => exact hdefault
      | ok url => exact utf8_index (lib.parse_utf8 _ _ hparse) hv hs

end Persistence

end LinuxLive
