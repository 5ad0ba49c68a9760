import LinuxLive.Lib.JsonText
import LinuxLive.Protocol.Wire

/-!
# Events of the protocol

`lili::Event`, its kinds, and the text form of `Event::serialize` and
`Event::deserialize`.
-/

namespace LinuxLive

open Json

structure Event where
  id : UInt64
  createdAt : UInt64
  kind : UInt16
  tags : List (List Bytes)
  content : Bytes
  pubkey : Bytes
  sig : Bytes
  deriving DecidableEq

namespace Event

inductive Kind where
  | metadata
  | textNote
  | channelMessage
  | node
  | nodeJoin
  | achievement
  | achievementProof
  deriving DecidableEq

def Kind.value : Kind → UInt16
  | metadata => 0
  | textNote => 1
  | channelMessage => 42
  | node => 30019
  | nodeJoin => 30020
  | achievement => 30079
  | achievementProof => 30080

def json (e : Event) : Json :=
  object [
    (lit "id", .int e.id.toNat),
    (lit "created_at", .int e.createdAt.toNat),
    (lit "kind", .int e.kind.toNat),
    (lit "tags", tagsJson e.tags),
    (lit "content", .str e.content),
    (lit "pubkey", .str e.pubkey),
    (lit "sig", .str e.sig)]

/-- `none` is the exception of `dump()`. -/
def serialize (lib : JsonText) (e : Event) : Option Bytes := lib.dump none e.json

def ofJson (j : Json) : Except JsonError Event := do
  let id ← (← j.index (lit "id")).getUInt64
  let createdAt ← (← j.index (lit "created_at")).getUInt64
  let kind ← (← j.index (lit "kind")).getUInt16
  let tags ← (← j.index (lit "tags")).getVector (getVector getString)
  let content ← (← j.index (lit "content")).getString
  let pubkey ← (← j.index (lit "pubkey")).getString
  let sig ← (← j.index (lit "sig")).getString
  return {
    id := id
    createdAt := createdAt
    kind := kind
    tags := tags
    content := content
    pubkey := pubkey
    sig := sig }

/-- Every exception ends in `std::nullopt`; where a conversion is undefined, nothing is
returned. -/
def deserialize (lib : JsonText) (data : Bytes) : Option Event :=
  match lib.parse data with
  | none => none
  | some j =>
      match ofJson j with
      | .ok e => some e
      | .error _ => none

/-! ## An event and its text -/

theorem json_fields (e : Event) :
    e.json.field? (lit "id") = some (.int e.id.toNat) ∧
      e.json.field? (lit "created_at") = some (.int e.createdAt.toNat) ∧
      e.json.field? (lit "kind") = some (.int e.kind.toNat) ∧
      e.json.field? (lit "tags") = some (tagsJson e.tags) ∧
      e.json.field? (lit "content") = some (.str e.content) ∧
      e.json.field? (lit "pubkey") = some (.str e.pubkey) ∧
      e.json.field? (lit "sig") = some (.str e.sig) :=
  ⟨rfl, rfl, rfl, rfl, rfl, rfl, rfl⟩

theorem getVector_tagsJson (tags : List (List Bytes)) :
    (tagsJson tags).getVector (getVector getString) = .ok tags := by
  have hinner : ∀ tag : List Bytes, (Json.arr (tag.map .str)).getVector getString = .ok tag := by
    intro tag
    have hitem : ∀ s : Bytes, (Json.str s).getString = .ok s := fun s => rfl
    exact mapM_map_ok hitem tag
  exact mapM_map_ok hinner tags

theorem ofJson_json (e : Event) : ofJson e.json = .ok e := by
  obtain ⟨hid, hcreated, hkind, htags, hcontent, hpubkey, hsig⟩ := json_fields e
  unfold ofJson
  rw [index_of_field? hid, index_of_field? hcreated, index_of_field? hkind, index_of_field? htags,
    index_of_field? hcontent, index_of_field? hpubkey, index_of_field? hsig]
  simp only [bind, Except.bind, getUInt64_int_toNat, getUInt16_int_toNat, getVector_tagsJson,
    getString]
  rfl

theorem canonical_json (e : Event) : e.json.canonical = true := by
  have hkind := e.kind.toNat_lt
  exact canonical_object (by
    simp [canonical_natCast e.id.toNat_lt, canonical_natCast e.createdAt.toNat_lt,
      canonical_natCast (Nat.lt_trans hkind (by omega)), canonical_tagsJson])

def utf8 (e : Event) : Bool :=
  utf8Tags e.tags && LinuxLive.utf8 e.content && LinuxLive.utf8 e.pubkey && LinuxLive.utf8 e.sig

theorem utf8_iff {e : Event} : e.utf8 = true ↔ utf8Tags e.tags = true ∧
    LinuxLive.utf8 e.content = true ∧ LinuxLive.utf8 e.pubkey = true ∧
      LinuxLive.utf8 e.sig = true := by
  simp only [utf8, Bool.and_eq_true, and_assoc]

theorem utf8_json {e : Event} (h : e.utf8 = true) : e.json.utf8 = true := by
  obtain ⟨htags, hcontent, hpubkey, hsig⟩ := utf8_iff.mp h
  exact utf8_object (by simp [utf8_tagsJson, htags, hcontent, hpubkey, hsig])

theorem deserialize_serialize (lib : JsonText) {e : Event} {text : Bytes}
    (h : e.serialize lib = some text) : deserialize lib text = some e := by
  simp only [deserialize, lib.parse_dump none _ text e.canonical_json h, ofJson_json]

end Event

end LinuxLive
