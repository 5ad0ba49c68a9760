import LinuxLive.Lib.RecordFormat

/-!
# The message files

`Persistence::save_messages` and `load_messages` on the content of the file of one node.
-/

namespace LinuxLive

open Json

structure StoredMessage where
  senderPubkey : Bytes
  senderName : Bytes
  content : Bytes
  timestamp : UInt64
  nodeId : Bytes
  isEncrypted : Bool
  deriving DecidableEq

namespace StoredMessage

def utf8 (m : StoredMessage) : Bool :=
  LinuxLive.utf8 m.senderPubkey && LinuxLive.utf8 m.senderName && LinuxLive.utf8 m.content &&
    LinuxLive.utf8 m.nodeId

def json (m : StoredMessage) : Json :=
  object [
    (lit "sender_pubkey", .str m.senderPubkey),
    (lit "sender_name", .str m.senderName),
    (lit "content", .str m.content),
    (lit "timestamp", .int m.timestamp.toNat),
    (lit "node_id", .str m.nodeId),
    (lit "is_encrypted", .bool m.isEncrypted)]

def ofJson (item : Json) : Except JsonError StoredMessage := do
  let senderPubkey ← (← item.constIndex (lit "sender_pubkey")).getString
  let senderName ← (← item.constIndex (lit "sender_name")).getString
  let content ← (← item.constIndex (lit "content")).getString
  let timestamp ← (← item.constIndex (lit "timestamp")).getUInt64
  let nodeId ← (← item.constIndex (lit "node_id")).getString
  let isEncrypted ← (← item.constIndex (lit "is_encrypted")).getBool
  return {
    senderPubkey := senderPubkey
    senderName := senderName
    content := content
    timestamp := timestamp
    nodeId := nodeId
    isEncrypted := isEncrypted }

theorem json_eq (m : StoredMessage) : m.json = .obj [
    (lit "content", .str m.content),
    (lit "is_encrypted", .bool m.isEncrypted),
    (lit "node_id", .str m.nodeId),
    (lit "sender_name", .str m.senderName),
    (lit "sender_pubkey", .str m.senderPubkey),
    (lit "timestamp", .int m.timestamp.toNat)] := rfl

theorem ofJson_json (m : StoredMessage) : ofJson m.json = .ok m := by
  have hfield : ∀ {v : Json} (key : Bytes), m.json.field? key = some v →
      m.json.constIndex key = .ok v := fun _ h => constIndex_of_field? h
  have hat := getUInt64_int_toNat m.timestamp
  unfold ofJson
  rw [hfield (lit "sender_pubkey") rfl, hfield (lit "sender_name") rfl,
    hfield (lit "content") rfl, hfield (lit "timestamp") rfl, hfield (lit "node_id") rfl,
    hfield (lit "is_encrypted") rfl]
  simp only [bind, Except.bind, getString, getBool, hat]
  rfl

theorem canonical_json (m : StoredMessage) : m.json.canonical = true := by
  have hat := canonical_natCast m.timestamp.toNat_lt
  exact canonical_object (by simp [hat])

theorem utf8_json (m : StoredMessage) : m.json.utf8 = m.utf8 := by
  rw [Bool.eq_iff_iff, json_eq, utf8_obj]
  simp only [List.forall_mem_cons, utf8_lit, utf8_str, utf8_bool, utf8_int, utf8,
    Bool.and_eq_true]
  constructor
  · intro h
    obtain ⟨⟨_, hcontent⟩, _, ⟨_, hnode⟩, ⟨_, hname⟩, ⟨_, hpubkey⟩, _⟩ := h
    exact ⟨⟨⟨hpubkey, hname⟩, hcontent⟩, hnode⟩
  · intro h
    obtain ⟨⟨⟨hpubkey, hname⟩, hcontent⟩, hnode⟩ := h
    simp [hpubkey, hname, hcontent, hnode]

theorem utf8_ofJson (item : Json) (m : StoredMessage) (hu : item.utf8 = true)
    (h : ofJson item = .ok m) : m.utf8 = true := by
  simp only [ofJson, bind_eq_ok] at h
  obtain ⟨_, hv₁, _, hpubkey, _, hv₂, _, hname, _, hv₃, _, hcontent, _, _, _, _, _, hv₄, _, hnode,
    _, _, _, _, h⟩ := h
  cases h
  simp only [utf8, Bool.and_eq_true]
  exact ⟨⟨⟨utf8_constIndex hu hv₁ hpubkey, utf8_constIndex hu hv₂ hname⟩,
    utf8_constIndex hu hv₃ hcontent⟩, utf8_constIndex hu hv₄ hnode⟩

def codec : RecordCodec StoredMessage where
  json := json
  ofJson := ofJson
  utf8 := utf8
  ofJson_json := ofJson_json
  canonical_json := canonical_json
  utf8_json := utf8_json
  utf8_ofJson := utf8_ofJson

def fields : List FieldSpec :=
  [⟨lit "sender_pubkey", true, .string⟩, ⟨lit "sender_name", true, .string⟩,
    ⟨lit "content", true, .string⟩, ⟨lit "timestamp", true, .number uint64⟩,
    ⟨lit "node_id", true, .string⟩, ⟨lit "is_encrypted", true, .bool⟩]

theorem ofJson_ok_iff {item : Json} : (∃ m, ofJson item = .ok m) ↔ WellFormed fields item :=
  ok_mandatory_iff reads_getString fun _ => ok_mandatory_iff reads_getString fun _ =>
  ok_mandatory_iff reads_getString fun _ => ok_mandatory_iff reads_getUInt64 fun _ =>
  ok_mandatory_iff reads_getString fun _ => ok_mandatory_iff reads_getBool fun _ => ok_pure_iff

theorem ofJson_undefined_iff {item : Json} : ofJson item = .error .undefined ↔ Undefined fields item :=
  undefined_mandatory_iff reads_getString fun _ => undefined_mandatory_iff reads_getString fun _ =>
  undefined_mandatory_iff reads_getString fun _ => undefined_mandatory_iff reads_getUInt64 fun _ =>
  undefined_mandatory_iff reads_getString fun _ => undefined_mandatory_iff reads_getBool fun _ =>
  undefined_pure_iff

def format : RecordFormat codec where
  wellFormed := WellFormed fields
  undefined := Undefined fields
  ok_iff _ := ofJson_ok_iff
  undefined_iff _ := ofJson_undefined_iff

end StoredMessage

namespace Persistence

def saveMessages (lib : JsonText) (messages : List StoredMessage) : Bytes × Option JsonError :=
  StoredMessage.codec.save lib messages

def loadMessages (lib : JsonText) (file : Option Bytes) : List StoredMessage :=
  StoredMessage.codec.load lib file

end Persistence

end LinuxLive
