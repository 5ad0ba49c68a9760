import LinuxLive.Lib.JsonText

/-!
# Files of records

A file that holds a JSON array with one object for each record: what a save leaves in it,
what a load makes of it, and the round trip from the one of a single record.
-/

namespace LinuxLive

universe u

/-- The content of a file that `dump(2)` is streamed into, and its exception: the stream has
emptied the file before there is a text to write. -/
def JsonText.streamed (lib : JsonText) (j : Json) : Bytes × Option JsonError :=
  match lib.dump (some 2) j with
  | none => ([], some .invalidUtf8316)
  | some text => (text, none)

namespace JsonText

variable {lib : JsonText} {j : Json}

theorem streamed_iff : (lib.streamed j).2 = none ↔ j.utf8 = true := by
  unfold streamed
  cases h : lib.dump (some 2) j with
  | none =>
      rw [lib.dump_eq_none_iff] at h
      simp [h]
  | some text => simp [lib.utf8_of_dump h]

theorem streamed_of_throws (h : (lib.streamed j).2 ≠ none) : (lib.streamed j).1 = [] := by
  unfold streamed at h ⊢
  split
  · rfl
  · rename_i hdump
    simp [hdump] at h

theorem parse_streamed (hcanonical : j.canonical = true) (h : (lib.streamed j).2 = none) :
    lib.parse (lib.streamed j).1 = some j := by
  unfold streamed at h ⊢
  cases hdump : lib.dump (some 2) j with
  | none => simp [hdump] at h
  | some text => exact lib.parse_dump (some 2) j text hcanonical hdump

end JsonText

/-- A record with its object in the file; the laws of the two directions are fields. -/
structure RecordCodec (α : Type u) where
  json : α → Json
  ofJson : Json → Except JsonError α
  /-- Every text of the record can be written. -/
  utf8 : α → Bool
  ofJson_json : ∀ a, ofJson (json a) = .ok a
  canonical_json : ∀ a, (json a).canonical = true
  utf8_json : ∀ a, (json a).utf8 = utf8 a
  utf8_ofJson : ∀ item a, item.utf8 = true → ofJson item = .ok a → utf8 a = true

namespace RecordCodec

variable {α : Type u} (codec : RecordCodec α) (lib : JsonText)

/-- The content of the file behind a save, and the exception of `dump(2)`: the stream has
emptied the file before there is a text to write. -/
def save (records : List α) : Bytes × Option JsonError :=
  match lib.dump (some 2) (.arr (records.map codec.json)) with
  | none => ([], some .invalidUtf8316)
  | some text => (text, none)

/-- The loop of a load; an exception keeps what was read before it. -/
def read : List Json → List α
  | [] => []
  | item :: items =>
      match codec.ofJson item with
      | .error _ => []
      | .ok a => a :: read items

/-- `none` is a file that is not there. -/
def load (file : Option Bytes) : List α :=
  match file.bind lib.parse with
  | none => []
  | some j => codec.read j.items

variable {codec lib} {records : List α} {file : Option Bytes} {a : α}

theorem read_map_json (records : List α) : codec.read (records.map codec.json) = records := by
  induction records with
  | nil => rfl
  | cons a records ih => simp only [List.map_cons, read, codec.ofJson_json, ih]

theorem save_eq (records : List α) :
    codec.save lib records = lib.streamed (.arr (records.map codec.json)) := rfl

theorem save_iff : (codec.save lib records).2 = none ↔ ∀ a ∈ records, codec.utf8 a = true := by
  rw [save_eq, JsonText.streamed_iff]
  simp [Json.utf8_arr, codec.utf8_json]

theorem parse_saved (h : (codec.save lib records).2 = none) :
    lib.parse (codec.save lib records).1 = some (.arr (records.map codec.json)) := by
  have hcanonical : (Json.arr (records.map codec.json)).canonical = true := by
    simp [Json.canonical_arr, codec.canonical_json]
  exact JsonText.parse_streamed hcanonical h

theorem load_saved (h : (codec.save lib records).2 = none) :
    codec.load lib (some (codec.save lib records).1) = records := by
  simp only [load, Option.bind_some, parse_saved h]
  exact read_map_json records

theorem saved_of_throws (h : (codec.save lib records).2 ≠ none) :
    (codec.save lib records).1 = [] := JsonText.streamed_of_throws h

theorem load_nil : codec.load lib (some []) = [] := by
  rw [load, Option.bind_some, lib.parse_nil]

theorem utf8_read {items : List Json} (hu : ∀ item ∈ items, item.utf8 = true)
    (ha : a ∈ codec.read items) : codec.utf8 a = true := by
  induction items with
  | nil => cases ha
  | cons item items ih =>
      unfold read at ha
      split at ha
      · cases ha
      · rename_i b hb
        rcases List.mem_cons.mp ha with ha | ha
        · rw [ha]
          exact codec.utf8_ofJson item b (hu item List.mem_cons_self) hb
        · exact ih (fun item' h => hu item' (List.mem_cons_of_mem item h)) ha

theorem utf8_load (ha : a ∈ codec.load lib file) : codec.utf8 a = true := by
  unfold load at ha
  split at ha
  · cases ha
  · rename_i j hj
    obtain ⟨text, _, hparse⟩ := Option.bind_eq_some_iff.mp hj
    exact utf8_read (fun item hitem => Json.all_items (lib.parse_utf8 _ _ hparse) hitem) ha

/-- What a load has lost, the next save loses for good. -/
theorem load_save_load (codec : RecordCodec α) (lib : JsonText) (file : Option Bytes) :
    (codec.save lib (codec.load lib file)).2 = none ∧
      codec.load lib (some (codec.save lib (codec.load lib file)).1) = codec.load lib file := by
  have hsave : (codec.save lib (codec.load lib file)).2 = none :=
    save_iff.mpr fun _ ha => utf8_load ha
  exact ⟨hsave, load_saved hsave⟩

end RecordCodec

end LinuxLive
