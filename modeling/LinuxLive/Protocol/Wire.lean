import LinuxLive.Lib.Json

/-!
# Tags of an event on the wire

The nested tag lists of an event as a JSON value, and the loops with which the relay
and the client both read them back.
-/

namespace LinuxLive

open Json

/-- `std::vector<std::vector<std::string>>` as a JSON value. -/
def tagsJson (tags : List (List Bytes)) : Json :=
  .arr (tags.map fun tag => .arr (tag.map .str))

/-- The two nested loops over `event["tags"]`. -/
def readTags (event : Json) : Except JsonError (List (List Bytes)) :=
  match event.field? (lit "tags") with
  | none => .ok []
  | some tags => tags.items.mapM fun tag => tag.items.mapM getString

def utf8Tags (tags : List (List Bytes)) : Bool := tags.all fun tag => tag.all utf8

theorem utf8_tagsJson (tags : List (List Bytes)) : (tagsJson tags).utf8 = utf8Tags tags := by
  rw [Bool.eq_iff_iff]
  simp [tagsJson, utf8_arr, utf8Tags]

theorem canonical_tagsJson (tags : List (List Bytes)) : (tagsJson tags).canonical = true := by
  simp [tagsJson, canonical_arr]

theorem readTags_of_field? {event : Json} {tags : List (List Bytes)}
    (h : event.field? (lit "tags") = some (tagsJson tags)) : readTags event = .ok tags := by
  have hinner : ∀ tag : List Bytes, (Json.arr (tag.map .str)).items.mapM getString = .ok tag :=
    mapM_map_ok fun _ => rfl
  simp only [readTags, h]
  exact mapM_map_ok (g := fun tag : Json => tag.items.mapM getString)
    (f := fun tag : List Bytes => Json.arr (tag.map .str)) hinner tags

def TagsReadable (event : Json) : Prop :=
  ∀ tags, event.field? (lit "tags") = some tags →
    ∀ tag ∈ tags.items, ∀ e ∈ tag.items, ∃ s, e = .str s

theorem readTags_ok_iff {event : Json} : (∃ tags, readTags event = .ok tags) ↔ TagsReadable event := by
  unfold readTags TagsReadable
  cases event.field? (lit "tags") with
  | none => simp
  | some tags => simp [mapM_ok_iff, getString_ok_iff]

theorem utf8Tags_readTags {event : Json} {tags : List (List Bytes)} (hu : event.utf8 = true)
    (h : readTags event = .ok tags) : utf8Tags tags = true := by
  unfold readTags at h
  split at h
  · cases h
    rfl
  · rename_i ts hts
    have htags : ts.all utf8Node = true := all_field? hu hts
    refine List.all_eq_true.mpr (forall_of_mapM h ?_)
    intro tag htag ss hss
    refine List.all_eq_true.mpr (forall_of_mapM hss ?_)
    intro e he s hs
    have hstr := all_items (all_items htags htag) he
    rw [getString_ok_iff.mp hs] at hstr
    exact hstr

end LinuxLive
