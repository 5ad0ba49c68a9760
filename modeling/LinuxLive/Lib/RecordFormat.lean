import LinuxLive.Lib.JsonTypes
import LinuxLive.Lib.RecordFile
import LinuxLive.Lib.RecordLoop

/-!
# The format of a record

The fields that a record is read from, and what a reader of them does with an object that
has them, has others in their place, or undefined them.
-/

namespace LinuxLive

open Json

universe u

/-! ## Fields -/

/-- A field of a record: its key, whether it has to be there, and the type of its value. -/
structure FieldSpec where
  key : Bytes
  mandatory : Bool
  type : FieldType

def FieldSpec.Holds (f : FieldSpec) (item : Json) : Prop :=
  match item.field? f.key with
  | some v => f.type.fits v = true
  | none => item.isObject = true ∧ f.mandatory = false

def WellFormed : List FieldSpec → Json → Prop
  | [], _ => True
  | f :: fields, item => f.Holds item ∧ WellFormed fields item

/-- In the order of the fields, the first one at fault is a mandatory field that is missing
or a number outside of its type. -/
def Undefined : List FieldSpec → Json → Prop
  | [], _ => False
  | f :: fields, item =>
      match item.field? f.key with
      | some v => f.type.outside v = true ∨ f.type.fits v = true ∧ Undefined fields item
      | none => item.isObject = true ∧ (f.mandatory = true ∨ Undefined fields item)

section fields

variable {α β : Type} {get : Json → Except JsonError α} {type : FieldType} {key : Bytes}
  {item : Json} {rest : α → Except JsonError β} {P : Prop}

/-- A mandatory field is read with `item[key]`. -/
theorem ok_mandatory_iff (hget : Reads get type) (hrest : ∀ a, (∃ b, rest a = .ok b) ↔ P) :
    (∃ b, (item.constIndex key >>= fun v => get v >>= rest) = .ok b) ↔
      FieldSpec.Holds ⟨key, true, type⟩ item ∧ P := by
  unfold FieldSpec.Holds
  cases hfield : item.field? key with
  | some v =>
      simp only [constIndex_of_field? hfield, bind, Except.bind, hget.ok_iff]
      cases hv : get v with
      | error e => simp
      | ok a => simp [hrest]
  | none =>
      have hindex : ∃ e, item.constIndex key = .error e := by
        cases item with
        | obj fs =>
            have hlookup : fs.lookup key = none := hfield
            exact ⟨.undefined, by simp only [constIndex, hlookup]⟩
        | _ => exact ⟨_, rfl⟩
      obtain ⟨e, he⟩ := hindex
      simp [he, bind, Except.bind]

theorem undefined_mandatory_iff (hget : Reads get type)
    (hrest : ∀ a, rest a = .error .undefined ↔ P) :
    (item.constIndex key >>= fun v => get v >>= rest) = .error .undefined ↔
      match item.field? key with
      | some v => type.outside v = true ∨ type.fits v = true ∧ P
      | none => item.isObject = true ∧ (true = true ∨ P) := by
  cases hfield : item.field? key with
  | some v =>
      simp only [constIndex_of_field? hfield, bind, Except.bind, hget.ok_iff, hget.undefined_iff]
      cases hv : get v with
      | error e => simp
      | ok a => simp [hrest]
  | none =>
      cases item with
      | obj fs =>
          have hlookup : fs.lookup key = none := hfield
          simp [constIndex, hlookup, isObject, bind, Except.bind]
      | _ => simp [constIndex, isObject, bind, Except.bind]

/-- Other fields are read with `item.value(key, default)`. -/
theorem ok_optional_iff {default : α} (hget : Reads get type)
    (hrest : ∀ a, (∃ b, rest a = .ok b) ↔ P) :
    (∃ b, (item.value get key default >>= rest) = .ok b) ↔
      FieldSpec.Holds ⟨key, false, type⟩ item ∧ P := by
  unfold FieldSpec.Holds
  cases hfield : item.field? key with
  | some v =>
      simp only [value_of_field? hfield, bind, Except.bind, hget.ok_iff]
      cases hv : get v with
      | error e => simp
      | ok a => simp [hrest]
  | none =>
      cases item with
      | obj fs =>
          have hlookup : fs.lookup key = none := hfield
          simp [Json.value, hlookup, isObject, bind, Except.bind, hrest]
      | _ => simp [Json.value, isObject, bind, Except.bind]

theorem undefined_optional_iff {default : α} (hget : Reads get type)
    (hrest : ∀ a, rest a = .error .undefined ↔ P) :
    (item.value get key default >>= rest) = .error .undefined ↔
      match item.field? key with
      | some v => type.outside v = true ∨ type.fits v = true ∧ P
      | none => item.isObject = true ∧ (false = true ∨ P) := by
  cases hfield : item.field? key with
  | some v =>
      simp only [value_of_field? hfield, bind, Except.bind, hget.ok_iff, hget.undefined_iff]
      cases hv : get v with
      | error e => simp
      | ok a => simp [hrest]
  | none =>
      cases item with
      | obj fs =>
          have hlookup : fs.lookup key = none := hfield
          simp [Json.value, hlookup, isObject, bind, Except.bind, hrest]
      | _ => simp [Json.value, isObject, bind, Except.bind]

theorem ok_pure_iff {b : β} : (∃ b', (pure b : Except JsonError β) = .ok b') ↔
    WellFormed [] item := by
  simp [WellFormed, pure, Except.pure]

theorem undefined_pure_iff {b : β} : (pure b : Except JsonError β) = .error .undefined ↔
    Undefined [] item := by
  simp [Undefined, pure, Except.pure]

end fields

/-! ## Records of a format -/

/-- A codec whose reader takes the records of a format. -/
structure RecordFormat {α : Type} (codec : RecordCodec α) where
  wellFormed : Json → Prop
  undefined : Json → Prop
  ok_iff : ∀ item, (∃ a, codec.ofJson item = .ok a) ↔ wellFormed item
  undefined_iff : ∀ item, codec.ofJson item = .error .undefined ↔ undefined item

namespace RecordCodec

variable {α : Type} (codec : RecordCodec α)

def step (item : Json) : Except JsonError (Option α) := (codec.ofJson item).map some

def loads (lib : JsonText) (file : Option Bytes) : Bool :=
  match file.bind lib.parse with
  | none => true
  | some j => returns codec.step .undefined j.items

def load? (lib : JsonText) (file : Option Bytes) : Option (List α) :=
  if codec.loads lib file then some (codec.load lib file) else none

theorem read_eq_readUntil (items : List Json) : codec.read items = readUntil codec.step items := by
  induction items with
  | nil => rfl
  | cons item items ih =>
      rw [read, readUntil, step]
      cases codec.ofJson item with
      | error e => rfl
      | ok a => exact congrArg (a :: ·) ih

variable {codec}

def grading (format : RecordFormat codec) : Grading codec.step .undefined where
  good := format.wellFormed
  bad item := ¬ format.wellFormed item
  undefined := format.undefined
  good_iff item := by
    rw [← format.ok_iff, step]
    cases codec.ofJson item <;> simp [Except.map]
  bad_iff item := by
    rw [← format.ok_iff, step]
    cases codec.ofJson item <;> simp [Except.map]
  undefined_iff item := by
    rw [← format.undefined_iff, step]
    cases codec.ofJson item <;> simp [Except.map]

theorem load_readsAll_iff (format : RecordFormat codec) {lib : JsonText} {text : Bytes}
    {items : List Json} (h : lib.parse text = some (.arr items)) :
    ReadsAll codec.step .undefined items (codec.load lib (some text)) ↔
      (grading format).BadLast items := by
  have hload : codec.load lib (some text) = readUntil codec.step items := by
    rw [load, Option.bind_some, h, ← read_eq_readUntil]
    rfl
  rw [hload]
  exact (grading format).readsAll_iff

theorem loads_iff (format : RecordFormat codec) {lib : JsonText} {text : Bytes}
    {items : List Json} (h : lib.parse text = some (.arr items)) :
    codec.loads lib (some text) = true ↔
      ∀ before item behind, items = before ++ item :: behind →
        (∀ x ∈ before, format.wellFormed x) → ¬ format.undefined item := by
  have hloads : codec.loads lib (some text) = returns codec.step .undefined items := by
    rw [loads, Option.bind_some, h]
    rfl
  have hok : ∀ x, format.wellFormed x ↔ ∃ a, codec.step x = .ok a := fun x => by
    rw [← format.ok_iff, step, map_ok_iff]
  have hstuck : ∀ x, format.undefined x ↔ codec.step x = .error .undefined :=
    (grading format).undefined_iff
  rw [hloads, returns_iff]
  simp only [Returns, hok, hstuck]

theorem loads_saved {lib : JsonText} {records : List α} (h : (codec.save lib records).2 = none) :
    codec.loads lib (some (codec.save lib records).1) = true := by
  simp only [loads, Option.bind_some, parse_saved h, items]
  clear h
  induction records with
  | nil => rfl
  | cons a records ih =>
      rw [List.map_cons, returns, step, codec.ofJson_json]
      exact ih

theorem load?_saved {lib : JsonText} {records : List α} (h : (codec.save lib records).2 = none) :
    codec.load? lib (some (codec.save lib records).1) = some records := by
  rw [load?, loads_saved h, if_pos rfl, load_saved h]

theorem load?_nil {lib : JsonText} : codec.load? lib (some []) = some [] := by
  have hloads : codec.loads lib (some []) = true := by
    rw [loads, Option.bind_some, lib.parse_nil]
  rw [load?, hloads, if_pos rfl, load_nil]

end RecordCodec

end LinuxLive
