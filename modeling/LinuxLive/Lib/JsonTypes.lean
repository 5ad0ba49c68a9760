import LinuxLive.Lib.Json

/-!
# Types of JSON values

The types that values are read at: for each the values that are read, and the numbers whose
conversion is undefined.
-/

namespace LinuxLive

open Json

universe u

/-- The types that fields are read at; numbers are read from booleans too if they are
`arithmetic`. -/
inductive FieldType where
  | string
  | bool
  | number (t : IntType)
  | arithmetic (t : IntType)

namespace FieldType

def fits : FieldType → Json → Bool
  | .string, .str _ => true
  | .bool, .bool _ => true
  | .number _, .int _ => true
  | .number t, .float m e => t.holds (truncated m e)
  | .arithmetic _, .bool _ => true
  | .arithmetic _, .int _ => true
  | .arithmetic t, .float m e => t.holds (truncated m e)
  | _, _ => false

/-- A double outside of the type, whose conversion is undefined. -/
def outside : FieldType → Json → Bool
  | .number t, .float m e => !t.holds (truncated m e)
  | .arithmetic t, .float m e => !t.holds (truncated m e)
  | _, _ => false

end FieldType

/-- An access reads the values of its type, and throws for others that are not outside of it. -/
structure Reads {α : Type u} (get : Json → Except JsonError α) (type : FieldType) : Prop where
  ok_iff : ∀ v, type.fits v = true ↔ ∃ a, get v = .ok a
  undefined_iff : ∀ v, type.outside v = true ↔ get v = .error .undefined

theorem reads_getString : Reads getString .string where
  ok_iff v := by cases v <;> simp [FieldType.fits, getString]
  undefined_iff v := by cases v <;> simp [FieldType.outside, getString]

theorem reads_getBool : Reads getBool .bool where
  ok_iff v := by cases v <;> simp [FieldType.fits, getBool]
  undefined_iff v := by cases v <;> simp [FieldType.outside, getBool]

theorem reads_number (t : IntType) : Reads (number t) (.number t) where
  ok_iff v := by
    cases v with
    | float m e => cases h : t.holds (truncated m e) <;> simp [FieldType.fits, number, h]
    | _ => simp [FieldType.fits, number]
  undefined_iff v := by cases v <;> simp [FieldType.outside, number]

theorem reads_arithmetic (t : IntType) : Reads (arithmetic t) (.arithmetic t) where
  ok_iff v := by
    cases v with
    | float m e => cases h : t.holds (truncated m e) <;> simp [FieldType.fits, arithmetic, number, h]
    | _ => simp [FieldType.fits, arithmetic, number]
  undefined_iff v := by cases v <;> simp [FieldType.outside, arithmetic, number]

/-- What is done with a number that was read does not matter. -/
theorem Reads.map {α β : Type} {get : Json → Except JsonError α} {type : FieldType}
    (h : Reads get type) (f : α → β) : Reads (fun v => (get v).map f) type where
  ok_iff v := by rw [map_ok_iff, h.ok_iff]
  undefined_iff v := by
    rw [h.undefined_iff]
    cases get v <;> simp [Except.map]

theorem reads_getUInt64 : Reads getUInt64 (.number uint64) := (reads_number uint64).map _

theorem reads_getInt : Reads getInt (.arithmetic int32) := (reads_arithmetic int32).map _

end LinuxLive
