import LinuxLive.Lib.JsonInteger

/-!
# JSON texts

The reader and the writer of the JSON library, taken by what is documented of
them: writing fails only on a string that is not UTF-8, reading undoes writing,
what is read is well formed, and an integer is read as it is or as the nearest double.
-/

namespace LinuxLive

structure JsonText where
  /-- `json::parse`; `none` is a `parse_error`. -/
  parse : Bytes → Option Json
  /-- `dump()` and `dump(indent)`; `none` is `type_error.316`. -/
  dump : Option Nat → Json → Option Bytes
  dump_isSome : ∀ indent j, (dump indent j).isSome = j.utf8
  parse_dump : ∀ indent j t, j.canonical = true → dump indent j = some t → parse t = some j
  parse_utf8 : ∀ t j, parse t = some j → j.utf8 = true
  parse_canonical : ∀ t j, parse t = some j → j.canonical = true
  parse_int : ∀ n, parse (Json.intText n) = Json.ofInteger n
  /-- An empty text ends before any value. -/
  parse_nil : parse [] = none

namespace JsonText

variable (lib : JsonText) {j : Json} {indent : Option Nat}

theorem dump_of_utf8 (indent : Option Nat) (h : j.utf8 = true) : ∃ t, lib.dump indent j = some t :=
  Option.isSome_iff_exists.mp ((lib.dump_isSome indent j).trans h)

theorem dump_eq_none_iff : lib.dump indent j = none ↔ j.utf8 = false := by
  rw [← lib.dump_isSome indent j, Option.isSome_eq_false_iff, Option.isNone_iff_eq_none]

theorem utf8_of_dump {t : Bytes} (h : lib.dump indent j = some t) : j.utf8 = true := by
  rw [← lib.dump_isSome indent j, h]
  rfl

/-- The writer escapes control characters, so that a text has no zero byte. -/
def EscapesNul : Prop := ∀ indent j t, lib.dump indent j = some t → 0 ∉ t

/-- The writer copies every other character, so that a text is well-formed. -/
def WritesUtf8 : Prop := ∀ indent j t, lib.dump indent j = some t → utf8 t = true

end JsonText

end LinuxLive
