import LinuxLive.Lib.Hex

/-!
# Keys as hexadecimal texts

`IdentityManager::key_to_hex` and `hex_to_key`.
-/

namespace LinuxLive.IdentityManager

def keyToHex (key : Bytes) : Bytes := toHex key

/-- `none` is `false`; the length is all that is checked. -/
def hexToKey (hex : Bytes) (len : Nat) : Option Bytes :=
  if hex.length ≠ len * 2 then none else some (fromHex hex)

theorem length_fromHex : ∀ {text : Bytes} {n : Nat}, text.length = n * 2 → (fromHex text).length = n
  | [], n, h => by
      simp only [List.length_nil] at h
      simp only [fromHex, List.length_nil]
      omega
  | [_], n, h => by
      simp only [List.length_singleton] at h
      omega
  | a :: b :: text, n, h => by
      obtain ⟨m, rfl⟩ : ∃ m, n = m + 1 := ⟨n - 1, by simp only [List.length_cons] at h; omega⟩
      have htext : text.length = m * 2 := by
        simp only [List.length_cons] at h
        omega
      rw [fromHex, List.length_cons, length_fromHex htext]

theorem length_hexToKey {hex key : Bytes} {len : Nat} (h : hexToKey hex len = some key) :
    key.length = len := by
  unfold hexToKey at h
  split at h
  · cases h
  · rename_i hlen
    cases h
    exact length_fromHex (Decidable.not_not.mp hlen)

theorem length_key {hex key : Bytes} (h : hexToKey hex 32 = some key) : key.length = 32 :=
  length_hexToKey h

theorem length_keyToHex {key : Bytes} (h : key.length = 32) : (keyToHex key).length = 64 := by
  rw [keyToHex, length_toHex, h]

theorem hexToKey_keyToHex {key : Bytes} {len : Nat} (h : key.length = len) :
    hexToKey (keyToHex key) len = some key := by
  have hlen : (keyToHex key).length = len * 2 := by
    rw [keyToHex, length_toHex, h, Nat.mul_comm]
  rw [hexToKey, if_neg (by simpa using hlen), keyToHex, fromHex_toHex]

theorem hexToKey_of_decodeHex {text key : Bytes} {len : Nat} (hlen : text.length = len * 2)
    (h : decodeHex text = some key) : hexToKey text len = some key := by
  rw [hexToKey, if_neg (by simpa using hlen), fromHex_of_decodeHex h]

/-! ## Texts of hexadecimal digits -/

/-- Two hexadecimal digits for each byte, and nothing else. -/
structure HexText (len : Nat) (text : Bytes) : Prop where
  length : text.length = len * 2
  digits : ∀ b ∈ text, (hexVal? b).isSome = true

/-- The right number of characters, and one of them is no digit. -/
def Mistyped (len : Nat) (text : Bytes) : Prop :=
  text.length = len * 2 ∧ ∃ b ∈ text, hexVal? b = none

instance (len : Nat) (text : Bytes) : Decidable (Mistyped len text) :=
  inferInstanceAs (Decidable (_ ∧ _))

/-- A text is taken exactly if it is digits, and then as the bytes that they are. -/
structure ReadExactly (len : Nat) (hex : Bytes) : Prop where
  accepted : (hexToKey hex len).isSome = true ↔ HexText len hex
  read : HexText len hex → ∃ key, hexToKey hex len = some key ∧ keyToHex key = lowerCase hex

section hexText

variable {len : Nat} {hex text text' key : Bytes}

theorem isSome_hexToKey : (hexToKey hex len).isSome = true ↔ hex.length = len * 2 := by
  unfold hexToKey
  split
  · simpa using ‹hex.length ≠ len * 2›
  · simpa using ‹¬ hex.length ≠ len * 2›

theorem HexText.read (h : HexText len text) :
    ∃ key, hexToKey text len = some key ∧ keyToHex key = lowerCase text := by
  obtain ⟨key, hkey⟩ := exists_decodeHex h.length h.digits
  exact ⟨key, hexToKey_of_decodeHex h.length hkey, toHex_of_decodeHex hkey⟩

theorem hexText_of_not_mistyped (h : ¬ Mistyped len text) (hlen : text.length = len * 2) :
    HexText len text := by
  refine ⟨hlen, fun b hb => Option.isSome_iff_ne_none.mpr fun hnone => ?_⟩
  exact h ⟨hlen, b, hb, hnone⟩

theorem HexText.not_mistyped (h : HexText len text) : ¬ Mistyped len text := by
  intro hmistyped
  obtain ⟨_, b, hb, hnone⟩ := hmistyped
  exact Option.isSome_iff_ne_none.mp (h.digits b hb) hnone

/-- The characters are not looked at. -/
theorem readExactly_iff : ReadExactly len hex ↔ ¬ Mistyped len hex := by
  constructor
  · intro h hmistyped
    exact (h.accepted.mp (isSome_hexToKey.mpr hmistyped.1)).not_mistyped hmistyped
  · intro h
    refine ⟨?_, HexText.read⟩
    rw [isSome_hexToKey]
    exact ⟨hexText_of_not_mistyped h, HexText.length⟩

theorem HexText.lowerCase_inj (h : HexText len text) (h' : HexText len text')
    (hkey : hexToKey text len = some key) (hkey' : hexToKey text' len = some key) :
    lowerCase text = lowerCase text' := by
  obtain ⟨read, hread, hlower⟩ := h.read
  obtain ⟨read', hread', hlower'⟩ := h'.read
  rw [hkey] at hread
  rw [hkey'] at hread'
  cases hread
  cases hread'
  rw [← hlower, hlower']

end hexText

end LinuxLive.IdentityManager
