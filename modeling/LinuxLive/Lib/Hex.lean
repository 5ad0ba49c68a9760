import LinuxLive.Lib.Bytes

/-!
# Hexadecimal texts

Lower-case hexadecimal digits of bytes, and the reading of two digits at a time with
`strtoul`, which also takes white space, signs and other spellings.
-/

namespace LinuxLive

def hexDigit (d : Nat) : UInt8 := if d < 10 then UInt8.ofNat (48 + d) else UInt8.ofNat (87 + d)

def hexVal? (b : UInt8) : Option Nat :=
  if 48 ≤ b ∧ b ≤ 57 then some (b.toNat - 48)
  else if 97 ≤ b ∧ b ≤ 102 then some (b.toNat - 87)
  else if 65 ≤ b ∧ b ≤ 70 then some (b.toNat - 55)
  else none

theorem hexVal?_hexDigit : ∀ d, d < 16 → hexVal? (hexDigit d) = some d := by decide

theorem hexDigit_le : ∀ d, d < 16 → hexDigit d ≤ 0x7F := by decide

/-- `std::hex << std::setw(2) << std::setfill('0')`. -/
def hexByte (b : UInt8) : Bytes := [hexDigit (b.toNat / 16), hexDigit (b.toNat % 16)]

def toHex (bs : Bytes) : Bytes := bs.flatMap hexByte

@[simp] theorem toHex_cons (b : UInt8) (bs : Bytes) :
    toHex (b :: bs) = hexDigit (b.toNat / 16) :: hexDigit (b.toNat % 16) :: toHex bs := rfl

theorem length_toHex (bs : Bytes) : (toHex bs).length = 2 * bs.length := by
  induction bs with
  | nil => rfl
  | cons b bs ih =>
      rw [toHex_cons, List.length_cons, List.length_cons, List.length_cons, ih]
      omega

theorem mem_toHex {bs : Bytes} {c : UInt8} (h : c ∈ toHex bs) : ∃ d, d < 16 ∧ c = hexDigit d := by
  obtain ⟨b, _, hb⟩ := List.mem_flatMap.mp h
  have hlt := b.toNat_lt
  simp only [hexByte, List.mem_cons, List.not_mem_nil, or_false] at hb
  rcases hb with hb | hb
  · exact ⟨_, by omega, hb⟩
  · exact ⟨_, by omega, hb⟩

theorem utf8_toHex (bs : Bytes) : utf8 (toHex bs) = true := by
  apply utf8_of_ascii
  intro c hc
  obtain ⟨d, hd, rfl⟩ := mem_toHex hc
  exact hexDigit_le d hd

theorem zero_not_mem_toHex (bs : Bytes) : 0 ∉ toHex bs := by
  intro h
  obtain ⟨d, hd, hzero⟩ := mem_toHex h
  have hne : ∀ d, d < 16 → hexDigit d ≠ 0 := by decide
  exact hne d hd hzero.symm

/-! ## Reading -/

/-- `isspace` in the C locale. -/
def isCSpace (b : UInt8) : Bool := b == 32 || (9 ≤ b && b ≤ 13)

/-- The digits of the longest prefix. -/
def hexDigits (acc : Nat) : Bytes → Nat
  | [] => acc
  | b :: bs =>
      match hexVal? b with
      | some d => hexDigits (16 * acc + d) bs
      | none => acc

/-- Without an optional `0x`; a zero is read either way. -/
def dropHexPrefix : Bytes → Bytes
  | 48 :: b :: bs => if b == 120 || b == 88 then bs else 48 :: b :: bs
  | bs => bs

/-- `strtoul(text, nullptr, 16)` on texts that do not overflow: a minus sign negates. -/
def strtoul16 (text : Bytes) : Int :=
  match (text.takeWhile (· != 0)).dropWhile isCSpace with
  | 45 :: bs => -(hexDigits 0 (dropHexPrefix bs) : Int)
  | 43 :: bs => hexDigits 0 (dropHexPrefix bs)
  | bs => hexDigits 0 (dropHexPrefix bs)

/-- Two characters at a time, each pair cut to a byte. -/
def fromHex : Bytes → Bytes
  | a :: b :: text => UInt8.ofInt (strtoul16 [a, b]) :: fromHex text
  | _ => []

private theorem strtoul16_hexByte : ∀ d, d < 16 → ∀ e, e < 16 →
    strtoul16 [hexDigit d, hexDigit e] = (16 * d + e : Nat) := by decide

theorem fromHex_toHex (bs : Bytes) : fromHex (toHex bs) = bs := by
  induction bs with
  | nil => rfl
  | cons b bs ih =>
      have hlt := b.toNat_lt
      have hbyte : 16 * (b.toNat / 16) + b.toNat % 16 = b.toNat := by omega
      have hmod : ((b.toNat : Int) % 2 ^ 8).toNat = b.toNat := by omega
      rw [toHex_cons, fromHex, strtoul16_hexByte _ (by omega) _ (by omega), ih, hbyte, UInt8.ofInt,
        hmod, UInt8.ofNat_toNat]

/-! ## Digits only -/

def decodeHex : Bytes → Option Bytes
  | [] => some []
  | [_] => none
  | a :: b :: text =>
      match hexVal? a, hexVal? b, decodeHex text with
      | some x, some y, some bs => some (UInt8.ofNat (16 * x + y) :: bs)
      | _, _, _ => none

theorem mem_of_hexVal? {b : UInt8} {x : Nat} (h : hexVal? b = some x) :
    b ∈ lit "0123456789abcdefABCDEF" := by
  have hall : ∀ n, n < 256 → (hexVal? (UInt8.ofNat n)).isSome = true →
      UInt8.ofNat n ∈ lit "0123456789abcdefABCDEF" := by decide +kernel
  have hmem := hall b.toNat b.toNat_lt
  rw [UInt8.ofNat_toNat, h] at hmem
  exact hmem rfl

theorem strtoul16_digits {a b : UInt8} {x y : Nat} (ha : hexVal? a = some x)
    (hb : hexVal? b = some y) : strtoul16 [a, b] = (16 * x + y : Nat) := by
  have hall : ∀ a ∈ lit "0123456789abcdefABCDEF", ∀ b ∈ lit "0123456789abcdefABCDEF",
      strtoul16 [a, b] = (16 * (hexVal? a).getD 0 + (hexVal? b).getD 0 : Nat) := by
    decide +kernel
  have hread := hall a (mem_of_hexVal? ha) b (mem_of_hexVal? hb)
  rwa [ha, hb] at hread

theorem fromHex_of_decodeHex : ∀ {text bytes : Bytes}, decodeHex text = some bytes →
    fromHex text = bytes
  | [], bytes, h => by
      cases h
      rfl
  | [_], bytes, h => by cases h
  | a :: b :: text, bytes, h => by
      unfold decodeHex at h
      split at h
      · rename_i x y bs hx hy hbs
        have hcast : UInt8.ofInt ((16 * x + y : Nat) : Int) = UInt8.ofNat (16 * x + y) := by
          apply UInt8.toNat_inj.mp
          rw [UInt8.ofInt, UInt8.toNat_ofNat', UInt8.toNat_ofNat']
          omega
        cases h
        rw [fromHex, strtoul16_digits hx hy, hcast, fromHex_of_decodeHex hbs]
      · cases h

/-- `tolower` in the C locale. -/
def lowerCase (text : Bytes) : Bytes := text.map fun b => if 65 ≤ b ∧ b ≤ 90 then b + 32 else b

theorem lowerCase_of_hexVal? {b : UInt8} {x : Nat} (h : hexVal? b = some x) :
    x < 16 ∧ lowerCase [b] = [hexDigit x] := by
  have hall : ∀ b ∈ lit "0123456789abcdefABCDEF", (hexVal? b).getD 0 < 16 ∧
      lowerCase [b] = [hexDigit ((hexVal? b).getD 0)] := by decide +kernel
  have hspec := hall b (mem_of_hexVal? h)
  rwa [h] at hspec

theorem toHex_of_decodeHex : ∀ {text bytes : Bytes}, decodeHex text = some bytes →
    toHex bytes = lowerCase text
  | [], bytes, h => by
      cases h
      rfl
  | [_], bytes, h => by cases h
  | a :: b :: text, bytes, h => by
      unfold decodeHex at h
      split at h
      · rename_i x y bs hx hy hbs
        obtain ⟨hx16, ha⟩ := lowerCase_of_hexVal? hx
        obtain ⟨hy16, hb⟩ := lowerCase_of_hexVal? hy
        have hbyte : (UInt8.ofNat (16 * x + y)).toNat = 16 * x + y :=
          UInt8.toNat_ofNat_of_lt (Nat.lt_of_lt_of_le (by omega : 16 * x + y < 256) (Nat.le_refl _))
        have hhigh : (16 * x + y) / 16 = x := by omega
        have hlow : (16 * x + y) % 16 = y := by omega
        have hsplit : lowerCase (a :: b :: text) =
            lowerCase [a] ++ (lowerCase [b] ++ lowerCase text) := rfl
        cases h
        rw [toHex_cons, hbyte, hhigh, hlow, toHex_of_decodeHex hbs, hsplit, ha, hb]
        rfl
      · cases h

theorem exists_decodeHex : ∀ {text : Bytes} {n : Nat}, text.length = n * 2 →
    (∀ b ∈ text, (hexVal? b).isSome = true) → ∃ bytes, decodeHex text = some bytes
  | [], _, _, _ => ⟨[], rfl⟩
  | [_], n, hlen, _ => by
      rw [List.length_singleton] at hlen
      omega
  | a :: b :: text, n, hlen, hdigits => by
      rw [List.length_cons, List.length_cons] at hlen
      rw [List.forall_mem_cons, List.forall_mem_cons] at hdigits
      obtain ⟨ha, hb, htext⟩ := hdigits
      obtain ⟨x, hx⟩ := Option.isSome_iff_exists.mp ha
      obtain ⟨y, hy⟩ := Option.isSome_iff_exists.mp hb
      obtain ⟨bytes, hbytes⟩ := exists_decodeHex (show text.length = (n - 1) * 2 by omega) htext
      exact ⟨UInt8.ofNat (16 * x + y) :: bytes, by rw [decodeHex, hx, hy, hbytes]⟩

/-- A text of two characters for each byte that is read as the bytes. -/
structure Spells (text bytes : Bytes) : Prop where
  length : text.length = 2 * bytes.length
  reads : fromHex text = bytes

/-- One byte has many spellings. -/
example : fromHex (lit "0a") = fromHex (lit " A") ∧ fromHex (lit "ff") = fromHex (lit "-1") := by
  decide

end LinuxLive
