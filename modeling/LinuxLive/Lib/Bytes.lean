import Mathlib.Data.List.Basic

/-!
# Byte strings

A C++ `std::string` is any sequence of bytes.  This module has the byte strings
themselves, string literals, well-formed UTF-8 and the decimal text of a number.
-/

namespace LinuxLive

abbrev Bytes := List UInt8

/-- The bytes of a string literal. -/
def lit (s : String) : Bytes := s.toByteArray.data.toList

@[simp] theorem lit_inj {a b : String} : lit a = lit b ↔ a = b := by
  constructor
  · intro h
    exact String.toByteArray_inj.1 (ByteArray.ext (Array.toList_inj.1 h))
  · rintro rfl
    rfl

/-! ## UTF-8 -/

namespace Utf8

/-- What the bytes after an incomplete sequence have to be. -/
inductive State where
  | start
  | tail1
  | tail2
  | tail3
  | afterE0
  | afterED
  | afterF0
  | afterF4
  deriving DecidableEq, Repr

/-- The state after the first byte of a code point. -/
def first (b : UInt8) : Option State :=
  if b ≤ 0x7F then some .start
  else if b < 0xC2 then none
  else if b ≤ 0xDF then some .tail1
  else if b = 0xE0 then some .afterE0
  else if b = 0xED then some .afterED
  else if b ≤ 0xEF then some .tail2
  else if b = 0xF0 then some .afterF0
  else if b ≤ 0xF3 then some .tail3
  else if b = 0xF4 then some .afterF4
  else none

def within (low high b : UInt8) (next : State) : Option State :=
  if low ≤ b ∧ b ≤ high then some next else none

def step : State → UInt8 → Option State
  | .start, b => first b
  | .tail1, b => within 0x80 0xBF b .start
  | .tail2, b => within 0x80 0xBF b .tail1
  | .tail3, b => within 0x80 0xBF b .tail2
  | .afterE0, b => within 0xA0 0xBF b .tail1
  | .afterED, b => within 0x80 0x9F b .tail1
  | .afterF0, b => within 0x90 0xBF b .tail2
  | .afterF4, b => within 0x80 0x8F b .tail2

end Utf8

/-- Well-formed UTF-8: the automaton is between two code points at the end. -/
def utf8 (s : Bytes) : Bool := s.foldlM Utf8.step .start == some .start

@[simp] theorem utf8_nil : utf8 [] = true := rfl

theorem utf8_iff {s : Bytes} :
    utf8 s = true ↔ s.foldlM Utf8.step .start = some .start := by
  simp [utf8]

theorem utf8_append {s t : Bytes} (hs : utf8 s = true) : utf8 (s ++ t) = utf8 t := by
  rw [utf8_iff] at hs
  simp [utf8, List.foldlM_append, hs]

theorem utf8_of_ascii {s : Bytes} (h : ∀ b ∈ s, b ≤ 0x7F) : utf8 s = true := by
  induction s with
  | nil => rfl
  | cons b s ih =>
      have hb : utf8 [b] = true := by
        simp [utf8, Utf8.step, Utf8.first, h b List.mem_cons_self]
      have hs := ih fun c hc => h c (List.mem_cons_of_mem b hc)
      simpa [hs] using utf8_append (t := s) hb

/-- A plain character is a code point of its own and never ends another one. -/
theorem Utf8.step_of_ascii {b : UInt8} (h : b ≤ 0x7F) (state : Utf8.State) :
    Utf8.step state b = if state = .start then some .start else none := by
  have hwithin : ∀ {low high : UInt8} {next : Utf8.State}, 0x80 ≤ low →
      Utf8.within low high b next = none := by
    intro low high next hlow
    refine if_neg fun hb => ?_
    have hle := UInt8.le_trans hlow (UInt8.le_trans hb.1 h)
    exact absurd hle (by decide)
  cases state with
  | start => exact if_pos h
  | _ => exact hwithin (by decide)

/-! ## Literals are well-formed -/

namespace Utf8

theorem within_ofNat {low high : UInt8} {n : Nat} {next : State} (hlow : low.toNat ≤ n)
    (hhigh : n ≤ high.toNat) : within low high (UInt8.ofNat n) next = some next := by
  have hn : n < 256 := Nat.lt_of_le_of_lt hhigh high.toNat_lt
  have htoNat : (UInt8.ofNat n).toNat = n := UInt8.toNat_ofNat_of_lt hn
  simp only [within, UInt8.le_iff_toNat_le, htoNat]
  exact if_pos ⟨hlow, hhigh⟩

/-- The first bytes of the shortest encodings, by their number. -/
theorem first_ofNat {n : Nat} {state : State} (hn : n < 256)
    (h : n ≤ 0x7F ∧ state = .start ∨ 0xC2 ≤ n ∧ n ≤ 0xDF ∧ state = .tail1 ∨
      n = 0xE0 ∧ state = .afterE0 ∨ n = 0xED ∧ state = .afterED ∨
      0xE1 ≤ n ∧ n ≤ 0xEF ∧ n ≠ 0xED ∧ state = .tail2 ∨ n = 0xF0 ∧ state = .afterF0 ∨
      0xF1 ≤ n ∧ n ≤ 0xF3 ∧ state = .tail3 ∨ n = 0xF4 ∧ state = .afterF4) :
    first (UInt8.ofNat n) = some state := by
  have htoNat : (UInt8.ofNat n).toNat = n := UInt8.toNat_ofNat_of_lt hn
  have hfirst : first (UInt8.ofNat n) =
      if n ≤ 0x7F then some .start
      else if n < 0xC2 then none
      else if n ≤ 0xDF then some .tail1
      else if n = 0xE0 then some .afterE0
      else if n = 0xED then some .afterED
      else if n ≤ 0xEF then some .tail2
      else if n = 0xF0 then some .afterF0
      else if n ≤ 0xF3 then some .tail3
      else if n = 0xF4 then some .afterF4
      else none := by
    simp only [first, UInt8.le_iff_toNat_le, UInt8.lt_iff_toNat_lt, ← UInt8.toNat_inj, htoNat]
    rfl
  rw [hfirst]
  grind

section encoding

variable {v : Nat}

private theorem within_last : within 0x80 0xBF (UInt8.ofNat (v % 0x40 + 0x80)) .start =
    some .start := within_ofNat (Nat.le_add_left _ _) (show _ ≤ 0xBF by omega)

private theorem within_middle : within 0x80 0xBF (UInt8.ofNat (v / 64 % 0x40 + 0x80)) .tail1 =
    some .tail1 := within_ofNat (Nat.le_add_left _ _) (show _ ≤ 0xBF by omega)

/-- Three bytes: the second one excludes overlong forms and surrogates. -/
private theorem encode_three (hlow : 0x7FF < v) (hhigh : v ≤ 0xFFFF)
    (hscalar : v < 0xD800 ∨ 0xDFFF < v) :
    [UInt8.ofNat (v / 4096 % 0x10 + 0xE0), UInt8.ofNat (v / 64 % 0x40 + 0x80),
      UInt8.ofNat (v % 0x40 + 0x80)].foldlM step .start = some .start := by
  by_cases hE0 : v < 0x1000
  · have hfirst : first (UInt8.ofNat (v / 4096 % 0x10 + 0xE0)) = some .afterE0 :=
      first_ofNat (by omega) (by simp; omega)
    have hsecond : within 0xA0 0xBF (UInt8.ofNat (v / 64 % 0x40 + 0x80)) .tail1 = some .tail1 :=
      within_ofNat (show 0xA0 ≤ _ by omega) (show _ ≤ 0xBF by omega)
    simp only [List.foldlM_cons, step, hfirst, bind, Option.bind, hsecond, within_last]
    rfl
  · by_cases hED : v / 4096 = 0xD
    · have hfirst : first (UInt8.ofNat (v / 4096 % 0x10 + 0xE0)) = some .afterED :=
        first_ofNat (by omega) (by simp; omega)
      have hsecond : within 0x80 0x9F (UInt8.ofNat (v / 64 % 0x40 + 0x80)) .tail1 = some .tail1 :=
        within_ofNat (Nat.le_add_left _ _) (show _ ≤ 0x9F by omega)
      simp only [List.foldlM_cons, step, hfirst, bind, Option.bind, hsecond, within_last]
      rfl
    · have hfirst : first (UInt8.ofNat (v / 4096 % 0x10 + 0xE0)) = some .tail2 :=
        first_ofNat (by omega) (by simp; omega)
      simp only [List.foldlM_cons, step, hfirst, bind, Option.bind, within_middle, within_last]
      rfl

/-- Four bytes: the second one excludes overlong forms and numbers past the last plane. -/
private theorem encode_four (hlow : 0xFFFF < v) (hhigh : v < 0x110000) :
    [UInt8.ofNat (v / 262144 % 0x08 + 0xF0), UInt8.ofNat (v / 4096 % 0x40 + 0x80),
      UInt8.ofNat (v / 64 % 0x40 + 0x80), UInt8.ofNat (v % 0x40 + 0x80)].foldlM step .start =
      some .start := by
  by_cases hF0 : v < 0x40000
  · have hfirst : first (UInt8.ofNat (v / 262144 % 0x08 + 0xF0)) = some .afterF0 :=
      first_ofNat (by omega) (by simp; omega)
    have hsecond : within 0x90 0xBF (UInt8.ofNat (v / 4096 % 0x40 + 0x80)) .tail2 = some .tail2 :=
      within_ofNat (show 0x90 ≤ _ by omega) (show _ ≤ 0xBF by omega)
    simp only [List.foldlM_cons, step, hfirst, bind, Option.bind, hsecond, within_middle,
      within_last]
    rfl
  · by_cases hF4 : v / 262144 = 4
    · have hfirst : first (UInt8.ofNat (v / 262144 % 0x08 + 0xF0)) = some .afterF4 :=
        first_ofNat (by omega) (by simp; omega)
      have hsecond : within 0x80 0x8F (UInt8.ofNat (v / 4096 % 0x40 + 0x80)) .tail2 =
          some .tail2 := within_ofNat (Nat.le_add_left _ _) (show _ ≤ 0x8F by omega)
      simp only [List.foldlM_cons, step, hfirst, bind, Option.bind, hsecond, within_middle,
        within_last]
      rfl
    · have hfirst : first (UInt8.ofNat (v / 262144 % 0x08 + 0xF0)) = some .tail3 :=
        first_ofNat (by omega) (by simp; omega)
      have hsecond : within 0x80 0xBF (UInt8.ofNat (v / 4096 % 0x40 + 0x80)) .tail2 =
          some .tail2 := within_ofNat (Nat.le_add_left _ _) (show _ ≤ 0xBF by omega)
      simp only [List.foldlM_cons, step, hfirst, bind, Option.bind, hsecond, within_middle,
        within_last]
      rfl

end encoding

end Utf8

open Utf8 in
/-- The encoding of a code point takes the automaton once around. -/
theorem utf8_encodeChar (c : Char) : utf8 (String.utf8EncodeChar c) = true := by
  have hscalar : c.val.toNat < 0xD800 ∨ 0xDFFF < c.val.toNat ∧ c.val.toNat < 0x110000 := c.valid
  rw [utf8_iff]
  unfold String.utf8EncodeChar
  generalize c.val.toNat = v at hscalar
  dsimp only
  by_cases h1 : v ≤ 0x7F
  · have hfirst : first (UInt8.ofNat v) = some .start := first_ofNat (by omega) (by simp; omega)
    simp only [if_pos h1, List.foldlM_cons, step, hfirst]
    rfl
  · rw [if_neg h1]
    by_cases h2 : v ≤ 0x7FF
    · have hfirst : first (UInt8.ofNat (v / 64 % 0x20 + 0xC0)) = some .tail1 :=
        first_ofNat (by omega) (by simp; omega)
      simp only [if_pos h2, List.foldlM_cons, step, hfirst, bind, Option.bind, within_last]
      rfl
    · rw [if_neg h2]
      by_cases h3 : v ≤ 0xFFFF
      · rw [if_pos h3]
        exact encode_three (by omega) h3 (by omega)
      · rw [if_neg h3]
        exact encode_four (by omega) (by omega)

@[simp] theorem utf8_lit (s : String) : utf8 (lit s) = true := by
  obtain ⟨m, hm⟩ := s.isValidUTF8
  have hbytes : lit s = m.flatMap String.utf8EncodeChar := by
    rw [lit, hm, List.utf8Encode]
    simp
  rw [hbytes]
  clear hm hbytes
  induction m with
  | nil => rfl
  | cons c m ih => rw [List.flatMap_cons, utf8_append (utf8_encodeChar c), ih]

/-! ## Decimal text -/

def digit (d : Nat) : UInt8 := UInt8.ofNat (48 + d)

def digitVal (b : UInt8) : Nat := b.toNat - 48

def isDigit (b : UInt8) : Bool := 48 ≤ b && b ≤ 57

/-- `std::to_string` of an unsigned number. -/
def decimal (n : Nat) : Bytes := (Nat.toDigits 10 n).map fun c => UInt8.ofNat c.toNat

def decimalVal (s : Bytes) : Nat := s.foldl (fun acc b => 10 * acc + digitVal b) 0

theorem isDigit_digit : ∀ d, d < 10 → isDigit (digit d) = true := by decide

theorem digitVal_digit : ∀ d, d < 10 → digitVal (digit d) = d := by decide

private theorem ofNat_digitChar : ∀ d, d < 10 → UInt8.ofNat (Nat.digitChar d).toNat = digit d := by
  decide

/-- The last digit comes off the end. -/
theorem decimal_eq (n : Nat) :
    decimal n = (if n < 10 then [] else decimal (n / 10)) ++ [digit (n % 10)] := by
  unfold decimal
  rw [Nat.toDigits_eq_if (by omega)]
  have hd := ofNat_digitChar (n % 10) (Nat.mod_lt n (by omega))
  split
  · rename_i hn
    rw [Nat.mod_eq_of_lt hn] at hd ⊢
    simp [hd]
  · simp [hd]

theorem decimalVal_decimal (n : Nat) : decimalVal (decimal n) = n := by
  induction n using Nat.strongRecOn with
  | ind n ih =>
      have hd := digitVal_digit (n % 10) (Nat.mod_lt n (by omega))
      rw [decimal_eq]
      split
      · rename_i hn
        rw [Nat.mod_eq_of_lt hn] at hd ⊢
        simp [decimalVal, hd]
      · have hrec := ih (n / 10) (by omega)
        simp only [decimalVal, List.foldl_append, List.foldl_cons, List.foldl_nil] at hrec ⊢
        rw [hrec, hd]
        omega

theorem decimal_inj {m n : Nat} : decimal m = decimal n ↔ m = n := by
  constructor
  · intro h
    rw [← decimalVal_decimal m, h, decimalVal_decimal]
  · rintro rfl
    rfl

theorem isDigit_of_mem_decimal {n : Nat} {b : UInt8} (hb : b ∈ decimal n) : isDigit b = true := by
  induction n using Nat.strongRecOn with
  | ind n ih =>
      rw [decimal_eq, List.mem_append] at hb
      rcases hb with hb | hb
      · split at hb
        · simp at hb
        · exact ih (n / 10) (by omega) hb
      · rw [List.mem_singleton.mp hb]
        exact isDigit_digit _ (Nat.mod_lt n (by omega))

theorem decimal_ne_nil (n : Nat) : decimal n ≠ [] := by
  rw [decimal_eq]
  simp

theorem takeWhile_decimal {c : UInt8} (hc : isDigit c = false) (n : Nat) (t : Bytes) :
    (decimal n ++ c :: t).takeWhile isDigit = decimal n := by
  rw [List.takeWhile_append_of_pos fun b hb => isDigit_of_mem_decimal hb,
    List.takeWhile_cons_of_neg (by simp [hc]), List.append_nil]

theorem decimal_append_inj {m n : Nat} {c : UInt8} {t t' : Bytes} (hc : isDigit c = false) :
    decimal m ++ c :: t = decimal n ++ c :: t' ↔ m = n ∧ t = t' := by
  constructor
  · intro h
    have hword : decimal m = decimal n := by
      rw [← takeWhile_decimal hc m t, h, takeWhile_decimal hc]
    rw [hword] at h
    have htail := List.append_cancel_left h
    exact ⟨decimal_inj.mp hword, (List.cons.inj htail).2⟩
  · intro h
    rw [h.1, h.2]

theorem isDigit_le {b : UInt8} (h : isDigit b = true) : 48 ≤ b ∧ b ≤ 57 := by
  simpa [isDigit] using h

theorem utf8_decimal (n : Nat) : utf8 (decimal n) = true := by
  apply utf8_of_ascii
  intro b hb
  have h := (isDigit_le (isDigit_of_mem_decimal hb)).2
  exact UInt8.le_trans h (by decide)

end LinuxLive
