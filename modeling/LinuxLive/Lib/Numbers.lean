import Mathlib.Algebra.Ring.Int.Defs
import Mathlib.Algebra.Ring.Nat
import LinuxLive.Lib.Hex

/-!
# Numbers read from a text

`std::stoi` and `std::stoul` in base ten: blanks, one sign and at least one digit, with
whatever stands behind the digits left unread.
-/

namespace LinuxLive

inductive NumberError where
  | invalidArgument
  | outOfRange
  deriving DecidableEq, Repr

/-- The number at the front of a text that has to start with a digit. -/
def readDigits (text : Bytes) : Except NumberError Nat :=
  match text.takeWhile isDigit with
  | [] => .error .invalidArgument
  | d :: ds => .ok (decimalVal (d :: ds))

/-- Whether there is a minus sign, and the number behind blanks and sign. -/
def readSigned (text : Bytes) : Except NumberError (Bool × Nat) :=
  match text.dropWhile isCSpace with
  | [] => .error .invalidArgument
  | b :: rest =>
      if b = 45 then return (true, ← readDigits rest)
      else if b = 43 then return (false, ← readDigits rest)
      else return (false, ← readDigits (b :: rest))

/-- A number that does not fit in an `int` is out of range. -/
def checkInt (n : Int) : Except NumberError Int :=
  if -2 ^ 31 ≤ n ∧ n < 2 ^ 31 then .ok n else .error .outOfRange

def stoi (text : Bytes) : Except NumberError Int := do
  let (negative, magnitude) ← readSigned text
  checkInt (if negative then -magnitude else magnitude)

def checkUlong (n : Nat) : Except NumberError Nat :=
  if n < 2 ^ 64 then .ok n else .error .outOfRange

/-- A minus sign negates in unsigned 64-bit arithmetic. -/
def stoul (text : Bytes) : Except NumberError Nat := do
  let (negative, magnitude) ← readSigned text
  let n ← checkUlong magnitude
  return if negative then (2 ^ 64 - n) % 2 ^ 64 else n

/-! ## The texts that are read -/

/-- A number as it stands in a text: blanks, a sign, digits, and a rest that begins with no
digit. -/
structure NumberText where
  blanks : Bytes
  sign : Bytes
  digits : Bytes
  rest : Bytes
  blank : ∀ b ∈ blanks, isCSpace b = true
  sign_eq : sign = [] ∨ sign = [43] ∨ sign = [45]
  digits_ne : digits ≠ []
  digit : ∀ b ∈ digits, isDigit b = true
  rest_head : ∀ b ∈ rest.head?, isDigit b = false

namespace NumberText

def text (t : NumberText) : Bytes := t.blanks ++ (t.sign ++ (t.digits ++ t.rest))

def value (t : NumberText) : Int :=
  if t.sign = [45] then -decimalVal t.digits else decimalVal t.digits

/-- Digits and nothing else. -/
def ofDigits (digits : Bytes) (hne : digits ≠ []) (h : ∀ b ∈ digits, isDigit b = true) :
    NumberText where
  blanks := []
  sign := []
  digits := digits
  rest := []
  blank _ hb := absurd hb List.not_mem_nil
  sign_eq := .inl rfl
  digits_ne := hne
  digit := h
  rest_head _ hb := nomatch hb

theorem readDigits_eq (t : NumberText) :
    readDigits (t.digits ++ t.rest) = .ok (decimalVal t.digits) := by
  have hend : t.rest.takeWhile isDigit = [] := by
    cases h : t.rest with
    | nil => rfl
    | cons b rest =>
        have hb : isDigit b = false := t.rest_head b (by simp [h])
        exact List.takeWhile_cons_of_neg (by simp [hb])
  have htake : (t.digits ++ t.rest).takeWhile isDigit = t.digits := by
    rw [List.takeWhile_append_of_pos t.digit, hend, List.append_nil]
  unfold readDigits
  rw [htake]
  split
  · exact absurd ‹_› t.digits_ne
  · rename_i hdigits
    rw [hdigits]

/-- Neither a digit nor a sign is a blank, and no digit is a sign. -/
theorem head_digits (t : NumberText) : ∃ d ds, t.digits = d :: ds ∧ isCSpace d = false ∧
    d ≠ 45 ∧ d ≠ 43 := by
  obtain ⟨d, ds, hdigits⟩ := List.exists_cons_of_ne_nil t.digits_ne
  have hd := isDigit_le (t.digit d (hdigits ▸ List.mem_cons_self))
  have hspace : isCSpace d = false := by
    rw [Bool.eq_false_iff]
    intro hspace
    simp only [isCSpace, Bool.or_eq_true, beq_iff_eq, Bool.and_eq_true, decide_eq_true_eq]
      at hspace
    simp only [UInt8.le_iff_toNat_le, ← UInt8.toNat_inj] at hd hspace
    simp only [UInt8.reduceToNat] at hd hspace
    omega
  refine ⟨d, ds, hdigits, hspace, ?_, ?_⟩
  · intro heq
    rw [heq] at hd
    exact absurd hd (by decide)
  · intro heq
    rw [heq] at hd
    exact absurd hd (by decide)

theorem readSigned_text (t : NumberText) :
    readSigned t.text = .ok (decide (t.sign = [45]), decimalVal t.digits) := by
  have hread := t.readDigits_eq
  obtain ⟨d, ds, hdigits, hspace, hminus, hplus⟩ := t.head_digits
  have hskip : t.text.dropWhile isCSpace = t.sign ++ (t.digits ++ t.rest) := by
    rw [text, List.dropWhile_append_of_pos t.blank]
    rcases t.sign_eq with h | h | h
    · rw [h, hdigits]
      exact List.dropWhile_cons_of_neg (by simp [hspace])
    · rw [h]
      exact List.dropWhile_cons_of_neg (by decide)
    · rw [h]
      exact List.dropWhile_cons_of_neg (by decide)
  unfold readSigned
  rw [hskip]
  rcases t.sign_eq with h | h | h
  · rw [hdigits, List.cons_append] at hread
    rw [h, hdigits]
    simp only [List.nil_append, List.cons_append, if_neg hminus, if_neg hplus, hread]
    rfl
  · rw [h]
    simp only [List.cons_append, List.nil_append, hread]
    rfl
  · rw [h]
    simp only [List.cons_append, List.nil_append, hread]
    rfl

theorem stoi_text (t : NumberText) : stoi t.text = checkInt t.value := by
  unfold stoi
  rw [t.readSigned_text]
  simp only [bind, Except.bind, value, decide_eq_true_eq]

/-- What is read behind blanks and a sign is a number. -/
theorem exists_of_readDigits {blanks sign text : Bytes} {m : Nat}
    (hblanks : ∀ b ∈ blanks, isCSpace b = true) (hsign : sign = [] ∨ sign = [43] ∨ sign = [45])
    (h : readDigits text = .ok m) : ∃ t : NumberText, t.text = blanks ++ (sign ++ text) ∧
      t.sign = sign ∧ decimalVal t.digits = m := by
  have hrest : ∀ b ∈ (text.dropWhile isDigit).head?, isDigit b = false := by
    intro b hb
    have hhead := List.head?_dropWhile_not isDigit text
    rw [Option.mem_def.mp hb] at hhead
    exact hhead
  have hdigit : ∀ b ∈ text.takeWhile isDigit, isDigit b = true :=
    fun b hb => List.all_eq_true.mp List.all_takeWhile b hb
  unfold readDigits at h
  split at h
  · cases h
  · rename_i d ds hdigits
    cases h
    have hne : text.takeWhile isDigit ≠ [] := by
      rw [hdigits]
      exact List.cons_ne_nil d ds
    refine ⟨⟨blanks, sign, _, _, hblanks, hsign, hne, hdigit, hrest⟩, ?_, rfl, ?_⟩
    · rw [NumberText.text, List.takeWhile_append_dropWhile]
    · exact congrArg decimalVal hdigits

theorem exists_of_readSigned {text : Bytes} {negative : Bool} {m : Nat}
    (h : readSigned text = .ok (negative, m)) : ∃ t : NumberText, t.text = text ∧
      decide (t.sign = [45]) = negative ∧ decimalVal t.digits = m := by
  have hblanks : ∀ b ∈ text.takeWhile isCSpace, isCSpace b = true :=
    fun b hb => List.all_eq_true.mp List.all_takeWhile b hb
  have hsplit := List.takeWhile_append_dropWhile (p := isCSpace) (l := text)
  unfold readSigned at h
  cases hdrop : text.dropWhile isCSpace with
  | nil => simp [hdrop] at h
  | cons b rest =>
      simp only [hdrop] at h
      rw [hdrop] at hsplit
      -- the number behind the sign, in each of the three cases
      have hread : ∀ (sign : Bytes) {digits : Bytes} {neg : Bool}, sign ++ digits = b :: rest →
          (sign = [] ∨ sign = [43] ∨ sign = [45]) → decide (sign = [45]) = neg →
          (do return (neg, ← readDigits digits)) = Except.ok (negative, m) →
          ∃ t : NumberText, t.text = text ∧ decide (t.sign = [45]) = negative ∧
            decimalVal t.digits = m := by
        intro sign digits neg htext hsign hneg h
        cases hm : readDigits digits with
        | error e => simp [hm, bind, Except.bind] at h
        | ok k =>
            simp only [hm, bind, Except.bind, pure, Except.pure, Except.ok.injEq,
              Prod.mk.injEq] at h
            obtain ⟨rfl, rfl⟩ := h
            obtain ⟨t, htext', hsign', hval⟩ := exists_of_readDigits hblanks hsign hm
            rw [htext, hsplit] at htext'
            exact ⟨t, htext', hsign' ▸ hneg, hval⟩
      by_cases hminus : b = 45
      · rw [if_pos hminus] at h
        exact hread [45] (by rw [hminus]; rfl) (.inr (.inr rfl)) (by decide) h
      · rw [if_neg hminus] at h
        by_cases hplus : b = 43
        · rw [if_pos hplus] at h
          exact hread [43] (by rw [hplus]; rfl) (.inr (.inl rfl)) (by decide) h
        · rw [if_neg hplus] at h
          exact hread [] rfl (.inl rfl) (by decide) h

theorem checkInt_eq_ok_iff {k n : Int} :
    checkInt k = .ok n ↔ k = n ∧ -2 ^ 31 ≤ n ∧ n < 2 ^ 31 := by
  unfold checkInt
  split
  · rename_i hrange
    rw [Except.ok.injEq]
    exact ⟨fun h => ⟨h, h ▸ hrange⟩, fun h => h.1⟩
  · rename_i hrange
    exact ⟨nofun, fun h => absurd (h.1 ▸ h.2) hrange⟩

/-- A text is read exactly if it is a number of 32 bits. -/
theorem stoi_eq_ok_iff {text : Bytes} {n : Int} : stoi text = .ok n ↔
    ∃ t : NumberText, t.text = text ∧ t.value = n ∧ -2 ^ 31 ≤ n ∧ n < 2 ^ 31 := by
  constructor
  · intro h
    cases hread : readSigned text with
    | error e => simp [stoi, hread, bind, Except.bind] at h
    | ok r =>
        obtain ⟨negative, m⟩ := r
        obtain ⟨t, rfl, _, _⟩ := exists_of_readSigned hread
        rw [stoi_text, checkInt_eq_ok_iff] at h
        exact ⟨t, rfl, h⟩
  · intro h
    obtain ⟨t, rfl, hvalue⟩ := h
    rw [stoi_text, checkInt_eq_ok_iff]
    exact hvalue

end NumberText

theorem stoi_range {text : Bytes} {n : Int} (h : stoi text = .ok n) :
    -2 ^ 31 ≤ n ∧ n < 2 ^ 31 := by
  obtain ⟨_, _, _, hrange⟩ := NumberText.stoi_eq_ok_iff.mp h
  exact hrange

example : stoi (lit " -12:x") = .ok (-12) ∧ stoul (lit "-1") = .ok (2 ^ 64 - 1) ∧
    stoi (lit "2147483648") = .error .outOfRange := by decide

end LinuxLive
