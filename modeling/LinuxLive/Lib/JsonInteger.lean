import LinuxLive.Lib.Hex
import LinuxLive.Lib.Json
import LinuxLive.Lib.Rounding

/-!
# Integers in a JSON text

The text of an integer and the value that is read from it: a number of 64 bits, else the
nearest double, and none beyond the doubles.
-/

namespace LinuxLive.Json

def intText (n : Int) : Bytes :=
  if n < 0 then 45 :: decimal n.natAbs else decimal n.natAbs

/-- The double of the sign that is worth `rounded`, with an odd mantissa. -/
def ofRounded (negative : Bool) (rounded : Nat) : Json :=
  let (odd, twos) := Rounding.halve 1024 rounded
  .float (if negative then -odd else odd) twos

/-- The value of the text of an integer; `none` is an overflow. -/
def ofInteger (n : Int) : Option Json :=
  if -2 ^ 63 ≤ n ∧ n < 2 ^ 64 then some (.int n)
  else if Rounding.round 52 n.natAbs < 2 ^ 1024 then
    some (ofRounded (decide (n < 0)) (Rounding.round 52 n.natAbs))
  else none

section integer

variable {n : Int}

theorem ofInteger_of_fits (h : -2 ^ 63 ≤ n ∧ n < 2 ^ 64) : ofInteger n = some (.int n) := if_pos h

theorem le_natAbs (h : ¬ (-2 ^ 63 ≤ n ∧ n < 2 ^ 64)) : 2 ^ 63 ≤ n.natAbs := by omega

/-- Half a unit in the last place above the largest double, the reading overflows. -/
theorem ofInteger_eq_none_iff : ofInteger n = none ↔ 2 ^ 1024 - 2 ^ 970 ≤ n.natAbs := by
  unfold ofInteger
  split
  · rename_i hfits
    have hsmall : n.natAbs < 2 ^ 65 := by omega
    have hpow : 2 ^ 65 ≤ 2 ^ 1024 - 2 ^ 970 := by decide +kernel
    simp only [reduceCtorEq, false_iff, Nat.not_le]
    exact hsmall.trans_le hpow
  · rename_i hfits
    have hlarge := le_natAbs hfits
    have hbits : 2 ^ 52 ≤ n.natAbs := by omega
    have hlt : Rounding.round 52 n.natAbs < 2 ^ (1023 + 1) ↔
        n.natAbs < 2 ^ (1023 + 1) - 2 ^ (1023 - 52 - 1) :=
      Rounding.round_lt_iff (by decide) hbits
    rw [show 1023 + 1 = 1024 from rfl, show 1023 - 52 - 1 = 970 from rfl] at hlt
    rw [← Nat.not_lt, ← hlt]
    split
    · rename_i h
      exact iff_of_false (by simp) (not_not_intro h)
    · rename_i h
      exact iff_of_true rfl h

/-- An integer that has not 64 bits is read as a double. -/
theorem float_of_ofInteger {v : Json} (h : ¬ (-2 ^ 63 ≤ n ∧ n < 2 ^ 64))
    (hv : ofInteger n = some v) : ∃ odd twos : Nat,
      v = .float (if n < 0 then -odd else odd) twos ∧ odd % 2 = 1 ∧
        odd * 2 ^ twos = Rounding.round 52 n.natAbs ∧ Rounding.round 52 n.natAbs < 2 ^ 1024 := by
  have hle : 2 ^ 63 ≤ Rounding.round 52 n.natAbs := Rounding.le_round (by decide) (le_natAbs h)
  rw [ofInteger, if_neg h] at hv
  split at hv
  · rename_i hlt
    obtain ⟨hodd, hvalue⟩ := Rounding.halve_spec (by omega) hlt
    refine ⟨_, _, (Option.some.inj hv).symm.trans ?_, hodd, hvalue, hlt⟩
    simp only [ofRounded, decide_eq_true_eq]
  · cases hv

theorem canonical_ofInteger {v : Json} (hv : ofInteger n = some v) : v.canonical = true := by
  by_cases hfits : -2 ^ 63 ≤ n ∧ n < 2 ^ 64
  · rw [ofInteger_of_fits hfits] at hv
    cases hv
    exact canonical_int hfits
  · obtain ⟨odd, twos, rfl, hodd, hvalue, hlt⟩ := float_of_ofInteger hfits hv
    have hn := le_natAbs hfits
    have hshort : odd < 2 ^ (52 + 1) := Rounding.odd_lt (by omega) hodd hvalue
    have habs : (if n < 0 then -(odd : Int) else odd).natAbs = odd := by
      split <;> omega
    have hmod : (if n < 0 then -(odd : Int) else odd) % 2 = 1 := by
      split <;> omega
    refine decide_eq_true ?_
    rw [habs, hmod, Int.toNat_natCast, hvalue]
    exact ⟨hshort, by omega, hlt, .inl rfl⟩

theorem utf8_ofInteger {v : Json} (hv : ofInteger n = some v) : v.utf8 = true := by
  by_cases hfits : -2 ^ 63 ≤ n ∧ n < 2 ^ 64
  · rw [ofInteger_of_fits hfits] at hv
    cases hv
    rfl
  · obtain ⟨_, _, rfl, _⟩ := float_of_ofInteger hfits hv
    rfl

/-- No such double is one of 32 bits. -/
theorem getInt_ofInteger {v : Json} (hv : ofInteger n = some v) : v.getInt =
    if -2 ^ 63 ≤ n ∧ n < 2 ^ 64 then .ok (n.bmod (2 ^ 32)) else .error .undefined := by
  split
  · rename_i hfits
    rw [ofInteger_of_fits hfits] at hv
    cases hv
    rfl
  · rename_i hfits
    obtain ⟨odd, twos, rfl, _, hvalue, _⟩ := float_of_ofInteger hfits hv
    have hle : 2 ^ 63 ≤ Rounding.round 52 n.natAbs :=
      Rounding.le_round (by decide) (le_natAbs hfits)
    have hinteger : (Json.float (if n < 0 then -(odd : Int) else odd) twos).IsInteger
        (if n < 0 then -(Rounding.round 52 n.natAbs : Int) else Rounding.round 52 n.natAbs) := by
      rw [← hvalue, IsInteger, if_pos (Int.natCast_nonneg twos), Int.toNat_natCast]
      split <;> simp
    have hout : int32.holds
        (if n < 0 then -(Rounding.round 52 n.natAbs : Int) else Rounding.round 52 n.natAbs) =
          false := by
      refine decide_eq_false ?_
      simp only [int32]
      split <;> omega
    rw [getInt, arithmetic_of_isInteger int32 hinteger, number, truncated_of_isInteger hinteger,
      hout]
    rfl

end integer

end LinuxLive.Json
