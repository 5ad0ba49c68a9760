import Mathlib.Data.Nat.Log
import Mathlib.Algebra.Order.Ring.Nat
import Mathlib.Data.Nat.Prime.Basic
import Mathlib.Tactic.Ring

/-!
# Rounding to a number of bits

Natural numbers rounded to the nearest one with a given number of leading bits, a tie to the
even one: the mantissa, the exponent and what the two are worth.
-/

namespace LinuxLive

namespace Rounding

/-- The integer nearest to `n / d`; a tie goes to the even one. -/
def divEven (n d : Nat) : Nat :=
  if 2 * (n % d) < d ∨ 2 * (n % d) = d ∧ n / d % 2 = 0 then n / d else n / d + 1

/-- The odd part of a number and how often it is halved, as far as the fuel goes. -/
def halve : Nat → Nat → Nat × Nat
  | 0, n => (n, 0)
  | fuel + 1, n =>
      if n % 2 = 0 then
        let (odd, twos) := halve fuel (n / 2)
        (odd, twos + 1)
      else (n, 0)

/-- How many bits are behind the first `bits + 1` of them. -/
def scale (bits n : Nat) : Nat := Nat.log 2 n - bits

def round (bits n : Nat) : Nat := divEven n (2 ^ scale bits n) * 2 ^ scale bits n

variable {n d bits fuel : Nat}

theorem le_divEven (n d : Nat) : n / d ≤ divEven n d := by
  unfold divEven
  split <;> omega

theorem divEven_le (n d : Nat) : divEven n d ≤ n / d + 1 := by
  unfold divEven
  split <;> omega

/-- The remainder says on which side of the middle the number is. -/
theorem divEven_eq_succ_iff : divEven n d = n / d + 1 ↔
    d < 2 * (n % d) ∨ 2 * (n % d) = d ∧ n / d % 2 = 1 := by
  unfold divEven
  split <;> omega

theorem halve_spec (h : n ≠ 0) (hfuel : n < 2 ^ fuel) :
    (halve fuel n).1 % 2 = 1 ∧ (halve fuel n).1 * 2 ^ (halve fuel n).2 = n := by
  induction fuel generalizing n with
  | zero =>
      rw [Nat.pow_zero] at hfuel
      omega
  | succ fuel ih =>
      unfold halve
      split
      · rename_i heven
        rw [Nat.pow_succ] at hfuel
        obtain ⟨hodd, hvalue⟩ := ih (n := n / 2) (by omega) (by omega)
        refine ⟨hodd, ?_⟩
        dsimp only
        rw [Nat.pow_succ, ← Nat.mul_assoc, hvalue]
        omega
      · exact ⟨by omega, by rw [Nat.pow_zero, Nat.mul_one]⟩

/-! ## The rounded number -/

/-- The leading bits of a number that has more. -/
theorem leading (h : 2 ^ bits ≤ n) :
    2 ^ bits ≤ n / 2 ^ scale bits n ∧ n / 2 ^ scale bits n < 2 ^ (bits + 1) := by
  have hn : n ≠ 0 := by
    have hpos : 0 < 2 ^ bits := Nat.two_pow_pos _
    omega
  have hlog : bits ≤ Nat.log 2 n := Nat.le_log_of_pow_le Nat.one_lt_two h
  have hlow : 2 ^ bits * 2 ^ scale bits n = 2 ^ Nat.log 2 n := by
    rw [← Nat.pow_add, scale, Nat.add_sub_cancel' hlog]
  have hhigh : 2 ^ (bits + 1) * 2 ^ scale bits n = 2 ^ (Nat.log 2 n + 1) := by
    rw [Nat.pow_succ, Nat.pow_succ, ← hlow]
    ring
  constructor
  · rw [Nat.le_div_iff_mul_le (Nat.two_pow_pos _), hlow]
    exact Nat.pow_log_le_self 2 hn
  · rw [Nat.div_lt_iff_lt_mul (Nat.two_pow_pos _), hhigh]
    exact Nat.lt_pow_succ_log_self Nat.one_lt_two n

/-- A number keeps being at least a power of two. -/
theorem le_round {k : Nat} (hbits : bits ≤ k) (h : 2 ^ k ≤ n) : 2 ^ k ≤ round bits n := by
  have hlog : k ≤ Nat.log 2 n := Nat.le_log_of_pow_le Nat.one_lt_two h
  have hlead : 2 ^ bits ≤ n / 2 ^ scale bits n :=
    (leading ((Nat.pow_le_pow_right (by decide) hbits).trans h)).1
  calc
    2 ^ k ≤ 2 ^ (bits + scale bits n) := by
      refine Nat.pow_le_pow_right (by decide) ?_
      unfold scale
      omega
    _ = 2 ^ bits * 2 ^ scale bits n := Nat.pow_add ..
    _ ≤ round bits n := Nat.mul_le_mul_right _ (hlead.trans (le_divEven ..))

/-- The odd part of a rounded number has not more than its bits. -/
theorem odd_lt {odd twos : Nat} (h : 2 ^ bits ≤ n) (hodd : odd % 2 = 1)
    (hvalue : odd * 2 ^ twos = round bits n) : odd < 2 ^ (bits + 1) := by
  have hmantissa : divEven n (2 ^ scale bits n) ≤ 2 ^ (bits + 1) :=
    (divEven_le ..).trans (leading h).2
  have hpos : 0 < divEven n (2 ^ scale bits n) :=
    (Nat.two_pow_pos bits).trans_le ((leading h).1.trans (le_divEven ..))
  have hcoprime : Nat.Coprime odd (2 ^ scale bits n) :=
    Nat.Coprime.pow_right _ (Nat.coprime_two_right.mpr (Nat.odd_iff.mpr hodd))
  have hdvd : odd ∣ divEven n (2 ^ scale bits n) :=
    hcoprime.dvd_of_dvd_mul_right ⟨2 ^ twos, hvalue.symm⟩
  have hne : odd ≠ 2 ^ (bits + 1) := by
    intro heq
    rw [heq, Nat.pow_succ] at hodd
    omega
  exact Nat.lt_of_le_of_ne ((Nat.le_of_dvd hpos hdvd).trans hmantissa) hne

/-- A number is rounded up to the next power of two from half a unit below it on. -/
theorem round_lt_iff {k : Nat} (hk : bits < k) (h : 2 ^ bits ≤ n) :
    round bits n < 2 ^ (k + 1) ↔ n < 2 ^ (k + 1) - 2 ^ (k - bits - 1) := by
  obtain ⟨hlow, hhigh⟩ := leading h
  have hhalf : 2 ^ (k - bits) = 2 * 2 ^ (k - bits - 1) := by
    rw [← Nat.pow_succ']
    congr 1
    omega
  have htop : 2 ^ (k + 1) = 2 ^ (bits + 1) * 2 ^ (k - bits) := by
    rw [← Nat.pow_add]
    congr 1
    omega
  have hle : 2 ^ (k - bits) ≤ 2 ^ (k + 1) := Nat.pow_le_pow_right (by decide) (by omega)
  rcases Nat.lt_trichotomy (Nat.log 2 n) k with hlog | hlog | hlog
  · -- The number has a bit less, and so has the rounded one, or it is the power itself.
    have hn : n < 2 ^ k :=
      (Nat.lt_pow_succ_log_self Nat.one_lt_two n).trans_le
        (Nat.pow_le_pow_right (by decide) hlog)
    have hround : round bits n ≤ 2 ^ k := by
      calc
        round bits n ≤ 2 ^ (bits + 1) * 2 ^ scale bits n :=
          Nat.mul_le_mul_right _ ((divEven_le ..).trans hhigh)
        _ = 2 ^ (bits + 1 + scale bits n) := (Nat.pow_add ..).symm
        _ ≤ 2 ^ k := by
          have hbits : bits ≤ Nat.log 2 n := Nat.le_log_of_pow_le Nat.one_lt_two h
          refine Nat.pow_le_pow_right (by decide) ?_
          unfold scale
          omega
    have hsucc : 2 ^ (k + 1) = 2 * 2 ^ k := Nat.pow_succ'
    have hsmall : 2 ^ (k - bits - 1) ≤ 2 ^ k := Nat.pow_le_pow_right (by decide) (by omega)
    have hpos : 0 < 2 ^ k := Nat.two_pow_pos _
    omega
  · have hscale : scale bits n = k - bits := by rw [scale, hlog]
    rw [hscale] at hlow hhigh
    have hmod := Nat.div_add_mod n (2 ^ (k - bits))
    have hrest := Nat.mod_lt n (Nat.two_pow_pos (k - bits))
    rw [round, hscale, htop, Nat.mul_lt_mul_right (Nat.two_pow_pos _)]
    have heven : 2 ^ (bits + 1) % 2 = 0 := by
      rw [Nat.pow_succ]
      omega
    have hup := divEven_eq_succ_iff (n := n) (d := 2 ^ (k - bits))
    have hbelow := le_divEven n (2 ^ (k - bits))
    have habove := divEven_le n (2 ^ (k - bits))
    by_cases hlast : n / 2 ^ (k - bits) + 1 = 2 ^ (bits + 1)
    · -- The leading bits are all ones: it depends on the rest.
      have hn : n + 2 ^ (k - bits) = 2 ^ (bits + 1) * 2 ^ (k - bits) + n % 2 ^ (k - bits) := by
        rw [← hlast, Nat.add_mul, Nat.one_mul, Nat.mul_comm (n / _)]
        omega
      omega
    · have hn : n + 2 * 2 ^ (k - bits) ≤
          2 ^ (bits + 1) * 2 ^ (k - bits) + n % 2 ^ (k - bits) := by
        have hle : n / 2 ^ (k - bits) + 2 ≤ 2 ^ (bits + 1) := by omega
        have hmul := Nat.mul_le_mul_right (2 ^ (k - bits)) hle
        rw [Nat.add_mul, Nat.mul_comm (n / _)] at hmul
        omega
      omega
  · -- The number is too large already.
    have hn : 2 ^ (k + 1) ≤ n :=
      (Nat.pow_le_pow_right (by decide) hlog).trans
        (Nat.pow_log_le_self 2 fun hzero => by simp [hzero] at hlog)
    have hround : 2 ^ (k + 1) ≤ round bits n := le_round (by omega) hn
    omega

end Rounding

end LinuxLive
