import Mathlib.Data.List.Basic

/-!
# Loops that move a number of items

A loop that makes one attempt after the other until a given number of items has been moved.
How many an attempt moves is not the loop's choice: its results are a list, and the loop is
still running where the list ends.
-/

namespace LinuxLive

universe u v

variable {ρ : Type u} {σ : Type v}

/-- What the results of one attempt come to. -/
inductive Attempt where
  | moves (n : Nat)
  | again
  | fails
  /-- The attempt has not come to its end. -/
  | waits
  deriving DecidableEq

structure Transfer (σ : Type v) where
  ok : Bool
  total : Nat
  state : σ
  deriving DecidableEq

/-- The loop until `len` items are moved; `attempt` is given the number of those that are left. -/
def transfer (attempt : Nat → σ → ρ → Attempt) (move : Nat → Nat → σ → σ)
    (len total : Nat) (s : σ) : List ρ → Option (Transfer σ)
  | [] => if total < len then none else some ⟨true, total, s⟩
  | r :: results =>
      if total < len then
        match attempt (len - total) s r with
        | .moves n => transfer attempt move len (total + n) (move total n s) results
        | .again => transfer attempt move len total s results
        | .fails => some ⟨false, total, s⟩
        | .waits => none
      else some ⟨true, total, s⟩

section transfer

variable {attempt : Nat → σ → ρ → Attempt} {move : Nat → Nat → σ → σ} {len total : Nat} {s : σ}
  {results more : List ρ} {r : Transfer σ}

theorem transfer_of_le (h : len ≤ total) :
    transfer attempt move len total s results = some ⟨true, total, s⟩ := by
  cases results with
  | nil => rw [transfer, if_neg (Nat.not_lt_of_le h)]
  | cons r results => rw [transfer, if_neg (Nat.not_lt_of_le h)]

/-- What every attempt that moves items keeps, the loop keeps; it succeeds just behind the last
item. -/
theorem transfer_rule {P : Nat → σ → Prop}
    (hle : ∀ left s r n, attempt left s r = .moves n → n ≤ left)
    (hmove : ∀ total n s r, P total s → attempt (len - total) s r = .moves n →
      P (total + n) (move total n s))
    (htotal : total ≤ len) (hs : P total s)
    (h : transfer attempt move len total s results = some r) :
    P r.total r.state ∧ (r.ok = true ∧ r.total = len ∨ r.ok = false ∧ r.total < len) := by
  induction results generalizing total s with
  | nil =>
      rw [transfer] at h
      split at h
      · cases h
      · rename_i hnot
        cases h
        exact ⟨hs, .inl ⟨rfl, Nat.le_antisymm htotal (Nat.le_of_not_lt hnot)⟩⟩
  | cons a results ih =>
      rw [transfer] at h
      split at h
      · rename_i hlt
        split at h
        · rename_i n hattempt
          have hn := hle _ _ _ _ hattempt
          exact ih (by omega) (hmove _ _ _ _ hs hattempt) h
        · exact ih htotal hs h
        · cases h
          exact ⟨hs, .inr ⟨rfl, hlt⟩⟩
        · cases h
      · rename_i hnot
        cases h
        exact ⟨hs, .inl ⟨rfl, Nat.le_antisymm htotal (Nat.le_of_not_lt hnot)⟩⟩

/-- The loop ends if there are as many attempts as items, not counting the ones that have to be
made again. -/
theorem exists_transfer (retries : ρ → Bool)
    (hpos : ∀ left s r n, attempt left s r = .moves n → 0 < n)
    (hagain : ∀ left s r, attempt left s r = .again → retries r = true)
    (hends : ∀ left s, ∀ r ∈ results, attempt left s r ≠ .waits)
    (hmany : len ≤ total + results.countP fun r => !retries r) :
    ∃ r, transfer attempt move len total s results = some r := by
  induction results generalizing total s with
  | nil =>
      rw [List.countP_nil] at hmany
      exact ⟨_, transfer_of_le (by omega)⟩
  | cons a results ih =>
      obtain ⟨hend, hends⟩ : (∀ left s, attempt left s a ≠ .waits) ∧
          ∀ left s, ∀ r ∈ results, attempt left s r ≠ .waits :=
        ⟨fun left s => hends left s a List.mem_cons_self,
          fun left s r hr => hends left s r (List.mem_cons_of_mem a hr)⟩
      rw [List.countP_cons] at hmany
      rw [transfer]
      split
      · split
        · rename_i n hattempt
          have hn := hpos _ _ _ _ hattempt
          refine ih hends ?_
          split at hmany <;> omega
        · rename_i hattempt
          refine ih hends ?_
          rw [hagain _ _ _ hattempt] at hmany
          simpa using hmany
        · exact ⟨_, rfl⟩
        · rename_i hattempt
          exact absurd hattempt (hend _ _)
      · exact ⟨_, rfl⟩

end transfer

end LinuxLive
