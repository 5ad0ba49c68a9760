import Mathlib.Data.List.Infix

/-!
# Positions in a text

The first position of a pattern from some position on, as `std::string::find` gives it.
-/

namespace LinuxLive

variable {α : Type} [DecidableEq α]

/-- The first position from `pos` on where the pattern stands. -/
def findFrom (pattern text : List α) (pos : Nat) : Option Nat :=
  (List.range (text.length + 1)).find? fun i => decide (pos ≤ i ∧ pattern <+: text.drop i)

section find

variable {pattern text before after : List α} {pos i : Nat} {c : α}

theorem findFrom_eq_some_iff : findFrom pattern text pos = some i ↔
    i ≤ text.length ∧ pos ≤ i ∧ pattern <+: text.drop i ∧
      ∀ j, pos ≤ j → j < i → ¬ pattern <+: text.drop j := by
  unfold findFrom
  rw [List.find?_range_eq_some]
  simp only [decide_eq_true_eq, List.mem_range, Bool.not_eq_true', decide_eq_false_iff_not]
  constructor
  · intro h
    obtain ⟨⟨hpos, hat⟩, hlt, hfirst⟩ := h
    exact ⟨by omega, hpos, hat, fun j hj hji hbefore => hfirst j hji ⟨hj, hbefore⟩⟩
  · intro h
    obtain ⟨hle, hpos, hat, hfirst⟩ := h
    exact ⟨⟨hpos, hat⟩, by omega, fun j hji hbefore => hfirst j hbefore.1 hji hbefore.2⟩

theorem findFrom_eq_none_iff : findFrom pattern text pos = none ↔
    ∀ i, i ≤ text.length → pos ≤ i → ¬ pattern <+: text.drop i := by
  unfold findFrom
  rw [List.find?_range_eq_none]
  simp only [Bool.not_eq_true', decide_eq_false_iff_not]
  constructor
  · intro h i hle hpos hat
    exact h i (by omega) ⟨hpos, hat⟩
  · intro h i hlt hbefore
    exact h i (by omega) hbefore.1 hbefore.2

/-- What stands in front of the position where the search begins does not matter. -/
theorem findFrom_append (pattern before text : List α) :
    findFrom pattern (before ++ text) before.length =
      (findFrom pattern text 0).map (before.length + ·) := by
  cases h : findFrom pattern text 0 with
  | none =>
      rw [findFrom_eq_none_iff] at h
      rw [Option.map_none, findFrom_eq_none_iff]
      intro i hle hpos
      obtain ⟨j, rfl⟩ := Nat.exists_eq_add_of_le hpos
      rw [List.length_append] at hle
      rw [List.drop_length_add_append]
      exact h j (by omega) (Nat.zero_le j)
  | some i =>
      rw [findFrom_eq_some_iff] at h
      obtain ⟨hle, _, hat, hfirst⟩ := h
      rw [Option.map_some, findFrom_eq_some_iff, List.drop_length_add_append, List.length_append]
      refine ⟨by omega, by omega, hat, fun j hj hji => ?_⟩
      obtain ⟨k, rfl⟩ := Nat.exists_eq_add_of_le hj
      rw [List.drop_length_add_append]
      exact hfirst k (Nat.zero_le k) (by omega)

/-- The pattern is found where it stands if it does not stand further in front. -/
theorem findFrom_of_first
    (h : ∀ j < before.length, ¬ pattern <+: (before ++ (pattern ++ after)).drop j) :
    findFrom pattern (before ++ (pattern ++ after)) 0 = some before.length := by
  rw [findFrom_eq_some_iff, List.drop_left, List.length_append]
  exact ⟨by omega, Nat.zero_le _, List.prefix_append _ _, fun j _ hj => h j hj⟩

omit [DecidableEq α] in
/-- A part without the first character of the pattern has no beginning of it. -/
theorem not_prefix_drop (hc : c ∉ before) {j : Nat} (hj : j < before.length) (text : List α) :
    ¬ c :: pattern <+: (before ++ text).drop j := by
  intro hat
  rw [List.drop_append_of_le_length (Nat.le_of_lt hj), List.drop_eq_getElem_cons hj,
    List.cons_append, List.cons_prefix_cons] at hat
  exact hc (hat.1 ▸ List.getElem_mem hj)

omit [DecidableEq α] in
/-- A pattern does not stand across a character that it does not have. -/
theorem prefix_drop_split (hc : c ∉ pattern) {j : Nat}
    (h : pattern <+: (before ++ c :: after).drop j) :
    j + pattern.length ≤ before.length ∧ pattern <:+: before ∨
      before.length < j ∧ pattern <:+: after := by
  by_cases hj : j ≤ before.length
  · rw [List.drop_append_of_le_length hj] at h
    have hlen : (before.drop j).length = before.length - j := List.length_drop
    by_cases hfits : pattern.length ≤ (before.drop j).length
    · have hin := List.prefix_of_prefix_length_le h (List.prefix_append _ _) hfits
      exact .inl ⟨by omega, hin.isInfix.trans (List.drop_suffix j before).isInfix⟩
    · have hsplit : before.drop j ++ [c] <+: before.drop j ++ c :: after :=
        ⟨after, by rw [List.append_assoc, List.singleton_append]⟩
      have hlong : (before.drop j ++ [c]).length ≤ pattern.length := by
        rw [List.length_append, List.length_singleton]
        omega
      have hcross := List.prefix_of_prefix_length_le hsplit h hlong
      exact absurd (hcross.subset (by simp)) hc
  · obtain ⟨k, rfl⟩ := Nat.exists_eq_add_of_lt (Nat.lt_of_not_le hj)
    have hdrop : (before ++ c :: after).drop (before.length + k + 1) = after.drop k := by
      rw [Nat.add_assoc, List.drop_length_add_append]
      rfl
    rw [hdrop] at h
    exact .inr ⟨by omega, h.isInfix.trans (List.drop_suffix k after).isInfix⟩

omit [DecidableEq α] in
theorem infix_append_cons (hc : c ∉ pattern) (h : pattern <:+: before ++ c :: after) :
    pattern <:+: before ∨ pattern <:+: after := by
  obtain ⟨front, back, htext⟩ := h
  have hat : pattern <+: (before ++ c :: after).drop front.length := by
    rw [← htext, List.append_assoc, List.drop_left]
    exact List.prefix_append _ _
  exact (prefix_drop_split hc hat).imp And.right And.right

theorem findFrom_of_notMem (hc : c ∉ text) (pattern : List α) (pos : Nat) :
    findFrom (c :: pattern) text pos = none := by
  rw [findFrom_eq_none_iff]
  intro i _ _ hat
  exact hc (List.mem_of_mem_drop (hat.subset List.mem_cons_self))

theorem findFrom_char_append (hc : c ∉ text) (before after : List α) :
    findFrom [c] (before ++ (text ++ c :: after)) before.length =
      some (before.length + text.length) := by
  have hfirst : findFrom [c] (text ++ ([c] ++ after)) 0 = some text.length :=
    findFrom_of_first fun j hj => not_prefix_drop hc hj _
  rw [List.singleton_append] at hfirst
  rw [findFrom_append, hfirst, Option.map_some]

theorem findFrom_char_none (hc : c ∉ text) (before : List α) :
    findFrom [c] (before ++ text) before.length = none := by
  rw [findFrom_append, findFrom_of_notMem hc, Option.map_none]

theorem le_of_findFrom_char (hc : c ∉ text) (h : findFrom [c] (before ++ (text ++ after))
    before.length = some i) : before.length + text.length ≤ i := by
  obtain ⟨_, hpos, hat, _⟩ := findFrom_eq_some_iff.mp h
  obtain ⟨j, rfl⟩ := Nat.exists_eq_add_of_le hpos
  rw [List.drop_length_add_append] at hat
  by_contra hlt
  exact not_prefix_drop hc (by omega) _ hat

end find

end LinuxLive
