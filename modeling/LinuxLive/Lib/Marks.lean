import LinuxLive.Lib.Positions

/-!
# Reading up to a mark

A text that is taken from a stream one element at a time until it ends with a mark, and is
given up when it gets too long; and texts of lines that end with an empty one.
-/

namespace LinuxLive

variable {α : Type} [DecidableEq α]

/-- The text that ends with the mark, if it comes in time, and what is left of the stream. -/
def takeUntil (mark : List α) (limit : Nat) (taken : List α) : List α → Option (List α) × List α
  | [] => (none, [])
  | a :: rest =>
      if mark <:+ taken ++ [a] then (some (taken ++ [a]), rest)
      else if limit < (taken ++ [a]).length then (none, rest)
      else takeUntil mark limit (taken ++ [a]) rest

/-- The text ends with the mark, and no shorter beginning of it does. -/
structure EndsFirst (mark text : List α) : Prop where
  ends : mark <:+ text
  first : ∀ p, p <+: text → p ≠ text → ¬ mark <:+ p

section take

variable {mark text rest stream taken post : List α} {limit : Nat}

omit [DecidableEq α] in
theorem EndsFirst.ne_nil (h : EndsFirst mark text) (hmark : mark ≠ []) : text ≠ [] := by
  intro hnil
  have hends := h.ends
  rw [hnil, List.suffix_nil] at hends
  exact hmark hends

omit [DecidableEq α] in
theorem EndsFirst.unique {text' rest' : List α} (h : EndsFirst mark text)
    (h' : EndsFirst mark text') (heq : text ++ rest = text' ++ rest') : text = text' := by
  by_contra hne
  have hprefix : text <+: text' ++ rest' := ⟨rest, heq⟩
  have hprefix' : text' <+: text' ++ rest' := List.prefix_append _ _
  rcases List.prefix_or_prefix_of_prefix hprefix hprefix' with hle | hle
  · exact h'.first text hle hne h.ends
  · exact h.first text' hle (Ne.symm hne) h'.ends

theorem EndsFirst.findFrom_eq (h : EndsFirst mark text) :
    findFrom mark text 0 = some (text.length - mark.length) := by
  obtain ⟨before, rfl⟩ := h.ends
  rw [List.length_append, Nat.add_sub_cancel]
  have hfirst : ∀ j < before.length, ¬ mark <+: (before ++ (mark ++ [])).drop j := by
    intro j hj hat
    rw [List.append_nil] at hat
    obtain ⟨after, hafter⟩ := hat
    have hsplit : (before ++ mark).take j ++ mark ++ after = before ++ mark := by
      rw [List.append_assoc, hafter, List.take_append_drop]
    refine h.first _ ⟨after, hsplit⟩ (fun hsame => ?_) (List.suffix_append _ _)
    have hlength := congrArg List.length hsame
    rw [List.length_append, List.length_append, List.length_take, List.length_append] at hlength
    omega
  have hfound := findFrom_of_first hfirst
  rwa [List.append_nil] at hfound

theorem takeUntil_of_endsFirst (h : EndsFirst mark (taken ++ post)) (hpost : post ≠ [])
    (hlength : (taken ++ post).length ≤ limit + 1) :
    takeUntil mark limit taken (post ++ rest) = (some (taken ++ post), rest) := by
  induction post generalizing taken with
  | nil => exact absurd rfl hpost
  | cons a post ih =>
      have hsplit : taken ++ a :: post = (taken ++ [a]) ++ post := by simp
      rw [List.cons_append, takeUntil]
      cases post with
      | nil => rw [if_pos h.ends, List.nil_append]
      | cons b post =>
          have hprefix : taken ++ [a] <+: taken ++ a :: b :: post := ⟨b :: post, hsplit.symm⟩
          have hne : taken ++ [a] ≠ taken ++ a :: b :: post := by simp
          have hshort : ¬ limit < (taken ++ [a]).length := by
            simp only [List.length_append, List.length_cons, List.length_nil] at hlength ⊢
            omega
          rw [if_neg (h.first _ hprefix hne), if_neg hshort, hsplit]
          rw [hsplit] at h hlength
          exact ih h (List.cons_ne_nil b post) hlength

omit [DecidableEq α] in
/-- A text that may still go on is not cut short by one more element without a mark. -/
theorem not_suffix_snoc {a : α} (hbefore : ∀ p, p <+: taken → ¬ mark <:+ p)
    (h : ¬ mark <:+ taken ++ [a]) : ∀ p, p <+: taken ++ [a] → ¬ mark <:+ p := by
  intro p hp
  obtain hsame | hp := List.prefix_concat_iff.mp hp
  · rw [hsame]
    exact h
  · exact hbefore p hp

theorem endsFirst_of_takeUntil (hbefore : ∀ p, p <+: taken → ¬ mark <:+ p)
    (h : takeUntil mark limit taken stream = (some text, rest)) (hlimit : taken.length ≤ limit) :
    ∃ post, text = taken ++ post ∧ stream = post ++ rest ∧ EndsFirst mark text ∧
      text.length ≤ limit + 1 := by
  induction stream generalizing taken with
  | nil =>
      rw [takeUntil] at h
      cases h
  | cons a stream ih =>
      rw [takeUntil] at h
      split at h
      · rename_i hends
        cases h
        refine ⟨[a], rfl, rfl, ⟨hends, ?_⟩, ?_⟩
        · intro p hp hne
          exact hbefore p ((List.prefix_concat_iff.mp hp).resolve_left hne)
        · rw [List.length_append, List.length_singleton]
          omega
      · rename_i hends
        split at h
        · cases h
        · rename_i hshort
          obtain ⟨post, htext, hstream, hfirst, hlength⟩ :=
            ih (not_suffix_snoc hbefore hends) h (Nat.le_of_not_lt hshort)
          refine ⟨a :: post, ?_, ?_, hfirst, hlength⟩
          · rw [htext, List.append_assoc, List.singleton_append]
          · rw [hstream, List.cons_append]

/-- Exactly the texts that end with their first mark and are not too long are taken, and
nothing behind them. -/
theorem takeUntil_eq_some_iff (hmark : mark ≠ []) :
    takeUntil mark limit [] stream = (some text, rest) ↔
      stream = text ++ rest ∧ EndsFirst mark text ∧ text.length ≤ limit + 1 := by
  constructor
  · intro h
    have hbefore : ∀ p, p <+: ([] : List α) → ¬ mark <:+ p := by
      intro p hp hsuffix
      rw [List.prefix_nil.mp hp, List.suffix_nil] at hsuffix
      exact hmark hsuffix
    obtain ⟨post, htext, hstream, hfirst, hlength⟩ :=
      endsFirst_of_takeUntil hbefore h (Nat.zero_le limit)
    rw [List.nil_append] at htext
    subst htext
    exact ⟨hstream, hfirst, hlength⟩
  · intro h
    obtain ⟨rfl, hfirst, hlength⟩ := h
    have hwhole : EndsFirst mark ([] ++ text) := hfirst
    exact takeUntil_of_endsFirst hwhole (hfirst.ne_nil hmark) hlength

end take

/-! ## Lines -/

section lines

variable {c d : α} {xs ys rest rest' : List α}

omit [DecidableEq α] in
/-- The first one of a character tells what stands in front of it. -/
theorem append_cons_inj (hxs : c ∉ xs) (hys : c ∉ ys) (h : xs ++ c :: rest = ys ++ c :: rest') :
    xs = ys ∧ rest = rest' := by
  induction xs generalizing ys with
  | nil =>
      cases ys with
      | nil => exact ⟨rfl, (List.cons.inj h).2⟩
      | cons y ys =>
          rw [List.nil_append, List.cons_append] at h
          exact absurd ((List.cons.inj h).1 ▸ List.mem_cons_self) hys
  | cons x xs ih =>
      cases ys with
      | nil =>
          rw [List.nil_append, List.cons_append] at h
          exact absurd ((List.cons.inj h).1 ▸ List.mem_cons_self) hxs
      | cons y ys =>
          rw [List.mem_cons, not_or] at hxs hys
          rw [List.cons_append, List.cons_append] at h
          obtain ⟨rfl, htail⟩ := List.cons.inj h
          obtain ⟨rfl, hrest⟩ := ih hxs.2 hys.2 htail
          exact ⟨rfl, hrest⟩

/-- Lines that each end with `c d`, and an empty one behind them. -/
def block (c d : α) (lines : List (List α)) : List α :=
  lines.flatMap (fun line => line ++ [c, d]) ++ [c, d]

omit [DecidableEq α] in
theorem block_cons (line : List α) (lines : List (List α)) :
    block c d (line :: lines) = line ++ c :: d :: block c d lines := by
  simp [block]

omit [DecidableEq α] in
theorem infix_block {lines : List (List α)} {line : List α} (h : line ∈ lines) :
    line <:+: block c d lines := by
  obtain ⟨before, after, rfl⟩ := List.append_of_mem h
  refine ⟨before.flatMap fun line => line ++ [c, d], [c, d] ++ block c d after, ?_⟩
  simp [block]

omit [DecidableEq α] in
/-- No two line ends stand behind each other in front of the empty line. -/
theorem block_split (hcd : c ≠ d) {lines : List (List α)}
    (hlines : ∀ line ∈ lines, line ≠ [] ∧ d ∉ line) {u v : List α}
    (h : block c d lines = u ++ c :: d :: c :: d :: v) : v = [] := by
  induction lines generalizing u with
  | nil =>
      have hlength := congrArg List.length h
      simp only [block, List.flatMap_nil, List.nil_append, List.length_append, List.length_cons,
        List.length_nil] at hlength
      omega
  | cons line lines ih =>
      obtain ⟨⟨hne, hline⟩, hlines⟩ := List.forall_mem_cons.mp hlines
      have hfront : d ∉ line ++ [c] := by
        simp [hline, hcd.symm]
      have hleft : block c d (line :: lines) = (line ++ [c]) ++ d :: block c d lines := by
        rw [block_cons]
        simp
      rw [hleft] at h
      by_cases hu : d ∈ u
      · -- the first line ends within `u`
        obtain ⟨u, w, rfl, hd⟩ := List.eq_append_cons_of_mem hu
        have hright : (u ++ d :: w) ++ c :: d :: c :: d :: v =
            u ++ d :: (w ++ c :: d :: c :: d :: v) := by simp
        exact ih hlines (append_cons_inj hfront hd (h.trans hright)).2
      · -- the first line end is the first half of the mark
        have hright : u ++ c :: d :: c :: d :: v = (u ++ [c]) ++ d :: c :: d :: v := by simp
        have hmark : d ∉ u ++ [c] := by
          simp [hu, hcd.symm]
        rw [hright] at h
        have hrest := (append_cons_inj hfront hmark h).2
        cases lines with
        | nil => simpa [block] using hrest
        | cons line' lines =>
            obtain ⟨hne', hline'⟩ := hlines _ List.mem_cons_self
            have hnext : (line' ++ [c]) ++ d :: block c d lines = [c] ++ d :: v := by
              rw [block_cons] at hrest
              simpa using hrest
            have hsame := (append_cons_inj (by simp [hline', hcd.symm]) (by simp [hcd.symm])
              hnext).1
            exact absurd (List.append_left_eq_self.mp hsame) hne'

omit [DecidableEq α] in
/-- Lines that are not empty and have no `d` end with the empty line and nowhere before. -/
theorem endsFirst_block (hcd : c ≠ d) {lines : List (List α)} (hnonempty : lines ≠ [])
    (hlines : ∀ line ∈ lines, line ≠ [] ∧ d ∉ line) :
    EndsFirst [c, d, c, d] (block c d lines) where
  ends := by
    obtain ⟨before, last, rfl⟩ := (List.eq_nil_or_concat lines).resolve_left hnonempty
    refine ⟨before.flatMap (fun line => line ++ [c, d]) ++ last, ?_⟩
    simp [block]
  first p hp hne := by
    rintro ⟨u, rfl⟩
    obtain ⟨v, hv⟩ := hp
    have hsplit : block c d lines = u ++ c :: d :: c :: d :: v := by
      rw [← hv]
      simp
    have hnil := block_split hcd hlines hsplit
    rw [hnil, List.append_nil] at hv
    exact hne hv

end lines

end LinuxLive
