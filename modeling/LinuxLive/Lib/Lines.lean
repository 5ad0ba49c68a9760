import Mathlib.Data.List.DropRight
import Mathlib.Data.List.Infix

/-!
# Lines of a text

The lines that a reader gets out of a text one after another, and a line without the
white space at its ends.
-/

namespace LinuxLive

section lines

variable {α : Type} [DecidableEq α] {nl : α} {line text : List α}

/-- What `getline` reads until the text ends; a line break at the end begins no line. -/
def getLines (nl : α) : List α → List (List α)
  | [] => []
  | c :: text =>
      if c = nl then [] :: getLines nl text
      else
        match getLines nl text with
        | [] => [[c]]
        | line :: lines => (c :: line) :: lines

theorem getLines_cons_of_ne {c : α} (h : c ≠ nl) {lines : List (List α)}
    (htext : getLines nl text = line :: lines) :
    getLines nl (c :: text) = (c :: line) :: lines := by
  rw [getLines, if_neg h, htext]

theorem getLines_append (h : nl ∉ line) (text : List α) :
    getLines nl (line ++ nl :: text) = line :: getLines nl text := by
  induction line with
  | nil => exact if_pos rfl
  | cons c line ih =>
      rw [List.mem_cons, not_or] at h
      obtain ⟨hc, hline⟩ := h
      exact getLines_cons_of_ne (Ne.symm hc) (ih hline)

theorem getLines_of_notMem (h : nl ∉ line) :
    getLines nl line = if line = [] then [] else [line] := by
  induction line with
  | nil => rfl
  | cons c line ih =>
      rw [List.mem_cons, not_or] at h
      obtain ⟨hc, hline⟩ := h
      rw [getLines, if_neg (Ne.symm hc), ih hline]
      by_cases hnil : line = []
      · simp [hnil]
      · simp [hnil]

/-- Reading the lines of a text that was put together from lines, by a step that skips
empty ones. -/
theorem foldl_getLines {σ : Type} {step : σ → List α → σ} (hstep : ∀ s, step s [] = s)
    {lines : List (List α)} (h : ∀ line ∈ lines, nl ∉ line) (s : σ) :
    (getLines nl ([nl].intercalate lines)).foldl step s = lines.foldl step s := by
  induction lines generalizing s with
  | nil => rfl
  | cons line lines ih =>
      obtain ⟨hline, hlines⟩ := List.forall_mem_cons.mp h
      cases lines with
      | nil =>
          rw [List.intercalate_singleton, getLines_of_notMem hline]
          by_cases hnil : line = []
          · simp [hnil, hstep]
          · simp [hnil]
      | cons line' lines =>
          rw [List.intercalate_cons_cons, List.append_assoc, List.singleton_append,
            getLines_append hline, List.foldl_cons, ih hlines]
          rfl

end lines

/-! ## White space -/

section trim

variable {α : Type} {p : α → Bool} {s w : List α}

def trim (p : α → Bool) (s : List α) : List α := (s.dropWhile p).rdropWhile p

theorem trim_of_all (h : ∀ x ∈ s, p x = true) : trim p s = [] := by
  rw [trim, List.dropWhile_eq_nil_iff.mpr h, List.rdropWhile_nil]

theorem trim_append_left (h : ∀ x ∈ w, p x = true) (s : List α) : trim p (w ++ s) = trim p s := by
  rw [trim, List.dropWhile_append_of_pos h, trim]

/-- Nothing in front of other than white space is dropped from the end. -/
theorem rdropWhile_append_cons {c : α} (hc : p c = false) (s w : List α) :
    (s ++ c :: w).rdropWhile p = s ++ c :: w.rdropWhile p := by
  induction w using List.reverseRecOn with
  | nil => rw [List.rdropWhile_concat_neg _ _ _ (by simp [hc]), List.rdropWhile_nil]
  | append_singleton w x ih =>
      rw [← List.cons_append, ← List.append_assoc, List.rdropWhile_concat, List.rdropWhile_concat,
        ih]
      split
      · rfl
      · simp

theorem trim_cons {c : α} (hc : p c = false) (s : List α) :
    trim p (c :: s) = c :: s.rdropWhile p := by
  rw [trim, List.dropWhile_cons_of_neg (by simp [hc])]
  exact rdropWhile_append_cons hc [] s

theorem trim_of_none (h : ∀ x ∈ s, p x = false) : trim p s = s := by
  cases s with
  | nil => rfl
  | cons c s =>
      obtain ⟨hc, hs⟩ := List.forall_mem_cons.mp h
      rw [trim_cons hc, List.rdropWhile_eq_self_iff.mpr]
      exact fun hne => by simp [hs _ (List.getLast_mem hne)]

end trim

end LinuxLive
