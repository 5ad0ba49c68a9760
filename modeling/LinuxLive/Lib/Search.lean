import Mathlib.Data.List.Basic
import Mathlib.Data.List.Infix
import Mathlib.Data.List.TakeWhile

/-!
# Searching a text

The text behind the first occurrence of a pattern and the text up to a character, and what
they find among fields in quotes.
-/

namespace LinuxLive

universe u

variable {α : Type u} [DecidableEq α]

/-- What follows the first occurrence of the pattern. -/
def behind (pattern : List α) : List α → Option (List α)
  | [] => if pattern = [] then some [] else none
  | c :: text =>
      if pattern <+: c :: text then some ((c :: text).drop pattern.length)
      else behind pattern text

def upTo (c : α) (text : List α) : Option (List α) :=
  if c ∈ text then some (text.takeWhile fun d => decide (d ≠ c)) else none

def quoted (quote : α) (name : List α) : List α := quote :: (name ++ [quote])

section behind

variable {c quote : α} {pattern text before name field : List α}

theorem behind_pattern (pattern text : List α) : behind pattern (pattern ++ text) = some text := by
  cases h : pattern ++ text with
  | nil =>
      obtain ⟨rfl, rfl⟩ := List.append_eq_nil_iff.mp h
      simp [behind]
  | cons c rest =>
      have hprefix : pattern <+: c :: rest := ⟨text, h⟩
      rw [behind, if_pos hprefix, ← h, List.drop_left]

theorem behind_cons_of_not_prefix (h : ¬ pattern <+: c :: text) :
    behind pattern (c :: text) = behind pattern text := if_neg h

theorem behind_append_of_notMem (h : c ∉ before) :
    behind (c :: pattern) (before ++ text) = behind (c :: pattern) text := by
  induction before with
  | nil => rfl
  | cons d before ih =>
      rw [List.mem_cons, not_or] at h
      rw [List.cons_append, behind_cons_of_not_prefix, ih h.2]
      intro hprefix
      exact h.1 (List.cons_prefix_cons.mp hprefix).1

theorem takeWhile_append_delim (c : α) (before text : List α) :
    (before ++ c :: text).takeWhile (fun d => decide (d ≠ c)) =
      before.takeWhile fun d => decide (d ≠ c) := by
  induction before with
  | nil => simp
  | cons d before ih =>
      rw [List.cons_append, List.takeWhile_cons, List.takeWhile_cons, ih]

theorem takeWhile_eq_self_iff {c : α} {text : List α} :
    (text.takeWhile fun d => decide (d ≠ c)) = text ↔ c ∉ text := by
  rw [List.takeWhile_eq_self_iff]
  constructor
  · intro h hc
    simpa using h c hc
  · intro h d hd
    rw [decide_eq_true_eq]
    exact fun heq => h (heq ▸ hd)

theorem upTo_append_delim (c : α) (before text : List α) :
    upTo c (before ++ c :: text) = some (before.takeWhile fun d => decide (d ≠ c)) := by
  rw [upTo, if_pos (by simp), takeWhile_append_delim]

theorem upTo_append (h : c ∉ before) : upTo c (before ++ c :: text) = some before := by
  rw [upTo_append_delim, takeWhile_eq_self_iff.mpr h]

theorem prefix_quote_iff (hname : quote ∉ name) (hfield : quote ∉ field) :
    name ++ [quote] <+: field ++ quote :: text ↔ name = field := by
  constructor
  · intro h
    obtain ⟨rest, hrest⟩ := h
    rw [List.append_assoc, List.singleton_append] at hrest
    have htake := congrArg (List.takeWhile fun d => decide (d ≠ quote)) hrest
    rwa [takeWhile_append_delim, takeWhile_append_delim, takeWhile_eq_self_iff.mpr hname,
      takeWhile_eq_self_iff.mpr hfield] at htake
  · intro h
    subst h
    exact ⟨text, by simp⟩

/-- A field in quotes is the one that is looked for, or the search goes on at its end. -/
theorem behind_quoted (hname : quote ∉ name) (hfield : quote ∉ field) :
    behind (quoted quote name) (quote :: (field ++ quote :: text)) =
      if name = field then some text else behind (quoted quote name) (quote :: text) := by
  by_cases h : name = field
  · subst h
    have hsplit : quote :: (name ++ quote :: text) = quoted quote name ++ text := by
      simp [quoted]
    rw [if_pos rfl, hsplit, behind_pattern]
  · have hnot : ¬ quoted quote name <+: quote :: (field ++ quote :: text) := by
      intro hprefix
      rw [quoted, List.cons_prefix_cons] at hprefix
      exact h ((prefix_quote_iff hname hfield).mp hprefix.2)
    rw [if_neg h, behind_cons_of_not_prefix hnot, quoted, behind_append_of_notMem hfield]

end behind

/-! ## Texts with many quotes -/

/-- The parts of a text, each behind a quote. -/
def quotes (quote : α) : List (List α) → List α → List α
  | [], tail => tail
  | part :: parts, tail => quote :: (part ++ quotes quote parts tail)

omit [DecidableEq α] in
theorem quotes_append (quote : α) (parts parts' : List (List α)) (tail : List α) :
    quotes quote (parts ++ parts') tail = quotes quote parts (quotes quote parts' tail) := by
  induction parts with
  | nil => rfl
  | cons part parts ih => rw [List.cons_append, quotes, quotes, ih]

/-- Parts with other names are passed over. -/
theorem behind_quotes_of_ne {quote : α} {name tail : List α} {parts : List (List α)}
    (hname : quote ∉ name) (hparts : ∀ part ∈ parts, quote ∉ part ∧ name ≠ part) :
    behind (quoted quote name) (quotes quote parts (quote :: tail)) =
      behind (quoted quote name) (quote :: tail) := by
  induction parts with
  | nil => rfl
  | cons part parts ih =>
      rw [List.forall_mem_cons] at hparts
      obtain ⟨⟨hquote, hne⟩, hrest⟩ := hparts
      have hhead : ∃ text, quotes quote parts (quote :: tail) = quote :: text := by
        cases parts with
        | nil => exact ⟨_, rfl⟩
        | cons p ps => exact ⟨_, rfl⟩
      obtain ⟨text, htext⟩ := hhead
      rw [quotes, htext, behind_quoted hname hquote, if_neg hne, ← htext, ih hrest]

/-- The first part with the name is found, whatever comes behind it. -/
theorem behind_quotes {quote : α} {name next tail : List α} {parts rest : List (List α)}
    (hname : quote ∉ name) (hparts : ∀ part ∈ parts, quote ∉ part ∧ name ≠ part) :
    behind (quoted quote name) (quotes quote (parts ++ name :: next :: rest) tail) =
      some (next ++ quotes quote rest tail) := by
  rw [quotes_append, quotes, behind_quotes_of_ne hname hparts, quotes, behind_quoted hname hname,
    if_pos rfl]

end LinuxLive
