import Mathlib.Data.Finset.Basic
import Mathlib.Data.List.Infix
import Mathlib.Logic.Function.Basic

/-!
# Journals

Journals of which one at a time is in memory.  Some entries are written back with the whole
journal, others stay in memory until the next write; a set keeps those journals that have
such entries.
-/

namespace LinuxLive

universe u v

structure Journal (κ : Type u) (α : Type v) where
  /-- The journal in memory; a key of its own stands for none. -/
  current : κ
  entries : List α
  saved : κ → List α
  /-- Those with an entry that came after their last write. -/
  pending : Finset κ

namespace Journal

variable {κ : Type u} {α : Type v}

inductive Act (κ : Type u) (α : Type v) where
  | keep
  | leave
  | load (n : κ)
  | save (a : α)
  | note (a : α)

section acts

variable [DecidableEq κ] {idle n : κ} {j : Journal κ α} {a : α} {x : Act κ α} {entries : List α}

def write (j : Journal κ α) (entries : List α) : Journal κ α :=
  { j with
    entries := entries
    saved := Function.update j.saved j.current entries
    pending := j.pending.erase j.current }

/-- The journal in memory with one more entry that is not saved. -/
def append (j : Journal κ α) (a : α) : Journal κ α :=
  { j with entries := j.entries ++ [a], pending := insert j.current j.pending }

def act (idle : κ) (j : Journal κ α) : Act κ α → Journal κ α
  | .keep => j
  | .leave => { j with current := idle, entries := [] }
  | .load n => { j with current := n, entries := j.saved n }
  | .save a => if j.current = idle then j else j.write (j.entries ++ [a])
  | .note a => if j.current = idle then j else j.append a

theorem saved_write_self : (j.write entries).saved j.current = entries :=
  Function.update_self ..

theorem saved_write_of_ne (h : n ≠ j.current) : (j.write entries).saved n = j.saved n :=
  Function.update_of_ne h ..

theorem act_idle (h : j.current = idle) (hx : x = .save a ∨ x = .note a) : j.act idle x = j := by
  rcases hx with rfl | rfl <;> exact if_pos h

theorem act_save (h : j.current ≠ idle) (a : α) :
    j.act idle (.save a) = j.write (j.entries ++ [a]) := if_neg h

theorem act_note (h : j.current ≠ idle) (a : α) : j.act idle (.note a) = j.append a := if_neg h

inductive Acted (idle : κ) (j : Journal κ α) : Act κ α → Journal κ α → Prop where
  | same (x : Act κ α) : Acted idle j x j
  | leave : Acted idle j .leave { j with current := idle, entries := [] }
  | load (n : κ) : Acted idle j (.load n) { j with current := n, entries := j.saved n }
  | save (a : α) (h : j.current ≠ idle) : Acted idle j (.save a) (j.write (j.entries ++ [a]))
  | note (a : α) (h : j.current ≠ idle) : Acted idle j (.note a) (j.append a)

theorem acted (idle : κ) (j : Journal κ α) (x : Act κ α) : Acted idle j x (j.act idle x) := by
  by_cases hidle : j.current = idle
  · cases x with
    | keep => exact .same _
    | leave => exact .leave
    | load n => exact .load n
    | save a =>
        rw [act_idle hidle (.inl rfl)]
        exact .same _
    | note a =>
        rw [act_idle hidle (.inr rfl)]
        exact .same _
  · cases x with
    | keep => exact .same _
    | leave => exact .leave
    | load n => exact .load n
    | save a =>
        rw [act_save hidle]
        exact .save a hidle
    | note a =>
        rw [act_note hidle]
        exact .note a hidle

end acts

/-! ## What is said of a journal -/

/-- Every entry belongs to the journal that it stands in. -/
structure Within (belongs : κ → α → Prop) (j : Journal κ α) : Prop where
  entries : ∀ a ∈ j.entries, belongs j.current a
  saved : ∀ n, ∀ a ∈ j.saved n, belongs n a

/-- The journal in memory goes on from the saved one; without a pending entry they agree. -/
structure Based (idle : κ) (j : Journal κ α) : Prop where
  extends_saved : j.current ≠ idle → j.saved j.current <+: j.entries
  settled : j.current ≠ idle → j.current ∉ j.pending → j.entries = j.saved j.current

/-- Entries that `n` had in memory are saved, still in memory, or were left there. -/
inductive Held (n : κ) (l : List α) (j : Journal κ α) : Prop where
  | saved (h : l.Sublist (j.saved n))
  | entries (hn : j.current = n) (h : l.Sublist j.entries)
  | left (hn : j.current ≠ n) (h : n ∈ j.pending)

theorem Held.sublist_saved {idle n : κ} {l : List α} {j : Journal κ α} (h : j.Held n l)
    (hbased : j.Based idle) (hn : n ≠ idle) (hpending : n ∉ j.pending) : l.Sublist (j.saved n) := by
  cases h with
  | saved h => exact h
  | entries hcurrent h =>
      subst hcurrent
      exact hbased.settled hn hpending ▸ h
  | left _ h => exact absurd h hpending

/-! ## What the steps keep -/

section steps

variable [DecidableEq κ] {idle n : κ} {j : Journal κ α} {x : Act κ α}

theorem Within.act {belongs : κ → α → Prop} (h : j.Within belongs)
    (hx : ∀ a, x = .save a ∨ x = .note a → j.current ≠ idle → belongs j.current a) :
    (j.act idle x).Within belongs := by
  -- What an addition makes of the journal in memory.
  have hadded : ∀ a, x = .save a ∨ x = .note a → j.current ≠ idle →
      ∀ b ∈ j.entries ++ [a], belongs j.current b := by
    intro a ha hidle b hb
    rcases List.mem_append.mp hb with hb | hb
    · exact h.entries b hb
    · rw [List.mem_singleton.mp hb]
      exact hx a ha hidle
  have hacted := acted idle j x
  generalize j.act idle x = j' at hacted ⊢
  cases hacted with
  | same => exact h
  | leave => exact ⟨fun _ hb => absurd hb List.not_mem_nil, h.saved⟩
  | load n => exact ⟨h.saved n, h.saved⟩
  | save a hidle =>
      refine ⟨hadded a (.inl rfl) hidle, fun n b hb => ?_⟩
      by_cases hn : n = j.current
      · rw [hn] at hb ⊢
        rw [saved_write_self] at hb
        exact hadded a (.inl rfl) hidle b hb
      · rw [saved_write_of_ne hn] at hb
        exact h.saved n b hb
  | note a hidle => exact ⟨hadded a (.inr rfl) hidle, h.saved⟩

theorem Based.act (h : j.Based idle) : (j.act idle x).Based idle := by
  have hacted := acted idle j x
  generalize j.act idle x = j' at hacted ⊢
  cases hacted with
  | same => exact h
  | leave => exact ⟨fun hne => absurd rfl hne, fun hne => absurd rfl hne⟩
  | load n => exact ⟨fun _ => List.prefix_rfl, fun _ _ => rfl⟩
  | save a hidle =>
      have hsaved : (j.write (j.entries ++ [a])).saved j.current = j.entries ++ [a] :=
        saved_write_self
      constructor
      · intro _
        exact hsaved.symm ▸ List.prefix_rfl
      · intro _ _
        exact hsaved.symm
  | note a hidle =>
      constructor
      · intro _
        exact (h.extends_saved hidle).trans (List.prefix_append _ _)
      · intro _ hpending
        exact absurd (Finset.mem_insert_self _ _) hpending

theorem Held.act {l : List α} (h : j.Held n l) (hbased : j.Based idle) (hn : n ≠ idle)
    (hload : x = .load n → n ∉ j.pending) : (j.act idle x).Held n l := by
  -- Leaving the journal in memory is the step that may lose them.
  have hleft : ∀ k b, k ≠ n → { j with current := k, entries := b }.Held n l := by
    intro k b hk
    by_cases hpending : n ∈ j.pending
    · exact .left hk hpending
    · exact .saved (h.sublist_saved hbased hn hpending)
  have hacted := acted idle j x
  generalize j.act idle x = j' at hacted ⊢
  cases hacted with
  | same => exact h
  | leave => exact hleft idle [] hn.symm
  | load k =>
      by_cases hk : k = n
      · exact .saved (h.sublist_saved hbased hn (hload (hk ▸ rfl)))
      · exact hleft k (j.saved k) hk
  | save a hidle =>
      cases h with
      | saved h =>
          by_cases hk : n = j.current
          · subst hk
            refine .saved ?_
            rw [saved_write_self]
            exact (h.trans (hbased.extends_saved hidle).sublist).trans (List.sublist_append_left _ _)
          · refine .saved ?_
            rw [saved_write_of_ne hk]
            exact h
      | entries hcurrent h =>
          subst hcurrent
          refine .saved ?_
          rw [saved_write_self]
          exact h.trans (List.sublist_append_left _ _)
      | left hne h => exact .left hne (Finset.mem_erase.mpr ⟨hne.symm, h⟩)
  | note a hidle =>
      cases h with
      | saved h => exact .saved h
      | entries hcurrent h => exact .entries hcurrent (h.trans (List.sublist_append_left _ _))
      | left hne h => exact .left hne (Finset.mem_insert_of_mem h)

/-- A journal becomes pending with more entries in memory than are saved, and stays so until
it is written. -/
theorem pending_act (h : j.Based idle) (hpending : n ∈ (j.act idle x).pending) :
    (n ∈ j.pending ∧ (j.act idle x).saved n = j.saved n) ∨
      (n ≠ idle ∧ (j.act idle x).current = n ∧
        ((j.act idle x).saved n).length < (j.act idle x).entries.length) := by
  have hacted := acted idle j x
  generalize j.act idle x = j' at hacted hpending ⊢
  cases hacted with
  | same => exact .inl ⟨hpending, rfl⟩
  | leave => exact .inl ⟨hpending, rfl⟩
  | load k => exact .inl ⟨hpending, rfl⟩
  | save a hidle =>
      obtain ⟨hne, hpending⟩ := Finset.mem_erase.mp hpending
      exact .inl ⟨hpending, saved_write_of_ne hne⟩
  | note a hidle =>
      rcases Finset.mem_insert.mp hpending with hn | hpending
      · have hle := (h.extends_saved hidle).length_le
        subst hn
        refine .inr ⟨hidle, rfl, ?_⟩
        simp only [append, List.length_append, List.length_singleton]
        omega
      · exact .inl ⟨hpending, rfl⟩

end steps

end Journal

end LinuxLive
