import Mathlib.Algebra.Order.Group.Basic
import Mathlib.Data.List.Basic
import Mathlib.Data.List.TakeWhile

/-!
# Sliding windows

A limiter admits an event only if fewer than `limit` earlier ones lie in the window
before it.  The times of all admitted events, and the list that a program keeps of them.
-/

namespace LinuxLive.SlidingWindow

universe u

section kept

variable {α : Type u} [LinearOrder α] {cut cut' : α} {kept history : List α}

/-- The times from `cut` on. -/
def recent (cut : α) (times : List α) : List α := times.filter fun t => decide (cut ≤ t)

/-- The history is what is kept behind times that are older than `cut`. -/
def Keeps (cut : α) (kept history : List α) : Prop :=
  ∃ old, history = old ++ kept ∧ ∀ t ∈ old, t < cut

theorem dropWhile_eq_recent {times : List α} (h : times.Pairwise (· ≤ ·)) :
    times.dropWhile (fun t => decide (t < cut)) = recent cut times := by
  induction times with
  | nil => rfl
  | cons t times ih =>
      obtain ⟨ht, htimes⟩ := List.pairwise_cons.mp h
      by_cases hold : t < cut
      · have hnot : ¬ cut ≤ t := not_le.mpr hold
        rw [List.dropWhile_cons_of_pos (by simpa using hold), ih htimes, recent, recent,
          List.filter_cons_of_neg (by simpa using hnot)]
      · have hall : ∀ u ∈ t :: times, decide (cut ≤ u) = true := by
          intro u hu
          rw [decide_eq_true_eq]
          rcases List.mem_cons.mp hu with rfl | hu
          · exact not_lt.mp hold
          · exact (not_lt.mp hold).trans (ht u hu)
        rw [List.dropWhile_cons_of_neg (by simpa using hold), recent,
          List.filter_eq_self.mpr hall]

theorem Keeps.refl (cut : α) (history : List α) : Keeps cut history history := ⟨[], rfl, by simp⟩

theorem Keeps.mono (h : Keeps cut kept history) (hle : cut ≤ cut') : Keeps cut' kept history := by
  obtain ⟨old, hhistory, hold⟩ := h
  exact ⟨old, hhistory, fun t ht => (hold t ht).trans_le hle⟩

theorem Keeps.append (h : Keeps cut kept history) (times : List α) :
    Keeps cut (kept ++ times) (history ++ times) := by
  obtain ⟨old, rfl, hold⟩ := h
  exact ⟨old, List.append_assoc old kept times, hold⟩

theorem Keeps.sorted (h : Keeps cut kept history) (hsorted : history.Pairwise (· ≤ ·)) :
    kept.Pairwise (· ≤ ·) := by
  obtain ⟨old, rfl, _⟩ := h
  exact (List.pairwise_append.mp hsorted).2.1

/-- Nothing that counts has been dropped. -/
theorem Keeps.recent_eq (h : Keeps cut kept history) : recent cut history = recent cut kept := by
  obtain ⟨old, rfl, hold⟩ := h
  have hnil : recent cut old = [] := by
    rw [recent, List.filter_eq_nil_iff]
    intro t ht
    simpa using hold t ht
  rw [recent, List.filter_append]
  exact (congrArg (· ++ recent cut kept) hnil).trans (List.nil_append _)

/-- Dropping the old times off the front keeps what counts. -/
theorem Keeps.recent_right (h : Keeps cut kept history) (hsorted : history.Pairwise (· ≤ ·)) :
    Keeps cut (recent cut kept) history := by
  have hkept := h.sorted hsorted
  obtain ⟨old, rfl, hold⟩ := h
  refine ⟨old ++ kept.takeWhile fun t => decide (t < cut), ?_, ?_⟩
  · rw [← dropWhile_eq_recent hkept, List.append_assoc, List.takeWhile_append_dropWhile]
  · intro t ht
    rcases List.mem_append.mp ht with ht | ht
    · exact hold t ht
    · simpa using List.mem_takeWhile_imp ht

end kept

section admitted

variable {α : Type u} [AddCommGroup α] [LinearOrder α] [IsOrderedAddMonoid α] {limit : Nat}
  {window : α} {history : List α}

/-- The histories of a limiter that reads the clock for its check and for its record. -/
inductive Admitted (limit : Nat) (window : α) : List α → Prop where
  | nil : Admitted limit window []
  | snoc {history : List α} {checkedAt recordedAt : α} : Admitted limit window history →
      (recent (checkedAt - window) history).length < limit → checkedAt ≤ recordedAt →
      Admitted limit window (history ++ [recordedAt])

/-- No window of the length holds more than `limit` of the times. -/
theorem Admitted.length_le (h : Admitted limit window history) (t : α) :
    (history.filter fun x => decide (t ≤ x ∧ x ≤ t + window)).length ≤ limit := by
  induction h with
  | nil => exact Nat.zero_le _
  | @snoc history checkedAt recordedAt _ hroom hle ih =>
      rw [List.filter_append, List.length_append]
      by_cases hin : t ≤ recordedAt ∧ recordedAt ≤ t + window
      · -- what the window has before its last time, the check has counted
        have hcut : checkedAt - window ≤ t := sub_le_iff_le_add.mpr (hle.trans hin.2)
        have hsub : (history.filter fun x => decide (t ≤ x ∧ x ≤ t + window)).length ≤
            (recent (checkedAt - window) history).length := by
          apply List.Sublist.length_le
          apply List.monotone_filter_right
          intro x hx
          rw [decide_eq_true_eq] at hx ⊢
          exact hcut.trans hx.1
        have hlast : ([recordedAt].filter fun x => decide (t ≤ x ∧ x ≤ t + window)).length ≤ 1 :=
          List.length_filter_le _ _
        omega
      · have hlast : ([recordedAt].filter fun x => decide (t ≤ x ∧ x ≤ t + window)) = [] := by
          simpa using hin
        rw [hlast, List.length_nil]
        omega

end admitted

end LinuxLive.SlidingWindow
