import Mathlib.Tactic.TypeStar

/-!
# Machines that answer

Two machines that take the same calls, and a relation between their states under which no
sequence of calls tells them apart.
-/

namespace LinuxLive

/-- The state after a call, and the answer. -/
abbrev Machine (σ ι ο : Type*) := σ → ι → σ × ο

namespace Machine

variable {σ τ ι ο : Type*}

def after (m : Machine σ ι ο) (s : σ) (calls : List ι) : σ :=
  calls.foldl (fun s a => (m s a).1) s

def answers (m : Machine σ ι ο) (s : σ) : List ι → List ο
  | [] => []
  | a :: calls => (m s a).2 :: answers m (m s a).1 calls

/-- What is related stays so under every call, and answers it alike. -/
def Refines (m : Machine σ ι ο) (spec : Machine τ ι ο) (R : σ → τ → Prop) : Prop :=
  ∀ s t a, R s t → R (m s a).1 (spec t a).1 ∧ (m s a).2 = (spec t a).2

variable {m : Machine σ ι ο} {spec : Machine τ ι ο} {R : σ → τ → Prop} {s : σ} {t : τ}

theorem after_keeps {P : σ → Prop} (hcall : ∀ s a, P s → P (m s a).1) (hs : P s)
    (calls : List ι) : P (m.after s calls) := by
  induction calls generalizing s with
  | nil => exact hs
  | cons a calls ih => exact ih (hcall s a hs)

theorem Refines.answers (h : Refines m spec R) (hs : R s t) (calls : List ι) :
    m.answers s calls = spec.answers t calls := by
  induction calls generalizing s t with
  | nil => rfl
  | cons a calls ih =>
      obtain ⟨hnext, hanswer⟩ := h s t a hs
      rw [Machine.answers, Machine.answers, hanswer, ih hnext]

end Machine

end LinuxLive
