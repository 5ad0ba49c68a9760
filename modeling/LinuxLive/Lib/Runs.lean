import Mathlib.Data.List.Induction

/-!
# Runs of a labelled transition system

Runs from one state to another and invariants of every state reached,
from their one-step form.
-/

namespace LinuxLive

universe u v

variable {σ : Type u} {ι : Type v}

/-- A run and the labels of its steps, in order. -/
inductive Run (step : σ → ι → σ → Prop) : σ → List ι → σ → Prop where
  | nil (s : σ) : Run step s [] s
  | cons {s t u : σ} {a : ι} {l : List ι} : step s a t → Run step t l u → Run step s (a :: l) u

namespace Run

variable {step : σ → ι → σ → Prop} {s t u : σ} {l m : List ι}

theorem single {a : ι} (h : step s a t) : Run step s [a] t := .cons h (.nil t)

theorem append (h : Run step s l t) (h' : Run step t m u) : Run step s (l ++ m) u := by
  induction h with
  | nil s => exact h'
  | cons hs _ ih => exact .cons hs (ih h')

theorem append_iff : Run step s (l ++ m) u ↔ ∃ t, Run step s l t ∧ Run step t m u := by
  constructor
  · intro h
    induction l generalizing s with
    | nil => exact ⟨s, .nil s, h⟩
    | cons a l ih =>
        cases h with
        | cons hs hrun =>
            obtain ⟨t, hl, hm⟩ := ih hrun
            exact ⟨t, .cons hs hl, hm⟩
  · intro h
    obtain ⟨t, hl, hm⟩ := h
    exact hl.append hm

theorem single_iff {a : ι} : Run step s [a] t ↔ step s a t := by
  constructor
  · intro h
    cases h with
    | cons hs hrun =>
        cases hrun
        exact hs
  · exact single

theorem snoc_induction {P : List ι → σ → Prop} (nil : P [] s)
    (snoc : ∀ l t a u, Run step s l t → P l t → step t a u → P (l ++ [a]) u)
    (h : Run step s l t) : P l t := by
  induction l using List.reverseRecOn generalizing t with
  | nil =>
      cases h
      exact nil
  | append_singleton l a ih =>
      obtain ⟨u, hl, ha⟩ := append_iff.mp h
      exact snoc l u a t hl (ih hl) (single_iff.mp ha)

/-- What every step keeps, a run keeps. -/
theorem keeps {P : σ → Prop} (hstep : ∀ s a t, P s → step s a t → P t) (h : Run step s l t)
    (hs : P s) : P t := by
  induction h with
  | nil s => exact hs
  | cons hst _ ih => exact ih (hstep _ _ _ hs hst)

end Run

/-- Every step that a run along `l` takes meets a condition on the state before it. -/
def Guarded (step : σ → ι → σ → Prop) (guard : σ → ι → Prop) (s : σ) (l : List ι) : Prop :=
  ∀ l₁ a l₂ t, l = l₁ ++ a :: l₂ → Run step s l₁ t → guard t a

namespace Guarded

variable {step : σ → ι → σ → Prop} {guard : σ → ι → Prop} {s t : σ} {l m : List ι}

theorem of_append (h : Guarded step guard s (l ++ m)) : Guarded step guard s l := by
  intro l₁ a l₂ t hl hrun
  exact h l₁ a (l₂ ++ m) t (by simp [hl]) hrun

theorem after (h : Guarded step guard s (l ++ m)) (hrun : Run step s l t) :
    Guarded step guard t m := by
  intro l₁ a l₂ u hm hrun'
  exact h (l ++ l₁) a l₂ u (by simp [hm]) (hrun.append hrun')

/-- What every step that meets the condition keeps, the run keeps. -/
theorem keeps {P : σ → Prop} (hstep : ∀ s a t, P s → guard s a → step s a t → P t)
    (h : Guarded step guard s l) (hrun : Run step s l t) (hs : P s) : P t := by
  induction hrun with
  | nil s => exact hs
  | cons hst hrun ih =>
      have hguard := h [] _ _ _ rfl (.nil _)
      exact ih (h.after (l := [_]) (.single hst)) (hstep _ _ _ hs hguard hst)

end Guarded

def Reachable (step : σ → ι → σ → Prop) (s t : σ) : Prop := ∃ l, Run step s l t

namespace Reachable

variable {step : σ → ι → σ → Prop} {s t u : σ}

theorem refl (s : σ) : Reachable step s s := ⟨[], .nil s⟩

theorem trans : Reachable step s t → Reachable step t u → Reachable step s u
  | ⟨l, h⟩, ⟨m, h'⟩ => ⟨l ++ m, h.append h'⟩

theorem snoc {a : ι} (h : Reachable step s t) (hstep : step t a u) : Reachable step s u :=
  h.trans ⟨[a], .single hstep⟩

theorem keeps {P : σ → Prop} (hstep : ∀ s a t, P s → step s a t → P t)
    (h : Reachable step s t) (hs : P s) : P t := by
  obtain ⟨l, hl⟩ := h
  exact hl.keeps hstep hs

end Reachable

end LinuxLive
