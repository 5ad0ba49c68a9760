import LinuxLive.Lib.Runs

/-!
# Two threads over a shared state

Interleavings of two threads whose steps are atomic, runs of one of them alone, and a
reduction rule: a thread with one action that commutes with every step of the
other thread but its last acts before or after the whole of it.
-/

namespace LinuxLive

universe u v

/-- The local states of two threads and what they share. -/
structure Threads (τ : Type u) (σ : Type v) where
  left : τ
  right : τ
  shared : σ

variable {τ : Type u} {σ : Type v}

/-- A turn of one thread; the label tells whether it is the right one.  A thread that has
finished has no step. -/
inductive Turn (step : τ → σ → Option (τ × σ)) : Threads τ σ → Bool → Threads τ σ → Prop where
  | left {t t' r : τ} {s s' : σ} :
      step t s = some (t', s') → Turn step ⟨t, r, s⟩ false ⟨t', r, s'⟩
  | right {l t t' : τ} {s s' : σ} :
      step t s = some (t', s') → Turn step ⟨l, t, s⟩ true ⟨l, t', s'⟩

inductive Solo (step : τ → σ → Option (τ × σ)) : τ → σ → τ → σ → Prop where
  | refl (t : τ) (s : σ) : Solo step t s t s
  | head {t t' t'' : τ} {s s' s'' : σ} :
      step t s = some (t', s') → Solo step t' s' t'' s'' → Solo step t s t'' s''

def Threads.swap (p : Threads τ σ) : Threads τ σ := ⟨p.right, p.left, p.shared⟩

section turns

variable {step : τ → σ → Option (τ × σ)} {p q : Threads τ σ} {schedule : List Bool}

theorem Turn.swap {b : Bool} (h : Turn step p b q) : Turn step p.swap (!b) q.swap := by
  cases h with
  | left h => exact .right h
  | right h => exact .left h

theorem run_swap (h : Run (Turn step) p schedule q) :
    Run (Turn step) p.swap (schedule.map not) q.swap := by
  induction h with
  | nil p => exact .nil p.swap
  | cons hturn _ ih => exact .cons hturn.swap ih

theorem Solo.run_left {l l' r : τ} {s s' : σ} (h : Solo step l s l' s') :
    ∃ schedule, Run (Turn step) ⟨l, r, s⟩ schedule ⟨l', r, s'⟩ := by
  induction h with
  | refl l s => exact ⟨[], .nil _⟩
  | head hstep _ ih =>
      obtain ⟨schedule, h⟩ := ih
      exact ⟨false :: schedule, .cons (.left hstep) h⟩

theorem Solo.run_right {l r r' : τ} {s s' : σ} (h : Solo step r s r' s') :
    ∃ schedule, Run (Turn step) ⟨l, r, s⟩ schedule ⟨l, r', s'⟩ := by
  obtain ⟨schedule, hrun⟩ := h.run_left (r := l)
  exact ⟨_, run_swap hrun⟩

/-- Two runs of one thread from one state to where it has finished end alike. -/
theorem Solo.unique {t t' t'' : τ} {s s' s'' : σ} (h : Solo step t s t' s')
    (h' : Solo step t s t'' s'') (hfin : ∀ s, step t' s = none) (hfin' : ∀ s, step t'' s = none) :
    t' = t'' ∧ s' = s'' := by
  induction h with
  | refl t s =>
      cases h' with
      | refl => exact ⟨rfl, rfl⟩
      | head hstep _ =>
          rw [hfin s] at hstep
          cases hstep
  | head hstep _ ih =>
      cases h' with
      | refl =>
          rw [hfin'] at hstep
          cases hstep
      | head hstep' hrest =>
          cases hstep.symm.trans hstep'
          exact ih hrest hfin

end turns

/-! ## Reduction -/

/--
A thread that acts once.  From `start` its first step applies `act` and takes it to a
state with `Quiet`, where it changes nothing more; and `act` commutes with each
step of the other thread that is not its last.  `Inv` is what holds of the other
thread and the shared state while they run.
-/
structure ActsOnce (step : τ → σ → Option (τ × σ)) (start : τ) (act : σ → σ) (Quiet : τ → Prop)
    (Inv : τ → σ → Prop) : Prop where
  keeps : ∀ t s t' s', Inv t s → step t s = some (t', s') → Inv t' s'
  act_keeps : ∀ t s, Inv t s → Inv t (act s)
  acts : ∀ t s, Inv t s → ∃ q, step start s = some (q, act s) ∧ Quiet q
  quiet : ∀ t s q q' s', Inv t s → Quiet q → step q s = some (q', s') → Quiet q' ∧ s' = s
  commutes : ∀ t s t' s', Inv t s → step t s = some (t', s') → (∃ u, step t' u ≠ none) →
    step t (act s) = some (t', act s')

namespace ActsOnce

variable {step : τ → σ → Option (τ × σ)} {start : τ} {act : σ → σ} {Quiet : τ → Prop}
  {Inv : τ → σ → Prop} {p q : Threads τ σ} {schedule : List Bool}

/-- Once the thread has acted, only the other one changes the shared state. -/
theorem solo_of_quiet (h : ActsOnce step start act Quiet Inv)
    (hrun : Run (Turn step) p schedule q) (hquiet : Quiet p.left) (hinv : Inv p.right p.shared) :
    Solo step p.right p.shared q.right q.shared := by
  induction hrun with
  | nil p => exact .refl _ _
  | cons hturn _ ih =>
      cases hturn with
      | left hstep =>
          obtain ⟨hq, rfl⟩ := h.quiet _ _ _ _ _ hinv hquiet hstep
          exact ih hq hinv
      | right hstep => exact .head hstep (ih hquiet (h.keeps _ _ _ _ hinv hstep))

/-- Every interleaving ends as if the thread had acted before the other one or after it. -/
theorem reduce (h : ActsOnce step start act Quiet Inv) (hrun : Run (Turn step) p schedule q)
    (hstart : p.left = start) (hinv : Inv p.right p.shared) (hleft : ∀ s, step q.left s = none)
    (hright : ∀ s, step q.right s = none) :
    Solo step p.right (act p.shared) q.right q.shared ∨
      ∃ s, Solo step p.right p.shared q.right s ∧ q.shared = act s := by
  induction hrun with
  | nil p =>
      obtain ⟨t, ht, _⟩ := h.acts _ _ hinv
      rw [← hstart, hleft] at ht
      cases ht
  | cons hturn hrun ih =>
      cases hturn with
      | left hstep =>
          obtain ⟨t, ht, hquiet⟩ := h.acts _ _ hinv
          cases hstart
          cases hstep.symm.trans ht
          exact .inl (h.solo_of_quiet hrun hquiet (h.act_keeps _ _ hinv))
      | @right l t t' s s' hstep =>
          have hinv' := h.keeps _ _ _ _ hinv hstep
          rcases ih hstart hinv' hleft hright with hsolo | ⟨u, hsolo, hu⟩
          · by_cases hlive : ∃ u, step t' u ≠ none
            · exact .inl (.head (h.commutes _ _ _ _ hinv hstep hlive) hsolo)
            · -- the other thread is through: what is left of it is nothing
              have hdone : ∀ u, step t' u = none := by
                intro u
                by_contra hne
                exact hlive ⟨u, hne⟩
              obtain ⟨hr, hs⟩ := hsolo.unique (.refl _ _) hright hdone
              exact .inr ⟨s', hr ▸ .head hstep (.refl _ _), hs⟩
          · exact .inr ⟨u, .head hstep hsolo, hu⟩

/-- Alone, the thread ends in what its action makes of the shared state. -/
theorem solo_act (h : ActsOnce step start act Quiet Inv) {t t' : τ} {s s' : σ} (hinv : Inv t s)
    (hsolo : Solo step start s t' s') (hfin : ∀ u, step t' u = none) : s' = act s := by
  have hquiet : ∀ {q t' : τ} {u s' : σ}, Solo step q u t' s' → Quiet q → Inv t u → s' = u := by
    intro q t' u s' hrest
    induction hrest with
    | refl => exact fun _ _ => rfl
    | head hstep _ ih =>
        intro hq hu
        obtain ⟨hq', rfl⟩ := h.quiet _ _ _ _ _ hu hq hstep
        exact ih hq' hu
  obtain ⟨q, hq, hquietq⟩ := h.acts _ _ hinv
  cases hsolo with
  | refl =>
      rw [hfin] at hq
      cases hq
  | head hstep hrest =>
      cases hstep.symm.trans hq
      exact hquiet hrest hquietq (h.act_keeps _ _ hinv)

theorem keeps_solo (h : ActsOnce step start act Quiet Inv) {t t' : τ} {s s' : σ}
    (hsolo : Solo step t s t' s') (hinv : Inv t s) : Inv t' s' := by
  induction hsolo with
  | refl => exact hinv
  | head hstep _ ih => exact ih (h.keeps _ _ _ _ hinv hstep)

end ActsOnce

end LinuxLive
