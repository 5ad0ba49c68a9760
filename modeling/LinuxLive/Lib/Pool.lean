import Mathlib.Algebra.BigOperators.Group.List.Basic
import Mathlib.Algebra.Order.Ring.Nat
import Mathlib.Data.List.Nodup
import LinuxLive.Lib.Runs

/-!
# A pool of threads

Any number of threads over a shared state, whose steps are atomic, and two rules for them:
what each thread keeps, and how far a limit is exceeded that each of them checks some time
before it acts.
-/

namespace LinuxLive

universe u v

/-- The local states of the threads and what they share. -/
structure Pool (τ : Type u) (σ : Type v) where
  threads : List τ
  shared : σ

namespace Pool

variable {τ : Type u} {σ : Type v}

/-- A thread takes a step, or something outside of the pool changes the shared state. -/
inductive Step (step : τ → σ → τ → σ → Prop) (outside : σ → σ → Prop) :
    Pool τ σ → Option Nat → Pool τ σ → Prop where
  | thread {before after : List τ} {t t' : τ} {s s' : σ} :
      step t s t' s' →
      Step step outside ⟨before ++ t :: after, s⟩ (some before.length)
        ⟨before ++ t' :: after, s'⟩
  | outside {threads : List τ} {s s' : σ} :
      outside s s' → Step step outside ⟨threads, s⟩ none ⟨threads, s'⟩

variable {step : τ → σ → τ → σ → Prop} {outside : σ → σ → Prop} {p q : Pool τ σ}

/-- What a step of a thread keeps of the shared state and of the thread itself. -/
theorem keeps {Inv : σ → Prop} {Good : τ → Prop}
    (hstep : ∀ t s t' s', Inv s → Good t → step t s t' s' → Inv s' ∧ Good t')
    (houtside : ∀ s s', Inv s → outside s s' → Inv s') (h : Reachable (Step step outside) p q)
    (hp : Inv p.shared ∧ ∀ t ∈ p.threads, Good t) :
    Inv q.shared ∧ ∀ t ∈ q.threads, Good t := by
  refine h.keeps (P := fun q => Inv q.shared ∧ ∀ t ∈ q.threads, Good t) ?_ hp
  rintro _ _ _ ⟨hinv, hgood⟩ hmove
  cases hmove with
  | @thread before after t t' s s' hmove =>
      obtain ⟨hinv', hgood'⟩ := hstep _ _ _ _ hinv (hgood t (by simp)) hmove
      refine ⟨hinv', fun u hu => ?_⟩
      rw [List.mem_append, List.mem_cons] at hu
      obtain hu | rfl | hu := hu
      · exact hgood u (by simp [hu])
      · exact hgood'
      · exact hgood u (by simp [hu])
  | outside hmove => exact ⟨houtside _ _ hinv hmove, hgood⟩

/--
What each thread relies on, over a whole run: its own steps keep it, and neither the steps of
the others nor those outside of the pool break it.  A key tells the threads apart.
-/
theorem noninterference {κ : Type*} (key : τ → κ) (Inv : σ → Prop) (Local : τ → σ → Prop)
    (own : ∀ t s t' s', Inv s → Local t s → step t s t' s' →
      Inv s' ∧ Local t' s' ∧ key t' = key t)
    (others : ∀ t u s u' s', Inv s → Local t s → Local u s → key t ≠ key u →
      step u s u' s' → Local t s')
    (houtside : ∀ s s', Inv s → outside s s' → Inv s' ∧ ∀ t, Local t s → Local t s')
    (h : Reachable (Step step outside) p q) (hnodup : (p.threads.map key).Nodup)
    (hp : Inv p.shared ∧ ∀ t ∈ p.threads, Local t p.shared) :
    q.threads.map key = p.threads.map key ∧ Inv q.shared ∧ ∀ t ∈ q.threads, Local t q.shared := by
  refine h.keeps (P := fun q => q.threads.map key = p.threads.map key ∧ Inv q.shared ∧
    ∀ t ∈ q.threads, Local t q.shared) ?_ ⟨rfl, hp⟩
  rintro _ _ _ ⟨hkeys, hinv, hlocal⟩ hmove
  cases hmove with
  | @thread before after t t' s s' hmove =>
      obtain ⟨hinv', hlocal', hkey⟩ := own _ _ _ _ hinv (hlocal t (by simp)) hmove
      have hkept : ∀ u ∈ before ++ after, Local u s' := by
        intro u hu
        refine others u t s t' s' hinv (hlocal u ?_) (hlocal t (by simp)) ?_ hmove
        · simp only [List.mem_append, List.mem_cons] at hu ⊢
          exact hu.imp_right .inr
        · dsimp only at hkeys
          rw [← hkeys, List.map_append, List.map_cons, List.nodup_middle, ← List.map_append,
            List.nodup_cons] at hnodup
          exact fun heq => hnodup.1 (heq ▸ List.mem_map_of_mem hu)
      refine ⟨?_, hinv', fun u hu => ?_⟩
      · rw [← hkeys]
        simp [hkey]
      · simp only [List.mem_append, List.mem_cons] at hu
        obtain hu | rfl | hu := hu
        · exact hkept u (List.mem_append_left _ hu)
        · exact hlocal'
        · exact hkept u (List.mem_append_right _ hu)
  | outside hmove =>
      obtain ⟨hinv', hkept⟩ := houtside _ _ hinv hmove
      exact ⟨hkeys, hinv', fun t ht => hkept t (hlocal t ht)⟩

/-- Every item that has come up since is paid for, or some thread still owes for it. -/
theorem accounted {α : Type*} (item paid : σ → α → Prop) (owes : τ → α → Prop)
    (hstep : ∀ q, Reachable (Step step outside) p q → ∀ t ∈ q.threads, ∀ t' s',
      step t q.shared t' s' → ∀ x,
        (item s' x → item q.shared x ∨ owes t' x) ∧ (paid q.shared x → paid s' x) ∧
          (owes t x → owes t' x ∨ paid s' x))
    (houtside : ∀ q, Reachable (Step step outside) p q → ∀ s', outside q.shared s' → ∀ x,
      (item s' x → item q.shared x) ∧ (paid q.shared x → paid s' x))
    (h : Reachable (Step step outside) p q) {x : α} (hx : item q.shared x) :
    item p.shared x ∨ paid q.shared x ∨ ∃ t ∈ q.threads, owes t x := by
  have hall : Reachable (Step step outside) p q ∧ (item q.shared x →
      item p.shared x ∨ paid q.shared x ∨ ∃ t ∈ q.threads, owes t x) := by
    refine h.keeps (P := fun q => Reachable (Step step outside) p q ∧ (item q.shared x →
      item p.shared x ∨ paid q.shared x ∨ ∃ t ∈ q.threads, owes t x)) ?_ ⟨.refl p, .inl⟩
    rintro r _ r' ⟨hreach, hdue⟩ hmove
    refine ⟨hreach.snoc hmove, fun hx' => ?_⟩
    cases hmove with
    | @thread before after t t' s s' hmove =>
        obtain ⟨hnew, hpaid, howes⟩ := hstep _ hreach t (by simp) t' s' hmove x
        obtain hx | howes' := hnew hx'
        · obtain hold | hx | ⟨u, hu, hdebt⟩ := hdue hx
          · exact .inl hold
          · exact .inr (.inl (hpaid hx))
          · simp only [List.mem_append, List.mem_cons] at hu
            obtain hu | rfl | hu := hu
            · exact .inr (.inr ⟨u, by simp [hu], hdebt⟩)
            · exact .inr ((howes hdebt).elim (fun h => .inr ⟨t', by simp, h⟩) .inl)
            · exact .inr (.inr ⟨u, by simp [hu], hdebt⟩)
        · exact .inr (.inr ⟨t', by simp, howes'⟩)
    | outside hmove =>
        obtain ⟨hold, hpaid⟩ := houtside _ hreach _ hmove x
        exact (hdue (hold hx')).imp_right (.imp_left hpaid)
  exact hall.2 hx

theorem reachable_thread {before after : List τ} {t t' : τ} {s s' : σ} (h : step t s t' s') :
    Reachable (Step step outside) ⟨before ++ t :: after, s⟩ ⟨before ++ t' :: after, s'⟩ :=
  ⟨_, .single (.thread h)⟩

def map {τ' : Type*} {σ' : Type*} (f : τ → τ') (g : σ → σ') (p : Pool τ σ) : Pool τ' σ' :=
  ⟨p.threads.map f, g p.shared⟩

/-- A pool that can follow every step of another one can follow its runs. -/
theorem reachable_map {τ' : Type*} {σ' : Type*} {step' : τ' → σ' → τ' → σ' → Prop}
    {outside' : σ' → σ' → Prop} (f : τ → τ') (g : σ → σ')
    (hstep : ∀ t s t' s', step t s t' s' → ∀ before after, Reachable (Step step' outside')
      ⟨before ++ f t :: after, g s⟩ ⟨before ++ f t' :: after, g s'⟩)
    (houtside : ∀ s s', outside s s' → outside' (g s) (g s') ∨ g s' = g s)
    (h : Reachable (Step step outside) p q) :
    Reachable (Step step' outside') (p.map f g) (q.map f g) := by
  refine h.keeps (P := fun q => Reachable (Step step' outside') (p.map f g) (q.map f g)) ?_
    (.refl _)
  intro r _ r' hreach hmove
  refine hreach.trans ?_
  cases hmove with
  | thread hmove =>
      simp only [map, List.map_append, List.map_cons]
      exact hstep _ _ _ _ hmove _ _
  | @outside threads s s' hmove =>
      obtain hmove | hsame := houtside s s' hmove
      · exact ⟨_, .single (.outside hmove)⟩
      · rw [map, map, hsame]
        exact .refl _

/-- Threads in one state that go on one after the other, `R k` after the first `k` of them. -/
theorem exists_sweep {n : Nat} {t t' : τ} {R : Nat → σ → Prop} {s : σ}
    (hstep : ∀ k u, k < n → R k u → ∃ u', R (k + 1) u' ∧ ∀ before after,
      Reachable (Step step outside) ⟨before ++ t :: after, u⟩ ⟨before ++ t' :: after, u'⟩)
    (hs : R 0 s) :
    ∃ u, R n u ∧ Reachable (Step step outside) ⟨List.replicate n t, s⟩
      ⟨List.replicate n t', u⟩ := by
  have hall : ∀ k, k ≤ n → ∃ u, R k u ∧ Reachable (Step step outside) ⟨List.replicate n t, s⟩
      ⟨List.replicate k t' ++ List.replicate (n - k) t, u⟩ := by
    intro k
    induction k with
    | zero => exact fun _ => ⟨s, hs, .refl _⟩
    | succ k ih =>
        intro hk
        obtain ⟨u, hu, hreach⟩ := ih (Nat.le_of_succ_le hk)
        obtain ⟨u', hu', hnext⟩ := hstep k u hk hu
        have hfirst : List.replicate (n - k) t = t :: List.replicate (n - (k + 1)) t := by
          rw [← List.replicate_succ]
          congr 1
          omega
        have hlast : List.replicate k t' ++ t' :: List.replicate (n - (k + 1)) t =
            List.replicate (k + 1) t' ++ List.replicate (n - (k + 1)) t := by
          rw [List.replicate_succ', List.append_assoc, List.singleton_append]
        rw [hfirst] at hreach
        exact ⟨u', hu', hlast ▸ hreach.trans (hnext _ _)⟩
  obtain ⟨u, hu, hreach⟩ := hall n (Nat.le_refl n)
  rw [Nat.sub_self, List.replicate_zero, List.append_nil] at hreach
  exact ⟨u, hu, hreach⟩

/-! ## Checking before acting -/

/--
A limit that a thread checks in one step and makes use of in a later one.  A thread that has
checked and not yet acted is pending; a step lowers what is counted and pending together,
leaves it, or is a check below the limit.
-/
structure Gate (step : τ → σ → τ → σ → Prop) (outside : σ → σ → Prop) (Inv : σ → Prop)
    (count : σ → Nat) (pending : τ → Nat) (limit bound : Nat) : Prop where
  pending_le : ∀ t, pending t ≤ 1
  acts : ∀ t s t' s', Inv s → count s ≤ bound → step t s t' s' →
    count s' + pending t' ≤ count s + pending t ∨ count s' < limit
  outside_acts : ∀ s s', Inv s → outside s s' → count s' ≤ count s
  keeps : ∀ t s t' s', Inv s → step t s t' s' → Inv s'
  outside_keeps : ∀ s s', Inv s → outside s s' → Inv s'

namespace Gate

variable {Inv : σ → Prop} {count : σ → Nat} {pending : τ → Nat} {limit : Nat}

theorem sum_pending_le {threads : List τ} (h : ∀ t, pending t ≤ 1) :
    (threads.map pending).sum ≤ threads.length := by
  induction threads with
  | nil => exact Nat.le_refl 0
  | cons t threads ih =>
      have ht := h t
      rw [List.map_cons, List.sum_cons, List.length_cons]
      omega

/-- Each thread but one may have checked before the last place was taken. -/
theorem count_le (hgate : Gate step outside Inv count pending limit
      (limit + (p.threads.length - 1)))
    (h : Reachable (Step step outside) p q) (hinv : Inv p.shared)
    (hstart : count p.shared + (p.threads.map pending).sum ≤ limit + (p.threads.length - 1)) :
    count q.shared + (q.threads.map pending).sum ≤ limit + (p.threads.length - 1) := by
  have hall : Inv q.shared ∧ q.threads.length = p.threads.length ∧
      count q.shared + (q.threads.map pending).sum ≤ limit + (p.threads.length - 1) := by
    refine h.keeps (P := fun q => Inv q.shared ∧ q.threads.length = p.threads.length ∧
      count q.shared + (q.threads.map pending).sum ≤ limit + (p.threads.length - 1))
      ?_ ⟨hinv, rfl, hstart⟩
    rintro _ _ _ ⟨hinv, hlength, hcount⟩ hmove
    cases hmove with
    | @thread before after t t' s s' hmove =>
        have hpending : ((before ++ t' :: after).map pending).sum ≤ _ :=
          sum_pending_le hgate.pending_le
        refine ⟨hgate.keeps _ _ _ _ hinv hmove, by simpa using hlength, ?_⟩
        dsimp only at hcount hlength ⊢
        simp only [List.map_append, List.map_cons, List.sum_append, List.sum_cons,
          List.length_append, List.length_cons] at hcount hlength hpending ⊢
        rcases hgate.acts t s t' s' hinv (by omega) hmove with hle | hlt
        · omega
        · omega
    | outside hmove =>
        have hle := hgate.outside_acts _ _ hinv hmove
        exact ⟨hgate.outside_keeps _ _ hinv hmove, hlength, by dsimp only at *; omega⟩
  exact hall.2.2

end Gate

end Pool

end LinuxLive
