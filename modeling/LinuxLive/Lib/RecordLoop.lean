import Mathlib.Data.List.Basic

/-!
# Loops over records inside one handler

A loop that reads one record after another and ends at the first exception.  This module
compares what it gives with what every record gives on its own.
-/

namespace LinuxLive

universe u v w

variable {α : Type u} {β : Type v} {ε : Type w} (step : β → Except ε (Option α))

/-- The records in front of the first exception; `none` is an item that is passed over. -/
def readUntil : List β → List α
  | [] => []
  | item :: items =>
      match step item with
      | .error _ => []
      | .ok none => readUntil items
      | .ok (some a) => a :: readUntil items

/-- The record of an item that stands alone. -/
def alone (item : β) : Option α :=
  match step item with
  | .error _ => none
  | .ok a => a

/-- Behind items that are read there is none that makes the loop stuck. -/
def Returns (stuck : ε) (items : List β) : Prop :=
  ∀ before item behind, items = before ++ item :: behind → (∀ x ∈ before, ∃ a, step x = .ok a) →
    step item ≠ .error stuck

def returns [DecidableEq ε] (stuck : ε) : List β → Bool
  | [] => true
  | item :: items =>
      match step item with
      | .error e => decide (e ≠ stuck)
      | .ok _ => returns stuck items

/-- The loop returns what every item gives on its own. -/
structure ReadsAll (stuck : ε) (items : List β) (records : List α) : Prop where
  returns : Returns step stuck items
  records : records = items.filterMap (alone step)

/-- The items that give a record, those that throw, and those of them at which the loop is
stuck. -/
structure Grading (stuck : ε) where
  good : β → Prop
  bad : β → Prop
  undefined : β → Prop
  good_iff : ∀ item, good item ↔ ∃ a, step item = .ok (some a)
  bad_iff : ∀ item, bad item ↔ ∃ e, step item = .error e
  undefined_iff : ∀ item, undefined item ↔ step item = .error stuck

/-- Nothing good stands behind a bad item, and the loop is not stuck at the first bad one. -/
def Grading.BadLast {step : β → Except ε (Option α)} {stuck : ε} (g : Grading step stuck)
    (items : List β) : Prop :=
  ∀ before item behind, items = before ++ item :: behind → g.bad item →
    (∀ y ∈ behind, ¬ g.good y) ∧ ((∀ x ∈ before, ¬ g.bad x) → ¬ g.undefined item)

section loop

variable {step} {stuck : ε} {item : β} {items : List β}

theorem readUntil_cons_ok {a : Option α} (h : step item = .ok a) :
    readUntil step (item :: items) = a.toList ++ readUntil step items := by
  rw [readUntil, h]
  cases a <;> rfl

theorem alone_of_ok {a : Option α} (h : step item = .ok a) : alone step item = a := by
  rw [alone, h]

theorem alone_eq_none_iff : alone step item = none ↔ ¬ ∃ a, step item = .ok (some a) := by
  unfold alone
  cases step item with
  | error e => simp
  | ok a => cases a <;> simp

theorem readUntil_eq_of_error {e : ε} (h : step item = .error e) :
    readUntil step (item :: items) = (item :: items).filterMap (alone step) ↔
      ∀ y ∈ items, alone step y = none := by
  have hread : readUntil step (item :: items) = [] := by rw [readUntil, h]
  have hnone : alone step item = none := by rw [alone, h]
  rw [hread, List.filterMap_cons_none hnone, eq_comm, List.filterMap_eq_nil_iff]

theorem readUntil_eq_of_ok {a : Option α} (h : step item = .ok a) :
    readUntil step (item :: items) = (item :: items).filterMap (alone step) ↔
      readUntil step items = items.filterMap (alone step) := by
  have hfilter : (item :: items).filterMap (alone step) =
      a.toList ++ items.filterMap (alone step) := by
    rw [List.filterMap_cons, alone_of_ok h]
    cases a <;> rfl
  rw [readUntil_cons_ok h, hfilter, List.append_cancel_left_eq]

/-- All is read exactly if nothing behind the first exception would have given a record. -/
theorem readUntil_eq_iff : readUntil step items = items.filterMap (alone step) ↔
    ∀ before item behind e, items = before ++ item :: behind → step item = .error e →
      ∀ y ∈ behind, alone step y = none := by
  induction items with
  | nil => simp [readUntil]
  | cons item items ih =>
      cases hstep : step item with
      | error e =>
          rw [readUntil_eq_of_error hstep]
          constructor
          · intro hall before first behind e' hsplit _ y hy
            apply hall
            cases before with
            | nil =>
                cases hsplit
                exact hy
            | cons b before =>
                cases hsplit
                exact List.mem_append_right _ (List.mem_cons_of_mem _ hy)
          · intro h
            exact h [] item items e rfl hstep
      | ok a =>
          rw [readUntil_eq_of_ok hstep, ih]
          constructor
          · intro h before first behind e hsplit herror
            cases before with
            | nil =>
                cases hsplit
                rw [hstep] at herror
                cases herror
            | cons b before =>
                cases hsplit
                exact h before first behind e rfl herror
          · intro h before first behind e hsplit
            exact h (item :: before) first behind e (by rw [hsplit]; rfl)

theorem returns_iff [DecidableEq ε] : returns step stuck items = true ↔ Returns step stuck items := by
  induction items with
  | nil =>
      refine iff_of_true rfl ?_
      intro before item behind hsplit
      cases before <;> cases hsplit
  | cons item items ih =>
      cases hstep : step item with
      | error e =>
          rw [returns, hstep]
          constructor
          · intro hne before first behind hsplit hok hstuck
            cases before with
            | nil =>
                cases hsplit
                rw [hstep] at hstuck
                exact of_decide_eq_true hne (Except.error.inj hstuck)
            | cons b before =>
                cases hsplit
                obtain ⟨a, ha⟩ := hok _ List.mem_cons_self
                rw [hstep] at ha
                cases ha
          · intro h
            refine decide_eq_true fun he => ?_
            exact h [] item items rfl (by simp) (he ▸ hstep)
      | ok a =>
          rw [returns, hstep]
          refine ih.trans ⟨?_, ?_⟩
          · intro h before first behind hsplit hok
            cases before with
            | nil =>
                cases hsplit
                rw [hstep]
                simp
            | cons b before =>
                cases hsplit
                exact h before first behind rfl fun x hx => hok x (List.mem_cons_of_mem _ hx)
          · intro h before first behind hsplit hok
            refine h (item :: before) first behind (by rw [hsplit]; rfl) fun x hx => ?_
            rcases List.mem_cons.mp hx with rfl | hx
            · exact ⟨a, hstep⟩
            · exact hok x hx

theorem Grading.not_bad_iff (g : Grading step stuck) : ¬ g.bad item ↔ ∃ a, step item = .ok a := by
  rw [g.bad_iff]
  cases step item with
  | error e => simp
  | ok a => simp

/-- The loop reads everything that can be read exactly if the bad items come last. -/
theorem Grading.readsAll_iff (g : Grading step stuck) :
    ReadsAll step stuck items (readUntil step items) ↔ g.BadLast items := by
  have hgood : ∀ y, alone step y = none ↔ ¬ g.good y := fun y => by
    rw [alone_eq_none_iff, g.good_iff]
  constructor
  · intro h before item behind hsplit hbad
    obtain ⟨e, he⟩ := (g.bad_iff item).mp hbad
    have hbehind := readUntil_eq_iff.mp h.records before item behind e hsplit he
    refine ⟨fun y hy => (hgood y).mp (hbehind y hy), fun hbefore hundefined => ?_⟩
    have hok : ∀ x ∈ before, ∃ a, step x = .ok a := fun x hx => g.not_bad_iff.mp (hbefore x hx)
    exact h.returns before item behind hsplit hok ((g.undefined_iff item).mp hundefined)
  · intro h
    constructor
    · intro before item behind hsplit hok hstuck
      have hbad : g.bad item := (g.bad_iff item).mpr ⟨stuck, hstuck⟩
      have hbefore : ∀ x ∈ before, ¬ g.bad x := fun x hx => g.not_bad_iff.mpr (hok x hx)
      exact (h before item behind hsplit hbad).2 hbefore ((g.undefined_iff item).mpr hstuck)
    · rw [readUntil_eq_iff]
      intro before item behind e hsplit he y hy
      have hbad : g.bad item := (g.bad_iff item).mpr ⟨e, he⟩
      exact (hgood y).mpr ((h before item behind hsplit hbad).1 y hy)

end loop

end LinuxLive
