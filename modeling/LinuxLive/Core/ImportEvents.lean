import LinuxLive.Core.ExportFile

/-!
# Events of an import

The events that `Persistence::import_achievements` reads, passes over or stops at, and how
far its loop gets.
-/

namespace LinuxLive.Persistence

open Json

/-! ## Events that are read -/

def contentFields : List FieldSpec :=
  [⟨lit "achievement_id", false, .string⟩, ⟨lit "name", false, .string⟩,
    ⟨lit "description", false, .string⟩, ⟨lit "icon", false, .string⟩,
    ⟨lit "tier", false, .string⟩, ⟨lit "category", false, .string⟩,
    ⟨lit "unlocked_at", false, .arithmetic uint64⟩]

theorem importContent_ok_iff {content : Json} :
    (∃ a, importContent content = .ok a) ↔ WellFormed contentFields content :=
  ok_optional_iff reads_getString fun _ => ok_optional_iff reads_getString fun _ =>
  ok_optional_iff reads_getString fun _ => ok_optional_iff reads_getString fun _ =>
  ok_optional_iff reads_getString fun _ => ok_optional_iff reads_getString fun _ =>
  ok_optional_iff reads_getULongLong fun _ => ok_pure_iff

theorem importContent_undefined_iff {content : Json} :
    importContent content = .error .undefined ↔ Undefined contentFields content :=
  undefined_optional_iff reads_getString fun _ => undefined_optional_iff reads_getString fun _ =>
  undefined_optional_iff reads_getString fun _ => undefined_optional_iff reads_getString fun _ =>
  undefined_optional_iff reads_getString fun _ => undefined_optional_iff reads_getString fun _ =>
  undefined_optional_iff reads_getULongLong fun _ => undefined_pure_iff

def readBody (lib : JsonText) (body : Json) : Except JsonError StoredAchievement := do
  let text ← body.getString
  let content ← (lib.parse text).elim (.error .parseError101) .ok
  importContent content

def GoodBody (lib : JsonText) (body : Json) : Prop :=
  ∃ text content, body = .str text ∧ lib.parse text = some content ∧
    WellFormed contentFields content

def UndefinedBody (lib : JsonText) (body : Json) : Prop :=
  ∃ text content, body = .str text ∧ lib.parse text = some content ∧
    Undefined contentFields content

def GoodEvent (lib : JsonText) (ev : Json) : Prop :=
  ∃ kind body, ev.field? (lit "kind") = some kind ∧ ev.field? (lit "content") = some body ∧
    kind.getInt = .ok 30079 ∧ GoodBody lib body

/-- The kind is no number, or the content of an achievement is none. -/
def BadEvent (lib : JsonText) (ev : Json) : Prop :=
  ∃ kind body, ev.field? (lit "kind") = some kind ∧ ev.field? (lit "content") = some body ∧
    ((FieldType.arithmetic int32).fits kind = false ∨
      kind.getInt = .ok 30079 ∧ ¬ GoodBody lib body)

/-- The kind, or a number in the content of an achievement, is outside of its type. -/
def UndefinedEvent (lib : JsonText) (ev : Json) : Prop :=
  ∃ kind body, ev.field? (lit "kind") = some kind ∧ ev.field? (lit "content") = some body ∧
    ((FieldType.arithmetic int32).outside kind = true ∨
      kind.getInt = .ok 30079 ∧ UndefinedBody lib body)

section events

variable {lib : JsonText} {ev kind body : Json}

theorem readBody_ok_iff : (∃ a, readBody lib body = .ok a) ↔ GoodBody lib body := by
  unfold GoodBody
  simp only [readBody, bind_eq_ok, getString_ok_iff]
  constructor
  · intro h
    obtain ⟨a, text, hbody, content, hparse, hread⟩ := h
    cases hcontent : lib.parse text with
    | none => simp [hcontent] at hparse
    | some j =>
        simp only [hcontent, Option.elim_some, Except.ok.injEq] at hparse
        cases hparse
        exact ⟨text, content, hbody, hcontent, importContent_ok_iff.mp ⟨a, hread⟩⟩
  · intro h
    obtain ⟨text, content, hbody, hparse, hread⟩ := h
    obtain ⟨a, ha⟩ := importContent_ok_iff.mpr hread
    exact ⟨a, text, hbody, content, by rw [hparse]; rfl, ha⟩

theorem readBody_undefined_iff :
    readBody lib body = .error .undefined ↔ UndefinedBody lib body := by
  unfold UndefinedBody readBody
  cases body with
  | str text =>
      simp only [getString, bind, Except.bind, Json.str.injEq, exists_and_left, exists_eq_left']
      cases hparse : lib.parse text with
      | none => simp
      | some content => simp [importContent_undefined_iff]
  | _ => simp [getString, bind, Except.bind]

theorem importEvent_of_missing
    (h : ev.field? (lit "content") = none ∨ ev.field? (lit "kind") = none) :
    importEvent lib ev = .ok none := by
  unfold importEvent contains
  rcases h with h | h
  · rw [h]
    rfl
  · rw [h]
    simp
    rfl

theorem importEvent_of_present (hkind : ev.field? (lit "kind") = some kind)
    (hbody : ev.field? (lit "content") = some body) : importEvent lib ev =
      match kind.getInt with
      | .error e => .error e
      | .ok n => if n = 30079 then (readBody lib body).map some else .ok none := by
  unfold importEvent contains
  rw [hkind, hbody, constIndex_of_field? hkind, constIndex_of_field? hbody]
  simp only [Option.isSome_some, Bool.not_true, Bool.or_self, Bool.false_eq_true, if_false, bind,
    Except.bind]
  cases kind.getInt with
  | error e => rfl
  | ok n =>
      by_cases hn : n = 30079
      · simp only [hn, ne_eq, not_true_eq_false, if_false, if_true, readBody, bind, Except.bind]
        cases body.getString with
        | error e => rfl
        | ok text =>
            cases hparse : lib.parse text with
            | none => simp only [hparse, Option.elim_none, Except.map]
            | some content =>
                simp only [hparse, Option.elim_some]
                cases importContent content <;> rfl
      · simp only [hn, ne_eq, not_false_eq_true, if_true, if_false]
        rfl

theorem event_cases (ev : Json) :
    (ev.field? (lit "content") = none ∨ ev.field? (lit "kind") = none) ∨
      ∃ kind body, ev.field? (lit "kind") = some kind ∧ ev.field? (lit "content") = some body := by
  cases hkind : ev.field? (lit "kind") with
  | none => exact .inl (.inr rfl)
  | some kind =>
      cases hbody : ev.field? (lit "content") with
      | none => exact .inl (.inl rfl)
      | some body => exact .inr ⟨kind, body, rfl, rfl⟩

theorem present_of_good (h : GoodEvent lib ev) :
    ¬ (ev.field? (lit "content") = none ∨ ev.field? (lit "kind") = none) := by
  obtain ⟨kind, body, hkind, hbody, _⟩ := h
  simp [hkind, hbody]

theorem present_of_bad (h : BadEvent lib ev) :
    ¬ (ev.field? (lit "content") = none ∨ ev.field? (lit "kind") = none) := by
  obtain ⟨kind, body, hkind, hbody, _⟩ := h
  simp [hkind, hbody]

theorem present_of_undefined (h : UndefinedEvent lib ev) :
    ¬ (ev.field? (lit "content") = none ∨ ev.field? (lit "kind") = none) := by
  obtain ⟨kind, body, hkind, hbody, _⟩ := h
  simp [hkind, hbody]

theorem goodEvent_iff (hkind : ev.field? (lit "kind") = some kind)
    (hbody : ev.field? (lit "content") = some body) : GoodEvent lib ev ↔
      kind.getInt = .ok 30079 ∧ ∃ a, readBody lib body = .ok a := by
  rw [GoodEvent, hkind, hbody, readBody_ok_iff]
  simp

theorem badEvent_iff (hkind : ev.field? (lit "kind") = some kind)
    (hbody : ev.field? (lit "content") = some body) : BadEvent lib ev ↔
      (¬ ∃ n, kind.getInt = .ok n) ∨
        kind.getInt = .ok 30079 ∧ ¬ ∃ a, readBody lib body = .ok a := by
  rw [BadEvent, hkind, hbody, ← reads_getInt.ok_iff, readBody_ok_iff]
  simp

theorem undefinedEvent_iff (hkind : ev.field? (lit "kind") = some kind)
    (hbody : ev.field? (lit "content") = some body) : UndefinedEvent lib ev ↔
      kind.getInt = .error .undefined ∨
        kind.getInt = .ok 30079 ∧ readBody lib body = .error .undefined := by
  rw [UndefinedEvent, hkind, hbody, ← reads_getInt.undefined_iff, readBody_undefined_iff]
  simp

def eventGrading (lib : JsonText) : Grading (importEvent lib) .undefined where
  good := GoodEvent lib
  bad := BadEvent lib
  undefined := UndefinedEvent lib
  good_iff ev := by
    rcases event_cases ev with h | ⟨kind, body, hkind, hbody⟩
    · rw [importEvent_of_missing h]
      exact iff_of_false (fun hgood => present_of_good hgood h) (by simp)
    · rw [goodEvent_iff hkind hbody, importEvent_of_present hkind hbody]
      cases kind.getInt with
      | error e => simp
      | ok n =>
          by_cases hn : n = 30079
          · cases readBody lib body <;> simp [hn, Except.map]
          · simp [hn]
  bad_iff ev := by
    rcases event_cases ev with h | ⟨kind, body, hkind, hbody⟩
    · rw [importEvent_of_missing h]
      exact iff_of_false (fun hbad => present_of_bad hbad h) (by simp)
    · rw [badEvent_iff hkind hbody, importEvent_of_present hkind hbody]
      cases kind.getInt with
      | error e => simp
      | ok n =>
          by_cases hn : n = 30079
          · cases readBody lib body <;> simp [hn, Except.map]
          · simp [hn]
  undefined_iff ev := by
    rcases event_cases ev with h | ⟨kind, body, hkind, hbody⟩
    · rw [importEvent_of_missing h]
      exact iff_of_false (fun hundefined => present_of_undefined hundefined h) (by simp)
    · rw [undefinedEvent_iff hkind hbody, importEvent_of_present hkind hbody]
      cases kind.getInt with
      | error e => simp
      | ok n =>
          by_cases hn : n = 30079
          · cases readBody lib body <;> simp [hn, Except.map]
          · simp [hn]

theorem importEvents_eq_readUntil (events : List Json) :
    importEvents lib events = readUntil (importEvent lib) events := by
  induction events with
  | nil => rfl
  | cons ev events ih =>
      rw [importEvents, readUntil]
      cases importEvent lib ev with
      | error e => rfl
      | ok a =>
          cases a with
          | none => exact ih
          | some a => exact congrArg (a :: ·) ih

/-- An import keeps every good event exactly if the bad ones come last. -/
theorem importAchievements_readsAll_iff {text : Bytes} {j events : Json}
    (hparse : lib.parse text = some j) (hevents : j.field? (lit "events") = some events) :
    ReadsAll (importEvent lib) .undefined events.items (importAchievements lib (some text)) ↔
      (eventGrading lib).BadLast events.items := by
  have himport : importAchievements lib (some text) =
      readUntil (importEvent lib) events.items := by
    simp only [importAchievements, Option.bind_some, hparse, hevents, importEvents_eq_readUntil]
  rw [himport]
  exact (eventGrading lib).readsAll_iff

end events

end LinuxLive.Persistence
