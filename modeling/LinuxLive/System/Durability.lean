import LinuxLive.Core.PassiveScanner
import LinuxLive.Lib.JsonCodec
import Mathlib.Data.Set.Basic

/-!
# Durability of unlocks

Starts of the application and their scans as a sequence of contents of
`achievements.json`, and when every unlock that a content records is in all later ones.
-/

namespace LinuxLive

open Json Persistence PassiveScanner

def recorded (achievements : List StoredAchievement) : Set (Bytes × UInt64) :=
  {p | ∃ a ∈ achievements, a.unlocked = true ∧ a.id = p.1 ∧ a.unlockedAt = p.2}

/-- The ids that the file records as unlocked, with their times. -/
def unlocks (lib : JsonText) (file : Option Bytes) : Set (Bytes × UInt64) :=
  {p | ∃ items item, file.bind lib.parse = some (.arr items) ∧ item ∈ items ∧
    item.field? (lit "id") = some (.str p.1) ∧
    item.field? (lit "unlocked") = some (.bool true) ∧
    item.field? (lit "unlocked_at") = some (.int p.2.toNat)}

/-- A file that is not there, or that some save has left. -/
def Written (lib : JsonText) (file : Option Bytes) : Prop :=
  file = none ∨ ∃ achievements, file = some (saveAchievements lib achievements).1

structure Start where
  definitions : Option (List YamlMap)
  scans : List (Nat → Host)

/-- The contents that the scans leave; an exception ends the process. -/
def scanFiles (lib : JsonText) (s : PassiveScanner) : List (Nat → Host) → List (Option Bytes)
  | [] => []
  | hosts :: scans =>
      let scanned := s.scanNow lib hosts
      some scanned.file ::
        match scanned.thrown with
        | some _ => []
        | none => scanFiles lib scanned.scanner scans

def startFiles (lib : JsonText) (file : Option Bytes) (start : Start) : List (Option Bytes) :=
  scanFiles lib (loadDefinitions lib file start.definitions) start.scans

/-- The contents after each scan of a sequence of starts. -/
def files (lib : JsonText) : Option Bytes → List Start → List (Option Bytes)
  | _, [] => []
  | file, start :: starts =>
      startFiles lib file start ++ files lib ((startFiles lib file start).getLastD file) starts

/-- What one content records, every later content records. -/
def Durable (lib : JsonText) (file : Option Bytes) (starts : List Start) : Prop :=
  ((file :: files lib file starts).map (unlocks lib)).Pairwise (· ⊆ ·)

/-- Every id that the file records as unlocked is defined and recorded at one time only,
and the definitions can be written. -/
def Prepared (lib : JsonText) (file : Option Bytes) (definitions : Option (List YamlMap)) : Prop :=
  ∀ id t, (id, t) ∈ unlocks lib file →
    (∃ y ∈ definitions.getD [], y.lookup (lit "id") = some id) ∧
    (∀ t', (id, t') ∈ unlocks lib file → t' = t) ∧
    ∀ y ∈ definitions.getD [], ∀ a, readDefinition y = some a → a.utf8 = true

/-- Every start that scans is prepared for the file it finds. -/
def EveryStart (lib : JsonText) : Option Bytes → List Start → Prop
  | _, [] => True
  | file, start :: starts =>
      (start.scans ≠ [] → Prepared lib file start.definitions) ∧
        EveryStart lib ((startFiles lib file start).getLastD file) starts

/-! ## Contents -/

section contents

variable {lib : JsonText} {file : Option Bytes} {achievements : List StoredAchievement}

theorem unlocks_none : unlocks lib none = ∅ := by
  apply Set.eq_empty_of_forall_notMem
  intro p hp
  obtain ⟨items, item, hparse, _⟩ := hp
  cases hparse

theorem unlocks_truncated : unlocks lib (some []) = ∅ := by
  apply Set.eq_empty_of_forall_notMem
  intro p hp
  obtain ⟨items, item, hparse, _⟩ := hp
  rw [Option.bind_some, lib.parse_nil] at hparse
  cases hparse

theorem unlocks_saved (h : (saveAchievements lib achievements).2 = none) :
    unlocks lib (some (saveAchievements lib achievements).1) = recorded achievements := by
  have hparse := parse_saved h
  ext p
  constructor
  · intro hp
    obtain ⟨items, item, hitems, hitem, hid, hunlocked, hat⟩ := hp
    rw [Option.bind_some, hparse] at hitems
    cases hitems
    obtain ⟨a, ha, rfl⟩ := List.mem_map.mp hitem
    obtain ⟨hid', _, _, _, _, _, hunlocked', hat'⟩ := json_fields a
    simp only [hid', hunlocked', hat', Option.some.injEq, Json.str.injEq, Json.bool.injEq,
      Json.int.injEq, Int.natCast_inj, UInt64.toNat_inj] at hid hunlocked hat
    exact ⟨a, ha, hunlocked, hid, hat⟩
  · intro hp
    obtain ⟨a, ha, hunlocked, hid, hat⟩ := hp
    obtain ⟨hid', _, _, _, _, _, hunlocked', hat'⟩ := json_fields a
    refine ⟨_, a.json, hparse, List.mem_map_of_mem ha, ?_, ?_, ?_⟩
    · rw [hid', hid]
    · rw [hunlocked', hunlocked]
    · rw [hat', hat]

theorem unlocks_eq_recorded (hfile : Written lib file) :
    unlocks lib file = recorded (loadAchievements lib file) := by
  have hnil : recorded [] = ∅ := by simp [recorded]
  rcases hfile with rfl | ⟨achievements, rfl⟩
  · exact unlocks_none.trans hnil.symm
  · by_cases h : (saveAchievements lib achievements).2 = none
    · rw [unlocks_saved h, loadAchievements_saved h]
    · have hload : loadAchievements lib (some []) = [] := by
        simp [loadAchievements, lib.parse_nil]
      rw [saved_of_throws h, unlocks_truncated, hload, hnil]

end contents

/-! ## One start -/

section start

variable {lib : JsonText} {file : Option Bytes} {definitions : Option (List YamlMap)}
  {s : PassiveScanner} {hosts : Nat → Host} {p : Bytes × UInt64}

theorem recorded_scanNow :
    recorded s.achievements ⊆ recorded (s.scanNow lib hosts).scanner.achievements := by
  intro p hp
  obtain ⟨a, ha, hunlocked, hid, hat⟩ := hp
  obtain ⟨i, hi, rfl⟩ := List.getElem_of_mem ha
  refine ⟨s.achievements[i], mem_scanNow.mpr ⟨i, hi, ?_⟩, hunlocked, hid, hat⟩
  rw [scanAchievement_of_unlocked hunlocked]

/-- An unlock after a scan belongs to an achievement of the list, and to its time if it was
unlocked before. -/
theorem of_recorded_scanNow (hp : p ∈ recorded (s.scanNow lib hosts).scanner.achievements) :
    ∃ a ∈ s.achievements, a.id = p.1 ∧ (a.unlocked = true → a.unlockedAt = p.2) := by
  obtain ⟨a, ha, _, hid, hat⟩ := hp
  obtain ⟨i, hi, rfl⟩ := mem_scanNow.mp ha
  refine ⟨s.achievements[i], List.getElem_mem hi, ?_⟩
  rcases scanAchievement_spec s (hosts i) s.achievements[i] with h | ⟨hlocked, h⟩
  · rw [h] at hid hat
    exact ⟨hid, fun _ => hat⟩
  · rw [h] at hid
    exact ⟨hid, fun hunlocked => absurd hunlocked (by simp [hlocked])⟩

theorem unlocks_scanNow (h : (s.scanNow lib hosts).thrown = none) :
    unlocks lib (some (s.scanNow lib hosts).file) =
      recorded (s.scanNow lib hosts).scanner.achievements :=
  unlocks_saved h

theorem unlocks_scanNow_of_throws (h : (s.scanNow lib hosts).thrown ≠ none) :
    unlocks lib (some (s.scanNow lib hosts).file) = ∅ := by
  have hfile : (s.scanNow lib hosts).file = [] := saved_of_throws h
  rw [hfile, unlocks_truncated]

theorem mem_loadDefinitions {a : StoredAchievement} :
    a ∈ (loadDefinitions lib file definitions).achievements ↔
      ∃ y ∈ definitions.getD [], ∃ b, readDefinition y = some b ∧
        restore (loadAchievements lib file) b = a := by
  simp only [achievements_loadDefinitions, List.mem_map, List.mem_filterMap]
  constructor
  · intro h
    obtain ⟨b, ⟨y, hy, hb⟩, rfl⟩ := h
    exact ⟨y, hy, b, hb, rfl⟩
  · intro h
    obtain ⟨y, hy, b, hb, rfl⟩ := h
    exact ⟨b, ⟨y, hy, hb⟩, rfl⟩

theorem restore_texts (saved : List StoredAchievement) (b : StoredAchievement) :
    (restore saved b).id = b.id ∧ (restore saved b).utf8 = b.utf8 := by
  rw [restore_eq]
  cases lastRecord saved b.id <;> exact ⟨rfl, rfl⟩

theorem id_readDefinition {y : YamlMap} {b : StoredAchievement} (h : readDefinition y = some b) :
    y.lookup (lit "id") = some b.id := by
  obtain ⟨id, hid, rfl⟩ := Option.map_eq_some_iff.mp h
  exact hid

theorem readDefinition_of_id {y : YamlMap} {id : Bytes} (h : y.lookup (lit "id") = some id) :
    ∃ b, readDefinition y = some b ∧ b.id = id := by
  simp [readDefinition, h]

/-- The saves of a start succeed exactly if its definitions can be written. -/
theorem thrown_first_scan :
    ((loadDefinitions lib file definitions).scanNow lib hosts).thrown = none ↔
      ∀ y ∈ definitions.getD [], ∀ a, readDefinition y = some a → a.utf8 = true := by
  rw [thrown_scanNow]
  constructor
  · intro h y hy b hb
    rw [← (restore_texts (loadAchievements lib file) b).2]
    exact h _ (mem_loadDefinitions.mpr ⟨y, hy, b, hb, rfl⟩)
  · intro h a ha
    obtain ⟨y, hy, b, hb, rfl⟩ := mem_loadDefinitions.mp ha
    rw [(restore_texts _ b).2]
    exact h y hy b hb

/-- An achievement that was recorded as unlocked is restored with the time of one record. -/
theorem restored (hfile : Written lib file) {a : StoredAchievement} {t : UInt64}
    (ha : a ∈ (loadDefinitions lib file definitions).achievements)
    (ht : (a.id, t) ∈ unlocks lib file) :
    a.unlocked = true ∧ lastRecord (loadAchievements lib file) a.id = some a.unlockedAt := by
  obtain ⟨y, _, b, _, rfl⟩ := mem_loadDefinitions.mp ha
  rw [unlocks_eq_recorded hfile, (restore_texts _ b).1] at ht
  obtain ⟨r, hr, hunlocked, hid, _⟩ := ht
  obtain ⟨last, hlast⟩ := lastRecord_of_mem hr hunlocked
  have hid' : r.id = b.id := hid
  rw [hid'] at hlast
  rw [restore_eq, hlast]
  exact ⟨rfl, hlast⟩

/-- What the first scan keeps is defined, recorded once and can be written. -/
theorem prepared_of_subset (hfile : Written lib file)
    (hkeep : unlocks lib file ⊆
      unlocks lib (some ((loadDefinitions lib file definitions).scanNow lib hosts).file)) :
    Prepared lib file definitions := by
  intro id t ht
  have hthrown : ((loadDefinitions lib file definitions).scanNow lib hosts).thrown = none := by
    by_contra hthrown
    have hlost := hkeep ht
    rw [unlocks_scanNow_of_throws hthrown] at hlost
    exact hlost
  rw [unlocks_scanNow hthrown] at hkeep
  obtain ⟨a, ha, hid, hat⟩ := of_recorded_scanNow (hkeep ht)
  refine ⟨?_, ?_, thrown_first_scan.mp hthrown⟩
  · obtain ⟨y, hy, b, hb, rfl⟩ := mem_loadDefinitions.mp ha
    rw [(restore_texts _ b).1] at hid
    exact ⟨y, hy, (id_readDefinition hb).trans (congrArg some hid)⟩
  · intro t' ht'
    obtain ⟨a', ha', hid', hat'⟩ := of_recorded_scanNow (hkeep ht')
    obtain rfl : a.id = id := hid
    have hid' : a'.id = a.id := hid'
    obtain ⟨hunlocked, hlast⟩ := restored hfile ha ht
    obtain ⟨hunlocked', hlast'⟩ := restored hfile ha' (t := t) (by rw [hid']; exact ht)
    rw [hid', hlast] at hlast'
    calc t' = a'.unlockedAt := (hat' hunlocked').symm
      _ = a.unlockedAt := (Option.some.inj hlast').symm
      _ = t := hat hunlocked

/-- A prepared start restores every unlock, and its first scan keeps them. -/
theorem subset_of_prepared (hfile : Written lib file) (h : Prepared lib file definitions) :
    unlocks lib file ⊆
      unlocks lib (some ((loadDefinitions lib file definitions).scanNow lib hosts).file) := by
  intro p hp
  obtain ⟨⟨y, hy, hid⟩, honly, hutf8⟩ := h p.1 p.2 hp
  rw [unlocks_scanNow (thrown_first_scan.mpr hutf8)]
  apply recorded_scanNow
  obtain ⟨b, hb, hbid⟩ := readDefinition_of_id hid
  have ha : restore (loadAchievements lib file) b ∈
      (loadDefinitions lib file definitions).achievements :=
    mem_loadDefinitions.mpr ⟨y, hy, b, hb, rfl⟩
  have haid : (restore (loadAchievements lib file) b).id = p.1 := (restore_texts _ b).1.trans hbid
  obtain ⟨hunlocked, hlast⟩ := restored hfile ha (t := p.2) (by rw [haid]; exact hp)
  obtain ⟨r, hr, hrid, hrunlocked, hrat⟩ := lastRecord_mem hlast
  have hone : (restore (loadAchievements lib file) b).unlockedAt = p.2 := by
    apply honly
    rw [unlocks_eq_recorded hfile]
    exact ⟨r, hr, hrunlocked, hrid.trans haid, hrat⟩
  exact ⟨_, ha, hunlocked, haid, hone⟩

end start

/-! ## Runs of starts -/

section runs

variable {lib : JsonText} {file : Option Bytes} {start : Start} {starts : List Start}

private theorem isChain_append_iff {α : Type} {R : α → α → Prop} {x : α} {l m : List α} :
    (x :: (l ++ m)).IsChain R ↔ (x :: l).IsChain R ∧ (l.getLastD x :: m).IsChain R := by
  induction l generalizing x with
  | nil => simp
  | cons y l ih =>
      rw [List.cons_append, List.isChain_cons_cons, ih, List.isChain_cons_cons, and_assoc,
        List.getLastD_cons]

theorem scanFiles_of_throws {s : PassiveScanner} {hosts : Nat → Host}
    (h : (s.scanNow lib hosts).thrown ≠ none) (scans : List (Nat → Host)) :
    scanFiles lib s (hosts :: scans) = [some (s.scanNow lib hosts).file] := by
  obtain ⟨e, he⟩ := Option.ne_none_iff_exists'.mp h
  simp only [scanFiles, he]

theorem scanFiles_of_returns {s : PassiveScanner} {hosts : Nat → Host}
    (h : (s.scanNow lib hosts).thrown = none) (scans : List (Nat → Host)) :
    scanFiles lib s (hosts :: scans) =
      some (s.scanNow lib hosts).file :: scanFiles lib (s.scanNow lib hosts).scanner scans := by
  simp only [scanFiles, h]

theorem isChain_scanFiles (lib : JsonText) (s : PassiveScanner) (scans : List (Nat → Host)) :
    (scanFiles lib s scans).IsChain fun f g => unlocks lib f ⊆ unlocks lib g := by
  induction scans generalizing s with
  | nil => exact .nil
  | cons hosts scans ih =>
      by_cases hthrown : (s.scanNow lib hosts).thrown = none
      · have hnext : ∀ hosts', ((s.scanNow lib hosts).scanner.scanNow lib hosts').thrown = none := by
          intro hosts'
          rw [thrown_scanNow, utf8_scanNow]
          exact thrown_scanNow.mp hthrown
        have hlater := ih (s.scanNow lib hosts).scanner
        rw [scanFiles_of_returns hthrown]
        cases scans with
        | nil => exact .singleton _
        | cons hosts' scans =>
            rw [scanFiles_of_returns (hnext hosts')] at hlater ⊢
            refine List.isChain_cons_cons.mpr ⟨?_, hlater⟩
            rw [unlocks_scanNow hthrown, unlocks_scanNow (hnext hosts')]
            exact recorded_scanNow
      · rw [scanFiles_of_throws hthrown]
        exact .singleton _

theorem written_startFiles (hfile : Written lib file) :
    Written lib ((startFiles lib file start).getLastD file) := by
  have hscan : ∀ (scans : List (Nat → Host)) (s : PassiveScanner) (f : Option Bytes),
      Written lib f → Written lib ((scanFiles lib s scans).getLastD f) := by
    intro scans
    induction scans with
    | nil => exact fun _ _ hf => hf
    | cons hosts scans ih =>
        intro s f _
        have hfirst : Written lib (some (s.scanNow lib hosts).file) := .inr ⟨_, rfl⟩
        by_cases hthrown : (s.scanNow lib hosts).thrown = none
        · rw [scanFiles_of_returns hthrown, List.getLastD_cons]
          exact ih _ _ hfirst
        · rw [scanFiles_of_throws hthrown]
          exact hfirst
  exact hscan _ _ _ hfile

/-- One start loses nothing exactly if it scans nothing or is prepared. -/
theorem isChain_startFiles_iff (hfile : Written lib file) :
    ((file :: startFiles lib file start).IsChain fun f g => unlocks lib f ⊆ unlocks lib g) ↔
      (start.scans ≠ [] → Prepared lib file start.definitions) := by
  obtain ⟨definitions, scans⟩ := start
  cases scans with
  | nil => simp [startFiles, scanFiles]
  | cons hosts scans =>
      have hrest := isChain_scanFiles lib (loadDefinitions lib file definitions)
        (hosts :: scans)
      have hfirst : unlocks lib file ⊆ unlocks lib
          (some ((loadDefinitions lib file definitions).scanNow lib hosts).file) ↔
          Prepared lib file definitions := ⟨prepared_of_subset hfile, subset_of_prepared hfile⟩
      simp only [startFiles, scanFiles] at hrest ⊢
      rw [List.isChain_cons_cons, hfirst]
      simp [hrest]

theorem isChain_files_iff (hfile : Written lib file) :
    ((file :: files lib file starts).IsChain fun f g => unlocks lib f ⊆ unlocks lib g) ↔
      EveryStart lib file starts := by
  induction starts generalizing file with
  | nil => simp [files, EveryStart]
  | cons start starts ih =>
      rw [files, isChain_append_iff, isChain_startFiles_iff hfile, ih (written_startFiles hfile)]
      rfl

end runs

/-- Unlocks are durable exactly in the runs whose starts are all prepared. -/
theorem durable_iff (lib : JsonText) (file : Option Bytes) (starts : List Start)
    (hfile : Written lib file) : Durable lib file starts ↔ EveryStart lib file starts := by
  rw [Durable, ← List.isChain_iff_pairwise, List.isChain_map, isChain_files_iff hfile]

/-! ## A start without definitions -/

def firstBoot : YamlMap :=
  ((∅ : YamlMap).insert (lit "id") (lit "first-boot")).insert (lit "criteria.type") (lit "always")

def firstBootUnlocked : StoredAchievement where
  id := lit "first-boot"
  name := lit "first-boot"
  description := []
  tier := lit "bronze"
  category := []
  icon := []
  unlocked := true
  unlockedAt := 1700000000

def bareHost : Host where
  now := 1700000000
  hour := 12
  osRelease := none
  path := none
  executable := fun _ => false
  waylandDisplay := none
  sessionType := none
  currentDesktop := none
  kernelRelease := none
  activeServices := none
  commits := none

/-- A start that unlocks, and one that does not find the directory. -/
def lostStarts : List Start :=
  [⟨some [firstBoot], [fun _ => bareHost]⟩, ⟨none, [fun _ => bareHost]⟩]

def firstBootFile : Bytes :=
  lit "[\n  \x7b\n    \"category\": \"\",\n    \"description\": \"\",\n    \"icon\": \"\",\n    \"id\": \"first-boot\",\n    \"name\": \"first-boot\",\n    \"tier\": \"bronze\",\n    \"unlocked\": true,\n    \"unlocked_at\": 1700000000\n  \x7d\n]"

theorem files_lostStarts :
    files Json.codec none lostStarts = [some firstBootFile, some (lit "[]")] := by
  decide +kernel

theorem durable_iff_lostStarts :
    Durable Json.codec none lostStarts ↔ EveryStart Json.codec none lostStarts :=
  durable_iff Json.codec none lostStarts (.inl rfl)

/-- The second content has lost the unlock that the first one records. -/
theorem unlock_is_lost :
    files Json.codec none lostStarts = [some firstBootFile, some (lit "[]")] ∧
    (lit "first-boot", 1700000000) ∈ unlocks Json.codec (some firstBootFile) ∧
    ¬ Durable Json.codec none lostStarts := by
  have hsaved : (saveAchievements Json.codec [firstBootUnlocked]) = (firstBootFile, none) := by
    decide +kernel
  have hrecorded : (lit "first-boot", 1700000000) ∈ unlocks Json.codec (some firstBootFile) := by
    have hunlocks : unlocks Json.codec (some (saveAchievements Json.codec [firstBootUnlocked]).1) =
        recorded [firstBootUnlocked] := unlocks_saved (by rw [hsaved])
    rw [hsaved] at hunlocks
    rw [hunlocks]
    exact ⟨firstBootUnlocked, List.mem_singleton_self _, rfl, rfl, rfl⟩
  refine ⟨files_lostStarts, hrecorded, ?_⟩
  intro hdurable
  rw [Durable, files_lostStarts] at hdurable
  simp only [List.map_cons, List.map_nil, List.pairwise_cons, List.mem_singleton,
    forall_eq] at hdurable
  obtain ⟨_, hsubset, _⟩ := hdurable
  obtain ⟨items, item, hparse, hitem, _⟩ := hsubset hrecorded
  have hempty : Json.codec.parse (lit "[]") = some (.arr []) := rfl
  rw [Option.bind_some, hempty] at hparse
  cases hparse
  cases hitem

end LinuxLive
