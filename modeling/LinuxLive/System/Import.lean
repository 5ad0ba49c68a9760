import LinuxLive.Gui.Import
import LinuxLive.System.Durability

/-!
# What an import leaves

The import merges into `achievements.json` and the scanner goes on with its own list,
which the next scan writes over the file.
-/

namespace LinuxLive

open Persistence PassiveScanner App

def Unlocked (lib : JsonText) (file : Option Bytes) (id : Bytes) : Prop :=
  ∃ a ∈ loadAchievements lib file, a.id = id ∧ a.unlocked = true

def Locked (lib : JsonText) (file : Option Bytes) (id : Bytes) : Prop :=
  (∃ a ∈ loadAchievements lib file, a.id = id) ∧ ¬ Unlocked lib file id

def Holds (s : PassiveScanner) (id : Bytes) : Prop :=
  ∃ a ∈ s.achievements, a.id = id ∧ a.unlocked = true

/-- The scanner was made from the file: it can be loaded, and what the scanner knows of its
own achievements is what the file records of them. -/
structure Consistent (lib : JsonText) (file : Option Bytes) (s : PassiveScanner) : Prop where
  loads : Persistence.codec.loads lib file = true
  holds_iff : ∀ a ∈ s.achievements, Holds s a.id ↔ Unlocked lib file a.id

/-- The import returns, and after it and after every later scan the imported achievements are
recorded as unlocked, and none that was unlocked before is locked. -/
structure ImportLasts (lib : JsonText) (file exported : Option Bytes) (s : PassiveScanner)
    (scans : List (Nat → Host)) : Prop where
  returns : importReturns lib exported = true
  lasts : ∀ file' ∈ (onImportAchievements lib file exported).1 :: scanFiles lib s scans,
    (∀ a ∈ importAchievements lib exported, Unlocked lib file' a.id) ∧
      ∀ id, Unlocked lib file id → ¬ Locked lib file' id

/-- No imported id and no id that some record unlocks is locked in the last record of it. -/
def MergeLasts (stored imported : List StoredAchievement) : Prop :=
  (∀ a ∈ imported, ∀ r, stored.reverse.find? (fun b => b.id = a.id) = some r → r.unlocked = true) ∧
    ∀ a ∈ stored, a.unlocked = true →
      ∀ r, stored.reverse.find? (fun b => b.id = a.id) = some r → r.unlocked = true

/-- The scanner can save its list, and has every imported id unlocked or about to be so in
the scan. -/
def ScanLasts (s : PassiveScanner) (imported : List StoredAchievement) (hosts : Nat → Host) :
    Prop :=
  (∀ a ∈ s.achievements, a.utf8 = true) ∧
    ∀ a ∈ imported, ∃ (i : Nat) (h : i < s.achievements.length),
      s.achievements[i].id = a.id ∧ (s.achievements[i].unlocked = true ∨
        ∃ c, s.criteriaById.lookup a.id = some c ∧ met c (hosts i) = true)

/-! ## The merge -/

section merge

variable {lib : JsonText} {file exported : Option Bytes} {id : Bytes}

theorem load_onImportAchievements (h : importAchievements lib exported ≠ []) :
    loadAchievements lib (onImportAchievements lib file exported).1 =
      mergeAchievements (loadAchievements lib file) (importAchievements lib exported) := by
  have hsave := onImportAchievements_thrown lib file exported
  unfold onImportAchievements at hsave ⊢
  dsimp only at hsave ⊢
  rw [if_neg (by simpa using h)] at hsave ⊢
  exact loadAchievements_saved hsave

theorem unlocked_of_load {stored : List StoredAchievement}
    (hload : loadAchievements lib file = stored) (hsorted : Sorted stored) :
    Unlocked lib file id ↔ ∃ r, valueOf stored id = some r ∧ r.unlocked = true := by
  unfold Unlocked
  rw [hload]
  constructor
  · intro h
    obtain ⟨a, ha, rfl, hunlocked⟩ := h
    exact ⟨a, (mem_iff_valueOf hsorted).mp ha, hunlocked⟩
  · intro h
    obtain ⟨r, hr, hunlocked⟩ := h
    have hid : r.id = id := by simpa using List.find?_some hr
    exact ⟨r, List.mem_of_find?_eq_some hr, hid, hunlocked⟩

theorem unlocked_merged (h : importAchievements lib exported ≠ []) :
    Unlocked lib (onImportAchievements lib file exported).1 id ↔
      ∃ r, ((loadAchievements lib file).reverse.find? fun b => b.id = id).or
        ((importAchievements lib exported).find? fun b => b.id = id) = some r ∧
          r.unlocked = true := by
  rw [unlocked_of_load (load_onImportAchievements h) (sorted_mergeAchievements _ _),
    valueOf_mergeAchievements]

theorem find?_stored_of_unlocked (h : Unlocked lib file id) :
    ∃ r, (loadAchievements lib file).reverse.find? (fun b => b.id = id) = some r := by
  obtain ⟨a, ha, hid, _⟩ := h
  rw [← Option.isSome_iff_exists, List.find?_isSome]
  exact ⟨a, List.mem_reverse.mpr ha, by simpa using hid⟩

/-- The imported achievements are unlocked exactly if no last record of them is locked. -/
theorem imported_unlocked_iff (h : importAchievements lib exported ≠ []) :
    (∀ a ∈ importAchievements lib exported,
        Unlocked lib (onImportAchievements lib file exported).1 a.id) ↔
      ∀ a ∈ importAchievements lib exported, ∀ r,
        (loadAchievements lib file).reverse.find? (fun b => b.id = a.id) = some r →
          r.unlocked = true := by
  constructor
  · intro himported a ha r hr
    obtain ⟨r', hr', hunlocked⟩ := (unlocked_merged h).mp (himported a ha)
    rw [hr, Option.some_or] at hr'
    exact Option.some.inj hr' ▸ hunlocked
  · intro himported a ha
    apply (unlocked_merged h).mpr
    cases hstored : (loadAchievements lib file).reverse.find? fun b => b.id = a.id with
    | some r => exact ⟨r, rfl, himported a ha r hstored⟩
    | none =>
        have hsome : ((importAchievements lib exported).find? fun b => b.id = a.id).isSome := by
          rw [List.find?_isSome]
          exact ⟨a, ha, by simp⟩
        obtain ⟨r, hr⟩ := Option.isSome_iff_exists.mp hsome
        exact ⟨r, hr, (utf8_importAchievements (List.mem_of_find?_eq_some hr)).2⟩

/-- The merge locks nothing exactly if the last records of what is unlocked are unlocked. -/
theorem merge_keeps_iff (h : importAchievements lib exported ≠ []) :
    (∀ id, Unlocked lib file id →
        ¬ Locked lib (onImportAchievements lib file exported).1 id) ↔
      ∀ a ∈ loadAchievements lib file, a.unlocked = true → ∀ r,
        (loadAchievements lib file).reverse.find? (fun b => b.id = a.id) = some r →
          r.unlocked = true := by
  constructor
  · intro hbefore a ha hunlocked r hr
    have hid : r.id = a.id := by simpa using List.find?_some hr
    by_contra hlocked
    refine hbefore a.id ⟨a, ha, rfl, hunlocked⟩ ⟨⟨r, ?_, hid⟩, ?_⟩
    · rw [load_onImportAchievements h, mem_iff_valueOf (sorted_mergeAchievements _ _),
        valueOf_mergeAchievements, hid, hr, Option.some_or]
    · intro hafter
      obtain ⟨r', hr', hunlocked'⟩ := (unlocked_merged h).mp hafter
      rw [hr, Option.some_or] at hr'
      exact hlocked (Option.some.inj hr' ▸ hunlocked')
  · intro hbefore id hid hlocked
    obtain ⟨r, hr⟩ := find?_stored_of_unlocked hid
    obtain ⟨a, ha, rfl, hunlocked⟩ := hid
    exact hlocked.2 ((unlocked_merged h).mpr
      ⟨r, by rw [hr, Option.some_or], hbefore a ha hunlocked r hr⟩)

/-- The import itself does what it should exactly if no last record is in its way. -/
theorem merge_lasts_iff (h : importAchievements lib exported ≠ []) :
    ((∀ a ∈ importAchievements lib exported,
        Unlocked lib (onImportAchievements lib file exported).1 a.id) ∧
      ∀ id, Unlocked lib file id → ¬ Locked lib (onImportAchievements lib file exported).1 id) ↔
    MergeLasts (loadAchievements lib file) (importAchievements lib exported) :=
  and_congr (imported_unlocked_iff h) (merge_keeps_iff h)

end merge

/-! ## The scans -/

section scans

variable {lib : JsonText} {s : PassiveScanner} {hosts : Nat → Host} {id : Bytes}

/-- When the scan of one achievement leaves it unlocked. -/
theorem unlocked_scanAchievement_iff {host : Host} {a : StoredAchievement} :
    ((s.scanAchievement host a).1.id = id ∧ (s.scanAchievement host a).1.unlocked = true) ↔
      a.id = id ∧ (a.unlocked = true ∨
        ∃ c, s.criteriaById.lookup id = some c ∧ met c host = true) := by
  unfold scanAchievement
  by_cases hunlocked : a.unlocked = true
  · simp [hunlocked]
  · rw [if_neg hunlocked]
    cases hlookup : s.criteriaById.lookup a.id with
    | none =>
        by_cases hid : a.id = id
        · subst hid
          simp [hunlocked, hlookup]
        · simp [hid]
    | some c =>
        by_cases hid : a.id = id
        · subst hid
          by_cases hmet : met c host = true
          · simp [hmet, hlookup]
          · simp [hmet, hlookup, hunlocked]
        · by_cases hmet : met c host = true
          · simp [hmet, hid]
          · simp [hmet, hid]

theorem holds_scanNow_iff : Holds (s.scanNow lib hosts).scanner id ↔
    ∃ (i : Nat) (h : i < s.achievements.length), s.achievements[i].id = id ∧
      (s.achievements[i].unlocked = true ∨
        ∃ c, s.criteriaById.lookup id = some c ∧ met c (hosts i) = true) := by
  unfold Holds
  constructor
  · intro h
    obtain ⟨a, ha, hid, hunlocked⟩ := h
    obtain ⟨i, hi, rfl⟩ := mem_scanNow.mp ha
    exact ⟨i, hi, unlocked_scanAchievement_iff.mp ⟨hid, hunlocked⟩⟩
  · intro h
    obtain ⟨i, hi, h⟩ := h
    obtain ⟨hid, hunlocked⟩ := unlocked_scanAchievement_iff.mpr h
    exact ⟨_, mem_scanNow.mpr ⟨i, hi, rfl⟩, hid, hunlocked⟩

theorem Holds.scanNow (h : Holds s id) : Holds (s.scanNow lib hosts).scanner id := by
  obtain ⟨a, ha, hid, hunlocked⟩ := h
  obtain ⟨i, hi, rfl⟩ := List.getElem_of_mem ha
  exact holds_scanNow_iff.mpr ⟨i, hi, hid, .inl hunlocked⟩

theorem exists_id_scanNow (h : ∃ a ∈ (s.scanNow lib hosts).scanner.achievements, a.id = id) :
    ∃ a ∈ s.achievements, a.id = id := by
  obtain ⟨a, ha, hid⟩ := h
  obtain ⟨i, hi, rfl⟩ := mem_scanNow.mp ha
  refine ⟨s.achievements[i], List.getElem_mem hi, ?_⟩
  rcases scanAchievement_spec s (hosts i) s.achievements[i] with h | ⟨_, h⟩
  · rw [← hid, h]
  · rw [← hid, h]

theorem load_scanNow (h : ∀ a ∈ s.achievements, a.utf8 = true) :
    loadAchievements lib (some (s.scanNow lib hosts).file) =
      (s.scanNow lib hosts).scanner.achievements :=
  loadAchievements_saved (thrown_scanNow.mpr h)

/-- Every later file has the unlocks of the scanner, and only ids of its list. -/
theorem of_mem_scanFiles {scans : List (Nat → Host)} {file : Option Bytes}
    (hutf8 : ∀ a ∈ s.achievements, a.utf8 = true) (hfile : file ∈ scanFiles lib s scans) :
    (∀ id, Holds s id → Unlocked lib file id) ∧
      ∀ a ∈ loadAchievements lib file, ∃ b ∈ s.achievements, b.id = a.id := by
  induction scans generalizing s with
  | nil => cases hfile
  | cons hosts scans ih =>
      rw [scanFiles_of_returns (thrown_scanNow.mpr hutf8)] at hfile
      rcases List.mem_cons.mp hfile with rfl | hfile
      · constructor
        · intro id hid
          unfold Unlocked
          rw [load_scanNow hutf8]
          exact hid.scanNow
        · intro a ha
          rw [load_scanNow hutf8] at ha
          exact exists_id_scanNow ⟨a, ha, rfl⟩
      · obtain ⟨hholds, hids⟩ := ih ((utf8_scanNow lib s hosts).mpr hutf8) hfile
        refine ⟨fun id hid => hholds id hid.scanNow, ?_⟩
        intro a ha
        exact exists_id_scanNow (hids a ha)

theorem load_scanNow_of_throws (h : (s.scanNow lib hosts).thrown ≠ none) :
    loadAchievements lib (some (s.scanNow lib hosts).file) = [] := by
  have hfile : (s.scanNow lib hosts).file = [] := saved_of_throws h
  rw [hfile]
  simp [loadAchievements, lib.parse_nil]

/-- Scans lock nothing of which the scanner knows what the file records. -/
theorem not_locked_of_mem_scanFiles {scans : List (Nat → Host)} {file file' : Option Bytes}
    (hcons : Consistent lib file s) (hid : Unlocked lib file id)
    (hfile : file' ∈ scanFiles lib s scans) : ¬ Locked lib file' id := by
  intro hlocked
  obtain ⟨⟨a, ha, haid⟩, hnot⟩ := hlocked
  by_cases hutf8 : ∀ b ∈ s.achievements, b.utf8 = true
  · obtain ⟨hholds, hids⟩ := of_mem_scanFiles hutf8 hfile
    obtain ⟨b, hb, hbid⟩ := hids a ha
    have hbid : b.id = id := hbid.trans haid
    apply hnot
    apply hholds
    have hheld := hcons.holds_iff b hb
    rw [hbid] at hheld
    exact hheld.mpr hid
  · cases scans with
    | nil => cases hfile
    | cons hosts scans =>
        have hthrown : (s.scanNow lib hosts).thrown ≠ none :=
          fun hthrown => hutf8 (thrown_scanNow.mp hthrown)
        rw [scanFiles_of_throws hthrown, List.mem_singleton] at hfile
        rw [hfile, load_scanNow_of_throws hthrown] at ha
        cases ha

/-- The first scan keeps what was imported exactly if the scanner has it or unlocks it now. -/
theorem scan_lasts_iff (lib : JsonText) {imported : List StoredAchievement} (h : imported ≠ []) :
    (∀ a ∈ imported, Unlocked lib (some (s.scanNow lib hosts).file) a.id) ↔
      ScanLasts s imported hosts := by
  constructor
  · intro hall
    have hthrown : (s.scanNow lib hosts).thrown = none := by
      by_contra hthrown
      obtain ⟨a, ha⟩ := List.exists_mem_of_ne_nil imported h
      obtain ⟨b, hb, _⟩ := hall a ha
      rw [load_scanNow_of_throws hthrown] at hb
      cases hb
    have hutf8 := thrown_scanNow.mp hthrown
    refine ⟨hutf8, ?_⟩
    intro a ha
    have hholds : Holds (s.scanNow lib hosts).scanner a.id := by
      have hunlocked := hall a ha
      rw [Unlocked, load_scanNow hutf8] at hunlocked
      exact hunlocked
    exact holds_scanNow_iff.mp hholds
  · intro hlasts a ha
    rw [Unlocked, load_scanNow hlasts.1]
    exact holds_scanNow_iff.mpr (hlasts.2 a ha)

/-- What the first scan has kept, all later scans keep. -/
theorem scans_last_iff (lib : JsonText) {imported : List StoredAchievement} {scans : List (Nat → Host)}
    (h : imported ≠ []) :
    (∀ file' ∈ scanFiles lib s scans, ∀ a ∈ imported, Unlocked lib file' a.id) ↔
      ∀ hosts ∈ scans.head?, ScanLasts s imported hosts := by
  cases scans with
  | nil => simp [scanFiles]
  | cons hosts scans =>
      have hhead : (∀ hosts' ∈ (hosts :: scans).head?, ScanLasts s imported hosts') ↔
          ScanLasts s imported hosts := by simp
      rw [hhead]
      constructor
      · intro hall
        apply (scan_lasts_iff lib h).mp
        apply hall
        exact List.mem_cons_self
      · intro hlasts
        have hutf8 : ∀ a ∈ (s.scanNow lib hosts).scanner.achievements, a.utf8 = true :=
          (utf8_scanNow lib s hosts).mpr hlasts.1
        rw [scanFiles_of_returns (thrown_scanNow.mpr hlasts.1)]
        intro file' hfile' a ha
        rcases List.mem_cons.mp hfile' with rfl | hfile'
        · exact (scan_lasts_iff lib h).mpr hlasts a ha
        · apply (of_mem_scanFiles hutf8 hfile').1
          exact holds_scanNow_iff.mpr (hlasts.2 a ha)

end scans

/-! ## Scanners of a file -/

section consistent

variable {lib : JsonText} {file : Option Bytes}

theorem consistent_loadDefinitions (h : Persistence.codec.loads lib file = true)
    (definitions : Option (List YamlMap)) :
    Consistent lib file (loadDefinitions lib file definitions) := by
  refine ⟨h, ?_⟩
  intro a ha
  constructor
  · intro hholds
    obtain ⟨c, hc, hcid, hunlocked⟩ := hholds
    obtain ⟨y, _, b, hb, rfl⟩ := mem_loadDefinitions.mp hc
    rw [(restore_texts _ b).1] at hcid
    rw [← hcid]
    cases hlast : lastRecord (loadAchievements lib file) b.id with
    | none =>
        obtain ⟨_, _, rfl⟩ := Option.map_eq_some_iff.mp hb
        simp [restore_eq, hlast] at hunlocked
    | some t =>
        obtain ⟨r, hr, hrid, hrunlocked, _⟩ := lastRecord_mem hlast
        exact ⟨r, hr, hrid, hrunlocked⟩
  · intro hunlocked
    obtain ⟨r, hr, hrid, hrunlocked⟩ := hunlocked
    refine ⟨a, ha, rfl, ?_⟩
    obtain ⟨y, _, b, _, rfl⟩ := mem_loadDefinitions.mp ha
    rw [(restore_texts _ b).1] at hrid
    obtain ⟨t, ht⟩ := lastRecord_of_mem hr hrunlocked
    rw [hrid] at ht
    simp [restore_eq, ht]

theorem consistent_scanNow {s : PassiveScanner} {hosts : Nat → Host}
    (h : (s.scanNow lib hosts).thrown = none) :
    Consistent lib (some (s.scanNow lib hosts).file) (s.scanNow lib hosts).scanner := by
  refine ⟨RecordCodec.loads_saved h, ?_⟩
  intro a _
  rw [Unlocked, load_scanNow (thrown_scanNow.mp h)]
  rfl

end consistent

/-- Nothing is lost exactly if there was nothing to import, or neither the merge nor the
scanner has what is imported in locked form. -/
theorem records_last_iff {lib : JsonText} {file exported : Option Bytes} {s : PassiveScanner}
    {scans : List (Nat → Host)} (hcons : Consistent lib file s) :
    (∀ file' ∈ (onImportAchievements lib file exported).1 :: scanFiles lib s scans,
      (∀ a ∈ importAchievements lib exported, Unlocked lib file' a.id) ∧
        ∀ id, Unlocked lib file id → ¬ Locked lib file' id) ↔
      importAchievements lib exported = [] ∨
        (MergeLasts (loadAchievements lib file) (importAchievements lib exported) ∧
          ∀ hosts ∈ scans.head?, ScanLasts s (importAchievements lib exported) hosts) := by
  have hscans : ∀ file' ∈ scanFiles lib s scans, ∀ id, Unlocked lib file id →
      ¬ Locked lib file' id :=
    fun file' hfile' id hid => not_locked_of_mem_scanFiles hcons hid hfile'
  by_cases himported : importAchievements lib exported = []
  · have hfile : (onImportAchievements lib file exported).1 = file := by
      simp [onImportAchievements, himported]
    simp only [himported, true_or, iff_true]
    intro file' hfile'
    refine ⟨fun a ha => absurd ha List.not_mem_nil, ?_⟩
    intro id hid
    rcases List.mem_cons.mp hfile' with rfl | hfile'
    · rw [hfile]
      exact fun hlocked => hlocked.2 hid
    · exact hscans file' hfile' id hid
  · simp only [himported, false_or]
    rw [← merge_lasts_iff himported, ← scans_last_iff lib himported]
    constructor
    · intro hlasts
      refine ⟨hlasts _ List.mem_cons_self, ?_⟩
      intro file' hfile'
      exact (hlasts file' (List.mem_cons_of_mem _ hfile')).1
    · intro hlasts file' hfile'
      rcases List.mem_cons.mp hfile' with rfl | hfile'
      · exact hlasts.1
      · exact ⟨hlasts.2 file' hfile', hscans file' hfile'⟩

/-- An import lasts exactly if it returns, and there was nothing to import or neither the merge
nor the scanner has what it imports in locked form. -/
theorem import_lasts_iff (lib : JsonText) (file exported : Option Bytes) (s : PassiveScanner)
    (scans : List (Nat → Host)) (hcons : Consistent lib file s) :
    ImportLasts lib file exported s scans ↔
      importReturns lib exported = true ∧ (importAchievements lib exported = [] ∨
        (MergeLasts (loadAchievements lib file) (importAchievements lib exported) ∧
          ∀ hosts ∈ scans.head?, ScanLasts s (importAchievements lib exported) hosts)) := by
  rw [← records_last_iff hcons]
  exact ⟨fun h => ⟨h.returns, h.lasts⟩, fun h => ⟨h.1, h.2⟩⟩

/-! ## An achievement that is imported in vain -/

def lanParty : YamlMap :=
  ((∅ : YamlMap).insert (lit "id") (lit "lan-party")).insert (lit "criteria.type") (lit "social")

def lanPartyLocked : StoredAchievement where
  id := lit "lan-party"
  name := lit "lan-party"
  description := []
  tier := lit "bronze"
  category := []
  icon := []
  unlocked := false
  unlockedAt := 0

def lanPartyUnlocked : StoredAchievement :=
  { lanPartyLocked with unlocked := true, unlockedAt := 1700000000 }

/-- What the first scan of a start without a file leaves. -/
def firstScan : Scanned :=
  (loadDefinitions Json.codec none (some [lanParty])).scanNow Json.codec fun _ => bareHost

def lanPartyExport : Option Bytes :=
  (exportAchievements Json.codec [lanPartyUnlocked] (toHex (List.replicate 32 1)) 1700000000).1

theorem thrown_firstScan : firstScan.thrown = none := by decide

theorem load_firstScan :
    loadAchievements Json.codec (some firstScan.file) = [lanPartyLocked] := by
  have hlist : firstScan.scanner.achievements = [lanPartyLocked] := by decide
  rw [← hlist]
  exact load_scanNow (thrown_scanNow.mp thrown_firstScan)

theorem import_lanPartyExport :
    importAchievements Json.codec lanPartyExport = [lanPartyUnlocked] := by
  apply importAchievements_exported
  decide

theorem import_lasts_iff_lanParty :
    ImportLasts Json.codec (some firstScan.file) lanPartyExport firstScan.scanner
        [fun _ => bareHost] ↔
      importReturns Json.codec lanPartyExport = true ∧
        (importAchievements Json.codec lanPartyExport = [] ∨
          (MergeLasts (loadAchievements Json.codec (some firstScan.file))
              (importAchievements Json.codec lanPartyExport) ∧
            ∀ hosts ∈ [fun _ => bareHost].head?,
              ScanLasts firstScan.scanner (importAchievements Json.codec lanPartyExport) hosts)) :=
  import_lasts_iff Json.codec (some firstScan.file) lanPartyExport firstScan.scanner
    [fun _ => bareHost] (consistent_scanNow thrown_firstScan)

/-- The locked record of the local file stands in the way of the imported one. -/
theorem import_in_vain :
    Consistent Json.codec (some firstScan.file) firstScan.scanner ∧
    importAchievements Json.codec lanPartyExport = [lanPartyUnlocked] ∧
    ¬ ImportLasts Json.codec (some firstScan.file) lanPartyExport firstScan.scanner [] := by
  refine ⟨consistent_scanNow thrown_firstScan, import_lanPartyExport, ?_⟩
  intro hlasts
  have hne : importAchievements Json.codec lanPartyExport ≠ [] := by simp [import_lanPartyExport]
  have hmerge := (merge_lasts_iff hne).mp (hlasts.lasts _ List.mem_cons_self)
  rw [load_firstScan, import_lanPartyExport] at hmerge
  have hunlocked := hmerge.1 lanPartyUnlocked List.mem_cons_self lanPartyLocked rfl
  cases hunlocked

end LinuxLive
