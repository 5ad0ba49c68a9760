import LinuxLive.Lib.Runs
import LinuxLive.System.Durability
import Mathlib.Data.List.Forall2

/-!
# Runs of the scanner

Starts and scans over one set of definitions: the unlock callback, the list of the scanner
and `achievements.json` tell the same first successes of the checks.
-/

namespace LinuxLive

open Json Persistence PassiveScanner

/-! ## Definitions and their checks -/

structure Definition where
  criteria : ScanCriteria
  achievement : StoredAchievement

def definition (y : YamlMap) : Option Definition :=
  (readDefinition y).map fun a => ⟨readCriteria y, a⟩

def definitionsOf (files : List YamlMap) : List Definition := files.filterMap definition

/-- What a scan finds of the system for the check of an id. -/
abbrev Reading := Bytes → Host

def PassiveScanner.hosts (s : PassiveScanner) (reading : Reading) : Nat → Host :=
  fun i => reading ((s.achievements[i]?.map StoredAchievement.id).getD [])

namespace Definition

def id (d : Definition) : Bytes := d.achievement.id

/-- The clock at a scan in which the check succeeds. -/
def success (d : Definition) (reading : Reading) : Option UInt64 :=
  if met d.criteria (reading d.id) then some (reading d.id).now else none

def firstSuccess (d : Definition) (readings : List Reading) : Option UInt64 :=
  readings.findSome? d.success

def unlockedAt (d : Definition) (now : UInt64) : StoredAchievement :=
  { d.achievement with unlocked := true, unlockedAt := now }

def callback (d : Definition) (readings : List Reading) (reading : Reading) :
    Option StoredAchievement :=
  if d.firstSuccess readings = none then (d.success reading).map d.unlockedAt else none

/-- The achievement as the first success leaves it. -/
def status (d : Definition) (readings : List Reading) : StoredAchievement :=
  match d.firstSuccess readings with
  | none => d.achievement
  | some now => d.unlockedAt now

end Definition

/-! ## Runs -/

/-- A process of the application follows another one; the readings of the scans behind a
start are kept. -/
structure ScannerRun where
  started : Bool
  scanner : PassiveScanner
  file : Option Bytes
  callbacks : List StoredAchievement
  readings : List Reading

inductive ScannerOp where
  | start (files : List YamlMap)
  | scan (reading : Reading)

namespace ScannerRun

def initial : ScannerRun := ⟨false, ⟨[], ∅⟩, none, [], []⟩

def start (lib : JsonText) (files : List YamlMap) (r : ScannerRun) : ScannerRun :=
  { r with
    started := true
    scanner := loadDefinitions lib r.file (some files) }

def scanned (lib : JsonText) (reading : Reading) (r : ScannerRun) : Scanned :=
  r.scanner.scanNow lib (r.scanner.hosts reading)

def scan (lib : JsonText) (reading : Reading) (r : ScannerRun) : ScannerRun where
  started := r.started
  scanner := (r.scanned lib reading).scanner
  file := some (r.scanned lib reading).file
  callbacks := r.callbacks ++ (r.scanned lib reading).callbacks
  readings := if r.started then r.readings ++ [reading] else r.readings

/-- Every start finds the same definitions, in any order, and every save succeeds. -/
def Step (lib : JsonText) (definitions : List YamlMap) (r : ScannerRun) :
    ScannerOp → ScannerRun → Prop
  | .start files, r' => files.Perm definitions ∧ r' = r.start lib files
  | .scan reading, r' => (r.scanned lib reading).thrown = none ∧ r' = r.scan lib reading

end ScannerRun

section definitions

variable {files : List YamlMap} {d e : Definition} {readings : List Reading} {reading : Reading}
  {now : UInt64}

theorem locked_of_mem (hd : d ∈ definitionsOf files) : d.achievement.unlocked = false := by
  obtain ⟨y, _, hy⟩ := List.mem_filterMap.mp hd
  obtain ⟨a, ha, rfl⟩ := Option.map_eq_some_iff.mp hy
  obtain ⟨id, _, rfl⟩ := Option.map_eq_some_iff.mp ha
  rfl

theorem Definition.firstSuccess_append (d : Definition) (readings : List Reading)
    (reading : Reading) :
    d.firstSuccess (readings ++ [reading]) = (d.firstSuccess readings).or (d.success reading) := by
  simp only [firstSuccess, List.findSome?_append, List.findSome?_singleton]

@[simp] theorem Definition.id_status : (d.status readings).id = d.id := by
  unfold Definition.status
  split <;> rfl

theorem Definition.status_of_none (h : d.firstSuccess readings = none) :
    d.status readings = d.achievement := by
  simp only [Definition.status, h]

theorem Definition.status_of_some (h : d.firstSuccess readings = some now) :
    d.status readings = d.unlockedAt now := by
  simp only [Definition.status, h]

theorem achievements_start (lib : JsonText) (file : Option Bytes) (files : List YamlMap) :
    (loadDefinitions lib file (some files)).achievements =
      (definitionsOf files).map fun d => restore (loadAchievements lib file) d.achievement := by
  have hread : files.filterMap readDefinition =
      (definitionsOf files).map Definition.achievement := by
    rw [definitionsOf, List.map_filterMap]
    congr 1
    funext y
    rw [definition, Option.map_map]
    exact Option.map_id'.symm
  rw [achievements_loadDefinitions, Option.getD_some, hread, List.map_map]
  rfl

theorem eq_of_id (hdistinct : ((definitionsOf files).map Definition.id).Nodup)
    (hd : d ∈ definitionsOf files) (he : e ∈ definitionsOf files) (h : d.id = e.id) : d = e :=
  List.inj_on_of_nodup_map hdistinct hd he h

theorem lookup_start (lib : JsonText) (file : Option Bytes)
    (hdistinct : ((definitionsOf files).map Definition.id).Nodup) (hd : d ∈ definitionsOf files) :
    (loadDefinitions lib file (some files)).criteriaById.lookup d.id = some d.criteria := by
  have hfold : ∀ saved, (files.foldl (addDefinition saved) ⟨[], ∅⟩).criteriaById.lookup d.id =
      some d.criteria := by
    intro saved
    induction files using List.reverseRecOn with
    | nil => cases hd
    | append_singleton files y ih =>
        rw [List.foldl_append, List.foldl_cons, List.foldl_nil, addDefinition]
        have hlast : definitionsOf (files ++ [y]) = definitionsOf files ++ (definition y).toList := by
          rw [definitionsOf, List.filterMap_append, List.filterMap_cons, List.filterMap_nil]
          cases definition y <;> rfl
        rw [hlast] at hd hdistinct
        unfold definition at hd hdistinct
        cases hread : readDefinition y with
        | none =>
            simp only [hread, Option.map_none, Option.toList_none, List.append_nil] at hd hdistinct
            exact ih hdistinct hd
        | some a =>
            simp only [hread, Option.map_some, Option.toList_some, List.map_append,
              List.map_singleton, List.nodup_append, List.mem_singleton] at hd hdistinct
            obtain ⟨hfiles, _, hne⟩ := hdistinct
            rcases List.mem_append.mp hd with hd | hd
            · have hid : d.id ≠ a.id := hne d.id (List.mem_map_of_mem hd) a.id rfl
              rw [Finmap.lookup_insert_of_ne _ hid]
              exact ih hfiles hd
            · rw [List.mem_singleton.mp hd]
              exact Finmap.lookup_insert _
  exact hfold _

/-- A list of the achievements records the first success of each. -/
theorem lastRecord_status (hdistinct : ((definitionsOf files).map Definition.id).Nodup)
    (readings : List Reading) (hd : d ∈ definitionsOf files) :
    lastRecord ((definitionsOf files).map fun d => d.status readings) d.id =
      d.firstSuccess readings := by
  have hmem : d.status readings ∈ (definitionsOf files).map fun d => d.status readings :=
    List.mem_map_of_mem hd
  -- A record of the id is the one of the definition.
  have honly : ∀ now, lastRecord ((definitionsOf files).map fun d => d.status readings) d.id =
      some now → (d.status readings).unlocked = true ∧ (d.status readings).unlockedAt = now := by
    intro now hlast
    obtain ⟨a, ha, hid, hunlocked, hat⟩ := lastRecord_mem hlast
    obtain ⟨e, he, rfl⟩ := List.mem_map.mp ha
    have hid' : e.id = d.id := Definition.id_status.symm.trans hid
    obtain rfl := eq_of_id hdistinct he hd hid'
    exact ⟨hunlocked, hat⟩
  cases hfirst : d.firstSuccess readings with
  | none =>
      cases hlast : lastRecord ((definitionsOf files).map fun d => d.status readings) d.id with
      | none => rfl
      | some now =>
          obtain ⟨hunlocked, _⟩ := honly now hlast
          rw [Definition.status_of_none hfirst, locked_of_mem hd] at hunlocked
          cases hunlocked
  | some now =>
      have hunlocked : (d.status readings).unlocked = true := by
        rw [Definition.status_of_some hfirst]
        rfl
      obtain ⟨at', hlast⟩ := lastRecord_of_mem hmem hunlocked
      rw [Definition.id_status] at hlast
      obtain ⟨_, hat⟩ := honly at' hlast
      rw [Definition.status_of_some hfirst] at hat
      rw [hlast, ← hat]
      rfl

end definitions

/-! ## One scan -/

section scan

variable {lib : JsonText} {s : PassiveScanner} {files : List YamlMap} {d : Definition}
  {readings : List Reading} {reading : Reading}

/-- The check of a locked achievement unlocks it at its first success; afterwards it is left
alone. -/
theorem scanAchievement_status (readings : List Reading) (hlocked : d.achievement.unlocked = false)
    (hcriteria : s.criteriaById.lookup d.id = some d.criteria) :
    s.scanAchievement (reading d.id) (d.status readings) =
      (d.status (readings ++ [reading]), d.callback readings reading) := by
  have happend := d.firstSuccess_append readings reading
  cases hfirst : d.firstSuccess readings with
  | some now =>
      have hafter : d.firstSuccess (readings ++ [reading]) = some now := by
        rw [happend, hfirst, Option.some_or]
      rw [Definition.status_of_some hfirst, Definition.status_of_some hafter,
        scanAchievement_of_unlocked rfl, Definition.callback, hfirst]
      rfl
  | none =>
      rw [hfirst, Option.none_or] at happend
      have hsuccess : d.success reading =
          if met d.criteria (reading d.id) then some (reading d.id).now else none := rfl
      have hlookup : s.criteriaById.lookup d.achievement.id = some d.criteria := hcriteria
      rw [Definition.status_of_none hfirst, scanAchievement, hlocked, if_neg Bool.false_ne_true,
        hlookup, Definition.callback, if_pos hfirst, hsuccess]
      by_cases hmet : met d.criteria (reading d.id) = true
      · rw [if_pos hmet] at hsuccess ⊢
        rw [Definition.status_of_some (happend.trans hsuccess)]
        simp only [hmet]
        rfl
      · rw [if_neg hmet] at hsuccess ⊢
        rw [Definition.status_of_none (happend.trans hsuccess)]
        simp only [hmet]
        rfl

/-- The list of a start, with what has been unlocked since. -/
structure Loaded (files : List YamlMap) (readings : List Reading) (s : PassiveScanner) : Prop where
  achievements : s.achievements = (definitionsOf files).map fun d => d.status readings
  criteria : ∀ d ∈ definitionsOf files, s.criteriaById.lookup d.id = some d.criteria

theorem Loaded.results (h : Loaded files readings s) (reading : Reading) :
    s.achievements.mapIdx (fun i a => s.scanAchievement (s.hosts reading i) a) =
      (definitionsOf files).map fun d =>
        (d.status (readings ++ [reading]), d.callback readings reading) := by
  apply List.ext_getElem
  · simp [h.achievements]
  · intro i _ hi
    have hi : i < (definitionsOf files).length := by simpa using hi
    have hd : (definitionsOf files)[i] ∈ definitionsOf files := List.getElem_mem hi
    have hhost : s.hosts reading i = reading (definitionsOf files)[i].id := by
      simp [PassiveScanner.hosts, h.achievements, hi]
    have hscan : s.scanAchievement (reading _) _ = (_, _) :=
      scanAchievement_status readings (locked_of_mem hd) (h.criteria _ hd)
    rw [← hhost] at hscan
    simp only [List.getElem_mapIdx, List.getElem_map, h.achievements]
    exact hscan

/-- A scan brings the list and the callback up to date. -/
theorem Loaded.scanNow (lib : JsonText) (h : Loaded files readings s) (reading : Reading) :
    Loaded files (readings ++ [reading]) (s.scanNow lib (s.hosts reading)).scanner ∧
      (s.scanNow lib (s.hosts reading)).callbacks =
        (definitionsOf files).filterMap fun d => d.callback readings reading := by
  have hresults := h.results reading
  refine ⟨⟨?_, h.criteria⟩, ?_⟩
  · simp only [PassiveScanner.scanNow, hresults, List.map_map]
    rfl
  · simp only [PassiveScanner.scanNow, hresults, List.filterMap_map]
    rfl

end scan

/-! ## Whole runs -/

/-- The callback was called once for each first success and never else, and behind a start the
list has every definition as its first success left it; the file has them too. -/
structure ScannerRun.Described (lib : JsonText) (definitions : List YamlMap) (r : ScannerRun) :
    Prop where
  callbacks_nodup : (r.callbacks.map StoredAchievement.id).Nodup
  mem_callbacks : ∀ c, c ∈ r.callbacks ↔ ∃ d ∈ definitionsOf definitions, ∃ now,
    d.firstSuccess r.readings = some now ∧ c = d.unlockedAt now
  idle : r.started = false → r.scanner.achievements = [] ∧ r.readings = []
  loaded : r.started = true →
    ∃ files, files.Perm definitions ∧ Loaded files r.readings r.scanner
  recorded : ∀ d ∈ definitionsOf definitions,
    lastRecord (loadAchievements lib r.file) d.id = d.firstSuccess r.readings

section runs

variable {lib : JsonText} {definitions files : List YamlMap} {r r' : ScannerRun}
  {reading : Reading}

theorem described_initial (lib : JsonText) (definitions : List YamlMap) :
    ScannerRun.initial.Described lib definitions where
  callbacks_nodup := List.nodup_nil
  mem_callbacks := by
    intro c
    constructor
    · intro hc
      cases hc
    · intro hex
      obtain ⟨d, _, now, hfirst, _⟩ := hex
      cases hfirst
  idle := fun _ => ⟨rfl, rfl⟩
  loaded := fun h => absurd h Bool.false_ne_true
  recorded := fun _ _ => rfl

theorem loaded_start (lib : JsonText) (r : ScannerRun)
    (hdistinct : ((definitionsOf files).map Definition.id).Nodup)
    (hrecorded : ∀ d ∈ definitionsOf files,
      lastRecord (loadAchievements lib r.file) d.id = d.firstSuccess r.readings) :
    Loaded files r.readings (r.start lib files).scanner where
  achievements := by
    rw [ScannerRun.start, achievements_start]
    refine List.map_congr_left fun d hd => ?_
    have hlast : lastRecord (loadAchievements lib r.file) d.achievement.id =
        d.firstSuccess r.readings := hrecorded d hd
    rw [restore_eq, hlast]
    rfl
  criteria := fun _ hd => lookup_start lib r.file hdistinct hd

theorem distinct_of_perm (hperm : files.Perm definitions)
    (hdistinct : ((definitionsOf definitions).map Definition.id).Nodup) :
    ((definitionsOf files).map Definition.id).Nodup :=
  ((hperm.filterMap definition).map Definition.id).nodup_iff.mpr hdistinct

theorem described_start (hdistinct : ((definitionsOf definitions).map Definition.id).Nodup)
    (h : r.Described lib definitions) (hperm : files.Perm definitions) :
    (r.start lib files).Described lib definitions where
  callbacks_nodup := h.callbacks_nodup
  mem_callbacks := h.mem_callbacks
  idle := fun h => absurd h.symm Bool.false_ne_true
  loaded := by
    intro _
    refine ⟨files, hperm, loaded_start lib r (distinct_of_perm hperm hdistinct) ?_⟩
    intro d hd
    exact h.recorded d ((hperm.filterMap definition).mem_iff.mp hd)
  recorded := h.recorded

theorem id_of_callback {d : Definition} {readings : List Reading} {reading : Reading}
    {c : StoredAchievement} (h : d.callback readings reading = some c) : c.id = d.id := by
  unfold Definition.callback at h
  split at h
  · obtain ⟨now, _, rfl⟩ := Option.map_eq_some_iff.mp h
    rfl
  · cases h

/-- The ids of the calls are ids of the definitions, in their order. -/
theorem sublist_callbacks (l : List Definition) (readings : List Reading) (reading : Reading) :
    ((l.filterMap fun d => d.callback readings reading).map StoredAchievement.id).Sublist
      (l.map Definition.id) := by
  induction l with
  | nil => exact .slnil
  | cons d l ih =>
      rw [List.filterMap_cons]
      split
      · exact ih.cons d.id
      · rename_i c hc
        rw [List.map_cons, List.map_cons, id_of_callback hc]
        exact ih.cons_cons d.id

/-- The calls of a scan are the successes that are the first ones. -/
structure NewCallbacks (definitions : List YamlMap) (readings : List Reading) (reading : Reading)
    (callbacks : List StoredAchievement) : Prop where
  nodup : (callbacks.map StoredAchievement.id).Nodup
  mem : ∀ c, c ∈ callbacks ↔ ∃ d ∈ definitionsOf definitions, d.firstSuccess readings = none ∧
    ∃ now, d.success reading = some now ∧ c = d.unlockedAt now

theorem Loaded.newCallbacks (lib : JsonText) {readings : List Reading} {s : PassiveScanner}
    (h : Loaded files readings s) (hperm : files.Perm definitions)
    (hdistinct : ((definitionsOf files).map Definition.id).Nodup) (reading : Reading) :
    NewCallbacks definitions readings reading (s.scanNow lib (s.hosts reading)).callbacks := by
  rw [(h.scanNow lib reading).2]
  refine ⟨(sublist_callbacks _ readings reading).nodup hdistinct, fun c => ?_⟩
  have hmem : ∀ d, d ∈ definitionsOf files ↔ d ∈ definitionsOf definitions :=
    fun d => (hperm.filterMap definition).mem_iff
  simp only [List.mem_filterMap, Definition.callback, hmem]
  constructor
  · intro hex
    obtain ⟨d, hd, hc⟩ := hex
    split at hc
    · rename_i hfirst
      obtain ⟨now, hnow, rfl⟩ := Option.map_eq_some_iff.mp hc
      exact ⟨d, hd, hfirst, now, hnow, rfl⟩
    · cases hc
  · intro hex
    obtain ⟨d, hd, hfirst, now, hnow, hc⟩ := hex
    refine ⟨d, hd, ?_⟩
    rw [if_pos hfirst, hnow, hc]
    rfl

theorem mem_callbacks_append {reading : Reading} {callbacks : List StoredAchievement}
    (h : r.Described lib definitions)
    (hnew : NewCallbacks definitions r.readings reading callbacks) (c : StoredAchievement) :
    c ∈ r.callbacks ++ callbacks ↔ ∃ d ∈ definitionsOf definitions, ∃ now,
      d.firstSuccess (r.readings ++ [reading]) = some now ∧ c = d.unlockedAt now := by
  rw [List.mem_append, h.mem_callbacks, hnew.mem]
  constructor
  · intro hc
    rcases hc with ⟨d, hd, now, hfirst, hc⟩ | ⟨d, hd, hfirst, now, hsuccess, hc⟩
    · exact ⟨d, hd, now, by rw [d.firstSuccess_append, hfirst, Option.some_or], hc⟩
    · exact ⟨d, hd, now, by rw [d.firstSuccess_append, hfirst, Option.none_or, hsuccess], hc⟩
  · intro hex
    obtain ⟨d, hd, now, hafter, hc⟩ := hex
    rw [d.firstSuccess_append] at hafter
    cases hfirst : d.firstSuccess r.readings with
    | some before =>
        rw [hfirst, Option.some_or] at hafter
        exact .inl ⟨d, hd, now, hfirst.trans hafter, hc⟩
    | none =>
        rw [hfirst, Option.none_or] at hafter
        exact .inr ⟨d, hd, hfirst, now, hafter, hc⟩

/-- No id is called twice: the earlier calls were for first successes too. -/
theorem nodup_callbacks_append {reading : Reading} {callbacks : List StoredAchievement}
    (hdistinct : ((definitionsOf definitions).map Definition.id).Nodup)
    (h : r.Described lib definitions)
    (hnew : NewCallbacks definitions r.readings reading callbacks) :
    ((r.callbacks ++ callbacks).map StoredAchievement.id).Nodup := by
  rw [List.map_append, List.nodup_append]
  refine ⟨h.callbacks_nodup, hnew.nodup, ?_⟩
  intro id hid id' hid' heq
  obtain ⟨c, hc, rfl⟩ := List.mem_map.mp hid
  obtain ⟨c', hc', rfl⟩ := List.mem_map.mp hid'
  obtain ⟨d, hd, now, hfirst, rfl⟩ := (h.mem_callbacks c).mp hc
  obtain ⟨d', hd', hfirst', now', _, rfl⟩ := (hnew.mem c').mp hc'
  obtain rfl := eq_of_id hdistinct hd hd' heq
  rw [hfirst] at hfirst'
  cases hfirst'

theorem scanNow_of_nil (lib : JsonText) {s : PassiveScanner} (h : s.achievements = [])
    (hosts : Nat → Host) :
    (s.scanNow lib hosts).scanner.achievements = [] ∧ (s.scanNow lib hosts).callbacks = [] := by
  rw [PassiveScanner.scanNow, h]
  exact ⟨rfl, rfl⟩

theorem load_scan (hthrown : (r.scanned lib reading).thrown = none) :
    loadAchievements lib (r.scan lib reading).file = (r.scan lib reading).scanner.achievements :=
  loadAchievements_saved hthrown

theorem described_idle_scan (h : r.Described lib definitions) (hidle : r.started = false)
    (hthrown : (r.scanned lib reading).thrown = none) :
    (r.scan lib reading).Described lib definitions := by
  obtain ⟨hnil, hreadings⟩ := h.idle hidle
  obtain ⟨hnil', hcallbacks⟩ := scanNow_of_nil lib hnil (r.scanner.hosts reading)
  have hafter : (r.scan lib reading).readings = [] := by
    rw [ScannerRun.scan, hidle, hreadings]
    rfl
  have hcalls : (r.scan lib reading).callbacks = r.callbacks := by
    rw [ScannerRun.scan, ScannerRun.scanned, hcallbacks, List.append_nil]
  constructor
  · rw [hcalls]
    exact h.callbacks_nodup
  · rw [hcalls, hafter, ← hreadings]
    exact h.mem_callbacks
  · exact fun _ => ⟨hnil', hafter⟩
  · exact fun hstarted => absurd (hidle.symm.trans hstarted) Bool.false_ne_true
  · intro d _
    rw [load_scan hthrown, hafter]
    have hlist : (r.scan lib reading).scanner.achievements = [] := hnil'
    rw [hlist]
    rfl

theorem described_scan (hdistinct : ((definitionsOf definitions).map Definition.id).Nodup)
    (h : r.Described lib definitions) (hthrown : (r.scanned lib reading).thrown = none) :
    (r.scan lib reading).Described lib definitions := by
  cases hstarted : r.started with
  | false => exact described_idle_scan h hstarted hthrown
  | true =>
      obtain ⟨files, hperm, hloaded⟩ := h.loaded hstarted
      have hdistinct' := distinct_of_perm hperm hdistinct
      have hnew := hloaded.newCallbacks lib hperm hdistinct' reading
      have hloaded' := (hloaded.scanNow lib reading).1
      have hafter : (r.scan lib reading).readings = r.readings ++ [reading] := if_pos hstarted
      constructor
      · exact nodup_callbacks_append hdistinct h hnew
      · rw [hafter]
        exact mem_callbacks_append h hnew
      · exact fun hidle => absurd (hidle.symm.trans hstarted) Bool.false_ne_true
      · rw [hafter]
        exact fun _ => ⟨files, hperm, hloaded'⟩
      · intro d hd
        have hlist : (r.scan lib reading).scanner.achievements =
            (definitionsOf files).map fun d => d.status (r.readings ++ [reading]) :=
          hloaded'.achievements
        rw [load_scan hthrown, hafter, hlist]
        exact lastRecord_status hdistinct' _ ((hperm.filterMap definition).mem_iff.mpr hd)

theorem described_run (hdistinct : ((definitionsOf definitions).map Definition.id).Nodup)
    {ops : List ScannerOp}
    (hrun : Run (ScannerRun.Step lib definitions) ScannerRun.initial ops r) :
    r.Described lib definitions := by
  refine hrun.keeps (P := fun r => r.Described lib definitions) ?_
    (described_initial lib definitions)
  intro r op r' h hstep
  cases op with
  | start files =>
      obtain ⟨hperm, rfl⟩ := hstep
      exact described_start hdistinct h hperm
  | scan reading =>
      obtain ⟨hthrown, rfl⟩ := hstep
      exact described_scan hdistinct h hthrown

end runs

/-- An achievement and what a scan makes of it: itself, or unlocked with a call of the
callback. -/
def Rescanned (callbacks : List StoredAchievement) (a b : StoredAchievement) : Prop :=
  b = a ∨ (a.unlocked = false ∧ b ∈ callbacks ∧
    b = { a with unlocked := true, unlockedAt := b.unlockedAt })

theorem rescanned_scanNow (lib : JsonText) (s : PassiveScanner) (hosts : Nat → Host) :
    List.Forall₂ (Rescanned (s.scanNow lib hosts).callbacks) s.achievements
      (s.scanNow lib hosts).scanner.achievements := by
  refine List.forall₂_iff_get.mpr ⟨by simp [PassiveScanner.scanNow], fun i hi hi' => ?_⟩
  have hget : (s.scanNow lib hosts).scanner.achievements.get ⟨i, hi'⟩ =
      (s.scanAchievement (hosts i) (s.achievements.get ⟨i, hi⟩)).1 := by
    simp [PassiveScanner.scanNow]
  have hcalled : ∀ c, (s.scanAchievement (hosts i) (s.achievements.get ⟨i, hi⟩)).2 = some c →
      c ∈ (s.scanNow lib hosts).callbacks := by
    intro c hc
    exact List.mem_filterMap.mpr ⟨_, List.mem_mapIdx.mpr ⟨i, hi, rfl⟩, hc⟩
  rw [hget]
  rcases scanAchievement_cases s (hosts i) (s.achievements.get ⟨i, hi⟩) with hscan | ⟨hlocked, hscan⟩
  · rw [hscan]
    exact .inl rfl
  · have hcall := hcalled _ (congrArg Prod.snd hscan)
    rw [hscan]
    exact .inr ⟨hlocked, hcall, rfl⟩

/-- From no file on, with the same definitions at every start: the callback was called once
for each first success of a check and for nothing else, the list has every achievement as its
first success left it, a scan changes no other field, and the file behind it is the list. -/
theorem scanner_runs (lib : JsonText) (definitions : List YamlMap) (ops : List ScannerOp)
    (r : ScannerRun) (hdistinct : ((definitionsOf definitions).map Definition.id).Nodup)
    (hrun : Run (ScannerRun.Step lib definitions) ScannerRun.initial ops r) :
    r.Described lib definitions ∧
      ∀ l reading, ops = l ++ [.scan reading] →
        loadAchievements lib r.file = r.scanner.achievements ∧
        ∃ s, Run (ScannerRun.Step lib definitions) ScannerRun.initial l s ∧
          r.callbacks = s.callbacks ++ (s.scanned lib reading).callbacks ∧
          List.Forall₂ (Rescanned (s.scanned lib reading).callbacks)
            s.scanner.achievements r.scanner.achievements := by
  refine ⟨described_run hdistinct hrun, fun l reading hops => ?_⟩
  subst hops
  obtain ⟨s, hs, hlast⟩ := Run.append_iff.mp hrun
  obtain ⟨hthrown, rfl⟩ := Run.single_iff.mp hlast
  exact ⟨load_scan hthrown, s, hs, rfl, rescanned_scanNow lib s.scanner _⟩

/-- Two starts with a scan each. -/
def bootOps : List ScannerOp :=
  [.start [firstBoot], .scan fun _ => bareHost, .start [firstBoot], .scan fun _ => bareHost]

theorem step_bootStart (r : ScannerRun) : ScannerRun.Step Json.codec [firstBoot] r
    (.start [firstBoot]) (r.start Json.codec [firstBoot]) := ⟨List.Perm.refl _, rfl⟩

theorem step_bootScan (r : ScannerRun) : ScannerRun.Step Json.codec [firstBoot]
    (r.start Json.codec [firstBoot]) (.scan fun _ => bareHost)
    ((r.start Json.codec [firstBoot]).scan Json.codec fun _ => bareHost) := by
  refine ⟨thrown_first_scan.mpr ?_, rfl⟩
  intro y hy a ha
  obtain rfl : y = firstBoot := List.mem_singleton.mp hy
  have hread : readDefinition firstBoot = some { firstBootUnlocked with
      unlocked := false, unlockedAt := 0 } := by decide
  rw [hread] at ha
  cases ha
  decide

def booted : ScannerRun :=
  let scanned := (ScannerRun.initial.start Json.codec [firstBoot]).scan Json.codec fun _ => bareHost
  (scanned.start Json.codec [firstBoot]).scan Json.codec fun _ => bareHost

/-- The second scan calls nothing and keeps the time of the first. -/
theorem booted_once :
    booted.callbacks = [firstBootUnlocked] ∧ booted.scanner.achievements = [firstBootUnlocked] := by
  decide +kernel

theorem scanner_runs_boot :
    booted.callbacks = [firstBootUnlocked] ∧
      booted.scanner.achievements = [firstBootUnlocked] ∧
      booted.Described Json.codec [firstBoot] ∧
      ∀ l reading, bootOps = l ++ [.scan reading] →
        loadAchievements Json.codec booted.file = booted.scanner.achievements ∧
        ∃ s, Run (ScannerRun.Step Json.codec [firstBoot]) ScannerRun.initial l s ∧
          booted.callbacks = s.callbacks ++ (s.scanned Json.codec reading).callbacks ∧
          List.Forall₂ (Rescanned (s.scanned Json.codec reading).callbacks)
            s.scanner.achievements booted.scanner.achievements :=
  ⟨booted_once.1, booted_once.2, scanner_runs Json.codec [firstBoot] bootOps booted (by decide)
    (.cons (step_bootStart _) (.cons (step_bootScan _)
      (.cons (step_bootStart _) (.single (step_bootScan _)))))⟩

end LinuxLive
