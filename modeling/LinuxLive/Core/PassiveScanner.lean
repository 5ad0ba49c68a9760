import LinuxLive.Core.Persistence
import LinuxLive.Lib.Hex
import Mathlib.Data.Finmap
import Mathlib.Data.List.Infix

/-!
# The achievement scanner

`PassiveScanner`: the definitions of a start, what they take over from
`achievements.json`, the checks of a scan and the save that ends it.
-/

namespace LinuxLive

/-- `std::map<std::string, std::string>`, as `parse_achievement_yaml` fills it. -/
abbrev YamlMap := Finmap fun _ : Bytes => Bytes

structure ScanCriteria where
  type : Bytes
  distro : Bytes
  binaryName : Bytes
  displayProtocol : Bytes
  wmClass : Bytes
  minServices : Int
  minCommits : Int
  isCustomKernel : Bool
  timeAfterHour : Int
  timeBeforeHour : Int

/-- What one check reads of the system; a value that the scanner caches is the one that
it read first. -/
structure Host where
  /-- `time(nullptr)`. -/
  now : UInt64
  /-- `localtime(&now)->tm_hour`. -/
  hour : Int
  /-- The lines of `/etc/os-release`. -/
  osRelease : Option (List Bytes)
  path : Option Bytes
  /-- `access(file, X_OK) == 0`. -/
  executable : Bytes → Bool
  waylandDisplay : Option Bytes
  sessionType : Option Bytes
  currentDesktop : Option Bytes
  /-- The outputs of the three commands, `none` where nothing was started. -/
  kernelRelease : Option Bytes
  activeServices : Option Int
  commits : Option Int

namespace PassiveScanner

/-! ## Texts -/

/-- `tolower` in the C locale. -/
def toLower (s : Bytes) : Bytes := s.map fun b => if 65 ≤ b ∧ b ≤ 90 then b + 32 else b

/-- `(int)strtol(text, nullptr, 10)`. -/
def toInt (n : Int) : Int := (max (-2 ^ 63) (min n (2 ^ 63 - 1))).bmod (2 ^ 32)

def atoi (text : Bytes) : Int :=
  match (text.takeWhile (· != 0)).dropWhile isCSpace with
  | 45 :: bs => toInt (-(decimalVal (bs.takeWhile isDigit) : Int))
  | 43 :: bs => toInt (decimalVal (bs.takeWhile isDigit))
  | bs => toInt (decimalVal (bs.takeWhile isDigit))

/-- The value of an `ID=` line without its quotes. -/
def osReleaseId (line : Bytes) : Option Bytes :=
  if line.take 3 = lit "ID=" then
    let val := line.drop 3
    let val := if val.head? = some 34 then val.tail else val
    let val := if val.getLast? = some 34 then val.dropLast else val
    some (toLower val)
  else none

def detectDistro (host : Host) : Bytes :=
  ((host.osRelease.getD []).findSome? osReleaseId).getD (lit "unknown")

/-- The directories of a search path; nothing follows a final colon. -/
def pathDirs (path : Bytes) : List Bytes :=
  let dirs := path.splitOn 58
  if dirs.getLast? = some [] then dirs.dropLast else dirs

/-! ## Checks -/

def checkOs (c : ScanCriteria) (host : Host) : Bool :=
  !c.distro.isEmpty && decide (detectDistro host = c.distro)

def checkBinary (c : ScanCriteria) (host : Host) : Bool :=
  match host.path with
  | none => false
  | some path => (pathDirs path).any fun dir => host.executable (dir ++ lit "/" ++ c.binaryName)

def checkServices (c : ScanCriteria) (host : Host) : Bool :=
  match host.activeServices with
  | none => false
  | some count => decide (c.minServices ≤ count)

def displayServer (host : Host) : Bytes :=
  if (host.waylandDisplay.getD []) ≠ [] then lit "wayland"
  else if host.sessionType = some (lit "x11") then lit "x11"
  else lit "unknown"

def checkDisplayServer (c : ScanCriteria) (host : Host) : Bool :=
  decide (displayServer host = c.displayProtocol)

def tilingWms : List Bytes :=
  [lit "sway", lit "i3", lit "bspwm", lit "dwm", lit "awesome", lit "herbstluftwm", lit "xmonad",
    lit "hyprland", lit "river", lit "qtile", lit "niri"]

def checkWindowManager (c : ScanCriteria) (host : Host) : Bool :=
  if c.wmClass = lit "tiling" then
    match host.currentDesktop with
    | none => false
    | some desktop => tilingWms.any fun wm => decide (wm <:+: toLower desktop)
  else false

def kernelIndicators : List Bytes :=
  [lit "-custom", lit "-zen", lit "-lqx", lit "-tkg", lit "-clear", lit "-bore", lit "-edge"]

def checkKernel (c : ScanCriteria) (host : Host) : Bool :=
  if c.isCustomKernel then
    match host.kernelRelease with
    | none => false
    | some release => kernelIndicators.any fun ind => decide (ind <:+: release)
  else false

def checkGit (c : ScanCriteria) (host : Host) : Bool :=
  if c.minCommits ≤ 0 then false
  else
    match host.commits with
    | none => false
    | some total => decide (c.minCommits ≤ total)

def checkTime (c : ScanCriteria) (host : Host) : Bool :=
  if c.timeAfterHour ≤ c.timeBeforeHour then
    decide (c.timeAfterHour ≤ host.hour) && decide (host.hour < c.timeBeforeHour)
  else decide (c.timeAfterHour ≤ host.hour) || decide (host.hour < c.timeBeforeHour)

/-- The chain over the criteria types; `social` and unknown types are never met by a scan. -/
def met (c : ScanCriteria) (host : Host) : Bool :=
  if c.type = lit "always" then true
  else if c.type = lit "os_detect" then checkOs c host
  else if c.type = lit "binary" then checkBinary c host
  else if c.type = lit "display_server" then checkDisplayServer c host
  else if c.type = lit "window_manager" then checkWindowManager c host
  else if c.type = lit "kernel" then checkKernel c host
  else if c.type = lit "git" then checkGit c host
  else if c.type = lit "time" then checkTime c host
  else if c.type = lit "services" then checkServices c host
  else false

end PassiveScanner

structure PassiveScanner where
  achievements : List StoredAchievement
  criteriaById : Finmap fun _ : Bytes => ScanCriteria

namespace PassiveScanner

/-! ## Definitions -/

/-- The achievement of a definition, locked; without an `id` the file is passed over. -/
def readDefinition (y : YamlMap) : Option StoredAchievement :=
  (y.lookup (lit "id")).map fun id => {
    id := id
    name := (y.lookup (lit "name")).getD id
    description := (y.lookup (lit "description")).getD []
    tier := (y.lookup (lit "tier")).getD (lit "bronze")
    category := (y.lookup (lit "category")).getD []
    icon := (y.lookup (lit "icon")).getD []
    unlocked := false
    unlockedAt := 0 }

def readCriteria (y : YamlMap) : ScanCriteria where
  type := (y.lookup (lit "criteria.type")).getD []
  distro := (y.lookup (lit "criteria.distro")).getD []
  binaryName := (y.lookup (lit "criteria.name")).getD []
  displayProtocol := (y.lookup (lit "criteria.protocol")).getD []
  wmClass := (y.lookup (lit "criteria.class")).getD []
  minServices := atoi ((y.lookup (lit "criteria.min_services")).getD [])
  minCommits := atoi ((y.lookup (lit "criteria.min_commits")).getD [])
  isCustomKernel := decide (y.lookup (lit "criteria.custom") = some (lit "true"))
  timeAfterHour := atoi ((y.lookup (lit "criteria.after_hour")).getD [])
  timeBeforeHour := atoi ((y.lookup (lit "criteria.before_hour")).getD [])

/-- The loop over the saved achievements: the last record of the id wins. -/
def restore (saved : List StoredAchievement) (a : StoredAchievement) : StoredAchievement :=
  saved.foldl (fun a s =>
    if s.id = a.id ∧ s.unlocked = true then { a with unlocked := true, unlockedAt := s.unlockedAt }
    else a) a

def addDefinition (saved : List StoredAchievement) (s : PassiveScanner) (y : YamlMap) :
    PassiveScanner :=
  match readDefinition y with
  | none => s
  | some a => {
      achievements := s.achievements ++ [restore saved a]
      criteriaById := s.criteriaById.insert a.id (readCriteria y) }

/-- `load_definitions` with the definition files that were read, in the order of the
directories; `none`: the directory is missing, and the function returns early. -/
def loadDefinitions (lib : JsonText) (file : Option Bytes) (definitions : Option (List YamlMap)) :
    PassiveScanner :=
  let saved := Persistence.loadAchievements lib file
  match definitions with
  | none => ⟨[], ∅⟩
  | some files => files.foldl (addDefinition saved) ⟨[], ∅⟩

/-! ## Scans -/

def scanAchievement (s : PassiveScanner) (host : Host) (a : StoredAchievement) :
    StoredAchievement × Option StoredAchievement :=
  if a.unlocked then (a, none)
  else
    match s.criteriaById.lookup a.id with
    | none => (a, none)
    | some c =>
        if met c host then
          let unlocked := { a with unlocked := true, unlockedAt := host.now }
          (unlocked, some unlocked)
        else (a, none)

structure Scanned where
  scanner : PassiveScanner
  callbacks : List StoredAchievement
  /-- `achievements.json` after the save. -/
  file : Bytes
  thrown : Option JsonError

/-- `scan_now` with a persistence set; the i-th achievement is checked on the i-th host
reading, and the list is saved whatever the checks gave. -/
def scanNow (lib : JsonText) (s : PassiveScanner) (hosts : Nat → Host) : Scanned :=
  let results := s.achievements.mapIdx fun i a => s.scanAchievement (hosts i) a
  let achievements := results.map Prod.fst
  let saved := Persistence.saveAchievements lib achievements
  { scanner := { s with achievements := achievements }
    callbacks := results.filterMap Prod.snd
    file := saved.1
    thrown := saved.2 }

/-! ## What is restored -/

def lastRecord (saved : List StoredAchievement) (id : Bytes) : Option UInt64 :=
  (saved.filter fun s => decide (s.id = id) && s.unlocked).getLast?.map StoredAchievement.unlockedAt

/-- `restore` takes over the last record of the id, if there is one. -/
theorem restore_eq (saved : List StoredAchievement) (a : StoredAchievement) :
    restore saved a =
      match lastRecord saved a.id with
      | none => a
      | some t => { a with unlocked := true, unlockedAt := t } := by
  induction saved using List.reverseRecOn with
  | nil => rfl
  | append_singleton saved s ih =>
      have hid : (restore saved a).id = a.id := by
        rw [ih]
        cases lastRecord saved a.id <;> rfl
      have hstep : restore (saved ++ [s]) a =
          if s.id = a.id ∧ s.unlocked = true then
            { restore saved a with unlocked := true, unlockedAt := s.unlockedAt }
          else restore saved a := by
        simp only [restore, List.foldl_append, List.foldl_cons, List.foldl_nil] at hid ⊢
        rw [hid]
      by_cases hs : s.id = a.id ∧ s.unlocked = true
      · have hlast : lastRecord (saved ++ [s]) a.id = some s.unlockedAt := by
          simp [lastRecord, hs.1, hs.2]
        rw [hstep, if_pos hs, hlast, ih]
        cases lastRecord saved a.id <;> rfl
      · have hlast : lastRecord (saved ++ [s]) a.id = lastRecord saved a.id := by
          have hfalse : (decide (s.id = a.id) && s.unlocked) = false := by simpa using hs
          simp [lastRecord, hfalse]
        rw [hstep, if_neg hs, hlast, ih]

theorem lastRecord_mem {saved : List StoredAchievement} {id : Bytes} {t : UInt64}
    (h : lastRecord saved id = some t) :
    ∃ s ∈ saved, s.id = id ∧ s.unlocked = true ∧ s.unlockedAt = t := by
  obtain ⟨s, hs, rfl⟩ := Option.map_eq_some_iff.mp h
  have hmem := List.mem_filter.mp (List.mem_of_getLast? hs)
  simp only [Bool.and_eq_true, decide_eq_true_eq] at hmem
  exact ⟨s, hmem.1, hmem.2.1, hmem.2.2, rfl⟩

theorem lastRecord_of_mem {saved : List StoredAchievement} {s : StoredAchievement}
    (hs : s ∈ saved) (hunlocked : s.unlocked = true) : ∃ t, lastRecord saved s.id = some t := by
  have hmem : s ∈ saved.filter fun s' => decide (s'.id = s.id) && s'.unlocked := by
    simp [hs, hunlocked]
  unfold lastRecord
  cases hlast : (saved.filter fun s' => decide (s'.id = s.id) && s'.unlocked).getLast? with
  | none =>
      rw [List.getLast?_eq_none_iff.mp hlast] at hmem
      cases hmem
  | some last => exact ⟨last.unlockedAt, rfl⟩

theorem achievements_loadDefinitions (lib : JsonText) (file : Option Bytes)
    (definitions : Option (List YamlMap)) :
    (loadDefinitions lib file definitions).achievements =
      ((definitions.getD []).filterMap readDefinition).map
        (restore (Persistence.loadAchievements lib file)) := by
  cases definitions with
  | none => rfl
  | some files =>
      have hfold : ∀ s : PassiveScanner,
          (files.foldl (addDefinition (Persistence.loadAchievements lib file)) s).achievements =
            s.achievements ++ (files.filterMap readDefinition).map
              (restore (Persistence.loadAchievements lib file)) := by
        induction files with
        | nil => simp
        | cons y files ih =>
            intro s
            rw [List.foldl_cons, ih, List.filterMap_cons]
            unfold addDefinition
            cases readDefinition y <;> simp
      exact (hfold ⟨[], ∅⟩).trans (by simp)

/-! ## What a scan changes -/

section scan

variable {lib : JsonText} {s : PassiveScanner} {hosts : Nat → Host} {host : Host}
  {a : StoredAchievement}

theorem scanAchievement_of_unlocked (h : a.unlocked = true) :
    s.scanAchievement host a = (a, none) := if_pos h

theorem scanAchievement_cases (s : PassiveScanner) (host : Host) (a : StoredAchievement) :
    s.scanAchievement host a = (a, none) ∨ a.unlocked = false ∧
      s.scanAchievement host a = ({ a with unlocked := true, unlockedAt := host.now },
        some { a with unlocked := true, unlockedAt := host.now }) := by
  unfold scanAchievement
  split
  · exact .inl rfl
  · rename_i hlocked
    split
    · exact .inl rfl
    · split
      · exact .inr ⟨by simpa using hlocked, rfl⟩
      · exact .inl rfl

theorem scanAchievement_spec (s : PassiveScanner) (host : Host) (a : StoredAchievement) :
    (s.scanAchievement host a).1 = a ∨ a.unlocked = false ∧
      (s.scanAchievement host a).1 = { a with unlocked := true, unlockedAt := host.now } := by
  rcases scanAchievement_cases s host a with h | ⟨hlocked, h⟩
  · exact .inl (congrArg Prod.fst h)
  · exact .inr ⟨hlocked, congrArg Prod.fst h⟩

theorem mem_scanNow : a ∈ (s.scanNow lib hosts).scanner.achievements ↔
    ∃ (i : Nat) (h : i < s.achievements.length),
      (s.scanAchievement (hosts i) s.achievements[i]).1 = a := by
  simp only [scanNow, List.mem_map, List.mem_mapIdx]
  constructor
  · intro h
    obtain ⟨r, ⟨i, hi, rfl⟩, rfl⟩ := h
    exact ⟨i, hi, rfl⟩
  · intro h
    obtain ⟨i, hi, rfl⟩ := h
    exact ⟨_, ⟨i, hi, rfl⟩, rfl⟩

theorem utf8_scanAchievement (s : PassiveScanner) (host : Host) (a : StoredAchievement) :
    (s.scanAchievement host a).1.utf8 = a.utf8 := by
  rcases scanAchievement_spec s host a with h | ⟨_, h⟩ <;> rw [h]
  rfl

theorem utf8_scanNow (lib : JsonText) (s : PassiveScanner) (hosts : Nat → Host) :
    (∀ a ∈ (s.scanNow lib hosts).scanner.achievements, a.utf8 = true) ↔
    ∀ a ∈ s.achievements, a.utf8 = true := by
  constructor
  · intro h a ha
    obtain ⟨i, hi, rfl⟩ := List.getElem_of_mem ha
    rw [← utf8_scanAchievement s (hosts i)]
    exact h _ (mem_scanNow.mpr ⟨i, hi, rfl⟩)
  · intro h a ha
    obtain ⟨i, hi, rfl⟩ := mem_scanNow.mp ha
    rw [utf8_scanAchievement]
    exact h _ (List.getElem_mem hi)

/-- The save at the end of a scan throws exactly if some text is malformed. -/
theorem thrown_scanNow : (s.scanNow lib hosts).thrown = none ↔
    ∀ a ∈ s.achievements, a.utf8 = true := by
  rw [← utf8_scanNow lib s hosts]
  exact Persistence.saveAchievements_iff

end scan

end PassiveScanner

end LinuxLive
