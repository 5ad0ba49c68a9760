import LinuxLive.Core.Yaml

/-!
# Definition files

The format of the files under `achievements/` with quoted values, and the files of it
that `parse_achievement_yaml` reads as they are meant.
-/

namespace LinuxLive.PassiveScanner

/-! ## The format -/

structure DefinitionKey where
  text : Bytes
  nonempty : text ≠ []
  /-- No colon, no `#`, no quote and no white space. -/
  plain : ∀ b ∈ text, b ∉ [58, 35, 34, 39, 32, 9, 13, 10]

structure DefinitionEntry where
  key : DefinitionKey
  value : Bytes
  oneLine : 10 ∉ value
  noQuote : 34 ∉ value

structure Comment where
  text : Bytes
  oneLine : 10 ∉ text

/-- A comment behind one space and more. -/
structure TrailingComment where
  more : Nat
  comment : Comment

def trailingText : Option TrailingComment → Bytes
  | none => []
  | some t => List.replicate (t.more + 1) 32 ++ 35 :: t.comment.text

inductive DefinitionLine where
  | blank (white : Bytes) (h : ∀ b ∈ white, b ∈ [32, 9, 13])
  | comment (indent : Nat) (comment : Comment)
  | entry (e : DefinitionEntry) (trailing : Option TrailingComment)

/-- The two places of an entry in a file. -/
inductive Level where
  | top
  | criteria

namespace Level

def indent : Level → Nat
  | top => 0
  | criteria => 2

def sectionName : Level → Bytes
  | top => []
  | criteria => lit "criteria"

def keyPrefix : Level → Bytes
  | top => []
  | criteria => lit "criteria."

end Level

namespace DefinitionLine

def text (level : Level) : DefinitionLine → Bytes
  | blank white _ => white
  | comment indent c => List.replicate indent 32 ++ 35 :: c.text
  | entry e trailing =>
      List.replicate level.indent 32 ++
        (e.key.text ++ 58 :: 32 :: 34 :: (e.value ++ 34 :: trailingText trailing))

def meant (level : Level) : DefinitionLine → Option (Bytes × Bytes)
  | entry e _ => some (level.keyPrefix ++ e.key.text, e.value)
  | _ => none

end DefinitionLine

/-- The entries of a file: those of the top level, and those of the block. -/
def meantEntries (top block : List DefinitionLine) : List (Bytes × Bytes) :=
  top.filterMap (DefinitionLine.meant .top) ++ block.filterMap (DefinitionLine.meant .criteria)

structure DefinitionFile where
  top : List DefinitionLine
  /-- The comment behind `criteria:`. -/
  criteria : Option TrailingComment
  block : List DefinitionLine
  distinct : ((meantEntries top block).map Prod.fst).Nodup

def insertAll (out : YamlMap) (entries : List (Bytes × Bytes)) : YamlMap :=
  entries.foldl (fun m e => m.insert e.1 e.2) out

namespace DefinitionFile

def lines (f : DefinitionFile) : List Bytes :=
  f.top.map (DefinitionLine.text .top) ++
    (lit "criteria:" ++ trailingText f.criteria) :: f.block.map (DefinitionLine.text .criteria)

/-- The text; a line break at its end is a blank line there. -/
def text (f : DefinitionFile) : Bytes := [10].intercalate f.lines

def map (f : DefinitionFile) : YamlMap := insertAll ∅ (meantEntries f.top f.block)

end DefinitionFile

/-- The first `#` of the value, if it has one, is not behind a space of the value, and no
comment follows. -/
def DefinitionEntry.Safe (e : DefinitionEntry) (trailing : Option TrailingComment) : Prop :=
  35 ∈ e.value → trailing = none ∧ (e.value.takeWhile (· != 35)).getLast? ≠ some 32

/-! ## What is read of an entry -/

theorem DefinitionKey.plainKey (k : DefinitionKey) : PlainKey k.text where
  nonempty := k.nonempty
  noColon h := absurd (k.plain _ h) (by decide)
  noHash h := absurd (k.plain _ h) (by decide)
  noSpace b hb := by
    have hplain := k.plain b hb
    refine decide_eq_false fun hspace => hplain ?_
    revert hspace
    simp only [List.mem_cons, List.not_mem_nil, or_false]
    tauto

theorem readQuoted_eq_iff (e : DefinitionEntry) (trailing : Option TrailingComment) :
    readQuoted e.value (trailingText trailing) = e.value ↔ e.Safe trailing := by
  by_cases hhash : 35 ∈ e.value
  · have hquote := e.noQuote
    have hsafe : e.Safe trailing ↔
        trailing = none ∧ (e.value.takeWhile (· != 35)).getLast? ≠ some 32 :=
      forall_prop_of_true hhash
    obtain ⟨a, b, hvalue, ha⟩ := List.eq_append_cons_of_mem hhash
    rw [hsafe, hvalue, takeWhile_hash ha]
    rw [hvalue] at hquote
    by_cases hspace : a.getLast? = some 32
    · have hcut := quote_mem_readQuoted_of_space (b := b) ha
        (fun hmem => hquote (List.mem_append_left _ hmem)) hspace (trailingText trailing)
      exact iff_of_false (fun heq => hquote (heq ▸ hcut)) fun h => h.2 hspace
    · cases trailing with
      | none =>
          exact iff_of_true (readQuoted_of_no_space ha hspace 0 []).1 ⟨rfl, hspace⟩
      | some t =>
          have hkept := (readQuoted_of_no_space (b := b) ha hspace t.more t.comment.text).2
          exact iff_of_false (fun heq => hquote (heq ▸ hkept)) fun h => nomatch h.1
  · refine iff_of_true ?_ fun h => absurd h hhash
    cases trailing with
    | none => exact (readQuoted_of_notMem hhash 0 []).1
    | some t => exact (readQuoted_of_notMem hhash t.more t.comment.text).2

/-! ## What is read of a file -/

/-- The entry that the reader makes of a line. -/
def DefinitionLine.read (level : Level) : DefinitionLine → Option (Bytes × Bytes)
  | entry e trailing =>
      some (level.keyPrefix ++ e.key.text, readQuoted e.value (trailingText trailing))
  | _ => none

def readEntries (top block : List DefinitionLine) : List (Bytes × Bytes) :=
  top.filterMap (DefinitionLine.read .top) ++ block.filterMap (DefinitionLine.read .criteria)

theorem yamlLine_text (level : Level) (l : DefinitionLine) (out : YamlMap) :
    yamlLine ⟨level.sectionName, out⟩ (l.text level) =
      ⟨level.sectionName, insertAll out (l.read level).toList⟩ := by
  cases l with
  | blank white h =>
      have hwhite : yamlCut white = white :=
        yamlCut_of_notMem fun hhash => absurd (h _ hhash) (by decide)
      refine yamlLine_of_blank fun b hb => decide_eq_true ?_
      rw [DefinitionLine.text, hwhite] at hb
      have hspace := h b hb
      revert hspace
      simp only [List.mem_cons, List.not_mem_nil, or_false]
      tauto
  | comment indent c =>
      have hcut : yamlCut (List.replicate indent 32 ++ 35 :: c.text) =
          List.replicate indent 32 := by
        rw [yamlCut_append (by simp), if_pos]
        cases indent with
        | zero => exact .inl rfl
        | succ n =>
            right
            rw [List.replicate_succ', List.getLast?_concat]
      refine yamlLine_of_blank ?_
      rw [DefinitionLine.text, hcut]
      exact isYamlSpace_replicate indent
  | entry e trailing =>
      rw [DefinitionLine.text, yamlLine_entry e.key.plainKey]
      cases level with
      | top => rfl
      | criteria =>
          have hdot : lit "criteria" ++ lit "." = lit "criteria." := by decide
          have hsection : lit "criteria" ≠ [] := by decide
          simp only [Level.sectionName, Level.indent, hdot, ne_eq, hsection, not_false_eq_true,
            OfNat.ofNat_ne_zero, if_true]
          rfl

theorem insertAll_append (out : YamlMap) (es es' : List (Bytes × Bytes)) :
    insertAll out (es ++ es') = insertAll (insertAll out es) es' := List.foldl_append

theorem foldl_yamlLine (level : Level) (ls : List DefinitionLine) (out : YamlMap) :
    (ls.map (DefinitionLine.text level)).foldl yamlLine ⟨level.sectionName, out⟩ =
      ⟨level.sectionName, insertAll out (ls.filterMap (DefinitionLine.read level))⟩ := by
  induction ls generalizing out with
  | nil => rfl
  | cons l ls ih =>
      rw [List.map_cons, List.foldl_cons, yamlLine_text, ih, ← insertAll_append]
      cases hread : l.read level with
      | none => simp [hread]
      | some e => simp [hread]

theorem yamlLine_criteria (out : YamlMap) (trailing : Option TrailingComment) :
    yamlLine ⟨[], out⟩ (lit "criteria:" ++ trailingText trailing) = ⟨lit "criteria", out⟩ := by
  have hspaces : (lit "criteria").all (fun b => !isYamlSpace b) = true := by decide
  have hkey : PlainKey (lit "criteria") :=
    ⟨by decide, by decide, by decide, fun b hb => by simpa using List.all_eq_true.mp hspaces b hb⟩
  have hcolon : lit "criteria:" = lit "criteria" ++ [58] := by decide
  cases trailing with
  | none => exact yamlLine_section hkey _ [] (by decide) (isYamlSpace_replicate 0)
  | some t =>
      have hbefore : (35 : UInt8) ∉ lit "criteria:" ++ List.replicate (t.more + 1) 32 := by
        simp only [List.mem_append, List.mem_replicate, not_or]
        exact ⟨by decide, by simp⟩
      refine yamlLine_section hkey _ (List.replicate (t.more + 1) 32) ?_
        (isYamlSpace_replicate _)
      rw [trailingText, ← List.append_assoc, yamlCut_append hbefore, if_pos, hcolon]
      · simp
      · right
        rw [List.replicate_succ', ← List.append_assoc, List.getLast?_concat]

/-! ## One line each -/

theorem notMem_trailingText (trailing : Option TrailingComment) : 10 ∉ trailingText trailing := by
  cases trailing with
  | none => exact List.not_mem_nil
  | some t =>
      have hcomment := t.comment.oneLine
      simp [trailingText, hcomment]

theorem DefinitionLine.oneLine (level : Level) (l : DefinitionLine) : 10 ∉ l.text level := by
  cases l with
  | blank white h => exact fun hmem => absurd (h _ hmem) (by decide)
  | comment indent c =>
      have hcomment := c.oneLine
      simp [text, hcomment]
  | entry e trailing =>
      have hkey : 10 ∉ e.key.text := fun hmem => absurd (e.key.plain _ hmem) (by decide)
      have hvalue := e.oneLine
      have htrailing := notMem_trailingText trailing
      simp [text, hkey, hvalue, htrailing]

theorem DefinitionFile.oneLine (f : DefinitionFile) : ∀ line ∈ f.lines, 10 ∉ line := by
  intro line hline
  rw [lines, List.mem_append, List.mem_cons, List.mem_map, List.mem_map] at hline
  rcases hline with htop | hcriteria | hblock
  · obtain ⟨l, _, rfl⟩ := htop
    exact l.oneLine _
  · rw [hcriteria, List.mem_append, not_or]
    exact ⟨by decide, notMem_trailingText _⟩
  · obtain ⟨l, _, rfl⟩ := hblock
    exact l.oneLine _

theorem parse_text (f : DefinitionFile) : parseAchievementYaml (some f.text) ∅ =
    (true, insertAll ∅ (readEntries f.top f.block)) := by
  have hskip : ∀ s : YamlState, yamlLine s [] = s := fun s =>
    yamlLine_of_blank (isYamlSpace_replicate 0)
  have htop : (f.top.map (DefinitionLine.text .top)).foldl yamlLine ⟨[], ∅⟩ =
      ⟨[], insertAll ∅ (f.top.filterMap (DefinitionLine.read .top))⟩ := foldl_yamlLine .top f.top ∅
  have hblock := foldl_yamlLine .criteria f.block
    (insertAll ∅ (f.top.filterMap (DefinitionLine.read .top)))
  show (true, ((getLines 10 f.text).foldl yamlLine ⟨[], ∅⟩).out) = _
  rw [DefinitionFile.text, foldl_getLines hskip f.oneLine, DefinitionFile.lines,
    List.foldl_append, List.foldl_cons, htop, yamlLine_criteria]
  exact congrArg (Prod.mk true) ((congrArg YamlState.out hblock).trans (insertAll_append _ _ _).symm)

/-! ## Maps with distinct keys -/

section maps

variable {es es' : List (Bytes × Bytes)} {out : YamlMap} {key value : Bytes}

theorem lookup_insertAll_of_notMem (h : key ∉ es.map Prod.fst) :
    (insertAll out es).lookup key = out.lookup key := by
  induction es generalizing out with
  | nil => rfl
  | cons e es ih =>
      rw [List.map_cons, List.mem_cons, not_or] at h
      exact (ih h.2).trans (Finmap.lookup_insert_of_ne _ h.1)

theorem lookup_insertAll (hnodup : (es.map Prod.fst).Nodup) (h : (key, value) ∈ es) :
    (insertAll out es).lookup key = some value := by
  induction es generalizing out with
  | nil => cases h
  | cons e es ih =>
      obtain ⟨hnew, hnodup⟩ := List.nodup_cons.mp hnodup
      rcases List.mem_cons.mp h with rfl | h
      · exact (lookup_insertAll_of_notMem hnew).trans (Finmap.lookup_insert _)
      · exact ih hnodup h

end maps

/-! ## Files that are read as they are meant -/

section files

variable {level : Level} {ls top block : List DefinitionLine} {e : DefinitionEntry}
  {trailing : Option TrailingComment}

theorem read_eq_meant (h : ∀ e trailing, DefinitionLine.entry e trailing ∈ ls → e.Safe trailing) :
    ls.filterMap (DefinitionLine.read level) = ls.filterMap (DefinitionLine.meant level) := by
  refine List.filterMap_congr fun l hl => ?_
  cases l with
  | blank white h => rfl
  | comment indent c => rfl
  | entry e trailing =>
      rw [DefinitionLine.read, DefinitionLine.meant, (readQuoted_eq_iff e trailing).mpr (h e _ hl)]

theorem keys_readEntries (top block : List DefinitionLine) :
    (readEntries top block).map Prod.fst = (meantEntries top block).map Prod.fst := by
  have hline : ∀ level (l : DefinitionLine),
      (l.read level).map Prod.fst = (l.meant level).map Prod.fst := by
    intro level l
    cases l with
    | blank white h => rfl
    | comment indent c => rfl
    | entry e trailing => rfl
  simp only [readEntries, meantEntries, List.map_append, List.map_filterMap, hline]

theorem safe_of_mem {n : Bytes} (f : DefinitionFile)
    (heq : insertAll ∅ (readEntries f.top f.block) = f.map)
    (hread : (n, readQuoted e.value (trailingText trailing)) ∈ readEntries f.top f.block)
    (hmeant : (n, e.value) ∈ meantEntries f.top f.block) : e.Safe trailing := by
  have hnodup : ((readEntries f.top f.block).map Prod.fst).Nodup := by
    rw [keys_readEntries]
    exact f.distinct
  have hlookup : (insertAll ∅ (readEntries f.top f.block)).lookup n = some e.value := by
    rw [heq]
    exact lookup_insertAll f.distinct hmeant
  rw [lookup_insertAll hnodup hread] at hlookup
  exact (readQuoted_eq_iff e trailing).mp (Option.some.inj hlookup)

end files

theorem parse_text_of_safe {f : DefinitionFile}
    (h : ∀ e trailing, DefinitionLine.entry e trailing ∈ f.top ++ f.block → e.Safe trailing) :
    parseAchievementYaml (some f.text) ∅ = (true, f.map) := by
  rw [parse_text, readEntries,
    read_eq_meant fun e trailing hentry => h e trailing (List.mem_append_left _ hentry),
    read_eq_meant fun e trailing hentry => h e trailing (List.mem_append_right _ hentry)]
  rfl

/-- A definition file is read as it is meant exactly if every value with a `#` is followed by
no comment and has no space in front of its first `#`. -/
theorem parse_definitionFile_iff (f : DefinitionFile) :
    parseAchievementYaml (some f.text) ∅ = (true, f.map) ↔
      ∀ e trailing, DefinitionLine.entry e trailing ∈ f.top ++ f.block → e.Safe trailing := by
  constructor
  · intro hparse e trailing hentry
    rw [parse_text] at hparse
    have heq : insertAll ∅ (readEntries f.top f.block) = f.map := congrArg Prod.snd hparse
    rcases List.mem_append.mp hentry with htop | hblock
    · exact safe_of_mem f heq
        (List.mem_append_left _ (List.mem_filterMap.mpr ⟨_, htop, rfl⟩))
        (List.mem_append_left _ (List.mem_filterMap.mpr ⟨_, htop, rfl⟩))
    · exact safe_of_mem f heq
        (List.mem_append_right _ (List.mem_filterMap.mpr ⟨_, hblock, rfl⟩))
        (List.mem_append_right _ (List.mem_filterMap.mpr ⟨_, hblock, rfl⟩))
  · exact parse_text_of_safe

/-! ## A value with a `#` behind a space -/

def levelEntry : DefinitionEntry where
  key :=
    { text := lit "name"
      nonempty := by decide
      plain := fun b hb => of_decide_eq_true (List.all_eq_true.mp
        (show (lit "name").all (fun b => decide (b ∉ [58, 35, 34, 39, 32, 9, 13, 10])) = true by
          decide) b hb) }
  value := lit "Level # 1"
  oneLine := by decide
  noQuote := by decide

def levelFile : DefinitionFile where
  top := [.entry levelEntry none]
  criteria := none
  block := []
  distinct := by decide

/-- The name of the file is `Level # 1`, and what is read of it is a quote and `Level`. -/
theorem value_is_cut :
    levelFile.text = lit "name: \"Level # 1\"\ncriteria:" ∧
      (parseAchievementYaml (some levelFile.text) ∅).2.lookup (lit "name") = some (lit "\"Level") ∧
      ¬ ∀ f : DefinitionFile, parseAchievementYaml (some f.text) ∅ = (true, f.map) := by
  have hlookup : (parseAchievementYaml (some levelFile.text) ∅).2.lookup (lit "name") =
      some (lit "\"Level") := by
    rw [parse_text]
    decide
  refine ⟨by decide, hlookup, fun hall => ?_⟩
  rw [hall levelFile] at hlookup
  revert hlookup
  decide

end LinuxLive.PassiveScanner
