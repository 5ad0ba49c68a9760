import LinuxLive.Core.PassiveScanner
import LinuxLive.Lib.Lines

/-!
# The reader of the definition files

`parse_achievement_yaml` and its helpers, and what one line of each form does.
-/

namespace LinuxLive.PassiveScanner

/-- The characters of `" \t\r\n"`. -/
def isYamlSpace (b : UInt8) : Bool := decide (b ∈ [32, 9, 13, 10])

def yamlTrim (s : Bytes) : Bytes := trim isYamlSpace s

def yamlUnquote (v : Bytes) : Bytes :=
  if 2 ≤ v.length ∧ (v.head? = some 34 ∧ v.getLast? = some 34 ∨
      v.head? = some 39 ∧ v.getLast? = some 39) then v.tail.dropLast
  else v

/-- The cut at the first `#`, made only if that is the first character of the line or
stands behind a space. -/
def yamlCut (line : Bytes) : Bytes :=
  let before := line.takeWhile (· != 35)
  if 35 ∈ line ∧ (before = [] ∨ before.getLast? = some 32) then before else line

structure YamlState where
  sectionName : Bytes
  out : YamlMap

/-- The part of the loop behind the trimming of a line. -/
def yamlContent (s : YamlState) (nested : Bool) (content : Bytes) : YamlState :=
  if content = [] then s
  else if 58 ∉ content then s
  else
    let key := yamlTrim (content.takeWhile (· != 58))
    let value := yamlTrim (content.dropWhile (· != 58)).tail
    if nested then
      if s.sectionName ≠ [] then
        { s with out := s.out.insert (s.sectionName ++ lit "." ++ key) (yamlUnquote value) }
      else s
    else if value = [] then { s with sectionName := key }
    else { sectionName := [], out := s.out.insert key (yamlUnquote value) }

/-- `!line.empty() && (line[0] == ' ' || line[0] == '\t')` -/
def yamlNested (line : Bytes) : Bool := decide (line.head? = some 32 ∨ line.head? = some 9)

def yamlLine (s : YamlState) (line : Bytes) : YamlState :=
  yamlContent s (yamlNested (yamlCut line)) (yamlTrim (yamlCut line))

/-- The result and `out`; `none` is a file that cannot be opened. -/
def parseAchievementYaml (file : Option Bytes) (out : YamlMap) : Bool × YamlMap :=
  match file with
  | none => (false, out)
  | some text => (true, ((getLines 10 text).foldl yamlLine ⟨[], out⟩).out)

/-! ## Cutting a comment off -/

section cut

variable {before rest : Bytes}

theorem takeWhile_hash (h : 35 ∉ before) (rest : Bytes) :
    (before ++ 35 :: rest).takeWhile (· != 35) = before := by
  rw [List.takeWhile_append_of_pos, List.takeWhile_cons_of_neg (by simp), List.append_nil]
  intro b hb
  exact bne_iff_ne.mpr fun heq => h (heq ▸ hb)

theorem yamlCut_of_notMem (h : 35 ∉ before) : yamlCut before = before :=
  if_neg fun hcut => h hcut.1

/-- What stands in front of the first `#` decides. -/
theorem yamlCut_append (h : 35 ∉ before) (rest : Bytes) : yamlCut (before ++ 35 :: rest) =
    if before = [] ∨ before.getLast? = some 32 then before else before ++ 35 :: rest := by
  have hmem : (35 : UInt8) ∈ before ++ 35 :: rest := by simp
  simp only [yamlCut, takeWhile_hash h, hmem, true_and]

/-- A part without a `#` is kept in front of a quoted text. -/
theorem yamlCut_quote (h : 35 ∉ before) (rest : Bytes) :
    yamlCut (before ++ 34 :: rest) = before ++ yamlCut (34 :: rest) := by
  by_cases hhash : 35 ∈ rest
  · obtain ⟨a, b, rfl, ha⟩ := List.eq_append_cons_of_mem hhash
    have hquoted : (35 : UInt8) ∉ 34 :: a := by simpa using ha
    have hbefore : (35 : UInt8) ∉ before ++ 34 :: a := by simpa using ⟨h, ha⟩
    have hlast : (before ++ 34 :: a).getLast? = (34 :: a).getLast? :=
      List.getLast?_append_of_ne_nil _ (List.cons_ne_nil _ _)
    have hline : before ++ 34 :: (a ++ 35 :: b) = (before ++ 34 :: a) ++ 35 :: b := by simp
    rw [hline, yamlCut_append hbefore, ← List.cons_append, yamlCut_append hquoted, hlast]
    by_cases hspace : (34 :: a).getLast? = some 32
    · simp [hspace]
    · simp [hspace]
  · have hquoted : (35 : UInt8) ∉ 34 :: rest := by simpa using hhash
    have hline : (35 : UInt8) ∉ before ++ 34 :: rest := by simpa using ⟨h, hhash⟩
    rw [yamlCut_of_notMem hquoted, yamlCut_of_notMem hline]

end cut

/-! ## Reading a quoted value -/

theorem yamlUnquote_cons (s : Bytes) :
    yamlUnquote (34 :: s) = if s.getLast? = some 34 then s.dropLast else 34 :: s := by
  unfold yamlUnquote
  cases s with
  | nil => rfl
  | cons b s => simp [List.getLast?_cons_cons]

/-- What the reader makes of the text behind the colon of a quoted value. -/
def readQuoted (value trailing : Bytes) : Bytes :=
  yamlUnquote (yamlTrim (yamlCut (34 :: (value ++ 34 :: trailing))))

section quoted

variable {value a b : Bytes}

theorem yamlUnquote_trim (value : Bytes) {spaces : Bytes}
    (h : ∀ x ∈ spaces, isYamlSpace x = true) :
    yamlUnquote (yamlTrim (34 :: (value ++ 34 :: spaces))) = value := by
  rw [yamlTrim, trim_cons (by decide), rdropWhile_append_cons (by decide),
    List.rdropWhile_eq_nil_iff.mpr h, yamlUnquote_cons, if_pos (by simp), List.dropLast_concat]

/-- Without a `#` the value is read as it stands, whatever comment follows. -/
theorem readQuoted_of_notMem (hvalue : 35 ∉ value) (n : Nat) (comment : Bytes) :
    readQuoted value [] = value ∧
      readQuoted value (List.replicate (n + 1) 32 ++ 35 :: comment) = value := by
  constructor
  · have hline : (35 : UInt8) ∉ 34 :: (value ++ [34]) := by simpa using hvalue
    rw [readQuoted, yamlCut_of_notMem hline]
    exact yamlUnquote_trim value (by simp)
  · have hbefore : (35 : UInt8) ∉ 34 :: (value ++ 34 :: List.replicate (n + 1) 32) := by
      simpa using hvalue
    have hlast : (34 :: (value ++ 34 :: List.replicate (n + 1) 32)).getLast? = some 32 := by
      rw [← List.cons_append, List.getLast?_append_of_ne_nil _ (List.cons_ne_nil _ _),
        List.replicate_succ', ← List.cons_append, List.getLast?_concat]
    have hline : 34 :: (value ++ 34 :: (List.replicate (n + 1) 32 ++ 35 :: comment)) =
        34 :: (value ++ 34 :: List.replicate (n + 1) 32) ++ 35 :: comment := by simp
    rw [readQuoted, hline, yamlCut_append hbefore, if_pos (.inr hlast)]
    exact yamlUnquote_trim value fun x hx => by rw [List.eq_of_mem_replicate hx]; decide

theorem quote_mem_readQuoted_of_space (ha : 35 ∉ a) (hquote : 34 ∉ a)
    (hspace : a.getLast? = some 32) (trailing : Bytes) :
    34 ∈ readQuoted (a ++ 35 :: b) trailing := by
  have hbefore : (35 : UInt8) ∉ 34 :: a := by simpa using ha
  have hlast : (34 :: a).getLast? = some 32 := by
    rw [List.getLast?_cons, hspace]
    rfl
  have hline : 34 :: (a ++ 35 :: b ++ 34 :: trailing) =
      34 :: a ++ 35 :: (b ++ 34 :: trailing) := by simp
  have hkept : ¬ (a.rdropWhile isYamlSpace).getLast? = some 34 := fun hq =>
    hquote ((List.rdropWhile_prefix isYamlSpace a).subset (List.mem_of_getLast? hq))
  rw [readQuoted, hline, yamlCut_append hbefore, if_pos (.inr hlast), yamlTrim,
    trim_cons (by decide), yamlUnquote_cons, if_neg hkept]
  exact List.mem_cons_self

theorem yamlCut_of_no_space (ha : 35 ∉ a) (hspace : a.getLast? ≠ some 32) (rest : Bytes) :
    yamlCut (34 :: (a ++ 35 :: rest)) = 34 :: (a ++ 35 :: rest) := by
  have hbefore : (35 : UInt8) ∉ 34 :: a := by simpa using ha
  have hlast : ¬ ((34 :: a) = [] ∨ (34 :: a).getLast? = some 32) := by
    rw [List.getLast?_cons]
    cases hend : a.getLast? with
    | none => simp
    | some x => simpa [hend] using hspace
  rw [← List.cons_append, yamlCut_append hbefore, if_neg hlast]

/-- Where no space is in front of the first `#`, nothing is cut off: not the value, and
not the comment behind it either. -/
theorem readQuoted_of_no_space (ha : 35 ∉ a) (hspace : a.getLast? ≠ some 32) (n : Nat)
    (comment : Bytes) :
    readQuoted (a ++ 35 :: b) [] = a ++ 35 :: b ∧
      34 ∈ readQuoted (a ++ 35 :: b) (List.replicate (n + 1) 32 ++ 35 :: comment) := by
  have hcut : ∀ trailing, yamlCut (34 :: (a ++ 35 :: b ++ 34 :: trailing)) =
      34 :: (a ++ 35 :: b ++ 34 :: trailing) := by
    intro trailing
    rw [List.append_assoc, List.cons_append]
    exact yamlCut_of_no_space ha hspace _
  constructor
  · rw [readQuoted, hcut]
    exact yamlUnquote_trim _ (by simp)
  · rw [readQuoted, hcut, yamlTrim, trim_cons (by decide), rdropWhile_append_cons (by decide),
      rdropWhile_append_cons (by decide), yamlUnquote_cons]
    split
    · rw [List.dropLast_append_of_ne_nil (List.cons_ne_nil _ _),
        List.dropLast_cons_of_ne_nil (by simp)]
      exact List.mem_append_right _ List.mem_cons_self
    · exact List.mem_cons_self

end quoted

/-! ## Lines -/

section line

variable {s : YamlState} {key rest : Bytes}

theorem yamlLine_of_blank {line : Bytes} (h : ∀ b ∈ yamlCut line, isYamlSpace b = true) :
    yamlLine s line = s := by
  have hcontent : yamlTrim (yamlCut line) = [] := trim_of_all h
  simp only [yamlLine, hcontent, yamlContent, if_true]

theorem takeWhile_colon (h : 58 ∉ key) (rest : Bytes) :
    (key ++ 58 :: rest).takeWhile (· != 58) = key ∧
      (key ++ 58 :: rest).dropWhile (· != 58) = 58 :: rest := by
  have hkey : ∀ b ∈ key, (b != 58) = true := fun b hb => bne_iff_ne.mpr fun heq => h (heq ▸ hb)
  constructor
  · rw [List.takeWhile_append_of_pos hkey, List.takeWhile_cons_of_neg (by simp), List.append_nil]
  · rw [List.dropWhile_append_of_pos hkey, List.dropWhile_cons_of_neg (by simp)]

/-- What the loop needs of a key. -/
structure PlainKey (key : Bytes) : Prop where
  nonempty : key ≠ []
  noColon : 58 ∉ key
  noHash : 35 ∉ key
  noSpace : ∀ b ∈ key, isYamlSpace b = false

theorem PlainKey.yamlTrim_append (h : PlainKey key) {c : UInt8} (hc : isYamlSpace c = false)
    (before behind : Bytes) : yamlTrim (key ++ (before ++ c :: behind)) =
      key ++ (before ++ c :: behind.rdropWhile isYamlSpace) := by
  obtain ⟨k, ks, rfl⟩ := List.exists_cons_of_ne_nil h.nonempty
  have hk : isYamlSpace k = false := h.noSpace k List.mem_cons_self
  rw [List.cons_append, ← List.append_assoc, yamlTrim, trim_cons hk, rdropWhile_append_cons hc]
  simp

theorem PlainKey.yamlNested (h : PlainKey key) (rest : Bytes) :
    yamlNested (key ++ rest) = false := by
  obtain ⟨k, ks, rfl⟩ := List.exists_cons_of_ne_nil h.nonempty
  have hk : isYamlSpace k = false := h.noSpace k List.mem_cons_self
  refine decide_eq_false fun hhead => ?_
  rw [List.cons_append, List.head?_cons] at hhead
  rcases hhead with heq | heq
  · rw [Option.some.inj heq] at hk
    cases hk
  · rw [Option.some.inj heq] at hk
    cases hk

theorem yamlCut_cons_quote (rest : Bytes) : ∃ r, yamlCut (34 :: rest) = 34 :: r := by
  simp only [yamlCut]
  split
  · exact ⟨_, rfl⟩
  · exact ⟨_, rfl⟩

theorem PlainKey.yamlContent (h : PlainKey key) (s : YamlState) (nested : Bool) (rest : Bytes) :
    yamlContent s nested (key ++ 58 :: rest) =
      if nested then
        if s.sectionName ≠ [] then
          { s with out := s.out.insert (s.sectionName ++ lit "." ++ key)
                    (yamlUnquote (yamlTrim rest)) }
        else s
      else if yamlTrim rest = [] then { s with sectionName := key }
      else ⟨[], s.out.insert key (yamlUnquote (yamlTrim rest))⟩ := by
  obtain ⟨htake, hdrop⟩ := takeWhile_colon h.noColon rest
  have hkey : yamlTrim key = key := trim_of_none h.noSpace
  have hmem : (58 : UInt8) ∈ key ++ 58 :: rest := by simp
  have hne : key ++ 58 :: rest ≠ [] := by simp
  simp only [PassiveScanner.yamlContent, hne, hmem, htake, hdrop, hkey, List.tail_cons, not_true,
    if_false]

theorem isYamlSpace_replicate (n : Nat) : ∀ x ∈ List.replicate n (32 : UInt8),
    isYamlSpace x = true := by
  intro x hx
  rw [List.eq_of_mem_replicate hx]
  decide

theorem yamlLine_entry (h : PlainKey key) (s : YamlState) (indent : Nat) (rest : Bytes) :
    yamlLine s (List.replicate indent 32 ++ (key ++ 58 :: 32 :: 34 :: rest)) =
      if indent ≠ 0 then
        if s.sectionName ≠ [] then
          { s with out := s.out.insert (s.sectionName ++ lit "." ++ key)
                    (yamlUnquote (yamlTrim (yamlCut (34 :: rest)))) }
        else s
      else ⟨[], s.out.insert key (yamlUnquote (yamlTrim (yamlCut (34 :: rest))))⟩ := by
  obtain ⟨r, hr⟩ := yamlCut_cons_quote rest
  have hcut : yamlCut (List.replicate indent 32 ++ (key ++ 58 :: 32 :: 34 :: rest)) =
      List.replicate indent 32 ++ (key ++ ([58, 32] ++ 34 :: r)) := by
    have hbefore : (35 : UInt8) ∉ List.replicate indent 32 ++ (key ++ [58, 32]) := by
      simpa using h.noHash
    have hline : List.replicate indent 32 ++ (key ++ 58 :: 32 :: 34 :: rest) =
        List.replicate indent 32 ++ (key ++ [58, 32]) ++ 34 :: rest := by simp
    rw [hline, yamlCut_quote hbefore, hr]
    simp
  have hcontent : yamlTrim (List.replicate indent 32 ++ (key ++ ([58, 32] ++ 34 :: r))) =
      key ++ 58 :: 32 :: 34 :: r.rdropWhile isYamlSpace := by
    rw [yamlTrim, trim_append_left (isYamlSpace_replicate indent), ← yamlTrim,
      h.yamlTrim_append (by decide)]
    rfl
  have hvalue : yamlTrim (32 :: 34 :: r.rdropWhile isYamlSpace) = yamlTrim (34 :: r) := by
    have hone : ∀ x ∈ [(32 : UInt8)], isYamlSpace x = true := isYamlSpace_replicate 1
    rw [yamlTrim, ← List.singleton_append, trim_append_left hone, trim_cons (by decide),
      List.rdropWhile_idempotent, yamlTrim, trim_cons (by decide)]
  have hne : yamlTrim (34 :: r) ≠ [] := by
    rw [yamlTrim, trim_cons (by decide)]
    exact List.cons_ne_nil _ _
  simp only [yamlLine, hcut, hcontent, h.yamlContent, hvalue, hr, hne, if_false]
  cases indent with
  | zero => simp [h.yamlNested]
  | succ n => simp [List.replicate_succ, PassiveScanner.yamlNested]

theorem yamlLine_section (h : PlainKey key) (s : YamlState) {line : Bytes} (spaces : Bytes)
    (hcut : yamlCut line = key ++ 58 :: spaces) (hspaces : ∀ x ∈ spaces, isYamlSpace x = true) :
    yamlLine s line = { s with sectionName := key } := by
  have hcontent : yamlTrim (key ++ 58 :: spaces) = key ++ [58] := by
    have htrim := h.yamlTrim_append (c := 58) (by decide) [] spaces
    rw [List.rdropWhile_eq_nil_iff.mpr hspaces] at htrim
    exact htrim
  have hnil : yamlTrim [] = [] := rfl
  simp only [yamlLine, hcut, hcontent, h.yamlContent, hnil, h.yamlNested, if_true,
    Bool.false_eq_true, if_false]

end line

end LinuxLive.PassiveScanner
