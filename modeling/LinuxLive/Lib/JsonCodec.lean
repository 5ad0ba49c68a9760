import LinuxLive.Lib.JsonText
import LinuxLive.Lib.JsonLex

/-!
# A reader and a writer of JSON texts

A pushdown parser over the tokens, its round trip with the writer, and from the two
the `JsonText` that shows the interface to be inhabited.  It also evaluates on the
texts of examples.
-/

namespace LinuxLive

namespace Json

/-! ## Words -/

/-- A digit string without a superfluous zero. -/
def readNat? (w : Bytes) : Option Nat :=
  if decimal (decimalVal w) = w then some (decimalVal w) else none

def readInt? (w : Bytes) : Option Int :=
  match w with
  | [] => none
  | b :: ds => if b = 45 then (readNat? ds).map fun n => -(n : Int) else (readNat? w).map Int.ofNat

def readFloat? (w : Bytes) : Option Json := do
  let m ← readInt? (w.takeWhile (· != 112))
  let e ← readInt? ((w.dropWhile (· != 112)).drop 1)
  some (.float m e)

def readWord? (w : Bytes) : Option Json :=
  if w = lit "null" then some .null
  else if w = lit "true" then some (.bool true)
  else if w = lit "false" then some (.bool false)
  else if w.contains 112 then readFloat? w
  else (readInt? w).bind ofInteger

theorem readNat?_decimal (n : Nat) : readNat? (decimal n) = some n := by
  simp [readNat?, decimalVal_decimal]

theorem readInt?_intText (n : Int) : readInt? (intText n) = some n := by
  unfold intText
  split
  · rename_i hneg
    calc
      readInt? (45 :: decimal n.natAbs) =
          (readNat? (decimal n.natAbs)).map fun k => -(k : Int) := rfl
      _ = some (-(n.natAbs : Int)) := by
        rw [readNat?_decimal]
        rfl
      _ = some n := congrArg some (by omega)
  · rename_i hnn
    cases hd : decimal n.natAbs with
    | nil => exact absurd hd (decimal_ne_nil _)
    | cons b ds =>
        have hb : isDigit b = true :=
          isDigit_of_mem_decimal (n := n.natAbs) (hd ▸ List.mem_cons_self)
        have hne : b ≠ 45 := by
          rintro rfl
          exact absurd hb (by decide)
        have hread : readNat? (b :: ds) = some n.natAbs := hd ▸ readNat?_decimal n.natAbs
        calc
          readInt? (b :: ds) = (readNat? (b :: ds)).map Int.ofNat := if_neg hne
          _ = some (n.natAbs : Int) := by
            rw [hread]
            rfl
          _ = some n := congrArg some (by omega)

private theorem not_digit_of_mem {c : UInt8} (hc : c ≠ 45) (hd : isDigit c = false) (n : Int) :
    c ∉ intText n := by
  intro hmem
  unfold intText at hmem
  split at hmem
  · rcases List.mem_cons.mp hmem with h | h
    · exact hc h
    · exact absurd (isDigit_of_mem_decimal h) (by simp [hd])
  · exact absurd (isDigit_of_mem_decimal hmem) (by simp [hd])

private theorem intText_ne_lit {n : Int} {w : Bytes} {c : UInt8} (hw : c ∈ w) (hc : c ≠ 45)
    (hd : isDigit c = false) : intText n ≠ w :=
  fun h => not_digit_of_mem hc hd n (h ▸ hw)

theorem readWord?_int (n : Int) : readWord? (intText n) = ofInteger n := by
  have hnull := intText_ne_lit (n := n) (w := lit "null") (c := 117)
    (by decide) (by decide) (by decide)
  have htrue := intText_ne_lit (n := n) (w := lit "true") (c := 117)
    (by decide) (by decide) (by decide)
  have hfalse := intText_ne_lit (n := n) (w := lit "false") (c := 97)
    (by decide) (by decide) (by decide)
  have hp : 112 ∉ intText n := not_digit_of_mem (by decide) (by decide) n
  simp [readWord?, hnull, htrue, hfalse, hp, readInt?_intText]

theorem readWord?_float (m e : Int) : readWord? (floatText m e) = some (.float m e) := by
  have hp : 112 ∈ floatText m e := by simp [floatText]
  have hnull : floatText m e ≠ lit "null" := fun h => absurd (h ▸ hp) (by decide)
  have htrue : floatText m e ≠ lit "true" := fun h => absurd (h ▸ hp) (by decide)
  have hfalse : floatText m e ≠ lit "false" := fun h => absurd (h ▸ hp) (by decide)
  have hall : ∀ b ∈ intText m, (b != 112) = true := by
    intro b hb
    have hne : b ≠ 112 := fun h => not_digit_of_mem (by decide) (by decide) m (h ▸ hb)
    simpa using hne
  have htake : (floatText m e).takeWhile (· != 112) = intText m := by
    simp [floatText, List.takeWhile_append_of_pos hall]
  have hdrop : ((floatText m e).dropWhile (· != 112)).drop 1 = intText e := by
    simp [floatText, List.dropWhile_append_of_pos hall]
  simp [readWord?, hnull, htrue, hfalse, hp, readFloat?, htake, hdrop, readInt?_intText]

/-! ## Parser -/

/-- An array or an object whose end has not been read. -/
inductive Frame where
  | arr (items : List Json)
  | obj (fields : List (Bytes × Json)) (key : Bytes)

inductive PState where
  | value (stack : List Frame)
  | first (stack : List Frame)
  | done (stack : List Frame) (v : Json)
  | firstKey (stack : List Frame)
  | key (stack : List Frame) (fields : List (Bytes × Json))
  | colon (stack : List Frame) (fields : List (Bytes × Json)) (key : Bytes)

def startValue (stack : List Frame) : Token → Option PState
  | .lbrack => some (.first stack)
  | .lbrace => some (.firstKey stack)
  | .str s => some (.done stack (.str s))
  | .word w => (readWord? w).map (.done stack)
  | _ => none

def parseStep : PState → Token → Option PState
  | .value st, t => startValue st t
  | .first st, .rbrack => some (.done st (.arr []))
  | .first st, t => startValue (.arr [] :: st) t
  | .done (.arr xs :: st) v, .comma => some (.value (.arr (xs ++ [v]) :: st))
  | .done (.arr xs :: st) v, .rbrack => some (.done st (.arr (xs ++ [v])))
  | .done (.obj fs k :: st) v, .comma => some (.key st (insertField k v fs))
  | .done (.obj fs k :: st) v, .rbrace => some (.done st (.obj (insertField k v fs)))
  | .firstKey st, .rbrace => some (.done st (.obj []))
  | .firstKey st, .str k => some (.colon st [] k)
  | .key st fs, .str k => some (.colon st fs k)
  | .colon st fs k, .colon => some (.value (.obj fs k :: st))
  | _, _ => none

def parseTokens (ts : List Token) : Option Json :=
  match ts.foldlM parseStep (.value []) with
  | some (.done [] v) => some v
  | _ => none

/-- A text is read when its value is one the library can hold. -/
def read (t : Bytes) : Option Json :=
  match (lex t).bind parseTokens with
  | some j => if j.utf8 && j.canonical then some j else none
  | none => none

def write (indent : Option Nat) (j : Json) : Option Bytes :=
  if j.utf8 then some (render indent 0 j) else none

/-- The parser passes over the tokens of `j` as one value, whatever is open around it. -/
def Parses (j : Json) : Prop :=
  ∀ st ts, (tokens j ++ ts).foldlM parseStep (.value st) = ts.foldlM parseStep (.done st j)

private theorem foldlM_first {j : Json} {st : List Frame} {ts : List Token} :
    (tokens j ++ ts).foldlM parseStep (.first st) =
      (tokens j ++ ts).foldlM parseStep (.value (.arr [] :: st)) := by
  have hstep : ∀ t, t ≠ .rbrack → parseStep (.first st) t = parseStep (.value (.arr [] :: st)) t := by
    intro t ht
    cases t <;> first | rfl | exact absurd rfl ht
  cases j with
  | bool b => cases b <;> simp [tokens, hstep]
  | arr xs => cases xs <;> simp [tokens, hstep]
  | obj fs => cases fs <;> simp [tokens, hstep]
  | _ => simp [tokens, hstep]

theorem foldlM_itemTokens {xs : List Json} (h : ∀ x ∈ xs, Parses x) (done : List Json) (v : Json)
    (st : List Frame) (ts : List Token) :
    (itemTokens xs ++ ts).foldlM parseStep (.done (.arr done :: st) v) =
      ts.foldlM parseStep (.done st (.arr (done ++ v :: xs))) := by
  induction xs generalizing done v with
  | nil => simp [itemTokens, parseStep]
  | cons x xs ih =>
      have hx := h x List.mem_cons_self (.arr (done ++ [v]) :: st) (itemTokens xs ++ ts)
      have hrec := ih (fun y hy => h y (List.mem_cons_of_mem x hy)) (done ++ [v]) x
      simp only [itemTokens, List.cons_append, List.append_assoc, List.foldlM_cons, parseStep,
        Option.bind_eq_bind, Option.bind_some]
      rw [hx, hrec]
      simp

theorem foldlM_fieldTokens {fs : List (Bytes × Json)} (h : ∀ kv ∈ fs, Parses kv.2)
    (done : List (Bytes × Json)) (k : Bytes) (v : Json)
    (hsorted : SortedKeys (done ++ (k, v) :: fs)) (st : List Frame) (ts : List Token) :
    (fieldTokens fs ++ ts).foldlM parseStep (.done (.obj done k :: st) v) =
      ts.foldlM parseStep (.done st (.obj (done ++ (k, v) :: fs))) := by
  induction fs generalizing done k v with
  | nil =>
      have hins : insertField k v done = done ++ [(k, v)] := by
        apply insertField_of_forall_lt
        intro kv hkv
        exact (List.pairwise_append.mp hsorted).2.2 kv hkv (k, v) (by simp)
      simp [fieldTokens, parseStep, hins]
  | cons kv fs ih =>
      obtain ⟨k', v'⟩ := kv
      have hins : insertField k v done = done ++ [(k, v)] := by
        apply insertField_of_forall_lt
        intro kv hkv
        exact (List.pairwise_append.mp hsorted).2.2 kv hkv (k, v) (by simp)
      have hv := h (k', v') List.mem_cons_self (.obj (done ++ [(k, v)]) k' :: st)
        (fieldTokens fs ++ ts)
      have hrec := ih (fun kv hkv => h kv (List.mem_cons_of_mem _ hkv)) (done ++ [(k, v)]) k' v'
        (by simpa using hsorted)
      simp only [fieldTokens, List.cons_append, List.append_assoc, List.foldlM_cons, parseStep,
        Option.bind_eq_bind, Option.bind_some, hins]
      rw [hv, hrec]
      simp

theorem parses (j : Json) (h : j.canonical = true) : Parses j := by
  induction j using induct with
  | null => exact fun st ts => rfl
  | bool b => cases b <;> exact fun st ts => rfl
  | int n =>
      intro st ts
      have hword : readWord? (intText n) = some (.int n) :=
        (readWord?_int n).trans (ofInteger_of_fits (of_decide_eq_true h))
      simp [tokens, parseStep, startValue, hword]
  | float m e =>
      intro st ts
      simp [tokens, parseStep, startValue, readWord?_float]
  | str s => exact fun st ts => rfl
  | arr xs ih =>
      intro st ts
      have hxs := fun x hx => ih x hx (canonical_arr.mp h x hx)
      cases xs with
      | nil => rfl
      | cons x xs =>
          have hx := hxs x List.mem_cons_self (.arr [] :: st) (itemTokens xs ++ ts)
          have hrest := foldlM_itemTokens (fun y hy => hxs y (List.mem_cons_of_mem x hy)) [] x st ts
          simp only [tokens, List.cons_append, List.append_assoc, List.foldlM_cons, parseStep,
            startValue, Option.bind_eq_bind, Option.bind_some]
          rw [foldlM_first, hx, hrest]
          rfl
  | obj fs ih =>
      intro st ts
      obtain ⟨hnode, hall⟩ := all_obj.mp h
      have hfs := fun kv hkv => ih kv hkv (hall kv hkv)
      cases fs with
      | nil => rfl
      | cons kv fs =>
          obtain ⟨k, v⟩ := kv
          have hv := hfs (k, v) List.mem_cons_self (.obj [] k :: st) (fieldTokens fs ++ ts)
          have hrest := foldlM_fieldTokens (fun kv hkv => hfs kv (List.mem_cons_of_mem _ hkv))
            [] k v (by simpa [canonicalNode] using hnode) st ts
          simp only [tokens, List.cons_append, List.append_assoc, List.foldlM_cons, parseStep,
            startValue, Option.bind_eq_bind, Option.bind_some]
          rw [hv, hrest]
          rfl

theorem parseTokens_tokens {j : Json} (h : j.canonical = true) :
    parseTokens (tokens j) = some j := by
  have hrun := parses j h [] []
  rw [List.append_nil] at hrun
  simp [parseTokens, hrun]

theorem read_render {j : Json} (indent : Option Nat) (hu : j.utf8 = true)
    (hc : j.canonical = true) : read (render indent 0 j) = some j := by
  simp [read, lex_render, parseTokens_tokens hc, hu, hc]

theorem read_intText (n : Int) : read (intText n) = ofInteger n := by
  have hlex : lex (intText n) = some [.word (intText n)] := by
    have hword := lex_word (t := []) (intText_ne_nil n) (fun b hb => isDelim_of_mem_intText hb)
      (by simp [Boundary])
    rwa [List.append_nil] at hword
  rw [read, hlex, Option.bind_some, parseTokens, List.foldlM_cons, parseStep, startValue,
    readWord?_int]
  cases hn : ofInteger n with
  | none => rfl
  | some v =>
      have hutf8 := utf8_ofInteger hn
      have hcanonical := canonical_ofInteger hn
      simp [hutf8, hcanonical]

theorem of_read {t : Bytes} {j : Json} (h : read t = some j) :
    j.utf8 = true ∧ j.canonical = true := by
  unfold read at h
  split at h
  · split at h
    · rename_i hj
      cases h
      simpa using hj
    · cases h
  · cases h

/-- The reader and the writer of this module as the two sides of a JSON library. -/
def codec : JsonText where
  parse := read
  dump := write
  dump_isSome := by
    intro indent j
    cases h : j.utf8 <;> simp [write, h]
  parse_dump := by
    intro indent j t hc h
    unfold write at h
    split at h
    · rename_i hu
      cases h
      exact read_render indent hu hc
    · cases h
  parse_utf8 := fun _ _ h => (of_read h).1
  parse_canonical := fun _ _ h => (of_read h).2
  parse_int := read_intText
  parse_nil := rfl

/-! ## Written texts -/

/-- A property of texts that a written value has because its pieces have it. -/
structure Composed (P : Bytes → Prop) : Prop where
  plain : ∀ s, (∀ b ∈ s, 0 < b ∧ b ≤ 0x7F) → P s
  append : ∀ s t, P s → P t → P (s ++ t)
  quote : ∀ s, LinuxLive.utf8 s = true → P (quote s)

theorem plain_intText {n : Int} {b : UInt8} (hb : b ∈ intText n) : 0 < b ∧ b ≤ 0x7F := by
  have hdecimal : ∀ m, b ∈ decimal m → 0 < b ∧ b ≤ 0x7F := by
    intro m hm
    obtain ⟨hlow, hhigh⟩ := isDigit_le (isDigit_of_mem_decimal hm)
    exact ⟨UInt8.lt_of_lt_of_le (by decide) hlow, UInt8.le_trans hhigh (by decide)⟩
  unfold intText at hb
  split at hb
  · rcases List.mem_cons.mp hb with rfl | hb
    · decide
    · exact hdecimal _ hb
  · exact hdecimal _ hb

theorem plain_floatText {m e : Int} {b : UInt8} (hb : b ∈ floatText m e) : 0 < b ∧ b ≤ 0x7F := by
  rcases List.mem_append.mp hb with hb | hb
  · exact plain_intText hb
  · rcases List.mem_cons.mp hb with rfl | hb
    · decide
    · exact plain_intText hb

theorem plain_newline {indent : Option Nat} {depth : Nat} {b : UInt8}
    (hb : b ∈ newline indent depth) : 0 < b ∧ b ≤ 0x7F := by
  cases indent with
  | none => cases hb
  | some width =>
      rcases List.mem_cons.mp hb with rfl | hb
      · decide
      · rw [List.eq_of_mem_replicate hb]
        decide

theorem plain_afterColon {indent : Option Nat} {b : UInt8} (hb : b ∈ afterColon indent) :
    0 < b ∧ b ≤ 0x7F := by
  cases indent with
  | none => cases hb
  | some width =>
      rw [List.mem_singleton.mp hb]
      decide

section composed

variable {P : Bytes → Prop} {indent : Option Nat}

theorem Composed.literal (hP : Composed P) {s : Bytes}
    (hs : (s.all fun b => decide (0 < b ∧ b ≤ 0x7F)) = true) : P s :=
  hP.plain s (by simpa using hs)

theorem Composed.cons (hP : Composed P) {b : UInt8} {s : Bytes} (hb : 0 < b ∧ b ≤ 0x7F)
    (hs : P s) : P (b :: s) :=
  hP.append [b] s (hP.plain [b] (by simpa using hb)) hs

theorem Composed.newline (hP : Composed P) (indent : Option Nat) (depth : Nat) {s : Bytes}
    (hs : P s) : P (Json.newline indent depth ++ s) :=
  hP.append _ s (hP.plain _ fun _ hb => plain_newline hb) hs

theorem Composed.field (hP : Composed P) {k v s : Bytes} (hk : LinuxLive.utf8 k = true) (hv : P v)
    (hs : P s) : P (Json.quote k ++ 58 :: (afterColon indent ++ (v ++ s))) := by
  have hrest := hP.append _ _ hv hs
  have hcolon := hP.append (afterColon indent) _ (hP.plain _ fun _ hb => plain_afterColon hb) hrest
  exact hP.append _ _ (hP.quote k hk) (hP.cons (by decide) hcolon)

theorem Composed.renderItems (hP : Composed P) {xs : List Json}
    (h : ∀ x ∈ xs, ∀ depth, P (render indent depth x)) (depth : Nat) :
    P (renderItems indent depth xs) := by
  induction xs with
  | nil => exact hP.newline indent depth (hP.literal (by decide))
  | cons x xs ih =>
      have hrest := ih fun y hy => h y (List.mem_cons_of_mem x hy)
      have hx := h x List.mem_cons_self (depth + 1)
      rw [Json.renderItems]
      exact hP.cons (by decide) (hP.newline indent (depth + 1) (hP.append _ _ hx hrest))

theorem Composed.renderFields (hP : Composed P) {fs : List (Bytes × Json)}
    (h : ∀ kv ∈ fs, LinuxLive.utf8 kv.1 = true ∧ ∀ depth, P (render indent depth kv.2))
    (depth : Nat) : P (renderFields indent depth fs) := by
  induction fs with
  | nil => exact hP.newline indent depth (hP.literal (by decide))
  | cons kv fs ih =>
      have hrest := ih fun kv hkv => h kv (List.mem_cons_of_mem _ hkv)
      obtain ⟨hk, hv⟩ := h kv List.mem_cons_self
      rw [Json.renderFields]
      exact hP.cons (by decide) (hP.newline indent (depth + 1) (hP.field hk (hv _) hrest))

theorem Composed.render (hP : Composed P) (j : Json) (hu : j.utf8 = true) :
    ∀ depth, P (render indent depth j) := by
  induction j using induct with
  | null =>
      intro depth
      rw [Json.render]
      exact hP.literal (by decide)
  | bool b =>
      intro depth
      cases b <;>
      · rw [Json.render]
        exact hP.literal (by decide)
  | int n =>
      intro depth
      rw [Json.render]
      exact hP.plain _ fun _ hb => plain_intText hb
  | float m e =>
      intro depth
      rw [Json.render]
      exact hP.plain _ fun _ hb => plain_floatText hb
  | str s =>
      intro depth
      rw [Json.render]
      exact hP.quote s hu
  | arr xs ih =>
      intro depth
      have hxs : ∀ x ∈ xs, ∀ depth, P (Json.render indent depth x) :=
        fun x hx => ih x hx (utf8_arr.mp hu x hx)
      cases xs with
      | nil =>
          rw [Json.render]
          exact hP.literal (by decide)
      | cons x xs =>
          have hrest := hP.renderItems (fun y hy => hxs y (List.mem_cons_of_mem x hy)) depth
          have hx := hxs x List.mem_cons_self (depth + 1)
          rw [Json.render]
          exact hP.cons (by decide) (hP.newline indent (depth + 1) (hP.append _ _ hx hrest))
  | obj fs ih =>
      intro depth
      have hfs : ∀ kv ∈ fs, LinuxLive.utf8 kv.1 = true ∧
          ∀ depth, P (Json.render indent depth kv.2) := by
        intro kv hkv
        obtain ⟨hk, hv⟩ := utf8_obj.mp hu kv hkv
        exact ⟨hk, ih kv hkv hv⟩
      cases fs with
      | nil =>
          rw [Json.render]
          exact hP.literal (by decide)
      | cons kv fs =>
          have hrest := hP.renderFields (fun kv hkv => hfs kv (List.mem_cons_of_mem _ hkv)) depth
          obtain ⟨hk, hv⟩ := hfs kv List.mem_cons_self
          rw [Json.render]
          exact hP.cons (by decide) (hP.newline indent (depth + 1) (hP.field hk (hv _) hrest))

theorem Composed.dump (hP : Composed P) {j : Json} {t : Bytes} (h : codec.dump indent j = some t) :
    P t := by
  have hwrite : write indent j = some t := h
  unfold write at hwrite
  split at hwrite
  · rename_i hu
    cases hwrite
    exact hP.render j hu 0
  · cases hwrite

end composed

theorem zero_notMem_escapeByte (b : UInt8) : 0 ∉ escapeByte b := by
  have hall : ∀ n : Fin 256, 0 ∉ escapeByte (UInt8.ofNat n) := by decide +kernel
  have h := hall ⟨b.toNat, b.toNat_lt⟩
  rwa [UInt8.ofNat_toNat] at h

theorem codec_escapesNul : codec.EscapesNul := by
  have hcomposed : Composed fun s => 0 ∉ s := {
    plain := fun s hs hzero => absurd (hs 0 hzero).1 (by decide)
    append := fun s t hs ht => by simp [hs, ht]
    quote := fun s _ => by simp [quote, zero_notMem_escapeByte] }
  intro indent j t h
  exact hcomposed.dump h

/-- Escapes are plain characters and stand for plain characters. -/
theorem escapeByte_cases (b : UInt8) :
    escapeByte b = [b] ∨ b ≤ 0x7F ∧ escapeByte b ≠ [] ∧ ∀ c ∈ escapeByte b, c ≤ 0x7F := by
  have hall : ∀ n : Fin 256, escapeByte (UInt8.ofNat n) = [UInt8.ofNat n] ∨
      UInt8.ofNat n ≤ 0x7F ∧ escapeByte (UInt8.ofNat n) ≠ [] ∧
        ∀ c ∈ escapeByte (UInt8.ofNat n), c ≤ 0x7F := by decide +kernel
  have h := hall ⟨b.toNat, b.toNat_lt⟩
  rwa [UInt8.ofNat_toNat] at h

/-- An escaped byte takes the automaton where the byte does. -/
theorem foldlM_escapeByte (state : Utf8.State) (b : UInt8) :
    (escapeByte b).foldlM Utf8.step state = Utf8.step state b := by
  rcases escapeByte_cases b with h | ⟨hb, hne, hplain⟩
  · rw [h, List.foldlM_cons]
    cases Utf8.step state b <;> rfl
  · rw [Utf8.step_of_ascii hb]
    by_cases hstart : state = .start
    · rw [if_pos hstart, hstart]
      exact utf8_iff.mp (utf8_of_ascii hplain)
    · obtain ⟨c, cs, hcons⟩ := List.exists_cons_of_ne_nil hne
      have hc : c ≤ 0x7F := hplain c (hcons ▸ List.mem_cons_self)
      rw [if_neg hstart, hcons, List.foldlM_cons, Utf8.step_of_ascii hc, if_neg hstart]
      rfl

theorem utf8_quote {s : Bytes} (h : LinuxLive.utf8 s = true) :
    LinuxLive.utf8 (quote s) = true := by
  have hescaped : ∀ state, (s.flatMap escapeByte).foldlM Utf8.step state =
      s.foldlM Utf8.step state := by
    clear h
    induction s with
    | nil => exact fun state => rfl
    | cons b s ih =>
        intro state
        rw [List.flatMap_cons, List.foldlM_append, foldlM_escapeByte, List.foldlM_cons]
        exact congrArg _ (funext ih)
  have hbody : LinuxLive.utf8 (s.flatMap escapeByte) = true := by
    rw [utf8_iff, hescaped]
    exact utf8_iff.mp h
  have hopen : LinuxLive.utf8 (34 :: s.flatMap escapeByte) = true :=
    (utf8_append (s := [34]) (by decide)).trans hbody
  rw [quote, ← List.cons_append, utf8_append hopen]
  decide

theorem codec_writesUtf8 : codec.WritesUtf8 := by
  have hcomposed : Composed fun s => LinuxLive.utf8 s = true := {
    plain := fun s hs => utf8_of_ascii fun b hb => (hs b hb).2
    append := fun s t hs ht => (utf8_append hs).trans ht
    quote := fun s hs => utf8_quote hs }
  intro indent j t h
  exact hcomposed.dump h

example : codec.parse (lit "[\"REQ\", \"s\", \x7b\"kinds\": [42]\x7d]") =
    some (.arr [.str (lit "REQ"), .str (lit "s"),
      .obj [(lit "kinds", .arr [.int 42])]]) := rfl

end Json

end LinuxLive
