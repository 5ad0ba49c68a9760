import LinuxLive.Lib.JsonInteger

/-!
# Tokens of a JSON text

A writer with an optional indentation, a lexer that runs over the text one byte at
a time, and the theorem that the lexer finds in a written text the tokens of the
value: white space between tokens does not matter and escapes are undone.
-/

namespace LinuxLive

namespace Json

inductive Token where
  | lbrack
  | rbrack
  | lbrace
  | rbrace
  | comma
  | colon
  | str (s : Bytes)
  /-- A number, `true`, `false` or `null`. -/
  | word (w : Bytes)
  deriving DecidableEq, Repr

/-! ## Lexer -/

inductive Mode where
  | start
  | word (w : Bytes)
  | str (s : Bytes)
  | escape (s : Bytes)
  | hex (s : Bytes) (digits : List Nat)
  deriving DecidableEq, Repr

def punct? (b : UInt8) : Option Token :=
  if b = 91 then some .lbrack
  else if b = 93 then some .rbrack
  else if b = 123 then some .lbrace
  else if b = 125 then some .rbrace
  else if b = 44 then some .comma
  else if b = 58 then some .colon
  else none

def isSpace (b : UInt8) : Bool := b == 32 || b == 10 || b == 13 || b == 9

/-- The bytes that end a word. -/
def isDelim (b : UInt8) : Bool := isSpace b || (punct? b).isSome || b == 34

/-- One byte between two tokens. -/
def begin (b : UInt8) : List Token × Mode :=
  if isSpace b then ([], .start)
  else
    match punct? b with
    | some t => ([t], .start)
    | none => if b = 34 then ([], .str []) else ([], .word [b])

def unescape? (b : UInt8) : Option UInt8 :=
  if b = 34 ∨ b = 92 ∨ b = 47 then some b
  else if b = 98 then some 8
  else if b = 102 then some 12
  else if b = 110 then some 10
  else if b = 114 then some 13
  else if b = 116 then some 9
  else none

/-- The bytes of a `\u` escape; a half of a surrogate pair is refused. -/
def codeUnit? (v : Nat) : Option Bytes :=
  if v.isValidChar then some (String.utf8EncodeChar (Char.ofNat v)) else none

def advance : Mode → UInt8 → Option (List Token × Mode)
  | .start, b => some (begin b)
  | .word w, b =>
      if isDelim b then some (.word w :: (begin b).1, (begin b).2)
      else some ([], .word (w ++ [b]))
  | .str s, b =>
      if b = 34 then some ([.str s], .start)
      else if b = 92 then some ([], .escape s)
      else if b < 32 then none
      else some ([], .str (s ++ [b]))
  | .escape s, b =>
      if b = 117 then some ([], .hex s [])
      else (unescape? b).map fun c => ([], .str (s ++ [c]))
  | .hex s [d₁, d₂, d₃], b => do
      let d₄ ← hexVal? b
      let c ← codeUnit? (((d₁ * 16 + d₂) * 16 + d₃) * 16 + d₄)
      some ([], .str (s ++ c))
  | .hex s ds, b => (hexVal? b).map fun d => ([], .hex s (ds ++ [d]))

/-- The tokens of a text that is read from `mode` on. -/
def lexFrom : Mode → Bytes → Option (List Token)
  | .start, [] => some []
  | .word w, [] => some [.word w]
  | _, [] => none
  | mode, b :: bs =>
      match advance mode b with
      | none => none
      | some (ts, mode') => (lexFrom mode' bs).map (ts ++ ·)

def lex (s : Bytes) : Option (List Token) := lexFrom .start s

def Boundary (t : Bytes) : Prop := ∀ b ∈ t.head?, isDelim b = true

theorem lexFrom_cons {mode mode' : Mode} {b : UInt8} {ts : List Token} (bs : Bytes)
    (h : advance mode b = some (ts, mode')) :
    lexFrom mode (b :: bs) = (lexFrom mode' bs).map (ts ++ ·) := by
  cases mode <;> simp [lexFrom, h]

theorem lex_punct {b : UInt8} {t : Token} {bs : Bytes} (hs : isSpace b = false)
    (h : punct? b = some t) : lex (b :: bs) = (lex bs).map (t :: ·) := by
  have hadv : advance .start b = some ([t], .start) := by simp [advance, begin, hs, h]
  exact lexFrom_cons bs hadv

theorem lex_space {b : UInt8} {bs : Bytes} (h : isSpace b = true) : lex (b :: bs) = lex bs := by
  have hadv : advance .start b = some ([], .start) := by simp [advance, begin, h]
  simpa [lex] using lexFrom_cons bs hadv

theorem lex_spaces {s t : Bytes} (h : ∀ b ∈ s, isSpace b = true) : lex (s ++ t) = lex t := by
  induction s with
  | nil => rfl
  | cons b s ih =>
      rw [List.cons_append, lex_space (h b List.mem_cons_self)]
      exact ih fun c hc => h c (List.mem_cons_of_mem b hc)

theorem lexFrom_word {w : Bytes} {t : Bytes} (ht : Boundary t) :
    lexFrom (.word w) t = (lex t).map (.word w :: ·) := by
  cases t with
  | nil => rfl
  | cons b bs =>
      have hd : isDelim b = true := ht b rfl
      have hadv : advance (.word w) b = some (.word w :: (begin b).1, (begin b).2) := by
        simp [advance, hd]
      have hstart : advance .start b = some ((begin b).1, (begin b).2) := rfl
      rw [lexFrom_cons bs hadv, lex, lexFrom_cons bs hstart]
      cases lexFrom (begin b).2 bs <;> simp

theorem lexFrom_bare {w s t : Bytes} (hs : ∀ b ∈ s, isDelim b = false) :
    lexFrom (.word w) (s ++ t) = lexFrom (.word (w ++ s)) t := by
  induction s generalizing w with
  | nil => simp
  | cons b s ih =>
      have hb : isDelim b = false := hs b List.mem_cons_self
      have hadv : advance (.word w) b = some ([], .word (w ++ [b])) := by simp [advance, hb]
      rw [List.cons_append, lexFrom_cons _ hadv, ih fun c hc => hs c (List.mem_cons_of_mem b hc)]
      simp

theorem lex_word {w t : Bytes} (hne : w ≠ []) (hw : ∀ b ∈ w, isDelim b = false)
    (ht : Boundary t) : lex (w ++ t) = (lex t).map (.word w :: ·) := by
  cases w with
  | nil => exact absurd rfl hne
  | cons b w =>
      have hb : isDelim b = false := hw b List.mem_cons_self
      have hadv : advance .start b = some ([], .word [b]) := by
        simp only [isDelim, Bool.or_eq_false_iff, Option.isSome_eq_false_iff,
          Option.isNone_iff_eq_none, beq_eq_false_iff_ne] at hb
        simp [advance, begin, hb]
      rw [List.cons_append, lex, lexFrom_cons _ hadv,
        lexFrom_bare fun c hc => hw c (List.mem_cons_of_mem b hc), lexFrom_word ht]
      cases lex t <;> simp

theorem lex_keyword {w t : Bytes} (hw : (!w.isEmpty && w.all fun b => !isDelim b) = true)
    (ht : Boundary t) : lex (w ++ t) = (lex t).map (.word w :: ·) := by
  rw [Bool.and_eq_true, List.all_eq_true] at hw
  refine lex_word ?_ (fun b hb => by simpa using hw.2 b hb) ht
  intro hnil
  simp [hnil] at hw

/-! ## Writer -/

def escapeByte (b : UInt8) : Bytes :=
  if b = 34 then [92, 34]
  else if b = 92 then [92, 92]
  else if b = 8 then [92, 98]
  else if b = 12 then [92, 102]
  else if b = 10 then [92, 110]
  else if b = 13 then [92, 114]
  else if b = 9 then [92, 116]
  else if b < 32 then [92, 117, 48, 48, hexDigit (b.toNat / 16), hexDigit (b.toNat % 16)]
  else [b]

def quote (s : Bytes) : Bytes := 34 :: (s.flatMap escapeByte ++ [34])

/-- The text of a double, as its two integers; not the decimal text of the standard. -/
def floatText (m e : Int) : Bytes := intText m ++ 112 :: intText e

/-- The line break in front of an item at a nesting depth. -/
def newline (indent : Option Nat) (depth : Nat) : Bytes :=
  match indent with
  | none => []
  | some width => 10 :: List.replicate (width * depth) 32

def afterColon : Option Nat → Bytes
  | none => []
  | some _ => [32]

mutual

def render (indent : Option Nat) (depth : Nat) : Json → Bytes
  | .null => lit "null"
  | .bool true => lit "true"
  | .bool false => lit "false"
  | .int n => intText n
  | .float m e => floatText m e
  | .str s => quote s
  | .arr [] => [91, 93]
  | .arr (x :: xs) =>
      91 :: (newline indent (depth + 1) ++ (render indent (depth + 1) x ++
        renderItems indent depth xs))
  | .obj [] => [123, 125]
  | .obj ((k, v) :: fs) =>
      123 :: (newline indent (depth + 1) ++ (quote k ++ (58 :: (afterColon indent ++
        (render indent (depth + 1) v ++ renderFields indent depth fs)))))

def renderItems (indent : Option Nat) (depth : Nat) : List Json → Bytes
  | [] => newline indent depth ++ [93]
  | x :: xs =>
      44 :: (newline indent (depth + 1) ++ (render indent (depth + 1) x ++
        renderItems indent depth xs))

def renderFields (indent : Option Nat) (depth : Nat) : List (Bytes × Json) → Bytes
  | [] => newline indent depth ++ [125]
  | (k, v) :: fs =>
      44 :: (newline indent (depth + 1) ++ (quote k ++ (58 :: (afterColon indent ++
        (render indent (depth + 1) v ++ renderFields indent depth fs)))))

end

mutual

def tokens : Json → List Token
  | .null => [.word (lit "null")]
  | .bool true => [.word (lit "true")]
  | .bool false => [.word (lit "false")]
  | .int n => [.word (intText n)]
  | .float m e => [.word (floatText m e)]
  | .str s => [.str s]
  | .arr [] => [.lbrack, .rbrack]
  | .arr (x :: xs) => .lbrack :: (tokens x ++ itemTokens xs)
  | .obj [] => [.lbrace, .rbrace]
  | .obj ((k, v) :: fs) => .lbrace :: .str k :: .colon :: (tokens v ++ fieldTokens fs)

def itemTokens : List Json → List Token
  | [] => [.rbrack]
  | x :: xs => .comma :: (tokens x ++ itemTokens xs)

def fieldTokens : List (Bytes × Json) → List Token
  | [] => [.rbrace]
  | (k, v) :: fs => .comma :: .str k :: .colon :: (tokens v ++ fieldTokens fs)

end

/-! ## Strings -/

private theorem codeUnit?_ascii : ∀ b : Fin 32, codeUnit? b = some [UInt8.ofNat b] := by decide

theorem lexFrom_escapeByte (s : Bytes) (b : UInt8) (t : Bytes) :
    lexFrom (.str s) (escapeByte b ++ t) = lexFrom (.str (s ++ [b])) t := by
  have two : ∀ c d : UInt8, c ≠ 117 → unescape? c = some d →
      lexFrom (.str s) (92 :: c :: t) = lexFrom (.str (s ++ [d])) t := by
    intro c d hc hd
    have h₁ : advance (.str s) 92 = some ([], .escape s) := by simp [advance]
    have h₂ : advance (.escape s) c = some ([], .str (s ++ [d])) := by simp [advance, hc, hd]
    rw [lexFrom_cons _ h₁, lexFrom_cons _ h₂]
    simp
  unfold escapeByte
  split
  · rename_i h; subst h; exact two 34 34 (by decide) rfl
  split
  · rename_i h; subst h; exact two 92 92 (by decide) rfl
  split
  · rename_i h; subst h; exact two 98 8 (by decide) rfl
  split
  · rename_i h; subst h; exact two 102 12 (by decide) rfl
  split
  · rename_i h; subst h; exact two 110 10 (by decide) rfl
  split
  · rename_i h; subst h; exact two 114 13 (by decide) rfl
  split
  · rename_i h; subst h; exact two 116 9 (by decide) rfl
  split
  · rename_i hlt
    have hb : b.toNat < 32 := UInt8.lt_iff_toNat_lt.mp hlt
    have hhi := hexVal?_hexDigit (b.toNat / 16) (by omega)
    have hlo := hexVal?_hexDigit (b.toNat % 16) (by omega)
    have hunit : codeUnit? (((0 * 16 + 0) * 16 + b.toNat / 16) * 16 + b.toNat % 16) = some [b] := by
      have hc := codeUnit?_ascii ⟨b.toNat, hb⟩
      rw [show ((0 * 16 + 0) * 16 + b.toNat / 16) * 16 + b.toNat % 16 = b.toNat by omega]
      simpa using hc
    have h₁ : advance (.str s) 92 = some ([], .escape s) := by simp [advance]
    have h₂ : advance (.escape s) 117 = some ([], .hex s []) := by simp [advance]
    have h₃ : advance (.hex s []) 48 = some ([], .hex s [0]) := by simp [advance, hexVal?]
    have h₄ : advance (.hex s [0]) 48 = some ([], .hex s [0, 0]) := by simp [advance, hexVal?]
    have h₅ : advance (.hex s [0, 0]) (hexDigit (b.toNat / 16)) =
        some ([], .hex s [0, 0, b.toNat / 16]) := by simp [advance, hhi]
    have h₆ : advance (.hex s [0, 0, b.toNat / 16]) (hexDigit (b.toNat % 16)) =
        some ([], .str (s ++ [b])) := by
      simp only [advance, hlo, hunit, Option.bind_eq_bind, Option.bind_some]
    simp only [List.cons_append, List.nil_append]
    rw [lexFrom_cons _ h₁, lexFrom_cons _ h₂, lexFrom_cons _ h₃, lexFrom_cons _ h₄, lexFrom_cons _ h₅,
      lexFrom_cons _ h₆]
    simp
  · rename_i hquote hback _ _ _ _ _ hlt
    have hadv : advance (.str s) b = some ([], .str (s ++ [b])) := by
      simp [advance, hquote, hback, hlt]
    rw [List.cons_append, lexFrom_cons _ hadv]
    simp

theorem lexFrom_escaped (s u : Bytes) (t : Bytes) :
    lexFrom (.str s) (u.flatMap escapeByte ++ t) = lexFrom (.str (s ++ u)) t := by
  induction u generalizing s with
  | nil => simp
  | cons b u ih =>
      rw [List.flatMap_cons, List.append_assoc, lexFrom_escapeByte, ih]
      simp

theorem lex_quote (s t : Bytes) : lex (quote s ++ t) = (lex t).map (.str s :: ·) := by
  have hopen : advance .start 34 = some ([], .str []) := rfl
  have hclose : advance (.str s) 34 = some ([.str s], .start) := by simp [advance]
  rw [quote, List.cons_append, List.append_assoc, lex, lexFrom_cons _ hopen, lexFrom_escaped]
  rw [List.cons_append, List.nil_append, List.nil_append, lexFrom_cons _ hclose]
  cases h : lexFrom .start t <;> simp [lex, h]

/-! ## Numbers -/

theorem isDelim_of_isDigit {b : UInt8} (h : isDigit b = true) : isDelim b = false := by
  obtain ⟨hlo, hhi⟩ := isDigit_le h
  have hn : 48 ≤ b.toNat ∧ b.toNat ≤ 57 := ⟨UInt8.le_iff_toNat_le.mp hlo, UInt8.le_iff_toNat_le.mp hhi⟩
  have hne : ∀ c : UInt8, (c.toNat < 48 ∨ 57 < c.toNat) → b ≠ c := by
    rintro c hc rfl
    omega
  simp [isDelim, isSpace, punct?, hne]

theorem isDelim_of_mem_intText {n : Int} {b : UInt8} (hb : b ∈ intText n) : isDelim b = false := by
  unfold intText at hb
  split at hb
  · rcases List.mem_cons.mp hb with rfl | hb
    · rfl
    · exact isDelim_of_isDigit (isDigit_of_mem_decimal hb)
  · exact isDelim_of_isDigit (isDigit_of_mem_decimal hb)

theorem intText_ne_nil (n : Int) : intText n ≠ [] := by
  unfold intText
  split
  · simp
  · exact decimal_ne_nil _

theorem isDelim_of_mem_floatText {m e : Int} {b : UInt8} (hb : b ∈ floatText m e) :
    isDelim b = false := by
  rcases List.mem_append.mp hb with hb | hb
  · exact isDelim_of_mem_intText hb
  · rcases List.mem_cons.mp hb with rfl | hb
    · rfl
    · exact isDelim_of_mem_intText hb

/-! ## Values -/

private theorem isSpace_of_mem_newline {indent : Option Nat} {depth : Nat} {b : UInt8}
    (hb : b ∈ newline indent depth) : isSpace b = true := by
  cases indent with
  | none => simp [newline] at hb
  | some width =>
      rcases List.mem_cons.mp hb with rfl | hb
      · rfl
      · rw [List.eq_of_mem_replicate hb]
        rfl

private theorem isSpace_of_mem_afterColon {indent : Option Nat} {b : UInt8}
    (hb : b ∈ afterColon indent) : isSpace b = true := by
  cases indent with
  | none => simp [afterColon] at hb
  | some width =>
      rw [List.mem_singleton.mp hb]
      rfl

private theorem boundary_cons {b : UInt8} {t : Bytes} (h : isDelim b = true) : Boundary (b :: t) := by
  intro c hc
  cases hc
  exact h

private theorem boundary_newline (indent : Option Nat) (depth : Nat) {b : UInt8} {t : Bytes}
    (h : isDelim b = true) : Boundary (newline indent depth ++ b :: t) := by
  cases indent with
  | none => exact boundary_cons h
  | some width => exact boundary_cons rfl

private theorem boundary_renderItems (indent : Option Nat) (depth : Nat) (xs : List Json)
    (t : Bytes) : Boundary (renderItems indent depth xs ++ t) := by
  cases xs with
  | nil =>
      rw [renderItems, List.append_assoc]
      exact boundary_newline indent depth rfl
  | cons x xs =>
      rw [renderItems]
      exact boundary_cons rfl

private theorem boundary_renderFields (indent : Option Nat) (depth : Nat)
    (fs : List (Bytes × Json)) (t : Bytes) : Boundary (renderFields indent depth fs ++ t) := by
  cases fs with
  | nil =>
      rw [renderFields, List.append_assoc]
      exact boundary_newline indent depth rfl
  | cons kv fs =>
      rw [renderFields]
      exact boundary_cons rfl

section values

variable (indent : Option Nat)

/-- What the lexer does on a written value in front of any text. -/
def Lexes (j : Json) : Prop :=
  ∀ depth t, Boundary t →
    lex (render indent depth j ++ t) = (lex t).map (tokens j ++ ·)

theorem lex_renderItems {xs : List Json} (h : ∀ x ∈ xs, Lexes indent x) (depth : Nat) (t : Bytes) :
    lex (renderItems indent depth xs ++ t) = (lex t).map (itemTokens xs ++ ·) := by
  induction xs with
  | nil =>
      rw [renderItems, List.append_assoc, lex_spaces fun b hb => isSpace_of_mem_newline hb]
      exact lex_punct rfl rfl
  | cons x xs ih =>
      have hrec := ih fun y hy => h y (List.mem_cons_of_mem x hy)
      have hx := h x List.mem_cons_self (depth + 1) (renderItems indent depth xs ++ t)
        (boundary_renderItems indent depth xs t)
      rw [renderItems, List.cons_append, lex_punct (t := .comma) rfl rfl]
      simp only [List.append_assoc]
      rw [lex_spaces fun b hb => isSpace_of_mem_newline hb, hx, hrec]
      cases lex t <;> simp [itemTokens]

theorem lex_renderFields {fs : List (Bytes × Json)} (h : ∀ kv ∈ fs, Lexes indent kv.2)
    (depth : Nat) (t : Bytes) :
    lex (renderFields indent depth fs ++ t) = (lex t).map (fieldTokens fs ++ ·) := by
  induction fs with
  | nil =>
      rw [renderFields, List.append_assoc, lex_spaces fun b hb => isSpace_of_mem_newline hb]
      exact lex_punct rfl rfl
  | cons kv fs ih =>
      obtain ⟨k, v⟩ := kv
      have hrec := ih fun kv hkv => h kv (List.mem_cons_of_mem _ hkv)
      have hv := h (k, v) List.mem_cons_self (depth + 1) (renderFields indent depth fs ++ t)
        (boundary_renderFields indent depth fs t)
      rw [renderFields, List.cons_append, lex_punct (t := .comma) rfl rfl]
      simp only [List.append_assoc, List.cons_append]
      rw [lex_spaces fun b hb => isSpace_of_mem_newline hb, lex_quote,
        lex_punct (t := .colon) rfl rfl, lex_spaces fun b hb => isSpace_of_mem_afterColon hb,
        hv, hrec]
      cases lex t <;> simp [fieldTokens]

theorem lexes (j : Json) : Lexes indent j := by
  induction j using induct with
  | null => exact fun depth t ht => lex_keyword (w := lit "null") rfl ht
  | bool b =>
      cases b with
      | true => exact fun depth t ht => lex_keyword (w := lit "true") rfl ht
      | false => exact fun depth t ht => lex_keyword (w := lit "false") rfl ht
  | int n =>
      exact fun depth t ht =>
        lex_word (intText_ne_nil n) (fun b hb => isDelim_of_mem_intText hb) ht
  | float m e =>
      exact fun depth t ht =>
        lex_word (w := floatText m e) (by simp [floatText])
          (fun b hb => isDelim_of_mem_floatText hb) ht
  | str s => exact fun depth t _ => lex_quote s t
  | arr xs ih =>
      intro depth t ht
      cases xs with
      | nil =>
          rw [render, List.cons_append, lex_punct (t := .lbrack) rfl rfl, List.cons_append,
            lex_punct (t := .rbrack) rfl rfl]
          cases h : lex t <;> simp [tokens, h]
      | cons x xs =>
          have hx := ih x List.mem_cons_self (depth + 1) (renderItems indent depth xs ++ t)
            (boundary_renderItems indent depth xs t)
          have hxs := lex_renderItems indent (fun y hy => ih y (List.mem_cons_of_mem x hy)) depth t
          rw [render, List.cons_append, lex_punct (t := .lbrack) rfl rfl]
          simp only [List.append_assoc]
          rw [lex_spaces fun b hb => isSpace_of_mem_newline hb, hx, hxs]
          cases lex t <;> simp [tokens]
  | obj fs ih =>
      intro depth t ht
      cases fs with
      | nil =>
          rw [render, List.cons_append, lex_punct (t := .lbrace) rfl rfl, List.cons_append,
            lex_punct (t := .rbrace) rfl rfl]
          cases h : lex t <;> simp [tokens, h]
      | cons kv fs =>
          obtain ⟨k, v⟩ := kv
          have hv := ih (k, v) List.mem_cons_self (depth + 1) (renderFields indent depth fs ++ t)
            (boundary_renderFields indent depth fs t)
          have hfs :=
            lex_renderFields indent (fun kv hkv => ih kv (List.mem_cons_of_mem _ hkv)) depth t
          rw [render, List.cons_append, lex_punct (t := .lbrace) rfl rfl]
          simp only [List.append_assoc, List.cons_append]
          rw [lex_spaces fun b hb => isSpace_of_mem_newline hb, lex_quote,
            lex_punct (t := .colon) rfl rfl, lex_spaces fun b hb => isSpace_of_mem_afterColon hb,
            hv, hfs]
          cases lex t <;> simp [tokens]

end values

theorem lex_render (indent : Option Nat) (j : Json) : lex (render indent 0 j) = some (tokens j) := by
  have h := lexes indent j 0 [] (by simp [Boundary])
  simpa [lex, lexFrom] using h

end Json

end LinuxLive
