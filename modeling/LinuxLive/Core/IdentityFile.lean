import LinuxLive.Core.Identity
import LinuxLive.Lib.OpenSSL
import LinuxLive.Lib.Search
import Mathlib.Algebra.Ring.Nat
import Mathlib.Data.LawfulXor.Basic

/-!
# `identity.json`

`IdentityManager::generate`, `login`, `save` and `load`.  The file is written without
escapes and read back by searching for its keys.
-/

namespace LinuxLive

structure Identity where
  publicKey : Bytes
  secretKey : Bytes
  displayName : Bytes
  createdAt : UInt64
  publicKey_length : publicKey.length = 32
  secretKey_length : secretKey.length = 32

namespace IdentityManager

def generate (ssl : OpenSSL) (secretKey : Bytes) (h : secretKey.length = 32) (displayName : Bytes)
    (now : UInt64) : Identity where
  publicKey := ssl.publicKey secretKey
  secretKey := secretKey
  displayName := displayName
  createdAt := now
  publicKey_length := ssl.publicKey_length secretKey
  secretKey_length := h

def obfuscate (data key : Bytes) : Bytes :=
  data.mapIdx fun i b => b ^^^ key.getD (i % key.length) 0

@[simp] theorem length_obfuscate (data key : Bytes) : (obfuscate data key).length = data.length :=
  List.length_mapIdx

theorem obfuscate_obfuscate (data key : Bytes) : obfuscate (obfuscate data key) key = data := by
  apply List.ext_getElem
  · simp
  · intro i _ _
    simp [obfuscate]

/-! ## The file -/

def save (ssl : OpenSSL) (id : Identity) : Bytes :=
  let pad := ssl.sha256 id.secretKey
  let encPriv := obfuscate id.secretKey pad
  lit "\x7b\n" ++
    lit "  \"pubkey\": \"" ++ keyToHex id.publicKey ++ lit "\",\n" ++
    lit "  \"enc_privkey\": \"" ++ keyToHex encPriv ++ lit "\",\n" ++
    lit "  \"obf_pad\": \"" ++ keyToHex pad ++ lit "\",\n" ++
    lit "  \"display_name\": \"" ++ id.displayName ++ lit "\",\n" ++
    lit "  \"created_at\": " ++ decimal id.createdAt.toNat ++ lit "\n" ++
    lit "\x7d\n"

/-- The text between the two quotes that follow the first occurrence of the key. -/
def extract (content key : Bytes) : Bytes :=
  (do let rest ← behind (quoted 34 key) content
      let rest ← behind [34] rest
      upTo 34 rest).getD []

/-- `strtoull` keeps to the largest number. -/
def extractNum (content key : Bytes) : UInt64 :=
  (do let rest ← behind (quoted 34 key) content
      let rest ← behind (lit ":") rest
      let num := (rest.dropWhile fun b => b == 32).takeWhile isDigit
      return UInt64.ofNat (min (decimalVal num) (2 ^ 64 - 1))).getD 0

def removePad (secretKey padHex : Bytes) : Bytes :=
  if padHex.isEmpty then secretKey
  else
    match hexToKey padHex 32 with
    | none => secretKey
    | some pad => obfuscate secretKey pad

theorem length_removePad (secretKey padHex : Bytes) :
    (removePad secretKey padHex).length = secretKey.length := by
  unfold removePad
  split
  · rfl
  · split
    · rfl
    · exact length_obfuscate _ _

/-- `none` is a file that is not there, or one that is not read. -/
def load (file : Option Bytes) : Option Identity := do
  let content ← file
  let pubHex := extract content (lit "pubkey")
  let privHex := extract content (lit "enc_privkey")
  let padHex := extract content (lit "obf_pad")
  if pubHex.isEmpty || privHex.isEmpty then none
  else
    match hp : hexToKey pubHex 32 with
    | none => none
    | some publicKey =>
        match hs : hexToKey privHex 32 with
        | none => none
        | some secretKey => some {
            publicKey := publicKey
            secretKey := removePad secretKey padHex
            displayName := extract content (lit "display_name")
            createdAt := extractNum content (lit "created_at")
            publicKey_length := length_key hp
            secretKey_length := (length_removePad _ _).trans (length_key hs) }

theorem load_of_extract {content publicKey secretKey : Bytes}
    (hpub : hexToKey (extract content (lit "pubkey")) 32 = some publicKey)
    (hpriv : hexToKey (extract content (lit "enc_privkey")) 32 = some secretKey) :
    ∃ loaded, load (some content) = some loaded ∧ loaded.publicKey = publicKey ∧
      loaded.secretKey = removePad secretKey (extract content (lit "obf_pad")) ∧
      loaded.displayName = extract content (lit "display_name") ∧
      loaded.createdAt = extractNum content (lit "created_at") := by
  have hnonempty : ¬ ((extract content (lit "pubkey")).isEmpty ||
      (extract content (lit "enc_privkey")).isEmpty) = true := by
    intro h
    rw [Bool.or_eq_true, List.isEmpty_iff, List.isEmpty_iff] at h
    rcases h with h | h
    · rw [h] at hpub
      cases hpub
    · rw [h] at hpriv
      cases hpriv
  simp only [load, bind, Option.bind]
  rw [if_neg hnonempty]
  split
  · rename_i hnone
    rw [hpub] at hnone
    cases hnone
  · rename_i pk hpk
    rw [hpub] at hpk
    cases hpk
    split
    · rename_i hnone
      rw [hpriv] at hnone
      cases hnone
    · rename_i sk hsk
      rw [hpriv] at hsk
      cases hsk
      exact ⟨_, rfl, rfl, rfl, rfl, rfl⟩

/-- `login` keeps the name and the time of a file with the same public key. -/
def login (ssl : OpenSSL) (file : Option Bytes) (privateKeyHex : Bytes) (now : UInt64) :
    Option Identity :=
  match h : hexToKey privateKeyHex 32 with
  | none => none
  | some secretKey =>
      let id := generate ssl secretKey (length_key h) (lit "User") now
      match load file with
      | none => some id
      | some loaded =>
          if loaded.publicKey = id.publicKey then
            some { id with displayName := loaded.displayName, createdAt := loaded.createdAt }
          else some id

theorem login_of_hexToKey (ssl : OpenSSL) (file : Option Bytes) {text secretKey : Bytes}
    (now : UInt64) (h : hexToKey text 32 = some secretKey) :
    ∃ id, login ssl file text now = some id ∧ id.secretKey = secretKey ∧
      id.publicKey = ssl.publicKey secretKey := by
  unfold login
  split
  · rename_i hnone
    rw [h] at hnone
    cases hnone
  · rename_i sk hsome
    rw [h] at hsome
    cases hsome
    cases load file with
    | none => exact ⟨_, rfl, rfl, rfl⟩
    | some loaded =>
        by_cases hsame : loaded.publicKey = ssl.publicKey secretKey
        · exact ⟨_, if_pos hsame, rfl, rfl⟩
        · exact ⟨_, if_neg hsame, rfl, rfl⟩

theorem login_eq_none {ssl : OpenSSL} {file : Option Bytes} {text : Bytes} {now : UInt64}
    (h : hexToKey text 32 = none) : login ssl file text now = none := by
  unfold login
  split
  · rfl
  · rename_i hsome
    rw [h] at hsome
    cases hsome

/-! ## Typed keys -/

theorem isSome_login {ssl : OpenSSL} {file : Option Bytes} {text : Bytes} {now : UInt64} :
    (login ssl file text now).isSome = true ↔ text.length = 64 := by
  have hlength : (hexToKey text 32).isSome = true ↔ text.length = 64 := isSome_hexToKey
  rw [← hlength]
  cases h : hexToKey text 32 with
  | none => rw [login_eq_none h, Option.isSome_none, Option.isSome_none]
  | some secretKey =>
      obtain ⟨id, hid, _⟩ := login_of_hexToKey ssl file now h
      rw [hid, Option.isSome_some, Option.isSome_some]

theorem secretKey_of_login {ssl : OpenSSL} {file : Option Bytes} {text : Bytes} {now : UInt64}
    {id : Identity} (h : login ssl file text now = some id) :
    hexToKey text 32 = some id.secretKey := by
  cases hkey : hexToKey text 32 with
  | none =>
      rw [login_eq_none hkey] at h
      cases h
  | some secretKey =>
      obtain ⟨id', hid, hsecret, _⟩ := login_of_hexToKey ssl file now hkey
      rw [hid] at h
      cases h
      rw [hsecret]

/-- Keys are read exactly where no text is mistyped, and only there; a written key is always
read back. -/
theorem hex_keys_iff (ssl : OpenSSL) (len : Nat) (hex : Bytes) :
    (ReadExactly len hex ↔ ¬ Mistyped len hex) ∧
    (∀ key, key.length = len → hexToKey (keyToHex key) len = some key) ∧
    (∀ file now, ((login ssl file hex now).isSome = true ↔ HexText 32 hex) ↔ ¬ Mistyped 32 hex) ∧
    (∀ hex' file file' now now' id id', ¬ Mistyped 32 hex → ¬ Mistyped 32 hex' →
      login ssl file hex now = some id → login ssl file' hex' now' = some id' →
      lowerCase hex ≠ lowerCase hex' → id.secretKey ≠ id'.secretKey) := by
  refine ⟨readExactly_iff, fun key => hexToKey_keyToHex, ?_, ?_⟩
  · intro file now
    rw [← readExactly_iff, isSome_login]
    constructor
    · intro h
      exact ⟨isSome_hexToKey.trans h, HexText.read⟩
    · intro h
      exact isSome_hexToKey.symm.trans h.accepted
  · intro hex' file file' now now' id id' htyped htyped' hlogin hlogin' hne hsame
    have hhex := hexText_of_not_mistyped htyped (isSome_login.mp (Option.isSome_of_eq_some hlogin))
    have hhex' :=
      hexText_of_not_mistyped htyped' (isSome_login.mp (Option.isSome_of_eq_some hlogin'))
    have hkey := secretKey_of_login hlogin
    have hkey' := secretKey_of_login hlogin'
    rw [← hsame] at hkey'
    exact hne (hhex.lowerCase_inj hhex' hkey hkey')

theorem hex_keys_iff_written : hexToKey (keyToHex [10, 255]) 2 = some [10, 255] :=
  (hex_keys_iff (.ofTables [] [] []) 2 []).2.1 [10, 255] rfl

/-- Letters that are no digits are taken for the key of zeros. -/
theorem mistyped_key_is_accepted :
    hexToKey (List.replicate 64 122) 32 = some (List.replicate 32 0) ∧
      ¬ ∀ len hex, ReadExactly len hex := by
  refine ⟨by decide, fun h => ?_⟩
  exact readExactly_iff.mp (h 32 (List.replicate 64 122)) (by decide)

/-! ## What is saved is loaded -/

/-- The value behind a key, with other parts before it and any text after it. -/
theorem extract_quotes {before key value next tail : Bytes} (parts : List Bytes)
    {rest : List Bytes} (hbefore : 34 ∉ before) (hkey : 34 ∉ key) (hvalue : 34 ∉ value)
    (hparts : ∀ part ∈ parts, 34 ∉ part ∧ key ≠ part) :
    extract (before ++ quotes 34 (parts ++ key :: lit ": " :: value :: next :: rest) tail) key =
      value := by
  have hcolon : (34 : UInt8) ∉ lit ": " := by decide
  have hfound : behind (quoted 34 key) (quotes 34 (parts ++ key :: lit ": " :: value :: next :: rest)
      tail) = some (lit ": " ++ quotes 34 (value :: next :: rest) tail) := behind_quotes hkey hparts
  have hopen : behind [34] (lit ": " ++ quotes 34 (value :: next :: rest) tail) =
      some (value ++ quotes 34 (next :: rest) tail) := by
    rw [behind_append_of_notMem hcolon]
    exact behind_pattern [34] _
  unfold extract
  rw [quoted, behind_append_of_notMem hbefore]
  rw [quoted] at hfound
  simp only [hfound, hopen, bind, Option.bind]
  rw [quotes, upTo_append hvalue, Option.getD_some]

/-- The hexadecimal fields as parts between quotes. -/
def keyParts (pub priv pad : Bytes) : List Bytes :=
  [lit "pubkey", lit ": ", pub, lit ",\n  ", lit "enc_privkey", lit ": ", priv, lit ",\n  ",
    lit "obf_pad", lit ": ", pad, lit ",\n  "]

/-- What the file has behind the hexadecimal fields. -/
def profileText (displayName : Bytes) (createdAt : UInt64) : Bytes :=
  quotes 34 [lit "display_name", lit ": "] (34 :: (displayName ++ 34 ::
    (lit ",\n  " ++ quotes 34 [lit "created_at"]
      (34 :: (lit ": " ++ (decimal createdAt.toNat ++ lit "\n\x7d\n"))))))

theorem save_eq (ssl : OpenSSL) (id : Identity) :
    save ssl id = lit "\x7b\n  " ++ quotes 34 (keyParts (keyToHex id.publicKey)
      (keyToHex (obfuscate id.secretKey (ssl.sha256 id.secretKey)))
      (keyToHex (ssl.sha256 id.secretKey))) (profileText id.displayName id.createdAt) := by
  have hpubkey : ∀ t, lit "\x7b\n" ++ (lit "  \"pubkey\": \"" ++ t) =
      lit "\x7b\n  " ++ 34 :: (lit "pubkey" ++ 34 :: (lit ": " ++ 34 :: t)) := fun t => rfl
  have hprivkey : ∀ t, lit "\",\n" ++ (lit "  \"enc_privkey\": \"" ++ t) =
      34 :: (lit ",\n  " ++ 34 :: (lit "enc_privkey" ++ 34 :: (lit ": " ++ 34 :: t))) :=
    fun t => rfl
  have hpad : ∀ t, lit "\",\n" ++ (lit "  \"obf_pad\": \"" ++ t) =
      34 :: (lit ",\n  " ++ 34 :: (lit "obf_pad" ++ 34 :: (lit ": " ++ 34 :: t))) := fun t => rfl
  have hname : ∀ t, lit "\",\n" ++ (lit "  \"display_name\": \"" ++ t) =
      34 :: (lit ",\n  " ++ 34 :: (lit "display_name" ++ 34 :: (lit ": " ++ 34 :: t))) :=
    fun t => rfl
  have htime : ∀ t, lit "\",\n" ++ (lit "  \"created_at\": " ++ t) =
      34 :: (lit ",\n  " ++ 34 :: (lit "created_at" ++ 34 :: (lit ": " ++ t))) := fun t => rfl
  have hend : lit "\n" ++ lit "\x7d\n" = lit "\n\x7d\n" := rfl
  simp only [save, keyParts, profileText, quotes, List.append_assoc, List.cons_append, hpubkey, hprivkey,
    hpad, hname, htime, hend]

theorem length_obfuscate_secretKey (ssl : OpenSSL) (id : Identity) :
    (obfuscate id.secretKey (ssl.sha256 id.secretKey)).length = 32 := by
  rw [length_obfuscate, id.secretKey_length]

theorem quote_not_mem_keyToHex (key : Bytes) : 34 ∉ keyToHex key := by
  intro h
  obtain ⟨d, hd, hquote⟩ := mem_toHex h
  have hne : ∀ d, d < 16 → hexDigit d ≠ 34 := by decide
  exact hne d hd hquote.symm

section fields

variable {key pub priv pad tail : Bytes}

theorem keyParts_ne (hkey : key.length < 64) (hpub : 34 ∉ pub ∧ pub.length = 64)
    (hpriv : 34 ∉ priv ∧ priv.length = 64) (hpad : 34 ∉ pad ∧ pad.length = 64)
    (hnames : ∀ name ∈ [lit "pubkey", lit ": ", lit ",\n  ", lit "enc_privkey", lit "obf_pad"],
      key ≠ name) :
    ∀ part ∈ keyParts pub priv pad, 34 ∉ part ∧ key ≠ part := by
  have hne : ∀ {value : Bytes}, value.length = 64 → key ≠ value := by
    intro value hvalue heq
    rw [heq] at hkey
    omega
  simp only [List.forall_mem_cons, List.not_mem_nil, false_implies, implies_true,
    and_true] at hnames
  obtain ⟨hpubkey, hcolon, hcomma, henc, hobf⟩ := hnames
  simp only [keyParts, List.forall_mem_cons, List.not_mem_nil, false_implies, implies_true,
    and_true]
  exact ⟨⟨by decide, hpubkey⟩, ⟨by decide, hcolon⟩, ⟨hpub.1, hne hpub.2⟩, ⟨by decide, hcomma⟩,
    ⟨by decide, henc⟩, ⟨by decide, hcolon⟩, ⟨hpriv.1, hne hpriv.2⟩, ⟨by decide, hcomma⟩,
    ⟨by decide, hobf⟩, ⟨by decide, hcolon⟩, ⟨hpad.1, hne hpad.2⟩, by decide, hcomma⟩

/-- Searches among three values in quotes that are no names of fields. -/
theorem extract_fields (hpub : 34 ∉ pub ∧ pub.length = 64) (hpriv : 34 ∉ priv ∧ priv.length = 64)
    (hpad : 34 ∉ pad) {content : Bytes}
    (hcontent : content = lit "\x7b\n  " ++ quotes 34 (keyParts pub priv pad) tail) :
    extract content (lit "pubkey") = pub ∧ extract content (lit "enc_privkey") = priv ∧
      extract content (lit "obf_pad") = pad := by
  have hbrace : (34 : UInt8) ∉ lit "\x7b\n  " := by decide
  have hne : ∀ {name value : Bytes}, name.length < 64 → value.length = 64 → name ≠ value := by
    intro name value hname hvalue heq
    rw [heq] at hname
    omega
  have hprivate : ∀ part ∈ [lit "pubkey", lit ": ", pub, lit ",\n  "],
      34 ∉ part ∧ lit "enc_privkey" ≠ part := by
    simp only [List.forall_mem_cons, List.not_mem_nil, false_implies, implies_true, and_true]
    exact ⟨by decide, by decide, ⟨hpub.1, hne (by decide) hpub.2⟩, by decide⟩
  have hpads : ∀ part ∈ [lit "pubkey", lit ": ", pub, lit ",\n  ", lit "enc_privkey", lit ": ",
      priv, lit ",\n  "], 34 ∉ part ∧ lit "obf_pad" ≠ part := by
    simp only [List.forall_mem_cons, List.not_mem_nil, false_implies, implies_true, and_true]
    exact ⟨by decide, by decide, ⟨hpub.1, hne (by decide) hpub.2⟩, by decide, by decide, by decide,
      ⟨hpriv.1, hne (by decide) hpriv.2⟩, by decide⟩
  rw [hcontent]
  refine ⟨?_, ?_, ?_⟩
  · exact extract_quotes [] hbrace (by decide) hpub.1 (by simp)
  · exact extract_quotes [lit "pubkey", lit ": ", pub, lit ",\n  "] hbrace (by decide) hpriv.1
      hprivate
  · exact extract_quotes [lit "pubkey", lit ": ", pub, lit ",\n  ", lit "enc_privkey", lit ": ",
      priv, lit ",\n  "] hbrace (by decide) hpad hpads

end fields

theorem extract_save (ssl : OpenSSL) (id : Identity) :
    extract (save ssl id) (lit "pubkey") = keyToHex id.publicKey ∧
      extract (save ssl id) (lit "enc_privkey") =
        keyToHex (obfuscate id.secretKey (ssl.sha256 id.secretKey)) ∧
      extract (save ssl id) (lit "obf_pad") = keyToHex (ssl.sha256 id.secretKey) := by
  have htext := save_eq ssl id
  have hpub := length_keyToHex id.publicKey_length
  have hpriv := length_keyToHex (length_obfuscate_secretKey ssl id)
  exact extract_fields ⟨quote_not_mem_keyToHex _, hpub⟩ ⟨quote_not_mem_keyToHex _, hpriv⟩
    (quote_not_mem_keyToHex _) htext

theorem load_save (ssl : OpenSSL) (id : Identity) :
    ∃ loaded, load (some (save ssl id)) = some loaded ∧ loaded.secretKey = id.secretKey ∧
      loaded.publicKey = id.publicKey ∧
      loaded.displayName = extract (save ssl id) (lit "display_name") ∧
      loaded.createdAt = extractNum (save ssl id) (lit "created_at") := by
  obtain ⟨hpub, hpriv, hpad⟩ := extract_save ssl id
  have hsecret := length_obfuscate_secretKey ssl id
  obtain ⟨loaded, hloaded, hpublicKey, hsecretKey, hname, hat⟩ := load_of_extract
    (hpub ▸ hexToKey_keyToHex id.publicKey_length) (hpriv ▸ hexToKey_keyToHex hsecret)
  refine ⟨loaded, hloaded, ?_, hpublicKey, hname, hat⟩
  have hpadLength := ssl.sha256_length id.secretKey
  have hpadHex : (keyToHex (ssl.sha256 id.secretKey)).isEmpty = false := by
    rw [List.isEmpty_eq_false_iff, ← List.length_pos_iff, length_keyToHex hpadLength]
    omega
  rw [hsecretKey, hpad, removePad, hpadHex, hexToKey_keyToHex hpadLength]
  exact obfuscate_obfuscate _ _

/-! ## Name and time -/

/-- The search for a field of the profile goes past the keys. -/
theorem behind_save (ssl : OpenSSL) (id : Identity) {key : Bytes}
    (hkey : key = lit "display_name" ∨ key = lit "created_at") :
    behind (quoted 34 key) (save ssl id) =
      behind (quoted 34 key) (profileText id.displayName id.createdAt) := by
  have hbrace : (34 : UInt8) ∉ lit "\x7b\n  " := by decide
  have hquote : 34 ∉ key := by
    rcases hkey with rfl | rfl <;> decide
  have hparts := keyParts_ne (show key.length < 64 by rcases hkey with rfl | rfl <;> decide)
    ⟨quote_not_mem_keyToHex _, length_keyToHex id.publicKey_length⟩
    ⟨quote_not_mem_keyToHex _, length_keyToHex (length_obfuscate_secretKey ssl id)⟩
    ⟨quote_not_mem_keyToHex _, length_keyToHex (ssl.sha256_length id.secretKey)⟩
    (by rcases hkey with rfl | rfl <;> decide)
  rw [save_eq, quoted, behind_append_of_notMem hbrace, ← quoted]
  exact behind_quotes_of_ne hquote hparts

theorem extract_displayName (ssl : OpenSSL) (id : Identity) :
    extract (save ssl id) (lit "display_name") =
      id.displayName.takeWhile fun b => decide (b ≠ 34) := by
  have hname : (34 : UInt8) ∉ lit "display_name" := by decide
  have hcolon : (34 : UInt8) ∉ lit ": " := by decide
  have hfound := behind_save ssl id (.inl rfl)
  simp only [profileText, quotes, behind_quoted hname hname, if_pos] at hfound
  have hopen : ∀ t, behind [34] (lit ": " ++ 34 :: t) = some t :=
    fun t => (behind_append_of_notMem hcolon).trans (behind_pattern [34] t)
  unfold extract
  simp only [hfound, hopen, bind, Option.bind, upTo_append_delim, Option.getD_some]

theorem read_decimal (n : UInt64) :
    UInt64.ofNat (min (decimalVal (((lit " " ++ (decimal n.toNat ++ lit "\n\x7d\n")).dropWhile
      fun b => b == 32).takeWhile isDigit)) (2 ^ 64 - 1)) = n := by
  have hspaces : (lit " " ++ (decimal n.toNat ++ lit "\n\x7d\n")).dropWhile (fun b => b == 32) =
      decimal n.toNat ++ 10 :: lit "\x7d\n" := by
    cases hdigits : decimal n.toNat with
    | nil => exact absurd hdigits (decimal_ne_nil _)
    | cons d ds =>
        have hd : isDigit d = true := isDigit_of_mem_decimal (hdigits ▸ List.mem_cons_self)
        have hne : (d == 32) = false := by
          rw [beq_eq_false_iff_ne]
          intro heq
          rw [heq] at hd
          exact absurd hd (by decide)
        show List.dropWhile _ (32 :: d :: (ds ++ lit "\n\x7d\n")) = _
        rw [List.dropWhile_cons_of_pos (by decide), List.dropWhile_cons_of_neg (by simp [hne])]
        rfl
  have hlt := n.toNat_lt
  have hmin : min n.toNat (2 ^ 64 - 1) = n.toNat := by omega
  rw [hspaces, takeWhile_decimal (by decide), decimalVal_decimal, hmin, UInt64.ofNat_toNat]

/-- A name without quotes does not get in the way of the time. -/
theorem extractNum_createdAt (ssl : OpenSSL) (id : Identity) (h : 34 ∉ id.displayName) :
    extractNum (save ssl id) (lit "created_at") = id.createdAt := by
  have hkey : (34 : UInt8) ∉ lit "created_at" := by decide
  have hname : (34 : UInt8) ∉ lit "display_name" := by decide
  have hcolon : (34 : UInt8) ∉ lit ": " := by decide
  have hcomma : (34 : UInt8) ∉ lit ",\n  " := by decide
  have hne : lit "created_at" ≠ lit "display_name" := by decide
  have hne' : lit "created_at" ≠ lit ": " := by decide
  have hne'' : lit "created_at" ≠ lit ",\n  " := by decide
  have hfound := behind_save ssl id (.inr rfl)
  simp only [profileText, quotes, behind_quoted hkey hname, behind_quoted hkey hcolon,
    behind_quoted hkey h, behind_quoted hkey hcomma, behind_quoted hkey hkey, if_neg hne,
    if_neg hne', if_neg hne'', if_true] at hfound
  have hnumber : ∃ rest, behind (quoted 34 (lit "created_at")) (save ssl id) = some rest ∧
      behind (lit ":") rest =
        some (lit " " ++ (decimal id.createdAt.toNat ++ lit "\n\x7d\n")) := by
    by_cases heq : lit "created_at" = id.displayName
    · -- The value itself is found, and the colon behind the genuine key.
      rw [if_pos heq] at hfound
      refine ⟨_, hfound, ?_⟩
      have hskip : (58 : UInt8) ∉ lit ",\n  " ++ 34 :: (lit "created_at" ++ [34]) := by decide
      have hsplit : ∀ t : Bytes, lit ",\n  " ++ 34 :: (lit "created_at" ++ 34 :: (lit ": " ++ t)) =
          (lit ",\n  " ++ 34 :: (lit "created_at" ++ [34])) ++ (lit ":" ++ (lit " " ++ t)) :=
        fun t => rfl
      rw [hsplit]
      exact (behind_append_of_notMem hskip).trans (behind_pattern _ _)
    · rw [if_neg heq] at hfound
      exact ⟨_, hfound, behind_pattern (lit ":") _⟩
  obtain ⟨rest, hbehind, hdigits⟩ := hnumber
  unfold extractNum
  simp only [hbehind, hdigits, bind, Option.bind, pure, Option.getD_some]
  exact read_decimal id.createdAt

/-- Name and time come back from the file. -/
def ProfileSurvives (ssl : OpenSSL) (id : Identity) : Prop :=
  ∃ loaded, load (some (save ssl id)) = some loaded ∧ loaded.displayName = id.displayName ∧
    loaded.createdAt = id.createdAt

theorem ProfileSurvives.noQuote {ssl : OpenSSL} {id : Identity} (h : ProfileSurvives ssl id) :
    34 ∉ id.displayName := by
  obtain ⟨loaded, hload, _, _, hname, _⟩ := load_save ssl id
  rw [extract_displayName] at hname
  obtain ⟨loaded', hload', hsame, _⟩ := h
  rw [hload] at hload'
  cases hload'
  exact takeWhile_eq_self_iff.mp (hname.symm.trans hsame)

/-- The profile survives exactly if the name has no quote. -/
theorem profileSurvives_iff (ssl : OpenSSL) (id : Identity) :
    ProfileSurvives ssl id ↔ 34 ∉ id.displayName := by
  constructor
  · exact ProfileSurvives.noQuote
  · intro h
    obtain ⟨loaded, hload, _, _, hname, hat⟩ := load_save ssl id
    rw [extract_displayName] at hname
    refine ⟨loaded, hload, hname.trans (takeWhile_eq_self_iff.mpr h), ?_⟩
    exact hat.trans (extractNum_createdAt ssl id h)

def plainSSL : OpenSSL := .ofTables [] [] []

def named (displayName : Bytes) : Identity :=
  generate plainSSL (List.replicate 32 1) rfl displayName 1700000000

/-- A quote ends the name, and a name that looks like the next field sets the time. -/
theorem quoted_name_is_cut :
    extract (save plainSSL (named (lit "Ann \"Ace\" Lee"))) (lit "display_name") = lit "Ann " ∧
    extractNum (save plainSSL (named (lit "\", \"created_at\": 7, \""))) (lit "created_at") = 7 ∧
    ¬ ∀ ssl id, ProfileSurvives ssl id := by
  refine ⟨by decide +kernel, by decide +kernel, fun h => ?_⟩
  have hquote := (h plainSSL (named (lit "Ann \"Ace\" Lee"))).noQuote
  exact absurd hquote (by decide)

end IdentityManager

end LinuxLive
