import LinuxLive.Core.IdentityFile
import LinuxLive.Protocol.Signing

/-!
# The account

The handlers of the login pages and the profile page over `identity.json`, and the key
pair that its user owns.
-/

namespace LinuxLive

open IdentityManager

/-- `identity.json` and `current_privkey_hex_`. -/
structure Account where
  file : Option Bytes
  currentPrivkeyHex : Bytes

namespace App

/-- `on_generate_keypair` shows the private key and writes no file. -/
def onGenerateKeypair (ssl : OpenSSL) (secretKey : Bytes) (h : secretKey.length = 32)
    (now : UInt64) (account : Account) : Account :=
  let id := generate ssl secretKey h (lit "User") now
  { account with currentPrivkeyHex := keyToHex id.secretKey }

def onBackupDone (ssl : OpenSSL) (now : UInt64) (account : Account) : Account :=
  match login ssl account.file account.currentPrivkeyHex now with
  | none => account
  | some id => { account with file := some (save ssl id) }

def onLogin (ssl : OpenSSL) (keyHex : Bytes) (now : UInt64) (account : Account) : Account :=
  if keyHex.length ≠ 64 then account
  else
    match login ssl account.file keyHex now with
    | none => account
    | some id => { file := some (save ssl id), currentPrivkeyHex := keyHex }

def onSetDisplayName (ssl : OpenSSL) (name : Bytes) (account : Account) : Account :=
  if name = [] then account
  else
    match load account.file with
    | none => account
    | some id => { account with file := some (save ssl { id with displayName := name }) }

/-- A new process loads the file and has no private key to show. -/
def onActivate (account : Account) : Account := { account with currentPrivkeyHex := [] }

end App

/-- What the user does; the generated key is the one that OpenSSL draws. -/
inductive AccountOp where
  | generate (secretKey : Bytes) (h : secretKey.length = 32) (now : UInt64)
  | backupDone (now : UInt64)
  | login (keyHex : Bytes) (now : UInt64)
  | setDisplayName (name : Bytes)
  | restart

def Account.step (ssl : OpenSSL) (account : Account) : AccountOp → Account
  | .generate secretKey h now => App.onGenerateKeypair ssl secretKey h now account
  | .backupDone now => App.onBackupDone ssl now account
  | .login keyHex now => App.onLogin ssl keyHex now account
  | .setDisplayName name => App.onSetDisplayName ssl name account
  | .restart => App.onActivate account

/-! ## Ownership -/

structure Keys where
  secretKey : Bytes
  publicKey : Bytes
deriving DecidableEq

def Keys.ofSecret (ssl : OpenSSL) (secretKey : Bytes) : Keys :=
  ⟨secretKey, ssl.publicKey secretKey⟩

def loadedKeys (file : Option Bytes) : Option Keys :=
  (load file).map fun id => ⟨id.secretKey, id.publicKey⟩

/-- The secret key that this run of the program shows and the key pair that was confirmed
last. -/
structure Owned where
  shown : Option Bytes
  keys : Option Keys

/-- A generated key is owned once it is confirmed, a typed one at once. -/
def Owned.step (ssl : OpenSSL) (owned : Owned) : AccountOp → Owned
  | .generate secretKey _ _ => { owned with shown := some secretKey }
  | .backupDone _ => { owned with keys := (owned.shown.map (Keys.ofSecret ssl)).or owned.keys }
  | .login keyHex _ =>
      if keyHex.length ≠ 64 then owned
      else
        match decodeHex keyHex with
        | none => owned
        | some secretKey => ⟨some secretKey, some (Keys.ofSecret ssl secretKey)⟩
  | .setDisplayName _ => owned
  | .restart => { owned with shown := none }

/-! ## The invariant -/

/-- The text on the backup page is the shown key, and the file has the owned pair. -/
structure Account.Keeps (account : Account) (owned : Owned) : Prop where
  shown : hexToKey account.currentPrivkeyHex 32 = owned.shown
  keys : loadedKeys account.file = owned.keys

section keeps

variable {ssl : OpenSSL} {account : Account} {owned : Owned}

theorem loadedKeys_save (ssl : OpenSSL) (id : Identity) :
    loadedKeys (some (save ssl id)) = some ⟨id.secretKey, id.publicKey⟩ := by
  obtain ⟨loaded, hloaded, hsecret, hpublic, _⟩ := load_save ssl id
  rw [loadedKeys, hloaded, Option.map_some, hsecret, hpublic]

theorem loadedKeys_login (ssl : OpenSSL) (file : Option Bytes) {text secretKey : Bytes} (now : UInt64)
    (h : hexToKey text 32 = some secretKey) :
    ∃ id, login ssl file text now = some id ∧
      loadedKeys (some (save ssl id)) = some (Keys.ofSecret ssl secretKey) := by
  obtain ⟨id, hid, hsecret, hpublic⟩ := login_of_hexToKey ssl file now h
  refine ⟨id, hid, ?_⟩
  rw [loadedKeys_save, hsecret, hpublic, Keys.ofSecret]

theorem keeps_backupDone (now : UInt64) (h : account.Keeps owned) :
    (App.onBackupDone ssl now account).Keeps (owned.step ssl (.backupDone now)) := by
  unfold App.onBackupDone
  cases hshown : hexToKey account.currentPrivkeyHex 32 with
  | none =>
      have hnone : owned.shown = none := h.shown ▸ hshown
      rw [login_eq_none hshown]
      constructor
      · exact h.shown
      · simpa [Owned.step, hnone] using h.keys
  | some secretKey =>
      have hsome : owned.shown = some secretKey := h.shown ▸ hshown
      obtain ⟨id, hid, hkeys⟩ := loadedKeys_login ssl account.file now hshown
      rw [hid]
      constructor
      · exact h.shown
      · simpa [Owned.step, hsome] using hkeys

theorem keeps_login {keyHex : Bytes} (now : UInt64)
    (hdigits : keyHex.length = 64 → (decodeHex keyHex).isSome = true) (h : account.Keeps owned) :
    (App.onLogin ssl keyHex now account).Keeps (owned.step ssl (.login keyHex now)) := by
  unfold App.onLogin Owned.step
  dsimp only
  by_cases hlen : keyHex.length = 64
  · obtain ⟨secretKey, hsecret⟩ := Option.isSome_iff_exists.mp (hdigits hlen)
    have hkey : hexToKey keyHex 32 = some secretKey := hexToKey_of_decodeHex hlen hsecret
    obtain ⟨id, hid, hkeys⟩ := loadedKeys_login ssl account.file now hkey
    have hpass : ¬ keyHex.length ≠ 64 := by omega
    rw [if_neg hpass, if_neg hpass, hid, hsecret]
    exact ⟨hkey, hkeys⟩
  · rw [if_pos hlen, if_pos hlen]
    exact h

theorem keeps_setDisplayName (name : Bytes) (h : account.Keeps owned) :
    (App.onSetDisplayName ssl name account).Keeps owned := by
  unfold App.onSetDisplayName
  by_cases hname : name = []
  · rw [if_pos hname]
    exact h
  · rw [if_neg hname]
    cases hload : load account.file with
    | none => exact h
    | some id =>
        constructor
        · exact h.shown
        · have hkeys := h.keys
          rw [loadedKeys, hload, Option.map_some] at hkeys
          exact (loadedKeys_save ssl _).trans hkeys

theorem keeps_step {op : AccountOp}
    (hdigits : ∀ keyHex now, op = .login keyHex now → keyHex.length = 64 →
      (decodeHex keyHex).isSome = true) (h : account.Keeps owned) :
    (account.step ssl op).Keeps (owned.step ssl op) := by
  cases op with
  | generate secretKey hlen now => exact ⟨hexToKey_keyToHex hlen, h.keys⟩
  | backupDone now => exact keeps_backupDone now h
  | login keyHex now => exact keeps_login now (hdigits keyHex now rfl) h
  | setDisplayName name => exact keeps_setDisplayName name h
  | restart => exact ⟨rfl, h.keys⟩

theorem keeps_run {ops : List AccountOp}
    (hdigits : ∀ keyHex now, .login keyHex now ∈ ops → keyHex.length = 64 →
      (decodeHex keyHex).isSome = true) (h : account.Keeps owned) :
    (ops.foldl (Account.step ssl) account).Keeps (ops.foldl (Owned.step ssl) owned) := by
  induction ops generalizing account owned with
  | nil => exact h
  | cons op ops ih =>
      apply ih
      · intro keyHex now hmem
        exact hdigits keyHex now (List.mem_cons_of_mem op hmem)
      · apply keeps_step _ h
        intro keyHex now hop
        exact hdigits keyHex now (hop ▸ List.mem_cons_self)

end keeps

/-- After every run `identity.json` loads to the key pair that was confirmed last, whatever
the names are. -/
theorem key_pair_survives (ssl : OpenSSL) (file : Option Bytes) (ops : List AccountOp)
    (hdigits : ∀ keyHex now, .login keyHex now ∈ ops → keyHex.length = 64 →
      (decodeHex keyHex).isSome = true) :
    loadedKeys (ops.foldl (Account.step ssl) ⟨file, []⟩).file =
      (ops.foldl (Owned.step ssl) ⟨none, loadedKeys file⟩).keys := by
  have hstart : Account.Keeps ⟨file, []⟩ ⟨none, loadedKeys file⟩ := ⟨rfl, rfl⟩
  exact (keeps_run hdigits hstart).keys

/-- The digest of the sample key and its signature of the empty text. -/
def accountSSL : OpenSSL := .ofKnown {
  text := sampleKeys.secretKey
  digest := fromHex (lit "644d50ab64864c20a12b3c4656d46b4a48f69ef7c47ecdc8415cd28316b22ef5")
  secretKey := sampleKeys.secretKey
  publicKey := sampleKeys.publicKey
  message := []
  signature := fromHex (lit "e5564300c360ac729086e2cc806e828a84877f1eb8e5d974d873e065224901555fb8821590a33bacc61e39701cf9b46bd25bf5f0595bbe24655141438e7a100b")
  digest_length := rfl
  publicKey_length := sampleKeys.publicKey_length
  publicKey_ne := sampleKeys_publicKey_ne
  signature_length := by decide +kernel }

/-- A generated key is confirmed, a name with the file's own keys is set, the program is
started again and the key is typed in capitals. -/
theorem key_pair_survives_rename :
    loadedKeys (List.foldl (Account.step accountSSL) ⟨none, []⟩
      [.generate sampleKeys.secretKey sampleKeys.secretKey_length 1, .backupDone 2,
        .setDisplayName (lit "\", \"enc_privkey\": \"\", \"obf_pad\": \""), .restart,
        .backupDone 3,
        .login (lit "9D61B19DEFFD5A60BA844AF492EC2CC44449C5697B326919703BAC031CAE7F60") 4]).file =
      some ⟨sampleKeys.secretKey, sampleKeys.publicKey⟩ := by
  refine (key_pair_survives accountSSL none _ ?_).trans (by decide)
  intro keyHex now hmem _
  simp only [List.mem_cons, reduceCtorEq, AccountOp.login.injEq, List.not_mem_nil, or_false,
    false_or] at hmem
  obtain ⟨rfl, _⟩ := hmem
  decide

end LinuxLive
