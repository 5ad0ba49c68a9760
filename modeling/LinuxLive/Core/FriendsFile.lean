import LinuxLive.Lib.RecordFormat

/-!
# The friend lists

`Persistence::save_friends` and `load_friends` on the content of the file of one key: an
array of public keys.
-/

namespace LinuxLive.Persistence

open Json

/-- A friend is the text of the public key. -/
def friendCodec : RecordCodec Bytes where
  json := .str
  ofJson := getString
  utf8 := LinuxLive.utf8
  ofJson_json _ := rfl
  canonical_json _ := rfl
  utf8_json _ := rfl
  utf8_ofJson item pubkey hu h := by
    rw [getString_ok_iff.mp h] at hu
    exact hu

def friendFormat : RecordFormat friendCodec where
  wellFormed item := FieldType.string.fits item = true
  undefined _ := False
  ok_iff item := (reads_getString.ok_iff item).symm
  undefined_iff item := iff_of_false (by cases item <;> simp [friendCodec, getString]) id

def saveFriends (lib : JsonText) (friendPubkeys : List Bytes) : Bytes × Option JsonError :=
  friendCodec.save lib friendPubkeys

def loadFriends (lib : JsonText) (file : Option Bytes) : List Bytes := friendCodec.load lib file

end LinuxLive.Persistence
