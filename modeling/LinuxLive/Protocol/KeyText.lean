import Mathlib.Data.List.GetD
import LinuxLive.Lib.Base64

/-!
# Keys of the handshake as text

`base64_encode` of `client_session.cpp` and the loop that writes the nonce in
`WsClient::ws_handshake`: two copies of one loop.
-/

namespace LinuxLive

def tbl : Bytes := lit "ABCDEFGHIJKLMNOPQRSTUVWXYZabcdefghijklmnopqrstuvwxyz0123456789+/"

/-- The loop from the index `i`; each round takes three bytes and writes four characters. -/
def base64Loop (data : Bytes) (i : Nat) (out : Bytes) : Bytes :=
  if h : i < data.length then
    let n := data[i].toUInt32 <<< 16
    let n := if h : i + 1 < data.length then n ||| data[i + 1].toUInt32 <<< 8 else n
    let n := if h : i + 2 < data.length then n ||| data[i + 2].toUInt32 else n
    let out := out ++ [tbl.getD ((n >>> 18) &&& 0x3F).toNat 0]
    let out := out ++ [tbl.getD ((n >>> 12) &&& 0x3F).toNat 0]
    let out := out ++ [if i + 1 < data.length then tbl.getD ((n >>> 6) &&& 0x3F).toNat 0 else 61]
    let out := out ++ [if i + 2 < data.length then tbl.getD (n &&& 0x3F).toNat 0 else 61]
    base64Loop data (i + 3) out
  else out
termination_by data.length - i

def Relay.ClientSession.base64Encode (data : Bytes) : Bytes := base64Loop data 0 []

/-- `key_b64` of the 16 bytes that `RAND_bytes` draws. -/
def WsClient.keyB64 (nonce : Vector UInt8 16) : Bytes := base64Loop nonce.toList 0 []

/-! ## One round -/

section round

/-- The number of a round; a byte that is missing is a zero. -/
theorem toNat_pack (a b c : UInt8) :
    (a.toUInt32 <<< 16 ||| b.toUInt32 <<< 8 ||| c.toUInt32).toNat =
      a.toNat * 65536 + b.toNat * 256 + c.toNat := by
  have ha := a.toNat_lt
  have hb := b.toNat_lt
  have hc := c.toNat_lt
  have hmiddle : b.toNat <<< 8 < 2 ^ 16 := by
    rw [Nat.shiftLeft_eq]
    omega
  have hhigh : a.toNat <<< 16 ||| b.toNat <<< 8 = (a.toNat * 256 + b.toNat) <<< 8 := by
    rw [← Nat.shiftLeft_add_eq_or_of_lt hmiddle]
    simp only [Nat.shiftLeft_eq]
    omega
  have hlow : (a.toNat * 256 + b.toNat) <<< 8 ||| c.toNat =
      (a.toNat * 256 + b.toNat) <<< 8 + c.toNat := (Nat.shiftLeft_add_eq_or_of_lt hc _).symm
  have hfirst : a.toNat <<< 16 % 2 ^ 32 = a.toNat <<< 16 := by
    rw [Nat.shiftLeft_eq]
    omega
  have hsecond : b.toNat <<< 8 % 2 ^ 32 = b.toNat <<< 8 := Nat.mod_eq_of_lt (by omega)
  have h16 : (16 : UInt32).toNat % 32 = 16 := rfl
  have h8 : (8 : UInt32).toNat % 32 = 8 := rfl
  simp only [UInt32.toNat_or, UInt32.toNat_shiftLeft, UInt8.toNat_toUInt32, h16, h8]
  rw [hfirst, hsecond, hhigh, hlow, Nat.shiftLeft_eq]
  omega

theorem toNat_sextet (n s : UInt32) (hs : s.toNat < 32) :
    ((n >>> s) &&& 0x3F).toNat = n.toNat / 2 ^ s.toNat % 64 := by
  have hmask : (0x3F : UInt32).toNat = 2 ^ 6 - 1 := rfl
  rw [UInt32.toNat_and, UInt32.toNat_shiftRight, hmask, Nat.and_two_pow_sub_one_eq_mod,
    Nat.mod_eq_of_lt hs, Nat.shiftRight_eq_div_pow]

theorem tbl_sextet (n : UInt32) (k : Nat) (hk : k < 4) :
    tbl.getD ((n >>> UInt32.ofNat (6 * k)) &&& 0x3F).toNat 0 = Base64.sextetAt n.toNat k := by
  have hsize : 6 * k < 2 ^ 32 := by omega
  have hshift : (UInt32.ofNat (6 * k)).toNat = 6 * k := UInt32.toNat_ofNat_of_lt' hsize
  rw [toNat_sextet _ _ (by omega), hshift]
  rfl

/-- The number of the round from the index `i`, with zeros behind the end of the data. -/
def roundNumber (data : Bytes) (i : Nat) : Nat :=
  (data.getD i 0).toNat * 65536 + (data.getD (i + 1) 0).toNat * 256 + (data.getD (i + 2) 0).toNat

theorem base64Loop_of_lt {data : Bytes} {i : Nat} (h : i < data.length) (out : Bytes) :
    base64Loop data i out = base64Loop data (i + 3) (out ++
      [Base64.sextetAt (roundNumber data i) 3, Base64.sextetAt (roundNumber data i) 2,
        if i + 1 < data.length then Base64.sextetAt (roundNumber data i) 1 else 61,
        if i + 2 < data.length then Base64.sextetAt (roundNumber data i) 0 else 61]) := by
  have hbyte : ∀ {j : Nat} (hj : j < data.length), data[j] = data.getD j 0 :=
    fun hj => (List.getD_eq_getElem _ _ hj).symm
  have hnone : ∀ {j : Nat}, ¬ j < data.length → data.getD j 0 = 0 :=
    fun hj => List.getD_eq_default _ _ (Nat.le_of_not_lt hj)
  have hzero : (0 : UInt8).toUInt32 <<< 8 = 0 ∧ (0 : UInt8).toUInt32 = 0 := ⟨rfl, rfl⟩
  have hsecond : (if h : i + 1 < data.length then
      data[i].toUInt32 <<< 16 ||| data[i + 1].toUInt32 <<< 8 else data[i].toUInt32 <<< 16) =
      (data.getD i 0).toUInt32 <<< 16 ||| (data.getD (i + 1) 0).toUInt32 <<< 8 := by
    by_cases h1 : i + 1 < data.length
    · rw [dif_pos h1, hbyte h, hbyte h1]
    · rw [dif_neg h1, hbyte h, hnone h1, hzero.1, UInt32.or_zero]
  have hthird : ∀ n : UInt32, (if h : i + 2 < data.length then n ||| data[i + 2].toUInt32 else n) =
      n ||| (data.getD (i + 2) 0).toUInt32 := by
    intro n
    by_cases h2 : i + 2 < data.length
    · rw [dif_pos h2, hbyte h2]
    · rw [dif_neg h2, hnone h2, hzero.2, UInt32.or_zero]
  have hchars := tbl_sextet ((data.getD i 0).toUInt32 <<< 16 |||
    (data.getD (i + 1) 0).toUInt32 <<< 8 ||| (data.getD (i + 2) 0).toUInt32)
  rw [toNat_pack] at hchars
  have hlast : ∀ n : UInt32, n >>> UInt32.ofNat (6 * 0) = n := by simp
  rw [base64Loop, dif_pos h]
  dsimp only
  rw [hsecond, hthird]
  have h3 := hchars 3 (by decide)
  have h2 := hchars 2 (by decide)
  have h1 := hchars 1 (by decide)
  have h0 := hchars 0 (by decide)
  rw [hlast] at h0
  simp only [Nat.reduceMul, UInt32.reduceOfNat] at h3 h2 h1
  rw [h3, h2, h1, h0]
  simp only [List.append_assoc, List.cons_append, List.nil_append, roundNumber]

theorem encode_drop {data : Bytes} {i : Nat} (h : i < data.length) :
    Base64.encode (data.drop i) =
      [Base64.sextetAt (roundNumber data i) 3, Base64.sextetAt (roundNumber data i) 2,
        if i + 1 < data.length then Base64.sextetAt (roundNumber data i) 1 else 61,
        if i + 2 < data.length then Base64.sextetAt (roundNumber data i) 0 else 61] ++
        Base64.encode (data.drop (i + 3)) := by
  have hbyte : ∀ {j : Nat} (hj : j < data.length), data.drop j = data.getD j 0 :: data.drop (j + 1) := by
    intro j hj
    rw [List.drop_eq_getElem_cons hj, List.getD_eq_getElem _ _ hj]
  have hnone : ∀ {j : Nat}, ¬ j < data.length → data.getD j 0 = 0 ∧ data.drop j = [] := by
    intro j hj
    have hle := Nat.le_of_not_lt hj
    exact ⟨List.getD_eq_default _ _ hle, List.drop_of_length_le hle⟩
  rw [hbyte h]
  by_cases h1 : i + 1 < data.length
  · rw [hbyte h1]
    by_cases h2 : i + 2 < data.length
    · rw [hbyte h2, Base64.encode_three, if_pos h1, if_pos h2, roundNumber]
    · obtain ⟨hzero, hnil⟩ := hnone h2
      have hrest : data.drop (i + 3) = [] := List.drop_of_length_le (by omega)
      rw [hnil, hrest, Base64.encode_two, Base64.encode_nil, if_pos h1, if_neg h2, roundNumber,
        hzero]
      simp only [UInt8.toNat_zero, Nat.add_zero, List.append_nil]
  · obtain ⟨hzero, hnil⟩ := hnone h1
    have h2 : ¬ i + 2 < data.length := by omega
    have hrest : data.drop (i + 3) = [] := List.drop_of_length_le (by omega)
    rw [hnil, hrest, Base64.encode_one, Base64.encode_nil, if_neg h1, if_neg h2, roundNumber,
      hzero, (hnone h2).1]
    simp only [UInt8.toNat_zero, Nat.zero_mul, Nat.add_zero, List.append_nil]

end round

theorem base64Loop_eq (data : Bytes) (i : Nat) (out : Bytes) :
    base64Loop data i out = out ++ Base64.encode (data.drop i) := by
  induction hleft : data.length - i using Nat.strongRecOn generalizing i out with
  | ind left ih =>
      by_cases h : i < data.length
      · have hnext := fun out => ih (data.length - (i + 3)) (by omega) (i + 3) out rfl
        rw [base64Loop_of_lt h, hnext, List.append_assoc, List.append_cancel_left_eq,
          encode_drop h]
      · rw [base64Loop, dif_neg h, List.drop_of_length_le (by omega), Base64.encode_nil,
          List.append_nil]

theorem base64Encode_eq (data : Bytes) :
    Relay.ClientSession.base64Encode data = Base64.encode data := by
  rw [Relay.ClientSession.base64Encode, base64Loop_eq, List.drop_zero, List.nil_append]

theorem base64Encode_inj {data data' : Bytes} (h : Relay.ClientSession.base64Encode data =
    Relay.ClientSession.base64Encode data') : data = data' := by
  rw [base64Encode_eq, base64Encode_eq] at h
  have hdecode := congrArg Base64.decode? h
  rwa [Base64.decode?_encode, Base64.decode?_encode, Option.some.injEq] at hdecode

/-- Both ends write the standard encoding: characters of the alphabet with `=` behind them,
four for every three bytes, that decode to the bytes. -/
theorem base64_standard (data : Bytes) (nonce : Vector UInt8 16) :
    Relay.ClientSession.base64Encode data = Base64.encode data ∧
    (∃ (sextets : List Nat) (pad : Nat), Relay.ClientSession.base64Encode data =
        sextets.map Base64.sextetChar ++ List.replicate pad 61 ∧
      (∀ n ∈ sextets, n < 64) ∧ pad ≤ 2) ∧
    (Relay.ClientSession.base64Encode data).length = 4 * ((data.length + 2) / 3) ∧
    Base64.decode? (Relay.ClientSession.base64Encode data) = some data ∧
    WsClient.keyB64 nonce = Base64.encode nonce.toList := by
  have hkey : WsClient.keyB64 nonce = Base64.encode nonce.toList := base64Encode_eq nonce.toList
  rw [base64Encode_eq]
  exact ⟨rfl, Base64.encode_eq data, Base64.length_encode data, Base64.decode?_encode data, hkey⟩

end LinuxLive
