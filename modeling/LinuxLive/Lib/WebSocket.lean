import Mathlib.Algebra.Ring.Nat
import Mathlib.Data.LawfulXor.Basic
import LinuxLive.Lib.Sockets

/-!
# WebSocket frames

The layout of a frame, and the fields that a writer puts in front of its payload.
-/

namespace LinuxLive.WebSocket

/-! ## Masks -/

/-- `payload[i] ^ mask[i % 4]`. -/
def applyMask (mask payload : Bytes) : Bytes :=
  payload.mapIdx fun i b => b ^^^ mask.getD (i % 4) 0

@[simp] theorem length_applyMask (mask payload : Bytes) :
    (applyMask mask payload).length = payload.length := List.length_mapIdx

theorem applyMask_applyMask (mask payload : Bytes) :
    applyMask mask (applyMask mask payload) = payload := by
  apply List.ext_getElem
  · simp
  · intro i _ _
    simp [applyMask]

/-! ## Length fields -/

/-- The number with the given bytes, the highest first. -/
def bigEndian (bs : Bytes) : UInt64 := bs.foldl (fun n b => n <<< 8 ||| b.toUInt64) 0

/-- The second byte of a frame and the extended length. -/
def lengthField (maskBit : UInt8) (len : Nat) : Bytes :=
  if len < 126 then [maskBit ||| UInt8.ofNat len]
  else if len ≤ 65535 then
    [maskBit ||| 126, UInt8.ofNat (len >>> 8 &&& 0xFF), UInt8.ofNat (len &&& 0xFF)]
  else
    (maskBit ||| 127) ::
      [7, 6, 5, 4, 3, 2, 1, 0].map fun i => UInt8.ofNat (len >>> (i * 8) &&& 0xFF)

def extendedSize (second : UInt8) : Nat :=
  if second &&& 0x7F = 126 then 2 else if second &&& 0x7F = 127 then 8 else 0

def isMasked (second : UInt8) : Bool := second &&& 0x80 != 0

def payloadLength (second : UInt8) (extended : Bytes) : Nat :=
  if extendedSize second = 0 then (second &&& 0x7F).toNat else (bigEndian extended).toNat

/-! ## What a length field says -/

theorem toNat_shift_or (n : UInt64) (b : UInt8) :
    (n <<< 8 ||| b.toUInt64).toNat = (n.toNat * 256 + b.toNat) % 2 ^ 64 := by
  have hb := b.toNat_lt
  have hshift : (n <<< 8).toNat = (n.toNat % 2 ^ 56) <<< 8 := by
    rw [UInt64.toNat_shiftLeft, Nat.shiftLeft_eq, Nat.shiftLeft_eq]
    show n.toNat * 2 ^ 8 % 2 ^ 64 = _
    omega
  rw [UInt64.toNat_or, hshift, UInt8.toNat_toUInt64, ← Nat.shiftLeft_add_eq_or_of_lt (by omega),
    Nat.shiftLeft_eq]
  omega

theorem toNat_bigEndian (bs : Bytes) :
    (bigEndian bs).toNat = bs.foldl (fun (n : Nat) b => n * 256 + b.toNat) 0 % 2 ^ 64 := by
  have hfold : ∀ (n : UInt64) (m : Nat), n.toNat = m % 2 ^ 64 →
      (bs.foldl (fun (n : UInt64) b => n <<< 8 ||| b.toUInt64) n).toNat =
        bs.foldl (fun (n : Nat) b => n * 256 + b.toNat) m % 2 ^ 64 := by
    induction bs with
    | nil => exact fun n m h => h
    | cons b bs ih =>
        intro n m h
        apply ih
        rw [toNat_shift_or, h]
        show _ = (m * 256 + b.toNat) % 2 ^ 64
        omega
  exact hfold 0 0 rfl

theorem toNat_byte (len i : Nat) :
    (UInt8.ofNat (len >>> i &&& 0xFF)).toNat = len / 2 ^ i % 256 := by
  rw [UInt8.toNat_ofNat', Nat.and_two_pow_sub_one_eq_mod _ 8, Nat.shiftRight_eq_div_pow]
  omega

/-- The low bits of a second byte are the number, the high one is the mask bit. -/
theorem second_eq {maskBit : UInt8} {n : Nat} (hn : n < 128)
    (hmask : maskBit = 0 ∨ maskBit = 0x80) :
    (maskBit ||| UInt8.ofNat n) &&& 0x7F = UInt8.ofNat n ∧
      isMasked (maskBit ||| UInt8.ofNat n) = decide (maskBit = 0x80) := by
  have hall : ∀ n, n < 128 → ∀ bit ∈ ([0, 0x80] : List UInt8),
      (bit ||| UInt8.ofNat n) &&& 0x7F = UInt8.ofNat n ∧
        isMasked (bit ||| UInt8.ofNat n) = decide (bit = 0x80) := by decide +kernel
  exact hall n hn maskBit (by simpa using hmask)

section field

variable {maskBit : UInt8} {len : Nat}

theorem lengthField_eq (maskBit : UInt8) (len : Nat) :
    lengthField maskBit len =
      (lengthField maskBit len).headD 0 :: (lengthField maskBit len).tail := by
  unfold lengthField
  split
  · rfl
  · split <;> rfl

theorem isMasked_lengthField (hmask : maskBit = 0 ∨ maskBit = 0x80) :
    isMasked ((lengthField maskBit len).headD 0) = decide (maskBit = 0x80) := by
  unfold lengthField
  split
  · exact (second_eq (by omega) hmask).2
  · split
    · exact (second_eq (n := 126) (by omega) hmask).2
    · exact (second_eq (n := 127) (by omega) hmask).2

theorem lengthField_spec (hmask : maskBit = 0 ∨ maskBit = 0x80) (hlen : len < 2 ^ 64) :
    (lengthField maskBit len).tail.length = extendedSize ((lengthField maskBit len).headD 0) ∧
      isMasked ((lengthField maskBit len).headD 0) = decide (maskBit = 0x80) ∧
      payloadLength ((lengthField maskBit len).headD 0) (lengthField maskBit len).tail = len := by
  by_cases hshort : len < 126
  · obtain ⟨hseven, hbit⟩ := second_eq (n := len) (by omega) hmask
    have htoNat : (UInt8.ofNat len).toNat = len := by
      rw [UInt8.toNat_ofNat']
      omega
    have hne : ∀ b : UInt8, 126 ≤ b.toNat → UInt8.ofNat len ≠ b := by
      intro b hb h
      rw [← h, htoNat] at hb
      omega
    have hsize : extendedSize (maskBit ||| UInt8.ofNat len) = 0 := by
      unfold extendedSize
      rw [hseven, if_neg (hne 126 (by decide)), if_neg (hne 127 (by decide))]
    simp only [lengthField, if_pos hshort, List.headD_cons, List.tail_cons, payloadLength, hsize,
      hseven, htoNat, hbit, List.length_nil, if_true, and_self]
  · by_cases hmiddle : len ≤ 65535
    · obtain ⟨hseven, hbit⟩ := second_eq (n := 126) (by omega) hmask
      have hsize : extendedSize (maskBit ||| 126) = 2 := if_pos hseven
      have hread : (bigEndian [UInt8.ofNat (len >>> 8 &&& 0xFF),
          UInt8.ofNat (len &&& 0xFF)]).toNat = len := by
        have hlow := toNat_byte len 0
        rw [Nat.shiftRight_zero] at hlow
        rw [toNat_bigEndian]
        simp only [List.foldl_cons, List.foldl_nil, toNat_byte, hlow]
        omega
      simp only [lengthField, if_neg hshort, if_pos hmiddle, List.headD_cons, List.tail_cons,
        payloadLength, hsize, hread]
      exact ⟨rfl, hbit, rfl⟩
    · obtain ⟨hseven, hbit⟩ := second_eq (n := 127) (by omega) hmask
      have hsize : extendedSize (maskBit ||| 127) = 8 := by
        unfold extendedSize
        rw [show (maskBit ||| 127) &&& 0x7F = 127 from hseven]
        rfl
      have hread : (bigEndian ([7, 6, 5, 4, 3, 2, 1, 0].map fun i =>
          UInt8.ofNat (len >>> (i * 8) &&& 0xFF))).toNat = len := by
        rw [toNat_bigEndian]
        simp only [List.map_cons, List.map_nil, List.foldl_cons, List.foldl_nil, toNat_byte]
        omega
      simp only [lengthField, if_neg hshort, if_neg hmiddle, List.headD_cons, List.tail_cons,
        payloadLength, hsize, hread]
      exact ⟨rfl, hbit, rfl⟩

end field

/-! ## Frames -/

structure Frame where
  first : UInt8
  second : UInt8
  extended : Bytes
  mask : Bytes
  /-- The payload as it is sent, under the mask. -/
  body : Bytes
  extended_length : extended.length = extendedSize second
  mask_length : mask.length = if isMasked second then 4 else 0
  body_length : body.length = payloadLength second extended

namespace Frame

def bytes (f : Frame) : Bytes := f.first :: f.second :: (f.extended ++ f.mask ++ f.body)

theorem bytes_append (f : Frame) (after : Bytes) : f.bytes ++ after =
    [f.first, f.second] ++ (f.extended ++ (f.mask ++ (f.body ++ after))) := by
  simp [bytes]

def opcode (f : Frame) : UInt8 := f.first &&& 0x0F

def payload (f : Frame) : Bytes :=
  if isMasked f.second then applyMask f.mask f.body else f.body

end Frame

structure Head where
  first : UInt8
  second : UInt8
  extended : Bytes
  mask : Bytes
  extended_length : extended.length = extendedSize second
  mask_length : mask.length = if isMasked second then 4 else 0

namespace Head

def bytes (h : Head) : Bytes := h.first :: h.second :: (h.extended ++ h.mask)

theorem bytes_append (h : Head) (after : Bytes) :
    h.bytes ++ after = [h.first, h.second] ++ (h.extended ++ (h.mask ++ after)) := by
  simp [bytes]

theorem bytes_inj {h h' : Head} {after after' : Bytes}
    (heq : h.bytes ++ after = h'.bytes ++ after') : h = h' ∧ after = after' := by
  obtain ⟨first, second, extended, mask, hextended, hmask⟩ := h
  obtain ⟨first', second', extended', mask', hextended', hmask'⟩ := h'
  simp only [bytes_append, List.cons_append, List.nil_append, List.cons.injEq] at heq
  obtain ⟨rfl, rfl, hfields⟩ := heq
  obtain ⟨rfl, hbehind⟩ := List.append_inj hfields (hextended.trans hextended'.symm)
  obtain ⟨rfl, rfl⟩ := List.append_inj hbehind (hmask.trans hmask'.symm)
  exact ⟨rfl, rfl⟩

def opcode (h : Head) : UInt8 := h.first &&& 0x0F

def size (h : Head) : Nat := payloadLength h.second h.extended

def unmask (h : Head) (body : Bytes) : Bytes :=
  if isMasked h.second then applyMask h.mask body else body

def frame (h : Head) (body : Bytes) (hbody : body.length = h.size) : Frame where
  first := h.first
  second := h.second
  extended := h.extended
  mask := h.mask
  body := body
  extended_length := h.extended_length
  mask_length := h.mask_length
  body_length := hbody

end Head

namespace Frame

def head (f : Frame) : Head where
  first := f.first
  second := f.second
  extended := f.extended
  mask := f.mask
  extended_length := f.extended_length
  mask_length := f.mask_length

theorem bytes_eq (f : Frame) : f.bytes = f.head.bytes ++ f.body := rfl

theorem size_head (f : Frame) : f.head.size = f.body.length := f.body_length.symm

theorem exists_of_head {h : Head} {after : Bytes} (hle : h.size ≤ after.length) :
    ∃ f : Frame, f.head = h ∧ f.body ++ after.drop h.size = after :=
  ⟨h.frame (after.take h.size) (List.length_take_of_le hle), rfl, List.take_append_drop _ _⟩

end Frame

/-! ## Writing a frame -/

structure MaskKey where
  bytes : Bytes
  length_eq : bytes.length = 4

def maskBit : Option MaskKey → UInt8
  | none => 0
  | some _ => 0x80

def maskBytes : Option MaskKey → Bytes
  | none => []
  | some key => key.bytes

def mask (key : Option MaskKey) (payload : Bytes) : Bytes :=
  match key with
  | none => payload
  | some key => applyMask key.bytes payload

@[simp] theorem length_mask (key : Option MaskKey) (payload : Bytes) :
    (mask key payload).length = payload.length := by
  cases key with
  | none => rfl
  | some key => exact length_applyMask _ _

theorem maskBit_or (key : Option MaskKey) : maskBit key = 0 ∨ maskBit key = 0x80 := by
  cases key with
  | none => exact .inl rfl
  | some key => exact .inr rfl

namespace Frame

def write (first : UInt8) (key : Option MaskKey) (payload : Bytes) (h : payload.length < 2 ^ 64) :
    Frame where
  first := first
  second := (lengthField (maskBit key) payload.length).headD 0
  extended := (lengthField (maskBit key) payload.length).tail
  mask := maskBytes key
  body := WebSocket.mask key payload
  extended_length := (lengthField_spec (maskBit_or key) h).1
  mask_length := by
    rw [(lengthField_spec (maskBit_or key) h).2.1]
    cases key with
    | none => rfl
    | some key => exact key.length_eq
  body_length := by
    rw [(lengthField_spec (maskBit_or key) h).2.2, length_mask]

variable {first : UInt8} {key : Option MaskKey} {payload : Bytes} {h : payload.length < 2 ^ 64}

theorem bytes_write : (write first key payload h).bytes =
    first :: (lengthField (maskBit key) payload.length ++ maskBytes key ++
      WebSocket.mask key payload) := by
  rw [lengthField_eq]
  rfl

theorem payload_write : (write first key payload h).payload = payload := by
  unfold Frame.payload
  cases key with
  | none =>
      have hbit : isMasked (write first none payload h).second = false :=
        (lengthField_spec (maskBit_or none) h).2.1
      rw [hbit]
      rfl
  | some key =>
      have hbit : isMasked (write first (some key) payload h).second = true :=
        (lengthField_spec (maskBit_or (some key)) h).2.1
      rw [hbit]
      exact applyMask_applyMask _ _

end Frame

def stream (frames : List Frame) : Bytes := frames.flatMap Frame.bytes

end LinuxLive.WebSocket
