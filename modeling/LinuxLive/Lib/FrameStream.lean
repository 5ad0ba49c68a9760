import LinuxLive.Lib.Pieces
import LinuxLive.Lib.WebSocket

/-!
# The frames of a byte stream

A stream that breaks off anywhere is some whole frames and the beginning of one more.
-/

namespace LinuxLive.WebSocket

/-! ## Reading a head -/

def maskSize (second : UInt8) : Nat := if isMasked second then 4 else 0

section fields

variable {second : UInt8} {rest : Bytes}

theorem length_extendedField (h : extendedSize second + maskSize second ≤ rest.length) :
    (rest.take (extendedSize second)).length = extendedSize second := by
  rw [List.length_take]
  omega

theorem length_maskField (h : extendedSize second + maskSize second ≤ rest.length) :
    ((rest.drop (extendedSize second)).take (maskSize second)).length = maskSize second := by
  rw [List.length_take, List.length_drop]
  omega

theorem length_payloadField {size : Nat} {after : Bytes} (h : size ≤ after.length) :
    (after.take size).length = size := by
  rw [List.length_take]
  omega

end fields

def head? : Bytes → Option (Head × Bytes)
  | first :: second :: rest =>
      if h : extendedSize second + maskSize second ≤ rest.length then
        some (
          { first := first
            second := second
            extended := rest.take (extendedSize second)
            mask := (rest.drop (extendedSize second)).take (maskSize second)
            extended_length := length_extendedField h
            mask_length := length_maskField h },
          rest.drop (extendedSize second + maskSize second))
      else none
  | _ => none

theorem head?_append (h : Head) (after : Bytes) : head? (h.bytes ++ after) = some (h, after) := by
  obtain ⟨first, second, extended, mask, hextended, hmask⟩ := h
  have hmask' : mask.length = maskSize second := hmask
  have hfits : extended.length + mask.length ≤ (extended ++ (mask ++ after)).length := by
    simp only [List.length_append]
    omega
  simp only [Head.bytes_append, List.cons_append, List.nil_append, head?, ← List.drop_drop,
    ← hextended, ← hmask', List.take_left, List.drop_left]
  exact dif_pos hfits

theorem eq_of_head? {stream after : Bytes} {h : Head} (hread : head? stream = some (h, after)) :
    stream = h.bytes ++ after := by
  unfold head? at hread
  split at hread
  · split at hread
    · cases hread
      simp only [Head.bytes_append, List.cons_append, List.nil_append, ← List.drop_drop,
        List.take_append_drop]
    · cases hread
  · cases hread

/-! ## Reading a frame -/

def frame? (stream : Bytes) : Option (Frame × Bytes) :=
  match head? stream with
  | none => none
  | some (h, after) =>
      if hsize : h.size ≤ after.length then
        some (h.frame (after.take h.size) (length_payloadField hsize), after.drop h.size)
      else none

theorem frame?_append (f : Frame) (rest : Bytes) : frame? (f.bytes ++ rest) = some (f, rest) := by
  have hsize : f.body.length ≤ (f.body ++ rest).length := by
    rw [List.length_append]
    omega
  simp only [frame?, f.bytes_eq, List.append_assoc, head?_append, f.size_head, List.take_left,
    List.drop_left]
  exact dif_pos hsize

theorem eq_of_frame? {stream rest : Bytes} {f : Frame} (hread : frame? stream = some (f, rest)) :
    stream = f.bytes ++ rest := by
  unfold frame? at hread
  split at hread
  · cases hread
  · rename_i h after hhead
    split at hread
    · cases hread
      rw [eq_of_head? hhead, Frame.bytes_eq, List.append_assoc]
      congr 1
      exact (List.take_append_drop _ _).symm
    · cases hread

theorem bytes_ne_nil (f : Frame) : f.bytes ≠ [] := by simp [Frame.bytes]

def frameCodec : PieceCodec Frame UInt8 where
  encode := Frame.bytes
  read? := frame?
  encode_ne_nil := bytes_ne_nil
  read?_encode := frame?_append
  eq_of_read? _ _ _ := eq_of_frame?

def wholeFrames (bytes : Bytes) : List Frame := (frameCodec.split bytes).1

/-- Behind the whole frames no other is contained in the stream. -/
theorem wholeFrames_spec (bytes : Bytes) : ∃ tail, bytes = stream (wholeFrames bytes) ++ tail ∧
    ∀ f after, tail ≠ Frame.bytes f ++ after := by
  obtain ⟨hjoin, htail⟩ := frameCodec.split_spec bytes
  exact ⟨_, hjoin.symm, frameCodec.read?_eq_none_iff.mp htail⟩

theorem wholeFrames_stream (frames : List Frame) (rest : Bytes) :
    wholeFrames (stream frames ++ rest) = frames ++ wholeFrames rest :=
  congrArg Prod.fst (frameCodec.split_join frames rest)

theorem wholeFrames_append (f : Frame) (rest : Bytes) :
    wholeFrames (f.bytes ++ rest) = f :: wholeFrames rest :=
  congrArg Prod.fst (frameCodec.split_encode f rest)

/-- A head whose payload is cut off is no whole frame. -/
theorem wholeFrames_of_short {h : Head} {after : Bytes} (hshort : after.length < h.size) :
    wholeFrames (h.bytes ++ after) = [] := by
  have hnone : frameCodec.read? (h.bytes ++ after) = none := by
    show frame? (h.bytes ++ after) = none
    simp only [frame?, head?_append, dif_neg (Nat.not_le.mpr hshort)]
  exact congrArg Prod.fst (frameCodec.split_of_none hnone)

end LinuxLive.WebSocket
