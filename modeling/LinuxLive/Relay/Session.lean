import LinuxLive.Protocol.ReadLoop

/-!
# The relay's end of a WebSocket

`ClientSession`: the frames it writes and its read loop, and how far the loop
depends on the pieces in which a byte stream arrives.
-/

namespace LinuxLive.Relay.ClientSession

open WebSocket

def wsSendFrame (opcode : UInt8) (payload : Bytes) : Bytes :=
  (0x80 ||| opcode) :: (lengthField 0 payload.length ++ payload)

def sendWsText (message : Bytes) : Bytes := wsSendFrame 0x01 message

def recvRaw (seg : Segmentation) : Nat → Bytes → Read := recv seg

theorem reader_recvRaw (seg : Segmentation) : Reader (recvRaw seg) := reader_recv seg

def wsReadLoop (seg : Segmentation) (stream : Bytes) : List Action :=
  readLoop (recvRaw seg) (reader_recvRaw seg) [] [] stream

/-! ## Complete frames in pieces -/

/-- The frames that the loop comes to: it stops behind one that ends it, and at the first
whose header, extended length or mask does not come in at once. -/
def readable (seg : Segmentation) : List Frame → List Frame
  | [] => []
  | f :: fs =>
      if f.Uncut (recvRaw seg) (stream fs) then
        f :: if f.Ends then [] else readable seg fs
      else []

/-- The frames that the loop would come to if nothing were cut. -/
def live : List Frame → List Frame
  | [] => []
  | f :: fs => f :: if f.Ends then [] else live fs

section pieces

variable {seg seg' : Segmentation} {frames : List Frame}

theorem wsReadLoop_stream (seg : Segmentation) (frames : List Frame) :
    wsReadLoop seg (stream frames) = (readable seg frames).filterMap Frame.action := by
  induction frames with
  | nil => exact readLoop_nil
  | cons f fs ih =>
      have hstream : stream (f :: fs) = f.bytes ++ stream fs := rfl
      unfold wsReadLoop at ih ⊢
      rw [hstream, readable]
      by_cases huncut : f.Uncut (recvRaw seg) (stream fs)
      · rw [readLoop_of_uncut huncut, if_pos huncut, ih]
        unfold Frame.Ends
        rw [filterMap_action_cons]
        by_cases hlong : maxSize ≤ f.body.length
        · simp [hlong]
        · by_cases hclose : f.opcode = 0x08
          · simp [hclose]
          · simp [hlong, hclose]
      · rw [if_neg huncut]
        have hcut := readLoop_of_cut (reader_recvRaw seg) [] [] huncut
        rw [or_self] at hcut
        exact hcut

theorem readable_initial (seg : Segmentation) (frames : List Frame) :
    readable seg frames <+: live frames := by
  induction frames with
  | nil => exact List.prefix_refl _
  | cons f fs ih =>
      unfold readable live
      split
      · rw [List.prefix_cons_inj]
        split
        · exact List.prefix_refl _
        · exact ih
      · exact List.nil_prefix

theorem silent_of_append_iff (fs gs : List Frame) :
    (delivered ((fs ++ gs).filterMap Frame.action) = delivered (fs.filterMap Frame.action) ∧
      replies ((fs ++ gs).filterMap Frame.action) = replies (fs.filterMap Frame.action)) ↔
    ∀ f ∈ gs, f.Silent := by
  rw [List.filterMap_append, delivered_append, replies_append, List.append_right_eq_self,
    List.append_right_eq_self]
  induction gs with
  | nil => simp [delivered, replies]
  | cons g gs ih =>
      rw [filterMap_action_cons, delivered_append, replies_append, List.append_eq_nil_iff, List.append_eq_nil_iff,
        List.forall_mem_cons, Frame.silent_iff, ← ih]
      tauto

/-- Two segmentations have the same effect exactly if the frames that only one of them
lets the loop come to are neither delivered nor answered. -/
theorem segmentation_independent_iff (frames : List Frame) (seg seg' : Segmentation) :
    (delivered (wsReadLoop seg (stream frames)) = delivered (wsReadLoop seg' (stream frames)) ∧
      replies (wsReadLoop seg (stream frames)) = replies (wsReadLoop seg' (stream frames))) ↔
    (∀ f ∈ (readable seg frames).drop (readable seg' frames).length, f.Silent) ∧
      ∀ f ∈ (readable seg' frames).drop (readable seg frames).length, f.Silent := by
  rw [wsReadLoop_stream, wsReadLoop_stream]
  rcases List.prefix_or_prefix_of_prefix (readable_initial seg frames)
    (readable_initial seg' frames) with h | h
  · obtain ⟨gs, hgs⟩ := h
    have hsilent := silent_of_append_iff (readable seg frames) gs
    rw [← hgs, List.drop_left, List.drop_of_length_le (by simp), ← hsilent]
    simp [eq_comm]
  · obtain ⟨gs, hgs⟩ := h
    have hsilent := silent_of_append_iff (readable seg' frames) gs
    rw [← hgs, List.drop_left, List.drop_of_length_le (by simp), ← hsilent]
    simp

end pieces

/-- A text frame of which the first byte comes alone is lost. -/
theorem segmentation_dependent :
    ¬ ∀ (frames : List Frame) (seg seg' : Segmentation),
      delivered (wsReadLoop seg (stream frames)) = delivered (wsReadLoop seg' (stream frames)) ∧
        replies (wsReadLoop seg (stream frames)) = replies (wsReadLoop seg' (stream frames)) := by
  intro h
  have hall := (h [.write 0x81 none (lit "a") (by decide)] .whole .bytewise).1
  rw [wsReadLoop_stream, wsReadLoop_stream] at hall
  revert hall
  decide

end LinuxLive.Relay.ClientSession
