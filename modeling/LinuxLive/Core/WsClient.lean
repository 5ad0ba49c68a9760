import LinuxLive.Protocol.ReadLoop

/-!
# The client's end of a WebSocket

`WsClient`: the masked frames it writes and its read loop, whose reads wait for
all the bytes they ask for.
-/

namespace LinuxLive.WsClient

open WebSocket

/-- The mask is drawn by `RAND_bytes`. -/
def wsSendFrame (key : MaskKey) (opcode : UInt8) (payload : Bytes) : Bytes :=
  (0x80 ||| opcode) ::
    (lengthField 0x80 payload.length ++ key.bytes ++ applyMask key.bytes payload)

def sendText (key : MaskKey) (message : Bytes) : Bytes := wsSendFrame key 0x01 message

def rawRecv (seg : Segmentation) (len : Nat) (stream : Bytes) : Read := gather (recv seg) id len stream

theorem rawRecv_eq (seg : Segmentation) (len : Nat) (stream : Bytes) :
    rawRecv seg len stream = ⟨decide (len ≤ stream.length), stream.take len, stream.drop len⟩ :=
  (reader_recv seg).gather_eq fun _ hn => ⟨hn, Nat.le_refl _⟩

theorem reader_rawRecv (seg : Segmentation) : Reader (rawRecv seg) where
  append len stream := by
    rw [rawRecv_eq]
    exact List.take_append_drop _ _
  le_len len stream := by
    rw [rawRecv_eq, List.length_take]
    omega
  pos len stream hlen hok := by
    rw [rawRecv_eq] at hok ⊢
    have hle := of_decide_eq_true hok
    rw [List.length_take]
    omega
  of_not_ok len stream hlen hok := by
    rw [rawRecv_eq] at hok ⊢
    have hlt := of_decide_eq_false hok
    exact ⟨by omega, List.drop_of_length_le (by omega)⟩

/-- `recv_loop` while `connected_` is set and `disconnect()` is not called. -/
def recvLoop (seg : Segmentation) (stream : Bytes) : List Action :=
  readLoop (rawRecv seg) (reader_rawRecv seg) [.close] [.close] stream

theorem uncut_rawRecv (seg : Segmentation) (f : Frame) (after : Bytes) :
    f.Uncut (rawRecv seg) after where
  header := by
    simp [Full, rawRecv_eq, Frame.bytes]
  extended _ := by
    simp [Full, rawRecv_eq]
  mask _ := by
    simp [Full, rawRecv_eq]

end LinuxLive.WsClient
