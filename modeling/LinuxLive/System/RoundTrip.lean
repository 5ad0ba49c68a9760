import LinuxLive.Core.WsClient
import LinuxLive.Relay.Session

/-!
# Messages between the client and the relay

What one end writes to a WebSocket is what the other end delivers.
-/

namespace LinuxLive

open WebSocket Relay

def textFrame (key : Option MaskKey) (message : Bytes) (h : message.length < 2 ^ 64) : Frame :=
  .write 0x81 key message h

section text

variable {key : Option MaskKey} {message : Bytes}

theorem bytes_textFrame_some (key : MaskKey) (h : message.length < 2 ^ 64) :
    (textFrame (some key) message h).bytes = WsClient.sendText key message := Frame.bytes_write

theorem bytes_textFrame_none (h : message.length < 2 ^ 64) :
    (textFrame none message h).bytes = ClientSession.sendWsText message := by
  rw [textFrame, Frame.bytes_write]
  simp only [maskBit, maskBytes, mask, List.append_nil]
  rfl

theorem readLoop_textFrame {read : Nat → Bytes → Read} {hread : Reader read}
    {onEnd onClose : List Action} {after : Bytes} (h : message.length < 2 ^ 64)
    (huncut : (textFrame key message h).Uncut read after) (hsize : message.length < maxSize) :
    readLoop read hread onEnd onClose ((textFrame key message h).bytes ++ after) =
      .message message :: readLoop read hread onEnd onClose after := by
  have hbody : (textFrame key message h).body.length = message.length := length_mask _ _
  have hopcode : (textFrame key message h).opcode = 0x01 := by
    show (0x81 : UInt8) &&& 0x0F = 0x01
    decide
  have hpayload : (textFrame key message h).payload = message := Frame.payload_write
  have hlimit : ¬ maxSize ≤ message.length := by omega
  rw [readLoop_of_uncut huncut]
  simp [Frame.action, hbody, hopcode, hpayload, hlimit]

end text

theorem uncut_whole (f : Frame) (after : Bytes) :
    f.Uncut (ClientSession.recvRaw .whole) after := by
  have hfull : ∀ {a rest : Bytes}, Full (ClientSession.recvRaw .whole) a.length (a ++ rest) := by
    intro a rest
    unfold Full ClientSession.recvRaw
    rw [length_recv]
    simp [Segmentation.whole]
  have hheader : Full (ClientSession.recvRaw .whole) 2 (f.bytes ++ after) := by
    rw [f.bytes_append]
    exact hfull (a := [f.first, f.second])
  exact ⟨hheader, fun _ => hfull, fun _ => hfull⟩

section delivery

variable {messages : List (Bytes × MaskKey)} (hlength : ∀ m ∈ messages, m.1.length < 2 ^ 63)

include hlength

theorem wsReadLoop_sendText :
    ClientSession.wsReadLoop .whole (messages.flatMap fun m => WsClient.sendText m.2 m.1) =
      messages.map fun m => .message m.1 := by
  induction messages with
  | nil => exact readLoop_nil
  | cons m ms ih =>
      have hm := hlength m List.mem_cons_self
      have hms := ih fun m' hm' => hlength m' (List.mem_cons_of_mem m hm')
      unfold ClientSession.wsReadLoop at hms ⊢
      rw [List.flatMap_cons, ← bytes_textFrame_some m.2 (by omega),
        readLoop_textFrame _ (uncut_whole _ _) hm, hms, List.map_cons]

/-- The client's reads wait, so the pieces make no difference here. -/
theorem recvLoop_sendWsText (seg : Segmentation) :
    WsClient.recvLoop seg (messages.flatMap fun m => ClientSession.sendWsText m.1) =
      messages.map (fun m => .message m.1) ++ [.close] := by
  induction messages with
  | nil => exact readLoop_nil
  | cons m ms ih =>
      have hm := hlength m List.mem_cons_self
      have hms := ih fun m' hm' => hlength m' (List.mem_cons_of_mem m hm')
      unfold WsClient.recvLoop at hms ⊢
      rw [List.flatMap_cons, ← bytes_textFrame_none (by omega),
        readLoop_textFrame _ (WsClient.uncut_rawRecv seg _ _) hm, hms, List.map_cons,
        List.cons_append]

end delivery

/-- Each end delivers what the other one sent, one message for each, in order; then the
stream is at its end. -/
theorem messages_delivered (messages : List (Bytes × MaskKey))
    (hlength : ∀ m ∈ messages, m.1.length < 2 ^ 63) :
    ClientSession.wsReadLoop .whole (messages.flatMap fun m => WsClient.sendText m.2 m.1) =
      messages.map (fun m => .message m.1) ∧
    WsClient.recvLoop .whole (messages.flatMap fun m => ClientSession.sendWsText m.1) =
      messages.map (fun m => .message m.1) ++ [.close] :=
  ⟨wsReadLoop_sendText hlength, recvLoop_sendWsText hlength .whole⟩

def sampleMessages : List (Bytes × MaskKey) :=
  [(lit "ab", ⟨[1, 2, 3, 4], rfl⟩), ([], ⟨[0, 0, 0, 0], rfl⟩)]

theorem messages_delivered_sample :
    ClientSession.wsReadLoop .whole (sampleMessages.flatMap fun m => WsClient.sendText m.2 m.1) =
      [.message (lit "ab"), .message []] ∧
    WsClient.recvLoop .whole (sampleMessages.flatMap fun m => ClientSession.sendWsText m.1) =
      [.message (lit "ab"), .message [], .close] :=
  messages_delivered sampleMessages (by decide)

end LinuxLive
