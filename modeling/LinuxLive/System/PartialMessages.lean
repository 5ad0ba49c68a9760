import LinuxLive.Core.WsClient
import LinuxLive.Protocol.PartialFrames
import LinuxLive.Relay.Session

/-!
# Partial messages

What both ends of a connection make of a stream that the peer cuts off.
-/

namespace LinuxLive

open WebSocket

theorem quiet_nil : Quiet [] := ⟨rfl, rfl⟩

theorem quiet_close : Quiet [.close] := ⟨rfl, rfl⟩

/-- No part of a message is delivered or answered, and no whole one is lost, exactly if the
stream is read up to its last text frame and does not end inside the payload of a text or
ping frame that the loop comes to. -/
theorem partial_messages_iff (seg : Segmentation) (bytes : Bytes) :
    (OnlyWholeFrames bytes (Relay.ClientSession.wsReadLoop seg bytes) ↔
      TextsRead (Relay.ClientSession.recvRaw seg) bytes ∧
        ¬ EndsInPayload (Relay.ClientSession.recvRaw seg) bytes) ∧
    (OnlyWholeFrames bytes (WsClient.recvLoop seg bytes) ↔
      TextsRead (WsClient.rawRecv seg) bytes ∧ ¬ EndsInPayload (WsClient.rawRecv seg) bytes) :=
  ⟨onlyWholeFrames_iff quiet_nil quiet_nil bytes, onlyWholeFrames_iff quiet_close quiet_close bytes⟩

/-! ## A text of which one byte comes -/

def textHead : Head where
  first := 0x81
  second := 2
  extended := []
  mask := []
  extended_length := by decide
  mask_length := by decide

/-- The head of a text of two bytes, and the first of them. -/
def cutText : Bytes := textHead.bytes ++ lit "a"

theorem wholeFrames_cutText : wholeFrames cutText = [] := wholeFrames_of_short (by decide)

theorem delivered_cutText {read : Nat → Bytes → Read} {hread : Reader read}
    {onEnd onClose : List Action} (huncut : textHead.Uncut read (lit "a")) :
    readLoop read hread onEnd onClose cutText = .message (lit "a" ++ [0]) :: onEnd := by
  have hpayload : textHead.payload (lit "a") = lit "a" ++ [0] := by decide
  have hopcode : textHead.opcode = 0x01 := by decide
  have hsize : ¬ maxSize ≤ textHead.size := by decide
  have hrest : (lit "a").drop textHead.size = [] := by decide
  rw [cutText, readLoop_of_head huncut, if_neg hsize, hpayload, hrest, readLoop_nil,
    Head.action, if_pos hopcode, hopcode]
  rfl

theorem cut_text_is_delivered :
    delivered (Relay.ClientSession.wsReadLoop .whole cutText) = [lit "a" ++ [0]] ∧
    delivered (WsClient.recvLoop .whole cutText) = [lit "a" ++ [0]] ∧
    ¬ ((∀ seg bytes, OnlyWholeFrames bytes (Relay.ClientSession.wsReadLoop seg bytes)) ∧
      ∀ seg bytes, OnlyWholeFrames bytes (WsClient.recvLoop seg bytes)) := by
  have hrelay : delivered (Relay.ClientSession.wsReadLoop .whole cutText) = [lit "a" ++ [0]] := by
    rw [Relay.ClientSession.wsReadLoop, delivered_cutText (by decide)]
    rfl
  have hclient : delivered (WsClient.recvLoop .whole cutText) = [lit "a" ++ [0]] := by
    rw [WsClient.recvLoop, delivered_cutText]
    · rfl
    · refine ⟨?_, ?_, ?_⟩
      · rw [Full, WsClient.rawRecv_eq]
        decide
      · exact fun hne => absurd rfl hne
      · exact fun hne => absurd rfl hne
  refine ⟨hrelay, hclient, fun hall => ?_⟩
  have hmessages := (hall.1 .whole cutText).messages
  rw [hrelay, wholeFrames_cutText] at hmessages
  cases hmessages

end LinuxLive
