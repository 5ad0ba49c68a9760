import LinuxLive.Lib.Turns
import LinuxLive.System.RoundTrip

/-!
# Several threads that send on one client

`WsClient::ws_send_frame` holds `send_mutex_` until its frame is out, so that the frames of
different threads stay whole; what the relay makes of the stream.
-/

namespace LinuxLive

open WebSocket Relay

namespace WsClient

/-- A call of `ws_send_frame`: by `send_text`, and by `recv_loop` for a ping or a close. -/
inductive Outgoing where
  | text (key : MaskKey) (message : Bytes) (h : message.length < 2 ^ 63)
  | pong (key : MaskKey) (payload : Bytes) (h : payload.length < 2 ^ 63)
  | close (key : MaskKey)

namespace Outgoing

def bytes : Outgoing → Bytes
  | text key message _ => sendText key message
  | pong key payload _ => wsSendFrame key 0x0A payload
  | close key => wsSendFrame key 0x08 []

def frame : Outgoing → Frame
  | text key message h => .write 0x81 (some key) message (by omega)
  | pong key payload h => .write 0x8A (some key) payload (by omega)
  | close key => .write 0x88 (some key) [] (by decide)

theorem bytes_frame (o : Outgoing) : o.frame.bytes = o.bytes := by
  cases o with
  | text key message h => exact bytes_textFrame_some key (by omega)
  | pong key payload h =>
      rw [frame, Frame.bytes_write]
      rfl
  | close key =>
      rw [frame, Frame.bytes_write]
      rfl

/-- What the relay makes of frames up to the first close: the messages, and its own close. -/
def heard : List Outgoing → List Action
  | [] => []
  | text _ message _ :: os => .message message :: heard os
  | pong _ _ _ :: os => heard os
  | close _ :: _ => [.send 0x08 []]

theorem action_write {first : UInt8} {key : MaskKey} {payload : Bytes}
    {h : payload.length < 2 ^ 64} (hsize : payload.length < 2 ^ 63) :
    (Frame.write first (some key) payload h).action =
      if first &&& 0x0F = 0x01 then some (.message payload)
      else if first &&& 0x0F = 0x08 then some (.send 0x08 [])
      else if first &&& 0x0F = 0x09 then some (.send 0x0A payload)
      else none := by
  have hbody : ¬ maxSize ≤ (Frame.write first (some key) payload h).body.length := by
    rw [Frame.write, length_mask, maxSize]
    omega
  rw [Frame.action, if_neg hbody, Frame.payload_write]
  rfl

theorem action_frame (o : Outgoing) : o.frame.action =
    match o with
    | text _ message _ => some (.message message)
    | pong _ _ _ => none
    | close _ => some (.send 0x08 []) := by
  cases o with
  | text key message h =>
      rw [frame, action_write h]
      exact if_pos (by decide)
  | pong key payload h =>
      rw [frame, action_write h, if_neg (by decide), if_neg (by decide), if_neg (by decide)]
  | close key =>
      rw [frame, action_write (by decide), if_neg (by decide)]
      exact if_pos (by decide)

theorem ends_frame (o : Outgoing) : o.frame.Ends ↔ ∃ key, o = close key := by
  have hsize : ¬ maxSize ≤ o.frame.body.length := by
    cases o with
    | text key message h => rw [frame, Frame.write, length_mask, maxSize]; omega
    | pong key payload h => rw [frame, Frame.write, length_mask, maxSize]; omega
    | close key => rw [frame, Frame.write, length_mask, maxSize]; decide
  rw [Frame.Ends, or_iff_right hsize]
  cases o with
  | text key message h =>
      have hopcode : (frame (text key message h)).opcode = 0x01 := by
        show (0x81 : UInt8) &&& 0x0F = 0x01
        decide
      simp [hopcode]
  | pong key payload h =>
      have hopcode : (frame (pong key payload h)).opcode = 0x0A := by
        show (0x8A : UInt8) &&& 0x0F = 0x0A
        decide
      simp [hopcode]
  | close key =>
      have hopcode : (frame (close key)).opcode = 0x08 := by
        show (0x88 : UInt8) &&& 0x0F = 0x08
        decide
      simp [hopcode]

theorem wsReadLoop_bytes (os : List Outgoing) :
    ClientSession.wsReadLoop .whole (os.flatMap bytes) = heard os := by
  have hstream : os.flatMap bytes = stream (os.map frame) := by
    simp [stream, List.flatMap_map, bytes_frame]
  rw [hstream, ClientSession.wsReadLoop_stream]
  clear hstream
  induction os with
  | nil => rfl
  | cons o os ih =>
      rw [List.map_cons, ClientSession.readable, if_pos (uncut_whole _ _)]
      by_cases hends : o.frame.Ends
      · obtain ⟨key, rfl⟩ := (ends_frame o).mp hends
        rw [if_pos hends, List.filterMap_cons, action_frame]
        rfl
      · rw [if_neg hends, List.filterMap_cons, action_frame, ih]
        cases o with
        | text key message h => rfl
        | pong key payload h => rfl
        | close key => exact absurd ((ends_frame _).mpr ⟨key, rfl⟩) hends

end Outgoing

/-- However the threads of a client take turns, and however `send` cuts their frames: the
stream is made of whole frames in the order in which the lock was taken, up to the last one if
no send failed, the frames of each thread in its own order; and with the lock free it is all of
them, and the relay delivers exactly their messages. -/
theorem sent_frames_whole (queues : List (Nat × List Outgoing))
    (q : Pool (Turns.Writer Nat Outgoing UInt8) (Turns.Output Nat Outgoing UInt8))
    (hnodup : (queues.map Prod.fst).Nodup)
    (h : Reachable (Turns.Steps Outgoing.bytes) (Turns.start queues) q) :
    q.shared.out <+: q.shared.begun.flatMap (fun b => b.2.bytes) ∧
      (q.shared.failed = false →
        q.shared.begun.dropLast.flatMap (fun b => b.2.bytes) <+: q.shared.out) ∧
      (∀ i queue, (i, queue) ∈ queues → ∃ w ∈ q.threads, w.id = i ∧
        (q.shared.begun.filter fun b => b.1 = i).map Prod.snd ++ w.queue = queue) ∧
      (q.shared.holder = none → q.shared.failed = false →
        q.shared.out = q.shared.begun.flatMap (fun b => b.2.bytes) ∧
        ClientSession.wsReadLoop .whole q.shared.out =
          Outgoing.heard (q.shared.begun.map Prod.snd)) := by
  obtain ⟨hsound, horder⟩ := Turns.whole_blocks hnodup h
  refine ⟨hsound.initial, hsound.earlier, horder, fun hfree hfailed => ?_⟩
  have hout := hsound.whole hfree hfailed
  refine ⟨hout, ?_⟩
  rw [hout, Turns.Output.blocks, ← Outgoing.wsReadLoop_bytes, List.flatMap_map]

theorem length_sampleText (b : UInt8) : [b].length < 2 ^ 63 := by
  rw [List.length_singleton]
  decide

theorem length_sampleKey : ([1, 2, 3, 4] : Bytes).length = 4 := rfl

def sampleText (b : UInt8) : Outgoing :=
  .text ⟨[1, 2, 3, 4], length_sampleKey⟩ [b] (length_sampleText b)

/-- The second thread sends its message before the first one. -/
theorem sent_frames_whole_pair :
    ∃ q, Reachable (Turns.Steps Outgoing.bytes)
        (Turns.start [(0, [sampleText 97]), (1, [sampleText 98])]) q ∧
      q.shared.begun = [(1, sampleText 98), (0, sampleText 97)] ∧
      ClientSession.wsReadLoop .whole q.shared.out = [.message [98], .message [97]] := by
  have hsecond : Reachable (Turns.Steps Outgoing.bytes)
      ⟨[⟨0, none, [sampleText 97]⟩] ++ ⟨1, none, [sampleText 98]⟩ :: [], ⟨none, [], [], false⟩⟩ _ :=
    Turns.reachable_block
  have hfirst : ∀ begun out, Reachable (Turns.Steps Outgoing.bytes)
      ⟨[] ++ ⟨0, none, [sampleText 97]⟩ :: [⟨1, none, []⟩], ⟨none, begun, out, false⟩⟩
      ⟨[] ++ ⟨0, none, []⟩ :: [⟨1, none, []⟩], ⟨none, begun ++ [(0, sampleText 97)],
        out ++ (sampleText 97).bytes, false⟩⟩ := fun _ _ => Turns.reachable_block
  have hrun := hsecond.trans (hfirst _ _)
  obtain ⟨_, _, _, hheard⟩ := sent_frames_whole [(0, [sampleText 97]), (1, [sampleText 98])] _
    (by decide) hrun
  exact ⟨_, hrun, rfl, (hheard rfl rfl).2⟩

end WsClient

end LinuxLive
