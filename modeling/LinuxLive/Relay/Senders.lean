import LinuxLive.Lib.Writers
import LinuxLive.Relay.Session

/-!
# Several threads that send on one session

`send_raw` writes a frame in as many `send` calls as it takes and holds no lock.  Each
thread is a writer on the socket: `data` and `sent` are the locals of `send_raw`, and the
queue has the frames of its later calls of `send_ws_text`.
-/

namespace LinuxLive.Relay.ClientSession

open WebSocket Channel

/-- The threads of a session with the messages that each of them is going to send. -/
def senders (messages : List (List Bytes)) : Channel UInt8 :=
  .start (messages.map fun queue => queue.map sendWsText)

theorem sendWsText_cons (m : Bytes) : sendWsText m = 0x81 :: (lengthField 0 m.length ++ m) := rfl

/-- The two bytes that every text frame begins with are never both `0x81`. -/
theorem sendWsText_eq (m : Bytes) :
    ∃ second rest, sendWsText m = 0x81 :: second :: rest ∧ second ≠ 0x81 := by
  refine ⟨(lengthField 0 m.length).headD 0, (lengthField 0 m.length).tail ++ m, ?_, ?_⟩
  · rw [← List.cons_append, ← lengthField_eq, sendWsText_cons]
  · intro h
    have hbit : isMasked ((lengthField 0 m.length).headD 0) = false :=
      isMasked_lengthField (.inl rfl)
    rw [h] at hbit
    cases hbit

theorem not_prefix_frames (order : List Bytes) : ¬ [0x81, 0x81] <+: order.flatMap sendWsText := by
  intro h
  cases order with
  | nil =>
      rw [List.flatMap_nil, List.prefix_nil] at h
      cases h
  | cons m order =>
      obtain ⟨second, rest, hframe, hne⟩ := sendWsText_eq m
      rw [List.flatMap_cons, hframe, List.cons_append, List.cons_append, List.prefix_cons_inj,
        List.cons_prefix_cons] at h
      exact hne h.1.symm

/-- Two threads with a message each can tear their frames. -/
theorem exists_torn_frames {messages : List (List Bytes)}
    (h : ¬ messages.Pairwise fun p q => p = [] ∨ q = []) :
    ∃ c, Reachable (Channel.Step Free) (senders messages) c ∧ c.Finished ∧ [0x81, 0x81] <+: c.out := by
  simp only [List.pairwise_iff_forall_sublist, not_forall] at h
  obtain ⟨p, q, hsub, hpq⟩ := h
  obtain ⟨front, back, rfl, hp, hq⟩ := List.cons_sublist_iff.mp hsub
  obtain ⟨before, middle, rfl⟩ := List.append_of_mem hp
  obtain ⟨middle', after, rfl⟩ := List.append_of_mem (List.singleton_sublist.mp hq)
  rw [not_or] at hpq
  obtain ⟨m, ms, rfl⟩ := List.exists_cons_of_ne_nil hpq.1
  obtain ⟨m', ms', rfl⟩ := List.exists_cons_of_ne_nil hpq.2
  have hall := exists_torn (before.map fun queue => queue.map sendWsText)
    ((middle ++ middle').map fun queue => queue.map sendWsText)
    (after.map fun queue => queue.map sendWsText) 0x81 0x81 (lengthField 0 m.length ++ m)
    (lengthField 0 m'.length ++ m') (ms.map sendWsText) (ms'.map sendWsText)
  simpa [senders, sendWsText_cons] using hall

section whole

variable {messages : List (List Bytes)} {c : Channel UInt8}

theorem frames_of_alone (h : Reachable (Channel.Step Alone) (senders messages) c) :
    ∃ order : List Bytes, order.Perm messages.flatten ∧ c.out <+: order.flatMap sendWsText ∧
      (c.Finished → c.out = order.flatMap sendWsText) := by
  obtain ⟨blocks, hperm, hprefix, hfinished⟩ := whole_of_reachable h
  rw [← List.map_flatten] at hperm
  obtain ⟨order, rfl, horder⟩ : ∃ order : List Bytes, blocks = order.map sendWsText ∧
      order.Perm messages.flatten := by
    have hcomp := congrFun (congrFun (List.eq_map_comp_perm sendWsText) blocks) messages.flatten
    exact hcomp.mpr hperm
  exact ⟨order, horder, hprefix, hfinished⟩

/-- No schedule tears a frame exactly if at most one thread sends; and whoever sends,
frames stay whole in every run in which no thread sends while another one has sent a part
of its frame. -/
theorem frames_whole_iff (messages : List (List Bytes)) :
    ((∀ c, Reachable (Channel.Step Free) (senders messages) c → c.Finished →
        ∃ order : List Bytes, order.Perm messages.flatten ∧ c.out = order.flatMap sendWsText) ↔
      messages.Pairwise fun p q => p = [] ∨ q = []) ∧
    ∀ c, Reachable (Channel.Step Alone) (senders messages) c →
      ∃ order : List Bytes, order.Perm messages.flatten ∧ c.out <+: order.flatMap sendWsText ∧
        (c.Finished → c.out = order.flatMap sendWsText) := by
  refine ⟨⟨?_, ?_⟩, fun c => frames_of_alone⟩
  · intro hwhole
    by_contra hpair
    obtain ⟨c, hreach, hfinished, hprefix⟩ := exists_torn_frames hpair
    obtain ⟨order, _, hout⟩ := hwhole c hreach hfinished
    exact not_prefix_frames order (hout ▸ hprefix)
  · intro hpair c hreach hfinished
    have hsingle : Single (senders messages) := by
      apply single_start
      exact List.pairwise_map.mpr (hpair.imp (by simp))
    obtain ⟨order, horder, _, hout⟩ := frames_of_alone (reachable_alone_of_single hsingle hreach)
    exact ⟨order, horder, hout hfinished⟩

/-- Two threads that send a message of one byte each. -/
theorem frames_torn :
    ¬ ∀ c, Reachable (Channel.Step Free) (senders [[lit "a"], [lit "b"]]) c → c.Finished →
      ∃ order : List Bytes, order.Perm [lit "a", lit "b"] ∧ c.out = order.flatMap sendWsText := by
  intro hwhole
  obtain ⟨c, hreach, hfinished, hprefix⟩ := exists_torn_frames
    (show ¬ [[lit "a"], [lit "b"]].Pairwise fun p q => p = [] ∨ q = [] by simp)
  obtain ⟨order, _, hout⟩ := hwhole c hreach hfinished
  exact not_prefix_frames order (hout ▸ hprefix)

end whole

end LinuxLive.Relay.ClientSession
