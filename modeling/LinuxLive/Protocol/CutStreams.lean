import LinuxLive.Lib.FrameStream
import LinuxLive.Protocol.ReadLoop

/-!
# Streams that break off

How far the read loop comes in a stream that the peer may cut off anywhere, and what it
does where it stops.
-/

namespace LinuxLive.WebSocket

/-! ## Frames that are read in full -/

/-- The frames are read one after another, and the loop goes on to what is behind them. -/
def Passed (read : Nat → Bytes → Read) (rest : Bytes) : List Frame → Prop
  | [] => True
  | f :: fs => (f.Uncut read (stream fs ++ rest) ∧ ¬ f.Ends) ∧ Passed read rest fs

/-- No frame in front is read in full and leaves the loop running. -/
def Stops (read : Nat → Bytes → Read) (rest : Bytes) : Prop :=
  ∀ f after, rest = Frame.bytes f ++ after → f.Uncut read after → f.Ends

section passed

variable {read : Nat → Bytes → Read} {hread : Reader read} {onEnd onClose : List Action}
  {bytes rest rest' : Bytes} {fs fs' : List Frame}

theorem stream_cons (f : Frame) (fs : List Frame) : stream (f :: fs) = f.bytes ++ stream fs := rfl

theorem Passed.not_ends (h : Passed read rest fs) : ∀ f ∈ fs, ¬ f.Ends := by
  induction fs with
  | nil => exact fun f hf => absurd hf List.not_mem_nil
  | cons f fs ih => exact List.forall_mem_cons.mpr ⟨h.1.2, ih h.2⟩

theorem notMem_of_not_ends (h : ∀ f ∈ fs, ¬ f.Ends) :
    .close ∉ fs.filterMap Frame.action ∧ .lengthError ∉ fs.filterMap Frame.action := by
  have haction : ∀ f ∈ fs, f.action ≠ some .close ∧ f.action ≠ some .lengthError := by
    intro f hf
    rw [f.action_eq, if_neg (not_or.mp (h f hf)).1]
    exact f.head.action_ne f.payload
  constructor
  · intro hmem
    obtain ⟨f, hf, hclose⟩ := List.mem_filterMap.mp hmem
    exact (haction f hf).1 hclose
  · intro hmem
    obtain ⟨f, hf, hthrows⟩ := List.mem_filterMap.mp hmem
    exact (haction f hf).2 hthrows

theorem readLoop_passed (h : Passed read rest fs) :
    readLoop read hread onEnd onClose (stream fs ++ rest) =
      fs.filterMap Frame.action ++ readLoop read hread onEnd onClose rest := by
  induction fs with
  | nil => rfl
  | cons f fs ih =>
      obtain ⟨⟨huncut, hgoes⟩, hpassed⟩ := h
      obtain ⟨hshort, hopen⟩ := not_or.mp hgoes
      rw [stream_cons, List.append_assoc, readLoop_of_uncut huncut, if_neg hshort, if_neg hopen,
        ih hpassed, filterMap_action_cons, List.append_assoc]

theorem exists_stop (read : Nat → Bytes → Read) (bytes : Bytes) :
    ∃ fs rest, bytes = stream fs ++ rest ∧ Passed read rest fs ∧ Stops read rest := by
  induction hn : bytes.length using Nat.strongRecOn generalizing bytes with
  | ind n ih =>
      by_cases hstop : Stops read bytes
      · exact ⟨[], bytes, rfl, trivial, hstop⟩
      · simp only [Stops, not_forall] at hstop
        obtain ⟨f, after, rfl, huncut, hgoes⟩ := hstop
        have hlt : after.length < n := by
          rw [← hn, f.bytes_append, List.length_append]
          simp only [List.length_append, List.length_cons]
          omega
        obtain ⟨fs, rest, rfl, hpassed, hstop⟩ := ih _ hlt after rfl
        exact ⟨f :: fs, rest, by rw [stream_cons, List.append_assoc], ⟨⟨huncut, hgoes⟩, hpassed⟩,
          hstop⟩

/-- Nothing is read in full behind the place where the loop stops. -/
theorem eq_append_of_stops (heq : stream fs ++ rest = stream fs' ++ rest')
    (hstop : Stops read rest) (h' : Passed read rest' fs') :
    ∃ gs, fs = fs' ++ gs ∧ rest' = stream gs ++ rest := by
  induction fs' generalizing fs with
  | nil => exact ⟨fs, rfl, heq.symm⟩
  | cons f fs' ih =>
      obtain ⟨⟨huncut, hgoes⟩, hpassed⟩ := h'
      rw [stream_cons, List.append_assoc] at heq
      cases fs with
      | nil => exact absurd (hstop f _ heq huncut) hgoes
      | cons g fs =>
          rw [stream_cons, List.append_assoc] at heq
          obtain ⟨rfl, hbehind⟩ := frameCodec.encode_inj heq
          obtain ⟨gs, rfl, hrest⟩ := ih hbehind hpassed
          exact ⟨gs, rfl, hrest⟩

theorem stop_unique (heq : stream fs ++ rest = stream fs' ++ rest') (hpassed : Passed read rest fs)
    (hstop : Stops read rest) (hpassed' : Passed read rest' fs') (hstop' : Stops read rest') :
    rest = rest' := by
  obtain ⟨gs, hgs, hrest⟩ := eq_append_of_stops heq hstop hpassed'
  obtain ⟨ks, hks, _⟩ := eq_append_of_stops heq.symm hstop' hpassed
  rw [hks, List.append_assoc, List.self_eq_append_right, List.append_eq_nil_iff] at hgs
  rw [hgs.2] at hrest
  exact hrest.symm

end passed

/-! ## Where the loop stops -/

/-- The head in front of the stream is read in full. -/
structure ReadsHead (read : Nat → Bytes → Read) (rest : Bytes) (h : Head) (after : Bytes) :
    Prop where
  bytes_eq : rest = h.bytes ++ after
  uncut : h.Uncut read after

theorem ReadsHead.unique {read : Nat → Bytes → Read} {rest after after' : Bytes} {h h' : Head}
    (hread : ReadsHead read rest h after) (hread' : ReadsHead read rest h' after') :
    h = h' ∧ after = after' := Head.bytes_inj (hread.bytes_eq.symm.trans hread'.bytes_eq)

section stops

variable {read : Nat → Bytes → Read} (hread : Reader read) (onEnd onClose : List Action)
  {rest : Bytes}

theorem readLoop_of_no_head (hnone : ∀ h after, ¬ ReadsHead read rest h after) :
    readLoop read hread onEnd onClose rest = if Full read 2 rest then [] else onEnd := by
  rw [readLoop_eq]
  rcases readFrame_cases hread rest with hcut | hcut | hhead
  · rw [hcut.2, if_neg hcut.1]
  · rw [hcut.2, if_pos hcut.1]
  · obtain ⟨h, after, hbytes, huncut⟩ := hhead
    exact absurd ⟨hbytes, huncut⟩ (hnone h after)

/-- Where the loop stops at the head of neither a long frame nor a close frame, the
payload is cut off. -/
theorem ReadsHead.short {h : Head} {after : Bytes} (hhead : ReadsHead read rest h after)
    (hstop : Stops read rest) (hsize : ¬ maxSize ≤ h.size) (hopen : h.opcode ≠ 0x08) :
    after.length < h.size := by
  by_contra hwhole
  obtain ⟨f, rfl, hbody⟩ := Frame.exists_of_head (Nat.le_of_not_lt hwhole)
  obtain ⟨hbytes, huncut⟩ := hhead
  rw [← hbody] at hbytes huncut
  have hends := hstop f _ (by rw [hbytes, f.bytes_eq, List.append_assoc])
    (Frame.uncut_iff_head.mpr huncut)
  rw [Frame.Ends, ← f.size_head] at hends
  rcases hends with hend | hend
  · exact hsize hend
  · exact hopen hend

/-- The loop stops in front of the payload without a head, or at a length that is
too long, at a close frame, or in a payload that is cut off. -/
theorem readLoop_of_stops (hstop : Stops read rest) :
    ((∀ h after, ¬ ReadsHead read rest h after) ∧
      readLoop read hread onEnd onClose rest = if Full read 2 rest then [] else onEnd) ∨
    ∃ h after, ReadsHead read rest h after ∧
      (maxSize ≤ h.size ∧ readLoop read hread onEnd onClose rest = [.lengthError] ∨
        h.size < maxSize ∧ h.opcode = 0x08 ∧
          readLoop read hread onEnd onClose rest = .send 0x08 [] :: onClose ∨
        h.size < maxSize ∧ h.opcode ≠ 0x08 ∧ after.length < h.size ∧
          readLoop read hread onEnd onClose rest =
            (h.action (h.payload after)).toList ++ onEnd) := by
  by_cases hnone : ∀ h after, ¬ ReadsHead read rest h after
  · exact .inl ⟨hnone, readLoop_of_no_head hread onEnd onClose hnone⟩
  · simp only [not_forall, not_not] at hnone
    obtain ⟨h, after, hhead⟩ := hnone
    refine .inr ⟨h, after, hhead, ?_⟩
    rw [hhead.bytes_eq, readLoop_of_head hhead.uncut]
    by_cases hlong : maxSize ≤ h.size
    · exact .inl ⟨hlong, if_pos hlong⟩
    · have hsize : h.size < maxSize := Nat.lt_of_not_le hlong
      rw [if_neg hlong]
      by_cases hclose : h.opcode = 0x08
      · have hreply : h.action (h.payload after) = some (.send 0x08 []) := by
          simp [Head.action, hclose]
        rw [if_pos hclose, hreply]
        exact .inr (.inl ⟨hsize, hclose, rfl⟩)
      · have hshort := hhead.short hstop hlong hclose
        rw [if_neg hclose, List.drop_of_length_le (Nat.le_of_lt hshort), readLoop_nil]
        exact .inr (.inr ⟨hsize, hclose, hshort, rfl⟩)

end stops

end LinuxLive.WebSocket
