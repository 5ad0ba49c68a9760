import LinuxLive.Protocol.CutStreams

/-!
# Partial frames

What an endpoint delivers and answers, against the frames that are wholly contained in
the stream.
-/

namespace LinuxLive.WebSocket

/-! ## What the stream contains -/

def beforeClose (frames : List Frame) : List Frame := frames.takeWhile fun f => f.opcode != 0x08

def textPayloads (frames : List Frame) : List Bytes :=
  frames.filterMap fun f => if f.opcode = 0x01 then some f.payload else none

def pingPayloads (frames : List Frame) : List Bytes :=
  frames.filterMap fun f => if f.opcode = 0x09 then some f.payload else none

def pongs (actions : List Action) : List Bytes :=
  (replies actions).filterMap fun p => if p.1 = 0x0A then some p.2 else none

/-- The texts of the stream are delivered, and only pings of the stream are answered. -/
structure OnlyWholeFrames (bytes : Bytes) (actions : List Action) : Prop where
  messages : delivered actions = textPayloads (beforeClose (wholeFrames bytes))
  pongs : (pongs actions).Sublist (pingPayloads (beforeClose (wholeFrames bytes)))

/-- The stream up to its last text frame in front of a close frame is read in full. -/
def TextsRead (read : Nat → Bytes → Read) (bytes : Bytes) : Prop :=
  ∃ fs rest, bytes = stream fs ++ rest ∧ Passed read rest fs ∧
    ∀ f ∈ beforeClose (wholeFrames rest), f.opcode ≠ 0x01

/-- The head in front is that of a text or ping frame, and its payload is cut off. -/
def CutsPayload (read : Nat → Bytes → Read) (rest : Bytes) : Prop :=
  ∃ h after, ReadsHead read rest h after ∧ h.size < maxSize ∧ after.length < h.size ∧
    (h.opcode = 0x01 ∨ h.opcode = 0x09)

/-- The stream ends inside the payload of a text or ping frame that the loop comes to. -/
def EndsInPayload (read : Nat → Bytes → Read) (bytes : Bytes) : Prop :=
  ∃ fs rest, bytes = stream fs ++ rest ∧ Passed read rest fs ∧ CutsPayload read rest

/-! ## Frames that are read in full -/

theorem textPayloads_append (fs gs : List Frame) :
    textPayloads (fs ++ gs) = textPayloads fs ++ textPayloads gs := List.filterMap_append

theorem pingPayloads_append (fs gs : List Frame) :
    pingPayloads (fs ++ gs) = pingPayloads fs ++ pingPayloads gs := List.filterMap_append

theorem pongs_append (as bs : List Action) : pongs (as ++ bs) = pongs as ++ pongs bs := by
  unfold pongs
  rw [replies_append, List.filterMap_append]

theorem textPayloads_eq_nil_iff {fs : List Frame} :
    textPayloads fs = [] ↔ ∀ f ∈ fs, f.opcode ≠ 0x01 := by
  simp [textPayloads, List.filterMap_eq_nil_iff]

/-- What is delivered and answered for a payload, whether or not it is complete. -/
theorem Head.effect {h : Head} (hopen : h.opcode ≠ 0x08) (payload : Bytes) :
    delivered (h.action payload).toList = (if h.opcode = 0x01 then [payload] else []) ∧
      pongs (h.action payload).toList = if h.opcode = 0x09 then [payload] else [] := by
  unfold Head.action
  by_cases htext : h.opcode = 0x01
  · simp [htext, delivered, pongs, replies]
  · by_cases hping : h.opcode = 0x09
    · simp [hping, delivered, pongs, replies]
    · simp [htext, hopen, hping, delivered, pongs, replies]

theorem Frame.effect_of_not_ends {f : Frame} (h : ¬ f.Ends) :
    delivered f.action.toList = textPayloads [f] ∧ pongs f.action.toList = pingPayloads [f] := by
  obtain ⟨hshort, hopen⟩ := not_or.mp h
  obtain ⟨hdelivered, hpongs⟩ := Head.effect (h := f.head) hopen f.payload
  rw [f.action_eq, if_neg hshort, hdelivered, hpongs]
  constructor
  · by_cases htext : f.opcode = 0x01
    · simp [textPayloads, htext, show f.head.opcode = 0x01 from htext]
    · simp [textPayloads, htext, show f.head.opcode ≠ 0x01 from htext]
  · by_cases hping : f.opcode = 0x09
    · simp [pingPayloads, hping, show f.head.opcode = 0x09 from hping]
    · simp [pingPayloads, hping, show f.head.opcode ≠ 0x09 from hping]

theorem effect_of_not_ends {fs : List Frame} (h : ∀ f ∈ fs, ¬ f.Ends) :
    delivered (fs.filterMap Frame.action) = textPayloads fs ∧
      pongs (fs.filterMap Frame.action) = pingPayloads fs := by
  induction fs with
  | nil => exact ⟨rfl, rfl⟩
  | cons f fs ih =>
      obtain ⟨hf, hfs⟩ := List.forall_mem_cons.mp h
      obtain ⟨hdelivered, hpongs⟩ := Frame.effect_of_not_ends hf
      rw [filterMap_action_cons, delivered_append, pongs_append, hdelivered, hpongs, (ih hfs).1,
        (ih hfs).2, ← textPayloads_append, ← pingPayloads_append]
      exact ⟨rfl, rfl⟩

theorem beforeClose_append {fs : List Frame} (h : ∀ f ∈ fs, ¬ f.Ends) (gs : List Frame) :
    beforeClose (fs ++ gs) = fs ++ beforeClose gs := by
  refine List.takeWhile_append_of_pos fun f hf => ?_
  exact bne_iff_ne.mpr (not_or.mp (h f hf)).2

/-! ## Streams that are read as they are meant -/

section streams

variable {read : Nat → Bytes → Read} {bytes rest : Bytes} {fs : List Frame}

theorem textPayloads_of_textsRead (hbytes : bytes = stream fs ++ rest)
    (hpassed : Passed read rest fs) (hstop : Stops read rest) :
    TextsRead read bytes ↔ textPayloads (beforeClose (wholeFrames rest)) = [] := by
  rw [textPayloads_eq_nil_iff]
  constructor
  · intro h
    obtain ⟨fs', rest', hbytes', hpassed', hnone⟩ := h
    obtain ⟨gs, rfl, rfl⟩ := eq_append_of_stops (hbytes.symm.trans hbytes') hstop hpassed'
    have hgs : ∀ g ∈ gs, ¬ g.Ends := fun g hg => hpassed.not_ends g (List.mem_append_right _ hg)
    rw [wholeFrames_stream, beforeClose_append hgs] at hnone
    exact fun f hf => hnone f (List.mem_append_right _ hf)
  · exact fun h => ⟨fs, rest, hbytes, hpassed, h⟩

theorem stops_of_short {h : Head} {after : Bytes} (hread : ReadsHead read rest h after)
    (hshort : after.length < h.size) : Stops read rest := by
  intro f after' hbytes _
  have hwhole := wholeFrames_of_short hshort
  rw [← hread.bytes_eq, hbytes, wholeFrames_append] at hwhole
  cases hwhole

/-- The stream ends inside a payload exactly if it does so where the loop stops. -/
theorem endsInPayload_iff (hbytes : bytes = stream fs ++ rest) (hpassed : Passed read rest fs)
    (hstop : Stops read rest) : EndsInPayload read bytes ↔ CutsPayload read rest := by
  constructor
  · intro hends
    obtain ⟨fs', rest', hbytes', hpassed', hcuts⟩ := hends
    obtain ⟨h, after, hread, hsize, hshort, hopcode⟩ := id hcuts
    have hrest := stop_unique (hbytes'.symm.trans hbytes) hpassed' (stops_of_short hread hshort)
      hpassed hstop
    exact hrest ▸ hcuts
  · exact fun hcuts => ⟨fs, rest, hbytes, hpassed, hcuts⟩

theorem cutsPayload_iff {h : Head} {after : Bytes} (hhead : ReadsHead read rest h after) :
    CutsPayload read rest ↔
      h.size < maxSize ∧ after.length < h.size ∧ (h.opcode = 0x01 ∨ h.opcode = 0x09) := by
  constructor
  · intro hcuts
    obtain ⟨h', after', hhead', hcuts⟩ := hcuts
    obtain ⟨rfl, rfl⟩ := hhead.unique hhead'
    exact hcuts
  · exact fun hcuts => ⟨h, after, hhead, hcuts⟩

end streams

/-- Actions that neither deliver nor answer anything. -/
structure Quiet (actions : List Action) : Prop where
  delivered : delivered actions = []
  pongs : pongs actions = []

theorem onlyWholeFrames_iff_of_quiet {bytes : Bytes} {actions : List Action} (h : Quiet actions) :
    OnlyWholeFrames bytes actions ↔ textPayloads (beforeClose (wholeFrames bytes)) = [] := by
  constructor
  · exact fun hwhole => hwhole.messages.symm.trans h.delivered
  · exact fun hnone => ⟨h.delivered.trans hnone.symm, h.pongs ▸ List.nil_sublist _⟩

/-- What is made of a payload that is cut off shows, unless the opcode is that of no message. -/
theorem onlyWholeFrames_iff_of_short {bytes payload : Bytes} {h : Head} {onEnd : List Action}
    (hend : Quiet onEnd) (hnone : wholeFrames bytes = []) (hopen : h.opcode ≠ 0x08) :
    OnlyWholeFrames bytes ((h.action payload).toList ++ onEnd) ↔
      ¬ (h.opcode = 0x01 ∨ h.opcode = 0x09) := by
  obtain ⟨hdelivered, hpongs⟩ := Head.effect hopen payload
  constructor
  · intro honly hopcode
    obtain ⟨hmessages, hanswers⟩ := honly
    rw [delivered_append, hdelivered, hend.delivered, hnone] at hmessages
    rw [pongs_append, hpongs, hend.pongs, hnone] at hanswers
    rcases hopcode with htext | hping
    · rw [if_pos htext] at hmessages
      cases hmessages
    · rw [if_pos hping] at hanswers
      exact absurd (List.sublist_nil.mp hanswers) (by simp)
  · intro hother
    obtain ⟨htext, hping⟩ := not_or.mp hother
    constructor
    · rw [delivered_append, hdelivered, if_neg htext, hend.delivered, hnone]
      rfl
    · rw [pongs_append, hpongs, if_neg hping, hend.pongs]
      exact List.nil_sublist _

section loop

variable {read : Nat → Bytes → Read} {hread : Reader read} {onEnd onClose : List Action}
  {rest : Bytes} {fs : List Frame}

/-- What is read in full makes no difference. -/
theorem onlyWholeFrames_passed (hpassed : Passed read rest fs) :
    OnlyWholeFrames (stream fs ++ rest) (readLoop read hread onEnd onClose (stream fs ++ rest)) ↔
      OnlyWholeFrames rest (readLoop read hread onEnd onClose rest) := by
  obtain ⟨hdelivered, hpongs⟩ := effect_of_not_ends hpassed.not_ends
  have hwhole : beforeClose (wholeFrames (stream fs ++ rest)) =
      fs ++ beforeClose (wholeFrames rest) := by
    rw [wholeFrames_stream, beforeClose_append hpassed.not_ends]
  rw [readLoop_passed hpassed]
  constructor
  · intro h
    obtain ⟨hmessages, hanswers⟩ := h
    rw [hwhole, delivered_append, hdelivered, textPayloads_append,
      List.append_cancel_left_eq] at hmessages
    rw [hwhole, pongs_append, hpongs, pingPayloads_append,
      List.append_sublist_append_left] at hanswers
    exact ⟨hmessages, hanswers⟩
  · intro h
    constructor
    · rw [hwhole, delivered_append, hdelivered, textPayloads_append, h.messages]
    · rw [hwhole, pongs_append, hpongs, pingPayloads_append, List.append_sublist_append_left]
      exact h.pongs

/-- Only whole frames are delivered and answered exactly if the stream is read up to its last
text frame and does not end inside the payload of a text or ping frame. -/
theorem onlyWholeFrames_iff (hend : Quiet onEnd) (hclose : Quiet onClose) (bytes : Bytes) :
    OnlyWholeFrames bytes (readLoop read hread onEnd onClose bytes) ↔
      TextsRead read bytes ∧ ¬ EndsInPayload read bytes := by
  obtain ⟨fs, rest, hbytes, hpassed, hstop⟩ := exists_stop read bytes
  rw [textPayloads_of_textsRead hbytes hpassed hstop, endsInPayload_iff hbytes hpassed hstop,
    hbytes, onlyWholeFrames_passed hpassed]
  rcases readLoop_of_stops hread onEnd onClose hstop with hnone | hhead
  · obtain ⟨hnone, hloop⟩ := hnone
    have hquiet : Quiet (readLoop read hread onEnd onClose rest) := by
      rw [hloop]
      split
      · exact ⟨rfl, rfl⟩
      · exact hend
    rw [onlyWholeFrames_iff_of_quiet hquiet, and_iff_left]
    intro hcuts
    obtain ⟨h, after, hhead, _⟩ := hcuts
    exact hnone h after hhead
  · obtain ⟨h, after, hhead, hloop⟩ := hhead
    rw [cutsPayload_iff hhead]
    rcases hloop with hlong | hcloses | hshort
    · obtain ⟨hlong, hloop⟩ := hlong
      have hquiet : Quiet (readLoop read hread onEnd onClose rest) := hloop ▸ ⟨rfl, rfl⟩
      rw [onlyWholeFrames_iff_of_quiet hquiet, and_iff_left]
      exact fun hcuts => absurd hlong (Nat.not_le.mpr hcuts.1)
    · obtain ⟨_, hopcode, hloop⟩ := hcloses
      have hquiet : Quiet (readLoop read hread onEnd onClose rest) := by
        rw [hloop]
        exact ⟨hclose.delivered, hclose.pongs⟩
      rw [onlyWholeFrames_iff_of_quiet hquiet, and_iff_left]
      intro hcuts
      rw [hopcode] at hcuts
      exact absurd hcuts.2.2 (by decide)
    · obtain ⟨hsize, hopen, hshort, hloop⟩ := hshort
      have hwhole : wholeFrames rest = [] := hhead.bytes_eq ▸ wholeFrames_of_short hshort
      have hnil : textPayloads (beforeClose []) = [] := rfl
      rw [hloop, onlyWholeFrames_iff_of_short hend hwhole hopen, hwhole, and_iff_right hnil,
        and_iff_right hsize, and_iff_right hshort]

end loop

end LinuxLive.WebSocket
