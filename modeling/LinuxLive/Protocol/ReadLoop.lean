import LinuxLive.Lib.WebSocket

/-!
# The read loop of a WebSocket endpoint

The relay's sessions and the client read frames alike: two bytes of header, an extended
length, a mask and the payload, then a dispatch on the opcode.  They differ in the
function that reads and in what they do at the end.
-/

namespace LinuxLive.WebSocket

/-! ## Reading a frame -/

/-- Why no frame was read. -/
inductive Stop where
  /-- The header was not read in full. -/
  | header
  /-- The extended length or the mask was not read in full. -/
  | field
  /-- The payload vector would be longer than `max_size()`. -/
  | tooLong
  deriving DecidableEq

structure Received where
  opcode : UInt8
  payload : Bytes
  rest : Bytes
  deriving DecidableEq

/-- The first length above `std::vector<uint8_t>::max_size()`. -/
def maxSize : Nat := 2 ^ 63

/-- `none`: the read failed or was short. -/
def readField (read : Nat → Bytes → Read) (len : Nat) (stream : Bytes) : Option (Bytes × Bytes) :=
  let r := read len stream
  if !r.ok || decide (r.buf.length < len) then none else some (r.buf, r.rest)

/-- The extended length and the mask, each only where the header announces it. -/
def readOptional (read : Nat → Bytes → Read) (len : Nat) (stream : Bytes) :
    Option (Bytes × Bytes) :=
  if len = 0 then some ([], stream) else readField read len stream

/-- The payload loop; what it did not get stays zero. -/
def readPayload (read : Nat → Bytes → Read) (len : Nat) (stream : Bytes) : Bytes × Bytes :=
  let r := gather read (min 4096) len stream
  (r.buf ++ List.replicate (len - r.buf.length) 0, r.rest)

/-- The body of the read loops up to the dispatch on the opcode. -/
def readFrame (read : Nat → Bytes → Read) (stream : Bytes) : Except Stop Received := do
  let (hdr, stream) ← (readField read 2 stream).elim (.error .header) .ok
  let opcode := hdr.getD 0 0 &&& 0x0F
  let second := hdr.getD 1 0
  let (ext, stream) ← (readOptional read (extendedSize second) stream).elim (.error .field) .ok
  let payloadLen := payloadLength second ext
  let (mask, stream) ←
    (readOptional read (if isMasked second then 4 else 0) stream).elim (.error .field) .ok
  if maxSize ≤ payloadLen then .error .tooLong
  else
    let (payload, stream) := readPayload read payloadLen stream
    let payload := if isMasked second then applyMask mask payload else payload
    return ⟨opcode, payload, stream⟩

/-! ## Reading complete frames -/

def Full (read : Nat → Bytes → Read) (len : Nat) (stream : Bytes) : Prop :=
  (read len stream).buf.length = len

/-- The header, the extended length and the mask of a frame are each read at once. -/
structure Frame.Uncut (read : Nat → Bytes → Read) (f : Frame) (after : Bytes) : Prop where
  header : Full read 2 (f.bytes ++ after)
  extended : f.extended ≠ [] →
    Full read f.extended.length (f.extended ++ (f.mask ++ (f.body ++ after)))
  mask : f.mask ≠ [] → Full read f.mask.length (f.mask ++ (f.body ++ after))

instance (read : Nat → Bytes → Read) (len : Nat) (stream : Bytes) :
    Decidable (Full read len stream) := inferInstanceAs (Decidable (_ = _))

instance (read : Nat → Bytes → Read) (f : Frame) (after : Bytes) :
    Decidable (f.Uncut read after) :=
  decidable_of_iff
    (Full read 2 (f.bytes ++ after) ∧
      (f.extended ≠ [] →
        Full read f.extended.length (f.extended ++ (f.mask ++ (f.body ++ after)))) ∧
      (f.mask ≠ [] → Full read f.mask.length (f.mask ++ (f.body ++ after))))
    ⟨fun h => ⟨h.1, h.2.1, h.2.2⟩, fun h => ⟨h.header, h.extended, h.mask⟩⟩

structure Head.Uncut (read : Nat → Bytes → Read) (h : Head) (after : Bytes) : Prop where
  header : Full read 2 (h.bytes ++ after)
  extended : h.extended ≠ [] → Full read h.extended.length (h.extended ++ (h.mask ++ after))
  mask : h.mask ≠ [] → Full read h.mask.length (h.mask ++ after)

instance (read : Nat → Bytes → Read) (h : Head) (after : Bytes) :
    Decidable (h.Uncut read after) :=
  decidable_of_iff
    (Full read 2 (h.bytes ++ after) ∧
      (h.extended ≠ [] → Full read h.extended.length (h.extended ++ (h.mask ++ after))) ∧
      (h.mask ≠ [] → Full read h.mask.length (h.mask ++ after)))
    ⟨fun h => ⟨h.1, h.2.1, h.2.2⟩, fun h => ⟨h.header, h.extended, h.mask⟩⟩

theorem Frame.uncut_iff_head {read : Nat → Bytes → Read} {f : Frame} {after : Bytes} :
    f.Uncut read after ↔ f.head.Uncut read (f.body ++ after) := by
  have hbytes : f.bytes ++ after = f.head.bytes ++ (f.body ++ after) := by
    rw [f.bytes_eq, List.append_assoc]
  constructor
  · intro h
    exact ⟨hbytes ▸ h.header, h.extended, h.mask⟩
  · intro h
    exact ⟨hbytes ▸ h.header, h.extended, h.mask⟩

section read

variable {read : Nat → Bytes → Read} {f : Frame} {a after : Bytes}

theorem readField_of_full (hread : Reader read) {len : Nat} {stream : Bytes} (hlen : 0 < len)
    (hfull : Full read len stream) :
    readField read len stream = some (stream.take len, stream.drop len) := by
  have hok : (read len stream).ok = true := by
    by_contra hfail
    have hshort := (hread.of_not_ok _ _ hlen (Bool.eq_false_iff.mpr hfail)).1
    have hlength := hread.length_eq len stream
    rw [hfull] at hlength
    omega
  have hbuf : (read len stream).buf = stream.take len := by
    rw [hread.buf_eq, hfull]
  have hrest : (read len stream).rest = stream.drop len := by
    rw [hread.rest_eq, hfull]
  have hlong : ¬ (stream.take len).length < len := by
    rw [← hbuf, hfull]
    exact Nat.lt_irrefl len
  simp only [readField, hok, hbuf, hrest, hlong, Bool.not_true, decide_false, Bool.or_self,
    Bool.false_eq_true, if_false]

theorem readField_append_of_full (hread : Reader read) (ha : a ≠ [])
    (hfull : Full read a.length (a ++ after)) :
    readField read a.length (a ++ after) = some (a, after) := by
  rw [readField_of_full hread (List.length_pos_of_ne_nil ha) hfull, List.take_left, List.drop_left]

theorem readField_eq_none (hread : Reader read) {len : Nat} {stream : Bytes}
    (hcut : ¬ Full read len stream) : readField read len stream = none := by
  have hle := hread.le_len len stream
  have hlt : (read len stream).buf.length < len := Nat.lt_of_le_of_ne hle hcut
  simp [readField, hlt]

theorem readOptional_append_of_full (hread : Reader read)
    (hfull : a ≠ [] → Full read a.length (a ++ after)) :
    readOptional read a.length (a ++ after) = some (a, after) := by
  unfold readOptional
  by_cases ha : a = []
  · simp [ha]
  · rw [if_neg (by simpa using ha)]
    exact readField_append_of_full hread ha (hfull ha)

theorem readField_spec (hread : Reader read) {len : Nat} {stream a rest : Bytes}
    (h : readField read len stream = some (a, rest)) :
    stream = a ++ rest ∧ a.length = len ∧ Full read len stream := by
  have hle := hread.le_len len stream
  unfold readField at h
  dsimp only at h
  split at h
  · cases h
  · rename_i hgot
    cases h
    simp only [Bool.or_eq_true, decide_eq_true_eq, not_or] at hgot
    have hlen : (read len stream).buf.length = len := by omega
    exact ⟨(hread.append len stream).symm, hlen, hlen⟩

theorem readOptional_spec (hread : Reader read) {len : Nat} {stream a rest : Bytes}
    (h : readOptional read len stream = some (a, rest)) :
    stream = a ++ rest ∧ a.length = len ∧ (a ≠ [] → Full read len stream) := by
  unfold readOptional at h
  split at h
  · rename_i hzero
    cases h
    exact ⟨rfl, hzero.symm, fun hne => absurd rfl hne⟩
  · obtain ⟨hstream, hlen, hfull⟩ := readField_spec hread h
    exact ⟨hstream, hlen, fun _ => hfull⟩

/-- What the payload loop gets, in however many pieces. -/
theorem readPayload_eq (hread : Reader read) (len : Nat) (stream : Bytes) :
    readPayload read len stream =
      (stream.take len ++ List.replicate (len - (stream.take len).length) 0, stream.drop len) := by
  have hchunk : ∀ n, 0 < n → 0 < min 4096 n ∧ min 4096 n ≤ n := by omega
  simp only [readPayload, hread.gather_eq hchunk]

theorem readPayload_length (hread : Reader read) (len : Nat) (stream : Bytes) :
    (readPayload read len stream).2.length ≤ stream.length := by
  rw [readPayload_eq hread, List.length_drop]
  omega

/-- The payload that the loop makes of what is behind a head. -/
def Head.payload (h : Head) (after : Bytes) : Bytes :=
  h.unmask (after.take h.size ++ List.replicate (h.size - (after.take h.size).length) 0)

theorem Frame.payload_head (f : Frame) (after : Bytes) :
    f.head.payload (f.body ++ after) = f.payload := by
  simp only [Head.payload, f.size_head, List.take_left, Nat.sub_self, List.replicate_zero,
    List.append_nil]
  rfl

theorem readFrame_of_head (hread : Reader read) {h : Head} (huncut : h.Uncut read after) :
    readFrame read (h.bytes ++ after) =
      if maxSize ≤ h.size then .error .tooLong
      else .ok ⟨h.opcode, h.payload after, after.drop h.size⟩ := by
  have hheader := readField_append_of_full hread (a := [h.first, h.second]) (by simp)
    (h.bytes_append after ▸ huncut.header)
  have hextended := readOptional_append_of_full hread huncut.extended
  have hmask := readOptional_append_of_full hread huncut.mask
  rw [h.extended_length] at hextended
  rw [h.mask_length] at hmask
  rw [h.bytes_append]
  simp only [List.length_cons, List.length_nil, Nat.zero_add, Nat.reduceAdd] at hheader
  simp only [readFrame, hheader, Option.elim_some, bind, Except.bind, List.getD_cons_zero,
    List.getD_cons_succ, hextended, hmask, readPayload_eq hread]
  rfl

theorem readFrame_cases (hread : Reader read) (stream : Bytes) :
    (¬ Full read 2 stream ∧ readFrame read stream = .error .header) ∨
      (Full read 2 stream ∧ readFrame read stream = .error .field) ∨
      ∃ h after, stream = h.bytes ++ after ∧ Head.Uncut read h after := by
  cases hheader : readField read 2 stream with
  | none =>
      refine .inl ⟨fun hfull => ?_, ?_⟩
      · rw [readField_of_full hread (by decide) hfull] at hheader
        cases hheader
      · simp only [readFrame, hheader, Option.elim_none, bind, Except.bind]
  | some p =>
      obtain ⟨hdr, rest⟩ := p
      right
      obtain ⟨hstream, hlen, hfull⟩ := readField_spec hread hheader
      obtain ⟨first, second, rfl⟩ := List.length_eq_two.mp hlen
      cases hextended : readOptional read (extendedSize second) rest with
      | none =>
          refine .inl ⟨hfull, ?_⟩
          simp only [readFrame, hheader, Option.elim_some, bind, Except.bind,
            List.getD_cons_succ, List.getD_cons_zero, hextended, Option.elim_none]
      | some p =>
          obtain ⟨ext, rest'⟩ := p
          obtain ⟨hrest, hextlen, hextfull⟩ := readOptional_spec hread hextended
          cases hmask : readOptional read (if isMasked second then 4 else 0) rest' with
          | none =>
              refine .inl ⟨hfull, ?_⟩
              simp only [readFrame, hheader, Option.elim_some, bind, Except.bind,
                List.getD_cons_succ, List.getD_cons_zero, hextended, hmask, Option.elim_none]
          | some p =>
              obtain ⟨mask, after⟩ := p
              obtain ⟨hrest', hmasklen, hmaskfull⟩ := readOptional_spec hread hmask
              right
              subst hrest' hrest
              refine ⟨⟨first, second, ext, mask, hextlen, hmasklen⟩, after, ?_, ?_, ?_, ?_⟩
              · rw [hstream, Head.bytes_append]
              · rw [Head.bytes_append, ← hstream]
                exact hfull
              · exact fun hne => hextlen.symm ▸ hextfull hne
              · exact fun hne => hmasklen.symm ▸ hmaskfull hne

theorem readFrame_of_cut (hread : Reader read) (h : ¬ f.Uncut read after) :
    readFrame read (f.bytes ++ after) = .error .header ∨
      readFrame read (f.bytes ++ after) = .error .field := by
  rcases readFrame_cases hread (f.bytes ++ after) with hcut | hcut | hhead
  · exact .inl hcut.2
  · exact .inr hcut.2
  · obtain ⟨h', after', hbytes, huncut⟩ := hhead
    rw [f.bytes_eq, List.append_assoc] at hbytes
    obtain ⟨hsame, hafter⟩ := Head.bytes_inj hbytes
    rw [← hsame, ← hafter] at huncut
    exact absurd (Frame.uncut_iff_head.mpr huncut) h

end read

theorem readField_length {read : Nat → Bytes → Read} (hread : Reader read) {len : Nat}
    {stream : Bytes} {p : Bytes × Bytes} (h : readField read len stream = some p) :
    p.2.length + len ≤ stream.length := by
  have hlength := hread.length_eq len stream
  unfold readField at h
  dsimp only at h
  split at h
  · cases h
  · rename_i hgot
    cases h
    simp only [Bool.or_eq_true, decide_eq_true_eq, not_or] at hgot
    dsimp only
    omega

theorem readOptional_length {read : Nat → Bytes → Read} (hread : Reader read) {len : Nat}
    {stream : Bytes} {p : Bytes × Bytes} (h : readOptional read len stream = some p) :
    p.2.length ≤ stream.length := by
  unfold readOptional at h
  split at h
  · cases h
    exact Nat.le_refl _
  · have hfield := readField_length hread h
    omega

theorem length_rest_lt {read : Nat → Bytes → Read} (hread : Reader read) {stream : Bytes}
    {r : Received} (h : readFrame read stream = .ok r) : r.rest.length < stream.length := by
  unfold readFrame at h
  cases hheader : readField read 2 stream with
  | none => simp [hheader, bind, Except.bind] at h
  | some hdr =>
    have hlt := readField_length hread hheader
    simp only [hheader, Option.elim_some, bind, Except.bind] at h
    cases hextended : readOptional read (extendedSize (hdr.1.getD 1 0)) hdr.2 with
    | none =>
      simp only [hextended, Option.elim_none] at h
      cases h
    | some ext =>
      have hle := readOptional_length hread hextended
      simp only [hextended, Option.elim_some] at h
      cases hmask : readOptional read (if isMasked (hdr.1.getD 1 0) then 4 else 0) ext.2 with
      | none =>
        simp only [hmask, Option.elim_none] at h
        cases h
      | some mask =>
        have hle' := readOptional_length hread hmask
        simp only [hmask, Option.elim_some] at h
        split at h
        · cases h
        · cases h
          have hle'' := readPayload_length hread (payloadLength (hdr.1.getD 1 0) ext.1) mask.2
          dsimp only
          omega

/-! ## What an endpoint does with the frames -/

inductive Action where
  /-- `on_message_(msg)` -/
  | message (msg : Bytes)
  /-- `ws_send_frame(opcode, payload)` -/
  | send (opcode : UInt8) (payload : Bytes)
  /-- `connected_ = false; on_close_()` -/
  | close
  /-- The `length_error` of the payload vector, which ends the thread. -/
  | lengthError
  deriving DecidableEq

def delivered (actions : List Action) : List Bytes :=
  actions.filterMap fun
    | .message msg => some msg
    | _ => none

def replies (actions : List Action) : List (UInt8 × Bytes) :=
  actions.filterMap fun
    | .send opcode payload => some (opcode, payload)
    | _ => none

namespace Frame

/-- What a frame makes an endpoint do. -/
def action (f : Frame) : Option Action :=
  if maxSize ≤ f.body.length then some .lengthError
  else if f.opcode = 0x01 then some (.message f.payload)
  else if f.opcode = 0x08 then some (.send 0x08 [])
  else if f.opcode = 0x09 then some (.send 0x0A f.payload)
  else none

/-- Nothing after such a frame is read. -/
def Ends (f : Frame) : Prop := maxSize ≤ f.body.length ∨ f.opcode = 0x08

instance (f : Frame) : Decidable f.Ends := inferInstanceAs (Decidable (_ ∨ _))

def Silent (f : Frame) : Prop := maxSize ≤ f.body.length ∨ f.opcode ∉ [0x01, 0x08, 0x09]

theorem silent_iff (f : Frame) :
    f.Silent ↔ delivered f.action.toList = [] ∧ replies f.action.toList = [] := by
  unfold Silent action
  by_cases hlong : maxSize ≤ f.body.length
  · simp [hlong, delivered, replies]
  · by_cases htext : f.opcode = 0x01
    · simp [hlong, htext, delivered]
    · by_cases hclose : f.opcode = 0x08
      · simp [hlong, hclose, replies]
      · by_cases hping : f.opcode = 0x09
        · simp [hlong, hping, replies]
        · simp [hlong, htext, hclose, hping, delivered, replies]

end Frame

theorem filterMap_action_cons (f : Frame) (fs : List Frame) :
    (f :: fs).filterMap Frame.action = f.action.toList ++ fs.filterMap Frame.action := by
  cases hact : f.action <;> simp [hact]

theorem delivered_append (as bs : List Action) :
    delivered (as ++ bs) = delivered as ++ delivered bs := List.filterMap_append

theorem replies_append (as bs : List Action) :
    replies (as ++ bs) = replies as ++ replies bs := List.filterMap_append

/-! ## The loop -/

/-- The read loop; `onEnd` is done where the stream ends between two frames, `onClose` after
the answer to a close frame. -/
def readLoop (read : Nat → Bytes → Read) (hread : Reader read) (onEnd onClose : List Action)
    (stream : Bytes) : List Action :=
  match _h : readFrame read stream with
  | .error .header => onEnd
  | .error .field => []
  | .error .tooLong => [.lengthError]
  | .ok r =>
      if r.opcode = 0x01 then .message r.payload :: readLoop read hread onEnd onClose r.rest
      else if r.opcode = 0x08 then .send 0x08 [] :: onClose
      else if r.opcode = 0x09 then
        .send 0x0A r.payload :: readLoop read hread onEnd onClose r.rest
      else readLoop read hread onEnd onClose r.rest
termination_by stream.length
decreasing_by all_goals exact length_rest_lt hread _h

section loop

variable {read : Nat → Bytes → Read} {hread : Reader read} {onEnd onClose : List Action}
  {f : Frame} {after : Bytes}

theorem readLoop_eq (stream : Bytes) : readLoop read hread onEnd onClose stream =
    match readFrame read stream with
    | .error .header => onEnd
    | .error .field => []
    | .error .tooLong => [.lengthError]
    | .ok r =>
        if r.opcode = 0x01 then .message r.payload :: readLoop read hread onEnd onClose r.rest
        else if r.opcode = 0x08 then .send 0x08 [] :: onClose
        else if r.opcode = 0x09 then
          .send 0x0A r.payload :: readLoop read hread onEnd onClose r.rest
        else readLoop read hread onEnd onClose r.rest := by
  rw [readLoop]
  split <;> rename_i h <;> rw [h]

theorem readLoop_nil : readLoop read hread onEnd onClose [] = onEnd := by
  have hcut : ¬ Full read 2 [] := by
    intro hfull
    have hlength := hread.length_eq 2 []
    rw [hfull, List.length_nil] at hlength
    omega
  have hheader : readFrame read [] = .error .header := by
    simp only [readFrame, readField_eq_none hread hcut, Option.elim_none, bind, Except.bind]
  rw [readLoop_eq, hheader]

/-- What a head with a short length makes an endpoint do with the payload it got. -/
def Head.action (h : Head) (payload : Bytes) : Option Action :=
  if h.opcode = 0x01 then some (.message payload)
  else if h.opcode = 0x08 then some (.send 0x08 [])
  else if h.opcode = 0x09 then some (.send 0x0A payload)
  else none

/-- No head makes an endpoint report the end or throw. -/
theorem Head.action_ne (h : Head) (payload : Bytes) :
    h.action payload ≠ some .close ∧ h.action payload ≠ some .lengthError := by
  unfold Head.action
  split
  · exact ⟨by simp, by simp⟩
  · split
    · exact ⟨by simp, by simp⟩
    · split
      · exact ⟨by simp, by simp⟩
      · exact ⟨by simp, by simp⟩

theorem Frame.action_eq (f : Frame) : f.action =
    if maxSize ≤ f.body.length then some .lengthError else f.head.action f.payload := rfl

theorem readLoop_of_head {h : Head} (huncut : h.Uncut read after) :
    readLoop read hread onEnd onClose (h.bytes ++ after) =
      if maxSize ≤ h.size then [.lengthError]
      else (h.action (h.payload after)).toList ++
        if h.opcode = 0x08 then onClose
        else readLoop read hread onEnd onClose (after.drop h.size) := by
  rw [readLoop_eq, readFrame_of_head hread huncut]
  unfold Head.action
  by_cases hlong : maxSize ≤ h.size
  · simp [hlong]
  · simp only [if_neg hlong]
    by_cases htext : h.opcode = 0x01
    · simp [htext]
    · by_cases hclose : h.opcode = 0x08
      · simp [hclose]
      · by_cases hping : h.opcode = 0x09
        · simp [hping]
        · simp [htext, hclose, hping]

/-- A frame whose fields come in at once has its effect, and the loop goes on behind it. -/
theorem readLoop_of_uncut (h : f.Uncut read after) :
    readLoop read hread onEnd onClose (f.bytes ++ after) = f.action.toList ++
      if maxSize ≤ f.body.length then []
      else if f.opcode = 0x08 then onClose
      else readLoop read hread onEnd onClose after := by
  rw [f.bytes_eq, List.append_assoc, readLoop_of_head (Frame.uncut_iff_head.mp h),
    f.payload_head, f.size_head, List.drop_left, f.action_eq]
  by_cases hlong : maxSize ≤ f.body.length
  · simp [hlong]
  · simp only [if_neg hlong]
    rfl

theorem readLoop_of_cut (hread : Reader read) (onEnd onClose : List Action)
    (h : ¬ f.Uncut read after) :
    readLoop read hread onEnd onClose (f.bytes ++ after) = onEnd ∨
      readLoop read hread onEnd onClose (f.bytes ++ after) = [] := by
  rw [readLoop_eq]
  rcases readFrame_of_cut hread h with hcut | hcut
  · rw [hcut]
    exact .inl rfl
  · rw [hcut]
    exact .inr rfl

end loop

end LinuxLive.WebSocket
