import LinuxLive.Core.WsClient
import LinuxLive.Protocol.CutStreams

/-!
# Dead connections

Which ends of a stream `recv_loop` reports to the client.
-/

namespace LinuxLive.WsClient

open WebSocket

/-- `connected_` behind the actions: only the one that calls `on_close_()` clears it. -/
def connectedAfter (actions : List Action) : Bool := decide (.close ∉ actions)

/-- The flag is cleared and `on_close_` called once. -/
structure Reported (actions : List Action) : Prop where
  disconnected : connectedAfter actions = false
  once : actions.count .close = 1

/-- The end of the connection is reported, if the loop returns and no exception ends it. -/
def Reports (actions : List Action) : Prop := .lengthError ∉ actions → Reported actions

/-- Behind frames that the loop reads and goes on from, a header has come in and the
extended length or the mask behind it has not. -/
def EndsInField (bytes : Bytes) : Prop :=
  ∃ fs rest, bytes = stream fs ++ rest ∧ (∀ f ∈ fs, ¬ f.Ends) ∧ 2 ≤ rest.length ∧
    head? rest = none

section loop

variable {seg : Segmentation} {bytes rest : Bytes} {fs : List Frame}

theorem full_rawRecv {len : Nat} : Full (rawRecv seg) len bytes ↔ len ≤ bytes.length := by
  rw [Full, rawRecv_eq, List.length_take]
  omega

theorem head_uncut_rawRecv (seg : Segmentation) (h : Head) (after : Bytes) :
    h.Uncut (rawRecv seg) after where
  header := full_rawRecv.mpr (by simp [Head.bytes])
  extended _ := full_rawRecv.mpr (by simp)
  mask _ := full_rawRecv.mpr (by simp)

theorem passed_rawRecv (h : ∀ f ∈ fs, ¬ f.Ends) : Passed (rawRecv seg) rest fs := by
  induction fs with
  | nil => trivial
  | cons f fs ih =>
      obtain ⟨hf, hfs⟩ := List.forall_mem_cons.mp h
      exact ⟨⟨uncut_rawRecv seg _ _, hf⟩, ih hfs⟩

theorem head?_eq_none_iff :
    head? rest = none ↔ ∀ h after, ¬ ReadsHead (rawRecv seg) rest h after := by
  constructor
  · intro hnone h after hread
    rw [hread.bytes_eq, head?_append] at hnone
    cases hnone
  · intro hno
    cases hhead : head? rest with
    | none => rfl
    | some p => exact absurd ⟨eq_of_head? hhead, head_uncut_rawRecv seg _ _⟩ (hno p.1 p.2)

theorem stops_of_no_head (h : head? rest = none) : Stops (rawRecv seg) rest := by
  intro f after hbytes _
  rw [hbytes, f.bytes_eq, List.append_assoc, head?_append] at h
  cases h

/-- The stream ends inside a field exactly if it does so where the loop stops. -/
theorem endsInField_iff (hbytes : bytes = stream fs ++ rest) (hpassed : Passed (rawRecv seg) rest fs)
    (hstop : Stops (rawRecv seg) rest) :
    EndsInField bytes ↔ 2 ≤ rest.length ∧ head? rest = none := by
  constructor
  · intro hends
    obtain ⟨fs', rest', hbytes', hgoes, hlen, hnone⟩ := hends
    have hrest := stop_unique (hbytes'.symm.trans hbytes) (passed_rawRecv hgoes)
      (stops_of_no_head hnone) hpassed hstop
    rw [← hrest]
    exact ⟨hlen, hnone⟩
  · exact fun h => ⟨fs, rest, hbytes, hpassed.not_ends, h⟩

end loop

/-! ## What is reported -/

/-- Actions that neither report a close nor throw. -/
structure Plain (actions : List Action) : Prop where
  close : .close ∉ actions
  lengthError : .lengthError ∉ actions

theorem Plain.of_not_ends {fs : List Frame} (h : ∀ f ∈ fs, ¬ f.Ends) :
    Plain (fs.filterMap Frame.action) := ⟨(notMem_of_not_ends h).1, (notMem_of_not_ends h).2⟩

theorem Plain.action (h : Head) (payload : Bytes) : Plain (h.action payload).toList :=
  ⟨fun hmem => (h.action_ne payload).1 (Option.mem_toList.mp hmem),
    fun hmem => (h.action_ne payload).2 (Option.mem_toList.mp hmem)⟩

section reports

variable {actions actions' : List Action}

theorem connectedAfter_append (h : .close ∉ actions) :
    connectedAfter (actions ++ actions') = connectedAfter actions' := by
  simp only [connectedAfter, List.mem_append, h, false_or]

theorem count_append (h : .close ∉ actions) :
    (actions ++ actions').count .close = actions'.count .close := by
  rw [List.count_append, List.count_eq_zero_of_not_mem h, Nat.zero_add]

theorem reports_append (h : Plain actions) : Reports (actions ++ actions') ↔ Reports actions' := by
  have hthrows : .lengthError ∈ actions ++ actions' ↔ .lengthError ∈ actions' := by
    rw [List.mem_append, or_iff_right h.lengthError]
  have hreported : Reported (actions ++ actions') ↔ Reported actions' := by
    constructor
    · intro hr
      exact ⟨connectedAfter_append h.close ▸ hr.disconnected, count_append h.close ▸ hr.once⟩
    · intro hr
      exact ⟨(connectedAfter_append h.close).trans hr.disconnected,
        (count_append h.close).trans hr.once⟩
  rw [Reports, Reports, hthrows, hreported]

theorem reports_close : Reports [.close] := fun _ => ⟨by decide, by decide⟩

theorem not_reports_nil : ¬ Reports [] := by
  intro h
  have honce := (h List.not_mem_nil).once
  cases honce

end reports

/-- The end of a connection is reported exactly if the stream does not end inside the
extended length or the mask of a frame that the loop comes to. -/
theorem reports_iff (seg : Segmentation) (bytes : Bytes) :
    Reports (recvLoop seg bytes) ↔ ¬ EndsInField bytes := by
  obtain ⟨fs, rest, hbytes, hpassed, hstop⟩ := exists_stop (rawRecv seg) bytes
  rw [endsInField_iff hbytes hpassed hstop, recvLoop, hbytes, readLoop_passed hpassed,
    reports_append (.of_not_ends hpassed.not_ends)]
  rcases readLoop_of_stops (reader_rawRecv seg) [.close] [.close] hstop with hnone | hhead
  · obtain ⟨hnone, hloop⟩ := hnone
    have hhead := head?_eq_none_iff.mpr hnone
    rw [hloop]
    by_cases hheader : 2 ≤ rest.length
    · rw [if_pos (full_rawRecv.mpr hheader)]
      exact iff_of_false not_reports_nil fun hgood => hgood ⟨hheader, hhead⟩
    · rw [if_neg fun hfull => hheader (full_rawRecv.mp hfull)]
      exact iff_of_true reports_close fun hends => hheader hends.1
  · obtain ⟨h, after, hhead, hloop⟩ := hhead
    have hsome : ¬ (2 ≤ rest.length ∧ head? rest = none) :=
      fun hends => head?_eq_none_iff.mp hends.2 h after hhead
    refine iff_of_true ?_ hsome
    rcases hloop with hlong | hcloses | hshort
    · rw [hlong.2]
      exact fun hreturns => absurd List.mem_cons_self hreturns
    · rw [hcloses.2.2]
      have hplain : Plain [.send 0x08 []] := ⟨by decide, by decide⟩
      exact (reports_append hplain).mpr reports_close
    · rw [hshort.2.2.2]
      exact (reports_append (.action _ _)).mpr reports_close

/-! ## A header whose length does not come -/

/-- A text frame cut off inside its extended length. -/
def cutLength : Bytes := [0x81, 0x7E, 0x00]

theorem recvLoop_cutLength : recvLoop .whole cutLength = [] := by
  have hnone : head? cutLength = none := by decide
  rw [recvLoop, readLoop_of_no_head _ _ _ (head?_eq_none_iff.mp hnone),
    if_pos (full_rawRecv.mpr (by decide))]

/-- The loop returns and the client believes that it is connected. -/
theorem dead_connection_is_not_reported :
    recvLoop .whole cutLength = [] ∧ connectedAfter (recvLoop .whole cutLength) = true ∧
      ¬ ∀ seg bytes, Reports (recvLoop seg bytes) := by
  refine ⟨recvLoop_cutLength, by rw [recvLoop_cutLength]; rfl, fun hall => ?_⟩
  have hreports := hall .whole cutLength
  rw [recvLoop_cutLength] at hreports
  exact not_reports_nil hreports

end LinuxLive.WsClient
