import LinuxLive.Core.WsClient
import LinuxLive.Lib.Transfers

/-!
# Partial transfers

`raw_send` and `raw_recv` of the client and `send_raw` of the relay over the results of the
system calls.  A call never moves more than it is asked to, and a read no more than there is:
a result is taken as far as it goes.
-/

namespace LinuxLive

/-- What a `size_t` is as the `int` that OpenSSL takes. -/
def cInt (n : Nat) : Int := (Int32.ofNat n).toInt

def asked (ssl : Bool) (left : Nat) : Int := if ssl then cInt left else left

def sendAttempt (ssl : Bool) (left : Nat) (_wire : Bytes) (n : Int) : Attempt :=
  let n := min n (asked ssl left)
  if n ≤ 0 then .fails else .moves n.toNat

def handOver (data : Bytes) (sent n : Nat) (wire : Bytes) : Bytes :=
  wire ++ (data.drop sent).take n

def WsClient.rawSend (ssl : Bool) (data : Bytes) (results : List Int) : Option (Transfer Bytes) :=
  transfer (sendAttempt ssl) (handOver data) data.length 0 [] results

def Relay.ClientSession.sendRaw (data : Bytes) (results : List Int) : Option (Transfer Bytes) :=
  transfer (sendAttempt false) (handOver data) data.length 0 [] results

inductive Errno where
  | eintr
  | eagain
  | other
  deriving DecidableEq

/-- The result of `poll`, and `running_` behind it. -/
structure PollResult where
  pr : Int
  running : Bool
  deriving DecidableEq

/-- What the calls of one attempt return; `SSL_read` stands alone. -/
structure RecvResults where
  polls : List PollResult
  n : Int
  errno : Errno
  deriving DecidableEq

/-- The bytes of the buffer, and those that are still to be read. -/
structure Incoming where
  buf : Bytes
  unread : Bytes
  deriving DecidableEq

/-- The `do`-loop around `poll`; it is still running where the list ends. -/
def pollLoop : List PollResult → Option Int
  | [] => none
  | p :: polls => if p.pr = 0 ∧ p.running = true then pollLoop polls else some p.pr

def recvAttempt (ssl : Bool) (left : Nat) (s : Incoming) (r : RecvResults) : Attempt :=
  if ssl then
    let n := min r.n (min (asked true left) s.unread.length)
    if n ≤ 0 then .fails else .moves n.toNat
  else
    match pollLoop r.polls with
    | none => .waits
    | some pr =>
        if pr ≤ 0 then .fails
        else
          let n := min r.n (min (asked false left) s.unread.length)
          if n < 0 then if r.errno = .eintr ∨ r.errno = .eagain then .again else .fails
          else if n = 0 then .fails
          else .moves n.toNat

def takeIn (total n : Nat) (s : Incoming) : Incoming where
  buf := s.buf.take total ++ s.unread.take n ++ s.buf.drop (total + n)
  unread := s.unread.drop n

/-- `raw_recv` with the buffer and `*out_len`. -/
structure RawRecv where
  ok : Bool
  outLen : Nat
  buf : Bytes
  unread : Bytes
  deriving DecidableEq

def WsClient.rawRecvResults (ssl : Bool) (buf stream : Bytes) (results : List RecvResults) :
    Option RawRecv :=
  if buf.length = 0 then some ⟨true, 0, buf, stream⟩
  else
    (transfer (recvAttempt ssl) takeIn buf.length 0 ⟨buf, stream⟩ results).map fun r =>
      ⟨r.ok, if r.ok then r.total else 0, r.state.buf, r.state.unread⟩

section calls

variable {ssl : Bool} {left n : Nat} {data buf stream : Bytes}

theorem asked_le (ssl : Bool) (left : Nat) : asked ssl left ≤ left := by
  have hint : cInt left ≤ left := by
    have hsize : (Int32.size : Int) = 2 ^ 32 := rfl
    rw [cInt, Int32.toInt_ofNat', Int.bmod, hsize]
    split <;> omega
  cases ssl with
  | false => exact Int.le_refl _
  | true => exact hint

theorem sendAttempt_moves {wire : Bytes} {r : Int} (h : sendAttempt ssl left wire r = .moves n) :
    0 < n ∧ n ≤ left := by
  have hle := asked_le ssl left
  unfold sendAttempt at h
  dsimp only at h
  split at h
  · cases h
  · cases h
    omega

theorem recvAttempt_moves {s : Incoming} {r : RecvResults}
    (h : recvAttempt ssl left s r = .moves n) :
    0 < n ∧ n ≤ left ∧ n ≤ s.unread.length := by
  have hssl := asked_le true left
  have hplain := asked_le false left
  unfold recvAttempt at h
  split at h
  · dsimp only at h
    split at h
    · cases h
    · cases h
      omega
  · split at h
    · cases h
    · split at h
      · cases h
      · dsimp only at h
        split at h
        · split at h <;> cases h
        · split at h
          · cases h
          · cases h
            omega

theorem handOver_take (data : Bytes) (sent n : Nat) :
    handOver data sent n (data.take sent) = data.take (sent + n) := by
  rw [handOver, ← List.take_add]

/-- The first `total` bytes of the stream are in the buffer, and nothing else has been
touched. -/
def TakenIn (buf stream : Bytes) (total : Nat) (s : Incoming) : Prop :=
  total ≤ stream.length ∧ s.buf = stream.take total ++ buf.drop total ∧
    s.unread = stream.drop total

theorem TakenIn.takeIn {total : Nat} {s : Incoming} (h : TakenIn buf stream total s)
    (hn : n ≤ s.unread.length) : TakenIn buf stream (total + n) (takeIn total n s) := by
  obtain ⟨htotal, hbuf, hunread⟩ := h
  have hlen : (stream.take total).length = total := by
    rw [List.length_take]
    omega
  rw [hunread, List.length_drop] at hn
  refine ⟨by omega, ?_, ?_⟩
  · have hfront : (stream.take total ++ buf.drop total).take total = stream.take total :=
      List.take_left' hlen
    have hback : (stream.take total ++ buf.drop total).drop (total + n) =
        buf.drop (total + n) := by
      rw [← List.drop_drop, List.drop_left' hlen, List.drop_drop]
    rw [LinuxLive.takeIn, hbuf, hunread, hfront, hback, ← List.take_add]
  · rw [LinuxLive.takeIn, hunread, List.drop_drop]

end calls

/-! ## The loops -/

/-- Success hands over the data byte by byte, and failure less of it. -/
def Transfer.Sends (sent : Transfer Bytes) (data : Bytes) : Prop :=
  sent.ok = true ∧ sent.state = data ∨
    sent.ok = false ∧ ∃ total < data.length, sent.state = data.take total

/-- Success fills the buffer with the next bytes of the stream, and failure takes fewer of
them; all the others are still to be read. -/
def RawRecv.Receives (got : RawRecv) (buf stream : Bytes) : Prop :=
  got.ok = true ∧ got.outLen = buf.length ∧ buf.length ≤ stream.length ∧
      got.buf = stream.take buf.length ∧ got.unread = stream.drop buf.length ∨
    got.ok = false ∧ got.outLen = 0 ∧ ∃ total < buf.length, total ≤ stream.length ∧
      got.buf = stream.take total ++ buf.drop total ∧ got.unread = stream.drop total

section loops

variable {ssl : Bool} {data buf stream : Bytes} {sent : Transfer Bytes} {got : RawRecv}

theorem sends_of_transfer {results : List Int}
    (h : transfer (sendAttempt ssl) (handOver data) data.length 0 [] results = some sent) :
    sent.Sends data := by
  have hrule := transfer_rule (P := fun total wire => wire = data.take total)
    (fun _ _ _ _ hattempt => (sendAttempt_moves hattempt).2)
    (fun total n wire _ hwire _ => by rw [hwire, handOver_take]) (Nat.zero_le _) rfl h
  obtain ⟨hstate, ⟨hok, htotal⟩ | ⟨hok, htotal⟩⟩ := hrule
  · rw [htotal, List.take_length] at hstate
    exact .inl ⟨hok, hstate⟩
  · exact .inr ⟨hok, _, htotal, hstate⟩

theorem receives_of_results {results : List RecvResults}
    (h : WsClient.rawRecvResults ssl buf stream results = some got) : got.Receives buf stream := by
  unfold WsClient.rawRecvResults at h
  split at h
  · rename_i hnil
    cases h
    rw [List.length_eq_zero_iff] at hnil
    rw [hnil]
    exact .inl ⟨rfl, rfl, Nat.zero_le _, rfl, rfl⟩
  · obtain ⟨r, htransfer, rfl⟩ := Option.map_eq_some_iff.mp h
    have hrule := transfer_rule (P := TakenIn buf stream)
      (fun _ _ _ _ hattempt => (recvAttempt_moves hattempt).2.1)
      (fun total n s _ hs hattempt => hs.takeIn (recvAttempt_moves hattempt).2.2) (Nat.zero_le _)
      ⟨Nat.zero_le _, rfl, rfl⟩ htransfer
    obtain ⟨⟨hle, hbuf, hunread⟩, ⟨hok, htotal⟩ | ⟨hok, htotal⟩⟩ := hrule
    · rw [htotal] at hle hbuf hunread
      rw [List.drop_length, List.append_nil] at hbuf
      exact .inl ⟨hok, by rw [if_pos hok, htotal], hle, hbuf, hunread⟩
    · have hfailed : ¬ r.ok = true := by simp [hok]
      exact .inr ⟨hok, if_neg hfailed, _, htotal, hle, hbuf, hunread⟩

theorem sendAttempt_ends (ssl : Bool) (left : Nat) (wire : Bytes) (r : Int) :
    sendAttempt ssl left wire r ≠ .again ∧ sendAttempt ssl left wire r ≠ .waits := by
  unfold sendAttempt
  dsimp only
  by_cases h : min r (asked ssl left) ≤ 0
  · rw [if_pos h]
    exact ⟨Attempt.noConfusion, Attempt.noConfusion⟩
  · rw [if_neg h]
    exact ⟨Attempt.noConfusion, Attempt.noConfusion⟩

/-- Every call that does not fail hands something over, so the loop returns. -/
theorem send_returns (ssl : Bool) {results : List Int} (h : data.length ≤ results.length) :
    (∃ sent, WsClient.rawSend ssl data results = some sent) ∧
      ∃ sent, Relay.ClientSession.sendRaw data results = some sent := by
  have hreturns : ∀ ssl, ∃ sent,
      transfer (sendAttempt ssl) (handOver data) data.length 0 [] results = some sent := by
    intro ssl
    refine exists_transfer (fun _ => false) (fun _ _ _ _ hmoves => (sendAttempt_moves hmoves).1)
      (fun left wire r hagain => absurd hagain (sendAttempt_ends ssl left wire r).1)
      (fun left wire r _ => (sendAttempt_ends ssl left wire r).2) ?_
    simpa using h
  exact ⟨hreturns ssl, hreturns false⟩

theorem recvAttempt_again {left : Nat} {s : Incoming} {r : RecvResults}
    (h : recvAttempt ssl left s r = .again) : r.n < 0 := by
  unfold recvAttempt at h
  split at h
  · dsimp only at h
    split at h <;> cases h
  · split at h
    · cases h
    · split at h
      · cases h
      · dsimp only at h
        split at h
        · rename_i hneg
          have hasked : (0 : Int) ≤ asked false left := Int.natCast_nonneg left
          omega
        · split at h <;> cases h

theorem pollLoop_of_waits {left : Nat} {s : Incoming} {r : RecvResults}
    (h : recvAttempt ssl left s r = .waits) : pollLoop r.polls = none := by
  unfold recvAttempt at h
  split at h
  · dsimp only at h
    split at h <;> cases h
  · split at h
    · assumption
    · split at h
      · cases h
      · dsimp only at h
        split at h
        · split at h <;> cases h
        · split at h <;> cases h

/-- The loop returns if `poll` ends each time and there are enough reads without an error. -/
theorem recv_returns (ssl : Bool) (buf stream : Bytes) {results : List RecvResults}
    (hpolls : ∀ r ∈ results, pollLoop r.polls ≠ none)
    (hmany : buf.length ≤ results.countP fun r => !decide (r.n < 0)) :
    ∃ got, WsClient.rawRecvResults ssl buf stream results = some got := by
  unfold WsClient.rawRecvResults
  split
  · exact ⟨_, rfl⟩
  · have hreturns : ∃ r, transfer (recvAttempt ssl) takeIn buf.length 0 ⟨buf, stream⟩ results =
        some r :=
      exists_transfer (fun r => decide (r.n < 0))
        (fun _ _ _ _ hmoves => (recvAttempt_moves hmoves).1)
        (fun _ _ _ hagain => decide_eq_true (recvAttempt_again hagain))
        (fun _ _ r hr hwaits => hpolls r hr (pollLoop_of_waits hwaits)) (by omega)
    obtain ⟨r, hr⟩ := hreturns
    exact ⟨_, by rw [hr, Option.map_some]⟩

/-- What fills the buffer is what the read loop takes for the result, however the stream was
cut into pieces. -/
theorem rawRecv_of_results {results : List RecvResults} (seg : Segmentation)
    (h : WsClient.rawRecvResults ssl buf stream results = some got) (hok : got.ok = true) :
    WsClient.rawRecv seg buf.length stream = ⟨true, got.buf, got.unread⟩ := by
  obtain ⟨_, _, hle, hbuf, hunread⟩ | ⟨hfailed, _⟩ := receives_of_results h
  · rw [WsClient.rawRecv_eq, decide_eq_true hle, hbuf, hunread]
  · rw [hok] at hfailed
    cases hfailed

end loops

/-- Whatever the calls return, the loops lose nothing and move nothing twice. -/
theorem partial_transfers :
    (∀ ssl data results sent,
      WsClient.rawSend ssl data results = some sent → sent.Sends data) ∧
    (∀ data results sent,
      Relay.ClientSession.sendRaw data results = some sent → sent.Sends data) ∧
    (∀ ssl buf stream results got,
      WsClient.rawRecvResults ssl buf stream results = some got → got.Receives buf stream) :=
  ⟨fun _ _ _ _ h => sends_of_transfer h, fun _ _ _ h => sends_of_transfer h,
    fun _ _ _ _ _ h => receives_of_results h⟩

/-- A send in two pieces, and a read that is interrupted between two pieces. -/
theorem partial_transfers_pieces :
    (WsClient.rawSend true (lit "abc") [1, 5] = some ⟨true, 3, lit "abc"⟩ ∧
      Transfer.Sends ⟨true, 3, lit "abc"⟩ (lit "abc")) ∧
    (Relay.ClientSession.sendRaw (lit "abc") [2, -1] = some ⟨false, 2, lit "ab"⟩ ∧
      Transfer.Sends ⟨false, 2, lit "ab"⟩ (lit "abc")) ∧
    (WsClient.rawRecvResults false [0, 0, 0] (lit "abcd")
        [⟨[⟨0, true⟩, ⟨1, true⟩], 2, .other⟩, ⟨[⟨1, true⟩], -1, .eintr⟩,
          ⟨[⟨1, true⟩], 1, .other⟩] = some ⟨true, 3, lit "abc", lit "d"⟩ ∧
      RawRecv.Receives ⟨true, 3, lit "abc", lit "d"⟩ [0, 0, 0] (lit "abcd")) := by
  have hsend : WsClient.rawSend true (lit "abc") [1, 5] = some ⟨true, 3, lit "abc"⟩ := by
    decide
  have hfail : Relay.ClientSession.sendRaw (lit "abc") [2, -1] = some ⟨false, 2, lit "ab"⟩ := by
    decide
  have hrecv : WsClient.rawRecvResults false [0, 0, 0] (lit "abcd")
      [⟨[⟨0, true⟩, ⟨1, true⟩], 2, .other⟩, ⟨[⟨1, true⟩], -1, .eintr⟩,
        ⟨[⟨1, true⟩], 1, .other⟩] = some ⟨true, 3, lit "abc", lit "d"⟩ := by decide
  exact ⟨⟨hsend, partial_transfers.1 _ _ _ _ hsend⟩, ⟨hfail, partial_transfers.2.1 _ _ _ hfail⟩,
    ⟨hrecv, partial_transfers.2.2 _ _ _ _ _ hrecv⟩⟩

end LinuxLive
