import LinuxLive.Core.Connect
import LinuxLive.Core.WsClient
import LinuxLive.Lib.Marks
import LinuxLive.Protocol.KeyText

/-!
# Opening a connection

`WsClient::connect` with `ws_handshake`: a way to the host, through the Tor proxy or
directly, TLS where the URL asks for it, and the upgrade of the connection.
-/

namespace LinuxLive.WsClient

/-- What the network does for `connect`. -/
structure Network where
  /-- Whether the proxy can be reached. -/
  proxy : Bool
  /-- Whether the name is found and its host can be reached on the port. -/
  host : Bytes → UInt16 → Bool
  /-- The result of `raw_send` for a buffer. -/
  send : Bytes → Bool
  /-- `SSL_connect` on what is still to come: what `SSL_read` gets out of it, or a failure. -/
  tls : Bytes → Option Bytes
  /-- What the other end sends. -/
  stream : Bytes

/-- A step of `connect`: its result, the buffers given to `raw_send` so far, and what is
left unread. -/
structure Progress where
  ok : Bool
  sent : List Bytes
  rest : Bytes
  deriving DecidableEq

/-! ## The tunnel -/

def hello : Bytes := [0x05, 0x01, 0x00]

/-- The SOCKS5 branch of `connect`. -/
def socks5 (net : Network) (seg : Segmentation) (host : Bytes) (port : Int) : Progress :=
  if net.proxy = false then ⟨false, [], net.stream⟩
  else if net.send hello = false then ⟨false, [hello], net.stream⟩
  else
    let helloResp := rawRecv seg 2 net.stream
    if helloResp.ok = false ∨ helloResp.buf.length < 2 ∨ helloResp.buf.getD 0 0 ≠ 0x05 then
      ⟨false, [hello], helloResp.rest⟩
    else if net.send (connectReq host port) = false then
      ⟨false, [hello, connectReq host port], helloResp.rest⟩
    else
      let resp := rawRecv seg 10 helloResp.rest
      if resp.ok = false ∨ resp.buf.length < 4 ∨ resp.buf.getD 1 0 ≠ 0x00 then
        ⟨false, [hello, connectReq host port], resp.rest⟩
      else ⟨true, [hello, connectReq host port], resp.rest⟩

/-! ## The upgrade -/

def upgradeRequest (nonce : Vector UInt8 16) (host path : Bytes) : Bytes :=
  lit "GET " ++ path ++ lit " HTTP/1.1\r\n" ++ (lit "Host: " ++ host ++ lit "\r\n") ++
    lit "Upgrade: websocket\r\n" ++ lit "Connection: Upgrade\r\n" ++
    (lit "Sec-WebSocket-Key: " ++ keyB64 nonce ++ lit "\r\n") ++
    lit "Sec-WebSocket-Version: 13\r\n" ++ lit "\r\n"

def endsResponse (resp : Bytes) : Bool :=
  decide (4 ≤ resp.length ∧ resp.drop (resp.length - 4) = lit "\r\n\r\n")

/-- The loop of `raw_recv` calls for one byte each, and what it leaves unread. -/
def readResponse (seg : Segmentation) (resp stream : Bytes) : Option Bytes × Bytes :=
  let r := rawRecv seg 1 stream
  if r.ok = false ∨ r.buf.length = 0 then (none, r.rest)
  else
    let resp := resp ++ r.buf
    if endsResponse resp then (some resp, r.rest)
    else if 4096 < resp.length then (none, r.rest)
    else readResponse seg resp r.rest
termination_by stream.length
decreasing_by
  rename_i hgot _ _
  have hlength := (reader_rawRecv seg).length_eq 1 stream
  have hpos : (rawRecv seg 1 stream).buf.length ≠ 0 := fun h => hgot (.inr h)
  omega

/-- `ws_handshake` on the stream of the relay. -/
def wsHandshake (send : Bytes → Bool) (seg : Segmentation) (nonce : Vector UInt8 16)
    (host path stream : Bytes) : Progress :=
  let request := upgradeRequest nonce host path
  if send request = false then ⟨false, [request], stream⟩
  else
    match readResponse seg [] stream with
    | (none, rest) => ⟨false, [request], rest⟩
    | (some resp, rest) => ⟨decide (findFrom (lit "101") resp 0 ≠ none), [request], rest⟩

/-! ## The whole of it -/

/-- The two branches that lead to the host. -/
def reach (net : Network) (seg : Segmentation) (torProxy : Bool) (parsed : ParsedUrl) : Progress :=
  if usesProxy torProxy parsed.host then socks5 net seg parsed.host parsed.port
  else ⟨net.host parsed.host (sinPort parsed.port), [], net.stream⟩

/-- What is done once the host is reached: TLS and the handshake. -/
def secure (net : Network) (seg : Segmentation) (nonce : Vector UInt8 16) (parsed : ParsedUrl)
    (reached : Progress) : Progress :=
  match if parsed.useTls then net.tls reached.rest else some reached.rest with
  | none => ⟨false, reached.sent, reached.rest⟩
  | some stream =>
      let upgraded := wsHandshake net.send seg nonce parsed.host parsed.path stream
      ⟨upgraded.ok, reached.sent ++ upgraded.sent, upgraded.rest⟩

/-- `connect` up to the start of `recv_loop`; an error is an exception of `parse_ws_url`. -/
def connect (net : Network) (seg : Segmentation) (nonce : Vector UInt8 16) (url : Bytes)
    (torProxy : Bool) : Except NumberError Progress :=
  (parseWsUrl url).map fun parsed =>
    if parsed.accepted = false then ⟨false, [], net.stream⟩
    else
      let reached := reach net seg torProxy parsed
      if reached.ok = false then reached else secure net seg nonce parsed reached

/-! ## Which streams open a connection -/

section read

variable {seg : Segmentation} {stream rest : Bytes} {net : Network} {host path : Bytes}
  {port : Int} {nonce : Vector UInt8 16}

theorem rawRecv_append (seg : Segmentation) (front rest : Bytes) :
    rawRecv seg front.length (front ++ rest) = ⟨true, front, rest⟩ := by
  rw [rawRecv_eq, List.take_left, List.drop_left, List.length_append,
    decide_eq_true (Nat.le_add_right _ _)]

theorem rawRecv_ok_iff {len : Nat} {buf : Bytes} :
    rawRecv seg len stream = ⟨true, buf, rest⟩ ↔ stream = buf ++ rest ∧ buf.length = len := by
  constructor
  · intro h
    rw [rawRecv_eq, Read.mk.injEq, decide_eq_true_eq] at h
    obtain ⟨hle, rfl, rfl⟩ := h
    exact ⟨(List.take_append_drop _ _).symm, List.length_take_of_le hle⟩
  · intro h
    obtain ⟨rfl, rfl⟩ := h
    exact rawRecv_append seg buf rest

theorem rawRecv_cases (seg : Segmentation) (len : Nat) (stream : Bytes) :
    ((rawRecv seg len stream).ok = false ∧ stream.length < len) ∨
      ∃ buf rest, stream = buf ++ rest ∧ buf.length = len ∧
        rawRecv seg len stream = ⟨true, buf, rest⟩ := by
  by_cases hle : len ≤ stream.length
  · have hlen := List.length_take_of_le hle
    have hsplit := (List.take_append_drop len stream).symm
    exact .inr ⟨_, _, hsplit, hlen, rawRecv_ok_iff.mpr ⟨hsplit, hlen⟩⟩
  · rw [rawRecv_eq]
    exact .inl ⟨decide_eq_false hle, Nat.lt_of_not_le hle⟩

theorem endsResponse_iff {resp : Bytes} :
    endsResponse resp = true ↔ lit "\r\n\r\n" <:+ resp := by
  have hlength : (lit "\r\n\r\n").length = 4 := by decide
  rw [endsResponse, decide_eq_true_eq, List.suffix_iff_eq_drop, hlength]
  constructor
  · exact fun h => h.2.symm
  · intro h
    refine ⟨?_, h.symm⟩
    have hlen := congrArg List.length h
    rw [hlength, List.length_drop] at hlen
    omega

/-- The loop takes the response up to its empty line, in whatever pieces it comes. -/
theorem readResponse_eq (seg : Segmentation) (resp stream : Bytes) :
    readResponse seg resp stream = takeUntil (lit "\r\n\r\n") 4096 resp stream := by
  induction stream generalizing resp with
  | nil =>
      rw [readResponse, takeUntil, rawRecv_eq]
      rfl
  | cons b stream ih =>
      have hread : rawRecv seg 1 (b :: stream) = ⟨true, [b], stream⟩ :=
        rawRecv_append seg [b] stream
      rw [readResponse, takeUntil, hread]
      simp only [Bool.true_eq_false, List.length_singleton, Nat.one_ne_zero, or_self, if_false,
        endsResponse_iff, ih]

theorem crlfcrlf_ne_nil : lit "\r\n\r\n" ≠ [] := by decide

/-- A head that `ws_handshake` takes for an upgrade: nothing but its length, its end and three
digits anywhere in it are looked at. -/
structure Accepted (head : Bytes) : Prop where
  endsFirst : EndsFirst (lit "\r\n\r\n") head
  length_le : head.length ≤ 4097
  switches : lit "101" <:+: head

theorem findFrom_ne_none_iff {pattern text : Bytes} :
    findFrom pattern text 0 ≠ none ↔ pattern <:+: text := by
  constructor
  · intro h
    obtain ⟨i, hi⟩ := Option.ne_none_iff_exists'.mp h
    obtain ⟨_, _, hat, _⟩ := findFrom_eq_some_iff.mp hi
    exact hat.isInfix.trans (List.drop_suffix i text).isInfix
  · intro h hnone
    obtain ⟨before, after, rfl⟩ := h
    refine findFrom_eq_none_iff.mp hnone before.length ?_ (Nat.zero_le _) ?_
    · simp only [List.length_append]
      omega
    · rw [List.append_assoc, List.drop_left]
      exact List.prefix_append _ _

/-- The handshake succeeds exactly behind such a head, and reads nothing else. -/
theorem wsHandshake_ok_iff {send : Bytes → Bool} {sent : List Bytes} :
    wsHandshake send seg nonce host path stream = ⟨true, sent, rest⟩ ↔
      sent = [upgradeRequest nonce host path] ∧ send (upgradeRequest nonce host path) = true ∧
        ∃ head, Accepted head ∧ stream = head ++ rest := by
  unfold wsHandshake
  dsimp only
  cases hsend : send (upgradeRequest nonce host path) with
  | false => simp
  | true =>
      rw [if_neg Bool.noConfusion, readResponse_eq]
      constructor
      · intro h
        cases hread : takeUntil (lit "\r\n\r\n") 4096 [] stream with
        | mk head? rest' =>
            rw [hread] at h
            cases head? with
            | none => cases h
            | some head =>
                simp only [Progress.mk.injEq, decide_eq_true_eq] at h
                obtain ⟨hfind, hsent, rfl⟩ := h
                obtain ⟨hstream, hfirst, hlength⟩ :=
                  (takeUntil_eq_some_iff crlfcrlf_ne_nil).mp hread
                exact ⟨hsent.symm, rfl, head,
                  ⟨hfirst, hlength, findFrom_ne_none_iff.mp hfind⟩, hstream⟩
      · rintro ⟨rfl, _, head, haccepted, hstream⟩
        rw [(takeUntil_eq_some_iff crlfcrlf_ne_nil).mpr
          ⟨hstream, haccepted.endsFirst, haccepted.length_le⟩]
        simp only [decide_eq_true (findFrom_ne_none_iff.mpr haccepted.switches)]

/-- The two answers of a proxy that opens a tunnel, as far as `connect` reads them. -/
structure TunnelReply where
  method : UInt8
  reply : Vector UInt8 10
  /-- The request was granted. -/
  granted : reply[1] = 0

def TunnelReply.bytes (r : TunnelReply) : Bytes := [0x05, r.method] ++ r.reply.toList

/-- The answers are read off the stream as they stand there. -/
theorem tunnel_read_iff (seg : Segmentation) :
    (let helloResp := rawRecv seg 2 stream
      let resp := rawRecv seg 10 helloResp.rest
      ¬ (helloResp.ok = false ∨ helloResp.buf.length < 2 ∨ helloResp.buf.getD 0 0 ≠ 0x05) ∧
        ¬ (resp.ok = false ∨ resp.buf.length < 4 ∨ resp.buf.getD 1 0 ≠ 0x00) ∧
        resp.rest = rest) ↔ ∃ r : TunnelReply, stream = r.bytes ++ rest := by
  dsimp only
  constructor
  · rintro ⟨hhello, hresp, rfl⟩
    simp only [not_or, Bool.not_eq_false, ne_eq, not_not] at hhello hresp
    rcases rawRecv_cases seg 2 stream with ⟨hok, _⟩ | ⟨hdr, behind, hstream, hlen, hread⟩
    · rw [hok] at hhello
      cases hhello.1
    · obtain ⟨version, method, rfl⟩ := List.length_eq_two.mp hlen
      rw [hread] at hhello hresp ⊢
      obtain ⟨_, _, rfl⟩ := hhello
      dsimp only at hresp ⊢
      rcases rawRecv_cases seg 10 behind with ⟨hok, _⟩ | ⟨buf, after, hbehind, hlen, hread⟩
      · rw [hok] at hresp
        cases hresp.1
      · rw [hread] at hresp ⊢
        have hsecond : buf.getD 1 0 = buf[1] := List.getD_eq_getElem _ _ (by omega)
        refine ⟨⟨method, ⟨buf.toArray, by simpa using hlen⟩, ?_⟩, ?_⟩
        · have hgranted := hresp.2.2
          rw [hsecond] at hgranted
          simpa using hgranted
        · rw [hstream, hbehind, TunnelReply.bytes, List.append_assoc]
          rfl
  · rintro ⟨r, rfl⟩
    have hfirst : rawRecv seg 2 (r.bytes ++ rest) =
        ⟨true, [0x05, r.method], r.reply.toList ++ rest⟩ := by
      rw [TunnelReply.bytes, List.append_assoc]
      exact rawRecv_append seg [0x05, r.method] _
    have hsecond : rawRecv seg 10 (r.reply.toList ++ rest) = ⟨true, r.reply.toList, rest⟩ :=
      rawRecv_ok_iff.mpr ⟨rfl, Vector.length_toList⟩
    rw [hfirst]
    dsimp only
    rw [hsecond]
    simpa using r.granted

/-- The tunnel is open exactly behind the answers, with ten bytes for the second one. -/
theorem socks5_ok_iff {sent : List Bytes} :
    socks5 net seg host port = ⟨true, sent, rest⟩ ↔
      net.proxy = true ∧ sent = [hello, connectReq host port] ∧
        (∀ buf ∈ sent, net.send buf = true) ∧
        ∃ r : TunnelReply, net.stream = r.bytes ++ rest := by
  rw [← tunnel_read_iff seg]
  unfold socks5
  dsimp only
  cases net.proxy with
  | false => simp
  | true =>
      cases hhello : net.send hello with
      | false =>
          simp only [Bool.true_eq_false, if_false, if_true, Progress.mk.injEq, Bool.false_eq_true,
            false_and, true_and, false_iff, not_and]
          rintro rfl hsend
          rw [hsend hello List.mem_cons_self] at hhello
          cases hhello
      | true =>
          simp only [Bool.true_eq_false, if_false, true_and]
          split
          · rename_i hfails
            constructor
            · intro h
              cases h
            · rintro ⟨_, _, hreads, _⟩
              exact absurd hfails hreads
          · rename_i hreads
            cases hrequest : net.send (connectReq host port) with
            | false =>
                simp only [if_true, Progress.mk.injEq, Bool.false_eq_true, false_and, false_iff,
                  not_and]
                rintro rfl hsend
                rw [hsend (connectReq host port) (by simp)] at hrequest
                cases hrequest
            | true =>
                simp only [Bool.true_eq_false, if_false]
                split
                · rename_i hfails
                  constructor
                  · intro h
                    cases h
                  · rintro ⟨_, _, _, hgrants, _⟩
                    exact absurd hfails hgrants
                · rename_i hgrants
                  rw [Progress.mk.injEq]
                  constructor
                  · rintro ⟨_, rfl, rfl⟩
                    exact ⟨rfl, by simp [hhello, hrequest], hreads, hgrants, rfl⟩
                  · rintro ⟨rfl, _, _, _, rfl⟩
                    exact ⟨rfl, rfl, rfl⟩

end read

/-! ## The exact condition -/

/-- What stands in the stream in front of the bytes of the relay, and what was sent for it. -/
inductive Way (net : Network) (torProxy : Bool) (parsed : ParsedUrl) :
    Bytes → List Bytes → Prop where
  | tunnel (r : TunnelReply) : usesProxy torProxy parsed.host = true → net.proxy = true →
      Way net torProxy parsed r.bytes [hello, connectReq parsed.host parsed.port]
  | direct : usesProxy torProxy parsed.host = false →
      net.host parsed.host (sinPort parsed.port) = true → Way net torProxy parsed [] []

section connect

variable {net : Network} {seg : Segmentation} {nonce : Vector UInt8 16} {torProxy : Bool}
  {parsed : ParsedUrl} {reached : Progress} {sent asked : List Bytes} {rest behind : Bytes}

theorem reach_ok_iff : reach net seg torProxy parsed = ⟨true, asked, behind⟩ ↔
    (∀ buf ∈ asked, net.send buf = true) ∧
      ∃ front, Way net torProxy parsed front asked ∧ net.stream = front ++ behind := by
  unfold reach
  cases hproxy : usesProxy torProxy parsed.host with
  | true =>
      rw [if_pos rfl, socks5_ok_iff]
      constructor
      · rintro ⟨hup, rfl, hsend, r, hstream⟩
        exact ⟨hsend, r.bytes, .tunnel r hproxy hup, hstream⟩
      · rintro ⟨hsend, front, hway, hstream⟩
        cases hway with
        | tunnel r _ hup => exact ⟨hup, rfl, hsend, r, hstream⟩
        | direct hdirect _ =>
            rw [hproxy] at hdirect
            cases hdirect
  | false =>
      rw [if_neg Bool.false_ne_true, Progress.mk.injEq]
      constructor
      · rintro ⟨hhost, rfl, hstream⟩
        exact ⟨by simp, [], .direct hproxy hhost, hstream⟩
      · rintro ⟨_, front, hway, hstream⟩
        cases hway with
        | tunnel r htunnel _ =>
            rw [hproxy] at htunnel
            cases htunnel
        | direct _ hhost => exact ⟨hhost, rfl, hstream⟩

theorem secure_ok_iff : secure net seg nonce parsed reached = ⟨true, sent, rest⟩ ↔
    sent = reached.sent ++ [upgradeRequest nonce parsed.host parsed.path] ∧
      net.send (upgradeRequest nonce parsed.host parsed.path) = true ∧
      ∃ head, Accepted head ∧
        (if parsed.useTls then net.tls reached.rest else some reached.rest) =
          some (head ++ rest) := by
  unfold secure
  generalize hplain : (if parsed.useTls then net.tls reached.rest else some reached.rest) = plain
  cases plain with
  | none => simp
  | some stream =>
      have hupgraded : ∀ sent', wsHandshake net.send seg nonce parsed.host parsed.path stream =
          ⟨true, sent', rest⟩ ↔ _ := fun sent' => wsHandshake_ok_iff
      simp only [Progress.mk.injEq, Option.some.injEq]
      constructor
      · rintro ⟨hok, rfl, hrest⟩
        obtain ⟨hsent, hsend, hhead⟩ := (hupgraded _).mp (by rw [← hok, ← hrest])
        exact ⟨by rw [hsent], hsend, hhead⟩
      · rintro ⟨rfl, hsend, hhead⟩
        rw [(hupgraded _).mpr ⟨rfl, hsend, hhead⟩]
        exact ⟨rfl, rfl, rfl⟩

/-- A host that is found and upgrades: what is behind its head is left. -/
theorem connect_of_way {url front behind head : Bytes} {asked : List Bytes}
    (hparse : parseWsUrl url = .ok parsed) (haccepted : parsed.accepted = true)
    (hway : Way net torProxy parsed front asked) (hstream : net.stream = front ++ behind)
    (hsend : ∀ buf ∈ asked ++ [upgradeRequest nonce parsed.host parsed.path], net.send buf = true)
    (hhead : Accepted head)
    (hplain : (if parsed.useTls then net.tls behind else some behind) = some (head ++ rest)) :
    connect net seg nonce url torProxy =
      .ok ⟨true, asked ++ [upgradeRequest nonce parsed.host parsed.path], rest⟩ := by
  have hreach : reach net seg torProxy parsed = ⟨true, asked, behind⟩ :=
    reach_ok_iff.mpr ⟨fun buf hbuf => hsend buf (List.mem_append_left _ hbuf), front, hway,
      hstream⟩
  rw [connect, hparse, Except.map, if_neg (by simp [haccepted]), hreach, if_neg (by simp),
    secure_ok_iff.mpr ⟨rfl, hsend _ (by simp), head, hhead, hplain⟩]

end connect

/-- `connect` returns true exactly if the URL is accepted, a way to the host is found, all is
sent, and behind TLS (where there is any) comes a head with an upgrade; and what follows the
head is left to `recv_loop`, all of it. -/
theorem connect_ok_iff (net : Network) (seg : Segmentation) (nonce : Vector UInt8 16)
    (url : Bytes) (torProxy : Bool) (sent : List Bytes) (rest : Bytes) :
    connect net seg nonce url torProxy = .ok ⟨true, sent, rest⟩ ↔
      ∃ parsed front asked behind head, parseWsUrl url = .ok parsed ∧ parsed.accepted = true ∧
        Way net torProxy parsed front asked ∧ net.stream = front ++ behind ∧
        sent = asked ++ [upgradeRequest nonce parsed.host parsed.path] ∧
        (∀ buf ∈ sent, net.send buf = true) ∧ Accepted head ∧
        (if parsed.useTls then net.tls behind else some behind) = some (head ++ rest) := by
  constructor
  · unfold connect
    cases hparse : parseWsUrl url with
    | error e => simp [Except.map]
    | ok parsed =>
        intro h
        simp only [Except.map, Except.ok.injEq] at h
        split at h
        · cases h
        · rename_i haccepted
          split at h
          · rename_i hfails
            rw [h] at hfails
            cases hfails
          · rename_i hreached
            rw [Bool.not_eq_false] at haccepted hreached
            have hway : reach net seg torProxy parsed =
                ⟨true, (reach net seg torProxy parsed).sent,
                  (reach net seg torProxy parsed).rest⟩ := by rw [← hreached]
            obtain ⟨hasked, front, hway, hstream⟩ := reach_ok_iff.mp hway
            obtain ⟨hsent, hsend, head, hhead, hplain⟩ := secure_ok_iff.mp h
            refine ⟨parsed, front, _, _, head, rfl, haccepted, hway, hstream, hsent, ?_, hhead,
              hplain⟩
            rw [hsent]
            intro buf hbuf
            rw [List.mem_append, List.mem_singleton] at hbuf
            obtain hbuf | rfl := hbuf
            · exact hasked buf hbuf
            · exact hsend
  · rintro ⟨parsed, front, asked, behind, head, hparse, haccepted, hway, hstream, rfl, hsend, hhead,
      hplain⟩
    exact connect_of_way hparse haccepted hway hstream hsend hhead hplain

end LinuxLive.WsClient
