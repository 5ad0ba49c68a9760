import LinuxLive.Core.Opening
import LinuxLive.Relay.Handshake
import LinuxLive.System.RoundTrip

/-!
# Both ends of the handshake

What the client's `connect` and the relay's `do_ws_handshake` make of each other's bytes.
-/

namespace LinuxLive

open WebSocket Relay

/-! ## The relay's reading -/

section relay

variable {seg : Segmentation} {stream : Bytes}

/-- The relay takes its request as the client takes the answer. -/
theorem readRequest_eq (seg : Segmentation) (request stream : Bytes) :
    ClientSession.readRequest seg request stream =
      takeUntil (lit "\r\n\r\n") 4096 request stream := by
  induction stream generalizing request with
  | nil =>
      have hsize : seg.size 0 1 = 0 := Nat.le_zero.mp (seg.le_left 0 1)
      rw [ClientSession.readRequest, takeUntil, ClientSession.recvRaw, recv]
      simp [hsize]
  | cons b stream ih =>
      rw [ClientSession.readRequest, takeUntil, ClientSession.recvRaw_one]
      simp only [Bool.true_eq_false, List.length_singleton, Nat.one_ne_zero, or_self, if_false,
        ClientSession.endsRequest_iff, ih]

theorem ten_notMem_base64Encode (data : Bytes) : 10 ∉ ClientSession.base64Encode data := by
  obtain ⟨sextets, pad, hencode, hlt, _⟩ := Base64.encode_eq data
  have hchar : ∀ n < 64, Base64.sextetChar n ≠ 10 := by decide
  rw [base64Encode_eq, hencode, List.mem_append, not_or]
  constructor
  · intro hmem
    obtain ⟨n, hn, heq⟩ := List.mem_map.mp hmem
    exact hchar n (hlt n hn) heq
  · intro hmem
    exact absurd (List.eq_of_mem_replicate hmem) (by decide)

/-! ## The answers -/

theorem crlfcrlf_eq : lit "\r\n\r\n" = [13, 10, 13, 10] := by decide

theorem badRequest_eq : ClientSession.badRequest =
    block 13 10 [lit "HTTP/1.1 400 Bad Request", lit "Content-Length: 0"] := by decide

theorem switchingProtocols_eq (acceptKey : Bytes) :
    ClientSession.switchingProtocols acceptKey = block 13 10
      [lit "HTTP/1.1 101 Switching Protocols", lit "Upgrade: websocket",
        lit "Connection: Upgrade", lit "Sec-WebSocket-Accept: " ++ acceptKey] := by
  have hstatus : lit "HTTP/1.1 101 Switching Protocols\r\n" =
      lit "HTTP/1.1 101 Switching Protocols" ++ [13, 10] := by decide
  have hupgrade : lit "Upgrade: websocket\r\n" = lit "Upgrade: websocket" ++ [13, 10] := by
    decide
  have hconnection : lit "Connection: Upgrade\r\n" = lit "Connection: Upgrade" ++ [13, 10] := by
    decide
  have hend : lit "\r\n" = [13, 10] := by decide
  simp only [ClientSession.switchingProtocols, hstatus, hupgrade, hconnection, hend, block,
    List.flatMap_cons, List.flatMap_nil, List.append_assoc, List.nil_append]

/-- The client takes the answer for an upgrade, and nothing of what follows it. -/
theorem accepted_switchingProtocols (sha1 : Bytes → Vector UInt8 20) (text : Bytes) :
    WsClient.Accepted (ClientSession.switchingProtocols
      (ClientSession.base64Encode (sha1 text).toList)) := by
  have hlength : (ClientSession.base64Encode (sha1 text).toList).length = 28 := by
    rw [base64Encode_eq, Base64.length_encode, Vector.length_toList]
  have hten := ten_notMem_base64Encode (sha1 text).toList
  generalize ClientSession.base64Encode (sha1 text).toList = acceptKey at hlength hten
  have hstatus : (lit "HTTP/1.1 101 Switching Protocols\r\n").length = 34 := by decide
  have hupgrade : (lit "Upgrade: websocket\r\n").length = 20 := by decide
  have hconnection : (lit "Connection: Upgrade\r\n").length = 21 := by decide
  have hname : (lit "Sec-WebSocket-Accept: ").length = 22 := by decide
  have hend : (lit "\r\n").length = 2 := by decide
  constructor
  · rw [switchingProtocols_eq, crlfcrlf_eq]
    refine endsFirst_block (by decide) (List.cons_ne_nil _ _) ?_
    have hline : 10 ∉ lit "Sec-WebSocket-Accept: " ++ acceptKey := by
      rw [List.mem_append, not_or]
      exact ⟨by decide, hten⟩
    have hnonempty : lit "Sec-WebSocket-Accept: " ++ acceptKey ≠ [] := by
      intro hnil
      rw [(List.append_eq_nil_iff.mp hnil).1] at hname
      cases hname
    intro line hmem
    simp only [List.mem_cons, List.not_mem_nil, or_false] at hmem
    obtain rfl | rfl | rfl | rfl := hmem
    · decide
    · decide
    · decide
    · exact ⟨hnonempty, hline⟩
  · simp only [ClientSession.switchingProtocols, List.length_append, hstatus, hupgrade,
      hconnection, hname, hlength, hend]
    omega
  · refine ⟨lit "HTTP/1.1 ", lit " Switching Protocols\r\n" ++ (lit "Upgrade: websocket\r\n" ++
      (lit "Connection: Upgrade\r\n" ++ (lit "Sec-WebSocket-Accept: " ++ (acceptKey ++
        (lit "\r\n" ++ lit "\r\n"))))), ?_⟩
    have hsplit : lit "HTTP/1.1 101 Switching Protocols\r\n" =
        lit "HTTP/1.1 " ++ lit "101" ++ lit " Switching Protocols\r\n" := by decide
    simp only [ClientSession.switchingProtocols, hsplit, List.append_assoc]

theorem endsFirst_badRequest : EndsFirst (lit "\r\n\r\n") ClientSession.badRequest := by
  rw [badRequest_eq, crlfcrlf_eq]
  exact endsFirst_block (by decide) (by decide) (by decide)

/-- No answer, a refusal, or the upgrade of a request that was read up to its first empty
line. -/
theorem doWsHandshake_cases (sha1 : Bytes → Vector UInt8 20) (seg : Segmentation)
    (stream : Bytes) :
    (∃ rest, ClientSession.doWsHandshake sha1 seg stream = ⟨none, false, rest⟩) ∨
      (∃ rest, ClientSession.doWsHandshake sha1 seg stream =
        ⟨some ClientSession.badRequest, false, rest⟩) ∨
      ∃ request rest text, stream = request ++ rest ∧ EndsFirst (lit "\r\n\r\n") request ∧
        ClientSession.doWsHandshake sha1 seg stream =
          ⟨some (ClientSession.switchingProtocols
            (ClientSession.base64Encode (sha1 text).toList)), true, rest⟩ := by
  unfold ClientSession.doWsHandshake
  rw [readRequest_eq]
  cases hread : takeUntil (lit "\r\n\r\n") 4096 [] stream with
  | mk request? rest =>
      cases request? with
      | none => exact .inl ⟨rest, rfl⟩
      | some request =>
          obtain ⟨hstream, hfirst, _⟩ :=
            (takeUntil_eq_some_iff WsClient.crlfcrlf_ne_nil).mp hread
          dsimp only
          split
          · exact .inr (.inl ⟨rest, rfl⟩)
          · split
            · exact .inr (.inl ⟨rest, rfl⟩)
            · exact .inr (.inr ⟨request, rest, _, hstream, hfirst, rfl⟩)

end relay

/-! ## Agreement -/

section agreement

variable {seg : Segmentation} {nonce : Vector UInt8 16} {host path : Bytes}

theorem wsHandshake_nil (seg : Segmentation) (nonce : Vector UInt8 16) (host path : Bytes) :
    WsClient.wsHandshake (fun _ => true) seg nonce host path [] =
      ⟨false, [WsClient.upgradeRequest nonce host path], []⟩ := by
  unfold WsClient.wsHandshake
  rw [WsClient.readResponse_eq]
  rfl

theorem wsHandshake_badRequest (seg : Segmentation) (nonce : Vector UInt8 16)
    (host path : Bytes) :
    WsClient.wsHandshake (fun _ => true) seg nonce host path ClientSession.badRequest =
      ⟨false, [WsClient.upgradeRequest nonce host path], []⟩ := by
  have hlength : ClientSession.badRequest.length ≤ 4096 + 1 := by decide
  have hread : takeUntil (lit "\r\n\r\n") 4096 [] ClientSession.badRequest =
      (some ClientSession.badRequest, []) :=
    (takeUntil_eq_some_iff WsClient.crlfcrlf_ne_nil).mpr
      ⟨(List.append_nil _).symm, endsFirst_badRequest, hlength⟩
  have hnone : findFrom (lit "101") ClientSession.badRequest 0 = none := by decide
  unfold WsClient.wsHandshake
  rw [WsClient.readResponse_eq, hread]
  simp [hnone]

/-- Whatever host and path the request has, and in whatever pieces the bytes come: the client
is connected exactly if the relay has switched, and then what the relay sends next is left to
its `recv_loop`.  The relay's read loop begins where the client's frames do exactly if the
first empty line of the request is its end. -/
theorem handshake_agreement (sha1 : Bytes → Vector UInt8 20) (segC segR : Segmentation)
    (nonce : Vector UInt8 16) (host path later frames : Bytes) :
    let request := WsClient.upgradeRequest nonce host path
    let relay := ClientSession.doWsHandshake sha1 segR (request ++ later)
    let behind := if relay.switched then frames else []
    WsClient.wsHandshake (fun _ => true) segC nonce host path (relay.sent.getD [] ++ behind) =
        ⟨relay.switched, [request], behind⟩ ∧
      (relay.switched = true →
        (relay.rest = later ↔ EndsFirst (lit "\r\n\r\n") request)) := by
  intro request relay behind
  obtain ⟨rest, hrelay⟩ | ⟨rest, hrelay⟩ | ⟨taken, rest, text, hstream, hfirst, hrelay⟩ :=
    doWsHandshake_cases sha1 segR (request ++ later)
  · simp only [behind, relay, hrelay, Bool.false_eq_true, if_false, Option.getD_none,
      List.append_nil, IsEmpty.forall_iff, and_true]
    exact wsHandshake_nil segC nonce host path
  · simp only [behind, relay, hrelay, Bool.false_eq_true, if_false, Option.getD_some,
      List.append_nil, IsEmpty.forall_iff, and_true]
    exact wsHandshake_badRequest segC nonce host path
  · simp only [behind, relay, hrelay, if_true, Option.getD_some, forall_const]
    refine ⟨WsClient.wsHandshake_ok_iff.mpr ⟨rfl, rfl, _, accepted_switchingProtocols sha1 text,
      rfl⟩, ?_, ?_⟩
    · intro hrest
      rw [hrest] at hstream
      rw [List.append_cancel_right hstream]
      exact hfirst
    · intro hrequest
      have hsame := hrequest.unique hfirst hstream
      rw [hsame] at hstream
      exact (List.append_cancel_left hstream).symm

end agreement

/-! ## From the URL to the messages -/

section conversation

variable {nonce : Vector UInt8 16} {host path : Bytes}

theorem length_keyB64 (nonce : Vector UInt8 16) : (WsClient.keyB64 nonce).length = 24 := by
  have hkey : WsClient.keyB64 nonce = ClientSession.base64Encode nonce.toList := rfl
  rw [hkey, base64Encode_eq, Base64.length_encode, Vector.length_toList]

theorem ten_notMem_keyB64 (nonce : Vector UInt8 16) : 10 ∉ WsClient.keyB64 nonce :=
  ten_notMem_base64Encode nonce.toList

def beforeKey (host path : Bytes) : Bytes :=
  lit "GET " ++ path ++ lit " HTTP/1.1\r\n" ++ (lit "Host: " ++ host ++ lit "\r\n") ++
    lit "Upgrade: websocket\r\n" ++ lit "Connection: Upgrade\r\n"

theorem upgradeRequest_eq (nonce : Vector UInt8 16) (host path : Bytes) :
    WsClient.upgradeRequest nonce host path =
      ClientSession.upgradeText (beforeKey host path) true (WsClient.keyB64 nonce)
        (lit "Sec-WebSocket-Version: 13\r\n\r\n") := by
  have hname : ClientSession.keyName ++ ClientSession.spacing true = lit "Sec-WebSocket-Key: " :=
    ClientSession.keyName_space.symm
  have hend : lit "Sec-WebSocket-Version: 13\r\n" ++ lit "\r\n" =
      lit "Sec-WebSocket-Version: 13\r\n\r\n" := by decide
  rw [ClientSession.upgradeText, hname, ← hend]
  simp only [WsClient.upgradeRequest, beforeKey, List.append_assoc]

theorem upgradeRequest_eq_block (nonce : Vector UInt8 16) (host path : Bytes) :
    WsClient.upgradeRequest nonce host path = block 13 10
      [lit "GET " ++ (path ++ lit " HTTP/1.1"), lit "Host: " ++ host, lit "Upgrade: websocket",
        lit "Connection: Upgrade", lit "Sec-WebSocket-Key: " ++ WsClient.keyB64 nonce,
        lit "Sec-WebSocket-Version: 13"] := by
  have hversion : lit " HTTP/1.1\r\n" = lit " HTTP/1.1" ++ [13, 10] := by decide
  have hupgrade : lit "Upgrade: websocket\r\n" = lit "Upgrade: websocket" ++ [13, 10] := by
    decide
  have hconnection : lit "Connection: Upgrade\r\n" = lit "Connection: Upgrade" ++ [13, 10] := by
    decide
  have hlast : lit "Sec-WebSocket-Version: 13\r\n" =
      lit "Sec-WebSocket-Version: 13" ++ [13, 10] := by decide
  have hend : lit "\r\n" = [13, 10] := by decide
  simp only [WsClient.upgradeRequest, hversion, hupgrade, hconnection, hlast, hend, block,
    List.flatMap_cons, List.flatMap_nil, List.append_assoc, List.nil_append]

/-- Host and path on one line each leave the request with one empty line, its last. -/
theorem endsFirst_upgradeRequest (hhost : 10 ∉ host) (hpath : 10 ∉ path) :
    EndsFirst (lit "\r\n\r\n") (WsClient.upgradeRequest nonce host path) := by
  have hten := ten_notMem_keyB64 nonce
  have hne : ∀ (s : String) (rest : Bytes), lit s ≠ [] → lit s ++ rest ≠ [] :=
    fun _ _ h => List.append_ne_nil_of_left_ne_nil h _
  rw [upgradeRequest_eq_block, crlfcrlf_eq]
  refine endsFirst_block (by decide) (List.cons_ne_nil _ _) ?_
  intro line hmem
  simp only [List.mem_cons, List.not_mem_nil, or_false] at hmem
  obtain rfl | rfl | rfl | rfl | rfl | rfl := hmem
  · refine ⟨hne _ _ (by decide), ?_⟩
    simp only [List.mem_append, not_or]
    exact ⟨by decide, hpath, by decide⟩
  · refine ⟨hne _ _ (by decide), ?_⟩
    simp only [List.mem_append, not_or]
    exact ⟨by decide, hhost⟩
  · decide
  · decide
  · refine ⟨hne _ _ (by decide), ?_⟩
    simp only [List.mem_append, not_or]
    exact ⟨by decide, hten⟩
  · decide

/-- The name of the header stands in front of its line only if the path has it. -/
theorem keyName_notInfix (hhost : 58 ∉ host) (hpath : ¬ ClientSession.keyName <:+: path) :
    ¬ ClientSession.keyName <:+: beforeKey host path := by
  have hsplit : beforeKey host path = lit "GET" ++ 32 :: (path ++ 32 :: (lit "HTTP/1.1\r\nHost:" ++
      32 :: (host ++ 13 :: lit "\nUpgrade: websocket\r\nConnection: Upgrade\r\n"))) := by
    have hget : lit "GET " = lit "GET" ++ [32] := by decide
    have hversion : lit " HTTP/1.1\r\n" = 32 :: lit "HTTP/1.1\r\n" := by decide
    have hhostName : lit "Host: " = lit "Host:" ++ [32] := by decide
    have hjoin : lit "HTTP/1.1\r\nHost:" = lit "HTTP/1.1\r\n" ++ lit "Host:" := by decide
    have hcrlf : lit "\r\n" = [13, 10] := by decide
    have hend : lit "\nUpgrade: websocket\r\nConnection: Upgrade\r\n" =
        10 :: (lit "Upgrade: websocket\r\n" ++ lit "Connection: Upgrade\r\n") := by
      decide
    rw [beforeKey, hget, hversion, hhostName, hjoin, hcrlf, hend]
    simp only [List.append_assoc, List.cons_append, List.nil_append]
  have hspace : (32 : UInt8) ∉ ClientSession.keyName := by decide
  have hcr : (13 : UInt8) ∉ ClientSession.keyName := by decide
  have hcolon : (58 : UInt8) ∈ ClientSession.keyName := by decide
  rw [hsplit]
  intro h
  obtain h | h := infix_append_cons hspace h
  · exact absurd h (by decide)
  · obtain h | h := infix_append_cons hspace h
    · exact hpath h
    · obtain h | h := infix_append_cons hspace h
      · exact absurd h (by decide)
      · obtain h | h := infix_append_cons hcr h
        · exact hhost (h.subset hcolon)
        · exact absurd h (by decide)

/-- The client's request, as the relay takes it apart. -/
def clientRequest (nonce : Vector UInt8 16) (host path : Bytes) (hhost : 10 ∉ host ∧ 58 ∉ host)
    (hpath : 10 ∉ path ∧ ¬ ClientSession.keyName <:+: path)
    (hlength : (WsClient.upgradeRequest nonce host path).length ≤ 4096) :
    ClientSession.UpgradeRequest where
  before := beforeKey host path
  space := true
  key := WsClient.keyB64 nonce
  after := lit "Sec-WebSocket-Version: 13\r\n\r\n"
  beginsLine := by
    have hend : lit "Connection: Upgrade\r\n" = lit "Connection: Upgrade" ++ lit "\r\n" := by
      decide
    rw [beforeKey, hend, ← List.append_assoc]
    exact List.suffix_append _ _
  key_ne := by
    have hkey := length_keyB64 nonce
    intro hnil
    rw [hnil] at hkey
    cases hkey
  key_line hin := ten_notMem_keyB64 nonce (hin.subset (by decide))
  key_space := nofun
  before_name := keyName_notInfix hhost.2 hpath.2
  after_name := by decide
  upgrade := by
    rw [← upgradeRequest_eq, upgradeRequest_eq_block]
    exact infix_block (by simp)
  ends := by
    rw [← upgradeRequest_eq]
    exact (endsFirst_upgradeRequest hhost.1 hpath.1).findFrom_eq
  length_le := by
    rw [← upgradeRequest_eq]
    exact hlength

theorem doWsHandshake_upgradeRequest (sha1 : Bytes → Vector UInt8 20) (seg : Segmentation)
    (hhost : 10 ∉ host ∧ 58 ∉ host) (hpath : 10 ∉ path ∧ ¬ ClientSession.keyName <:+: path)
    (hlength : (WsClient.upgradeRequest nonce host path).length ≤ 4096) (later : Bytes) :
    ClientSession.doWsHandshake sha1 seg (WsClient.upgradeRequest nonce host path ++ later) =
      ⟨some (ClientSession.switchingProtocols (ClientSession.base64Encode
        (sha1 (WsClient.keyB64 nonce ++ ClientSession.wsMagic)).toList)), true, later⟩ := by
  have hanswer := ClientSession.doWsHandshake_upgrade
    (clientRequest nonce host path hhost hpath hlength) sha1 seg later
  have hkey := ClientSession.requestKey_of_space
    (clientRequest nonce host path hhost hpath hlength) rfl
  have htext : (clientRequest nonce host path hhost hpath hlength).text =
      WsClient.upgradeRequest nonce host path := (upgradeRequest_eq nonce host path).symm
  have hne := (clientRequest nonce host path hhost hpath hlength).key_ne
  rw [hkey, if_neg hne, htext] at hanswer
  exact hanswer

/-- The relay's bytes come through to the client, behind what the way to it takes. -/
structure Reaches (net : WsClient.Network) (torProxy : Bool) (parsed : WsClient.ParsedUrl)
    (asked : List Bytes) (plain : Bytes) : Prop where
  sends : ∀ buf, net.send buf = true
  stream : ∃ front behind, WsClient.Way net torProxy parsed front asked ∧
    net.stream = front ++ behind ∧
    (if parsed.useTls then net.tls behind else some behind) = some plain

theorem colon_notMem_host {url : Bytes} {parsed : WsClient.ParsedUrl}
    (h : WsClient.parseWsUrl url = .ok parsed) : 58 ∉ parsed.host := by
  cases hbehind : WsClient.behindScheme url with
  | none =>
      rw [WsClient.parseWsUrl_of_unknown hbehind] at h
      cases h
      exact List.not_mem_nil
  | some found =>
      obtain ⟨useTls, rest⟩ := found
      obtain ⟨a, rfl⟩ := WsClient.Authority.exists_text rest
      rw [WsClient.parseWsUrl_of_behind hbehind] at h
      obtain ⟨port, rfl, _⟩ := WsClient.Authority.exists_port h
      exact a.host_colon

/-- A client that connects to the URL of a relay, through Tor or not, is answered for its key;
and then each end delivers exactly the other one's messages, in order. -/
theorem conversation (sha1 : Bytes → Vector UInt8 20) (net : WsClient.Network)
    (segC segR : Segmentation) (nonce : Vector UInt8 16) (url : Bytes) (torProxy : Bool)
    (parsed : WsClient.ParsedUrl) (asked : List Bytes) (messages replies : List (Bytes × MaskKey))
    (hparse : WsClient.parseWsUrl url = .ok parsed) (haccepted : parsed.accepted = true)
    (hline : 10 ∉ parsed.host ∧ 10 ∉ parsed.path)
    (hname : ¬ ClientSession.keyName <:+: parsed.path)
    (hlength : (WsClient.upgradeRequest nonce parsed.host parsed.path).length ≤ 4096)
    (hmessages : ∀ m ∈ messages, m.1.length < 2 ^ 63)
    (hreplies : ∀ m ∈ replies, m.1.length < 2 ^ 63)
    (hreaches : Reaches net torProxy parsed asked
      ((ClientSession.doWsHandshake sha1 segR
        (WsClient.upgradeRequest nonce parsed.host parsed.path ++
          messages.flatMap fun m => WsClient.sendText m.2 m.1)).sent.getD [] ++
        replies.flatMap fun m => ClientSession.sendWsText m.1)) :
    let request := WsClient.upgradeRequest nonce parsed.host parsed.path
    let frames := messages.flatMap fun m => WsClient.sendText m.2 m.1
    let relay := ClientSession.doWsHandshake sha1 segR (request ++ frames)
    relay.sent = some (ClientSession.switchingProtocols (ClientSession.base64Encode
      (sha1 (WsClient.keyB64 nonce ++ ClientSession.wsMagic)).toList)) ∧
    ∃ rest, WsClient.connect net segC nonce url torProxy = .ok ⟨true, asked ++ [request], rest⟩ ∧
      ClientSession.wsReadLoop .whole relay.rest = messages.map (fun m => .message m.1) ∧
      WsClient.recvLoop segC rest = replies.map (fun m => .message m.1) ++ [.close] := by
  intro request frames relay
  have hrelay : relay = ⟨some (ClientSession.switchingProtocols (ClientSession.base64Encode
      (sha1 (WsClient.keyB64 nonce ++ ClientSession.wsMagic)).toList)), true, frames⟩ :=
    doWsHandshake_upgradeRequest sha1 segR ⟨hline.1, colon_notMem_host hparse⟩ ⟨hline.2, hname⟩
      hlength frames
  obtain ⟨hsends, front, behind, hway, hstream, hplain⟩ := hreaches
  refine ⟨congrArg ClientSession.Handshake.sent hrelay, _,
    WsClient.connect_of_way hparse haccepted hway hstream (fun buf _ => hsends buf)
      (accepted_switchingProtocols sha1 (WsClient.keyB64 nonce ++ ClientSession.wsMagic)) ?_, ?_,
    recvLoop_sendWsText hreplies segC⟩
  · rw [hplain]
    exact congrArg (fun r : ClientSession.Handshake => some (r.sent.getD [] ++ _)) hrelay
  · rw [hrelay]
    exact wsReadLoop_sendText hmessages

def localUrl : Bytes := lit "ws://relay.onion:8080/chat"

def localParsed : WsClient.ParsedUrl := ⟨true, false, lit "relay.onion", 8080, lit "/chat"⟩

/-- The proxy's answers, with an address of four bytes. -/
def torReply : WsClient.TunnelReply where
  method := 0
  reply := #v[5, 0, 0, 1, 0, 0, 0, 0, 0, 0]
  granted := rfl

def localNonce : Vector UInt8 16 := .replicate 16 7

/-- A relay behind the proxy that answers, and then sends two messages. -/
def localNetwork (sha1 : Bytes → Vector UInt8 20) : WsClient.Network where
  proxy := true
  host _ _ := false
  send _ := true
  tls _ := none
  stream := torReply.bytes ++
    ((ClientSession.doWsHandshake sha1 .bytewise
      (WsClient.upgradeRequest localNonce localParsed.host localParsed.path ++
        sampleMessages.flatMap fun m => WsClient.sendText m.2 m.1)).sent.getD [] ++
      sampleMessages.flatMap fun m => ClientSession.sendWsText m.1)

theorem reaches_localNetwork (sha1 : Bytes → Vector UInt8 20) :
    Reaches (localNetwork sha1) true localParsed
      [WsClient.hello, WsClient.connectReq localParsed.host localParsed.port]
      ((ClientSession.doWsHandshake sha1 .bytewise
        (WsClient.upgradeRequest localNonce localParsed.host localParsed.path ++
          sampleMessages.flatMap fun m => WsClient.sendText m.2 m.1)).sent.getD [] ++
        sampleMessages.flatMap fun m => ClientSession.sendWsText m.1) where
  sends _ := rfl
  stream := ⟨_, _, .tunnel torReply (by decide) rfl, rfl, rfl⟩

theorem conversation_torReply :
    ∃ rest, WsClient.connect (localNetwork fun _ => .replicate 20 0) .bytewise localNonce
        localUrl true = .ok ⟨true, [WsClient.hello, WsClient.connectReq (lit "relay.onion") 8080,
          WsClient.upgradeRequest localNonce (lit "relay.onion") (lit "/chat")], rest⟩ ∧
      WsClient.recvLoop .bytewise rest = [.message (lit "ab"), .message [], .close] := by
  obtain ⟨_, rest, hconnect, _, hreplies⟩ := conversation (fun _ => .replicate 20 0)
    (localNetwork fun _ => .replicate 20 0) .bytewise .bytewise localNonce localUrl true localParsed
    _ sampleMessages sampleMessages (by decide) rfl (by decide +kernel) (by decide +kernel)
    (by decide +kernel) (by decide) (by decide) (reaches_localNetwork _)
  exact ⟨rest, hconnect, hreplies⟩

end conversation

end LinuxLive
