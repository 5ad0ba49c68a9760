import LinuxLive.Lib.Positions
import LinuxLive.Protocol.KeyText
import LinuxLive.Relay.Session

/-!
# The relay's handshake

`ClientSession::do_ws_handshake`: the request is read byte by byte, and the key is cut out
of it at a fixed distance from the name of its header.
-/

namespace LinuxLive.Relay.ClientSession

def wsMagic : Bytes := lit "258EAFA5-E914-47DA-95CA-C5AB0DC85B11"

def endsRequest (request : Bytes) : Bool :=
  decide (4 ≤ request.length ∧ request.drop (request.length - 4) = lit "\r\n\r\n")

/-- The loop of `recv_raw` calls for one byte each, and what it leaves unread. -/
def readRequest (seg : Segmentation) (request stream : Bytes) : Option Bytes × Bytes :=
  let r := recvRaw seg 1 stream
  if r.ok = false ∨ r.buf.length = 0 then (none, r.rest)
  else
    let request := request ++ r.buf
    if endsRequest request then (some request, r.rest)
    else if 4096 < request.length then (none, r.rest)
    else readRequest seg request r.rest
termination_by stream.length
decreasing_by
  rename_i hgot _ _
  have hlength := (reader_recvRaw seg).length_eq 1 stream
  have hpos : (recvRaw seg 1 stream).buf.length ≠ 0 := fun h => hgot (.inr h)
  omega

def requestKey (request : Bytes) : Bytes :=
  match (findFrom (lit "Sec-WebSocket-Key: ") request 0).or
      (findFrom (lit "Sec-WebSocket-Key:") request 0) with
  | none => []
  | some keyPos =>
      let keyPos := keyPos + 19
      match findFrom (lit "\r\n") request keyPos with
      | none => []
      | some keyEnd => (request.drop keyPos).take (keyEnd - keyPos)

def badRequest : Bytes := lit "HTTP/1.1 400 Bad Request\r\nContent-Length: 0\r\n\r\n"

def switchingProtocols (acceptKey : Bytes) : Bytes :=
  lit "HTTP/1.1 101 Switching Protocols\r\n" ++ lit "Upgrade: websocket\r\n" ++
    lit "Connection: Upgrade\r\n" ++ lit "Sec-WebSocket-Accept: " ++ acceptKey ++ lit "\r\n" ++
    lit "\r\n"

/-- The text that is given to `send_raw`, whether its result is the one of the handshake
(which is `false` otherwise), and what is left unread. -/
structure Handshake where
  sent : Option Bytes
  switched : Bool
  rest : Bytes
  deriving DecidableEq

/-- `do_ws_handshake` over the SHA-1 of OpenSSL. -/
def doWsHandshake (sha1 : Bytes → Vector UInt8 20) (seg : Segmentation) (stream : Bytes) :
    Handshake :=
  match readRequest seg [] stream with
  | (none, rest) => ⟨none, false, rest⟩
  | (some request, rest) =>
      if findFrom (lit "Upgrade: websocket") request 0 = none ∧
          findFrom (lit "Upgrade: WebSocket") request 0 = none then
        ⟨some badRequest, false, rest⟩
      else
        let key := requestKey request
        if key = [] then ⟨some badRequest, false, rest⟩
        else
          let acceptKey := base64Encode (sha1 (key ++ wsMagic)).toList
          ⟨some (switchingProtocols acceptKey), true, rest⟩

/-! ## Reading the request -/

section read

variable {seg : Segmentation} {request stream : Bytes}

theorem recvRaw_one (seg : Segmentation) (b : UInt8) (stream : Bytes) :
    recvRaw seg 1 (b :: stream) = ⟨true, [b], stream⟩ := by
  have hpos := seg.pos (b :: stream).length 1 (Nat.succ_pos _) Nat.one_pos
  have hle := seg.le_len (b :: stream).length 1
  have hone : seg.size (b :: stream).length 1 = 1 := by omega
  rw [recvRaw, recv, hone]
  rfl

theorem endsRequest_iff : endsRequest request = true ↔ lit "\r\n\r\n" <:+ request := by
  have hlength : (lit "\r\n\r\n").length = 4 := by decide
  rw [endsRequest, decide_eq_true_eq, List.suffix_iff_eq_drop, hlength]
  constructor
  · exact fun h => h.2.symm
  · intro h
    refine ⟨?_, h.symm⟩
    have hlen := congrArg List.length h
    rw [hlength, List.length_drop] at hlen
    omega

theorem readRequest_append (pre : Bytes) {post rest : Bytes} (hpost : post ≠ [])
    (hends : lit "\r\n\r\n" <:+ pre ++ post)
    (hfirst : ∀ p q, pre ++ post = p ++ q → q ≠ [] → ¬ lit "\r\n\r\n" <:+ p)
    (hlength : (pre ++ post).length ≤ 4096) :
    readRequest seg pre (post ++ rest) = (some (pre ++ post), rest) := by
  induction post generalizing pre with
  | nil => exact absurd rfl hpost
  | cons b post ih =>
      have hsplit : pre ++ b :: post = (pre ++ [b]) ++ post := by simp
      rw [List.cons_append, readRequest, recvRaw_one]
      simp only [Bool.true_eq_false, List.length_singleton, Nat.one_ne_zero, or_self, if_false]
      cases post with
      | nil => rw [if_pos (endsRequest_iff.mpr hends), List.nil_append]
      | cons c post =>
          have hnot : ¬ endsRequest (pre ++ [b]) = true := fun h =>
            hfirst _ _ hsplit (List.cons_ne_nil c post) (endsRequest_iff.mp h)
          have hshort : ¬ 4096 < (pre ++ [b]).length := by
            rw [hsplit, List.length_append] at hlength
            omega
          rw [if_neg hnot, if_neg hshort, hsplit]
          rw [hsplit] at hends hfirst hlength
          exact ih (pre ++ [b]) (List.cons_ne_nil c post) hends hfirst hlength

end read

/-! ## The key -/

def keyName : Bytes := lit "Sec-WebSocket-Key:"

def spacing (space : Bool) : Bytes := if space then [32] else []

def upgradeText (before : Bytes) (space : Bool) (key after : Bytes) : Bytes :=
  before ++ ((keyName ++ spacing space) ++ (key ++ (lit "\r\n" ++ after)))

/-- A request to switch protocols with one line for the key. -/
structure UpgradeRequest where
  before : Bytes
  space : Bool
  key : Bytes
  after : Bytes
  beginsLine : lit "\r\n" <:+ before
  key_ne : key ≠ []
  key_line : ¬ lit "\r\n" <:+: key
  /-- A first space belongs to the name of the header. -/
  key_space : space = false → ¬ [32] <+: key
  before_name : ¬ keyName <:+: before
  after_name : ¬ keyName <:+: after
  upgrade : lit "Upgrade: websocket" <:+: upgradeText before space key after
  /-- The only empty line is at the end. -/
  ends : findFrom (lit "\r\n\r\n") (upgradeText before space key after) 0 =
    some ((upgradeText before space key after).length - 4)
  length_le : (upgradeText before space key after).length ≤ 4096

def UpgradeRequest.text (r : UpgradeRequest) : Bytes :=
  upgradeText r.before r.space r.key r.after

/-- Whatever the hash is and what follows the request, the answer is the one for the key,
and nothing is read but the request. -/
def UpgradeRequest.Answers (r : UpgradeRequest) : Prop :=
  ∀ (sha1 : Bytes → Vector UInt8 20) (seg : Segmentation) (rest : Bytes),
    doWsHandshake sha1 seg (r.text ++ rest) =
      ⟨some (switchingProtocols (base64Encode (sha1 (r.key ++ wsMagic)).toList)), true, rest⟩

section key

variable {request : Bytes}

theorem length_keyName : keyName.length = 18 := by decide

theorem length_spacing (space : Bool) : (spacing space).length = space.toNat := by
  cases space <;> rfl

theorem keyName_space : lit "Sec-WebSocket-Key: " = keyName ++ [32] := by decide

theorem cr_notMem_name (space : Bool) : 13 ∉ keyName ++ spacing space := by
  cases space <;> decide

theorem lf_notMem_name (space : Bool) : 10 ∉ keyName ++ spacing space := by
  cases space <;> decide

theorem readRequest_upgrade (r : UpgradeRequest) (seg : Segmentation) (rest : Bytes) :
    readRequest seg [] (r.text ++ rest) = (some r.text, rest) := by
  have hlength : (lit "\r\n\r\n").length = 4 := by decide
  obtain ⟨hle, _, hat, hfirst⟩ := findFrom_eq_some_iff.mp r.ends
  have hfour := hat.length_le
  rw [hlength, List.length_drop] at hfour
  apply readRequest_append []
  · intro hnil
    have hzero : r.text.length = 0 := by rw [hnil, List.length_nil]
    rw [UpgradeRequest.text] at hzero
    omega
  · rw [List.nil_append]
    have hwhole := hat.eq_of_length (by rw [hlength, List.length_drop]; omega)
    rw [hwhole]
    exact List.drop_suffix _ _
  · intro p q hpq hq hp
    rw [List.nil_append, UpgradeRequest.text] at hpq
    obtain ⟨front, rfl⟩ := hp
    have hpos := List.length_pos_of_ne_nil hq
    have hlen := congrArg List.length hpq
    rw [List.length_append, List.length_append, hlength] at hlen
    refine hfirst front.length (Nat.zero_le _) (by omega) ?_
    rw [hpq, List.append_assoc, List.drop_left]
    exact List.prefix_append _ _
  · exact r.length_le

/-- The name of the header is found nowhere but in the line of the key. -/
theorem name_in_line (r : UpgradeRequest) (space : Bool) {j : Nat}
    (h : keyName ++ spacing space <+: r.text.drop j) :
    r.before.length ≤ j ∧ j + 18 + space.toNat ≤
      r.before.length + 18 + r.space.toNat + r.key.length := by
  have hname : keyName <:+: keyName ++ spacing space := (List.prefix_append _ _).isInfix
  have hlen : (keyName ++ spacing space).length = 18 + space.toNat := by
    rw [List.length_append, length_keyName, length_spacing]
  constructor
  · obtain ⟨front, hfront⟩ := r.beginsLine
    have hbefore : r.before = (front ++ [13]) ++ [10] := by
      rw [← hfront, List.append_assoc]
      rfl
    have hsplit : r.text = (front ++ [13]) ++ 10 ::
        ((keyName ++ spacing r.space) ++ (r.key ++ (lit "\r\n" ++ r.after))) := by
      rw [UpgradeRequest.text, upgradeText, hbefore, List.append_assoc, List.singleton_append]
    rw [hsplit] at h
    obtain ⟨_, hin⟩ | ⟨hj, _⟩ := prefix_drop_split (lf_notMem_name space) h
    · have hinBefore : keyName <:+: r.before :=
        hbefore ▸ (hname.trans hin).trans (List.prefix_append _ _).isInfix
      exact absurd hinBefore r.before_name
    · rw [hbefore, List.length_append, List.length_singleton]
      omega
  · have hsplit : r.text = (r.before ++ ((keyName ++ spacing r.space) ++ r.key)) ++ 13 ::
        (10 :: r.after) := by
      have hline : lit "\r\n" ++ r.after = 13 :: 10 :: r.after := rfl
      rw [UpgradeRequest.text, upgradeText, hline]
      simp only [List.append_assoc]
    rw [hsplit] at h
    obtain ⟨hj, _⟩ | ⟨_, hin⟩ := prefix_drop_split (cr_notMem_name space) h
    · rw [hlen] at hj
      simp only [List.length_append, length_keyName, length_spacing] at hj
      omega
    · obtain hat | hinAfter := List.infix_cons_iff.mp (hname.trans hin)
      · have hcons : keyName = 83 :: keyName.tail := by decide
        rw [hcons, List.cons_prefix_cons] at hat
        exact absurd hat.1 (by decide)
      · exact absurd hinAfter r.after_name

theorem findFrom_crlf (before after : Bytes) {key : Bytes} (hkey : ¬ lit "\r\n" <:+: key) :
    findFrom (lit "\r\n") (before ++ (key ++ (lit "\r\n" ++ after))) before.length =
      some (before.length + key.length) := by
  have hfirst : ∀ j < key.length,
      ¬ lit "\r\n" <+: (key ++ (lit "\r\n" ++ after)).drop j := by
    intro j hj hat
    have hsuffix := List.drop_suffix j key
    have hlen : (key.drop j).length = key.length - j := List.length_drop
    rw [List.drop_append_of_le_length (Nat.le_of_lt hj)] at hat
    have hcrlf : lit "\r\n" = [13, 10] := by decide
    cases hdrop : key.drop j with
    | nil => rw [hdrop, List.length_nil] at hlen; omega
    | cons a rest =>
        cases rest with
        | nil =>
            rw [hdrop, hcrlf, List.singleton_append, List.cons_append, List.cons_prefix_cons,
              List.cons_prefix_cons] at hat
            exact absurd hat.2.1 (by decide)
        | cons b rest =>
            rw [hdrop, hcrlf, List.cons_append, List.cons_append, List.cons_prefix_cons,
              List.cons_prefix_cons] at hat
            rw [hdrop, ← hat.1, ← hat.2.1] at hsuffix
            exact hkey ((List.prefix_append [13, 10] rest).isInfix.trans hsuffix.isInfix)
  rw [findFrom_append, findFrom_of_first hfirst, Option.map_some]

/-- Behind a space the key is cut out as it was sent. -/
theorem requestKey_of_space (r : UpgradeRequest) (hspace : r.space = true) :
    requestKey r.text = r.key := by
  have hname : findFrom (lit "Sec-WebSocket-Key: ") r.text 0 = some r.before.length := by
    rw [UpgradeRequest.text, upgradeText, hspace, keyName_space]
    refine findFrom_of_first fun j hj hat => ?_
    have hline := name_in_line r true (j := j)
    rw [UpgradeRequest.text, upgradeText, hspace] at hline
    have hle := (hline hat).1
    omega
  have hsplit : r.text =
      (r.before ++ (keyName ++ [32])) ++ (r.key ++ (lit "\r\n" ++ r.after)) := by
    rw [UpgradeRequest.text, upgradeText, hspace, ← List.append_assoc]
    rfl
  have hbehind : (r.before ++ (keyName ++ [32])).length = r.before.length + 19 := by
    rw [List.length_append, List.length_append, length_keyName]
    rfl
  have hend := findFrom_crlf (r.before ++ (keyName ++ [32])) r.after r.key_line
  rw [← hsplit, hbehind] at hend
  rw [requestKey, hname]
  dsimp only [Option.some_or]
  rw [hend]
  dsimp only
  rw [hsplit, ← hbehind, List.drop_left, Nat.add_sub_cancel_left, List.take_left]

/-- Where the code finds the name, the cut begins no later than the line of the key ends. -/
theorem keyPos_le (r : UpgradeRequest) (hspace : r.space = false)
    (hname : keyName <+: r.text.drop r.before.length) {keyPos : Nat}
    (h : (findFrom (lit "Sec-WebSocket-Key: ") r.text 0).or (findFrom keyName r.text 0) =
      some keyPos) :
    keyPos + 19 ≤ r.before.length + 18 + r.key.length ∧ r.before.length ≤ keyPos := by
  have hpos := List.length_pos_of_ne_nil r.key_ne
  rw [Option.or_eq_some_iff] at h
  obtain h | ⟨_, h⟩ := h
  · obtain ⟨_, _, hat, _⟩ := findFrom_eq_some_iff.mp h
    rw [keyName_space] at hat
    have hbounds := name_in_line r true hat
    rw [hspace, Bool.toNat_true, Bool.toNat_false] at hbounds
    omega
  · obtain ⟨_, _, hat, hfirst⟩ := findFrom_eq_some_iff.mp h
    have hge := (name_in_line r false (by simpa [spacing] using hat)).1
    have hle : keyPos ≤ r.before.length := by
      by_contra hlt
      exact hfirst r.before.length (Nat.zero_le _) (by omega) hname
    omega

/-- Without one the cut begins too late. -/
theorem requestKey_of_no_space (r : UpgradeRequest) (hspace : r.space = false) :
    (requestKey r.text).length < r.key.length := by
  have hpos := List.length_pos_of_ne_nil r.key_ne
  have hsplit : r.text = (r.before ++ keyName) ++ (r.key ++ (lit "\r\n" ++ r.after)) := by
    rw [UpgradeRequest.text, upgradeText, hspace, ← List.append_assoc]
    rfl
  have hname : keyName <+: r.text.drop r.before.length := by
    rw [hsplit, List.append_assoc, List.drop_left]
    exact List.prefix_append _ _
  have hline : lit "\r\n" <+: r.text.drop (r.before.length + 18 + r.key.length) := by
    have hlen : r.before.length + 18 + r.key.length = ((r.before ++ keyName) ++ r.key).length := by
      rw [List.length_append, List.length_append, length_keyName]
    rw [hsplit, ← List.append_assoc, hlen, List.drop_left]
    exact List.prefix_append _ _
  rw [requestKey]
  split
  · exact hpos
  · next keyPos hkeyPos =>
    obtain ⟨hle, hge⟩ := keyPos_le r hspace hname hkeyPos
    dsimp only
    split
    · exact hpos
    · next keyEnd hkeyEnd =>
      obtain ⟨_, _, _, hfirst⟩ := findFrom_eq_some_iff.mp hkeyEnd
      have hend : keyEnd ≤ r.before.length + 18 + r.key.length := by
        by_contra hlt
        exact hfirst _ hle (by omega) hline
      have htake : ((r.text.drop (keyPos + 19)).take (keyEnd - (keyPos + 19))).length ≤
          keyEnd - (keyPos + 19) := by
        rw [List.length_take]
        omega
      omega

end key

/-! ## The answer -/

section answer

/-- An upgrade is asked for, so it only depends on the key how the request is answered. -/
theorem doWsHandshake_upgrade (r : UpgradeRequest) (sha1 : Bytes → Vector UInt8 20)
    (seg : Segmentation) (rest : Bytes) :
    doWsHandshake sha1 seg (r.text ++ rest) =
      if requestKey r.text = [] then ⟨some badRequest, false, rest⟩
      else ⟨some (switchingProtocols
        (base64Encode (sha1 (requestKey r.text ++ wsMagic)).toList)), true, rest⟩ := by
  have hupgrade : ¬ findFrom (lit "Upgrade: websocket") r.text 0 = none := by
    intro hnone
    obtain ⟨u, v, huv⟩ := r.upgrade
    have htext : r.text = u ++ (lit "Upgrade: websocket" ++ v) := by
      rw [UpgradeRequest.text, ← huv, List.append_assoc]
    refine findFrom_eq_none_iff.mp hnone u.length ?_ (Nat.zero_le _) ?_
    · rw [htext, List.length_append]
      omega
    · rw [htext, List.drop_left]
      exact List.prefix_append _ _
  rw [doWsHandshake, readRequest_upgrade]
  dsimp only
  rw [if_neg fun h => hupgrade h.1]

/-- A hash that tells one text from all others. -/
def marks (text : Bytes) : Bytes → Vector UInt8 20 := fun data =>
  Vector.replicate 20 (if data = text then 1 else 0)

theorem marks_inj {text data : Bytes}
    (h : base64Encode (marks text data).toList = base64Encode (marks text text).toList) :
    data = text := by
  have hlists := base64Encode_inj h
  by_contra hne
  rw [marks, marks, if_neg hne, if_pos rfl] at hlists
  exact absurd hlists (by decide)

/-- The request is answered for its key just if a space stands in front of it: the key is
cut out behind a space in either case. -/
theorem answers_iff (r : UpgradeRequest) : r.Answers ↔ r.space = true := by
  constructor
  · intro h
    by_contra hspace
    rw [Bool.not_eq_true] at hspace
    have hshort := requestKey_of_no_space r hspace
    have hanswer := h (marks (r.key ++ wsMagic)) .whole []
    rw [doWsHandshake_upgrade] at hanswer
    split at hanswer
    · exact Bool.noConfusion (congrArg Handshake.switched hanswer)
    · have hsent := congrArg Handshake.sent hanswer
      simp only [Option.some.injEq, switchingProtocols, List.append_cancel_left_eq,
        List.append_cancel_right_eq] at hsent
      have hkey := List.append_cancel_right (marks_inj hsent)
      rw [hkey] at hshort
      exact Nat.lt_irrefl _ hshort
  · intro hspace sha1 seg rest
    rw [doWsHandshake_upgrade, requestKey_of_space r hspace, if_neg r.key_ne]

/-- The second search of the code finds the key, and loses its first character. -/
def tightRequest : UpgradeRequest where
  before := lit "GET / HTTP/1.1\r\nUpgrade: websocket\r\n"
  space := false
  key := lit "dGhlIHNhbXBsZSBub25jZQ=="
  after := lit "\r\n"
  beginsLine := by decide
  key_ne := by decide
  key_line := by decide
  key_space := by decide
  before_name := by decide
  after_name := by decide
  upgrade := by decide
  ends := by decide
  length_le := by decide

theorem key_cut_short :
    (∀ (sha1 : Bytes → Vector UInt8 20) (seg : Segmentation) (rest : Bytes),
      doWsHandshake sha1 seg (tightRequest.text ++ rest) = ⟨some (switchingProtocols
        (base64Encode (sha1 (lit "GhlIHNhbXBsZSBub25jZQ==" ++ wsMagic)).toList)), true, rest⟩) ∧
      ¬ ∀ r : UpgradeRequest, r.Answers := by
  have hkey : requestKey tightRequest.text = lit "GhlIHNhbXBsZSBub25jZQ==" := by decide
  have hanswer : ∀ sha1 seg rest, doWsHandshake sha1 seg (tightRequest.text ++ rest) =
      ⟨some (switchingProtocols
        (base64Encode (sha1 (lit "GhlIHNhbXBsZSBub25jZQ==" ++ wsMagic)).toList)), true, rest⟩ := by
    intro sha1 seg rest
    rw [doWsHandshake_upgrade, hkey, if_neg (by decide)]
  refine ⟨hanswer, fun hall => ?_⟩
  have hsent := hall tightRequest (marks (tightRequest.key ++ wsMagic)) .whole []
  rw [hanswer] at hsent
  have htext := congrArg Handshake.sent hsent
  simp only [Option.some.injEq, switchingProtocols, List.append_cancel_left_eq,
    List.append_cancel_right_eq] at htext
  exact absurd (List.append_cancel_right (marks_inj htext)) (by decide)

end answer

end LinuxLive.Relay.ClientSession
