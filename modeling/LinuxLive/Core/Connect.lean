import Mathlib.Data.List.DropRight
import LinuxLive.Core.RelayUrl

/-!
# Connecting to a relay

How `WsClient::connect` reaches the host of a URL: through the Tor proxy or by a look-up of
its name.
-/

namespace LinuxLive.WsClient

def usesProxy (torProxy : Bool) (host : Bytes) : Bool :=
  torProxy && decide (6 < host.length) && decide (host.drop (host.length - 6) = lit ".onion")

/-- `connect_req`, with the casts of the length and of both bytes of the port. -/
def connectReq (host : Bytes) (port : Int) : Bytes :=
  [0x05, 0x01, 0x00, 0x03] ++ (UInt8.ofNat host.length :: host) ++
    [UInt8.ofInt (port / 256), UInt8.ofInt port]

/-- `htons(port)` as the number that it stands for. -/
def sinPort (port : Int) : UInt16 := UInt16.ofInt port

/-- How far `connect` comes without the network. -/
inductive Dial where
  | fails
  | socks5 (connectReq : Bytes)
  /-- The name that is given to `gethostbyname`, and the port. -/
  | direct (host : Bytes) (sinPort : UInt16)
  deriving DecidableEq

def dial (url : Bytes) (torProxy : Bool) : Except NumberError Dial :=
  (parseWsUrl url).map fun parsed =>
    if parsed.accepted = false then .fails
    else if usesProxy torProxy parsed.host then .socks5 (connectReq parsed.host parsed.port)
    else .direct parsed.host (sinPort parsed.port)

theorem usesProxy_iff {host : Bytes} :
    usesProxy true host = true ↔ ∃ name, name ≠ [] ∧ host = name ++ lit ".onion" := by
  have hlength : (lit ".onion").length = 6 := by decide
  simp only [usesProxy, Bool.true_and, Bool.and_eq_true, decide_eq_true_eq]
  constructor
  · intro h
    refine ⟨host.take (host.length - 6), ?_, ?_⟩
    · intro hnil
      have hzero := congrArg List.length hnil
      rw [List.length_take, List.length_nil] at hzero
      omega
    · rw [← h.2, List.take_append_drop]
  · intro h
    obtain ⟨name, hname, rfl⟩ := h
    have hpos := List.length_pos_of_ne_nil hname
    rw [List.length_append, hlength]
    refine ⟨by omega, ?_⟩
    rw [Nat.add_sub_cancel, List.drop_left]

/-! ## What the encoders keep -/

def readConnectReq : Bytes → Option (Bytes × Nat)
  | 0x05 :: 0x01 :: 0x00 :: 0x03 :: len :: rest =>
      match rest.drop len.toNat with
      | [high, low] => some (rest.take len.toNat, 256 * high.toNat + low.toNat)
      | _ => none
  | _ => none

/-- Port and name go into their fields, and nothing of them is cut off. -/
structure Exact (r : ParsedUrl) : Prop where
  port_pos : 1 ≤ r.port
  port_le : r.port ≤ 65535
  host_le : ∀ torProxy, usesProxy torProxy r.host = true → r.host.length ≤ 255
  sinPort : ((sinPort r.port).toNat : Int) = r.port
  request : ∀ torProxy, usesProxy torProxy r.host = true →
    readConnectReq (connectReq r.host r.port) = some (r.host, r.port.toNat)

/-- The URL is parsed without an exception and, if it is accepted, encoded exactly. -/
def UrlSafe (url : Bytes) : Prop :=
  ∃ r, parseWsUrl url = .ok r ∧ (r.accepted = true → Exact r)

section encoders

variable {host : Bytes} {port : Int}

theorem toNat_sinPort (hpos : 1 ≤ port) (hle : port ≤ 65535) :
    ((sinPort port).toNat : Int) = port := by
  unfold sinPort UInt16.ofInt
  rw [UInt16.toNat_ofNat']
  omega

theorem readConnectReq_connectReq (hhost : host.length ≤ 255) (hpos : 1 ≤ port)
    (hle : port ≤ 65535) : readConnectReq (connectReq host port) = some (host, port.toNat) := by
  have hlen : (UInt8.ofNat host.length).toNat = host.length :=
    UInt8.toNat_ofNat_of_lt (Nat.lt_succ_of_le hhost)
  have hhigh : (UInt8.ofInt (port / 256)).toNat = (port / 256).toNat := by
    unfold UInt8.ofInt
    rw [UInt8.toNat_ofNat']
    omega
  have hlow : (UInt8.ofInt port).toNat = (port % 256).toNat := by
    unfold UInt8.ofInt
    rw [UInt8.toNat_ofNat']
    omega
  have hvalue : 256 * (port / 256).toNat + (port % 256).toNat = port.toNat := by omega
  simp only [connectReq, List.cons_append, List.nil_append, readConnectReq, hlen, List.drop_left,
    List.take_left, hhigh, hlow, hvalue]

theorem exact_of_range {r : ParsedUrl} (hpos : 1 ≤ r.port) (hle : r.port ≤ 65535)
    (hhost : usesProxy true r.host = true → r.host.length ≤ 255) : Exact r := by
  have hany : ∀ torProxy, usesProxy torProxy r.host = true → r.host.length ≤ 255 := by
    intro torProxy h
    cases torProxy with
    | false => cases h
    | true => exact hhost h
  exact ⟨hpos, hle, hany, toNat_sinPort hpos hle,
    fun torProxy h => readConnectReq_connectReq (hany torProxy h) hpos hle⟩

end encoders

/-! ## Safe URLs -/

/-- The text behind the colon is a number, of an `int` if there is no host and of a port if
there is one; and the name of a hidden service has at most 255 bytes. -/
structure Authority.Fits (a : Authority) : Prop where
  port : ∀ t ∈ a.portText, ∃ n : NumberText, n.text = t ∧
    if a.host = [] then -2 ^ 31 ≤ n.value ∧ n.value < 2 ^ 31 else 1 ≤ n.value ∧ n.value ≤ 65535
  host : ∀ name, name ≠ [] → a.host = name ++ lit ".onion" → a.host.length ≤ 255

section safe

variable {url : Bytes} {useTls : Bool} {a : Authority}

theorem Authority.Fits.read (h : a.Fits) (useTls : Bool) :
    ∃ r, a.read useTls = .ok r ∧ (r.accepted = true → Exact r) := by
  have hhost : usesProxy true a.host = true → a.host.length ≤ 255 := by
    intro hproxy
    obtain ⟨name, hname, hsplit⟩ := usesProxy_iff.mp hproxy
    exact h.host name hname hsplit
  cases hport : a.portText with
  | none =>
      have hdefault : 1 ≤ defaultPort useTls ∧ defaultPort useTls ≤ 65535 := by
        cases useTls <;> decide
      refine ⟨a.parsed useTls (defaultPort useTls), ?_, fun _ => ?_⟩
      · rw [Authority.read, hport]
      · exact exact_of_range hdefault.1 hdefault.2 hhost
  | some t =>
      obtain ⟨n, hn, hrange⟩ := h.port t hport
      by_cases hempty : a.host = []
      · rw [if_pos hempty] at hrange
        have hstoi : stoi t = .ok n.value := NumberText.stoi_eq_ok_iff.mpr ⟨n, hn, rfl, hrange⟩
        exact ⟨_, read_of_stoi hport hstoi useTls,
          fun haccepted => absurd hempty (of_decide_eq_true haccepted)⟩
      · rw [if_neg hempty] at hrange
        have hstoi : stoi t = .ok n.value :=
          NumberText.stoi_eq_ok_iff.mpr ⟨n, hn, rfl, by omega, by omega⟩
        exact ⟨_, read_of_stoi hport hstoi useTls,
          fun _ => exact_of_range hrange.1 hrange.2 hhost⟩

theorem Authority.fits_of_read {r : ParsedUrl} (hread : a.read useTls = .ok r)
    (h : r.accepted = true → Exact r) : a.Fits := by
  obtain ⟨port, rfl, hport⟩ := exists_port hread
  have hexact : a.host ≠ [] → Exact (a.parsed useTls port) := fun hne => h (decide_eq_true hne)
  constructor
  · intro t ht
    obtain ⟨n, hn, hvalue, hrange⟩ := NumberText.stoi_eq_ok_iff.mp (hport t ht)
    refine ⟨n, hn, ?_⟩
    by_cases hempty : a.host = []
    · rw [if_pos hempty, hvalue]
      exact hrange
    · rw [if_neg hempty, hvalue]
      exact ⟨(hexact hempty).port_pos, (hexact hempty).port_le⟩
  · intro name hname hhost
    have hne : a.host ≠ [] := by
      rw [hhost]
      exact List.append_ne_nil_of_left_ne_nil hname _
    exact (hexact hne).host_le true (usesProxy_iff.mpr ⟨name, hname, hhost⟩)

end safe

/-- A URL is safe exactly if its scheme is not known or what stands behind it fits. -/
theorem urlSafe_iff (url : Bytes) :
    UrlSafe url ↔ ∀ useTls (a : Authority), behindScheme url = some (useTls, a.text) → a.Fits := by
  constructor
  · intro h useTls a hbehind
    obtain ⟨r, hparse, hexact⟩ := h
    rw [parseWsUrl_of_behind hbehind] at hparse
    exact a.fits_of_read hparse hexact
  · intro h
    cases hbehind : behindScheme url with
    | none => exact ⟨_, parseWsUrl_of_unknown hbehind, nofun⟩
    | some found =>
        obtain ⟨useTls, rest⟩ := found
        obtain ⟨a, rfl⟩ := Authority.exists_text rest
        obtain ⟨r, hread, hexact⟩ := (h useTls a hbehind).read useTls
        exact ⟨r, (parseWsUrl_of_behind hbehind).trans hread, hexact⟩

/-- A word in the place of the port leaves `parse_ws_url` with an exception. -/
theorem word_for_port_throws :
    parseWsUrl (lit "relay:http") = .error .invalidArgument ∧ ¬ ∀ url, UrlSafe url := by
  have hthrows : parseWsUrl (lit "relay:http") = .error .invalidArgument := by decide
  refine ⟨hthrows, fun hall => ?_⟩
  obtain ⟨r, hparse, _⟩ := hall (lit "relay:http")
  rw [hthrows] at hparse
  cases hparse

/-! ## Onion hosts -/

/-- The text behind the last dot; a dot at the very end does not count. -/
def lastLabel (host : Bytes) : Bytes :=
  (if host.getLast? = some 46 then host.dropLast else host).rtakeWhile (· != 46)

def OnionName (host : Bytes) : Prop := lowerCase (lastLabel host) = lit "onion"

instance (host : Bytes) : Decidable (OnionName host) := inferInstanceAs (Decidable (_ = _))

def Accepts (url : Bytes) : Prop := ∃ r, parseWsUrl url = .ok r ∧ r.accepted = true

/-- If the host is an onion name, it is not looked up. -/
def HidesOnion (url : Bytes) : Prop :=
  ∀ r, parseWsUrl url = .ok r → r.accepted = true → OnionName r.host →
    ∀ host port, dial url true ≠ .ok (.direct host port)

section onion

variable {url : Bytes} {useTls : Bool} {a : Authority} {r : ParsedUrl}

theorem host_of_behind (hbehind : behindScheme url = some (useTls, a.text))
    (hparse : parseWsUrl url = .ok r) : r.host = a.host := by
  rw [parseWsUrl_of_behind hbehind] at hparse
  obtain ⟨port, rfl, _⟩ := Authority.exists_port hparse
  rfl

/-- The name of an accepted URL is looked up unless the proxy is used. -/
theorem no_lookup_iff (hparse : parseWsUrl url = .ok r) (haccepted : r.accepted = true) :
    (∀ host port, dial url true ≠ .ok (.direct host port)) ↔ usesProxy true r.host = true := by
  have hdial : dial url true = .ok (
      if usesProxy true r.host then .socks5 (connectReq r.host r.port)
      else .direct r.host (sinPort r.port)) := by
    simp [dial, hparse, haccepted, Except.map]
  rw [hdial]
  cases usesProxy true r.host with
  | true => exact iff_of_true (fun _ _ => nofun) rfl
  | false => exact iff_of_false (fun h => h _ _ rfl) nofun

end onion

/-- Onion names stay hidden exactly if they are written with a name in front, in lower case
and without a dot at the end. -/
theorem hidesOnion_iff (url : Bytes) :
    HidesOnion url ↔ ∀ useTls (a : Authority), behindScheme url = some (useTls, a.text) →
      Accepts url → OnionName a.host → ∃ name, name ≠ [] ∧ a.host = name ++ lit ".onion" := by
  constructor
  · intro h useTls a hbehind haccepts honion
    obtain ⟨r, hparse, haccepted⟩ := haccepts
    have hhost := host_of_behind hbehind hparse
    have hhidden := h r hparse haccepted (hhost ▸ honion)
    rw [← usesProxy_iff, ← hhost]
    exact (no_lookup_iff hparse haccepted).mp hhidden
  · intro h r hparse haccepted honion
    rw [no_lookup_iff hparse haccepted]
    cases hbehind : behindScheme url with
    | none =>
        rw [parseWsUrl_of_unknown hbehind] at hparse
        cases hparse
        cases haccepted
    | some found =>
        obtain ⟨useTls, rest⟩ := found
        obtain ⟨a, rfl⟩ := Authority.exists_text rest
        have hhost := host_of_behind hbehind hparse
        rw [hhost] at honion ⊢
        exact usesProxy_iff.mpr (h useTls a hbehind ⟨r, hparse, haccepted⟩ honion)

/-- Capitals are enough to have the name looked up. -/
theorem capital_onion_is_looked_up :
    dial (lit "ws://abc.ONION/") true = .ok (.direct (lit "abc.ONION") 80) ∧
      ¬ ∀ url, HidesOnion url := by
  have hdial : dial (lit "ws://abc.ONION/") true = .ok (.direct (lit "abc.ONION") 80) := by
    decide
  have hparse : parseWsUrl (lit "ws://abc.ONION/") =
      .ok ⟨true, false, lit "abc.ONION", 80, lit "/"⟩ := by decide
  exact ⟨hdial, fun hall => hall _ _ hparse rfl (by decide) _ _ hdial⟩

end LinuxLive.WsClient
