import LinuxLive.Lib.Numbers
import LinuxLive.Lib.Positions

/-!
# Relay URLs

`parse_ws_url` of `ws_client.cpp`, which cuts a URL up by three searches.
-/

namespace LinuxLive.WsClient

/-- The result of `parse_ws_url` and what it leaves in its reference parameters. -/
structure ParsedUrl where
  accepted : Bool
  useTls : Bool
  host : Bytes
  port : Int
  path : Bytes
  deriving DecidableEq

/-- The part from the position behind the scheme on; an error is an exception of `stoi`. -/
def parseAuthority (url : Bytes) (pos : Nat) (useTls : Bool) (port : Int) :
    Except NumberError ParsedUrl :=
  let pathStart := findFrom (lit "/") url pos
  let colon := findFrom (lit ":") url pos
  let path :=
    match pathStart with
    | none => lit "/"
    | some pathStart => url.drop pathStart
  match colon.filter fun colon => decide (∀ p ∈ pathStart, colon < p) with
  | some colon =>
      let host := (url.drop pos).take (colon - pos)
      let portText :=
        match pathStart with
        | none => url.drop (colon + 1)
        | some pathStart => (url.drop (colon + 1)).take (pathStart - colon - 1)
      (stoi portText).map fun port => ⟨decide (host ≠ []), useTls, host, port, path⟩
  | none =>
      let host :=
        match pathStart with
        | none => url.drop pos
        | some pathStart => (url.drop pos).take (pathStart - pos)
      .ok ⟨decide (host ≠ []), useTls, host, port, path⟩

def parseWsUrl (url : Bytes) : Except NumberError ParsedUrl :=
  match findFrom (lit "://") url 0 with
  | none => parseAuthority url 0 false 80
  | some schemeEnd =>
      let scheme := url.take schemeEnd
      let pos := schemeEnd + 3
      if scheme = lit "wss" ∨ scheme = lit "https" then parseAuthority url pos true 443
      else if scheme ≠ lit "ws" ∧ scheme ≠ lit "http" then .ok ⟨false, false, [], 80, lit "/"⟩
      else parseAuthority url pos false 80

/-! ## Host, port and path -/

/-- What stands behind the scheme: a host, a text behind a colon, and a path. -/
structure Authority where
  host : Bytes
  portText : Option Bytes
  path : Bytes
  host_colon : 58 ∉ host
  host_slash : 47 ∉ host
  port_slash : ∀ t ∈ portText, 47 ∉ t
  path_eq : path = [] ∨ ∃ rest, path = 47 :: rest

namespace Authority

def front (a : Authority) : Bytes := a.host ++ a.portText.elim [] fun t => 58 :: t

def text (a : Authority) : Bytes := a.front ++ a.path

def target (a : Authority) : Bytes := if a.path = [] then lit "/" else a.path

def parsed (a : Authority) (useTls : Bool) (port : Int) : ParsedUrl :=
  ⟨decide (a.host ≠ []), useTls, a.host, port, a.target⟩

section searches

variable (a : Authority) (before : Bytes)

theorem front_slash : 47 ∉ a.front := by
  unfold front
  cases h : a.portText with
  | none => simpa using a.host_slash
  | some t => simpa using ⟨a.host_slash, a.port_slash t h⟩

theorem find_slash : findFrom (lit "/") (before ++ a.text) before.length =
    if a.path = [] then none else some (before.length + a.front.length) := by
  rcases a.path_eq with hpath | ⟨rest, hpath⟩
  · rw [text, hpath, List.append_nil, if_pos rfl]
    exact findFrom_char_none a.front_slash before
  · rw [text, hpath, if_neg (List.cons_ne_nil _ _)]
    exact findFrom_char_append a.front_slash before rest

theorem drop_front : (before ++ a.text).drop (before.length + a.front.length) = a.path := by
  rw [text, List.drop_length_add_append, List.drop_left]

/-- The part from some position up to the path. -/
theorem cut_front {i : Nat} (hi : i ≤ a.front.length) :
    (match (if a.path = [] then none else some (before.length + a.front.length)) with
      | none => (before ++ a.text).drop (before.length + i)
      | some pathStart => ((before ++ a.text).drop (before.length + i)).take
          (pathStart - (before.length + i))) = a.front.drop i := by
  have hdrop : (before ++ a.text).drop (before.length + i) = a.front.drop i ++ a.path := by
    rw [text, List.drop_length_add_append, List.drop_append_of_le_length hi]
  rw [hdrop]
  by_cases hpath : a.path = []
  · rw [if_pos hpath, hpath]
    exact List.append_nil _
  · have hlen : before.length + a.front.length - (before.length + i) = (a.front.drop i).length := by
      rw [List.length_drop]
      omega
    rw [if_neg hpath]
    dsimp only
    rw [hlen, List.take_left]

theorem find_colon_some {t : Bytes} (ht : a.portText = some t) :
    findFrom (lit ":") (before ++ a.text) before.length =
      some (before.length + a.host.length) := by
  have htext : a.text = a.host ++ 58 :: (t ++ a.path) := by
    simp [text, front, ht]
  rw [htext]
  exact findFrom_char_append a.host_colon before _

/-- A colon of the path is not in front of it. -/
theorem find_colon_none (ht : a.portText = none) {colon : Nat}
    (h : findFrom (lit ":") (before ++ a.text) before.length = some colon) :
    a.path ≠ [] ∧ before.length + a.front.length ≤ colon := by
  have hfront : a.front = a.host := by
    simp [front, ht]
  refine ⟨fun hpath => ?_, ?_⟩
  · rw [text, hfront, hpath, List.append_nil] at h
    have hnone : findFrom (lit ":") (before ++ a.host) before.length = none :=
      findFrom_char_none a.host_colon before
    rw [hnone] at h
    cases h
  · rw [text, hfront] at h
    rw [hfront]
    exact le_of_findFrom_char a.host_colon h

/-- The colon that counts is the one in front of the port. -/
theorem filter_colon : (findFrom (lit ":") (before ++ a.text) before.length).filter (fun colon =>
    decide (∀ p ∈ if a.path = [] then none else some (before.length + a.front.length),
      colon < p)) = a.portText.map fun _ => before.length + a.host.length := by
  cases ht : a.portText with
  | none =>
      rw [Option.map_none, Option.filter_eq_none_iff]
      intro colon hcolon
      obtain ⟨hpath, hle⟩ := a.find_colon_none before ht hcolon
      simp only [if_neg hpath, Option.mem_def, Option.some.injEq, forall_eq', decide_eq_true_eq]
      omega
  | some t =>
      have hlt : a.host.length + 1 ≤ a.front.length := by
        simp [front, ht]
      rw [a.find_colon_some before ht, Option.filter_some, Option.map_some, if_pos]
      rw [decide_eq_true_eq]
      intro p hp
      split at hp
      · cases hp
      · cases hp
        omega

theorem target_eq :
    (match (if a.path = [] then none else some (before.length + a.front.length)) with
      | none => lit "/"
      | some pathStart => (before ++ a.text).drop pathStart) = a.target := by
  unfold target
  by_cases hpath : a.path = []
  · rw [if_pos hpath, if_pos hpath]
  · rw [if_neg hpath, if_neg hpath]
    exact a.drop_front before

end searches

theorem parse (a : Authority) (before : Bytes) (useTls : Bool) (port : Int) :
    parseAuthority (before ++ a.text) before.length useTls port =
      match a.portText with
      | none => .ok (a.parsed useTls port)
      | some t => (stoi t).map (a.parsed useTls) := by
  unfold parseAuthority
  rw [find_slash]
  dsimp only
  rw [a.target_eq, a.filter_colon]
  cases ht : a.portText with
  | none =>
      have hhost := a.cut_front before (Nat.zero_le _)
      have hfront : a.front = a.host := by
        simp [front, ht]
      rw [Nat.add_zero, List.drop_zero, hfront] at hhost
      rw [Option.map_none, hfront]
      dsimp only
      rw [hhost]
      rfl
  | some t =>
      have hfront : a.front = a.host ++ 58 :: t := by
        simp [front, ht]
      have hlt : a.host.length + 1 ≤ a.front.length := by
        rw [hfront, List.length_append, List.length_cons]
        omega
      have hport := a.cut_front before hlt
      have hdropped : a.front.drop (a.host.length + 1) = t := by
        rw [hfront, List.drop_length_add_append]
        rfl
      have hhost : ((before ++ a.text).drop before.length).take
          (before.length + a.host.length - before.length) = a.host := by
        rw [List.drop_left, Nat.add_sub_cancel_left, text, hfront, List.append_assoc,
          List.take_left]
      rw [hdropped] at hport
      rw [Option.map_some]
      dsimp only
      simp only [Nat.sub_sub, Nat.add_assoc] at hport ⊢
      rw [hport, hhost]
      rfl

theorem exists_text (text : Bytes) : ∃ a : Authority, a.text = text := by
  have hsplit : ∃ front path, text = front ++ path ∧ 47 ∉ front ∧
      (path = [] ∨ ∃ rest, path = 47 :: rest) := by
    by_cases hslash : 47 ∈ text
    · obtain ⟨front, rest, htext, hfront⟩ := List.eq_append_cons_of_mem hslash
      exact ⟨front, _, htext, hfront, .inr ⟨rest, rfl⟩⟩
    · exact ⟨text, [], (List.append_nil text).symm, hslash, .inl rfl⟩
  obtain ⟨front, path, rfl, hfront, hpath⟩ := hsplit
  by_cases hcolon : 58 ∈ front
  · obtain ⟨host, t, rfl, hhost⟩ := List.eq_append_cons_of_mem hcolon
    rw [List.mem_append, List.mem_cons, not_or, not_or] at hfront
    exact ⟨⟨host, some t, path, hhost, hfront.1, fun _ h => Option.some.inj h ▸ hfront.2.2, hpath⟩,
      rfl⟩
  · refine ⟨⟨front, none, path, hcolon, hfront, nofun, hpath⟩, ?_⟩
    simp [text, Authority.front]

end Authority

/-! ## Schemes -/

inductive Scheme where
  | ws
  | wss
  | http
  | https
  deriving DecidableEq

namespace Scheme

def text : Scheme → Bytes
  | ws => lit "ws"
  | wss => lit "wss"
  | http => lit "http"
  | https => lit "https"

def tls : Scheme → Bool
  | ws | http => false
  | wss | https => true

end Scheme

def defaultPort (useTls : Bool) : Int := if useTls then 443 else 80

/-- TLS and what stands behind the scheme; `none` is a scheme that is not known. -/
def behindScheme (url : Bytes) : Option (Bool × Bytes) :=
  match findFrom (lit "://") url 0 with
  | none => some (false, url)
  | some schemeEnd =>
      let rest := url.drop (schemeEnd + 3)
      if url.take schemeEnd ∈ [lit "wss", lit "https"] then some (true, rest)
      else if url.take schemeEnd ∈ [lit "ws", lit "http"] then some (false, rest)
      else none

def Authority.read (a : Authority) (useTls : Bool) : Except NumberError ParsedUrl :=
  match a.portText with
  | none => .ok (a.parsed useTls (defaultPort useTls))
  | some t => (stoi t).map (a.parsed useTls)

theorem Authority.read_of_stoi {a : Authority} {t : Bytes} {port : Int} (ht : a.portText = some t)
    (hport : stoi t = .ok port) (useTls : Bool) : a.read useTls = .ok (a.parsed useTls port) := by
  unfold Authority.read
  rw [ht]
  dsimp only
  rw [hport]
  rfl

/-- What was read is host and path as they stand there, and the number of the port. -/
theorem Authority.exists_port {a : Authority} {useTls : Bool} {r : ParsedUrl}
    (h : a.read useTls = .ok r) :
    ∃ port, r = a.parsed useTls port ∧ ∀ t ∈ a.portText, stoi t = .ok port := by
  unfold Authority.read at h
  cases hport : a.portText with
  | none =>
      rw [hport] at h
      exact ⟨_, (Except.ok.inj h).symm, nofun⟩
  | some t =>
      rw [hport] at h
      dsimp only at h
      cases hstoi : stoi t with
      | error e => simp [hstoi, Except.map] at h
      | ok port =>
          rw [hstoi] at h
          refine ⟨port, (Except.ok.inj h).symm, fun t' ht' => ?_⟩
          rw [← Option.some.inj ht', hstoi]

section scheme

variable {url : Bytes} {useTls : Bool} {a : Authority}

theorem parseWsUrl_of_unknown (h : behindScheme url = none) :
    parseWsUrl url = .ok ⟨false, false, [], 80, lit "/"⟩ := by
  unfold behindScheme at h
  unfold parseWsUrl
  split at h
  · cases h
  · simp only [List.mem_cons, List.not_mem_nil, or_false] at h
    dsimp only
    split at h
    · cases h
    · rename_i hsecure
      split at h
      · cases h
      · rename_i hplain
        rw [if_neg hsecure, if_pos (not_or.mp hplain)]

theorem parseWsUrl_of_behind (h : behindScheme url = some (useTls, a.text)) :
    parseWsUrl url = a.read useTls := by
  have hparse : ∀ before port, defaultPort useTls = port → before ++ a.text = url →
      parseAuthority url before.length useTls port = a.read useTls := by
    intro before port hport hurl
    rw [← hurl, a.parse, ← hport]
    rfl
  unfold behindScheme at h
  unfold parseWsUrl
  split at h
  · obtain ⟨rfl, htext⟩ := Prod.mk.inj (Option.some.inj h)
    exact hparse [] 80 rfl htext.symm
  · rename_i schemeEnd hfind
    have hfound := findFrom_eq_some_iff.mp hfind
    have hlength : schemeEnd + 3 ≤ url.length := by
      have hle := hfound.2.2.1.length_le
      rw [List.length_drop] at hle
      have hpattern : (lit "://").length = 3 := by decide
      omega
    have htake : (url.take (schemeEnd + 3)).length = schemeEnd + 3 := by
      rw [List.length_take]
      omega
    have hrest : ∀ port, defaultPort useTls = port → url.drop (schemeEnd + 3) = a.text →
        parseAuthority url (schemeEnd + 3) useTls port = a.read useTls := by
      intro port hport hdrop
      have hurl : url.take (schemeEnd + 3) ++ a.text = url := by
        rw [← hdrop, List.take_append_drop]
      have hread := hparse (url.take (schemeEnd + 3)) port hport hurl
      rwa [htake] at hread
    simp only [List.mem_cons, List.not_mem_nil, or_false] at h
    dsimp only
    split at h
    · rename_i hsecure
      obtain ⟨rfl, htext⟩ := Prod.mk.inj (Option.some.inj h)
      rw [if_pos hsecure]
      exact hrest 443 rfl htext
    · rename_i hsecure
      split at h
      · rename_i hplain
        obtain ⟨rfl, htext⟩ := Prod.mk.inj (Option.some.inj h)
        have hknown : ¬ (url.take schemeEnd ≠ lit "ws" ∧ url.take schemeEnd ≠ lit "http") :=
          fun hne => hplain.elim hne.1 hne.2
        rw [if_neg hsecure, if_neg hknown]
        exact hrest 80 rfl htext
      · cases h

theorem behindScheme_scheme (s : Scheme) (rest : Bytes) :
    behindScheme (s.text ++ (lit "://" ++ rest)) = some (s.tls, rest) := by
  have hcolon : 58 ∉ s.text := by
    cases s <;> decide
  have hfind : findFrom (lit "://") (s.text ++ (lit "://" ++ rest)) 0 = some s.text.length :=
    findFrom_of_first fun j hj => not_prefix_drop hcolon hj _
  have hdrop : (s.text ++ (lit "://" ++ rest)).drop (s.text.length + 3) = rest := by
    rw [List.drop_length_add_append]
    rfl
  unfold behindScheme
  rw [hfind]
  dsimp only
  rw [hdrop, List.take_left]
  cases s with
  | ws => exact if_neg (by decide) |>.trans (if_pos (by decide))
  | wss => exact if_pos (by decide)
  | http => exact if_neg (by decide) |>.trans (if_pos (by decide))
  | https => exact if_pos (by decide)

theorem behindScheme_of_none (h : ¬ lit "://" <:+: url) :
    behindScheme url = some (false, url) := by
  have hnone : findFrom (lit "://") url 0 = none := by
    rw [findFrom_eq_none_iff]
    intro i _ _ hat
    exact h (hat.isInfix.trans (List.drop_suffix i url).isInfix)
  rw [behindScheme, hnone]

end scheme

/-! ## Assembled URLs -/

/-- The parts of a URL; without a scheme it is one of `ws`. -/
structure RelayUrl where
  scheme : Option Scheme
  host : Bytes
  port : Option Bytes
  path : Bytes
  host_ne : host ≠ []
  host_colon : 58 ∉ host
  host_slash : 47 ∉ host
  /-- The digits of a number from 1 to 65535. -/
  port_digits : ∀ t ∈ port, t ≠ [] ∧ (∀ b ∈ t, isDigit b = true) ∧ 1 ≤ decimalVal t ∧
    decimalVal t ≤ 65535
  path_eq : path = [] ∨ ∃ rest, path = 47 :: rest

namespace RelayUrl

def authority (u : RelayUrl) : Authority where
  host := u.host
  portText := u.port
  path := u.path
  host_colon := u.host_colon
  host_slash := u.host_slash
  port_slash t ht hslash := absurd ((u.port_digits t ht).2.1 47 hslash) (by decide)
  path_eq := u.path_eq

def text (u : RelayUrl) : Bytes :=
  match u.scheme with
  | none => u.authority.text
  | some s => s.text ++ (lit "://" ++ u.authority.text)

def tls (u : RelayUrl) : Bool := u.scheme.elim false Scheme.tls

def expected (u : RelayUrl) : ParsedUrl where
  accepted := true
  useTls := u.tls
  host := u.host
  port := u.port.elim (defaultPort u.tls) fun t => decimalVal t
  path := if u.path = [] then lit "/" else u.path

theorem read_authority (u : RelayUrl) : u.authority.read u.tls = .ok u.expected := by
  have haccepted : decide (u.host ≠ []) = true := decide_eq_true u.host_ne
  unfold Authority.read
  cases hport : u.port with
  | none =>
      have htext : u.authority.portText = none := hport
      rw [htext]
      simp only [Authority.parsed, expected, hport, Option.elim_none]
      rw [show u.authority.host = u.host from rfl, haccepted]
      rfl
  | some t =>
      have htext : u.authority.portText = some t := hport
      obtain ⟨hne, hdigits, _, hle⟩ := u.port_digits t hport
      have hstoi : stoi t = .ok (decimalVal t : Int) := by
        rw [NumberText.stoi_eq_ok_iff]
        exact ⟨.ofDigits t hne hdigits, List.append_nil t, rfl, by omega, by omega⟩
      have hread := Authority.read_of_stoi htext hstoi u.tls
      unfold Authority.read at hread
      rw [hread]
      simp only [Authority.parsed, expected, hport, Option.elim_some]
      rw [show u.authority.host = u.host from rfl, haccepted]
      rfl

end RelayUrl

/-- The parts of every URL are found again. -/
theorem parseWsUrl_text (u : RelayUrl) (h : u.scheme = none → ¬ lit "://" <:+: u.text) :
    parseWsUrl u.text = .ok u.expected := by
  have hbehind : behindScheme u.text = some (u.tls, u.authority.text) := by
    unfold RelayUrl.text RelayUrl.tls at *
    cases hscheme : u.scheme with
    | none =>
        rw [hscheme] at h
        exact behindScheme_of_none (h rfl)
    | some s => exact behindScheme_scheme s _
  rw [parseWsUrl_of_behind hbehind, u.read_authority]

def localRelay : RelayUrl where
  scheme := none
  host := lit "localhost"
  port := some (lit "8080")
  path := lit "/a:b//c"
  host_ne := by decide
  host_colon := by decide
  host_slash := by decide
  port_digits t ht := by
    cases ht
    decide +kernel
  path_eq := .inr ⟨_, rfl⟩

theorem parseWsUrl_localRelay :
    parseWsUrl localRelay.text = .ok localRelay.expected :=
  parseWsUrl_text localRelay fun _ => by decide

end LinuxLive.WsClient
