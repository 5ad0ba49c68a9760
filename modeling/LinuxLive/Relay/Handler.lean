import LinuxLive.Lib.JsonText
import LinuxLive.Protocol.Wire
import LinuxLive.Relay.Server

/-!
# `RelayServer::handle_client_message`

The handler of one text frame.  Its result keeps what was done before an exception: the
server, the frames handed to `send_ws_text` in their order, and the exception
that leaves the handler, if one does.
-/

namespace LinuxLive.Relay

open Json

structure Handled where
  server : RelayServer
  /-- Session and text of each frame, in the order of sending. -/
  sent : List (Nat × Bytes)
  thrown : Option JsonError

/-! ## EVENT -/

def eventHead (event : Json) : Except JsonError (Bytes × UInt16) := do
  let pubkey ← event.value getString (lit "pubkey") []
  let kind ← event.value getInt (lit "kind") 0
  return (pubkey, UInt16.ofInt kind)

/-- The rest of the event, read after the rate limit was checked. -/
def readStoredEvent (event : Json) (pubkey : Bytes) (kind : UInt16) (size : Nat) :
    Except JsonError StoredEvent := do
  let id ← event.value getString (lit "id") []
  let content ← event.value getString (lit "content") []
  let createdAt ← event.value getInt (lit "created_at") 0
  let sig ← event.value getString (lit "sig") []
  let tags ← readTags event
  return {
    id := id
    pubkey := pubkey
    kind := kind
    content := content
    tags := tags
    createdAt := UInt64.ofInt createdAt
    sig := sig
    sizeBytes := size }

/-- `send_ws_text`: only on an open WebSocket. -/
def sendWsText (session : ClientSession) (message : Bytes) : List (Nat × Bytes) :=
  if session.wsHandshakeDone && session.running then [(session.fd, message)] else []

/-- The loop over `sessions_` that forwards the raw message. -/
def forward (s : RelayServer) (session : ClientSession) (rawMsg : Bytes) : List (Nat × Bytes) :=
  s.sessions.flatMap fun t =>
    if t.fd != session.fd && t.wsHandshakeDone && t.running then sendWsText t rawMsg else []

def okMessage (id : Bytes) : Json := .arr [.str (lit "OK"), .str id, .bool true]

/-- `if (can_store_event(se)) { store_event(se); record_event(pubkey); }` -/
def RelayServer.storeIfRoom (s : RelayServer) (se : StoredEvent) (recordedAt : UInt64) : RelayServer :=
  if s.canStoreEvent se then (s.storeEvent se).recordEvent se.pubkey recordedAt else s

/-- The two clock readings are those of `check_rate_limit` and of `record_event`. -/
def handleEvent (lib : JsonText) (s : RelayServer) (session : ClientSession) (event : Json)
    (rawMsg : Bytes) (checkedAt recordedAt : UInt64) : Handled :=
  match eventHead event with
  | .error e => ⟨s, [], some e⟩
  | .ok (pubkey, kind) =>
      if s.isPubkeyBanned pubkey then ⟨s, [], none⟩
      else if !s.isEventAllowed kind then ⟨s, [], none⟩
      else
        let checked := s.checkRateLimit pubkey checkedAt
        if !checked.1 then ⟨checked.2, [], none⟩
        else
          match readStoredEvent event pubkey kind rawMsg.length with
          | .error e => ⟨checked.2, [], some e⟩
          | .ok se =>
              let stored := checked.2.storeIfRoom se recordedAt
              match lib.dump none (okMessage se.id) with
              | none => ⟨stored, [], some .invalidUtf8316⟩
              | some ok => ⟨stored, sendWsText session ok ++ forward stored session rawMsg, none⟩

/-! ## REQ -/

/-- A loop over a filter list that stops at the first match. -/
def anyItem {α : Type} (get : Json → Except JsonError α) (p : α → Bool) :
    List Json → Except JsonError Bool
  | [] => .ok false
  | x :: xs =>
      match get x with
      | .error e => .error e
      | .ok a => if p a then .ok true else anyItem get p xs

/-- One `if (filter.contains(key))` block; without the key there is no constraint. -/
def criterion {α : Type} (get : Json → Except JsonError α) (p : α → Bool) (key : Bytes)
    (filter : Json) : Except JsonError Bool :=
  match filter.field? key with
  | none => .ok true
  | some list => anyItem get p list.items

def kindsMatch (filter : Json) (e : StoredEvent) : Except JsonError Bool :=
  criterion getInt (fun k => decide (k = (e.kind.toNat : Int))) (lit "kinds") filter

def authorsMatch (filter : Json) (e : StoredEvent) : Except JsonError Bool :=
  criterion getString (fun a => decide (a = e.pubkey)) (lit "authors") filter

def idsMatch (filter : Json) (e : StoredEvent) : Except JsonError Bool :=
  criterion getString (fun i => decide (i = e.id)) (lit "ids") filter

/-- A list is looked at only while the event still matches. -/
def matchesFilter (filter : Json) (e : StoredEvent) : Except JsonError Bool := do
  if !(← kindsMatch filter e) then return false
  if !(← authorsMatch filter e) then return false
  idsMatch filter e

def eventJson (e : StoredEvent) : Json :=
  object [
    (lit "id", .str e.id),
    (lit "pubkey", .str e.pubkey),
    (lit "kind", .int e.kind.toNat),
    (lit "content", .str e.content),
    (lit "created_at", .int e.createdAt.toNat),
    (lit "sig", .str e.sig),
    (lit "tags", tagsJson e.tags)]

def eventMessage (subId : Bytes) (e : StoredEvent) : Json :=
  .arr [.str (lit "EVENT"), .str subId, eventJson e]

def StoredEvent.utf8 (e : StoredEvent) : Bool :=
  LinuxLive.utf8 e.id && LinuxLive.utf8 e.pubkey && LinuxLive.utf8 e.content &&
    LinuxLive.utf8 e.sig && utf8Tags e.tags

def eoseMessage (subId : Bytes) : Json := .arr [.str (lit "EOSE"), .str subId]

/-- The loop over the store: the frames sent and the exception that ends it. -/
def reqLoop (lib : JsonText) (session : ClientSession) (subId : Bytes) (filter : Json) :
    List StoredEvent → List (Nat × Bytes) × Option JsonError
  | [] => ([], none)
  | e :: es =>
      match matchesFilter filter e with
      | .error err => ([], some err)
      | .ok false => reqLoop lib session subId filter es
      | .ok true =>
          match lib.dump none (eventMessage subId e) with
          | none => ([], some .invalidUtf8316)
          | some text =>
              let rest := reqLoop lib session subId filter es
              (sendWsText session text ++ rest.1, rest.2)

def handleReq (lib : JsonText) (s : RelayServer) (session : ClientSession) (sub : Json)
    (filter : Option Json) : Handled :=
  match sub.getString with
  | .error e => ⟨s, [], some e⟩
  | .ok subId =>
      match reqLoop lib session subId (filter.getD (.obj [])) s.events with
      | (sent, some e) => ⟨s, sent, some e⟩
      | (sent, none) =>
          match lib.dump none (eoseMessage subId) with
          | none => ⟨s, sent, some .invalidUtf8316⟩
          | some text => ⟨s, sent ++ sendWsText session text, none⟩

/-! ## Dispatch -/

def handleClientMessage (lib : JsonText) (s : RelayServer) (session : ClientSession)
    (rawMsg : Bytes) (checkedAt recordedAt : UInt64) : Handled :=
  match lib.parse rawMsg with
  | some (.arr (type :: body :: rest)) =>
      match type.getString with
      | .error e => ⟨s, [], some e⟩
      | .ok type =>
          if type = lit "EVENT" then
            handleEvent lib s session body rawMsg checkedAt recordedAt
          else if type = lit "REQ" then handleReq lib s session body rest.head?
          else ⟨s, [], none⟩
  | _ => ⟨s, [], none⟩

section messages

variable {lib : JsonText} {s : RelayServer} {session : ClientSession} {raw : Bytes}
  {checkedAt recordedAt : UInt64} {body : Json} {rest : List Json}

theorem handleClientMessage_event
    (h : lib.parse raw = some (.arr (.str (lit "EVENT") :: body :: rest))) :
    handleClientMessage lib s session raw checkedAt recordedAt =
      handleEvent lib s session body raw checkedAt recordedAt := by
  simp [handleClientMessage, h, getString]

theorem handleClientMessage_req
    (h : lib.parse raw = some (.arr (.str (lit "REQ") :: body :: rest))) :
    handleClientMessage lib s session raw checkedAt recordedAt =
      handleReq lib s session body rest.head? := by
  simp [handleClientMessage, h, getString]

end messages

/-! ## Frames that can be written -/

theorem utf8_okMessage (id : Bytes) : (okMessage id).utf8 = utf8 id := by
  rw [Bool.eq_iff_iff]
  simp [okMessage, utf8_arr]

theorem utf8_eoseMessage (subId : Bytes) : (eoseMessage subId).utf8 = utf8 subId := by
  rw [Bool.eq_iff_iff]
  simp [eoseMessage, utf8_arr]

theorem eventJson_fields (e : StoredEvent) :
    (eventJson e).field? (lit "id") = some (.str e.id) ∧
      (eventJson e).field? (lit "pubkey") = some (.str e.pubkey) ∧
      (eventJson e).field? (lit "kind") = some (.int e.kind.toNat) ∧
      (eventJson e).field? (lit "content") = some (.str e.content) ∧
      (eventJson e).field? (lit "created_at") = some (.int e.createdAt.toNat) ∧
      (eventJson e).field? (lit "sig") = some (.str e.sig) ∧
      (eventJson e).field? (lit "tags") = some (tagsJson e.tags) :=
  ⟨rfl, rfl, rfl, rfl, rfl, rfl, rfl⟩

theorem eventJson_eq (e : StoredEvent) : eventJson e = .obj [
    (lit "content", .str e.content),
    (lit "created_at", .int e.createdAt.toNat),
    (lit "id", .str e.id),
    (lit "kind", .int e.kind.toNat),
    (lit "pubkey", .str e.pubkey),
    (lit "sig", .str e.sig),
    (lit "tags", tagsJson e.tags)] := rfl

theorem utf8_eventJson (e : StoredEvent) : (eventJson e).utf8 = e.utf8 := by
  rw [Bool.eq_iff_iff, eventJson_eq, utf8_obj]
  simp only [List.forall_mem_cons, utf8_lit, utf8_str, utf8_int, utf8_tagsJson, StoredEvent.utf8,
    Bool.and_eq_true]
  constructor
  · intro h
    obtain ⟨⟨_, hcontent⟩, _, ⟨_, hid⟩, _, ⟨_, hpubkey⟩, ⟨_, hsig⟩, ⟨_, htags⟩, _⟩ := h
    exact ⟨⟨⟨⟨hid, hpubkey⟩, hcontent⟩, hsig⟩, htags⟩
  · intro h
    obtain ⟨⟨⟨⟨hid, hpubkey⟩, hcontent⟩, hsig⟩, htags⟩ := h
    simp [hid, hpubkey, hcontent, hsig, htags]

theorem utf8_eventMessage {subId : Bytes} {e : StoredEvent} (h : utf8 subId = true) :
    (eventMessage subId e).utf8 = e.utf8 := by
  rw [Bool.eq_iff_iff]
  simp [eventMessage, utf8_arr, h, utf8_eventJson]

/-! ## What an EVENT message does -/

/-- The checks in front of the store. -/
structure Passes (s : RelayServer) (pubkey : Bytes) (kind : UInt16) (checkedAt : UInt64) : Prop where
  notBanned : s.isPubkeyBanned pubkey = false
  allowed : s.isEventAllowed kind = true
  underLimit : (s.checkRateLimit pubkey checkedAt).1 = true

instance (s : RelayServer) (pubkey : Bytes) (kind : UInt16) (checkedAt : UInt64) :
    Decidable (Passes s pubkey kind checkedAt) :=
  decidable_of_iff
    (s.isPubkeyBanned pubkey = false ∧ s.isEventAllowed kind = true ∧
      (s.checkRateLimit pubkey checkedAt).1 = true)
    ⟨fun ⟨hb, ha, hr⟩ => ⟨hb, ha, hr⟩, fun ⟨hb, ha, hr⟩ => ⟨hb, ha, hr⟩⟩

section event

variable (lib : JsonText) {s : RelayServer} {session : ClientSession} {event : Json} {raw : Bytes}
  {checkedAt recordedAt : UInt64} {pubkey : Bytes} {kind : UInt16}

theorem handleEvent_of_head_error {e : JsonError} (h : eventHead event = .error e) :
    handleEvent lib s session event raw checkedAt recordedAt = ⟨s, [], some e⟩ := by
  simp [handleEvent, h]

theorem handleEvent_of_not_passes (recordedAt : UInt64) (h : eventHead event = .ok (pubkey, kind))
    (hp : ¬ Passes s pubkey kind checkedAt) :
    handleEvent lib s session event raw checkedAt recordedAt = ⟨s, [], none⟩ ∨
      handleEvent lib s session event raw checkedAt recordedAt =
        ⟨(s.checkRateLimit pubkey checkedAt).2, [], none⟩ := by
  simp only [handleEvent, h]
  split
  · exact .inl rfl
  · split
    · exact .inl rfl
    · split
      · exact .inr rfl
      · rename_i hb ha hr
        exact absurd ⟨by simpa using hb, by simpa using ha, by simpa using hr⟩ hp

theorem handleEvent_of_passes (h : eventHead event = .ok (pubkey, kind))
    (hp : Passes s pubkey kind checkedAt) :
    handleEvent lib s session event raw checkedAt recordedAt =
      match readStoredEvent event pubkey kind raw.length with
      | .error e => ⟨(s.checkRateLimit pubkey checkedAt).2, [], some e⟩
      | .ok se =>
          match lib.dump none (okMessage se.id) with
          | none =>
              ⟨(s.checkRateLimit pubkey checkedAt).2.storeIfRoom se recordedAt, [], some .invalidUtf8316⟩
          | some ok =>
              ⟨(s.checkRateLimit pubkey checkedAt).2.storeIfRoom se recordedAt,
                sendWsText session ok ++
                  forward ((s.checkRateLimit pubkey checkedAt).2.storeIfRoom se recordedAt) session raw,
                none⟩ := by
  simp only [handleEvent, h, hp.notBanned, hp.allowed, hp.underLimit, Bool.not_true,
    Bool.false_eq_true, if_false]

theorem readStoredEvent_spec {se : StoredEvent} {size : Nat}
    (h : readStoredEvent event pubkey kind size = .ok se) :
    event.value getString (lit "id") [] = .ok se.id ∧
      event.value getString (lit "content") [] = .ok se.content ∧
      (∃ n, event.value getInt (lit "created_at") 0 = .ok n ∧ se.createdAt = UInt64.ofInt n) ∧
      event.value getString (lit "sig") [] = .ok se.sig ∧ readTags event = .ok se.tags ∧
      se.pubkey = pubkey ∧ se.kind = kind ∧ se.sizeBytes = size := by
  unfold readStoredEvent at h
  cases hid : event.value getString (lit "id") [] with
  | error e => simp [hid, bind, Except.bind] at h
  | ok id =>
    cases hcontent : event.value getString (lit "content") [] with
    | error e => simp [hid, hcontent, bind, Except.bind] at h
    | ok content =>
      cases hcreated : event.value getInt (lit "created_at") 0 with
      | error e => simp [hid, hcontent, hcreated, bind, Except.bind] at h
      | ok n =>
        cases hsig : event.value getString (lit "sig") [] with
        | error e => simp [hid, hcontent, hcreated, hsig, bind, Except.bind] at h
        | ok sig =>
          cases htags : readTags event with
          | error e => simp [hid, hcontent, hcreated, hsig, htags, bind, Except.bind] at h
          | ok tags =>
            simp only [hid, hcontent, hcreated, hsig, htags, bind, Except.bind, pure, Except.pure,
              Except.ok.injEq] at h
            subst h
            exact ⟨rfl, rfl, ⟨n, rfl, rfl⟩, rfl, rfl, rfl, rfl, rfl⟩

end event

end LinuxLive.Relay
