import LinuxLive.Lib.JsonCodec
import LinuxLive.Lib.Runs
import LinuxLive.Relay.Handler

/-!
# Serial runs of the relay

Messages and administrative operations as the steps of a transition system, what
one step can do to the server, and what holds in every state reached from the empty
store: the quotas, the kind gate, and well-formed text in every stored event.
-/

namespace LinuxLive.Relay

open Json

inductive Op where
  | message (session : ClientSession) (rawMsg : Bytes) (checkedAt recordedAt : UInt64)
  | pruneOldEvents (now : UInt64)
  | deleteEventsByPubkey (pubkey : Bytes)
  | deleteEventById (eventId : Bytes)
  | banPubkey (pubkey : Bytes)
  | allowEventKind (kind : UInt16)
  /-- Clients connect, finish their handshake and leave. -/
  | connections (sessions : List ClientSession) (nodup : (sessions.map ClientSession.fd).Nodup)

/-- One operation; a message is a step only if its handler returns. -/
def Step (lib : JsonText) (s : RelayServer) (op : Op) (s' : RelayServer) : Prop :=
  match op with
  | .message session rawMsg checkedAt recordedAt =>
      (handleClientMessage lib s session rawMsg checkedAt recordedAt).thrown = none ∧
        (handleClientMessage lib s session rawMsg checkedAt recordedAt).server = s'
  | .pruneOldEvents now => s.pruneOldEvents now = s'
  | .deleteEventsByPubkey pubkey => s.deleteEventsByPubkey pubkey = s'
  | .deleteEventById eventId => s.deleteEventById eventId = s'
  | .banPubkey pubkey => s.banPubkey pubkey = s'
  | .allowEventKind kind => s.allowEventKind kind = s'
  | .connections sessions nodup => { s with sessions := sessions, sessions_nodup := nodup } = s'

/-! ## One message -/

/-- `se` is the event that the handler reads from an EVENT message. -/
def ReadsAs (lib : JsonText) (rawMsg : Bytes) (se : StoredEvent) : Prop :=
  ∃ event rest, lib.parse rawMsg = some (.arr (.str (lit "EVENT") :: event :: rest)) ∧
    eventHead event = .ok (se.pubkey, se.kind) ∧
    readStoredEvent event se.pubkey se.kind rawMsg.length = .ok se

def IsEvent (lib : JsonText) (rawMsg : Bytes) : Prop :=
  ∃ event rest, lib.parse rawMsg = some (.arr (.str (lit "EVENT") :: event :: rest))

theorem ReadsAs.isEvent {lib : JsonText} {rawMsg : Bytes} {se : StoredEvent}
    (h : ReadsAs lib rawMsg se) : IsEvent lib rawMsg := by
  obtain ⟨event, rest, hparse, _⟩ := h
  exact ⟨event, rest, hparse⟩

@[simp] theorem handleReq_server (lib : JsonText) (s : RelayServer) (session : ClientSession)
    (sub : Json) (filter : Option Json) : (handleReq lib s session sub filter).server = s := by
  unfold handleReq
  split
  · rfl
  · split
    · rfl
    · split <;> rfl

section message

variable (lib : JsonText) (s : RelayServer) (session : ClientSession) (raw : Bytes)
  (checkedAt recordedAt : UInt64)

theorem handleEvent_server (event : Json) :
    (handleEvent lib s session event raw checkedAt recordedAt).server = s ∨
    (∃ pubkey, (handleEvent lib s session event raw checkedAt recordedAt).server =
      (s.checkRateLimit pubkey checkedAt).2) ∨
    ∃ se, eventHead event = .ok (se.pubkey, se.kind) ∧
      readStoredEvent event se.pubkey se.kind raw.length = .ok se ∧
      Passes s se.pubkey se.kind checkedAt ∧
      (handleEvent lib s session event raw checkedAt recordedAt).server =
        (s.checkRateLimit se.pubkey checkedAt).2.storeIfRoom se recordedAt := by
  cases hh : eventHead event with
  | error e =>
      rw [handleEvent_of_head_error lib hh]
      exact .inl rfl
  | ok head =>
      obtain ⟨pubkey, kind⟩ := head
      by_cases hp : Passes s pubkey kind checkedAt
      · rw [handleEvent_of_passes lib hh hp]
        cases hr : readStoredEvent event pubkey kind raw.length with
        | error e => exact .inr (.inl ⟨pubkey, rfl⟩)
        | ok se =>
            obtain ⟨_, _, _, _, _, rfl, rfl, _⟩ := readStoredEvent_spec hr
            refine .inr (.inr ⟨se, rfl, hr, hp, ?_⟩)
            dsimp only
            cases lib.dump none (okMessage se.id) <;> rfl
      · rcases handleEvent_of_not_passes lib recordedAt hh hp with h | h
        · exact .inl (congrArg Handled.server h)
        · exact .inr (.inl ⟨pubkey, congrArg Handled.server h⟩)

theorem handleClientMessage_server_of_not_event (h : ¬ IsEvent lib raw) :
    (handleClientMessage lib s session raw checkedAt recordedAt).server = s := by
  unfold handleClientMessage
  split
  · rename_i type body rest hparse
    split
    · rfl
    · rename_i name hname
      split
      · rename_i hevent
        rw [getString_ok_iff.mp hname, hevent] at hparse
        exact absurd ⟨body, rest, hparse⟩ h
      · split
        · exact handleReq_server ..
        · rfl
  · rfl

theorem handleClientMessage_server :
    (handleClientMessage lib s session raw checkedAt recordedAt).server = s ∨
    (∃ pubkey, (handleClientMessage lib s session raw checkedAt recordedAt).server =
      (s.checkRateLimit pubkey checkedAt).2) ∨
    ∃ se, ReadsAs lib raw se ∧ Passes s se.pubkey se.kind checkedAt ∧
      (handleClientMessage lib s session raw checkedAt recordedAt).server =
        (s.checkRateLimit se.pubkey checkedAt).2.storeIfRoom se recordedAt := by
  by_cases hevent : IsEvent lib raw
  · obtain ⟨event, rest, hparse⟩ := hevent
    rw [handleClientMessage_event hparse]
    rcases handleEvent_server lib s session raw checkedAt recordedAt event with h | h | h
    · exact .inl h
    · exact .inr (.inl h)
    · obtain ⟨se, hhead, hread, hpass, hserver⟩ := h
      exact .inr (.inr ⟨se, ⟨event, rest, hparse, hhead, hread⟩, hpass, hserver⟩)
  · exact .inl (handleClientMessage_server_of_not_event lib s session raw checkedAt recordedAt hevent)

end message

theorem storeIfRoom_events (s : RelayServer) (se : StoredEvent) (now : UInt64) :
    (s.storeIfRoom se now).events = if s.canStoreEvent se then s.events ++ [se] else s.events := by
  unfold RelayServer.storeIfRoom
  split
  · rename_i h
    simpa using RelayServer.storeEvent_events h
  · rfl

@[simp] theorem storeIfRoom_config (s : RelayServer) (se : StoredEvent) (now : UInt64) :
    (s.storeIfRoom se now).config = s.config := by
  unfold RelayServer.storeIfRoom
  split <;> rfl

@[simp] theorem storeIfRoom_sessions (s : RelayServer) (se : StoredEvent) (now : UInt64) :
    (s.storeIfRoom se now).sessions = s.sessions := by
  unfold RelayServer.storeIfRoom
  split <;> rfl

/-- What a step does to the store: it appends the event of a message that passed every
check, or it leaves a subsequence. -/
theorem step_events {lib : JsonText} {s s' : RelayServer} {op : Op} (h : Step lib s op s') :
    (∃ session raw checkedAt recordedAt se, op = .message session raw checkedAt recordedAt ∧
      ReadsAs lib raw se ∧ Passes s se.pubkey se.kind checkedAt ∧ s.canStoreEvent se = true ∧
      s'.config = s.config ∧ s'.events = s.events ++ [se]) ∨
    (s'.events.Sublist s.events ∧
      ∀ session raw checkedAt recordedAt, op = .message session raw checkedAt recordedAt →
        s'.events = s.events ∧ s'.config = s.config) := by
  cases op with
  | message session raw checkedAt recordedAt =>
      obtain ⟨_, rfl⟩ := h
      rcases handleClientMessage_server lib s session raw checkedAt recordedAt with h | h | h
      · exact .inr (by simp [h])
      · obtain ⟨pubkey, h⟩ := h
        exact .inr (by simp [h])
      · obtain ⟨se, hread, hpass, h⟩ := h
        by_cases hroom : s.canStoreEvent se = true
        · refine .inl ⟨session, raw, checkedAt, recordedAt, se, rfl, hread, hpass, hroom, ?_, ?_⟩
          · simp [h]
          · simp [h, storeIfRoom_events, hroom]
        · exact .inr (by simp [h, storeIfRoom_events, hroom])
  | pruneOldEvents now =>
      cases h
      exact .inr ⟨List.filter_sublist, by simp⟩
  | deleteEventsByPubkey pubkey =>
      cases h
      exact .inr ⟨List.filter_sublist, by simp⟩
  | deleteEventById eventId =>
      cases h
      exact .inr ⟨List.filter_sublist, by simp⟩
  | banPubkey pubkey =>
      cases h
      exact .inr ⟨List.Sublist.refl _, by simp⟩
  | allowEventKind kind =>
      cases h
      exact .inr ⟨List.Sublist.refl _, by simp⟩
  | connections sessions nodup =>
      cases h
      exact .inr ⟨List.Sublist.refl _, by simp⟩

theorem step_config {lib : JsonText} {s s' : RelayServer} {op : Op} (h : Step lib s op s') :
    s.config.allowedKinds ⊆ s'.config.allowedKinds ∧
      s'.config.maxTotalEvents = s.config.maxTotalEvents ∧
      s'.config.maxEventsPerKind = s.config.maxEventsPerKind ∧
      s'.config.maxEventsPerPubkey = s.config.maxEventsPerPubkey ∧
      s'.config.maxEventSizeBytes = s.config.maxEventSizeBytes := by
  cases op with
  | message session raw checkedAt recordedAt =>
      have hc : s'.config = s.config := by
        rcases step_events h with ⟨_, _, _, _, _, _, _, _, _, hc, _⟩ | ⟨_, hm⟩
        · exact hc
        · exact (hm session raw checkedAt recordedAt rfl).2
      simp [hc]
  | allowEventKind kind =>
      cases h
      exact ⟨Finset.subset_insert _ _, rfl, rfl, rfl, rfl⟩
  | _ =>
      cases h
      exact ⟨Finset.Subset.refl _, rfl, rfl, rfl, rfl⟩

/-! ## Quotas -/

/-- The store keeps within the limits of the configuration it was created with. -/
structure Bounded (config : RelayConfig) (s : RelayServer) : Prop where
  total : s.events.length ≤ config.maxTotalEvents
  perKind : ∀ kind, s.events.countP (fun e => e.kind = kind) ≤ config.maxEventsPerKind
  perPubkey : ∀ pubkey, s.events.countP (fun e => e.pubkey = pubkey) ≤ config.maxEventsPerPubkey
  size : ∀ e ∈ s.events, e.sizeBytes ≤ config.maxEventSizeBytes
  kinds : ∀ e ∈ s.events, e.kind ∈ s.config.allowedKinds

structure SameLimits (config : RelayConfig) (s : RelayServer) : Prop where
  total : s.config.maxTotalEvents = config.maxTotalEvents
  perKind : s.config.maxEventsPerKind = config.maxEventsPerKind
  perPubkey : s.config.maxEventsPerPubkey = config.maxEventsPerPubkey
  size : s.config.maxEventSizeBytes = config.maxEventSizeBytes

section quotas

variable {config : RelayConfig} {s s' : RelayServer}

theorem Bounded.sublist (h : Bounded config s) (hsub : s'.events.Sublist s.events)
    (hk : s.config.allowedKinds ⊆ s'.config.allowedKinds) : Bounded config s' where
  total := Nat.le_trans hsub.length_le h.total
  perKind := fun kind => Nat.le_trans hsub.countP_le (h.perKind kind)
  perPubkey := fun pubkey => Nat.le_trans hsub.countP_le (h.perPubkey pubkey)
  size := fun e he => h.size e (hsub.subset he)
  kinds := fun e he => hk (h.kinds e (hsub.subset he))

private theorem countP_append_le {p : StoredEvent → Bool} {es : List StoredEvent} {e : StoredEvent}
    {n : Nat} (hes : es.countP p ≤ n) (he : p e = true → es.countP p < n) :
    (es ++ [e]).countP p ≤ n := by
  rw [List.countP_append, List.countP_singleton]
  split
  · rename_i hp
    have := he hp
    omega
  · omega

theorem Bounded.append (h : Bounded config s) (hl : SameLimits config s) {se : StoredEvent}
    (hroom : s.canStoreEvent se = true) (hkind : se.kind ∈ s.config.allowedKinds)
    (hc : s'.config = s.config) (he : s'.events = s.events ++ [se]) : Bounded config s' := by
  obtain ⟨hsize, htotal, hperKind, hperPubkey⟩ := RelayServer.canStoreEvent_iff.mp hroom
  rw [hl.size] at hsize
  rw [hl.total] at htotal
  rw [hl.perKind] at hperKind
  rw [hl.perPubkey] at hperPubkey
  constructor
  · rw [he, List.length_append, List.length_singleton]
    omega
  · intro kind
    rw [he]
    refine countP_append_le (h.perKind kind) ?_
    intro hk
    rw [← of_decide_eq_true hk]
    exact hperKind
  · intro pubkey
    rw [he]
    refine countP_append_le (h.perPubkey pubkey) ?_
    intro hk
    rw [← of_decide_eq_true hk]
    exact hperPubkey
  · intro e hmem
    rcases List.mem_append.mp (he ▸ hmem) with hmem | hmem
    · exact h.size e hmem
    · rw [List.mem_singleton.mp hmem]
      exact hsize
  · intro e hmem
    rw [hc]
    rcases List.mem_append.mp (he ▸ hmem) with hmem | hmem
    · exact h.kinds e hmem
    · rw [List.mem_singleton.mp hmem]
      exact hkind

theorem bounded_step {lib : JsonText} {op : Op} (h : Bounded config s ∧ SameLimits config s)
    (hstep : Step lib s op s') : Bounded config s' ∧ SameLimits config s' := by
  obtain ⟨hb, hl⟩ := h
  obtain ⟨hk, htotal, hperKind, hperPubkey, hsize⟩ := step_config hstep
  refine ⟨?_, ⟨htotal.trans hl.total, hperKind.trans hl.perKind, hperPubkey.trans hl.perPubkey,
    hsize.trans hl.size⟩⟩
  rcases step_events hstep with ⟨_, _, _, _, se, _, _, hpass, hroom, hc, he⟩ | ⟨hsub, _⟩
  · exact hb.append hl hroom (of_decide_eq_true hpass.allowed) hc he
  · exact hb.sublist hsub hk

theorem bounded_create (config : RelayConfig) :
    Bounded config (RelayServer.create config) ∧ SameLimits config (RelayServer.create config) :=
  ⟨⟨Nat.zero_le _, fun _ => Nat.zero_le _, fun _ => Nat.zero_le _, by simp [RelayServer.create],
    by simp [RelayServer.create]⟩, ⟨rfl, rfl, rfl, rfl⟩⟩

theorem bounded_of_reachable {lib : JsonText}
    (h : Reachable (Step lib) (RelayServer.create config) s) : Bounded config s :=
  (h.keeps (fun _ _ _ hb hstep => bounded_step hb hstep) (bounded_create config)).1

end quotas

/-! ## Texts -/

theorem ReadsAs.utf8 {lib : JsonText} {rawMsg : Bytes} {se : StoredEvent}
    (h : ReadsAs lib rawMsg se) : se.utf8 = true := by
  obtain ⟨event, rest, hparse, hhead, hread⟩ := h
  have hu : event.utf8 = true := utf8_arr.mp (lib.parse_utf8 _ _ hparse) event (by simp)
  obtain ⟨hid, hcontent, _, hsig, htags, _⟩ := readStoredEvent_spec hread
  have hpubkey : event.value getString (lit "pubkey") [] = .ok se.pubkey := by
    unfold eventHead at hhead
    cases hp : event.value getString (lit "pubkey") [] with
    | error e => simp [hp, bind, Except.bind] at hhead
    | ok pubkey =>
      cases hk : event.value getInt (lit "kind") 0 with
      | error e => simp [hp, hk, bind, Except.bind] at hhead
      | ok kind =>
        simp only [hp, hk, bind, Except.bind, pure, Except.pure, Except.ok.injEq,
          Prod.mk.injEq] at hhead
        rw [hhead.1]
  simp only [StoredEvent.utf8, Bool.and_eq_true]
  exact ⟨⟨⟨⟨utf8_value hu rfl hid, utf8_value hu rfl hpubkey⟩, utf8_value hu rfl hcontent⟩,
    utf8_value hu rfl hsig⟩, utf8Tags_readTags hu htags⟩

def StoreReadable (s : RelayServer) : Prop := ∀ e ∈ s.events, e.utf8 = true

theorem storeReadable_step {lib : JsonText} {s s' : RelayServer} {op : Op} (h : StoreReadable s)
    (hstep : Step lib s op s') : StoreReadable s' := by
  rcases step_events hstep with ⟨_, _, _, _, se, _, hread, _, _, _, he⟩ | ⟨hsub, _⟩
  · intro e hmem
    rw [he] at hmem
    rcases List.mem_append.mp hmem with hmem | hmem
    · exact h e hmem
    · rw [List.mem_singleton.mp hmem]
      exact hread.utf8
  · exact fun e hmem => h e (hsub.subset hmem)

theorem storeReadable_of_reachable {lib : JsonText} {config : RelayConfig} {s : RelayServer}
    (h : Reachable (Step lib) (RelayServer.create config) s) : StoreReadable s :=
  h.keeps (fun _ _ _ hs hstep => storeReadable_step hs hstep)
    (by simp [StoreReadable, RelayServer.create])

/-- In every serial run the store stays within its quotas, an EVENT leaves it alone or
appends its own event behind everything stored, and nothing else adds an event. -/
theorem store_runs (lib : JsonText) (config : RelayConfig) (s : RelayServer)
    (h : Reachable (Step lib) (RelayServer.create config) s) :
    Bounded config s ∧
    (∀ session raw checkedAt recordedAt s',
      Step lib s (.message session raw checkedAt recordedAt) s' →
        s'.events = s.events ∨ ∃ se, ReadsAs lib raw se ∧ s'.events = s.events ++ [se]) ∧
    ∀ op s', Step lib s op s' →
      (∀ session raw checkedAt recordedAt,
        op = .message session raw checkedAt recordedAt → ¬ IsEvent lib raw) →
      s'.events.Sublist s.events := by
  refine ⟨bounded_of_reachable h, ?_, ?_⟩
  · intro session raw checkedAt recordedAt s' hstep
    rcases step_events hstep with ⟨_, _, _, _, se, hop, hread, _, _, _, he⟩ | ⟨_, hm⟩
    · cases hop
      exact .inr ⟨se, hread, he⟩
    · exact .inl (hm session raw checkedAt recordedAt rfl).1
  · intro op s' hstep hno
    rcases step_events hstep with ⟨_, _, _, _, se, hop, hread, _⟩ | ⟨hsub, _⟩
    · exact absurd hread.isEvent (hno _ _ _ _ hop)
    · exact hsub

/-- One event of a kind fits: the second is refused, the first pruned for a third, and the last
one is of a banned key. -/
def quotaOps : List Op :=
  [.message ⟨0, true, true⟩ (lit "[\"EVENT\",\x7b\"id\":\"a\",\"kind\":42\x7d]") 100 100,
    .message ⟨0, true, true⟩ (lit "[\"EVENT\",\x7b\"id\":\"b\",\"kind\":42\x7d]") 100 100,
    .pruneOldEvents 700000,
    .message ⟨0, true, true⟩ (lit "[\"EVENT\",\x7b\"id\":\"c\",\"kind\":42\x7d]") 100 100,
    .banPubkey [],
    .message ⟨0, true, true⟩ (lit "[\"EVENT\",\x7b\"id\":\"d\",\"kind\":1\x7d]") 100 100]

theorem store_runs_quotaOps :
    ∃ s, Run (Step Json.codec) (RelayServer.create { maxEventsPerKind := 1 }) quotaOps s ∧
      s.events.map StoredEvent.id = [lit "c"] ∧ Bounded { maxEventsPerKind := 1 } s := by
  have hrun : Run (Step Json.codec) (RelayServer.create { maxEventsPerKind := 1 }) quotaOps _ :=
    .cons ⟨rfl, rfl⟩ (.cons ⟨rfl, rfl⟩ (.cons rfl (.cons ⟨rfl, rfl⟩ (.cons rfl
      (.cons ⟨by decide +kernel, rfl⟩ (.nil _))))))
  exact ⟨_, hrun, by decide +kernel, (store_runs Json.codec _ _ ⟨_, hrun⟩).1⟩

end LinuxLive.Relay
