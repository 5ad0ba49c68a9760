import LinuxLive.Relay.Exceptions
import LinuxLive.Relay.Runs

/-!
# Acknowledgement and forwarding

The frames that each session receives for one EVENT, and when they agree with what
the store did.
-/

namespace LinuxLive.Relay

open Json

/-! ## Frames of one session -/

def framesTo (fd : Nat) (sent : List (Nat × Bytes)) : List Bytes :=
  (sent.filter fun frame => frame.1 == fd).map Prod.snd

@[simp] theorem framesTo_nil (fd : Nat) : framesTo fd [] = [] := rfl

@[simp] theorem framesTo_append (fd : Nat) (sent sent' : List (Nat × Bytes)) :
    framesTo fd (sent ++ sent') = framesTo fd sent ++ framesTo fd sent' := by
  simp [framesTo]

def ClientSession.isOpen (t : ClientSession) : Bool := t.wsHandshakeDone && t.running

theorem framesTo_sendWsText (fd : Nat) (t : ClientSession) (message : Bytes) :
    framesTo fd (sendWsText t message) = if t.fd = fd ∧ t.isOpen = true then [message] else [] := by
  unfold sendWsText ClientSession.isOpen
  split
  · rename_i hopen
    by_cases hfd : t.fd = fd <;> simp [framesTo, hfd, hopen]
  · rename_i hclosed
    simp [hclosed]

/-- The forwarding loop with the list of sessions left free. -/
private def forwardLoop (session : ClientSession) (raw : Bytes) (sessions : List ClientSession) :
    List (Nat × Bytes) :=
  sessions.flatMap fun t =>
    if t.fd != session.fd && t.wsHandshakeDone && t.running then sendWsText t raw else []

private theorem framesTo_forwardLoop_cons (fd : Nat) (session t : ClientSession) (raw : Bytes)
    (sessions : List ClientSession) : framesTo fd (forwardLoop session raw (t :: sessions)) =
      (if t.fd ≠ session.fd ∧ t.fd = fd ∧ t.isOpen = true then [raw] else []) ++
        framesTo fd (forwardLoop session raw sessions) := by
  simp only [forwardLoop, List.flatMap_cons, framesTo_append]
  congr 1
  by_cases hne : t.fd = session.fd
  · simp [hne]
  · have hguard : (t.fd != session.fd && t.wsHandshakeDone && t.running) = t.isOpen := by
      rw [bne_iff_ne.mpr hne, Bool.true_and]
      rfl
    rw [hguard]
    cases hopen : t.isOpen with
    | true => simp [hne, framesTo_sendWsText, hopen]
    | false => simp

private theorem framesTo_forwardLoop_of_notMem {fd : Nat} {session : ClientSession} {raw : Bytes}
    {sessions : List ClientSession} (h : fd = session.fd ∨ fd ∉ sessions.map ClientSession.fd) :
    framesTo fd (forwardLoop session raw sessions) = [] := by
  induction sessions with
  | nil => rfl
  | cons t sessions ih =>
      rw [framesTo_forwardLoop_cons, ih (h.imp_right fun h => by simp_all), List.append_nil,
        if_neg]
      rintro ⟨hne, rfl, _⟩
      rcases h with h | h
      · exact hne h
      · simp at h

private theorem framesTo_forwardLoop_of_mem {session t : ClientSession} {raw : Bytes}
    {sessions : List ClientSession} (hnodup : (sessions.map ClientSession.fd).Nodup)
    (ht : t ∈ sessions) (hne : t.fd ≠ session.fd) (hopen : t.isOpen = true) :
    framesTo t.fd (forwardLoop session raw sessions) = [raw] := by
  induction sessions with
  | nil => simp at ht
  | cons u sessions ih =>
      obtain ⟨hu, hnodup⟩ := List.nodup_cons.mp (List.map_cons ▸ hnodup)
      rw [framesTo_forwardLoop_cons]
      rcases List.mem_cons.mp ht with rfl | ht
      · rw [framesTo_forwardLoop_of_notMem (.inr hu), if_pos ⟨hne, rfl, hopen⟩]
        rfl
      · have hother : u.fd ≠ t.fd := fun heq => hu (heq ▸ List.mem_map_of_mem ht)
        rw [ih hnodup ht, if_neg (fun h => hother h.2.1)]
        rfl

section forward

variable {s : RelayServer} {session t : ClientSession} {raw : Bytes}

theorem framesTo_forward_self : framesTo session.fd (forward s session raw) = [] :=
  framesTo_forwardLoop_of_notMem (.inl rfl)

theorem framesTo_forward (ht : t ∈ s.sessions) (hne : t.fd ≠ session.fd) (hopen : t.isOpen = true) :
    framesTo t.fd (forward s session raw) = [raw] :=
  framesTo_forwardLoop_of_mem s.sessions_nodup ht hne hopen

end forward

/-! ## Truthful acknowledgement -/

/-- The sender receives `["OK", id, true]` and every other open session the message, once. -/
structure Announced (lib : JsonText) (s : RelayServer) (session : ClientSession) (raw : Bytes)
    (id : Bytes) (sent : List (Nat × Bytes)) : Prop where
  sender : ∃ ok, lib.dump none (okMessage id) = some ok ∧ framesTo session.fd sent = [ok]
  others : ∀ t ∈ s.sessions, t.fd ≠ session.fd → t.isOpen = true → framesTo t.fd sent = [raw]

section truthful

variable (lib : JsonText) (s : RelayServer) (session : ClientSession) (raw : Bytes)
  (checkedAt recordedAt : UInt64)

def Appends : Prop :=
  ∃ se, ReadsAs lib raw se ∧
    (handleClientMessage lib s session raw checkedAt recordedAt).server.events = s.events ++ [se]

/-- Announced if and only if appended, and silent otherwise. -/
structure Truthful : Prop where
  announced :
    (∃ se, ReadsAs lib raw se ∧ Announced lib s session raw se.id
      (handleClientMessage lib s session raw checkedAt recordedAt).sent) ↔
    Appends lib s session raw checkedAt recordedAt
  refused : ¬ Appends lib s session raw checkedAt recordedAt →
    (handleClientMessage lib s session raw checkedAt recordedAt).sent = []

variable {lib s session raw checkedAt recordedAt}

theorem ReadsAs.unique {se se' : StoredEvent} (h : ReadsAs lib raw se) (h' : ReadsAs lib raw se') :
    se = se' := by
  obtain ⟨event, rest, hparse, hhead, hread⟩ := h
  obtain ⟨event', rest', hparse', hhead', hread'⟩ := h'
  cases hparse.symm.trans hparse'
  obtain ⟨hpubkey, hkind⟩ := Prod.mk.inj (Except.ok.inj (hhead.symm.trans hhead'))
  rw [← hpubkey, ← hkind] at hread'
  exact Except.ok.inj (hread.symm.trans hread')

theorem handle_of_appends (h : Appends lib s session raw checkedAt recordedAt) :
    ∃ se ok, lib.dump none (okMessage se.id) = some ok ∧
      handleClientMessage lib s session raw checkedAt recordedAt =
        ⟨(s.checkRateLimit se.pubkey checkedAt).2.storeIfRoom se recordedAt,
          sendWsText session ok ++
            forward ((s.checkRateLimit se.pubkey checkedAt).2.storeIfRoom se recordedAt) session raw,
          none⟩ := by
  obtain ⟨se, hread, happ⟩ := h
  obtain ⟨event, rest, hparse, hhead, hse⟩ := hread
  rw [handleClientMessage_event hparse] at happ ⊢
  by_cases hp : Passes s se.pubkey se.kind checkedAt
  · have hu : event.utf8 = true := utf8_arr.mp (lib.parse_utf8 _ _ hparse) event (by simp)
    have hid : utf8 se.id = true := utf8_value hu rfl (readStoredEvent_spec hse).1
    obtain ⟨ok, hok⟩ := lib.dump_of_utf8 none ((utf8_okMessage se.id).trans hid)
    refine ⟨se, ok, hok, ?_⟩
    rw [handleEvent_of_passes lib hhead hp]
    simp only [hse, hok]
  · rcases handleEvent_of_not_passes lib recordedAt hhead hp with h | h
    · rw [h] at happ
      simp at happ
    · rw [h] at happ
      simp at happ

theorem step_of_appends (h : Appends lib s session raw checkedAt recordedAt) :
    Step lib s (.message session raw checkedAt recordedAt)
      (handleClientMessage lib s session raw checkedAt recordedAt).server := by
  obtain ⟨se, ok, _, heq⟩ := handle_of_appends h
  exact ⟨by rw [heq], rfl⟩

theorem appends_iff {se : StoredEvent} (hread : ReadsAs lib raw se) :
    Appends lib s session raw checkedAt recordedAt ↔
      Passes s se.pubkey se.kind checkedAt ∧ s.canStoreEvent se = true := by
  constructor
  · intro h
    obtain ⟨_, _, happ⟩ := id h
    rcases step_events (step_of_appends h) with ⟨_, _, _, _, se', hop, hread', hpass, hroom, _⟩ |
      ⟨_, hm⟩
    · cases hop
      rw [hread.unique hread']
      exact ⟨hpass, hroom⟩
    · have hsame := (hm session raw checkedAt recordedAt rfl).1
      rw [happ] at hsame
      simp at hsame
  · intro h
    obtain ⟨hpass, hroom⟩ := h
    refine ⟨se, hread, ?_⟩
    obtain ⟨event, rest, hparse, hhead, hse⟩ := hread
    rw [handleClientMessage_event hparse, handleEvent_of_passes lib hhead hpass]
    simp only [hse]
    cases lib.dump none (okMessage se.id) with
    | none => simp [storeIfRoom_events, hroom]
    | some ok => simp [storeIfRoom_events, hroom]

/-- An EVENT that returns was turned away silently, or it was read and announced. -/
theorem event_cases (hevent : IsEvent lib raw)
    (hret : (handleClientMessage lib s session raw checkedAt recordedAt).thrown = none) :
    ((∀ se, ReadsAs lib raw se → ¬ Passes s se.pubkey se.kind checkedAt) ∧
      (handleClientMessage lib s session raw checkedAt recordedAt).sent = [] ∧
      (handleClientMessage lib s session raw checkedAt recordedAt).server.events = s.events) ∨
    ∃ se ok, ReadsAs lib raw se ∧ Passes s se.pubkey se.kind checkedAt ∧
      lib.dump none (okMessage se.id) = some ok ∧
      handleClientMessage lib s session raw checkedAt recordedAt =
        ⟨(s.checkRateLimit se.pubkey checkedAt).2.storeIfRoom se recordedAt,
          sendWsText session ok ++
            forward ((s.checkRateLimit se.pubkey checkedAt).2.storeIfRoom se recordedAt) session raw,
          none⟩ := by
  obtain ⟨event, rest, hparse⟩ := hevent
  rw [handleClientMessage_event hparse] at hret ⊢
  cases hhead : eventHead event with
  | error e => simp [handleEvent_of_head_error lib hhead] at hret
  | ok head =>
      obtain ⟨pubkey, kind⟩ := head
      by_cases hp : Passes s pubkey kind checkedAt
      · rw [handleEvent_of_passes lib hhead hp] at hret ⊢
        cases hread : readStoredEvent event pubkey kind raw.length with
        | error e => simp [hread] at hret
        | ok se =>
            obtain ⟨_, _, _, _, _, rfl, rfl, _⟩ := readStoredEvent_spec hread
            cases hok : lib.dump none (okMessage se.id) with
            | none => simp [hread, hok] at hret
            | some ok => exact .inr ⟨se, ok, ⟨event, rest, hparse, hhead, hread⟩, hp, hok, by simp [hok]⟩
      · refine .inl ⟨?_, ?_⟩
        · rintro se ⟨event', rest', hparse', hhead', _⟩ hp'
          cases hparse.symm.trans hparse'
          cases hhead.symm.trans hhead'
          exact hp hp'
        · rcases handleEvent_of_not_passes lib recordedAt hhead hp with h | h
          · rw [h]
            exact ⟨rfl, rfl⟩
          · rw [h]
            exact ⟨rfl, rfl⟩

/-- The acknowledgement is truthful exactly if no event that got past the ban, the kind
gate and the rate limiter is refused by `can_store_event`. -/
theorem truthful_iff (hevent : IsEvent lib raw) (hopen : session.isOpen = true)
    (hret : (handleClientMessage lib s session raw checkedAt recordedAt).thrown = none) :
    Truthful lib s session raw checkedAt recordedAt ↔
      ∀ se, ReadsAs lib raw se → Passes s se.pubkey se.kind checkedAt →
        s.canStoreEvent se = true := by
  rcases event_cases hevent hret with ⟨hno, hsent, hevents⟩ | ⟨se, ok, hread, hpass, hok, heq⟩
  · have hnot : ¬ Appends lib s session raw checkedAt recordedAt := by
      rintro ⟨se, _, h⟩
      simp [hevents] at h
    refine iff_of_true ⟨?_, fun _ => hsent⟩ fun se hread hpass => absurd hpass (hno se hread)
    refine iff_of_false ?_ hnot
    rintro ⟨se, _, ⟨ok, _, hframes⟩, _⟩
    simp [hsent] at hframes
  · have happ : Appends lib s session raw checkedAt recordedAt ↔ s.canStoreEvent se = true := by
      rw [appends_iff hread, and_iff_right hpass]
    have hann : Announced lib s session raw se.id
        (handleClientMessage lib s session raw checkedAt recordedAt).sent := by
      rw [heq]
      constructor
      · refine ⟨ok, hok, ?_⟩
        simp [framesTo_sendWsText, framesTo_forward_self, hopen]
      · intro t ht hne htopen
        have ht' : t ∈ ((s.checkRateLimit se.pubkey checkedAt).2.storeIfRoom se recordedAt).sessions := by
          simpa using ht
        simp [framesTo_sendWsText, framesTo_forward ht' hne htopen, hne.symm]
    constructor
    · intro htruth se' hread' _
      obtain rfl := hread.unique hread'
      exact happ.mp (htruth.announced.mp ⟨se, hread, hann⟩)
    · intro hroom
      have hyes := happ.mpr (hroom se hread hpass)
      exact ⟨iff_of_true ⟨se, hread, hann⟩ hyes, fun hno => absurd hyes hno⟩

end truthful

theorem truthful_iff_of_empty :
    Truthful Json.codec (RelayServer.create {}) ⟨0, true, true⟩
      (lit "[\"EVENT\",\x7b\"kind\":42\x7d]") 100 100 ↔
    ∀ se, ReadsAs Json.codec (lit "[\"EVENT\",\x7b\"kind\":42\x7d]") se →
      Passes (RelayServer.create {}) se.pubkey se.kind 100 →
      (RelayServer.create {}).canStoreEvent se = true :=
  truthful_iff ⟨.obj [(lit "kind", .int 42)], [], rfl⟩ rfl rfl

/-- A full store: the event is refused and acknowledged. -/
theorem refused_and_acknowledged :
    IsEvent Json.codec (lit "[\"EVENT\",\x7b\"kind\":42\x7d]") ∧
    (handleClientMessage Json.codec (RelayServer.create { maxTotalEvents := 0 }) ⟨0, true, true⟩
      (lit "[\"EVENT\",\x7b\"kind\":42\x7d]") 100 100).thrown = none ∧
    ¬ Truthful Json.codec (RelayServer.create { maxTotalEvents := 0 }) ⟨0, true, true⟩
      (lit "[\"EVENT\",\x7b\"kind\":42\x7d]") 100 100 := by
  refine ⟨⟨.obj [(lit "kind", .int 42)], [], rfl⟩, rfl, ?_⟩
  intro h
  have hsent : (handleClientMessage Json.codec (RelayServer.create { maxTotalEvents := 0 })
      ⟨0, true, true⟩ (lit "[\"EVENT\",\x7b\"kind\":42\x7d]") 100 100).sent =
      [(0, lit "[\"OK\",\"\",true]")] := rfl
  have hevents : (handleClientMessage Json.codec (RelayServer.create { maxTotalEvents := 0 })
      ⟨0, true, true⟩ (lit "[\"EVENT\",\x7b\"kind\":42\x7d]") 100 100).server.events = [] := rfl
  have hno : ¬ Appends Json.codec (RelayServer.create { maxTotalEvents := 0 }) ⟨0, true, true⟩
      (lit "[\"EVENT\",\x7b\"kind\":42\x7d]") 100 100 := by
    rintro ⟨se, _, happ⟩
    rw [hevents] at happ
    simp [RelayServer.create] at happ
  have := h.refused hno
  rw [hsent] at this
  simp at this

end LinuxLive.Relay
