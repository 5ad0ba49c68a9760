import LinuxLive.Lib.Interleave
import LinuxLive.Relay.RateLimit
import LinuxLive.Relay.Runs

/-!
# Sessions as threads

The handler of one EVENT cut at its locked sections: `check_rate_limit`,
`can_store_event`, `store_event` and `record_event` are one atomic step each.  What runs
between them reads the message and the configuration only.
-/

namespace LinuxLive.Relay

open Json

/-- What a session has still to do. -/
inductive Task where
  | received (rawMsg : Bytes)
  | rateChecked (se : StoredEvent)
  | roomChecked (se : StoredEvent)
  | stored (se : StoredEvent)
  | done
  deriving DecidableEq

/-- An EVENT from its head up to `check_rate_limit` and the fields behind it. -/
def beginEvent (event : Json) (size : Nat) (now : UInt64) (s : RelayServer) : Task × RelayServer :=
  match eventHead event with
  | .error _ => (.done, s)
  | .ok (pubkey, kind) =>
      if s.isPubkeyBanned pubkey then (.done, s)
      else if !s.isEventAllowed kind then (.done, s)
      else
        let checked := s.checkRateLimit pubkey now
        if !checked.1 then (.done, checked.2)
        else
          match readStoredEvent event pubkey kind size with
          | .error _ => (.done, checked.2)
          | .ok se => (.rateChecked se, checked.2)

/-- A message up to the end of its first section; only an EVENT has one. -/
def receive (lib : JsonText) (raw : Bytes) (now : UInt64) (s : RelayServer) : Task × RelayServer :=
  match lib.parse raw with
  | some (.arr (.str type :: event :: _)) =>
      if type = lit "EVENT" then beginEvent event raw.length now s else (.done, s)
  | _ => (.done, s)

/-- One locked section; all clock readings are `now`. -/
def Task.step (lib : JsonText) (now : UInt64) : Task → RelayServer → Option (Task × RelayServer)
  | .received raw, s => some (receive lib raw now s)
  | .rateChecked se, s => some (if s.canStoreEvent se then .roomChecked se else .done, s)
  | .roomChecked se, s => some (.stored se, s.storeEvent se)
  | .stored se, s => some (.done, s.recordEvent se.pubkey now)
  | .done, _ => none

theorem step_rateChecked (lib : JsonText) (now : UInt64) {s : RelayServer} {se : StoredEvent}
    (h : s.canStoreEvent se = true) :
    Task.step lib now (.rateChecked se) s = some (.roomChecked se, s) := by
  simp [Task.step, h]

/-! ## The first section -/

section first

variable {lib : JsonText} {now : UInt64} {raw : Bytes} {s : RelayServer} {se : StoredEvent}

/-- The gates that read the configuration only. -/
structure Open (s : RelayServer) (se : StoredEvent) : Prop where
  notBanned : s.isPubkeyBanned se.pubkey = false
  allowed : s.isEventAllowed se.kind = true

theorem Open.congr {s' : RelayServer} (h : Open s se) (hc : s'.config = s.config) : Open s' se := by
  obtain ⟨hb, ha⟩ := h
  constructor
  · simpa [RelayServer.isPubkeyBanned, hc] using hb
  · simpa [RelayServer.isEventAllowed, hc] using ha

theorem receive_of_readsAs (hread : ReadsAs lib raw se) (hopen : Open s se) :
    receive lib raw now s =
      (if (s.checkRateLimit se.pubkey now).1 then .rateChecked se else .done,
        s.touch se.pubkey now) := by
  obtain ⟨event, rest, hparse, hhead, hse⟩ := hread
  simp only [receive, hparse, if_true, beginEvent, hhead, hopen.notBanned, hopen.allowed, hse,
    Bool.not_true, Bool.false_eq_true, if_false, RelayServer.touch]
  cases (s.checkRateLimit se.pubkey now).1 <;> rfl

theorem receive_of_not_event (h : ¬ IsEvent lib raw) (s : RelayServer) :
    receive lib raw now s = (.done, s) := by
  unfold receive
  split
  · rename_i type event rest hparse
    rw [if_neg]
    intro heq
    exact h ⟨event, rest, by rw [hparse, heq]⟩
  · rfl

theorem receive_cases (lib : JsonText) (now : UInt64) (raw : Bytes) (s : RelayServer) :
    (∃ se, ReadsAs lib raw se ∧ Open s se) ∨
    (∀ u : RelayServer, u.config = s.config → receive lib raw now u = (.done, u)) ∨
    ∃ pubkey, ∀ u : RelayServer, u.config = s.config →
      receive lib raw now u = (.done, u.touch pubkey now) := by
  by_cases hevent : IsEvent lib raw
  · obtain ⟨event, rest, hparse⟩ := hevent
    have hbegin : ∀ u, receive lib raw now u = beginEvent event raw.length now u := by
      intro u
      simp [receive, hparse]
    simp only [hbegin]
    cases hhead : eventHead event with
    | error e => exact .inr (.inl fun u _ => by simp [beginEvent, hhead])
    | ok head =>
        obtain ⟨pubkey, kind⟩ := head
        have hban : ∀ u : RelayServer, u.config = s.config →
            u.isPubkeyBanned pubkey = s.isPubkeyBanned pubkey := by
          intro u hc
          simp [RelayServer.isPubkeyBanned, hc]
        have hallow : ∀ u : RelayServer, u.config = s.config →
            u.isEventAllowed kind = s.isEventAllowed kind := by
          intro u hc
          simp [RelayServer.isEventAllowed, hc]
        cases hb : s.isPubkeyBanned pubkey with
        | true => exact .inr (.inl fun u hc => by simp [beginEvent, hhead, hban u hc, hb])
        | false =>
            cases ha : s.isEventAllowed kind with
            | false =>
                exact .inr (.inl fun u hc => by
                  simp [beginEvent, hhead, hban u hc, hb, hallow u hc, ha])
            | true =>
                cases hread : readStoredEvent event pubkey kind raw.length with
                | error e =>
                    refine .inr (.inr ⟨pubkey, fun u hc => ?_⟩)
                    simp only [beginEvent, hhead, hban u hc, hb, hallow u hc, ha, hread,
                      RelayServer.touch]
                    cases (u.checkRateLimit pubkey now).1 <;> rfl
                | ok se =>
                    obtain ⟨_, _, _, _, _, rfl, rfl, _⟩ := readStoredEvent_spec hread
                    exact .inl ⟨se, ⟨event, rest, hparse, hhead, hread⟩, hb, ha⟩
  · exact .inr (.inl fun u _ => receive_of_not_event hevent u)

end first

/-! ## The sections one after the other -/

section solo

variable (lib : JsonText) (s : RelayServer) (session : ClientSession) (raw : Bytes) (now : UInt64)

theorem solo_rateChecked (se : StoredEvent) :
    Solo (Task.step lib now) (.rateChecked se) s .done (s.storeIfRoom se now) := by
  unfold RelayServer.storeIfRoom
  split
  · rename_i hroom
    exact .head (step_rateChecked lib now hroom) (.head rfl (.head rfl (.refl _ _)))
  · rename_i hfull
    exact .head (by simp [Task.step, hfull]) (.refl _ _)

theorem solo_beginEvent (event : Json) :
    Solo (Task.step lib now) (beginEvent event raw.length now s).1
      (beginEvent event raw.length now s).2 .done
      (handleEvent lib s session event raw now now).server := by
  unfold beginEvent handleEvent
  cases eventHead event with
  | error e => exact .refl _ _
  | ok head =>
      obtain ⟨pubkey, kind⟩ := head
      dsimp only
      cases s.isPubkeyBanned pubkey with
      | true => exact .refl _ _
      | false =>
        cases s.isEventAllowed kind with
        | false => exact .refl _ _
        | true =>
          cases (s.checkRateLimit pubkey now).1 with
          | false => exact .refl _ _
          | true =>
            cases readStoredEvent event pubkey kind raw.length with
            | error e => exact .refl _ _
            | ok se =>
                have hsolo := solo_rateChecked lib (s.checkRateLimit pubkey now).2 now se
                cases hdump : lib.dump none (okMessage se.id) <;> simpa [hdump] using hsolo

/-- A session alone does to the server what the handler does. -/
theorem solo_handleClientMessage :
    Solo (Task.step lib now) (.received raw) s .done
      (handleClientMessage lib s session raw now now).server := by
  by_cases hevent : IsEvent lib raw
  · obtain ⟨event, rest, hparse⟩ := hevent
    rw [handleClientMessage_event hparse]
    have hreceive : receive lib raw now s = beginEvent event raw.length now s := by
      simp [receive, hparse]
    exact .head (congrArg some hreceive) (solo_beginEvent lib s session raw now event)
  · rw [handleClientMessage_server_of_not_event lib s session raw now now hevent]
    exact .head (congrArg some (receive_of_not_event hevent s)) (.refl _ _)

end solo

end LinuxLive.Relay
