import LinuxLive.Relay.Filter
import LinuxLive.System.Frames

/-!
# Bans

`ban_pubkey` closes the relay for what comes later; the events that are stored already
stay, and a REQ returns them.
-/

namespace LinuxLive

open Json Relay

/-- No event of a banned key is stored, returned by a REQ or forwarded. -/
structure BanComplete (lib : JsonText) (s : RelayServer) : Prop where
  stored : ∀ e ∈ s.events, s.isPubkeyBanned e.pubkey = false
  returned : ∀ session raw checkedAt recordedAt sub rest,
    lib.parse raw = some (.arr (.str (lit "REQ") :: sub :: rest)) →
    ∀ frame ∈ (handleClientMessage lib s session raw checkedAt recordedAt).sent,
    ∀ subId event pubkey, lib.parse frame.2 = some (.arr [.str (lit "EVENT"), .str subId, event]) →
      event.field? (lit "pubkey") = some (.str pubkey) → s.isPubkeyBanned pubkey = false
  forwarded : ∀ session raw checkedAt recordedAt event rest pubkey kind,
    lib.parse raw = some (.arr (.str (lit "EVENT") :: event :: rest)) →
    eventHead event = .ok (pubkey, kind) → s.isPubkeyBanned pubkey = true →
    (handleClientMessage lib s session raw checkedAt recordedAt).sent = []

/-- A step that bans no key of which an event is stored. -/
def CleanStep (lib : JsonText) (s : RelayServer) (op : Op) (s' : RelayServer) : Prop :=
  Step lib s op s' ∧ ∀ pubkey, op = .banPubkey pubkey → ∀ e ∈ s.events, e.pubkey ≠ pubkey

/-! ## One state -/

section state

variable {lib : JsonText} {s : RelayServer} {session : ClientSession}

theorem mem_sent_handleReq {sub : Json} {filter : Option Json} {frame : Nat × Bytes}
    (h : frame ∈ (handleReq lib s session sub filter).sent) :
    ∃ subId, frame ∈ (reqLoop lib session subId (filter.getD (.obj [])) s.events).1 ∨
      ∃ eose, lib.dump none (eoseMessage subId) = some eose ∧ frame ∈ sendWsText session eose := by
  unfold handleReq at h
  split at h
  · cases h
  · rename_i subId _
    refine ⟨subId, ?_⟩
    split at h
    · rename_i hloop
      rw [hloop]
      exact .inl h
    · rename_i hloop
      rw [hloop]
      split at h
      · exact .inl h
      · rename_i eose heose
        exact (List.mem_append.mp h).imp_right fun hmem => ⟨eose, heose, hmem⟩

theorem snd_of_mem_sendWsText {frame : Nat × Bytes} {text : Bytes}
    (h : frame ∈ sendWsText session text) : frame.2 = text := by
  unfold sendWsText at h
  split at h
  · rw [List.mem_singleton.mp h]
  · cases h

theorem banComplete_iff : BanComplete lib s ↔
    ∀ e ∈ s.events, s.isPubkeyBanned e.pubkey = false := by
  constructor
  · exact BanComplete.stored
  · intro hstored
    refine ⟨hstored, ?_, ?_⟩
    · intro session raw checkedAt recordedAt sub rest hparse frame hframe subId event pubkey
        hevent hpubkey
      rw [handleClientMessage_req hparse] at hframe
      obtain ⟨subId', hloop | heose⟩ := mem_sent_handleReq hframe
      · obtain ⟨e, he, _, text, hdump, hsent⟩ := reqLoop_sound hloop
        rw [snd_of_mem_sendWsText hsent, parse_eventMessage hdump, eventMessage] at hevent
        have hjson : subId' = subId ∧ eventJson e = event := by simpa using hevent
        rw [← hjson.2, (eventJson_fields e).2.1] at hpubkey
        cases hpubkey
        exact hstored e he
      · obtain ⟨eose, hdump, hsent⟩ := heose
        have hcanonical : (eoseMessage subId').canonical = true := by
          simp [eoseMessage, canonical_arr]
        rw [snd_of_mem_sendWsText hsent, lib.parse_dump none _ eose hcanonical hdump,
          eoseMessage] at hevent
        simp at hevent
    · intro session raw checkedAt recordedAt event rest pubkey kind hparse hhead hbanned
      have hpass : ¬ Passes s pubkey kind checkedAt := by
        intro hpass
        rw [hpass.notBanned] at hbanned
        cases hbanned
      rw [handleClientMessage_event hparse]
      rcases handleEvent_of_not_passes lib recordedAt hhead hpass with h | h
      · rw [h]
      · rw [h]

end state

/-! ## Runs -/

section runs

variable {lib : JsonText} {s s' t : RelayServer} {op : Op} {ops : List Op}

theorem step_unique (h : Step lib s op s') (h' : Step lib s op t) : s' = t := by
  cases op with
  | message session raw checkedAt recordedAt => exact h.2.symm.trans h'.2
  | _ => exact Eq.trans (Eq.symm h) h'

theorem banComplete_of_subset (hs : BanComplete lib s)
    (hbanned : s'.config.bannedPubkeys = s.config.bannedPubkeys) (hsub : s'.events ⊆ s.events) :
    BanComplete lib s' := by
  rw [banComplete_iff]
  intro e he
  rw [RelayServer.isPubkeyBanned, hbanned]
  exact hs.stored e (hsub he)

theorem banComplete_message {session : ClientSession} {raw : Bytes} {checkedAt recordedAt : UInt64}
    (hs : BanComplete lib s) (h : Step lib s (.message session raw checkedAt recordedAt) s') :
    BanComplete lib s' := by
  rcases step_events h with ⟨_, _, _, _, se, hop, hread, hpass, hroom, hconfig, hevents⟩ | ⟨hsub, hm⟩
  · rw [banComplete_iff]
    intro e he
    rw [RelayServer.isPubkeyBanned, hconfig]
    rw [hevents] at he
    rcases List.mem_append.mp he with he | he
    · exact hs.stored e he
    · rw [List.mem_singleton.mp he]
      exact hpass.notBanned
  · apply banComplete_of_subset hs _ hsub.subset
    rw [(hm session raw checkedAt recordedAt rfl).2]

/-- A ban is complete at once exactly if it finds no event. -/
theorem banComplete_banPubkey_iff (hs : BanComplete lib s) (pubkey : Bytes) :
    BanComplete lib (s.banPubkey pubkey) ↔ ∀ e ∈ s.events, e.pubkey ≠ pubkey := by
  rw [banComplete_iff]
  apply forall₂_congr
  intro e he
  have hno := hs.stored e he
  simp only [RelayServer.isPubkeyBanned, decide_eq_false_iff_not] at hno
  simp [RelayServer.isPubkeyBanned, RelayServer.banPubkey, hno]

/-- A step from a complete state ends in one exactly if it is clean. -/
theorem banComplete_step_iff (hs : BanComplete lib s) (h : Step lib s op s') :
    BanComplete lib s' ↔
      ∀ pubkey, op = .banPubkey pubkey → ∀ e ∈ s.events, e.pubkey ≠ pubkey := by
  cases op with
  | message session raw checkedAt recordedAt =>
      exact iff_of_true (banComplete_message hs h) (fun pubkey hop => by cases hop)
  | banPubkey pubkey =>
      cases h
      rw [banComplete_banPubkey_iff hs]
      simp
  | pruneOldEvents now =>
      cases h
      exact iff_of_true (banComplete_of_subset hs rfl List.filter_sublist.subset)
        (fun pubkey hop => by cases hop)
  | deleteEventsByPubkey pubkey =>
      cases h
      exact iff_of_true (banComplete_of_subset hs rfl List.filter_sublist.subset)
        (fun pubkey hop => by cases hop)
  | deleteEventById eventId =>
      cases h
      exact iff_of_true (banComplete_of_subset hs rfl List.filter_sublist.subset)
        (fun pubkey hop => by cases hop)
  | allowEventKind kind =>
      cases h
      exact iff_of_true (banComplete_of_subset hs rfl (List.Subset.refl _))
        (fun pubkey hop => by cases hop)
  | connections sessions nodup =>
      cases h
      exact iff_of_true (banComplete_of_subset hs rfl (List.Subset.refl _))
        (fun pubkey hop => by cases hop)

/-- Bans are complete in all states of a run exactly if all of its steps are clean. -/
theorem banComplete_run_iff (hs : BanComplete lib s) (h : Run (Step lib) s ops s') :
    (∀ front back u, ops = front ++ back → Run (Step lib) s front u → BanComplete lib u) ↔
      Run (CleanStep lib) s ops s' := by
  induction h with
  | nil s =>
      refine iff_of_true ?_ (.nil s)
      intro front back u hops hrun
      obtain ⟨rfl, _⟩ := List.append_eq_nil_iff.mp hops.symm
      cases hrun
      exact hs
  | @cons s t s' op ops hstep _ ih =>
      constructor
      · intro hall
        have ht := hall [op] ops t rfl (.single hstep)
        refine .cons ⟨hstep, (banComplete_step_iff hs hstep).mp ht⟩ ((ih ht).mp ?_)
        intro front back u hops hrun
        exact hall (op :: front) back u (by rw [hops, List.cons_append]) (.cons hstep hrun)
      · intro hclean front back u hops hrun
        obtain ⟨hclean, hrest⟩ : CleanStep lib s op t ∧ Run (CleanStep lib) t ops s' := by
          cases hclean with
          | cons hfirst hrest =>
              rw [step_unique hstep hfirst.1]
              exact ⟨hfirst, hrest⟩
        have ht := (banComplete_step_iff hs hstep).mpr hclean.2
        cases hrun with
        | nil => exact hs
        | cons hfirst hlater =>
            obtain ⟨rfl, htail⟩ := List.cons.inj hops
            rw [← step_unique hstep hfirst] at hlater
            exact (ih ht).mpr hrest _ back u htail hlater

end runs

/-- From the empty store on, bans are complete in every state of exactly the runs that ban
a key only while none of its events is stored. -/
theorem ban_complete_iff (lib : JsonText) (config : RelayConfig) (ops : List Op) (s : RelayServer)
    (h : Run (Step lib) (RelayServer.create config) ops s) :
    (∀ front back u, ops = front ++ back → Run (Step lib) (RelayServer.create config) front u →
      BanComplete lib u) ↔ Run (CleanStep lib) (RelayServer.create config) ops s := by
  apply banComplete_run_iff _ h
  rw [banComplete_iff]
  intro e he
  cases he

/-! ## A key that is banned too late -/

def annFrame : Bytes := lit "[\"EVENT\",\x7b\"kind\":42,\"pubkey\":\"ann\"\x7d]"

/-- A message of `ann`, then the ban. -/
def annOps : List Op := [.message ⟨0, true, true⟩ annFrame 100 100, .banPubkey (lit "ann")]

def annRelay : RelayServer :=
  (handleClientMessage Json.codec (RelayServer.create {}) ⟨0, true, true⟩ annFrame 100
    100).server.banPubkey (lit "ann")

theorem run_annRelay : Run (Step Json.codec) (RelayServer.create {}) annOps annRelay :=
  .cons ⟨rfl, rfl⟩ (.single rfl)

theorem ban_complete_iff_ann :
    (∀ front back u, annOps = front ++ back →
      Run (Step Json.codec) (RelayServer.create {}) front u → BanComplete Json.codec u) ↔
    Run (CleanStep Json.codec) (RelayServer.create {}) annOps annRelay :=
  ban_complete_iff Json.codec {} annOps annRelay run_annRelay

/-- The event is still stored after the ban. -/
theorem banned_event_stays :
    Run (Step Json.codec) (RelayServer.create {}) annOps annRelay ∧
      annRelay.events.map StoredEvent.pubkey = [lit "ann"] ∧ ¬ BanComplete Json.codec annRelay := by
  have hpubkeys : annRelay.events.map StoredEvent.pubkey = [lit "ann"] := rfl
  refine ⟨run_annRelay, hpubkeys, ?_⟩
  intro hcomplete
  have hmem : lit "ann" ∈ annRelay.events.map StoredEvent.pubkey := by
    rw [hpubkeys]
    exact List.mem_singleton_self _
  obtain ⟨e, he, hpubkey⟩ := List.mem_map.mp hmem
  have hnot := hcomplete.stored e he
  rw [hpubkey] at hnot
  cases hnot

end LinuxLive
