import LinuxLive.Lib.Pool
import LinuxLive.Relay.Threads
import LinuxLive.Relay.Window

/-!
# Limits under concurrent sessions

Any number of sessions handle messages at once, with the prune thread and deletions in
between.  Each limit is checked in one locked section and made use of in a later one, so
it can be exceeded; this module says how far.
-/

namespace LinuxLive.Relay

open Json

/-- A session waits for a message, receives one, or goes on with a locked section of it. -/
inductive SessionStep (lib : JsonText) : Task → RelayServer → Task → RelayServer → Prop where
  | receives (raw : Bytes) (s : RelayServer) : SessionStep lib .done s (.received raw) s
  | goesOn {t t' : Task} {s s' : RelayServer} (now : UInt64) :
      Task.step lib now t s = some (t', s') → SessionStep lib t s t' s'

/-- The prune thread, and what an operator does. -/
inductive Maintenance : RelayServer → RelayServer → Prop where
  | prune (s : RelayServer) (now : UInt64) : Maintenance s (s.pruneOldEvents now)
  | deleteByPubkey (s : RelayServer) (pubkey : Bytes) :
      Maintenance s (s.deleteEventsByPubkey pubkey)
  | deleteById (s : RelayServer) (eventId : Bytes) : Maintenance s (s.deleteEventById eventId)
  | ban (s : RelayServer) (pubkey : Bytes) : Maintenance s (s.banPubkey pubkey)
  | allow (s : RelayServer) (kind : UInt16) : Maintenance s (s.allowEventKind kind)

def RelayStep (lib : JsonText) : Pool Task RelayServer → Option Nat → Pool Task RelayServer → Prop :=
  Pool.Step (SessionStep lib) Maintenance

/-- A relay that has just been started, with `n` sessions. -/
def startPool (config : RelayConfig) (n : Nat) : Pool Task RelayServer :=
  ⟨List.replicate n .done, RelayServer.create config⟩

/-! ## What a locked section does -/

section sections

variable {lib : JsonText} {now : UInt64} {raw : Bytes} {s s' : RelayServer} {t t' : Task}

theorem receive_spec (lib : JsonText) (now : UInt64) (raw : Bytes) (s : RelayServer) :
    ((receive lib raw now s).2.config = s.config ∧ (receive lib raw now s).2.events = s.events) ∧
      ((∃ pubkey, receive lib raw now s = (.done, s.touch pubkey now)) ∨
        receive lib raw now s = (.done, s) ∨
        ∃ se, (s.checkRateLimit se.pubkey now).1 = true ∧
          receive lib raw now s = (.rateChecked se, s.touch se.pubkey now)) := by
  rcases receive_cases lib now raw s with ⟨se, hread, hopen⟩ | hnothing | ⟨pubkey, htouch⟩
  · rw [receive_of_readsAs hread hopen]
    refine ⟨⟨rfl, rfl⟩, ?_⟩
    by_cases hcheck : (s.checkRateLimit se.pubkey now).1 = true
    · rw [if_pos hcheck]
      exact .inr (.inr ⟨se, hcheck, rfl⟩)
    · rw [if_neg hcheck]
      exact .inl ⟨se.pubkey, rfl⟩
  · rw [hnothing s rfl]
    exact ⟨⟨rfl, rfl⟩, .inr (.inl rfl)⟩
  · rw [htouch s rfl]
    exact ⟨⟨rfl, rfl⟩, .inl ⟨pubkey, rfl⟩⟩

theorem SessionStep.config (h : SessionStep lib t s t' s') : s'.config = s.config := by
  cases h with
  | receives raw s => rfl
  | goesOn now hstep =>
      cases t with
      | received raw =>
          have hreceive : receive lib raw now s = (t', s') := Option.some.inj hstep
          have hspec := (receive_spec lib now raw s).1.1
          rwa [hreceive] at hspec
      | rateChecked se => cases hstep; rfl
      | roomChecked se => cases hstep; rfl
      | stored se => cases hstep; rfl
      | done => cases hstep

structure SameSettings (config : RelayConfig) (s : RelayServer) : Prop extends
    SameLimits config s where
  rate : s.config.rateLimitEvents = config.rateLimitEvents

theorem SameSettings.congr {config : RelayConfig} (h : SameSettings config s)
    (hc : s'.config = s.config) : SameSettings config s' where
  total := hc ▸ h.total
  perKind := hc ▸ h.perKind
  perPubkey := hc ▸ h.perPubkey
  size := hc ▸ h.size
  rate := hc ▸ h.rate

theorem SameSettings.maintenance {config : RelayConfig} (h : SameSettings config s)
    (hstep : Maintenance s s') : SameSettings config s' := by
  cases hstep with
  | prune now => exact h.congr rfl
  | deleteByPubkey pubkey => exact h.congr rfl
  | deleteById eventId => exact h.congr rfl
  | ban pubkey => exact ⟨⟨h.total, h.perKind, h.perPubkey, h.size⟩, h.rate⟩
  | allow kind => exact ⟨⟨h.total, h.perKind, h.perPubkey, h.size⟩, h.rate⟩

theorem Maintenance.sublist (h : Maintenance s s') : s'.events.Sublist s.events := by
  cases h with
  | prune now => exact List.filter_sublist
  | deleteByPubkey pubkey => exact List.filter_sublist
  | deleteById eventId => exact List.filter_sublist
  | ban pubkey => exact List.Sublist.refl _
  | allow kind => exact List.Sublist.refl _

theorem Maintenance.timestamps (h : Maintenance s s') (pubkey : Bytes) :
    s'.timestamps pubkey = s.timestamps pubkey := by
  cases h <;> rfl

/-! ## Quotas of the store -/

theorem evict_suffix (maxTotal : Nat) (es : List StoredEvent) :
    RelayServer.evict maxTotal es <:+ es := by
  induction es with
  | nil => exact List.suffix_refl _
  | cons e es ih =>
      unfold RelayServer.evict
      split
      · exact ih.trans (List.suffix_cons e es)
      · exact List.suffix_refl _

theorem length_evict (maxTotal : Nat) (es : List StoredEvent) :
    (RelayServer.evict maxTotal es).length + 1 ≤ max maxTotal 1 := by
  induction es with
  | nil =>
      rw [RelayServer.evict, List.length_nil]
      omega
  | cons e es ih =>
      unfold RelayServer.evict
      split
      · exact ih
      · omega

def Task.pendingRoom (q : StoredEvent → Bool) : Task → Nat
  | .roomChecked se => if q se then 1 else 0
  | _ => 0

/-- A limit on the events with a property that `can_store_event` checks for an event with it. -/
def Checks (q : StoredEvent → Bool) (limit : Nat) (s : RelayServer) : Prop :=
  ∀ se, q se = true → s.canStoreEvent se = true → s.events.countP q < limit

theorem countP_storeEvent_le (q : StoredEvent → Bool) (s : RelayServer) (se : StoredEvent) :
    (s.storeEvent se).events.countP q ≤ s.events.countP q + if q se then 1 else 0 := by
  have hle := (evict_suffix s.config.maxTotalEvents s.events).sublist.countP_le (p := q)
  rw [RelayServer.storeEvent, List.countP_append, List.countP_singleton]
  omega

theorem SessionStep.room {q : StoredEvent → Bool} {limit : Nat} (hchecks : Checks q limit s)
    (h : SessionStep lib t s t' s') :
    s'.events.countP q + t'.pendingRoom q ≤ s.events.countP q + t.pendingRoom q ∨
      s'.events.countP q < limit := by
  cases h with
  | receives raw s => exact .inl (Nat.le_refl _)
  | goesOn now hstep =>
      cases t with
      | received raw =>
          have hreceive : receive lib raw now s = (t', s') := Option.some.inj hstep
          have hcases := (receive_spec lib now raw s).2
          rw [hreceive] at hcases
          obtain ⟨_, h⟩ | h | ⟨_, _, h⟩ := hcases <;> cases h <;> exact .inl (Nat.le_refl _)
      | rateChecked se =>
          cases hstep
          by_cases hroom : s.canStoreEvent se = true
          · by_cases hq : q se = true
            · exact .inr (hchecks se hq hroom)
            · exact .inl (by simp [hroom, Task.pendingRoom, hq])
          · exact .inl (by simp [hroom, Task.pendingRoom])
      | roomChecked se =>
          cases hstep
          exact .inl (countP_storeEvent_le q s se)
      | stored se =>
          cases hstep
          exact .inl (Nat.le_refl _)
      | done => cases hstep

/-- Each session but one may have found room before the last place was taken. -/
theorem room_gate {q : StoredEvent → Bool} {config : RelayConfig} {limit bound : Nat}
    (hchecks : ∀ s, SameSettings config s → Checks q limit s) :
    Pool.Gate (SessionStep lib) Maintenance (SameSettings config) (fun s => s.events.countP q)
      (Task.pendingRoom q) limit bound where
  pending_le t := by
    unfold Task.pendingRoom
    split
    · split <;> omega
    · omega
  acts _ _ _ _ hinv _ hstep := hstep.room (hchecks _ hinv)
  outside_acts _ _ _ hstep := hstep.sublist.countP_le
  keeps _ _ _ _ hinv hstep := hinv.congr hstep.config
  outside_keeps _ _ hinv hstep := hinv.maintenance hstep

/-! ## The rate limiter -/

/-- Whether the session has passed the check of a key and not yet recorded its event. -/
def Task.pendingRate (pubkey : Bytes) : Task → Nat
  | .rateChecked se | .roomChecked se | .stored se => if se.pubkey = pubkey then 1 else 0
  | _ => 0

theorem fresh_sublist (s : RelayServer) (pubkey : Bytes) (now : UInt64) :
    (s.fresh pubkey now).length ≤ (s.timestamps pubkey).length :=
  (List.dropWhile_suffix _).length_le

theorem length_timestamps_touch_le (s : RelayServer) (key pubkey : Bytes) (now : UInt64) :
    ((s.touch key now).timestamps pubkey).length ≤ (s.timestamps pubkey).length := by
  rw [RelayServer.timestamps_touch]
  split
  · rename_i hkey
    rw [← hkey]
    exact fresh_sublist s pubkey now
  · exact Nat.le_refl _

/-- As long as the size fits an `int`, the check compares the size. -/
theorem lt_of_underLimit {n : Nat} (hn : n < 2 ^ 31) (h : s.underLimit n = true) :
    n < s.config.rateLimitEvents.toNat := by
  have hsize : (n : Int).bmod (2 ^ 32) = n := Int.bmod_eq_of_le (by omega) (by omega)
  rw [RelayServer.underLimit, decide_eq_true_eq, hsize] at h
  omega

theorem SessionStep.rate {pubkey : Bytes} (hfits : (s.timestamps pubkey).length < 2 ^ 31)
    (h : SessionStep lib t s t' s') :
    (s'.timestamps pubkey).length + t'.pendingRate pubkey ≤
        (s.timestamps pubkey).length + t.pendingRate pubkey ∨
      (s'.timestamps pubkey).length < s.config.rateLimitEvents.toNat := by
  cases h with
  | receives raw s => exact .inl (Nat.le_refl _)
  | goesOn now hstep =>
      cases t with
      | received raw =>
          have hreceive : receive lib raw now s = (t', s') := Option.some.inj hstep
          have hcases := (receive_spec lib now raw s).2
          rw [hreceive] at hcases
          obtain ⟨key, h⟩ | h | ⟨se, hcheck, h⟩ := hcases
          · cases h
            exact .inl (length_timestamps_touch_le s key pubkey now)
          · cases h
            exact .inl (Nat.le_refl _)
          · cases h
            have hle := length_timestamps_touch_le s se.pubkey pubkey now
            by_cases hkey : se.pubkey = pubkey
            · subst hkey
              rw [RelayServer.checkRateLimit_fst] at hcheck
              have hfresh := fresh_sublist s se.pubkey now
              rw [RelayServer.timestamps_touch, if_pos rfl]
              exact .inr (lt_of_underLimit (by omega) hcheck)
            · simp only [Task.pendingRate, if_neg hkey]
              exact .inl hle
      | rateChecked se =>
          cases hstep
          refine .inl ?_
          split
          · exact Nat.le_refl _
          · exact Nat.le_add_right _ _
      | roomChecked se =>
          cases hstep
          exact .inl (Nat.le_refl _)
      | stored se =>
          cases hstep
          rw [RelayServer.timestamps_recordEvent]
          by_cases hkey : se.pubkey = pubkey
          · simp [Task.pendingRate, hkey]
          · simp [Task.pendingRate, hkey, Ne.symm hkey]
      | done => cases hstep

theorem rate_gate {config : RelayConfig} {pubkey : Bytes} {bound : Nat} (hbound : bound < 2 ^ 31) :
    Pool.Gate (SessionStep lib) Maintenance (SameSettings config)
      (fun s => (s.timestamps pubkey).length) (Task.pendingRate pubkey)
      config.rateLimitEvents.toNat bound where
  pending_le t := by
    unfold Task.pendingRate
    split
    all_goals first | omega | split <;> omega
  acts _ s _ _ hinv hle hstep := by
    rw [← hinv.rate]
    exact hstep.rate (Nat.lt_of_le_of_lt hle hbound)
  outside_acts _ _ _ hstep := Nat.le_of_eq (congrArg List.length (hstep.timestamps pubkey))
  keeps _ _ _ _ hinv hstep := hinv.congr hstep.config
  outside_keeps _ _ hinv hstep := hinv.maintenance hstep

/-! ## Sizes -/

/-- The whole store keeps its size, whoever stores, and so does each event. -/
structure WithinSizes (config : RelayConfig) (s : RelayServer) : Prop where
  settings : SameSettings config s
  total : s.events.length ≤ max config.maxTotalEvents 1
  size : ∀ e ∈ s.events, e.sizeBytes ≤ config.maxEventSizeBytes

def Task.Fits (config : RelayConfig) (t : Task) : Prop :=
  ∀ se, t = .roomChecked se → se.sizeBytes ≤ config.maxEventSizeBytes

theorem WithinSizes.congr {config : RelayConfig} (h : WithinSizes config s)
    (hc : s'.config = s.config) (he : s'.events = s.events) : WithinSizes config s' where
  settings := h.settings.congr hc
  total := he ▸ h.total
  size := he ▸ h.size

theorem WithinSizes.step {config : RelayConfig} (h : WithinSizes config s) (hfits : t.Fits config)
    (hstep : SessionStep lib t s t' s') : WithinSizes config s' ∧ t'.Fits config := by
  have hother : ∀ {u : Task}, (∀ se, u ≠ .roomChecked se) → u.Fits config :=
    fun hne se hu => absurd hu (hne se)
  cases hstep with
  | receives raw s => exact ⟨h, hother nofun⟩
  | goesOn now hstep =>
      cases t with
      | received raw =>
          have hreceive : receive lib raw now s = (t', s') := Option.some.inj hstep
          obtain ⟨⟨hc, he⟩, hcases⟩ := receive_spec lib now raw s
          rw [hreceive] at hc he hcases
          refine ⟨h.congr hc he, hother ?_⟩
          obtain ⟨_, h⟩ | h | ⟨_, _, h⟩ := hcases <;> cases h <;> exact nofun
      | rateChecked se =>
          cases hstep
          refine ⟨h, ?_⟩
          split
          · rename_i hroom
            intro se' heq
            cases heq
            have hsize := (RelayServer.canStoreEvent_iff.mp hroom).1
            rwa [h.settings.size] at hsize
          · exact hother nofun
      | roomChecked se =>
          cases hstep
          refine ⟨⟨h.settings.congr rfl, ?_, ?_⟩, hother nofun⟩
          · have hlength := length_evict s.config.maxTotalEvents s.events
            rw [h.settings.total] at hlength
            rw [RelayServer.storeEvent, List.length_append, List.length_singleton,
              h.settings.total]
            exact hlength
          · intro e he
            rw [RelayServer.storeEvent, List.mem_append, List.mem_singleton] at he
            obtain he | rfl := he
            · exact h.size e ((evict_suffix _ _).subset he)
            · exact hfits e rfl
      | stored se =>
          cases hstep
          exact ⟨h.congr rfl rfl, hother nofun⟩
      | done => cases hstep

theorem WithinSizes.maintenance {config : RelayConfig} (h : WithinSizes config s)
    (hstep : Maintenance s s') : WithinSizes config s' where
  settings := h.settings.maintenance hstep
  total := Nat.le_trans hstep.sublist.length_le h.total
  size e he := h.size e (hstep.sublist.subset he)

end sections

/-! ## Sessions that store -/

section stores

variable {lib : JsonText} {s u : RelayServer} {raw : Bytes} {se : StoredEvent} {now : UInt64}
  {before after : List Task}

/-- A state in which all that was done since `s` is checking. -/
structure Unstored (s : RelayServer) (pubkey : Bytes) (now : UInt64) (u : RelayServer) : Prop where
  config : u.config = s.config
  events : u.events = s.events
  fresh : u.fresh pubkey now = s.fresh pubkey now

theorem Unstored.touch {pubkey : Bytes} (h : Unstored s pubkey now u) :
    Unstored s pubkey now (u.touch pubkey now) where
  config := h.config
  events := h.events
  fresh := RelayServer.fresh_touch.trans h.fresh

/-- A session that waits can get to where it has found room. -/
theorem reachable_roomChecked (hread : ReadsAs lib raw se) (hopen : Open s se)
    (hrate : (s.checkRateLimit se.pubkey now).1 = true) (hroom : s.canStoreEvent se = true)
    (hu : Unstored s se.pubkey now u) :
    Reachable (RelayStep lib) ⟨before ++ .done :: after, u⟩
      ⟨before ++ .roomChecked se :: after, u.touch se.pubkey now⟩ := by
  have hunder : (u.checkRateLimit se.pubkey now).1 = true := by
    rw [RelayServer.checkRateLimit_fst] at hrate ⊢
    rw [hu.fresh, RelayServer.underLimit_congr hu.config]
    exact hrate
  have hfound : (u.touch se.pubkey now).canStoreEvent se = true := by
    rw [RelayServer.canStoreEvent_iff] at hroom ⊢
    simpa [hu.config, hu.events] using hroom
  have hreceive : receive lib raw now u = (.rateChecked se, u.touch se.pubkey now) := by
    rw [receive_of_readsAs hread (hopen.congr hu.config), if_pos hunder]
  exact ((Pool.reachable_thread (.receives raw u)).trans
    (Pool.reachable_thread (.goesOn now (congrArg some hreceive)))).trans
      (Pool.reachable_thread (.goesOn now (step_rateChecked lib now hfound)))

theorem reachable_recorded (u : RelayServer) :
    Reachable (RelayStep lib) ⟨before ++ .roomChecked se :: after, u⟩
      ⟨before ++ .done :: after, (u.storeEvent se).recordEvent se.pubkey now⟩ :=
  (Pool.reachable_thread (.goesOn now rfl)).trans (Pool.reachable_thread (.goesOn now rfl))

theorem readsAs_small : ReadsAs Json.codec (lit "[\"EVENT\",\x7b\"id\":\"a\",\"kind\":42\x7d]")
    ⟨lit "a", [], 42, [], [], 0, [], 30⟩ :=
  ⟨.obj [(lit "id", .str (lit "a")), (lit "kind", .int 42)], [], rfl, rfl, rfl⟩

end stores

/-! ## All limits -/

section limits

variable {lib : JsonText} {config : RelayConfig} {n : Nat} {p : Pool Task RelayServer}

theorem sameSettings_create (config : RelayConfig) :
    SameSettings config (RelayServer.create config) := ⟨⟨rfl, rfl, rfl, rfl⟩, rfl⟩

theorem room_limit {q : StoredEvent → Bool} {limit : Nat}
    (hchecks : ∀ s, SameSettings config s → Checks q limit s)
    (h : Reachable (RelayStep lib) (startPool config n) p) :
    p.shared.events.countP q ≤ limit + (n - 1) := by
  have hcount := (room_gate hchecks).count_le h (sameSettings_create config)
    (by simp [startPool, RelayServer.create, Task.pendingRoom])
  rw [startPool, List.length_replicate] at hcount
  omega

/-- Whatever `n` sessions do at the same time, and whatever is pruned and deleted meanwhile:
quotas and rate are exceeded by at most one event for each session but one, the size of the
store and of an event never are. -/
theorem concurrent_limits (lib : JsonText) (config : RelayConfig) (n : Nat)
    (p : Pool Task RelayServer) (h : Reachable (RelayStep lib) (startPool config n) p) :
    (∀ kind, p.shared.events.countP (fun e => e.kind = kind) ≤
        config.maxEventsPerKind + (n - 1)) ∧
      (∀ pubkey, p.shared.events.countP (fun e => e.pubkey = pubkey) ≤
        config.maxEventsPerPubkey + (n - 1)) ∧
      p.shared.events.length ≤ max config.maxTotalEvents 1 ∧
      (∀ e ∈ p.shared.events, e.sizeBytes ≤ config.maxEventSizeBytes) ∧
      (config.rateLimitEvents.toNat + (n - 1) < 2 ^ 31 → ∀ pubkey,
        (p.shared.timestamps pubkey).length ≤ config.rateLimitEvents.toNat + (n - 1)) := by
  have hsizes : WithinSizes config p.shared ∧ ∀ t ∈ p.threads, t.Fits config := by
    refine Pool.keeps (fun _ _ _ _ hinv hfits hstep => hinv.step hfits hstep)
      (fun _ _ hinv hstep => hinv.maintenance hstep) h ⟨?_, ?_⟩
    · exact ⟨sameSettings_create config, by simp [startPool, RelayServer.create],
        by simp [startPool, RelayServer.create]⟩
    · intro t ht se heq
      rw [List.eq_of_mem_replicate ht] at heq
      cases heq
  refine ⟨fun kind => room_limit ?_ h, fun pubkey => room_limit ?_ h, hsizes.1.total,
    hsizes.1.size, fun hint pubkey => ?_⟩
  · intro s hs se hq hroom
    have hlt := (RelayServer.canStoreEvent_iff.mp hroom).2.2.1
    rwa [of_decide_eq_true hq, hs.perKind] at hlt
  · intro s hs se hq hroom
    have hlt := (RelayServer.canStoreEvent_iff.mp hroom).2.2.2
    rwa [of_decide_eq_true hq, hs.perPubkey] at hlt
  · have hlength : (startPool config n).threads.length = n := List.length_replicate
    have hgate : Pool.Gate (SessionStep lib) Maintenance (SameSettings config)
        (fun s => (s.timestamps pubkey).length) (Task.pendingRate pubkey)
        config.rateLimitEvents.toNat
        (config.rateLimitEvents.toNat + ((startPool config n).threads.length - 1)) :=
      rate_gate (by rwa [hlength])
    have hcount := hgate.count_le h (sameSettings_create config)
      (by simp [startPool, RelayServer.create, RelayServer.timestamps, Task.pendingRate])
    rw [hlength] at hcount
    omega

/-- One event of a kind is allowed and one in a minute, and two sessions store one each. -/
theorem concurrent_limits_two :
    ∃ p, Reachable (RelayStep Json.codec)
        (startPool { maxEventsPerKind := 1, rateLimitEvents := 1 } 2) p ∧
      p.shared.events = List.replicate 2 ⟨lit "a", [], 42, [], [], 0, [], 30⟩ ∧
      (∀ kind, p.shared.events.countP (fun e => e.kind = kind) ≤ 1 + 1) ∧
      ∀ pubkey, (p.shared.timestamps pubkey).length ≤ 1 + 1 := by
  let s := RelayServer.create { maxEventsPerKind := 1, rateLimitEvents := 1 }
  let se : StoredEvent := ⟨lit "a", [], 42, [], [], 0, [], 30⟩
  have hunder : (s.checkRateLimit se.pubkey 100).1 = true := by decide
  have hroom : s.canStoreEvent se = true := by
    rw [RelayServer.canStoreEvent_iff]
    simp [s, se, RelayServer.create]
  have hnew : Unstored s se.pubkey 100 s := ⟨rfl, rfl, rfl⟩
  have hfirst : Reachable (RelayStep Json.codec) ⟨[] ++ .done :: [.done], s⟩
      ⟨[] ++ .roomChecked se :: [.done], s.touch se.pubkey 100⟩ :=
    reachable_roomChecked readsAs_small ⟨rfl, rfl⟩ hunder hroom hnew
  have hsecond : Reachable (RelayStep Json.codec)
      ⟨[.roomChecked se] ++ .done :: [], s.touch se.pubkey 100⟩
      ⟨[.roomChecked se] ++ .roomChecked se :: [],
        (s.touch se.pubkey 100).touch se.pubkey 100⟩ :=
    reachable_roomChecked readsAs_small ⟨rfl, rfl⟩ hunder hroom hnew.touch
  have hstored : ∀ u, Reachable (RelayStep Json.codec)
      ⟨[] ++ .roomChecked se :: [.roomChecked se], u⟩
      ⟨[] ++ .done :: [.roomChecked se], (u.storeEvent se).recordEvent se.pubkey 100⟩ :=
    fun u => reachable_recorded u
  have hboth : ∀ u, Reachable (RelayStep Json.codec) ⟨[.done] ++ .roomChecked se :: [], u⟩
      ⟨[.done] ++ .done :: [], (u.storeEvent se).recordEvent se.pubkey 100⟩ :=
    fun u => reachable_recorded u
  have hrun := ((hfirst.trans hsecond).trans (hstored _)).trans (hboth _)
  have hlimits := concurrent_limits Json.codec _ 2 _ hrun
  exact ⟨_, hrun, rfl, hlimits.1, hlimits.2.2.2.2 (by decide)⟩

end limits

/-! ## The worst schedule -/

/-- The bound on the quotas is reached: as long as the store as a whole has room, all sessions
that send an event at the same time get it stored where there is room for one. -/
theorem overshoot_reached (lib : JsonText) (s : RelayServer) (raw : Bytes) (se : StoredEvent)
    (now : UInt64) (n : Nat) (hread : ReadsAs lib raw se) (hopen : Open s se)
    (hrate : (s.checkRateLimit se.pubkey now).1 = true) (hroom : s.canStoreEvent se = true)
    (htotal : s.events.length + n ≤ s.config.maxTotalEvents) :
    ∃ p, Reachable (RelayStep lib) ⟨List.replicate n .done, s⟩ p ∧
      p.threads = List.replicate n .done ∧
      p.shared.events = s.events ++ List.replicate n se := by
  -- all of them check before any of them stores
  have hcheck : ∀ k u, k < n → Unstored s se.pubkey now u →
      ∃ u', Unstored s se.pubkey now u' ∧ ∀ before after,
        Reachable (RelayStep lib) ⟨before ++ .done :: after, u⟩
          ⟨before ++ .roomChecked se :: after, u'⟩ := by
    intro _ u _ hu
    exact ⟨_, hu.touch, fun _ _ => reachable_roomChecked hread hopen hrate hroom hu⟩
  have hstore : ∀ k u, k < n →
      u.config = s.config ∧ u.events = s.events ++ List.replicate k se →
      ∃ u', (u'.config = s.config ∧ u'.events = s.events ++ List.replicate (k + 1) se) ∧
        ∀ before after, Reachable (RelayStep lib) ⟨before ++ .roomChecked se :: after, u⟩
          ⟨before ++ .done :: after, u'⟩ := by
    intro k u hk hu
    obtain ⟨hc, he⟩ := hu
    have hlength : u.events.length < u.config.maxTotalEvents := by
      rw [hc, he, List.length_append, List.length_replicate]
      omega
    have hevents : (u.storeEvent se).events = s.events ++ List.replicate (k + 1) se := by
      rw [RelayServer.storeEvent, RelayServer.evict_of_lt hlength, he, List.append_assoc,
        ← List.replicate_succ']
    exact ⟨(u.storeEvent se).recordEvent se.pubkey now, ⟨hc, hevents⟩,
      fun _ _ => reachable_recorded u⟩
  obtain ⟨u, hu, hchecked⟩ := Pool.exists_sweep hcheck ⟨rfl, rfl, rfl⟩
  obtain ⟨u', hu', hstored⟩ := Pool.exists_sweep hstore
    ⟨hu.config, by rw [hu.events, List.replicate_zero, List.append_nil]⟩
  exact ⟨⟨_, u'⟩, hchecked.trans hstored, rfl, hu'.2⟩

/-- Two sessions send the same event when one may be stored, and both are. -/
theorem overshoot_two :
    ∃ p, Reachable (RelayStep Json.codec)
        ⟨[.done, .done], .create { maxEventsPerKind := 1 }⟩ p ∧
      p.threads = [.done, .done] ∧
      p.shared.events = List.replicate 2 ⟨lit "a", [], 42, [], [], 0, [], 30⟩ := by
  have hunder : ((RelayServer.create { maxEventsPerKind := 1 }).checkRateLimit [] 100).1 = true := by
    decide
  have hroom : (RelayServer.create { maxEventsPerKind := 1 }).canStoreEvent
      ⟨lit "a", [], 42, [], [], 0, [], 30⟩ = true := by
    rw [RelayServer.canStoreEvent_iff]
    simp [RelayServer.create]
  exact overshoot_reached Json.codec _ _ _ 100 2 readsAs_small ⟨rfl, rfl⟩ hunder hroom (by decide)

end LinuxLive.Relay
