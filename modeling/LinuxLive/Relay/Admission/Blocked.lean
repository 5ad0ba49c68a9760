import LinuxLive.Relay.Threads

/-!
# Two EVENTs at once

Whether the interleavings of two sessions leave the store and the rate limiter as one of
the two serial orders does, and the case in which one of the sessions stores nothing.
-/

namespace LinuxLive.Relay

open Json

/-! ## Statement -/

/-- The two structures that the locked sections change. -/
def SameStore (s t : RelayServer) : Prop :=
  s.events = t.events ∧ s.rateLimitMap = t.rateLimitMap

/-- The server after the two messages, the first one first. -/
def inOrder (lib : JsonText) (s : RelayServer) (session₁ session₂ : ClientSession)
    (raw₁ raw₂ : Bytes) (now : UInt64) : RelayServer :=
  (handleClientMessage lib (handleClientMessage lib s session₁ raw₁ now now).server session₂ raw₂
    now now).server

/-- Every interleaving of the two sessions ends like one of the serial orders. -/
def Serialisable (lib : JsonText) (s : RelayServer) (session₁ session₂ : ClientSession)
    (raw₁ raw₂ : Bytes) (now : UInt64) : Prop :=
  ∀ schedule final,
    Run (Turn (Task.step lib now)) ⟨.received raw₁, .received raw₂, s⟩ schedule final →
    final.left = .done → final.right = .done →
      SameStore final.shared (inOrder lib s session₁ session₂ raw₁ raw₂ now) ∨
      SameStore final.shared (inOrder lib s session₂ session₁ raw₂ raw₁ now)

/-- The message alone would have its event stored. -/
structure Admissible (lib : JsonText) (s : RelayServer) (raw : Bytes) (now : UInt64)
    (se : StoredEvent) : Prop where
  reads : ReadsAs lib raw se
  passes : Passes s se.pubkey se.kind now
  room : s.canStoreEvent se = true

/-- The limits leave room for one event more than the first. -/
structure RoomForBoth (s : RelayServer) (now : UInt64) (se₁ se₂ : StoredEvent) : Prop where
  total : s.events.length + 1 < s.config.maxTotalEvents
  kind : se₁.kind = se₂.kind →
    s.events.countP (fun e => e.kind = se₁.kind) + 1 < s.config.maxEventsPerKind
  pubkey : se₁.pubkey = se₂.pubkey →
    s.events.countP (fun e => e.pubkey = se₁.pubkey) + 1 < s.config.maxEventsPerPubkey
  rate : se₁.pubkey = se₂.pubkey →
    s.underLimit ((s.fresh se₁.pubkey now).length + 1) = true
  /-- A timestamp recorded now has not expired. -/
  recorded : se₁.pubkey = se₂.pubkey → s.fresh se₁.pubkey now = [] → ¬ now < s.cutoff now

theorem step_done (lib : JsonText) (now : UInt64) (s : RelayServer) :
    Task.step lib now .done s = none := rfl

theorem ne_done_of_live {lib : JsonText} {now : UInt64} {t : Task}
    (h : ∃ u, Task.step lib now t u ≠ none) : t ≠ .done := by
  obtain ⟨u, hu⟩ := h
  intro ht
  exact hu (ht ▸ rfl)

theorem Serialisable.swap {lib : JsonText} {s : RelayServer} {session₁ session₂ : ClientSession}
    {raw₁ raw₂ : Bytes} {now : UInt64} (h : Serialisable lib s session₁ session₂ raw₁ raw₂ now) :
    Serialisable lib s session₂ session₁ raw₂ raw₁ now := by
  intro schedule final hrun hleft hright
  exact (h _ _ (run_swap hrun) hright hleft).symm

/-! ## One session that stores nothing -/

section blocked

variable {lib : JsonText} {now : UInt64} {s u u' : RelayServer} {t t' : Task} {raw : Bytes}
  {se : StoredEvent} {pubkey : Bytes}

/-- What holds while nobody else stores: no event is lost, and a test of the room still
stands when the event is stored. -/
structure Calm (s : RelayServer) (t : Task) (u : RelayServer) : Prop where
  config : u.config = s.config
  events : s.events <+: u.events
  room : ∀ se, t = .roomChecked se → u.canStoreEvent se = true

theorem Calm.refl (s : RelayServer) (raw : Bytes) : Calm s (.received raw) s :=
  ⟨rfl, List.prefix_refl _, by simp⟩

theorem Calm.touch (h : Calm s t u) : Calm s t (u.touch pubkey now) :=
  ⟨h.config, h.events, h.room⟩

/-- The first section changes nothing but the rate limiter. -/
theorem receive_calm (lib : JsonText) (now : UInt64) (raw : Bytes) (u : RelayServer) :
    (receive lib raw now u).2.config = u.config ∧ (receive lib raw now u).2.events = u.events ∧
      ∀ se, (receive lib raw now u).1 ≠ .roomChecked se := by
  rcases receive_cases lib now raw u with ⟨se, hread, hopen⟩ | h | ⟨pubkey, h⟩
  · rw [receive_of_readsAs hread hopen]
    refine ⟨rfl, rfl, ?_⟩
    intro se'
    dsimp only
    split <;> simp
  · rw [h u rfl]
    exact ⟨rfl, rfl, by simp⟩
  · rw [h u rfl]
    exact ⟨rfl, rfl, by simp⟩

theorem Calm.step (h : Calm s t u) (hstep : Task.step lib now t u = some (t', u')) :
    Calm s t' u' := by
  obtain ⟨hconfig, hevents, hroom⟩ := h
  cases t with
  | received raw =>
      obtain ⟨hc, he, hne⟩ := receive_calm lib now raw u
      rw [Option.some.inj hstep] at hc he hne
      exact ⟨hc.trans hconfig, he ▸ hevents, fun se hse => absurd hse (hne se)⟩
  | rateChecked se =>
      obtain ⟨ht, rfl⟩ := Prod.mk.inj (Option.some.inj hstep)
      refine ⟨hconfig, hevents, ?_⟩
      intro se' hse'
      rw [hse'] at ht
      split at ht
      · rename_i hcan
        cases ht
        exact hcan
      · cases ht
  | roomChecked se =>
      obtain ⟨rfl, rfl⟩ := Prod.mk.inj (Option.some.inj hstep)
      refine ⟨hconfig, ?_, by simp⟩
      rw [RelayServer.storeEvent_events (hroom se rfl)]
      exact hevents.trans (List.prefix_append _ _)
  | stored se =>
      obtain ⟨rfl, rfl⟩ := Prod.mk.inj (Option.some.inj hstep)
      exact ⟨hconfig, hevents, by simp⟩
  | done => cases hstep

theorem Calm.full (h : Calm s t u) (hfull : s.canStoreEvent se = false) :
    u.canStoreEvent se = false := by
  by_contra hroom
  rw [Bool.not_eq_false, RelayServer.canStoreEvent_iff, h.config] at hroom
  obtain ⟨hsize, htotal, hkind, hpubkey⟩ := hroom
  have hsub := h.events.sublist
  have hlen := hsub.length_le
  have hkinds := hsub.countP_le (p := fun e => e.kind = se.kind)
  have hpubkeys := hsub.countP_le (p := fun e => e.pubkey = se.pubkey)
  have hyes : s.canStoreEvent se = true := by
    rw [RelayServer.canStoreEvent_iff]
    omega
  rw [hfull] at hyes
  cases hyes

/-- Popping a key's expired timestamps commutes with every section but `record_event`,
which is the last one. -/
theorem step_touch (hstep : Task.step lib now t u = some (t', u')) (hne : t' ≠ .done) :
    Task.step lib now t (u.touch pubkey now) = some (t', u'.touch pubkey now) := by
  cases t with
  | received raw =>
      have hreceive : receive lib raw now u = (t', u') := Option.some.inj hstep
      rcases receive_cases lib now raw u with ⟨se, hread, hopen⟩ | h | ⟨key, h⟩
      · have hopen' : Open (u.touch pubkey now) se := hopen.congr rfl
        rw [receive_of_readsAs hread hopen] at hreceive
        obtain ⟨rfl, rfl⟩ := Prod.mk.inj hreceive
        have hunder : ((u.touch pubkey now).checkRateLimit se.pubkey now).1 =
            (u.checkRateLimit se.pubkey now).1 := by
          rw [RelayServer.checkRateLimit_fst, RelayServer.fresh_touch,
            RelayServer.underLimit_congr RelayServer.touch_config, ← RelayServer.checkRateLimit_fst]
        simp only [Task.step, receive_of_readsAs hread hopen', hunder, RelayServer.touch_comm]
      · rw [h u rfl] at hreceive
        exact absurd (Prod.mk.inj hreceive).1.symm hne
      · rw [h u rfl] at hreceive
        exact absurd (Prod.mk.inj hreceive).1.symm hne
  | rateChecked se =>
      obtain ⟨rfl, rfl⟩ := Prod.mk.inj (Option.some.inj hstep)
      rfl
  | roomChecked se =>
      obtain ⟨rfl, rfl⟩ := Prod.mk.inj (Option.some.inj hstep)
      rfl
  | stored se => exact absurd (Prod.mk.inj (Option.some.inj hstep)).1.symm hne
  | done => cases hstep

/-- A session that gets no further than its first section. -/
theorem actsOnce_of_turnedAway {act : RelayServer → RelayServer}
    (hact : act = id ∨ ∃ pubkey, act = fun u => u.touch pubkey now)
    (h : ∀ u : RelayServer, u.config = s.config → receive lib raw now u = (.done, act u)) :
    ActsOnce (Task.step lib now) (.received raw) act (fun q => q = .done) (Calm s) where
  keeps := fun _ _ _ _ hcalm hstep => hcalm.step hstep
  act_keeps := by
    intro t u hcalm
    rcases hact with rfl | ⟨pubkey, rfl⟩
    · exact hcalm
    · exact hcalm.touch
  acts := fun _ u hcalm => ⟨.done, congrArg some (h u hcalm.config), rfl⟩
  quiet := by
    intro t u q q' u' _ hq hstep
    subst hq
    cases hstep
  commutes := by
    intro t u t' u' _ hstep hlive
    rcases hact with rfl | ⟨pubkey, rfl⟩
    · exact hstep
    · exact step_touch hstep (ne_done_of_live hlive)

theorem actsOnce_of_full (hread : ReadsAs lib raw se) (hopen : Open s se)
    (hfull : s.canStoreEvent se = false) :
    ActsOnce (Task.step lib now) (.received raw) (fun u => u.touch se.pubkey now)
      (fun q => q = .done ∨ q = .rateChecked se) (Calm s) where
  keeps := fun _ _ _ _ hcalm hstep => hcalm.step hstep
  act_keeps := fun _ _ hcalm => hcalm.touch
  acts := by
    intro t u hcalm
    refine ⟨_, congrArg some (receive_of_readsAs hread (hopen.congr hcalm.config)), ?_⟩
    split
    · exact .inr rfl
    · exact .inl rfl
  quiet := by
    intro t u q q' u' hcalm hq hstep
    rcases hq with rfl | rfl
    · cases hstep
    · obtain ⟨rfl, rfl⟩ := Prod.mk.inj (Option.some.inj hstep)
      simp [hcalm.full hfull]
  commutes := fun _ _ _ _ _ hstep hlive => step_touch hstep (ne_done_of_live hlive)

def Task.event? : Task → Option StoredEvent
  | .rateChecked se => some se
  | .roomChecked se => some se
  | .stored se => some se
  | _ => none

/-- A key at its rate limit: nobody has got past the check for it. -/
structure Limited (s : RelayServer) (pubkey : Bytes) (now : UInt64) (t : Task) (u : RelayServer) :
    Prop where
  calm : Calm s t u
  limited : u.underLimit (u.fresh pubkey now).length = false
  others : ∀ se, t.event? = some se → se.pubkey ≠ pubkey

theorem Limited.step (h : Limited s pubkey now t u)
    (hstep : Task.step lib now t u = some (t', u')) : Limited s pubkey now t' u' := by
  have hcalm := h.calm.step hstep
  obtain ⟨_, hlimited, hothers⟩ := h
  suffices hrest : u'.underLimit (u'.fresh pubkey now).length = false ∧
      ∀ se, t'.event? = some se → se.pubkey ≠ pubkey from ⟨hcalm, hrest.1, hrest.2⟩
  have htouch : ∀ key, (u.touch key now).underLimit ((u.touch key now).fresh pubkey now).length =
      false := by
    intro key
    rw [RelayServer.fresh_touch, RelayServer.underLimit_congr RelayServer.touch_config, hlimited]
  cases t with
  | received raw =>
      have hreceive : receive lib raw now u = (t', u') := Option.some.inj hstep
      rcases receive_cases lib now raw u with ⟨se, hread, hopen⟩ | h | ⟨key, h⟩
      · rw [receive_of_readsAs hread hopen] at hreceive
        obtain ⟨rfl, rfl⟩ := Prod.mk.inj hreceive
        refine ⟨htouch _, ?_⟩
        intro se' hse' heq
        split at hse'
        · rename_i hunder
          cases hse'
          rw [RelayServer.checkRateLimit_fst, heq, hlimited] at hunder
          cases hunder
        · cases hse'
      · rw [h u rfl] at hreceive
        obtain ⟨rfl, rfl⟩ := Prod.mk.inj hreceive
        exact ⟨hlimited, by simp [Task.event?]⟩
      · rw [h u rfl] at hreceive
        obtain ⟨rfl, rfl⟩ := Prod.mk.inj hreceive
        exact ⟨htouch _, by simp [Task.event?]⟩
  | rateChecked se =>
      obtain ⟨rfl, rfl⟩ := Prod.mk.inj (Option.some.inj hstep)
      refine ⟨hlimited, ?_⟩
      intro se' hse'
      split at hse'
      · exact hothers se' hse'
      · cases hse'
  | roomChecked se =>
      obtain ⟨rfl, rfl⟩ := Prod.mk.inj (Option.some.inj hstep)
      exact ⟨hlimited, hothers⟩
  | stored se =>
      obtain ⟨rfl, rfl⟩ := Prod.mk.inj (Option.some.inj hstep)
      have hne : pubkey ≠ se.pubkey := fun heq => hothers se rfl heq.symm
      refine ⟨?_, by simp [Task.event?]⟩
      have hfresh : (u.recordEvent se.pubkey now).fresh pubkey now = u.fresh pubkey now := by
        have hpop : ∀ ts, (u.recordEvent se.pubkey now).popExpired now ts = u.popExpired now ts :=
          RelayServer.popExpired_congr rfl
        simp only [RelayServer.fresh, hpop, RelayServer.timestamps_recordEvent, if_neg hne]
      rw [hfresh]
      exact hlimited
  | done => cases hstep

theorem actsOnce_of_limited (hread : ReadsAs lib raw se) (hopen : Open s se) :
    ActsOnce (Task.step lib now) (.received raw) (fun u => u.touch se.pubkey now)
      (fun q => q = .done) (Limited s se.pubkey now) where
  keeps := fun _ _ _ _ hlim hstep => hlim.step hstep
  act_keeps := by
    intro t u hlim
    refine ⟨hlim.calm.touch, ?_, hlim.others⟩
    rw [RelayServer.fresh_touch, RelayServer.underLimit_congr RelayServer.touch_config, hlim.limited]
  acts := by
    intro t u hlim
    refine ⟨_, congrArg some (receive_of_readsAs hread (hopen.congr hlim.calm.config)), ?_⟩
    simp [RelayServer.checkRateLimit_fst, hlim.limited]
  quiet := by
    intro t u q q' u' _ hq hstep
    subst hq
    cases hstep
  commutes := fun _ _ _ _ _ hstep hlive => step_touch hstep (ne_done_of_live hlive)

/-- A session that would store nothing alone does nothing but pop timestamps, once. -/
theorem exists_actsOnce (hno : ¬ ∃ se, Admissible lib s raw now se) :
    ∃ act Quiet Inv, ActsOnce (Task.step lib now) (.received raw) act Quiet Inv ∧
      ∀ raw', Inv (.received raw') s := by
  rcases receive_cases lib now raw s with ⟨se, hread, hopen⟩ | h | ⟨pubkey, h⟩
  · cases hfull : s.canStoreEvent se with
    | false => exact ⟨_, _, _, actsOnce_of_full hread hopen hfull, Calm.refl s⟩
    | true =>
        have hlim : s.underLimit (s.fresh se.pubkey now).length = false := by
          by_contra hunder
          rw [Bool.not_eq_false] at hunder
          exact hno ⟨se, hread, ⟨hopen.notBanned, hopen.allowed, hunder⟩, hfull⟩
        exact ⟨_, _, _, actsOnce_of_limited hread hopen,
          fun raw' => ⟨Calm.refl s raw', hlim, by simp [Task.event?]⟩⟩
  · exact ⟨_, _, _, actsOnce_of_turnedAway (.inl rfl)
      (show ∀ u : RelayServer, u.config = s.config → receive lib raw now u = (.done, id u) from h),
      Calm.refl s⟩
  · exact ⟨_, _, _, actsOnce_of_turnedAway (.inr ⟨pubkey, rfl⟩) h, Calm.refl s⟩

/-- With a session that stores nothing, every interleaving is serial. -/
theorem serialisable_of_blocked {session₁ session₂ : ClientSession} {raw₂ : Bytes}
    (hno : ¬ ∃ se, Admissible lib s raw now se) :
    Serialisable lib s session₁ session₂ raw raw₂ now := by
  intro schedule final hrun hleft hright
  obtain ⟨act, Quiet, Inv, honce, hinv⟩ := exists_actsOnce hno
  have hfirst : (handleClientMessage lib s session₁ raw now now).server = act s :=
    honce.solo_act (hinv raw₂) (solo_handleClientMessage lib s session₁ raw now)
      (step_done lib now)
  have hdone : ∀ {t : Task}, t = .done → ∀ u, Task.step lib now t u = none := by
    intro t ht u
    rw [ht, step_done]
  rcases honce.reduce hrun rfl (hinv raw₂) (hdone hleft) (hdone hright) with
    hsolo | ⟨u, hsolo, hu⟩
  · have hserial := solo_handleClientMessage lib (act s) session₂ raw₂ now
    have heq := (hsolo.unique hserial (hdone hright) (step_done lib now)).2
    left
    rw [heq, inOrder, hfirst]
    exact ⟨rfl, rfl⟩
  · have hserial := solo_handleClientMessage lib s session₂ raw₂ now
    obtain ⟨ht, heq⟩ := hsolo.unique hserial (hdone hright) (step_done lib now)
    have hafter : Inv .done u := ht ▸ honce.keeps_solo hsolo (hinv raw₂)
    have hlast := honce.solo_act hafter (solo_handleClientMessage lib u session₁ raw now)
      (step_done lib now)
    right
    rw [hu, ← hlast, inOrder, ← heq]
    exact ⟨rfl, rfl⟩

end blocked

end LinuxLive.Relay
