import LinuxLive.Lib.JsonCodec
import LinuxLive.Relay.Admission.BothFit

/-!
# Two EVENTs without room for both

The schedule in which both sessions check before either stores, and the exact condition
under which admission is serialisable.
-/

namespace LinuxLive.Relay

open Json

/-! ## The race -/

section race

variable {lib : JsonText} {s : RelayServer} {raw₁ raw₂ : Bytes} {now : UInt64}
  {se₁ se₂ : StoredEvent}

theorem server_of_readsAs (hread : ReadsAs lib raw₁ se₁) (hopen : Open s se₁)
    (session : ClientSession) : (handleClientMessage lib s session raw₁ now now).server =
      if (s.checkRateLimit se₁.pubkey now).1 then (s.touch se₁.pubkey now).storeIfRoom se₁ now
      else s.touch se₁.pubkey now := by
  have hsolo := solo_handleClientMessage lib s session raw₁ now
  have hreceive : receive lib raw₁ now s = _ := receive_of_readsAs hread hopen
  refine (hsolo.unique ?_ (step_done lib now) (step_done lib now)).2
  refine .head (congrArg some hreceive) ?_
  split
  · exact solo_rateChecked lib (s.touch se₁.pubkey now) now se₁
  · exact .refl _ _

theorem server_of_admissible (h : Admissible lib s raw₁ now se₁) (session : ClientSession) :
    (handleClientMessage lib s session raw₁ now now).server =
      ((s.touch se₁.pubkey now).storeEvent se₁).recordEvent se₁.pubkey now := by
  have hopen : Open s se₁ := ⟨h.passes.notBanned, h.passes.allowed⟩
  have hroom : (s.touch se₁.pubkey now).canStoreEvent se₁ = true := h.room
  rw [server_of_readsAs h.reads hopen session, if_pos h.passes.underLimit,
    RelayServer.storeIfRoom, if_pos hroom]

/-- The server after both sessions checked before either stored. -/
def raced (s : RelayServer) (now : UInt64) (se₁ se₂ : StoredEvent) : RelayServer :=
  (((((s.touch se₁.pubkey now).touch se₂.pubkey now).storeEvent se₁).recordEvent se₁.pubkey
    now).storeEvent se₂).recordEvent se₂.pubkey now

/-- Both check the rate, both check the room, then each stores and records. -/
theorem raced_run (h₁ : Admissible lib s raw₁ now se₁) (h₂ : Admissible lib s raw₂ now se₂) :
    ∃ schedule, Run (Turn (Task.step lib now)) ⟨.received raw₁, .received raw₂, s⟩ schedule
      ⟨.done, .done, raced s now se₁ se₂⟩ := by
  have hrate₁ : Task.step lib now (.received raw₁) s =
      some (.rateChecked se₁, s.touch se₁.pubkey now) := by
    have hopen : Open s se₁ := ⟨h₁.passes.notBanned, h₁.passes.allowed⟩
    simp [Task.step, receive_of_readsAs h₁.reads hopen, h₁.passes.underLimit]
  have hrate₂ : Task.step lib now (.received raw₂) (s.touch se₁.pubkey now) =
      some (.rateChecked se₂, (s.touch se₁.pubkey now).touch se₂.pubkey now) := by
    have hopen : Open (s.touch se₁.pubkey now) se₂ :=
      Open.congr ⟨h₂.passes.notBanned, h₂.passes.allowed⟩ RelayServer.touch_config
    have hunder : ((s.touch se₁.pubkey now).checkRateLimit se₂.pubkey now).1 = true := by
      rw [RelayServer.checkRateLimit_fst, RelayServer.fresh_touch,
        RelayServer.underLimit_congr RelayServer.touch_config]
      exact h₂.passes.underLimit
    simp [Task.step, receive_of_readsAs h₂.reads hopen, hunder]
  have hroom₁ := step_rateChecked lib now
    (show ((s.touch se₁.pubkey now).touch se₂.pubkey now).canStoreEvent se₁ = true from h₁.room)
  have hroom₂ := step_rateChecked lib now
    (show ((s.touch se₁.pubkey now).touch se₂.pubkey now).canStoreEvent se₂ = true from h₂.room)
  exact ⟨_, .cons (.left hrate₁) (.cons (.right hrate₂) (.cons (.left hroom₁) (.cons (.right hroom₂)
    (.cons (.left rfl) (.cons (.left rfl) (.cons (.right rfl) (.cons (.right rfl) (.nil _))))))))⟩

def racedLength (s : RelayServer) (now : UInt64) (se₁ se₂ : StoredEvent) : Nat :=
  (s.fresh se₂.pubkey now).length + (if se₁.pubkey = se₂.pubkey then 1 else 0) + 1

theorem length_raced_second :
    ((raced s now se₁ se₂).timestamps se₂.pubkey).length = racedLength s now se₁ se₂ := by
  unfold raced racedLength
  by_cases hsame : se₁.pubkey = se₂.pubkey
  · simp [hsame]
  · simp [hsame, Ne.symm hsame]

theorem length_raced_first :
    ((raced s now se₁ se₂).timestamps se₁.pubkey).length = racedLength s now se₂ se₁ := by
  unfold raced racedLength
  by_cases hsame : se₁.pubkey = se₂.pubkey
  · simp [hsame]
  · simp [hsame, Ne.symm hsame]

section second

variable {u : RelayServer}

theorem timestamps_after_first
    (hu : u = ((s.touch se₁.pubkey now).storeEvent se₁).recordEvent se₁.pubkey now)
    (pubkey : Bytes) : u.timestamps pubkey =
      if pubkey = se₁.pubkey then s.fresh pubkey now ++ [now] else s.timestamps pubkey := by
  rw [hu]
  by_cases hsame : pubkey = se₁.pubkey
  · simp [hsame]
  · simp [hsame]

theorem length_fresh_after_first (se₂ : StoredEvent)
    (hu : u = ((s.touch se₁.pubkey now).storeEvent se₁).recordEvent se₁.pubkey now) :
    (u.fresh se₂.pubkey now).length + 1 ≤ racedLength s now se₁ se₂ := by
  have hpop : ∀ ts, u.popExpired now ts = s.popExpired now ts :=
    RelayServer.popExpired_congr (by rw [hu]; rfl)
  unfold racedLength
  by_cases hsame : se₁.pubkey = se₂.pubkey
  · have hle := (List.dropWhile_suffix (fun t => decide (t < s.cutoff now))
      (l := s.fresh se₂.pubkey now ++ [now])).length_le
    rw [List.length_append, List.length_singleton] at hle
    rw [if_pos hsame, RelayServer.fresh, hpop, timestamps_after_first hu, if_pos hsame.symm]
    exact Nat.succ_le_succ hle
  · rw [if_neg hsame, RelayServer.fresh, hpop, timestamps_after_first hu,
      if_neg (Ne.symm hsame)]
    exact Nat.le_refl _

/-- As many timestamps as after the race means that the recorded one has not expired. -/
theorem recorded_of_length
    (hu : u = ((s.touch se₁.pubkey now).storeEvent se₁).recordEvent se₁.pubkey now)
    (hsame : se₁.pubkey = se₂.pubkey)
    (hlen : racedLength s now se₁ se₂ ≤ (u.fresh se₂.pubkey now).length + 1) :
    s.fresh se₂.pubkey now = [] → ¬ now < s.cutoff now := by
  intro hnil hexpired
  have hpop : ∀ ts, u.popExpired now ts = s.popExpired now ts :=
    RelayServer.popExpired_congr (by rw [hu]; rfl)
  rw [racedLength, if_pos hsame, hnil, RelayServer.fresh, hpop, timestamps_after_first hu,
    if_pos hsame.symm, hnil] at hlen
  simp [RelayServer.popExpired, hexpired] at hlen

/-- If the second of the two in a serial order leaves as many timestamps of its pubkey as
the race does, then there was room for both. -/
theorem roomForBoth_of_inOrder (h₁ : Admissible lib s raw₁ now se₁)
    (h₂ : Admissible lib s raw₂ now se₂) (session₁ session₂ : ClientSession)
    (hlen : racedLength s now se₁ se₂ ≤
      ((inOrder lib s session₁ session₂ raw₁ raw₂ now).timestamps se₂.pubkey).length) :
    RoomForBoth s now se₁ se₂ := by
  obtain ⟨u, hu⟩ : ∃ u, u = ((s.touch se₁.pubkey now).storeEvent se₁).recordEvent se₁.pubkey now :=
    ⟨_, rfl⟩
  have hconfig : u.config = s.config := by
    rw [hu]
    rfl
  have hevents : u.events = s.events ++ [se₁] := by
    rw [hu]
    exact RelayServer.storeEvent_events (s := s.touch se₁.pubkey now) h₁.room
  have hopen : Open u se₂ := Open.congr ⟨h₂.passes.notBanned, h₂.passes.allowed⟩ hconfig
  rw [inOrder, server_of_admissible h₁ session₁, ← hu, server_of_readsAs h₂.reads hopen session₂]
    at hlen
  have hbound := length_fresh_after_first se₂ hu
  have hfresh : ((u.touch se₂.pubkey now).timestamps se₂.pubkey).length =
      (u.fresh se₂.pubkey now).length := by simp
  -- the second event was stored and recorded, or there would be too few timestamps
  split at hlen
  · rename_i hunder
    unfold RelayServer.storeIfRoom at hlen
    split at hlen
    · rename_i hroom
      have hle : racedLength s now se₁ se₂ ≤ (u.fresh se₂.pubkey now).length + 1 := by
        simpa using hlen
      rw [RelayServer.canStoreEvent_touch, RelayServer.canStoreEvent_iff, hconfig, hevents,
        List.length_append, List.countP_append, List.countP_append, List.countP_singleton,
        List.countP_singleton] at hroom
      obtain ⟨_, htotal, hkind, hpubkey⟩ := hroom
      refine ⟨htotal, ?_, ?_, ?_, ?_⟩
      · intro hsame
        simpa [hsame] using hkind
      · intro hsame
        simpa [hsame] using hpubkey
      · intro hsame
        have heq : (u.fresh se₂.pubkey now).length = (s.fresh se₂.pubkey now).length + 1 := by
          unfold racedLength at hle hbound
          rw [if_pos hsame] at hle hbound
          omega
        rw [RelayServer.checkRateLimit_fst, RelayServer.underLimit_congr hconfig, heq] at hunder
        rwa [hsame]
      · intro hsame
        rw [hsame]
        exact recorded_of_length hu hsame hle
    · rw [hfresh] at hlen
      omega
  · rw [hfresh] at hlen
    omega

end second

theorem not_serialisable_of_no_room (h₁ : Admissible lib s raw₁ now se₁)
    (h₂ : Admissible lib s raw₂ now se₂) (hno : ¬ RoomForBoth s now se₁ se₂)
    (session₁ session₂ : ClientSession) :
    ¬ Serialisable lib s session₁ session₂ raw₁ raw₂ now := by
  intro hser
  obtain ⟨_, hrun⟩ := raced_run h₁ h₂
  rcases hser _ _ hrun rfl rfl with ⟨_, hmap⟩ | ⟨_, hmap⟩
  · apply hno
    apply roomForBoth_of_inOrder h₁ h₂ session₁ session₂
    rw [← length_raced_second]
    exact Nat.le_of_eq (congrArg (fun m => ((m.lookup se₂.pubkey).getD []).length) hmap)
  · apply hno
    refine (roomForBoth_of_inOrder h₂ h₁ session₂ session₁ ?_).swap
    rw [← length_raced_first]
    exact Nat.le_of_eq (congrArg (fun m => ((m.lookup se₁.pubkey).getD []).length) hmap)

end race

/-- Two EVENTs at once are serialisable exactly if they do not both get in alone or there is
room for both. -/
theorem serialisable_iff (lib : JsonText) (s : RelayServer) (session₁ session₂ : ClientSession)
    (raw₁ raw₂ : Bytes) (now : UInt64) :
    Serialisable lib s session₁ session₂ raw₁ raw₂ now ↔
      ∀ se₁ se₂, Admissible lib s raw₁ now se₁ → Admissible lib s raw₂ now se₂ →
        RoomForBoth s now se₁ se₂ := by
  constructor
  · intro hser se₁ se₂ h₁ h₂
    by_contra hno
    exact not_serialisable_of_no_room h₁ h₂ hno session₁ session₂ hser
  · intro hroom
    by_cases h₁ : ∃ se₁, Admissible lib s raw₁ now se₁
    · by_cases h₂ : ∃ se₂, Admissible lib s raw₂ now se₂
      · obtain ⟨se₁, h₁⟩ := h₁
        obtain ⟨se₂, h₂⟩ := h₂
        exact serialisable_of_bothFit ⟨h₁, h₂, hroom se₁ se₂ h₁ h₂⟩ session₁ session₂
      · exact (serialisable_of_blocked h₂).swap
    · exact serialisable_of_blocked h₁

/-- Both sessions find the last place free; the second to store evicts the event of the
first, and both are recorded. -/
theorem last_place_race :
    ¬ Serialisable Json.codec (RelayServer.create { maxTotalEvents := 1 })
      ⟨0, true, true⟩ ⟨1, true, true⟩ (lit "[\"EVENT\",\x7b\"id\":\"a\",\"kind\":42\x7d]")
      (lit "[\"EVENT\",\x7b\"id\":\"b\",\"kind\":42\x7d]") 100 := by
  have hopen : ∀ id raw, (∃ rest, Json.codec.parse raw = some (.arr (.str (lit "EVENT") ::
      .obj [(lit "id", .str id), (lit "kind", .int 42)] :: rest))) → raw.length = 30 →
      Admissible Json.codec (RelayServer.create { maxTotalEvents := 1 }) raw 100
        ⟨id, [], 42, [], [], 0, [], 30⟩ := by
    intro id raw hparse hsize
    obtain ⟨rest, hparse⟩ := hparse
    have hunder : ((RelayServer.create { maxTotalEvents := 1 }).checkRateLimit [] 100).1 = true := by
      decide
    refine ⟨⟨_, rest, hparse, rfl, ?_⟩, ⟨rfl, rfl, hunder⟩, ?_⟩
    · rw [hsize]
      rfl
    · rw [RelayServer.canStoreEvent_iff]
      simp [RelayServer.create]
  refine not_serialisable_of_no_room (hopen (lit "a") _ ⟨[], rfl⟩ rfl)
    (hopen (lit "b") _ ⟨[], rfl⟩ rfl) ?_ _ _
  intro hroom
  exact absurd hroom.total (by decide)

end LinuxLive.Relay
