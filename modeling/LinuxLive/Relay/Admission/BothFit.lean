import Mathlib.Data.List.Permutation
import LinuxLive.Relay.Admission.Blocked

/-!
# Two EVENTs with room for both

The shared state in every interleaving as a function of the stages of the two sessions,
up to the order in which they store.
-/

namespace LinuxLive.Relay

/-! ## Stages -/

/-- The stages of a session that has its event stored. -/
inductive Storing (raw : Bytes) (se : StoredEvent) : Task → Prop where
  | received : Storing raw se (.received raw)
  | rateChecked : Storing raw se (.rateChecked se)
  | roomChecked : Storing raw se (.roomChecked se)
  | stored : Storing raw se (.stored se)
  | done : Storing raw se .done

def Task.hasChecked : Task → Bool
  | .received _ => false
  | _ => true

def Task.hasStored : Task → Bool
  | .stored _ => true
  | .done => true
  | _ => false

def Task.hasRecorded (t : Task) : Bool := decide (t = .done)

def Task.inStore (se : StoredEvent) (t : Task) : List StoredEvent :=
  if t.hasStored then [se] else []

def Task.recorded (se : StoredEvent) (key : Bytes) (t : Task) : Nat :=
  if key = se.pubkey ∧ t.hasRecorded = true then 1 else 0

/-- The session has had the timestamps of a key popped. -/
def Task.checks (se : StoredEvent) (key : Bytes) (t : Task) : Bool :=
  decide (key = se.pubkey) && t.hasChecked

/-- Two messages that find room one after the other. -/
structure BothFit (lib : JsonText) (s : RelayServer) (raw₁ raw₂ : Bytes) (now : UInt64)
    (se₁ se₂ : StoredEvent) : Prop where
  first : Admissible lib s raw₁ now se₁
  second : Admissible lib s raw₂ now se₂
  room : RoomForBoth s now se₁ se₂

/-- The shared state as a function of the stages, up to the order in the store. -/
structure BothRun (s : RelayServer) (raw₁ raw₂ : Bytes) (now : UInt64) (se₁ se₂ : StoredEvent)
    (p : Threads Task RelayServer) : Prop where
  left : Storing raw₁ se₁ p.left
  right : Storing raw₂ se₂ p.right
  config : p.shared.config = s.config
  events : ∃ added, p.shared.events = s.events ++ added ∧
    added.Perm (p.left.inStore se₁ ++ p.right.inStore se₂)
  rates : ∀ key, p.shared.rateLimitMap.lookup key =
    if p.left.checks se₁ key || p.right.checks se₂ key then
      some (s.fresh key now ++
        List.replicate (p.left.recorded se₁ key + p.right.recorded se₂ key) now)
    else s.rateLimitMap.lookup key

section both

variable {lib : JsonText} {s : RelayServer} {raw₁ raw₂ : Bytes} {now : UInt64}
  {se₁ se₂ : StoredEvent} {p : Threads Task RelayServer}

theorem RoomForBoth.swap (h : RoomForBoth s now se₁ se₂) : RoomForBoth s now se₂ se₁ where
  total := h.total
  kind := fun heq => heq ▸ h.kind heq.symm
  pubkey := fun heq => heq ▸ h.pubkey heq.symm
  rate := fun heq => heq ▸ h.rate heq.symm
  recorded := fun heq => heq ▸ h.recorded heq.symm

theorem BothFit.swap (h : BothFit lib s raw₁ raw₂ now se₁ se₂) :
    BothFit lib s raw₂ raw₁ now se₂ se₁ := ⟨h.second, h.first, h.room.swap⟩

theorem BothRun.swap (h : BothRun s raw₁ raw₂ now se₁ se₂ p) :
    BothRun s raw₂ raw₁ now se₂ se₁ p.swap where
  left := h.right
  right := h.left
  config := h.config
  events := by
    obtain ⟨added, hevents, hperm⟩ := h.events
    exact ⟨added, hevents, hperm.trans List.perm_append_comm⟩
  rates := by
    intro key
    have hrates := h.rates key
    rw [Bool.or_comm, Nat.add_comm] at hrates
    exact hrates

theorem BothRun.start (s : RelayServer) (raw₁ raw₂ : Bytes) (now : UInt64)
    (se₁ se₂ : StoredEvent) :
    BothRun s raw₁ raw₂ now se₁ se₂ ⟨.received raw₁, .received raw₂, s⟩ where
  left := .received
  right := .received
  config := rfl
  events := ⟨[], by simp, .refl _⟩
  rates := by simp [Task.checks, Task.hasChecked]

theorem recorded_of_not_checks {se : StoredEvent} {key : Bytes} {t : Task}
    (h : t.checks se key = false) : t.recorded se key = 0 := by
  cases t with
  | done =>
      have hne : key ≠ se.pubkey := by simpa [Task.checks, Task.hasChecked] using h
      simp [Task.recorded, hne]
  | _ => simp [Task.recorded, Task.hasRecorded]

/-- Before the left session checks its rate, the timestamps are as many as the other one
has recorded more than there were. -/
theorem BothRun.fresh_left (h : BothRun s raw₁ raw₂ now se₁ se₂ p)
    (hroom : RoomForBoth s now se₁ se₂) (hleft : p.left.hasChecked = false) :
    p.shared.fresh se₁.pubkey now =
      s.fresh se₁.pubkey now ++ List.replicate (p.right.recorded se₂ se₁.pubkey) now := by
  have hrates := h.rates se₁.pubkey
  have hchecks : p.left.checks se₁ se₁.pubkey = false := by
    simp [Task.checks, hleft]
  rw [hchecks, recorded_of_not_checks hchecks, Bool.false_or, Nat.zero_add] at hrates
  have hpop : ∀ ts, p.shared.popExpired now ts = s.popExpired now ts :=
    RelayServer.popExpired_congr h.config
  unfold RelayServer.fresh RelayServer.timestamps
  rw [hpop, hrates]
  cases hright : p.right.checks se₂ se₁.pubkey with
  | true =>
      have hsame : se₁.pubkey = se₂.pubkey := by
        simp only [Task.checks, Bool.and_eq_true, decide_eq_true_eq] at hright
        exact hright.1
      exact RelayServer.popExpired_fresh_append fun _ => hroom.recorded hsame
  | false =>
      simp [recorded_of_not_checks hright]

theorem length_inStore_le (se : StoredEvent) (t : Task) : (t.inStore se).length ≤ 1 := by
  unfold Task.inStore
  split <;> simp

theorem countP_inStore_le {q : StoredEvent → Bool} {n m : Nat} (se : StoredEvent) (t : Task)
    (h : n < m) (hq : q se = true → n + 1 < m) : n + (t.inStore se).countP q < m := by
  unfold Task.inStore
  split
  · rw [List.countP_singleton]
    split
    · rename_i hse
      exact hq hse
    · omega
  · simpa using h

/-- Wherever the other session is, there is room for the event of the left one. -/
theorem BothRun.room_left (h : BothRun s raw₁ raw₂ now se₁ se₂ p)
    (hfit : BothFit lib s raw₁ raw₂ now se₁ se₂) (hleft : p.left.hasStored = false) :
    p.shared.canStoreEvent se₁ = true := by
  obtain ⟨added, hevents, hperm⟩ := h.events
  have hnone : p.left.inStore se₁ = [] := by simp [Task.inStore, hleft]
  rw [hnone, List.nil_append] at hperm
  obtain ⟨hsize, htotal, hkind, hpubkey⟩ := RelayServer.canStoreEvent_iff.mp hfit.first.room
  have hlen := length_inStore_le se₂ p.right
  have hroom := hfit.room.total
  rw [RelayServer.canStoreEvent_iff, h.config, hevents, List.length_append, List.countP_append,
    List.countP_append, hperm.length_eq, hperm.countP_eq, hperm.countP_eq]
  refine ⟨hsize, by omega, ?_, ?_⟩
  · refine countP_inStore_le se₂ p.right hkind fun hk => ?_
    exact hfit.room.kind (of_decide_eq_true hk).symm
  · refine countP_inStore_le se₂ p.right hpubkey fun hk => ?_
    exact hfit.room.pubkey (of_decide_eq_true hk).symm

/-- Wherever the other session is, the left one is under the limit before its check. -/
theorem BothRun.underLimit_left (h : BothRun s raw₁ raw₂ now se₁ se₂ p)
    (hfit : BothFit lib s raw₁ raw₂ now se₁ se₂) (hleft : p.left.hasChecked = false) :
    (p.shared.checkRateLimit se₁.pubkey now).1 = true := by
  rw [RelayServer.checkRateLimit_fst, RelayServer.underLimit_congr h.config,
    h.fresh_left hfit.room hleft, List.length_append, List.length_replicate]
  unfold Task.recorded
  split
  · rename_i hsame
    exact hfit.room.rate hsame.1
  · exact hfit.first.passes.underLimit

theorem BothRun.step_left (h : BothRun s raw₁ raw₂ now se₁ se₂ p)
    (hfit : BothFit lib s raw₁ raw₂ now se₁ se₂) {t' : Task} {u' : RelayServer}
    (hstep : Task.step lib now p.left p.shared = some (t', u')) :
    BothRun s raw₁ raw₂ now se₁ se₂ ⟨t', p.right, u'⟩ := by
  obtain ⟨left, right, u⟩ := p
  have hstage := h.left
  cases hstage with
  | received =>
      have hfresh := h.fresh_left hfit.room rfl
      have hopen : Open u se₁ := Open.congr
        ⟨hfit.first.passes.notBanned, hfit.first.passes.allowed⟩ h.config
      have hunder : (u.checkRateLimit se₁.pubkey now).1 = true := h.underLimit_left hfit rfl
      have hreceive : receive lib raw₁ now u = (t', u') := Option.some.inj hstep
      rw [receive_of_readsAs hfit.first.reads hopen, hunder, if_pos rfl] at hreceive
      obtain ⟨rfl, rfl⟩ := Prod.mk.inj hreceive
      refine ⟨.rateChecked, h.right, h.config, h.events, ?_⟩
      intro key
      rw [RelayServer.lookup_touch, h.rates key, hfresh]
      by_cases hkey : key = se₁.pubkey
      · subst hkey
        simp [Task.checks, Task.recorded, Task.hasChecked, Task.hasRecorded]
      · simp [Task.checks, Task.recorded, hkey]
  | rateChecked =>
      have hroom := h.room_left hfit rfl
      obtain ⟨rfl, rfl⟩ := Prod.mk.inj (Option.some.inj hstep)
      rw [hroom, if_pos rfl]
      exact ⟨.roomChecked, h.right, h.config, h.events, h.rates⟩
  | roomChecked =>
      have hroom := h.room_left hfit rfl
      obtain ⟨rfl, rfl⟩ := Prod.mk.inj (Option.some.inj hstep)
      refine ⟨.stored, h.right, h.config, ?_, h.rates⟩
      obtain ⟨added, hevents, hperm⟩ := h.events
      refine ⟨added ++ [se₁], ?_, ?_⟩
      · rw [RelayServer.storeEvent_events hroom, hevents, List.append_assoc]
      · exact List.perm_append_comm.trans (hperm.cons se₁)
  | stored =>
      obtain ⟨rfl, rfl⟩ := Prod.mk.inj (Option.some.inj hstep)
      refine ⟨.done, h.right, h.config, h.events, ?_⟩
      intro key
      rw [RelayServer.lookup_recordEvent, h.rates key]
      by_cases hkey : key = se₁.pubkey
      · subst hkey
        have hrates := h.rates se₁.pubkey
        simp only [Task.checks, Task.hasChecked, decide_true, Bool.and_true, Bool.true_or,
          if_true] at hrates ⊢
        simp only [RelayServer.timestamps, hrates, Option.getD_some, List.append_assoc]
        simp [Task.recorded, Task.hasRecorded, ← List.replicate_succ', Nat.add_comm]
      · simp [Task.checks, Task.recorded, hkey]
  | done => cases hstep

theorem BothRun.turn {q : Threads Task RelayServer} {b : Bool}
    (hfit : BothFit lib s raw₁ raw₂ now se₁ se₂) (h : BothRun s raw₁ raw₂ now se₁ se₂ p)
    (hturn : Turn (Task.step lib now) p b q) : BothRun s raw₁ raw₂ now se₁ se₂ q := by
  cases hturn with
  | left hstep => exact h.step_left hfit hstep
  | right hstep => exact (h.swap.step_left hfit.swap hstep).swap

structure BothDone (s : RelayServer) (now : UInt64) (se₁ se₂ : StoredEvent) (u : RelayServer) :
    Prop where
  events : u.events = s.events ++ [se₁, se₂] ∨ u.events = s.events ++ [se₂, se₁]
  rates : ∀ key, u.rateLimitMap.lookup key =
    if key = se₁.pubkey ∨ key = se₂.pubkey then
      some (s.fresh key now ++ List.replicate
        ((if key = se₁.pubkey then 1 else 0) + (if key = se₂.pubkey then 1 else 0)) now)
    else s.rateLimitMap.lookup key

theorem BothRun.finished (h : BothRun s raw₁ raw₂ now se₁ se₂ p) (hleft : p.left = .done)
    (hright : p.right = .done) : BothDone s now se₁ se₂ p.shared := by
  constructor
  · obtain ⟨added, hevents, hperm⟩ := h.events
    rw [hleft, hright] at hperm
    rw [hevents]
    rcases List.perm_pair.mp hperm with rfl | rfl
    · exact .inl rfl
    · exact .inr rfl
  · intro key
    have hrates := h.rates key
    rw [hleft, hright] at hrates
    simpa [Task.checks, Task.recorded, Task.hasChecked, Task.hasRecorded] using hrates

theorem BothDone.rateLimitMap_eq {u u' : RelayServer} (h : BothDone s now se₁ se₂ u)
    (h' : BothDone s now se₁ se₂ u') : u.rateLimitMap = u'.rateLimitMap := by
  apply Finmap.ext_lookup
  intro key
  rw [h.rates key, h'.rates key]

theorem events_prefix (lib : JsonText) (s : RelayServer) (session : ClientSession) (raw : Bytes)
    (now : UInt64) :
    s.events <+: (handleClientMessage lib s session raw now now).server.events := by
  rcases handleClientMessage_server lib s session raw now now with h | ⟨_, h⟩ | ⟨se, _, _, h⟩
  · rw [h]
  · rw [h]
    exact List.prefix_refl _
  · rw [h, storeIfRoom_events]
    split
    · exact List.prefix_append _ _
    · exact List.prefix_refl _

theorem inOrder_run (lib : JsonText) (s : RelayServer) (session₁ session₂ : ClientSession)
    (raw₁ raw₂ : Bytes) (now : UInt64) :
    ∃ schedule, Run (Turn (Task.step lib now)) ⟨.received raw₁, .received raw₂, s⟩ schedule
      ⟨.done, .done, inOrder lib s session₁ session₂ raw₁ raw₂ now⟩ := by
  obtain ⟨l, hl⟩ := (solo_handleClientMessage lib s session₁ raw₁ now).run_left
    (r := .received raw₂)
  obtain ⟨m, hm⟩ := (solo_handleClientMessage lib
    (handleClientMessage lib s session₁ raw₁ now now).server session₂ raw₂ now).run_right
    (l := .done)
  exact ⟨l ++ m, hl.append hm⟩

/-- In the serial order both events are in the store, the first message's first. -/
theorem inOrder_events (hfit : BothFit lib s raw₁ raw₂ now se₁ se₂)
    (session₁ session₂ : ClientSession) :
    (inOrder lib s session₁ session₂ raw₁ raw₂ now).events = s.events ++ [se₁, se₂] := by
  obtain ⟨l, hl⟩ := (solo_handleClientMessage lib s session₁ raw₁ now).run_left
    (r := .received raw₂)
  have hfirst := hl.keeps (fun _ _ _ h hturn => h.turn hfit hturn)
    (BothRun.start s raw₁ raw₂ now se₁ se₂)
  obtain ⟨added, hadded, hperm⟩ := hfirst.events
  have hone : added = [se₁] := List.perm_singleton.mp hperm
  obtain ⟨_, hrun⟩ := inOrder_run lib s session₁ session₂ raw₁ raw₂ now
  have hdone := (hrun.keeps (fun _ _ _ h hturn => h.turn hfit hturn)
    (BothRun.start s raw₁ raw₂ now se₁ se₂)).finished rfl rfl
  have hprefix := events_prefix lib (handleClientMessage lib s session₁ raw₁ now now).server
    session₂ raw₂ now
  rcases hdone.events with h | h
  · exact h
  · -- the first event stored is the first message's, so the two events are one
    rw [hadded, hone] at hprefix
    have hsame : [se₁] <+: [se₂, se₁] := by
      have := h ▸ hprefix
      exact (List.prefix_append_right_inj _).mp this
    obtain ⟨_, htail⟩ := hsame
    have hhead : se₁ = se₂ := (List.cons.inj htail).1
    rw [h, hhead]

/-- Two messages that find room one after the other are serialisable. -/
theorem serialisable_of_bothFit (hfit : BothFit lib s raw₁ raw₂ now se₁ se₂)
    (session₁ session₂ : ClientSession) :
    Serialisable lib s session₁ session₂ raw₁ raw₂ now := by
  intro schedule final hrun hleft hright
  have hdone := (hrun.keeps (fun _ _ _ h hturn => h.turn hfit hturn)
    (BothRun.start s raw₁ raw₂ now se₁ se₂)).finished hleft hright
  have hserial : ∀ {q}, (∃ m, Run (Turn (Task.step lib now))
      ⟨.received raw₁, .received raw₂, s⟩ m ⟨.done, .done, q⟩) → BothDone s now se₁ se₂ q := by
    intro q hq
    obtain ⟨_, hq⟩ := hq
    exact (hq.keeps (fun _ _ _ h hturn => h.turn hfit hturn)
      (BothRun.start s raw₁ raw₂ now se₁ se₂)).finished rfl rfl
  rcases hdone.events with h | h
  · left
    exact ⟨h.trans (inOrder_events hfit session₁ session₂).symm,
      hdone.rateLimitMap_eq (hserial (inOrder_run lib s session₁ session₂ raw₁ raw₂ now))⟩
  · right
    obtain ⟨m, hm⟩ := inOrder_run lib s session₂ session₁ raw₂ raw₁ now
    exact ⟨h.trans (inOrder_events hfit.swap session₂ session₁).symm,
      hdone.rateLimitMap_eq (hserial ⟨_, run_swap hm⟩)⟩

end both

end LinuxLive.Relay
