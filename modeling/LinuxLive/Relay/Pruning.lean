import Mathlib.Algebra.Ring.Nat
import LinuxLive.Relay.Server

/-!
# Pruning

Which stored events `prune_old_events` keeps.  Its age is a difference of two unsigned
64-bit numbers, so an event from the future has an age just below `2 ^ 64`.
-/

namespace LinuxLive.Relay

/-- The TTLs of a configuration are C++ `int`s. -/
structure IntTtls (config : RelayConfig) : Prop where
  event : config.eventTtlSeconds < 2 ^ 31
  kind : ∀ k seconds, config.kindTtl.lookup k = some seconds → seconds < 2 ^ 31

theorem lookup_insert_of_forall {P : Int → Prop} {table : Finmap fun _ : UInt16 => Int}
    {kind : UInt16} {seconds : Int} (hnew : P seconds)
    (hold : ∀ k n, table.lookup k = some n → P n) :
    ∀ k n, (table.insert kind seconds).lookup k = some n → P n := by
  intro k n h
  by_cases hk : k = kind
  · subst hk
    rw [Finmap.lookup_insert] at h
    exact Option.some.inj h ▸ hnew
  · rw [Finmap.lookup_insert_of_ne _ hk] at h
    exact hold k n h

theorem IntTtls.create {config : RelayConfig} (h : IntTtls config) :
    IntTtls (RelayServer.create config).config where
  event := h.event
  kind := by
    by_cases hempty : config.kindTtl = ∅
    · simp only [RelayServer.create, hempty, if_true]
      have hnone : ∀ k n, (∅ : Finmap fun _ : UInt16 => Int).lookup k = some n → n < 2 ^ 31 := by
        simp
      iterate 7
        apply lookup_insert_of_forall (P := fun n => n < 2 ^ 31)
        · decide
      exact hnone
    · simp only [RelayServer.create, hempty, if_false]
      exact h.kind

theorem intTtls_default : IntTtls { } where
  event := by decide
  kind := by simp

namespace RelayServer

variable {s : RelayServer} {now : UInt64} {e : StoredEvent}

def unexpired (s : RelayServer) (now : UInt64) (e : StoredEvent) : Bool :=
  decide (s.ttl e.kind ≤ 0) || decide ((now.toNat : Int) ≤ e.createdAt.toNat + s.ttl e.kind)

theorem ttl_lt (hint : IntTtls s.config) (kind : UInt16) : s.ttl kind < 2 ^ 31 := by
  unfold ttl
  cases hk : s.config.kindTtl.lookup kind with
  | none => exact hint.event
  | some seconds => exact hint.kind kind seconds hk

/-- The age is the clock reading less `created_at`, plus `2 ^ 64` for an event that is later
than the clock. -/
theorem toNat_age (now createdAt : UInt64) :
    (now - createdAt).toNat =
      if createdAt.toNat ≤ now.toNat then now.toNat - createdAt.toNat
      else 2 ^ 64 + now.toNat - createdAt.toNat := by
  have hnow : now.toNat < 2 ^ 64 := now.toNat_lt
  have hcreated : createdAt.toNat < 2 ^ 64 := createdAt.toNat_lt
  rw [UInt64.toNat_sub]
  split <;> omega

theorem expired_iff (hint : IntTtls s.config) (now : UInt64) (e : StoredEvent) :
    s.expired now e = true ↔
      0 < s.ttl e.kind ∧ s.ttl e.kind < ((now - e.createdAt).toNat : Int) := by
  have hlt := ttl_lt hint e.kind
  unfold expired
  by_cases hpos : s.ttl e.kind ≤ 0
  · simp only [hpos, if_true, Bool.false_eq_true, false_iff]
    omega
  · have htoNat : ((UInt64.ofInt (s.ttl e.kind)).toNat : Int) = s.ttl e.kind := by
      rw [UInt64.ofInt, UInt64.toNat_ofNat']
      omega
    simp only [hpos, if_false, decide_eq_true_eq, UInt64.lt_iff_toNat_lt]
    omega

/-- The code and the rule agree on an event unless it is too far in the future for an unsigned
age, but not far enough for the age to wrap under the TTL. -/
theorem keep_eq_unexpired_iff (hint : IntTtls s.config) :
    (!s.expired now e) = s.unexpired now e ↔
      (0 < s.ttl e.kind → now < e.createdAt →
        2 ^ 64 ≤ (e.createdAt.toNat : Int) - now.toNat + s.ttl e.kind) := by
  have hage := toNat_age now e.createdAt
  have hexpired := expired_iff hint now e
  have hlt := ttl_lt hint e.kind
  have hnow : now.toNat < 2 ^ 64 := now.toNat_lt
  rw [Bool.eq_iff_iff, Bool.not_eq_true', ← Bool.not_eq_true, hexpired, hage,
    UInt64.lt_iff_toNat_lt]
  simp only [unexpired, Bool.or_eq_true, decide_eq_true_eq]
  split <;> omega

theorem filter_eq_filter_iff {α : Type} {p q : α → Bool} {l : List α} :
    l.filter p = l.filter q ↔ ∀ a ∈ l, p a = q a := by
  constructor
  · intro h a ha
    have hmem : a ∈ l.filter p ↔ a ∈ l.filter q := by rw [h]
    simpa [List.mem_filter, ha, ← Bool.eq_iff_iff] using hmem
  · exact fun h => List.filter_congr h

/-- Pruning follows the rule on a store exactly when no stored event with a TTL lies in the
future, or only so far that its age wraps to a small number. -/
theorem pruneOldEvents_follows_ttl_iff (s : RelayServer) (now : UInt64)
    (hint : IntTtls s.config) :
    (s.pruneOldEvents now).events = s.events.filter (s.unexpired now) ↔
      ∀ e ∈ s.events, 0 < s.ttl e.kind → now < e.createdAt →
        2 ^ 64 ≤ (e.createdAt.toNat : Int) - now.toNat + s.ttl e.kind := by
  rw [pruneOldEvents, filter_eq_filter_iff]
  constructor
  · intro h e he
    exact (keep_eq_unexpired_iff hint).mp (h e he)
  · intro h e he
    exact (keep_eq_unexpired_iff hint).mpr (h e he)

/-- A text note whose `created_at` is one second after the clock reading. -/
def earlyEvent : StoredEvent :=
  ⟨lit "e1", lit "author", 1, lit "hi", [], 1700000001, lit "sig", 100⟩

def earlyStore : RelayServer := { create { } with events := [earlyEvent] }

theorem pruneOldEvents_follows_ttl_earlyStore :
    (earlyStore.pruneOldEvents 1700000000).events =
        earlyStore.events.filter (earlyStore.unexpired 1700000000) ↔
      ∀ e ∈ earlyStore.events, 0 < earlyStore.ttl e.kind → 1700000000 < e.createdAt →
        2 ^ 64 ≤ (e.createdAt.toNat : Int) - (1700000000 : UInt64).toNat + earlyStore.ttl e.kind :=
  pruneOldEvents_follows_ttl_iff earlyStore 1700000000 intTtls_default.create

theorem pruneOldEvents_removes_earlyEvent :
    earlyStore.events.filter (earlyStore.unexpired 1700000000) = [earlyEvent] ∧
      (earlyStore.pruneOldEvents 1700000000).events = [] := by
  decide

end RelayServer

end LinuxLive.Relay
