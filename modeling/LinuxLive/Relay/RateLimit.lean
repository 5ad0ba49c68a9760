import Mathlib.Data.List.DropRight
import LinuxLive.Relay.Server

/-!
# The rate limiter

What a check and a record do to the timestamps of every key, and how several of them at
one clock reading combine.
-/

namespace LinuxLive.Relay

namespace RelayServer

variable {s : RelayServer} {now : UInt64} {pubkey key : Bytes} {se : StoredEvent}

/-- What `check_rate_limit` does to the map, whatever it answers. -/
def touch (s : RelayServer) (pubkey : Bytes) (now : UInt64) : RelayServer :=
  (s.checkRateLimit pubkey now).2

def fresh (s : RelayServer) (pubkey : Bytes) (now : UInt64) : List UInt64 :=
  s.popExpired now (s.timestamps pubkey)

theorem checkRateLimit_fst :
    (s.checkRateLimit pubkey now).1 = s.underLimit (s.fresh pubkey now).length := rfl

@[simp] theorem touch_config : (s.touch pubkey now).config = s.config := rfl

@[simp] theorem touch_events : (s.touch pubkey now).events = s.events := rfl

@[simp] theorem canStoreEvent_touch :
    (s.touch pubkey now).canStoreEvent se = s.canStoreEvent se := rfl

theorem lookup_touch : (s.touch pubkey now).rateLimitMap.lookup key =
    if key = pubkey then some (s.fresh pubkey now) else s.rateLimitMap.lookup key := by
  by_cases hk : key = pubkey
  · subst hk
    simp [touch, checkRateLimit, fresh]
  · simp [touch, checkRateLimit, hk]

theorem lookup_recordEvent : (s.recordEvent pubkey now).rateLimitMap.lookup key =
    if key = pubkey then some (s.timestamps pubkey ++ [now]) else s.rateLimitMap.lookup key := by
  by_cases hk : key = pubkey
  · subst hk
    simp [recordEvent]
  · simp [recordEvent, hk]

@[simp] theorem timestamps_touch : (s.touch pubkey now).timestamps key =
    if key = pubkey then s.fresh pubkey now else s.timestamps key := by
  unfold timestamps
  rw [lookup_touch]
  split <;> rfl

@[simp] theorem timestamps_recordEvent : (s.recordEvent pubkey now).timestamps key =
    if key = pubkey then s.timestamps pubkey ++ [now] else s.timestamps key := by
  unfold timestamps
  rw [lookup_recordEvent]
  split <;> rfl

@[simp] theorem timestamps_storeEvent : (s.storeEvent se).timestamps key = s.timestamps key := rfl

theorem popExpired_congr {u : RelayServer} (hc : u.config = s.config) (ts : List UInt64) :
    u.popExpired now ts = s.popExpired now ts := by
  unfold popExpired cutoff
  rw [hc]

theorem underLimit_congr {u : RelayServer} (hc : u.config = s.config) (n : Nat) :
    u.underLimit n = s.underLimit n := by
  unfold underLimit
  rw [hc]

theorem popExpired_fresh : s.popExpired now (s.fresh pubkey now) = s.fresh pubkey now :=
  List.dropWhile_idempotent _ _

/-- A second check at the same reading pops nothing more. -/
@[simp] theorem fresh_touch : (s.touch pubkey now).fresh key now = s.fresh key now := by
  have hpop : ∀ ts, (s.touch pubkey now).popExpired now ts = s.popExpired now ts :=
    popExpired_congr rfl
  simp only [fresh, hpop, timestamps_touch]
  split
  · rename_i hk
    subst hk
    exact popExpired_fresh
  · rfl

theorem touch_comm (p q : Bytes) :
    (s.touch p now).touch q now = (s.touch q now).touch p now := by
  have hmap : ((s.touch p now).touch q now).rateLimitMap =
      ((s.touch q now).touch p now).rateLimitMap := by
    apply Finmap.ext_lookup
    intro k
    simp only [lookup_touch, fresh_touch]
    by_cases hq : k = q <;> by_cases hp : k = p <;> simp_all
  simp only [touch, checkRateLimit] at hmap ⊢
  simp only [hmap]

/-- What was recorded at the present reading stays, unless it has expired at once. -/
theorem popExpired_fresh_append {n : Nat}
    (h : n ≠ 0 → s.fresh pubkey now = [] → ¬ now < s.cutoff now) :
    s.popExpired now (s.fresh pubkey now ++ List.replicate n now) =
      s.fresh pubkey now ++ List.replicate n now := by
  have hpop : s.popExpired now (s.fresh pubkey now) = s.fresh pubkey now := popExpired_fresh
  cases hf : s.fresh pubkey now with
  | nil =>
      cases n with
      | zero => rfl
      | succ n =>
          have hlive := h (Nat.succ_ne_zero n) hf
          simp [popExpired, List.replicate_succ, hlive]
  | cons t ts =>
      have hlive : ¬ t < s.cutoff now := by
        intro hlt
        rw [hf] at hpop
        have hlen := congrArg List.length hpop
        have hle := (List.dropWhile_suffix (fun t => decide (t < s.cutoff now)) (l := ts)).length_le
        simp [popExpired, hlt] at hlen
        omega
      simp [popExpired, hlive]

end RelayServer

end LinuxLive.Relay
