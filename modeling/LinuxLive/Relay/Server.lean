import Mathlib.Data.Finmap
import Mathlib.Data.Finset.Insert
import LinuxLive.Lib.Bytes

/-!
# The relay's store, quotas and rate limiter

The state of `RelayServer` and the operations that change or read it, one
definition for each function.  Clock readings are arguments.  A deque is the list of its
elements from the front, an unordered map a finite map.
-/

namespace LinuxLive.Relay

structure StoredEvent where
  id : Bytes
  pubkey : Bytes
  kind : UInt16
  content : Bytes
  tags : List (List Bytes)
  createdAt : UInt64
  sig : Bytes
  sizeBytes : Nat
  deriving DecidableEq, Repr

structure RelayConfig where
  rateLimitEvents : Int := 30
  rateLimitWindowSeconds : Int := 60
  maxEventsPerPubkey : Nat := 100
  maxEventsPerKind : Nat := 10000
  maxTotalEvents : Nat := 100000
  maxEventSizeBytes : Nat := 65536
  eventTtlSeconds : Int := 86400 * 7
  /-- kind -> TTL in seconds, 0 = never expire -/
  kindTtl : Finmap fun _ : UInt16 => Int := ∅
  allowedKinds : Finset UInt16 := ∅
  bannedPubkeys : Finset Bytes := ∅

/-- A `ClientSession` as the relay sees it; `fd` tells two sessions apart. -/
structure ClientSession where
  fd : Nat
  wsHandshakeDone : Bool
  running : Bool
  deriving DecidableEq, Repr

structure RelayServer where
  config : RelayConfig
  /-- `sessions_`, each accepted connection once. -/
  sessions : List ClientSession
  sessions_nodup : (sessions.map ClientSession.fd).Nodup
  events : List StoredEvent
  rateLimitMap : Finmap fun _ : Bytes => List UInt64

namespace RelayServer

/-- The constructor with its defaults for an empty kind list and an empty TTL map. -/
def create (config : RelayConfig) : RelayServer where
  config :=
    { config with
      allowedKinds :=
        if config.allowedKinds = ∅ then {1, 42, 30019, 30020, 30079, 30080}
        else config.allowedKinds
      kindTtl :=
        if config.kindTtl = ∅ then
          ((((((((∅ : Finmap fun _ : UInt16 => Int).insert 30079 0).insert 30080 0).insert
            30019 (86400 * 90)).insert 30020 (86400 * 90)).insert 0 (86400 * 30)).insert
            42 (86400 * 7)).insert 1 (86400 * 7))
        else config.kindTtl }
  sessions := []
  sessions_nodup := List.nodup_nil
  events := []
  rateLimitMap := ∅

def isEventAllowed (s : RelayServer) (kind : UInt16) : Bool := decide (kind ∈ s.config.allowedKinds)

def allowEventKind (s : RelayServer) (kind : UInt16) : RelayServer :=
  { s with config := { s.config with allowedKinds := insert kind s.config.allowedKinds } }

def isPubkeyBanned (s : RelayServer) (pubkey : Bytes) : Bool :=
  decide (pubkey ∈ s.config.bannedPubkeys)

def banPubkey (s : RelayServer) (pubkey : Bytes) : RelayServer :=
  { s with config := { s.config with bannedPubkeys := insert pubkey s.config.bannedPubkeys } }

/-! ## Rate limiter -/

/-- `now - config_.rate_limit_window_seconds` in unsigned 64-bit arithmetic. -/
def cutoff (s : RelayServer) (now : UInt64) : UInt64 :=
  now - UInt64.ofInt s.config.rateLimitWindowSeconds

/-- The timestamps of a key; a missing entry reads as an empty deque. -/
def timestamps (s : RelayServer) (pubkey : Bytes) : List UInt64 :=
  (s.rateLimitMap.lookup pubkey).getD []

/-- The loop that pops expired timestamps off the front. -/
def popExpired (s : RelayServer) (now : UInt64) (ts : List UInt64) : List UInt64 :=
  ts.dropWhile fun t => decide (t < s.cutoff now)

/-- `(int)timestamps.size() >= config_.rate_limit_events`, negated. -/
def underLimit (s : RelayServer) (size : Nat) : Bool :=
  decide ((size : Int).bmod (2 ^ 32) < s.config.rateLimitEvents)

def checkRateLimit (s : RelayServer) (pubkey : Bytes) (now : UInt64) : Bool × RelayServer :=
  let ts := s.popExpired now (s.timestamps pubkey)
  (s.underLimit ts.length, { s with rateLimitMap := s.rateLimitMap.insert pubkey ts })

def recordEvent (s : RelayServer) (pubkey : Bytes) (now : UInt64) : RelayServer :=
  { s with rateLimitMap := s.rateLimitMap.insert pubkey (s.timestamps pubkey ++ [now]) }

/-! ## Store -/

def canStoreEvent (s : RelayServer) (event : StoredEvent) : Bool :=
  if s.config.maxEventSizeBytes < event.sizeBytes then false
  else if s.config.maxTotalEvents ≤ s.events.length then false
  else if s.config.maxEventsPerKind ≤ s.events.countP (fun e => e.kind = event.kind) then false
  else if s.config.maxEventsPerPubkey ≤ s.events.countP (fun e => e.pubkey = event.pubkey) then
    false
  else true

/-- The eviction loop of `store_event`. -/
def evict (maxTotal : Nat) : List StoredEvent → List StoredEvent
  | [] => []
  | e :: es => if maxTotal ≤ (e :: es).length then evict maxTotal es else e :: es

def storeEvent (s : RelayServer) (event : StoredEvent) : RelayServer :=
  { s with events := evict s.config.maxTotalEvents s.events ++ [event] }

def ttl (s : RelayServer) (kind : UInt16) : Int :=
  (s.config.kindTtl.lookup kind).getD s.config.eventTtlSeconds

def expired (s : RelayServer) (now : UInt64) (e : StoredEvent) : Bool :=
  if s.ttl e.kind ≤ 0 then false
  else decide (UInt64.ofInt (s.ttl e.kind) < now - e.createdAt)

def pruneOldEvents (s : RelayServer) (now : UInt64) : RelayServer :=
  { s with events := s.events.filter fun e => !s.expired now e }

def deleteEventsByPubkey (s : RelayServer) (pubkey : Bytes) : RelayServer :=
  { s with events := s.events.filter fun e => !decide (e.pubkey = pubkey) }

def deleteEventById (s : RelayServer) (eventId : Bytes) : RelayServer :=
  { s with events := s.events.filter fun e => !decide (e.id = eventId) }

/-! ## What each operation leaves alone -/

section frames

variable (s : RelayServer) (pubkey : Bytes) (now : UInt64) (event : StoredEvent)

@[simp] theorem checkRateLimit_config : (s.checkRateLimit pubkey now).2.config = s.config := rfl

@[simp] theorem checkRateLimit_sessions :
    (s.checkRateLimit pubkey now).2.sessions = s.sessions := rfl

@[simp] theorem checkRateLimit_events : (s.checkRateLimit pubkey now).2.events = s.events := rfl

@[simp] theorem recordEvent_config : (s.recordEvent pubkey now).config = s.config := rfl

@[simp] theorem recordEvent_sessions : (s.recordEvent pubkey now).sessions = s.sessions := rfl

@[simp] theorem recordEvent_events : (s.recordEvent pubkey now).events = s.events := rfl

@[simp] theorem storeEvent_config : (s.storeEvent event).config = s.config := rfl

@[simp] theorem storeEvent_sessions : (s.storeEvent event).sessions = s.sessions := rfl

@[simp] theorem storeEvent_rateLimitMap : (s.storeEvent event).rateLimitMap = s.rateLimitMap := rfl

@[simp] theorem canStoreEvent_checkRateLimit :
    (s.checkRateLimit pubkey now).2.canStoreEvent event = s.canStoreEvent event := rfl

@[simp] theorem canStoreEvent_recordEvent :
    (s.recordEvent pubkey now).canStoreEvent event = s.canStoreEvent event := rfl

end frames

/-! ## Admission to the store -/

theorem canStoreEvent_iff {s : RelayServer} {event : StoredEvent} :
    s.canStoreEvent event = true ↔
      event.sizeBytes ≤ s.config.maxEventSizeBytes ∧
      s.events.length < s.config.maxTotalEvents ∧
      s.events.countP (fun e => e.kind = event.kind) < s.config.maxEventsPerKind ∧
      s.events.countP (fun e => e.pubkey = event.pubkey) < s.config.maxEventsPerPubkey := by
  unfold canStoreEvent
  split
  · simp only [Bool.false_eq_true, false_iff]
    omega
  · split
    · simp only [Bool.false_eq_true, false_iff]
      omega
    · split
      · simp only [Bool.false_eq_true, false_iff]
        omega
      · split
        · simp only [Bool.false_eq_true, false_iff]
          omega
        · simp only [true_iff]
          omega

theorem evict_of_lt {maxTotal : Nat} {es : List StoredEvent} (h : es.length < maxTotal) :
    evict maxTotal es = es := by
  cases es with
  | nil => rfl
  | cons e es => exact if_neg (by omega)

/-- After a successful `can_store_event` the eviction loop removes nothing. -/
theorem storeEvent_events {s : RelayServer} {event : StoredEvent}
    (h : s.canStoreEvent event = true) : (s.storeEvent event).events = s.events ++ [event] := by
  have hroom := (canStoreEvent_iff.mp h).2.1
  simp only [storeEvent, evict_of_lt hroom]

end RelayServer

end LinuxLive.Relay
