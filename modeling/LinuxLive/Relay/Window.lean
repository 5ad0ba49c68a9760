import Mathlib.Algebra.Order.Group.Int
import LinuxLive.Lib.SlidingWindow
import LinuxLive.Relay.Acknowledge
import LinuxLive.Relay.RateLimit

/-!
# The rate limiter over a run

The deque of every key against all timestamps ever recorded for it, in serial runs whose
clock readings do not decrease.
-/

namespace LinuxLive.Relay

open SlidingWindow

/-- A frame, and the readings of `check_rate_limit` and `record_event` while it is handled. -/
structure Message where
  session : ClientSession
  rawMsg : Bytes
  checkedAt : UInt64
  recordedAt : UInt64

namespace Message

def handle (lib : JsonText) (s : RelayServer) (m : Message) : RelayServer :=
  (handleClientMessage lib s m.session m.rawMsg m.checkedAt m.recordedAt).server

/-- An event of the key is stored; `record_event` follows every `store_event`. -/
def Records (lib : JsonText) (s : RelayServer) (m : Message) (pubkey : Bytes) : Prop :=
  ∃ se, ReadsAs lib m.rawMsg se ∧ se.pubkey = pubkey ∧ (m.handle lib s).events = s.events ++ [se]

end Message

def serve (lib : JsonText) (s : RelayServer) (messages : List Message) : RelayServer :=
  messages.foldl (Message.handle lib) s

noncomputable def history (lib : JsonText) (pubkey : Bytes) :
    RelayServer → List Message → List UInt64
  | _, [] => []
  | s, m :: messages =>
      open Classical in
      (if m.Records lib s pubkey then [m.recordedAt] else []) ++
        history lib pubkey (m.handle lib s) messages

def readings (messages : List Message) : List UInt64 :=
  messages.flatMap fun m => [m.checkedAt, m.recordedAt]

/-- The limiter answers at `now` by what was recorded in the last `w` seconds, its popping
changes no answer, and no window of `w` seconds holds more than the limit. -/
structure IsSlidingWindow (config : RelayConfig) (s : RelayServer) (recorded : Bytes → List UInt64)
    (now : UInt64) : Prop where
  answer : ∀ pubkey, (s.checkRateLimit pubkey now).1 = true ↔
    ((recorded pubkey).countP fun t =>
      (now.toNat : Int) - config.rateLimitWindowSeconds ≤ t.toNat) < config.rateLimitEvents
  popping : ∀ pubkey key later, now ≤ later →
    ((s.checkRateLimit pubkey now).2.checkRateLimit key later).1 = (s.checkRateLimit key later).1
  others : ∀ pubkey key, key ≠ pubkey →
    (s.checkRateLimit pubkey now).2.timestamps key = s.timestamps key
  bounded : ∀ pubkey (t : Int),
    ((recorded pubkey).countP fun x =>
      t ≤ x.toNat ∧ (x.toNat : Int) ≤ t + config.rateLimitWindowSeconds) ≤ config.rateLimitEvents

/-! ## One message -/

section message

variable {lib : JsonText} {s : RelayServer} {m : Message} {pubkey : Bytes}

theorem config_handle (lib : JsonText) (s : RelayServer) (m : Message) :
    (m.handle lib s).config = s.config := by
  unfold Message.handle
  rcases handleClientMessage_server lib s m.session m.rawMsg m.checkedAt m.recordedAt with
    h | ⟨_, h⟩ | ⟨_, _, _, h⟩
  · rw [h]
  · rw [h]
    rfl
  · rw [h, storeIfRoom_config]
    rfl

theorem timestamps_storeIfRoom (s : RelayServer) (se : StoredEvent) (now : UInt64) (key : Bytes) :
    (s.storeIfRoom se now).timestamps key =
      if s.canStoreEvent se = true ∧ key = se.pubkey then s.timestamps key ++ [now]
      else s.timestamps key := by
  unfold RelayServer.storeIfRoom
  by_cases hroom : s.canStoreEvent se = true
  · by_cases hkey : key = se.pubkey
    · simp [hroom, hkey]
    · simp [hroom, hkey]
  · simp [hroom]

theorem timestamps_of_records (h : m.Records lib s pubkey) :
    (m.handle lib s).timestamps pubkey = s.fresh pubkey m.checkedAt ++ [m.recordedAt] ∧
      s.underLimit (s.fresh pubkey m.checkedAt).length = true := by
  obtain ⟨se, hread, rfl, happ⟩ := h
  obtain ⟨hpass, hroom⟩ := (appends_iff hread).mp ⟨se, hread, happ⟩
  refine ⟨?_, hpass.underLimit⟩
  unfold Message.handle at happ ⊢
  rcases handleClientMessage_server lib s m.session m.rawMsg m.checkedAt m.recordedAt with
    h | ⟨_, h⟩ | ⟨se', hread', _, h⟩
  · rw [h] at happ
    simp at happ
  · rw [h] at happ
    simp at happ
  · obtain rfl := hread.unique hread'
    have hchecked : (s.checkRateLimit se.pubkey m.checkedAt).2 = s.touch se.pubkey m.checkedAt := rfl
    rw [h, hchecked, timestamps_storeIfRoom]
    simp [hroom]

theorem timestamps_of_not_records (h : ¬ m.Records lib s pubkey) :
    (m.handle lib s).timestamps pubkey = s.timestamps pubkey ∨
      (m.handle lib s).timestamps pubkey = s.fresh pubkey m.checkedAt := by
  have htouch : ∀ key, (s.touch key m.checkedAt).timestamps pubkey = s.timestamps pubkey ∨
      (s.touch key m.checkedAt).timestamps pubkey = s.fresh pubkey m.checkedAt := by
    intro key
    by_cases hkey : pubkey = key
    · exact .inr (by simp [hkey])
    · exact .inl (by simp [hkey])
  unfold Message.Records Message.handle at h
  unfold Message.handle
  rcases handleClientMessage_server lib s m.session m.rawMsg m.checkedAt m.recordedAt with
    hs | ⟨key, hs⟩ | ⟨se, hread, _, hs⟩
  · exact .inl (by rw [hs])
  · rw [hs]
    exact htouch key
  · have hchecked : (s.checkRateLimit se.pubkey m.checkedAt).2 = s.touch se.pubkey m.checkedAt := rfl
    rw [hs, hchecked] at h ⊢
    have hnot : ¬ ((s.touch se.pubkey m.checkedAt).canStoreEvent se = true ∧ pubkey = se.pubkey) := by
      intro hrecords
      apply h
      refine ⟨se, hread, hrecords.2.symm, ?_⟩
      rw [storeIfRoom_events, if_pos hrecords.1]
      rfl
    rw [timestamps_storeIfRoom, if_neg hnot]
    exact htouch se.pubkey

end message

/-! ## The deque of a key -/

def seconds (t : UInt64) : Int := t.toNat

/-- What a run up to the reading `last` has left of the timestamps of a key. -/
structure Tracks (config : RelayConfig) (s : RelayServer) (pubkey : Bytes) (times : List UInt64)
    (last : UInt64) : Prop where
  limit : s.config.rateLimitEvents = config.rateLimitEvents
  window : s.config.rateLimitWindowSeconds = config.rateLimitWindowSeconds
  sorted : (times.map seconds).Pairwise (· ≤ ·)
  ended : ∀ t ∈ times, seconds t ≤ seconds last
  kept : Keeps (seconds last - config.rateLimitWindowSeconds)
    ((s.timestamps pubkey).map seconds) (times.map seconds)
  length : ((s.timestamps pubkey).length : Int) ≤ config.rateLimitEvents
  admitted : Admitted config.rateLimitEvents.toNat config.rateLimitWindowSeconds
    (times.map seconds)

/-- The window fits before the reading, so that the subtraction does not wrap. -/
structure Fits (config : RelayConfig) (now : UInt64) : Prop where
  nonneg : 0 ≤ config.rateLimitWindowSeconds
  le : config.rateLimitWindowSeconds ≤ seconds now

section tracks

variable {config : RelayConfig} {s : RelayServer} {pubkey key : Bytes} {times : List UInt64}
  {last now later : UInt64}

theorem Fits.mono (h : Fits config now) (hle : seconds now ≤ seconds later) : Fits config later :=
  ⟨h.nonneg, h.le.trans hle⟩

theorem seconds_cutoff (h : Fits s.config now) :
    seconds (s.cutoff now) = seconds now - s.config.rateLimitWindowSeconds := by
  obtain ⟨hnonneg, hle⟩ := h
  have hlt := now.toNat_lt
  unfold seconds at hle ⊢
  unfold RelayServer.cutoff
  rw [UInt64.toNat_sub, UInt64.ofInt, UInt64.toNat_ofNat']
  omega

theorem map_fresh (h : Fits s.config now)
    (hsorted : ((s.timestamps pubkey).map seconds).Pairwise (· ≤ ·)) :
    (s.fresh pubkey now).map seconds =
      recent (seconds now - s.config.rateLimitWindowSeconds)
        ((s.timestamps pubkey).map seconds) := by
  have hold : ∀ t : UInt64, decide (t < s.cutoff now) =
      decide (seconds t < seconds now - s.config.rateLimitWindowSeconds) := by
    intro t
    rw [← seconds_cutoff h]
    unfold seconds
    simp [UInt64.lt_iff_toNat_lt]
  rw [← dropWhile_eq_recent hsorted, List.dropWhile_map]
  unfold RelayServer.fresh RelayServer.popExpired
  simp only [hold]
  rfl

theorem underLimit_iff {n : Nat} (hint : s.config.rateLimitEvents < 2 ^ 31)
    (h : (n : Int) ≤ s.config.rateLimitEvents) :
    s.underLimit n = true ↔ (n : Int) < s.config.rateLimitEvents := by
  have hsmall : (n : Int).bmod (2 ^ 32) = n := Int.bmod_eq_of_le (by omega) (by omega)
  rw [RelayServer.underLimit, hsmall, decide_eq_true_eq]

namespace Tracks

theorem length_fresh (h : Tracks config s pubkey times last) (hfits : Fits config now)
    (hle : seconds last ≤ seconds now) :
    (s.fresh pubkey now).length =
      (recent (seconds now - config.rateLimitWindowSeconds) (times.map seconds)).length := by
  have hfits' : Fits s.config now := ⟨h.window ▸ hfits.nonneg, h.window ▸ hfits.le⟩
  have hkept := h.kept.mono (sub_le_sub_right hle config.rateLimitWindowSeconds)
  have hmap := map_fresh hfits' (h.kept.sorted h.sorted)
  rw [h.window] at hmap
  rw [hkept.recent_eq, ← hmap, List.length_map]

theorem length_fresh_le (h : Tracks config s pubkey times last) :
    ((s.fresh pubkey now).length : Int) ≤ config.rateLimitEvents := by
  have hdrop : (s.fresh pubkey now).length ≤ (s.timestamps pubkey).length :=
    (List.dropWhile_suffix fun t => decide (t < s.cutoff now)).length_le
  have hlength := h.length
  omega

theorem answer (h : Tracks config s pubkey times last) (hfits : Fits config now)
    (hle : seconds last ≤ seconds now) (hint : config.rateLimitEvents < 2 ^ 31) :
    (s.checkRateLimit pubkey now).1 = true ↔
      (times.countP fun t => (now.toNat : Int) - config.rateLimitWindowSeconds ≤ t.toNat) <
        config.rateLimitEvents := by
  have hcount : (times.countP fun t =>
      (now.toNat : Int) - config.rateLimitWindowSeconds ≤ t.toNat) =
      (s.fresh pubkey now).length := by
    rw [h.length_fresh hfits hle, recent, ← List.countP_eq_length_filter, List.countP_map]
    rfl
  rw [RelayServer.checkRateLimit_fst, hcount, underLimit_iff (h.limit ▸ hint)
    (h.limit ▸ h.length_fresh_le), h.limit]

/-- A key that has the old timestamps, or what a check has left of them. -/
theorem pop {s' : RelayServer} (h : Tracks config s pubkey times last) (hfits : Fits config now)
    (hle : seconds last ≤ seconds now) (hconfig : s'.config = s.config)
    (hts : s'.timestamps pubkey = s.timestamps pubkey ∨
      s'.timestamps pubkey = s.fresh pubkey now) : Tracks config s' pubkey times now := by
  have hfits' : Fits s.config now := ⟨h.window ▸ hfits.nonneg, h.window ▸ hfits.le⟩
  have hkept := h.kept.mono (sub_le_sub_right hle config.rateLimitWindowSeconds)
  constructor
  · rw [hconfig, h.limit]
  · rw [hconfig, h.window]
  · exact h.sorted
  · exact fun t ht => (h.ended t ht).trans hle
  · rcases hts with hts | hts
    · rw [hts]
      exact hkept
    · rw [hts, map_fresh hfits' (h.kept.sorted h.sorted), h.window]
      exact hkept.recent_right h.sorted
  · rcases hts with hts | hts
    · rw [hts]
      exact h.length
    · rw [hts]
      exact h.length_fresh_le
  · exact h.admitted

theorem touch (h : Tracks config s pubkey times last) (hfits : Fits config now)
    (hle : seconds last ≤ seconds now) (key : Bytes) :
    Tracks config (s.touch key now) pubkey times now := by
  apply h.pop hfits hle (RelayServer.touch_config (s := s))
  by_cases hkey : pubkey = key
  · exact .inr (by simp [hkey])
  · exact .inl (by simp [hkey])

/-- A timestamp that a check has let in. -/
theorem record {s' : RelayServer} (h : Tracks config s pubkey times last)
    (hfits : Fits config now) (hint : config.rateLimitEvents < 2 ^ 31)
    (hle : seconds last ≤ seconds now) (hlater : seconds now ≤ seconds later)
    (hconfig : s'.config = s.config)
    (hts : s'.timestamps pubkey = s.fresh pubkey now ++ [later])
    (hroom : s.underLimit (s.fresh pubkey now).length = true) :
    Tracks config s' pubkey (times ++ [later]) later := by
  have hroom' : ((s.fresh pubkey now).length : Int) < config.rateLimitEvents := by
    have hlt := (underLimit_iff (h.limit ▸ hint) (h.limit ▸ h.length_fresh_le)).mp hroom
    rwa [h.limit] at hlt
  have hpopped := h.touch hfits hle pubkey
  have hfresh : (s.touch pubkey now).timestamps pubkey = s.fresh pubkey now := by simp
  constructor
  · rw [hconfig, h.limit]
  · rw [hconfig, h.window]
  · rw [List.map_append]
    refine List.pairwise_append.mpr ⟨h.sorted, List.pairwise_singleton _ _, ?_⟩
    intro x hx y hy
    obtain ⟨t, ht, rfl⟩ := List.mem_map.mp hx
    rw [List.mem_singleton.mp hy]
    exact ((h.ended t ht).trans hle).trans hlater
  · intro t ht
    rcases List.mem_append.mp ht with ht | ht
    · exact ((h.ended t ht).trans hle).trans hlater
    · rw [List.mem_singleton.mp ht]
  · have hkept := hpopped.kept.mono (sub_le_sub_right hlater config.rateLimitWindowSeconds)
    rw [hfresh] at hkept
    rw [hts, List.map_append, List.map_append]
    exact hkept.append _
  · rw [hts, List.length_append, List.length_singleton]
    omega
  · rw [List.map_append]
    refine h.admitted.snoc ?_ hlater
    rw [← h.length_fresh hfits hle]
    omega

end Tracks

/-! ## Runs -/

variable {lib : JsonText}

open Classical in
theorem Tracks.handle {m : Message} (h : Tracks config s pubkey times last)
    (hfits : Fits config m.checkedAt) (hint : config.rateLimitEvents < 2 ^ 31)
    (hle : seconds last ≤ seconds m.checkedAt)
    (hlater : seconds m.checkedAt ≤ seconds m.recordedAt) :
    Tracks config (m.handle lib s) pubkey
      (times ++ if m.Records lib s pubkey then [m.recordedAt] else []) m.recordedAt := by
  by_cases hrecords : m.Records lib s pubkey
  · rw [if_pos hrecords]
    obtain ⟨hts, hroom⟩ := timestamps_of_records hrecords
    exact h.record hfits hint hle hlater (config_handle lib s m) hts hroom
  · rw [if_neg hrecords, List.append_nil]
    have hpopped := h.pop hfits hle (config_handle lib s m) (timestamps_of_not_records hrecords)
    exact hpopped.pop (hfits.mono hlater) hlater rfl (.inl rfl)

theorem Tracks.serve (lib : JsonText) {messages : List Message} (h : Tracks config s pubkey times last)
    (hfits : Fits config last) (hint : config.rateLimitEvents < 2 ^ 31)
    (hordered : (last :: readings messages).Pairwise fun t u => seconds t ≤ seconds u) :
    ∃ last', Tracks config (serve lib s messages) pubkey (times ++ history lib pubkey s messages)
      last' ∧ last' ∈ last :: readings messages ∧ Fits config last' := by
  induction messages generalizing s times last with
  | nil => exact ⟨last, by simpa [history, Relay.serve] using h, List.mem_cons_self, hfits⟩
  | cons m messages ih =>
      simp only [readings, List.flatMap_cons, List.cons_append, List.nil_append,
        List.pairwise_cons, List.forall_mem_cons] at hordered
      obtain ⟨⟨hle, _⟩, ⟨hlater, _⟩, hrest, hrests⟩ := hordered
      have hchecked := hfits.mono hle
      obtain ⟨last', htracks, hmem, hfits'⟩ := ih (h.handle hchecked hint hle hlater)
        (hchecked.mono hlater) (List.pairwise_cons.mpr ⟨hrest, hrests⟩)
      refine ⟨last', ?_, ?_, hfits'⟩
      · rw [history, ← List.append_assoc]
        exact htracks
      · rw [readings, List.flatMap_cons]
        exact List.mem_cons_of_mem _ (List.mem_cons_of_mem _ hmem)

theorem tracks_create (config : RelayConfig) (hlimit : 0 ≤ config.rateLimitEvents) (pubkey : Bytes)
    (last : UInt64) : Tracks config (RelayServer.create config) pubkey [] last where
  limit := rfl
  window := rfl
  sorted := .nil
  ended := by simp
  kept := .refl _ _
  length := hlimit
  admitted := .nil

theorem Tracks.isSlidingWindow {recorded : Bytes → List UInt64}
    (h : ∀ pubkey, ∃ last, Tracks config s pubkey (recorded pubkey) last ∧
      seconds last ≤ seconds now)
    (hfits : Fits config now) (hlimit : 0 ≤ config.rateLimitEvents)
    (hint : config.rateLimitEvents < 2 ^ 31) : IsSlidingWindow config s recorded now where
  answer pubkey := by
    obtain ⟨last, htracks, hle⟩ := h pubkey
    exact htracks.answer hfits hle hint
  popping pubkey key later hlater := by
    obtain ⟨last, htracks, hle⟩ := h key
    have hlater' : seconds now ≤ seconds later := by
      unfold seconds
      exact_mod_cast UInt64.le_iff_toNat_le.mp hlater
    have hbefore := htracks.answer (hfits.mono hlater') (hle.trans hlater') hint
    have hafter := (htracks.touch hfits hle pubkey).answer (hfits.mono hlater') hlater' hint
    exact Bool.eq_iff_iff.mpr (hafter.trans hbefore.symm)
  others pubkey key hkey := by
    have hother : (s.touch pubkey now).timestamps key = s.timestamps key := by simp [hkey]
    exact hother
  bounded pubkey t := by
    obtain ⟨last, htracks, _⟩ := h pubkey
    have hlength := htracks.admitted.length_le t
    rw [← List.countP_eq_length_filter, List.countP_map] at hlength
    exact (Int.le_toNat hlimit).mp hlength

end tracks

/-- In every serial run the limiter is a sliding window over all that was recorded; the
limit is an `int`. -/
theorem rate_limit_is_sliding_window (lib : JsonText) (config : RelayConfig)
    (messages : List Message) (now : UInt64)
    (hlimit : 0 ≤ config.rateLimitEvents ∧ config.rateLimitEvents < 2 ^ 31)
    (hordered : (readings messages ++ [now]).Pairwise (· ≤ ·))
    (hwindow : 0 ≤ config.rateLimitWindowSeconds ∧
      ∀ first ∈ (readings messages ++ [now]).head?,
        config.rateLimitWindowSeconds ≤ (first.toNat : Int)) :
    IsSlidingWindow config (serve lib (RelayServer.create config) messages)
      (fun pubkey => history lib pubkey (RelayServer.create config) messages) now := by
  have hseconds : (readings messages ++ [now]).Pairwise fun t u => seconds t ≤ seconds u := by
    apply hordered.imp
    intro t u htu
    unfold seconds
    exact_mod_cast UInt64.le_iff_toNat_le.mp htu
  obtain ⟨first, rest, hreadings⟩ :=
    List.exists_cons_of_ne_nil (List.append_ne_nil_of_right_ne_nil (readings messages)
      (List.cons_ne_nil now []))
  have hfits : Fits config first := ⟨hwindow.1, hwindow.2 first (by simp [hreadings])⟩
  have hfirst : ∀ t ∈ readings messages ++ [now], seconds first ≤ seconds t := by
    rw [hreadings] at hseconds ⊢
    intro t ht
    rcases List.mem_cons.mp ht with rfl | ht
    · exact le_refl _
    · exact (List.pairwise_cons.mp hseconds).1 t ht
  obtain ⟨hruns, _, hnow⟩ := List.pairwise_append.mp hseconds
  have hnow' : ∀ t ∈ first :: readings messages, seconds t ≤ seconds now := by
    intro t ht
    rcases List.mem_cons.mp ht with rfl | ht
    · exact hfirst now (List.mem_append_right _ (List.mem_singleton_self now))
    · exact hnow t ht now (List.mem_singleton_self now)
  refine Tracks.isSlidingWindow ?_ (hfits.mono (hnow' first List.mem_cons_self)) hlimit.1 hlimit.2
  intro pubkey
  obtain ⟨last, htracks, hmem, _⟩ := (tracks_create config hlimit.1 pubkey first).serve
    lib hfits hlimit.2 (List.pairwise_cons.mpr
      ⟨fun t ht => hfirst t (List.mem_append_left _ ht), hruns⟩)
  exact ⟨last, htracks, hnow' last hmem⟩

/-- Two messages, the second one within a minute of the first. -/
def twoMessages : List Message :=
  [⟨⟨0, true, true⟩, lit "[\"EVENT\",\x7b\"kind\":42\x7d]", 100, 101⟩,
    ⟨⟨0, true, true⟩, lit "[\"EVENT\",\x7b\"kind\":42\x7d]", 130, 130⟩]

theorem rate_limit_is_sliding_window_two :
    IsSlidingWindow { rateLimitEvents := 1 }
      (serve Json.codec (RelayServer.create { rateLimitEvents := 1 }) twoMessages)
      (fun pubkey =>
        history Json.codec pubkey (RelayServer.create { rateLimitEvents := 1 }) twoMessages) 162 :=
  rate_limit_is_sliding_window Json.codec { rateLimitEvents := 1 } twoMessages 162 (by decide)
    (by decide) ⟨by decide, by simp [readings, twoMessages]⟩

end LinuxLive.Relay
