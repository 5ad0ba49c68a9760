import LinuxLive.Relay.Acknowledge

/-!
# The kind gate

The kind of an EVENT is narrowed to 32 and then to 16 bits before it is looked up in
`allowed_kinds`, and the message goes on as it came.  An integer that has not 64 bits is read
as a double, whose conversion to 32 is undefined.
-/

namespace LinuxLive.Relay

open Json

/-- Stored, or sent to a session other than the sender; where a conversion is undefined,
either may happen. -/
def LetThrough (s : RelayServer) (session : ClientSession) (handled : Handled) : Prop :=
  handled.server.events ≠ s.events ∨ (∃ frame ∈ handled.sent, frame.1 ≠ session.fd) ∨
    handled.thrown = some .undefined

/-- An EVENT message whose kind is what the library reads from the text of the integer. -/
def EventOfKind (lib : JsonText) (raw : Bytes) (k : Int) : Prop :=
  ∃ event rest v, lib.parse raw = some (.arr (.str (lit "EVENT") :: event :: rest)) ∧
    event.field? (lit "kind") = some v ∧ lib.parse (intText k) = some v

/-- No relay that allows these kinds admits an event of another kind. -/
def GateKeeps (lib : JsonText) (allowed : Finset UInt16) (k : Int) : Prop :=
  ∀ s session raw checkedAt recordedAt, s.config.allowedKinds = allowed →
    EventOfKind lib raw k →
    LetThrough s session (handleClientMessage lib s session raw checkedAt recordedAt) →
    ∃ kind ∈ allowed, (kind.toNat : Int) = k

/-! ## The kind that is looked up -/

theorem ofInt_bmod (k : Int) : UInt16.ofInt (k.bmod (2 ^ 32)) = UInt16.ofInt k := by
  have hmod : k.bmod (2 ^ 32) % 2 ^ 16 = k % 2 ^ 16 := by
    rw [Int.bmod_def]
    omega
  unfold UInt16.ofInt
  rw [hmod]

theorem toNat_ofInt (k : Int) : ((UInt16.ofInt k).toNat : Int) = k % 2 ^ 16 := by
  unfold UInt16.ofInt
  rw [UInt16.toNat_ofNat']
  omega

theorem fits_of_toNat_eq {kind : UInt16} {k : Int} (h : (kind.toNat : Int) = k) :
    (0 ≤ k ∧ k < 2 ^ 16) ∧ UInt16.ofInt k = kind := by
  have hlt := kind.toNat_lt
  exact ⟨by omega, by rw [← h, ofInt_toNat_uint16]⟩

section gate

variable {lib : JsonText} {s : RelayServer} {session : ClientSession} {event v : Json}
  {raw pubkey : Bytes} {checkedAt recordedAt : UInt64} {kind : UInt16} {k : Int}

theorem eventHead_of_getInt (hfield : event.field? (lit "kind") = some v)
    (hint : v.getInt = .ok (k.bmod (2 ^ 32))) :
    eventHead event =
      (event.value getString (lit "pubkey") []).map fun pubkey => (pubkey, UInt16.ofInt k) := by
  have hkind : event.value getInt (lit "kind") 0 = .ok (k.bmod (2 ^ 32)) :=
    (value_of_field? hfield).trans hint
  unfold eventHead
  rw [hkind]
  cases event.value getString (lit "pubkey") [] with
  | error e => rfl
  | ok pubkey => exact congrArg (fun kind => Except.ok (pubkey, kind)) (ofInt_bmod k)

theorem valueString_ne_undefined (event : Json) (key : Bytes) :
    event.value getString key [] ≠ .error .undefined := by
  cases event with
  | obj fs =>
      rw [Json.value]
      cases fs.lookup key with
      | none => simp
      | some v => cases v <;> simp [getString]
  | _ => simp [Json.value]

/-- What gets past the gate is an allowed kind in its low 16 bits, if it has 64 at all. -/
theorem ofInt_mem_of_letThrough (h : EventOfKind lib raw k) (hfits : -2 ^ 63 ≤ k ∧ k < 2 ^ 64)
    (hthrough : LetThrough s session (handleClientMessage lib s session raw checkedAt recordedAt)) :
    UInt16.ofInt k ∈ s.config.allowedKinds := by
  obtain ⟨event, rest, v, hparse, hfield, hv⟩ := h
  rw [lib.parse_int] at hv
  have hint := getInt_ofInteger hv
  rw [if_pos hfits] at hint
  have hhead := eventHead_of_getInt hfield hint
  rw [handleClientMessage_event hparse] at hthrough
  cases hpubkey : event.value getString (lit "pubkey") [] with
  | error e =>
      rw [hpubkey] at hhead
      rw [handleEvent_of_head_error lib hhead] at hthrough
      have he : e = .undefined := by simpa [LetThrough] using hthrough
      exact absurd (hpubkey.trans (congrArg Except.error he)) (valueString_ne_undefined event _)
  | ok pubkey =>
      rw [hpubkey] at hhead
      by_cases hp : Passes s pubkey (UInt16.ofInt k) checkedAt
      · exact of_decide_eq_true hp.allowed
      · rcases handleEvent_of_not_passes lib recordedAt hhead hp with h | h
        · rw [h] at hthrough
          simp [LetThrough] at hthrough
        · rw [h] at hthrough
          simp [LetThrough] at hthrough

end gate

/-! ## Kinds that get past it -/

def bareMessage (v : Json) : Json := .arr [.str (lit "EVENT"), .obj [(lit "kind", v)]]

theorem canonical_bareMessage {v : Json} (h : v.canonical = true) :
    (bareMessage v).canonical = true := by
  refine canonical_arr.mpr fun x hx => ?_
  rcases List.mem_cons.mp hx with rfl | hx
  · rfl
  · rw [List.mem_singleton.mp hx]
    refine all_obj.mpr ⟨rfl, fun kv hkv => ?_⟩
    rw [List.mem_singleton.mp hkv]
    exact h

theorem utf8_bareMessage {v : Json} (h : v.utf8 = true) : (bareMessage v).utf8 = true := by
  simp [bareMessage, utf8_arr, utf8_obj, h]

def bareEvent (kind : UInt16) (size : Nat) : StoredEvent where
  id := []
  pubkey := []
  kind := kind
  content := []
  tags := []
  createdAt := 0
  sig := []
  sizeBytes := size

section bare

variable {lib : JsonText} {v : Json} {k : Int} {raw : Bytes}

theorem readsAs_bareMessage (hparse : lib.parse raw = some (bareMessage v))
    (hint : v.getInt = .ok (k.bmod (2 ^ 32))) :
    ReadsAs lib raw (bareEvent (UInt16.ofInt k) raw.length) := by
  refine ⟨_, [], hparse, ?_, rfl⟩
  rw [eventHead_of_getInt rfl hint]
  rfl

/-- A relay that has just started, with room for one message of the size. -/
def freshRelay (allowed : Finset UInt16) (size : Nat) : RelayServer :=
  RelayServer.create { allowedKinds := allowed, maxEventSizeBytes := size }

theorem allowedKinds_freshRelay {allowed : Finset UInt16} {kind : UInt16} (h : kind ∈ allowed)
    (size : Nat) : (freshRelay allowed size).config.allowedKinds = allowed :=
  if_neg (Finset.ne_empty_of_mem h)

theorem underLimit_freshRelay (allowed : Finset UInt16) (size : Nat) (pubkey : Bytes)
    (now : UInt64) : ((freshRelay allowed size).checkRateLimit pubkey now).1 = true := by
  have hempty : (freshRelay allowed size).timestamps pubkey = [] := rfl
  have hlimit : (freshRelay allowed size).underLimit 0 = true := by
    show decide (((0 : Nat) : Int).bmod (2 ^ 32) < 30) = true
    decide
  simp only [RelayServer.checkRateLimit, hempty, RelayServer.popExpired, List.dropWhile_nil,
    List.length_nil, hlimit]

theorem appends_bareMessage {allowed : Finset UInt16}
    (hparse : lib.parse raw = some (bareMessage v)) (hint : v.getInt = .ok (k.bmod (2 ^ 32)))
    (hmem : UInt16.ofInt k ∈ allowed) :
    Appends lib (freshRelay allowed raw.length) ⟨0, true, true⟩ raw 0 0 := by
  rw [appends_iff (readsAs_bareMessage hparse hint)]
  refine ⟨⟨rfl, ?_, underLimit_freshRelay _ _ _ _⟩, ?_⟩
  · refine decide_eq_true ?_
    rw [allowedKinds_freshRelay hmem]
    exact hmem
  · simp [RelayServer.canStoreEvent, freshRelay, RelayServer.create, bareEvent]

/-- An undefined conversion comes in front of every check. -/
theorem thrown_bareMessage (s : RelayServer) (session : ClientSession) (checkedAt recordedAt : UInt64)
    (hparse : lib.parse raw = some (bareMessage v)) (hint : v.getInt = .error .undefined) :
    (handleClientMessage lib s session raw checkedAt recordedAt).thrown = some .undefined := by
  have hkind : (Json.obj [(lit "kind", v)]).value getInt (lit "kind") 0 = .error .undefined :=
    (value_of_field? rfl).trans hint
  have hpubkey : (Json.obj [(lit "kind", v)]).value getString (lit "pubkey") [] = .ok [] := rfl
  have hhead : eventHead (.obj [(lit "kind", v)]) = .error .undefined := by
    rw [eventHead, hpubkey, hkind]
    rfl
  rw [handleClientMessage_event hparse, handleEvent_of_head_error lib hhead]

end bare

/-- Of any integer that is read there is a message that the gate does not keep out, unless it
is kept by its own 16 bits or by the others that it is cut to. -/
theorem not_gateKeeps {lib : JsonText} {allowed : Finset UInt16} {k : Int} {v : Json}
    (hv : ofInteger k = some v) (hrange : ¬ (0 ≤ k ∧ k < 2 ^ 16))
    (hmem : -2 ^ 63 ≤ k ∧ k < 2 ^ 64 → UInt16.ofInt k ∈ allowed) : ¬ GateKeeps lib allowed k := by
  intro hkeeps
  obtain ⟨raw, hraw⟩ := lib.dump_of_utf8 none (utf8_bareMessage (utf8_ofInteger hv))
  have hparse := lib.parse_dump _ _ _ (canonical_bareMessage (canonical_ofInteger hv)) hraw
  have hevent : EventOfKind lib raw k := ⟨_, [], v, hparse, rfl, (lib.parse_int k).trans hv⟩
  have hint := getInt_ofInteger hv
  have hadmitted : ∃ s : RelayServer, s.config.allowedKinds = allowed ∧
      LetThrough s ⟨0, true, true⟩ (handleClientMessage lib s ⟨0, true, true⟩ raw 0 0) := by
    split at hint
    · rename_i hfits
      obtain ⟨se, _, hstored⟩ := appends_bareMessage hparse hint (hmem hfits)
      refine ⟨freshRelay allowed raw.length, allowedKinds_freshRelay (hmem hfits) _, .inl ?_⟩
      rw [hstored]
      simp
    · refine ⟨{ RelayServer.create {} with config := { allowedKinds := allowed } }, rfl, ?_⟩
      exact .inr (.inr (thrown_bareMessage _ _ 0 0 hparse hint))
  obtain ⟨s, hallowed, hthrough⟩ := hadmitted
  obtain ⟨kind, _, hkind⟩ := hkeeps s _ raw 0 0 hallowed hevent hthrough
  exact hrange (fits_of_toNat_eq hkind).1

/-- The gate keeps an integer exactly if it has 16 bits, if it has 64 and its low 16 are no
allowed kind either, or if no message can carry it. -/
theorem gateKeeps_iff (lib : JsonText) (allowed : Finset UInt16) (k : Int) :
    GateKeeps lib allowed k ↔
      (0 ≤ k ∧ k < 2 ^ 16) ∨ ((-2 ^ 63 ≤ k ∧ k < 2 ^ 64) ∧ UInt16.ofInt k ∉ allowed) ∨
        2 ^ 1024 - 2 ^ 970 ≤ k.natAbs := by
  rw [← ofInteger_eq_none_iff]
  constructor
  · intro hkeeps
    by_contra hnot
    simp only [not_or, not_and, not_not] at hnot
    obtain ⟨hrange, hmem, hread⟩ := hnot
    obtain ⟨v, hv⟩ := Option.ne_none_iff_exists'.mp hread
    exact not_gateKeeps hv (fun h => hrange h.1 h.2) hmem hkeeps
  · intro h s session raw checkedAt recordedAt hallowed hevent hthrough
    rcases h with hrange | ⟨hfits, hforeign⟩ | hunread
    · have hmem := ofInt_mem_of_letThrough hevent (by omega) hthrough
      have hnat := toNat_ofInt k
      exact ⟨_, hallowed ▸ hmem, by omega⟩
    · exact absurd (hallowed ▸ ofInt_mem_of_letThrough hevent hfits hthrough) hforeign
    · obtain ⟨_, _, v, _, _, hv⟩ := hevent
      rw [lib.parse_int, hunread] at hv
      cases hv

/-! ## A kind of 17 bits -/

/-- The message with a kind that is 42 in its low 16 bits. -/
def aliasMessage : Bytes := lit "[\"EVENT\",\x7b\"kind\":65578\x7d]"

theorem parse_aliasMessage :
    Json.codec.parse aliasMessage = some (bareMessage (.int 65578)) := by rfl

/-- A relay with the default kinds stores it. -/
theorem aliased_kind_is_admitted :
    (handleClientMessage Json.codec (RelayServer.create {}) ⟨0, true, true⟩ aliasMessage
      0 0).server.events = [bareEvent 42 aliasMessage.length] ∧
    ¬ ∀ allowed k, GateKeeps Json.codec allowed k := by
  have hstored : (handleClientMessage Json.codec (RelayServer.create {}) ⟨0, true, true⟩
      aliasMessage 0 0).server.events = [bareEvent 42 aliasMessage.length] := by
    rw [handleClientMessage_event parse_aliasMessage]
    rfl
  refine ⟨hstored, fun hall => ?_⟩
  have hthrough : LetThrough (RelayServer.create {}) ⟨0, true, true⟩
      (handleClientMessage Json.codec (RelayServer.create {}) ⟨0, true, true⟩ aliasMessage 0 0) := by
    left
    rw [hstored]
    exact List.cons_ne_nil _ _
  obtain ⟨kind, _, hkind⟩ := hall _ 65578 _ _ _ 0 0 rfl
    ⟨_, [], .int 65578, parse_aliasMessage, rfl, Json.codec.parse_int 65578⟩ hthrough
  have hlt := kind.toNat_lt
  omega

end LinuxLive.Relay
