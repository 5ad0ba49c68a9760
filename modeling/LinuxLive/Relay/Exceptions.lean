import LinuxLive.Lib.JsonCodec
import LinuxLive.Relay.Filter

/-!
# Messages that raise no exception

Only the parse of a message is guarded.  The condition under which every typed access
behind it succeeds, and with it the handler.
-/

namespace LinuxLive.Relay

open Json

/-! ## EVENT -/

def StringOrAbsent (key : Bytes) (j : Json) : Prop := ∀ v, j.field? key = some v → IsString v

def NumberOrAbsent (key : Bytes) (j : Json) : Prop := ∀ v, j.field? key = some v → IsNumber v

/-- The string of a field, empty where it is absent. -/
def stringField (key : Bytes) (j : Json) : Bytes :=
  match j.field? key with
  | some (.str s) => s
  | _ => []

/-- The low 32 bits of a field, zero where it is absent. -/
def intField (key : Bytes) (j : Json) : Int :=
  match j.field? key with
  | some v => v.getInt.toOption.getD 0
  | none => 0

theorem valueString_ok_iff {key s : Bytes} {j : Json} : j.value getString key [] = .ok s ↔
    j.isObject = true ∧ StringOrAbsent key j ∧ s = stringField key j := by
  cases j with
  | obj fs =>
      simp only [Json.value, isObject, StringOrAbsent, stringField, field?, true_and]
      cases fs.lookup key with
      | none => simp [eq_comm]
      | some v => cases v <;> simp [getString, IsString, eq_comm]
  | _ => simp [Json.value, isObject]

theorem valueInt_ok_iff {key : Bytes} {n : Int} {j : Json} : j.value getInt key 0 = .ok n ↔
    j.isObject = true ∧ NumberOrAbsent key j ∧ n = intField key j := by
  cases j with
  | obj fs =>
      simp only [Json.value, isObject, NumberOrAbsent, intField, field?, true_and]
      cases fs.lookup key with
      | none => simp [eq_comm]
      | some v =>
          simp only [IsNumber, reads_getInt.ok_iff, Option.some.injEq, forall_eq']
          cases v.getInt <;> simp [Except.toOption, eq_comm]
  | _ => simp [Json.value, isObject]

/-- The types that are read in front of the checks. -/
structure HeadTyped (event : Json) : Prop where
  object : event.isObject = true
  pubkey : StringOrAbsent (lit "pubkey") event
  kind : NumberOrAbsent (lit "kind") event

/-- The types that are read behind them. -/
structure BodyTyped (event : Json) : Prop where
  id : StringOrAbsent (lit "id") event
  content : StringOrAbsent (lit "content") event
  createdAt : NumberOrAbsent (lit "created_at") event
  sig : StringOrAbsent (lit "sig") event
  tags : TagsReadable event

def EventPasses (s : RelayServer) (event : Json) (checkedAt : UInt64) : Prop :=
  Passes s (stringField (lit "pubkey") event) (UInt16.ofInt (intField (lit "kind") event)) checkedAt

section event

variable {lib : JsonText} {s : RelayServer} {session : ClientSession} {event : Json} {raw : Bytes}
  {checkedAt recordedAt : UInt64} {pubkey : Bytes} {kind : UInt16}

theorem eventHead_ok_iff : eventHead event = .ok (pubkey, kind) ↔
    HeadTyped event ∧ pubkey = stringField (lit "pubkey") event ∧
      kind = UInt16.ofInt (intField (lit "kind") event) := by
  have hh : HeadTyped event ↔ event.isObject = true ∧ StringOrAbsent (lit "pubkey") event ∧
      NumberOrAbsent (lit "kind") event :=
    ⟨fun h => ⟨h.object, h.pubkey, h.kind⟩, fun h => ⟨h.1, h.2.1, h.2.2⟩⟩
  have hbind : eventHead event = .ok (pubkey, kind) ↔
      event.value getString (lit "pubkey") [] = .ok pubkey ∧
        ∃ n, event.value getInt (lit "kind") 0 = .ok n ∧ kind = UInt16.ofInt n := by
    unfold eventHead
    cases event.value getString (lit "pubkey") [] with
    | error e => simp [bind, Except.bind]
    | ok p =>
      cases event.value getInt (lit "kind") 0 with
      | error e => simp [bind, Except.bind]
      | ok n => simp [bind, Except.bind, pure, Except.pure, eq_comm]
  rw [hbind, hh]
  simp only [valueString_ok_iff, valueInt_ok_iff]
  constructor
  · rintro ⟨⟨hobj, hp, rfl⟩, n, ⟨_, hk, rfl⟩, rfl⟩
    exact ⟨⟨hobj, hp, hk⟩, rfl, rfl⟩
  · rintro ⟨⟨hobj, hp, hk⟩, rfl, rfl⟩
    exact ⟨⟨hobj, hp, rfl⟩, _, ⟨hobj, hk, rfl⟩, rfl⟩

theorem eventHead_ok_iff_typed : (∃ head, eventHead event = .ok head) ↔ HeadTyped event := by
  constructor
  · rintro ⟨⟨pubkey, kind⟩, h⟩
    exact (eventHead_ok_iff.mp h).1
  · intro h
    exact ⟨_, eventHead_ok_iff.mpr ⟨h, rfl, rfl⟩⟩

theorem readStoredEvent_ok_iff (pubkey : Bytes) (kind : UInt16) (size : Nat)
    (hobj : event.isObject = true) :
    (∃ se, readStoredEvent event pubkey kind size = .ok se) ↔ BodyTyped event := by
  have hs : ∀ key, (∃ a, event.value getString key [] = .ok a) ↔ StringOrAbsent key event := by
    intro key
    simp [valueString_ok_iff, hobj]
  have hn : (∃ a, event.value getInt (lit "created_at") 0 = .ok a) ↔
      NumberOrAbsent (lit "created_at") event := by
    simp [valueInt_ok_iff, hobj]
  constructor
  · rintro ⟨se, h⟩
    obtain ⟨hid, hcontent, ⟨n, hcreated, _⟩, hsig, htags, _⟩ := readStoredEvent_spec h
    exact ⟨(hs _).mp ⟨_, hid⟩, (hs _).mp ⟨_, hcontent⟩, hn.mp ⟨n, hcreated⟩, (hs _).mp ⟨_, hsig⟩,
      readTags_ok_iff.mp ⟨_, htags⟩⟩
  · intro h
    obtain ⟨id, hid⟩ := (hs _).mpr h.id
    obtain ⟨content, hcontent⟩ := (hs _).mpr h.content
    obtain ⟨n, hcreated⟩ := hn.mpr h.createdAt
    obtain ⟨sig, hsig⟩ := (hs _).mpr h.sig
    obtain ⟨tags, htags⟩ := readTags_ok_iff.mpr h.tags
    unfold readStoredEvent
    simp [hid, hcontent, hcreated, hsig, htags, bind, Except.bind, pure, Except.pure]

/-- The handler survives an EVENT exactly if the head has the types that are read and so
has the rest, unless a check turns the event away before. -/
theorem handleEvent_returns_iff (hu : event.utf8 = true) :
    (handleEvent lib s session event raw checkedAt recordedAt).thrown = none ↔
      HeadTyped event ∧ (EventPasses s event checkedAt → BodyTyped event) := by
  cases hh : eventHead event with
  | error e =>
      have hno : ¬ HeadTyped event := by
        rw [← eventHead_ok_iff_typed, hh]
        simp
      simp [handleEvent_of_head_error lib hh, hno]
  | ok head =>
      obtain ⟨pubkey, kind⟩ := head
      obtain ⟨ht, rfl, rfl⟩ := eventHead_ok_iff.mp hh
      by_cases hp : EventPasses s event checkedAt
      · rw [handleEvent_of_passes lib hh hp]
        have hbody := readStoredEvent_ok_iff (stringField (lit "pubkey") event)
          (UInt16.ofInt (intField (lit "kind") event)) raw.length ht.object
        cases hr : readStoredEvent event (stringField (lit "pubkey") event)
            (UInt16.ofInt (intField (lit "kind") event)) raw.length with
        | error e =>
            have hno : ¬ BodyTyped event := by
              rw [← hbody, hr]
              simp
            simp [hp, hno]
        | ok se =>
            have hid : utf8 se.id = true := utf8_value hu rfl (readStoredEvent_spec hr).1
            obtain ⟨ok, hok⟩ := lib.dump_of_utf8 none
              ((utf8_okMessage se.id).trans hid)
            simp [hok, ht, hbody.mp ⟨se, hr⟩]
      · have hnone : (handleEvent lib s session event raw checkedAt recordedAt).thrown = none := by
          rcases handleEvent_of_not_passes lib recordedAt hh hp with h | h <;> rw [h]
        simp [hnone, ht, hp]

end event

/-! ## REQ -/

theorem handleReq_returns_iff {lib : JsonText} {s : RelayServer} {session : ClientSession}
    {sub : Json} {filter : Option Json} (hu : sub.utf8 = true) :
    (handleReq lib s session sub filter).thrown = none ↔
      IsString sub ∧ ∀ e ∈ s.events, FilterTyped (filter.getD (.obj [])) e ∧
        (Matches (filter.getD (.obj [])) e → e.utf8 = true) := by
  unfold handleReq
  cases hsub : sub.getString with
  | error e =>
      have hno : ¬ IsString sub := by
        rintro ⟨subId, rfl⟩
        simp [getString] at hsub
      simp [hno]
  | ok subId =>
      have hstr := getString_ok_iff.mp hsub
      have hsubId : utf8 subId = true := by simpa [hstr] using hu
      have hyes : IsString sub := ⟨subId, hstr⟩
      obtain ⟨eose, heose⟩ := lib.dump_of_utf8 none
        ((utf8_eoseMessage subId).trans hsubId)
      rw [← reqLoop_returns_iff lib session hsubId]
      simp only [hyes, true_and, heose]
      rcases hl : reqLoop lib session subId (filter.getD (.obj [])) s.events with ⟨sent, _ | e⟩ <;>
        simp

/-! ## The handler -/

/-- What the handler needs of the types in an array it dispatches on: its first item is a
string; in an EVENT the fields have the types of the accesses that are reached; in a REQ
the subscription id is a string, the filter lists are typed as far as each stored event
has them read, and the stored events that match can be written. -/
structure MessageTyped (s : RelayServer) (checkedAt : UInt64) (type body : Json)
    (rest : List Json) : Prop where
  name : IsString type
  event : type = Json.str (lit "EVENT") →
    HeadTyped body ∧ (EventPasses s body checkedAt → BodyTyped body)
  req : type = Json.str (lit "REQ") →
    IsString body ∧ ∀ e ∈ s.events, FilterTyped (rest.head?.getD (.obj [])) e ∧
      (Matches (rest.head?.getD (.obj [])) e → e.utf8 = true)

/-- No exception leaves the handler exactly if the message does not parse, is not an array
of two items or has the types that are read. -/
theorem handleClientMessage_returns_iff (lib : JsonText) (s : RelayServer)
    (session : ClientSession) (raw : Bytes) (checkedAt recordedAt : UInt64) :
    (handleClientMessage lib s session raw checkedAt recordedAt).thrown = none ↔
      ∀ type body rest, lib.parse raw = some (.arr (type :: body :: rest)) →
        MessageTyped s checkedAt type body rest := by
  unfold handleClientMessage
  split
  · rename_i type body rest hparse
    have hu := utf8_arr.mp (lib.parse_utf8 _ _ hparse) body (by simp)
    have hcase : (∀ type' body' rest', lib.parse raw = some (.arr (type' :: body' :: rest')) →
        MessageTyped s checkedAt type' body' rest') ↔ MessageTyped s checkedAt type body rest := by
      constructor
      · intro h
        exact h type body rest hparse
      · intro h type' body' rest' hparse'
        cases hparse.symm.trans hparse'
        exact h
    rw [hcase]
    cases hname : type.getString with
    | error e =>
        have hno : ¬ MessageTyped s checkedAt type body rest := by
          rintro ⟨⟨name, rfl⟩, _, _⟩
          simp [getString] at hname
        simp [hno]
    | ok name =>
        obtain rfl := getString_ok_iff.mp hname
        dsimp only
        split
        · rename_i heq
          subst heq
          rw [handleEvent_returns_iff hu]
          refine ⟨fun h => ⟨⟨_, rfl⟩, fun _ => h, ?_⟩, fun h => h.event rfl⟩
          intro hreq
          simp at hreq
        · rename_i hevent
          split
          · rename_i heq
            subst heq
            rw [handleReq_returns_iff hu]
            refine ⟨fun h => ⟨⟨_, rfl⟩, ?_, fun _ => h⟩, fun h => h.req rfl⟩
            intro hev
            simp at hev
          · rename_i hreq
            simp only [true_iff]
            exact ⟨⟨_, rfl⟩, fun h => absurd (Json.str.inj h) hevent,
              fun h => absurd (Json.str.inj h) hreq⟩
  · rename_i hno
    simp only [true_iff]
    intro type body rest hparse
    exact absurd hparse (hno type body rest)

/-- An array whose first item is not a string: `get<std::string>` throws. -/
theorem handleClientMessage_throws :
    (handleClientMessage Json.codec (RelayServer.create {}) ⟨0, true, true⟩ (lit "[1,2]")
      100 100).thrown = some .wrongType302 := rfl

end LinuxLive.Relay
