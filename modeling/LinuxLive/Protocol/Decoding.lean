import LinuxLive.Lib.JsonCodec
import LinuxLive.Protocol.Event

/-!
# What decoding keeps of a text

`Event::deserialize` on any JSON text: which values of the text are those that
`Event::serialize` writes for the event that was read.
-/

namespace LinuxLive

open Json

/-! ## The fields that were read -/

theorem eq_map_of_mapM {α β : Type} {ε : Type} {get : α → Except ε β} {f : β → α}
    (h : ∀ a b, get a = .ok b → a = f b) {l : List α} {bs : List β} (hl : l.mapM get = .ok bs) :
    l = bs.map f := by
  induction l generalizing bs with
  | nil =>
      cases hl
      rfl
  | cons a l ih =>
      simp only [List.mapM_cons, bind_eq_ok, pure, Except.pure, Except.ok.injEq] at hl
      obtain ⟨b, hb, bs', hbs, rfl⟩ := hl
      rw [List.map_cons, ← h a b hb, ← ih hbs]

theorem getVector_getString_ok {j : Json} {tag : List Bytes}
    (h : j.getVector getString = .ok tag) : j = .arr (tag.map .str) := by
  cases j with
  | arr xs => exact congrArg Json.arr (eq_map_of_mapM (fun _ _ hs => getString_ok_iff.mp hs) h)
  | _ => cases h

theorem getVector_tags_ok {j : Json} {tags : List (List Bytes)}
    (h : j.getVector (getVector getString) = .ok tags) : j = tagsJson tags := by
  cases j with
  | arr xs => exact congrArg Json.arr (eq_map_of_mapM (fun _ _ htag => getVector_getString_ok htag) h)
  | _ => cases h

namespace Event

structure ReadFrom (j : Json) (e : Event) (vid vcreated vkind : Json) : Prop where
  id : j.field? (lit "id") = some vid
  createdAt : j.field? (lit "created_at") = some vcreated
  kind : j.field? (lit "kind") = some vkind
  tags : j.field? (lit "tags") = some (tagsJson e.tags)
  content : j.field? (lit "content") = some (.str e.content)
  pubkey : j.field? (lit "pubkey") = some (.str e.pubkey)
  sig : j.field? (lit "sig") = some (.str e.sig)
  getId : vid.getUInt64 = .ok e.id
  getCreatedAt : vcreated.getUInt64 = .ok e.createdAt
  getKind : vkind.getUInt16 = .ok e.kind

section read

variable {lib : JsonText} {j id createdAt kind : Json} {e : Event}

theorem field?_of_get {α : Type} {get : Json → Except JsonError α} {v : Json} {a : α} {key : Bytes}
    (hnull : ∃ err, get .null = .error err) (h : j.index key = .ok v) (ha : get v = .ok a) :
    j.field? key = some v := by
  refine field?_of_index h fun hv => ?_
  obtain ⟨err, herr⟩ := hnull
  rw [hv, herr] at ha
  cases ha

theorem readFrom_of_ofJson (h : ofJson j = .ok e) :
    ∃ id createdAt kind, ReadFrom j e id createdAt kind := by
  simp only [ofJson, bind_eq_ok] at h
  obtain ⟨id, hid, _, getId, createdAt, hcreated, _, getCreated, kind, hkind, _, getKind, tags,
    htags, _, getTags, content, hcontent, _, getContent, pubkey, hpubkey, _, getPubkey, sig, hsig,
    _, getSig, he⟩ := h
  cases he
  have htags' := field?_of_get ⟨_, rfl⟩ htags getTags
  have hcontent' := field?_of_get ⟨_, rfl⟩ hcontent getContent
  have hpubkey' := field?_of_get ⟨_, rfl⟩ hpubkey getPubkey
  have hsig' := field?_of_get ⟨_, rfl⟩ hsig getSig
  refine ⟨id, createdAt, kind, ?_⟩
  constructor
  · exact field?_of_get ⟨_, rfl⟩ hid getId
  · exact field?_of_get ⟨_, rfl⟩ hcreated getCreated
  · exact field?_of_get ⟨_, rfl⟩ hkind getKind
  · rw [htags', getVector_tags_ok getTags]
  · rw [hcontent', getString_ok_iff.mp getContent]
  · rw [hpubkey', getString_ok_iff.mp getPubkey]
  · rw [hsig', getString_ok_iff.mp getSig]
  · exact getId
  · exact getCreated
  · exact getKind

theorem ReadFrom.utf8 (h : ReadFrom j e id createdAt kind) (hu : j.utf8 = true) :
    e.utf8 = true := by
  have htags : (tagsJson e.tags).utf8 = true := all_field? hu h.tags
  have hcontent : (Json.str e.content).utf8 = true := all_field? hu h.content
  have hpubkey : (Json.str e.pubkey).utf8 = true := all_field? hu h.pubkey
  have hsig : (Json.str e.sig).utf8 = true := all_field? hu h.sig
  rw [utf8_tagsJson] at htags
  exact utf8_iff.mpr ⟨htags, hcontent, hpubkey, hsig⟩

end read

/-! ## Numbers -/

def IntegerBelow (limit : Int) (key : Bytes) (j : Json) : Prop :=
  ∃ v n, j.field? key = some v ∧ v.IsInteger n ∧ 0 ≤ n ∧ n < limit

/-- The numbers of a text are those that the fields of an event can hold. -/
structure NumbersFit (j : Json) : Prop where
  id : IntegerBelow (2 ^ 64) (lit "id") j
  createdAt : IntegerBelow (2 ^ 64) (lit "created_at") j
  kind : IntegerBelow (2 ^ 16) (lit "kind") j

def keys : List Bytes :=
  [lit "id", lit "created_at", lit "kind", lit "tags", lit "content", lit "pubkey", lit "sig"]

/-- The event is written with the values of the text that it was read from. -/
def Unchanged (lib : JsonText) (j : Json) (e : Event) : Prop :=
  ∃ text written, e.serialize lib = some text ∧ lib.parse text = some written ∧
    ∀ key ∈ keys, ∃ v w, j.field? key = some v ∧ written.field? key = some w ∧ v.SameValue w

section unchanged

variable {lib : JsonText} {j id createdAt kind : Json} {e : Event} {data : Bytes}

theorem integerBelow_iff {v : Json} {limit : Int} {key : Bytes} (hv : j.field? key = some v) :
    IntegerBelow limit key j ↔ ∃ n, v.IsInteger n ∧ 0 ≤ n ∧ n < limit := by
  unfold IntegerBelow
  rw [hv]
  constructor
  · intro h
    obtain ⟨w, n, hw, hn⟩ := h
    cases hw
    exact ⟨n, hn⟩
  · intro h
    obtain ⟨n, hn⟩ := h
    exact ⟨v, n, rfl, hn⟩

theorem ReadFrom.numbersFit_iff (h : ReadFrom j e id createdAt kind) : NumbersFit j ↔
    id.SameValue (.int e.id.toNat) ∧ createdAt.SameValue (.int e.createdAt.toNat) ∧
      kind.SameValue (.int e.kind.toNat) := by
  rw [sameValue_int_iff, sameValue_int_iff, sameValue_int_iff, isInteger_getUInt64_iff h.getId,
    isInteger_getUInt64_iff h.getCreatedAt, isInteger_getUInt16_iff h.getKind,
    ← integerBelow_iff h.id, ← integerBelow_iff h.createdAt, ← integerBelow_iff h.kind]
  exact ⟨fun hfit => ⟨hfit.id, hfit.createdAt, hfit.kind⟩, fun hfit => ⟨hfit.1, hfit.2.1, hfit.2.2⟩⟩

/-- Only the three numbers can differ from what is written. -/
theorem ReadFrom.unchanged_iff (h : ReadFrom j e id createdAt kind) (hu : j.utf8 = true) :
    Unchanged lib j e ↔ id.SameValue (.int e.id.toNat) ∧
      createdAt.SameValue (.int e.createdAt.toNat) ∧ kind.SameValue (.int e.kind.toNat) := by
  obtain ⟨text, htext⟩ := lib.dump_of_utf8 none (utf8_json (h.utf8 hu))
  have hparse := lib.parse_dump none _ text e.canonical_json htext
  obtain ⟨wid, wcreated, wkind, wtags, wcontent, wpubkey, wsig⟩ := json_fields e
  constructor
  · intro hunchanged
    obtain ⟨text', written, htext', hwritten, hkeys⟩ := hunchanged
    have hserialize : e.serialize lib = some text := htext
    rw [hserialize] at htext'
    cases htext'
    rw [hparse] at hwritten
    cases hwritten
    have hsame : ∀ {key : Bytes} {v w : Json}, key ∈ keys → j.field? key = some v →
        e.json.field? key = some w → v.SameValue w := by
      intro key v w hkey hv hw
      obtain ⟨v', w', hv', hw', hsame⟩ := hkeys key hkey
      rw [hv] at hv'
      rw [hw] at hw'
      cases hv'
      cases hw'
      exact hsame
    exact ⟨hsame (by decide) h.id wid, hsame (by decide) h.createdAt wcreated,
      hsame (by decide) h.kind wkind⟩
  · intro hsame
    obtain ⟨hid, hcreated, hkind⟩ := hsame
    refine ⟨text, e.json, htext, hparse, ?_⟩
    simp only [keys, List.forall_mem_cons, List.not_mem_nil, false_implies, implies_true, and_true]
    exact ⟨⟨_, _, h.id, wid, hid⟩, ⟨_, _, h.createdAt, wcreated, hcreated⟩,
      ⟨_, _, h.kind, wkind, hkind⟩, ⟨_, _, h.tags, wtags, .inl rfl⟩,
      ⟨_, _, h.content, wcontent, .inl rfl⟩, ⟨_, _, h.pubkey, wpubkey, .inl rfl⟩,
      ⟨_, _, h.sig, wsig, .inl rfl⟩⟩

end unchanged

theorem exists_readFrom {lib : JsonText} {data : Bytes} {j : Json} {e : Event}
    (hparse : lib.parse data = some j) (h : deserialize lib data = some e) :
    ∃ id createdAt kind, ReadFrom j e id createdAt kind := by
  have hread : ofJson j = .ok e := by
    simp only [deserialize, hparse] at h
    split at h
    · rename_i e' he'
      cases h
      exact he'
    · cases h
  exact readFrom_of_ofJson hread

/-! ## Rejected texts -/

/-- An exception is thrown and caught. -/
def Rejected (j : Json) : Prop := ∃ err, ofJson j = .error err ∧ err ≠ .undefined

theorem index_ne_undefined (j : Json) (key : Bytes) : j.index key ≠ .error .undefined := by
  cases j <;> simp [index]

theorem getString_ne_undefined (j : Json) : j.getString ≠ .error .undefined := by
  cases j <;> simp [getString]

theorem getVector_ne_undefined {α : Type} {get : Json → Except JsonError α}
    (hget : ∀ j, get j ≠ .error .undefined) (j : Json) : j.getVector get ≠ .error .undefined := by
  cases j with
  | arr xs =>
      rw [getVector]
      induction xs with
      | nil => simp [pure, Except.pure]
      | cons x xs ih =>
          rw [List.mapM_cons]
          refine bind_ne_error (hget x) fun _ _ => bind_ne_error ih fun _ _ => ?_
          simp [pure, Except.pure]
  | _ => simp [getVector]

theorem getUInt64_of_integerBelow {j v : Json} {key : Bytes} (h : IntegerBelow (2 ^ 64) key j)
    (hv : j.index key = .ok v) : v.getUInt64 ≠ .error .undefined := by
  obtain ⟨w, n, hw, hn, hlow, hhigh⟩ := h
  rw [index_of_field? hw] at hv
  cases hv
  rw [getUInt64, number_of_isInteger hn (decide_eq_true ⟨hlow, hhigh⟩)]
  simp [Except.map]

theorem getUInt16_of_integerBelow {j v : Json} {key : Bytes} (h : IntegerBelow (2 ^ 16) key j)
    (hv : j.index key = .ok v) : v.getUInt16 ≠ .error .undefined := by
  obtain ⟨w, n, hw, hn, hlow, hhigh⟩ := h
  rw [index_of_field? hw] at hv
  cases hv
  rw [getUInt16, arithmetic_of_isInteger uint16 hn,
    number_of_isInteger hn (decide_eq_true ⟨hlow, hhigh⟩)]
  simp [Except.map]

/-- Of the numbers that fit no conversion is undefined. -/
theorem ofJson_ne_undefined {j : Json} (h : NumbersFit j) : ofJson j ≠ .error .undefined := by
  have htags := getVector_ne_undefined (getVector_ne_undefined getString_ne_undefined)
  have hindex := index_ne_undefined j
  have hstring := getString_ne_undefined
  refine bind_ne_error (hindex _) fun v hv => ?_
  refine bind_ne_error (getUInt64_of_integerBelow h.id hv) fun _ _ => ?_
  refine bind_ne_error (hindex _) fun v hv => ?_
  refine bind_ne_error (getUInt64_of_integerBelow h.createdAt hv) fun _ _ => ?_
  refine bind_ne_error (hindex _) fun v hv => ?_
  refine bind_ne_error (getUInt16_of_integerBelow h.kind hv) fun _ _ => ?_
  refine bind_ne_error (hindex _) fun v _ => bind_ne_error (htags v) fun _ _ => ?_
  refine bind_ne_error (hindex _) fun v _ => bind_ne_error (hstring v) fun _ _ => ?_
  refine bind_ne_error (hindex _) fun v _ => bind_ne_error (hstring v) fun _ _ => ?_
  refine bind_ne_error (hindex _) fun v _ => bind_ne_error (hstring v) fun _ _ => ?_
  simp [pure, Except.pure]

/-- What is not rejected is decoded without a change exactly if its numbers fit the event. -/
theorem unchanged_iff_numbersFit (lib : JsonText) {data : Bytes} {j : Json}
    (hparse : lib.parse data = some j) (h : ¬ Rejected j) :
    (∃ e, deserialize lib data = some e ∧ Unchanged lib j e) ↔ NumbersFit j := by
  cases hread : ofJson j with
  | error err =>
      have hnone : deserialize lib data = none := by
        simp only [deserialize, hparse, hread]
      rw [hnone]
      refine iff_of_false (by simp) fun hfit => h ⟨err, hread, fun herr => ?_⟩
      exact ofJson_ne_undefined hfit (herr ▸ hread)
  | ok e =>
      have hsome : deserialize lib data = some e := by
        simp only [deserialize, hparse, hread]
      obtain ⟨id, createdAt, kind, hfrom⟩ := readFrom_of_ofJson hread
      have hsame : Unchanged lib j e ↔ _ := hfrom.unchanged_iff (lib.parse_utf8 _ _ hparse)
      rw [hfrom.numbersFit_iff, ← hsame, hsome]
      simp

/-! ## A kind of 17 bits -/

/-- The event with a kind that is 42 in its low 16 bits. -/
def aliasText : Bytes :=
  lit "\x7b\"content\":\"hi\",\"created_at\":1700000000,\"id\":7,\"kind\":65578,\"pubkey\":\"aa\",\"sig\":\"bb\",\"tags\":[]\x7d"

def aliasJson : Json :=
  .obj [(lit "content", .str (lit "hi")), (lit "created_at", .int 1700000000), (lit "id", .int 7),
    (lit "kind", .int 65578), (lit "pubkey", .str (lit "aa")), (lit "sig", .str (lit "bb")),
    (lit "tags", .arr [])]

def aliasEvent : Event where
  id := 7
  createdAt := 1700000000
  kind := 42
  tags := []
  content := lit "hi"
  pubkey := lit "aa"
  sig := lit "bb"

theorem parse_aliasText : Json.codec.parse aliasText = some aliasJson := by rfl

theorem deserialize_aliasText : deserialize Json.codec aliasText = some aliasEvent := by
  simp only [deserialize, parse_aliasText]
  rfl

theorem not_rejected_aliasJson : ¬ Rejected aliasJson := by
  have hread : ofJson aliasJson = .ok aliasEvent := rfl
  intro hrejected
  obtain ⟨err, herr, _⟩ := hrejected
  rw [hread] at herr
  cases herr

theorem unchanged_iff_aliasText :
    (∃ e, deserialize Json.codec aliasText = some e ∧ Unchanged Json.codec aliasJson e) ↔
      NumbersFit aliasJson :=
  unchanged_iff_numbersFit Json.codec parse_aliasText not_rejected_aliasJson

/-- The text is read, and written with another kind. -/
theorem aliased_kind_is_changed :
    deserialize Json.codec aliasText = some aliasEvent ∧
      ¬ ∀ data j e, Json.codec.parse data = some j → deserialize Json.codec data = some e →
        Unchanged Json.codec j e := by
  refine ⟨deserialize_aliasText, fun hall => ?_⟩
  have hunchanged := hall _ _ _ parse_aliasText deserialize_aliasText
  obtain ⟨id, createdAt, kind, hfrom⟩ := exists_readFrom parse_aliasText deserialize_aliasText
  have hkind : kind = .int 65578 := Option.some.inj (hfrom.kind.symm.trans rfl)
  have hutf8 := Json.codec.parse_utf8 _ _ parse_aliasText
  have hsame := ((hfrom.unchanged_iff hutf8).mp hunchanged).2.2
  rw [hkind, sameValue_int_iff] at hsame
  cases hsame

end Event

end LinuxLive
