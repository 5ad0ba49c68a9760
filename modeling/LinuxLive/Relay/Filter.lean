import LinuxLive.Lib.JsonTypes
import LinuxLive.Relay.Handler

/-!
# Filters of a REQ

When the loops over the filter lists return, which events they let through, and the
frames that a REQ sends.
-/

namespace LinuxLive.Relay

open Json

/-! ## One filter list -/

/-- Every item up to the first hit has the type that is read. -/
def TypedToHit (typed hit : Json → Prop) (items : List Json) : Prop :=
  ∀ pre x post, items = pre ++ x :: post → (∀ y ∈ pre, ¬ hit y) → typed x

theorem typedToHit_cons {typed hit : Json → Prop} {x : Json} {xs : List Json} :
    TypedToHit typed hit (x :: xs) ↔ typed x ∧ (¬ hit x → TypedToHit typed hit xs) := by
  constructor
  · intro h
    refine ⟨h [] x xs rfl (by simp), ?_⟩
    intro hx pre y post hxs hpre
    refine h (x :: pre) y post (by simp [hxs]) ?_
    intro z hz
    rcases List.mem_cons.mp hz with rfl | hz
    · exact hx
    · exact hpre z hz
  · rintro ⟨hx, hxs⟩ pre y post heq hpre
    cases pre with
    | nil =>
        cases heq
        exact hx
    | cons z pre =>
        cases heq
        have hrest := fun z hz => hpre z (List.mem_cons_of_mem _ hz)
        exact hxs (hpre x List.mem_cons_self) pre y post rfl hrest

/-- The list under `key`, if there is one, is typed up to its first hit. -/
def ListTyped (typed hit : Json → Prop) (key : Bytes) (filter : Json) : Prop :=
  ∀ list, filter.field? key = some list → TypedToHit typed hit list.items

/-- The list under `key`, if there is one, has a hit. -/
def Listed (hit : Json → Prop) (key : Bytes) (filter : Json) : Prop :=
  ∀ list, filter.field? key = some list → ∃ x ∈ list.items, hit x

section lists

variable {α : Type} {get : Json → Except JsonError α} {p : α → Bool} {typed hit : Json → Prop}

theorem anyItem_ok_iff (htyped : ∀ x, (∃ a, get x = .ok a) ↔ typed x)
    (hhit : ∀ x, (∃ a, get x = .ok a ∧ p a = true) ↔ hit x) {b : Bool} {items : List Json} :
    anyItem get p items = .ok b ↔
      TypedToHit typed hit items ∧ (b = true ↔ ∃ x ∈ items, hit x) := by
  induction items with
  | nil => cases b <;> simp [anyItem, TypedToHit]
  | cons x xs ih =>
      rw [typedToHit_cons, ← htyped x, List.exists_mem_cons_iff, ← hhit x]
      cases hx : get x with
      | error e => simp [anyItem, hx]
      | ok a =>
          cases ha : p a with
          | true => cases b <;> simp [anyItem, hx, ha]
          | false => simp [anyItem, hx, ha, ih]

theorem criterion_ok_iff (htyped : ∀ x, (∃ a, get x = .ok a) ↔ typed x)
    (hhit : ∀ x, (∃ a, get x = .ok a ∧ p a = true) ↔ hit x) {b : Bool} {key : Bytes}
    {filter : Json} : criterion get p key filter = .ok b ↔
      ListTyped typed hit key filter ∧ (b = true ↔ Listed hit key filter) := by
  unfold criterion ListTyped Listed
  cases filter.field? key with
  | none => cases b <;> simp
  | some list => simp [anyItem_ok_iff htyped hhit]

end lists

/-! ## The whole filter -/

/-- A number or a boolean; a double has to be one of 32 bits. -/
def IsNumber (x : Json) : Prop := (FieldType.arithmetic int32).fits x = true

def IsString (x : Json) : Prop := ∃ s, x = .str s

/-- The number of the item, cut to 32 bits, is the kind. -/
def IsKind (kind : UInt16) (x : Json) : Prop := x.getInt = .ok (kind.toNat : Int)

def IsText (s : Bytes) (x : Json) : Prop := x = .str s

structure Matches (filter : Json) (e : StoredEvent) : Prop where
  kinds : Listed (IsKind e.kind) (lit "kinds") filter
  authors : Listed (IsText e.pubkey) (lit "authors") filter
  ids : Listed (IsText e.id) (lit "ids") filter

/-- The lists of a filter are typed as far as they are read for one event. -/
structure FilterTyped (filter : Json) (e : StoredEvent) : Prop where
  kinds : ListTyped IsNumber (IsKind e.kind) (lit "kinds") filter
  authors : Listed (IsKind e.kind) (lit "kinds") filter →
    ListTyped IsString (IsText e.pubkey) (lit "authors") filter
  ids : Listed (IsKind e.kind) (lit "kinds") filter →
    Listed (IsText e.pubkey) (lit "authors") filter →
    ListTyped IsString (IsText e.id) (lit "ids") filter

section filter

variable {filter : Json} {e : StoredEvent} {b : Bool}

theorem kindsMatch_ok_iff : kindsMatch filter e = .ok b ↔
    ListTyped IsNumber (IsKind e.kind) (lit "kinds") filter ∧
      (b = true ↔ Listed (IsKind e.kind) (lit "kinds") filter) := by
  refine criterion_ok_iff (fun x => (reads_getInt.ok_iff x).symm) fun x => ?_
  simp [IsKind]

private theorem strings_ok_iff {s key : Bytes} :
    criterion getString (fun a => decide (a = s)) key filter = .ok b ↔
      ListTyped IsString (IsText s) key filter ∧ (b = true ↔ Listed (IsText s) key filter) := by
  refine criterion_ok_iff (fun x => ?_) fun x => ?_
  · simp [getString_ok_iff, IsString]
  · simp [getString_ok_iff, IsText]

theorem authorsMatch_ok_iff : authorsMatch filter e = .ok b ↔
    ListTyped IsString (IsText e.pubkey) (lit "authors") filter ∧
      (b = true ↔ Listed (IsText e.pubkey) (lit "authors") filter) := strings_ok_iff

theorem idsMatch_ok_iff : idsMatch filter e = .ok b ↔
    ListTyped IsString (IsText e.id) (lit "ids") filter ∧
      (b = true ↔ Listed (IsText e.id) (lit "ids") filter) := strings_ok_iff

/-- A check that is run only after another one succeeded. -/
private theorem andThen_ok_iff {c d : Except JsonError Bool} {T L T' L' : Prop}
    (hc : ∀ b, c = .ok b ↔ T ∧ (b = true ↔ L)) (hd : ∀ b, d = .ok b ↔ T' ∧ (b = true ↔ L')) :
    (do if !(← c) then return false
        d) = .ok b ↔ (T ∧ (L → T')) ∧ (b = true ↔ L ∧ L') := by
  classical
  cases hcv : c with
  | error e =>
      have hT : ¬ T := by
        intro hT
        have := (hc (decide L)).mpr ⟨hT, by simp⟩
        simp [hcv] at this
      simp [bind, Except.bind, hT]
  | ok k =>
      obtain ⟨hT, hL⟩ := (hc k).mp hcv
      cases k with
      | true =>
          have hL : L := hL.mp rfl
          simp [bind, Except.bind, hT, hL, hd]
      | false =>
          have hL : ¬ L := fun h => Bool.false_ne_true (hL.mpr h)
          cases b <;> simp [bind, Except.bind, pure, Except.pure, hT, hL]

theorem matches_iff : Matches filter e ↔ Listed (IsKind e.kind) (lit "kinds") filter ∧
    Listed (IsText e.pubkey) (lit "authors") filter ∧
    Listed (IsText e.id) (lit "ids") filter :=
  ⟨fun h => ⟨h.kinds, h.authors, h.ids⟩, fun h => ⟨h.1, h.2.1, h.2.2⟩⟩

/-- The three blocks return a result exactly on lists that are typed as far as they are
read, and the result says whether every list has the event. -/
theorem matchesFilter_ok_iff : matchesFilter filter e = .ok b ↔
    FilterTyped filter e ∧ (b = true ↔ Matches filter e) := by
  have hauthors := fun b => @authorsMatch_ok_iff filter e b
  have hids := fun b => @idsMatch_ok_iff filter e b
  refine (andThen_ok_iff (fun b => @kindsMatch_ok_iff filter e b)
    fun b => @andThen_ok_iff b _ _ _ _ _ _ hauthors hids).trans ?_
  rw [matches_iff]
  refine and_congr_left' ⟨?_, ?_⟩
  · rintro ⟨hkinds, hrest⟩
    exact ⟨hkinds, fun h => (hrest h).1, fun h => (hrest h).2⟩
  · rintro ⟨hkinds, hauthors, hids⟩
    exact ⟨hkinds, fun h => ⟨hauthors h, hids h⟩⟩

end filter

/-! ## The loop over the store -/

theorem reqLoop_sound {lib : JsonText} {session : ClientSession} {subId : Bytes} {filter : Json}
    {es : List StoredEvent} {frame : Nat × Bytes}
    (h : frame ∈ (reqLoop lib session subId filter es).1) :
    ∃ e ∈ es, Matches filter e ∧ ∃ text, lib.dump none (eventMessage subId e) = some text ∧
      frame ∈ sendWsText session text := by
  induction es with
  | nil => simp [reqLoop] at h
  | cons e es ih =>
      unfold reqLoop at h
      split at h
      · simp at h
      · obtain ⟨e', he', hrest⟩ := ih h
        exact ⟨e', List.mem_cons_of_mem e he', hrest⟩
      · rename_i hmatch
        split at h
        · simp at h
        · rename_i text hdump
          rcases List.mem_append.mp h with h | h
          · exact ⟨e, List.mem_cons_self, (matchesFilter_ok_iff.mp hmatch).2.mp rfl, text, hdump, h⟩
          · obtain ⟨e', he', hrest⟩ := ih h
            exact ⟨e', List.mem_cons_of_mem e he', hrest⟩

section loop

variable (lib : JsonText) (session : ClientSession) {subId : Bytes} {filter : Json}
  {es : List StoredEvent}

theorem reqLoop_returns_iff (hsub : utf8 subId = true) :
    (reqLoop lib session subId filter es).2 = none ↔
      ∀ e ∈ es, FilterTyped filter e ∧ (Matches filter e → e.utf8 = true) := by
  induction es with
  | nil => simp [reqLoop]
  | cons e es ih =>
      rw [List.forall_mem_cons]
      unfold reqLoop
      cases hm : matchesFilter filter e with
      | error err =>
          have hno : ¬ FilterTyped filter e := by
            classical
            intro h
            have := (matchesFilter_ok_iff (b := decide (Matches filter e))).mpr ⟨h, by simp⟩
            simp [hm] at this
          simp [hno]
      | ok b =>
          obtain ⟨ht, hb⟩ := matchesFilter_ok_iff.mp hm
          cases b with
          | false =>
              have hno : ¬ Matches filter e := fun h => Bool.false_ne_true (hb.mpr h)
              simp [ht, hno, ih]
          | true =>
              have hyes : Matches filter e := hb.mp rfl
              have hu := utf8_eventMessage (e := e) hsub
              cases hd : lib.dump none (eventMessage subId e) with
              | none =>
                  rw [lib.dump_eq_none_iff, hu] at hd
                  simp [hd, hyes]
              | some text =>
                  have := lib.utf8_of_dump hd
                  rw [hu] at this
                  simp [ht, this, ih]

theorem reqLoop_complete (h : (reqLoop lib session subId filter es).2 = none) {e : StoredEvent}
    (he : e ∈ es) (hm : Matches filter e) :
    ∃ text, lib.dump none (eventMessage subId e) = some text ∧
      sendWsText session text ⊆ (reqLoop lib session subId filter es).1 := by
  induction es with
  | nil => simp at he
  | cons e' es ih =>
      unfold reqLoop at h ⊢
      cases hmatch : matchesFilter filter e' with
      | error err => simp [hmatch] at h
      | ok b =>
          obtain ⟨_, hb⟩ := matchesFilter_ok_iff.mp hmatch
          cases b with
          | false =>
              simp only [hmatch] at h ⊢
              rcases List.mem_cons.mp he with rfl | he
              · exact absurd (hb.mpr hm) Bool.false_ne_true
              · exact ih h he
          | true =>
              cases hd : lib.dump none (eventMessage subId e') with
              | none => simp [hmatch, hd] at h
              | some text =>
                  simp only [hmatch, hd] at h ⊢
                  rcases List.mem_cons.mp he with rfl | he
                  · exact ⟨text, hd, List.subset_append_left _ _⟩
                  · obtain ⟨t, ht, hsub⟩ := ih h he
                    exact ⟨t, ht, fun f hf => List.subset_append_right _ _ (hsub hf)⟩

/-- A loop that ends without an exception has sent one frame for each event that matches, in
the order of the store, and no other. -/
theorem reqLoop_replies (h : (reqLoop lib session subId filter es).2 = none)
    (wanted : StoredEvent → Bool) (hwanted : ∀ e, wanted e = true ↔ Matches filter e) :
    ∃ texts, List.Forall₂ (fun e text => lib.dump none (eventMessage subId e) = some text)
        (es.filter wanted) texts ∧
      (reqLoop lib session subId filter es).1 = texts.flatMap (sendWsText session) := by
  induction es with
  | nil => exact ⟨[], List.Forall₂.nil, rfl⟩
  | cons e es ih =>
      unfold reqLoop at h ⊢
      cases hmatch : matchesFilter filter e with
      | error err => simp [hmatch] at h
      | ok b =>
          have hb : wanted e = b := by
            rw [Bool.eq_iff_iff, hwanted, (matchesFilter_ok_iff.mp hmatch).2]
          cases b with
          | false =>
              simp only [hmatch] at h ⊢
              rw [List.filter_cons_of_neg (by simp [hb])]
              exact ih h
          | true =>
              cases hd : lib.dump none (eventMessage subId e) with
              | none => simp [hmatch, hd] at h
              | some text =>
                  simp only [hmatch, hd] at h ⊢
                  obtain ⟨texts, htexts, hsent⟩ := ih h
                  rw [List.filter_cons_of_pos hb, hsent]
                  exact ⟨text :: texts, List.Forall₂.cons hd htexts, rfl⟩

end loop

end LinuxLive.Relay
