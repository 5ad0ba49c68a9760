import LinuxLive.Relay.Filter
import LinuxLive.System.Frames

/-!
# Subscriptions and their answers

Which stored events match the filter that `RelayClient::subscribe` sends, and what the
relay's answer makes of them at the client.
-/

namespace LinuxLive

open Json Relay RelayClient

section filter

variable {kinds : List Int} {authorPubkey eventId : Bytes} {e : StoredEvent}

private theorem typedToHit_of_forall {typed hit : Json → Prop} {items : List Json}
    (h : ∀ x ∈ items, typed x) : TypedToHit typed hit items := by
  intro pre x post hitems _
  exact h x (by simp [hitems])

theorem filterTyped_subscription :
    FilterTyped (subscriptionFilter kinds authorPubkey eventId) e := by
  obtain ⟨hkinds, hauthors, hids⟩ := subscriptionFilter_fields kinds authorPubkey eventId
  have hstrings : ∀ {s : Bytes} {hit : Json → Prop}, TypedToHit IsString hit [Json.str s] :=
    typedToHit_of_forall (by simp [IsString])
  refine ⟨?_, ?_, ?_⟩
  · intro list hlist
    rw [hkinds] at hlist
    split at hlist
    · cases hlist
    · cases hlist
      exact typedToHit_of_forall (by simp [items, IsNumber, FieldType.fits])
  · intro _ list hlist
    rw [hauthors] at hlist
    split at hlist
    · cases hlist
    · cases hlist
      exact hstrings
  · intro _ _ list hlist
    rw [hids] at hlist
    split at hlist
    · cases hlist
    · cases hlist
      exact hstrings

private theorem listed_one {s s' key : Bytes} {filter : Json}
    (h : filter.field? key = if s.isEmpty then none else some (.arr [.str s])) :
    Listed (IsText s') key filter ↔ (s = [] ∨ s' = s) := by
  unfold Listed
  rw [h]
  cases s with
  | nil => simp
  | cons b s => simp [items, IsText, eq_comm]

/-- An event matches a subscription if it agrees with every argument that is not empty. -/
theorem matches_subscription (hk : ∀ k ∈ kinds, IsInt k) :
    Matches (subscriptionFilter kinds authorPubkey eventId) e ↔
      (kinds = [] ∨ (e.kind.toNat : Int) ∈ kinds) ∧ (authorPubkey = [] ∨ e.pubkey = authorPubkey) ∧
        (eventId = [] ∨ e.id = eventId) := by
  obtain ⟨hkinds, hauthors, hids⟩ := subscriptionFilter_fields kinds authorPubkey eventId
  rw [matches_iff, listed_one hauthors, listed_one hids]
  refine and_congr_left' ?_
  unfold Listed
  rw [hkinds]
  cases kinds with
  | nil => simp
  | cons k ks =>
      have hbmod : ∀ n ∈ k :: ks, n.bmod (2 ^ 32) = n := by
        intro n hn
        have hn := hk n hn
        unfold IsInt at hn
        exact Int.bmod_eq_of_le (by omega) (by omega)
      constructor
      · intro h
        obtain ⟨x, hx, hkind⟩ := h _ rfl
        obtain ⟨n, hn, rfl⟩ := List.mem_map.mp hx
        have heq : n.bmod (2 ^ 32) = (e.kind.toNat : Int) := Except.ok.inj hkind
        rw [hbmod n hn] at heq
        exact .inr (heq ▸ hn)
      · intro h list hlist
        cases hlist
        have hmem : (e.kind.toNat : Int) ∈ k :: ks := by simpa using h
        refine ⟨.int e.kind.toNat, List.mem_map_of_mem hmem, ?_⟩
        rw [IsKind, getInt_int, hbmod _ hmem]

/-- What the arguments of a subscription ask for; an empty argument asks for everything. -/
def asksFor (kinds : List Int) (authorPubkey eventId : Bytes) (e : StoredEvent) : Bool :=
  (decide (kinds = []) || decide ((e.kind.toNat : Int) ∈ kinds)) &&
    (decide (authorPubkey = []) || decide (e.pubkey = authorPubkey)) &&
    (decide (eventId = []) || decide (e.id = eventId))

theorem asksFor_iff (hk : ∀ k ∈ kinds, IsInt k) (e : StoredEvent) :
    asksFor kinds authorPubkey eventId e = true ↔
      Matches (subscriptionFilter kinds authorPubkey eventId) e := by
  rw [matches_subscription hk]
  simp only [asksFor, Bool.and_eq_true, Bool.or_eq_true, decide_eq_true_eq, and_assoc]

end filter

section answers

variable {lib : JsonText} {s : RelayServer} {session : ClientSession} {kinds : List Int}
  {authorPubkey eventId raw : Bytes} {now : Nat} {checkedAt recordedAt : UInt64}

theorem sendWsText_of_isOpen (hopen : session.isOpen = true) (text : Bytes) :
    sendWsText session text = [(session.fd, text)] := if_pos hopen

/-- The answer to a REQ whose filter is typed: the frames of the loop, then the `EOSE`. -/
theorem handleReq_of_typed (lib : JsonText) (session : ClientSession) {subId : Bytes}
    {filter : Json} (hsub : utf8 subId = true)
    (htyped : ∀ e ∈ s.events, FilterTyped filter e ∧ (Matches filter e → e.utf8 = true)) :
    ∃ eose, lib.dump none (eoseMessage subId) = some eose ∧
      (reqLoop lib session subId filter s.events).2 = none ∧
      handleReq lib s session (.str subId) (some filter) =
        ⟨s, (reqLoop lib session subId filter s.events).1 ++ sendWsText session eose, none⟩ := by
  have hloop := (reqLoop_returns_iff lib session hsub).mpr htyped
  obtain ⟨eose, heose⟩ := lib.dump_of_utf8 none ((utf8_eoseMessage subId).trans hsub)
  refine ⟨eose, heose, hloop, ?_⟩
  simp only [handleReq, getString, Option.getD_some]
  rcases hresult : reqLoop lib session subId filter s.events with ⟨sent, thrown⟩
  rw [hresult] at hloop
  subst hloop
  simp only [heose]

theorem onMessage_eoseMessage {subId eose : Bytes}
    (h : lib.dump none (eoseMessage subId) = some eose) : onMessage lib eose = none := by
  refine onMessage_pair (lib.parse_dump none _ eose ?_ h)
  simp [canonical_arr]

/-- A subscription makes the relay send every stored event that matches. -/
theorem mem_sent_subscribe (checkedAt recordedAt : UInt64) (hs : StoreReadable s)
    (hopen : session.isOpen = true) (hk : ∀ k ∈ kinds, IsInt k)
    (hraw : subscribe lib kinds authorPubkey eventId now = some raw) {e : StoredEvent}
    (he : e ∈ s.events) (hmatch : Matches (subscriptionFilter kinds authorPubkey eventId) e) :
    ∃ text, lib.dump none (eventMessage (lit "sub_" ++ decimal now) e) = some text ∧
      (session.fd, text) ∈ (handleClientMessage lib s session raw checkedAt recordedAt).sent := by
  have hsub : utf8 (lit "sub_" ++ decimal now) = true := by
    rw [utf8_append (utf8_lit _), utf8_decimal]
  obtain ⟨_, _, hloop, hhandle⟩ := handleReq_of_typed lib session hsub
    fun e he => ⟨filterTyped_subscription (e := e), fun _ => hs e he⟩
  obtain ⟨text, hdump, hsubset⟩ := reqLoop_complete lib session hloop he hmatch
  refine ⟨text, hdump, ?_⟩
  rw [handleClientMessage_req (parse_subscribe hk hraw), List.head?_cons, hhandle]
  apply List.mem_append_left
  apply hsubset
  rw [sendWsText_of_isOpen hopen, List.mem_singleton]

/-- The callbacks of a subscription are the matching events of the store. -/
theorem mem_callbacks_subscribe (hs : StoreReadable s) (hopen : session.isOpen = true)
    (hk : ∀ k ∈ kinds, IsInt k) (hraw : subscribe lib kinds authorPubkey eventId now = some raw)
    (re : RelayEvent) :
    re ∈ callbacks lib session.fd
        (handleClientMessage lib s session raw checkedAt recordedAt).sent ↔
      ∃ e ∈ s.events, Matches (subscriptionFilter kinds authorPubkey eventId) e ∧
        re = relayEvent e := by
  have hparse := parse_subscribe hk hraw
  have hsub : utf8 (lit "sub_" ++ decimal now) = true := by
    rw [utf8_append (utf8_lit _), utf8_decimal]
  obtain ⟨eose, heose, hloop, hhandle⟩ := handleReq_of_typed lib session hsub
    fun e he => ⟨filterTyped_subscription (e := e), fun _ => hs e he⟩
  rw [callbacks, handleClientMessage_req hparse, List.head?_cons, hhandle, List.mem_filterMap]
  constructor
  · intro h
    obtain ⟨text, htext, hre⟩ := h
    rcases List.mem_append.mp (mem_framesTo.mp htext) with hmem | hmem
    · obtain ⟨e, he, hmatch, text', hdump, hframe⟩ := reqLoop_sound hmem
      rw [sendWsText_of_isOpen hopen, List.mem_singleton, Prod.mk.injEq] at hframe
      rw [hframe.2, onMessage_eventMessage hdump] at hre
      exact ⟨e, he, hmatch, (Option.some.inj hre).symm⟩
    · rw [sendWsText_of_isOpen hopen, List.mem_singleton, Prod.mk.injEq] at hmem
      rw [hmem.2, onMessage_eoseMessage heose] at hre
      cases hre
  · intro h
    obtain ⟨e, he, hmatch, rfl⟩ := h
    obtain ⟨text, hdump, hsent⟩ := mem_sent_subscribe checkedAt recordedAt hs hopen hk hraw he hmatch
    rw [handleClientMessage_req hparse, List.head?_cons, hhandle] at hsent
    exact ⟨text, mem_framesTo.mpr hsent, onMessage_eventMessage hdump⟩

theorem flatMap_sendWsText (session : ClientSession) (texts : List Bytes) :
    texts.flatMap (sendWsText session) =
      if session.isOpen then texts.map fun text => (session.fd, text) else [] := by
  by_cases hopen : session.isOpen = true
  · rw [if_pos hopen, List.map_eq_flatMap]
    exact congrArg (List.flatMap · texts) (funext (sendWsText_of_isOpen hopen))
  · rw [if_neg hopen, List.flatMap_eq_nil_iff]
    exact fun _ _ => if_neg hopen

/-- The whole answer to a subscription: one `EVENT` for each stored event that it asks for, in
the order of the store and with its values, and the `EOSE` behind them.  The store stays as it
is, and nothing is sent on a session that is not open. -/
theorem subscription_answer (lib : JsonText) (s : RelayServer) (session : ClientSession)
    (now : Nat) (checkedAt recordedAt : UInt64) (hs : StoreReadable s)
    (hk : ∀ k ∈ kinds, IsInt k) (ha : utf8 authorPubkey = true) (hi : utf8 eventId = true) :
    ∃ raw texts eose, subscribe lib kinds authorPubkey eventId now = some raw ∧
      List.Forall₂ (fun e text => IsReply lib (lit "sub_" ++ decimal now) text e)
        (s.events.filter (asksFor kinds authorPubkey eventId)) texts ∧
      lib.parse eose = some (.arr [.str (lit "EOSE"), .str (lit "sub_" ++ decimal now)]) ∧
      handleClientMessage lib s session raw checkedAt recordedAt =
        ⟨s, if session.isOpen then (texts ++ [eose]).map fun text => (session.fd, text) else [],
          none⟩ := by
  have hsub : utf8 (lit "sub_" ++ decimal now) = true := by
    rw [utf8_append (utf8_lit _), utf8_decimal]
  obtain ⟨raw, hraw⟩ := subscribe_of_utf8 lib kinds now ha hi
  obtain ⟨eose, heose, hloop, hhandle⟩ := handleReq_of_typed lib session hsub
    fun e he => ⟨filterTyped_subscription (e := e), fun _ => hs e he⟩
  obtain ⟨texts, htexts, hsent⟩ := reqLoop_replies lib session hloop _ (asksFor_iff hk)
  refine ⟨raw, texts, eose, hraw, ?_, ?_, ?_⟩
  · exact htexts.imp fun e text h => isReply_eventMessage h
  · exact lib.parse_dump none _ eose (by simp [canonical_arr]) heose
  · rw [handleClientMessage_req (parse_subscribe hk hraw), List.head?_cons, hhandle, hsent,
      ← flatMap_sendWsText, List.flatMap_append, List.flatMap_singleton]

end answers

/-- A relay with a message of ann and one of bob. -/
def twoMessages : RelayServer :=
  { RelayServer.create { } with
    events := [⟨lit "1", lit "ann", 42, lit "hi", [], 1700000000, lit "s", 60⟩,
      ⟨lit "2", lit "bob", 42, lit "hello", [], 1700000005, lit "s", 60⟩] }

theorem subscription_answer_twoMessages :
    ∃ raw texts eose, subscribe Json.codec [42] (lit "bob") [] 9 = some raw ∧
      List.Forall₂ (fun e text => IsReply Json.codec (lit "sub_" ++ decimal 9) text e)
        [⟨lit "2", lit "bob", 42, lit "hello", [], 1700000005, lit "s", 60⟩] texts ∧
      Json.codec.parse eose = some (.arr [.str (lit "EOSE"), .str (lit "sub_" ++ decimal 9)]) ∧
      handleClientMessage Json.codec twoMessages ⟨0, true, true⟩ raw 9 9 =
        ⟨twoMessages, (texts ++ [eose]).map fun text => (0, text), none⟩ := by
  have hreadable : StoreReadable twoMessages := by
    unfold StoreReadable
    decide
  have hint : ∀ k ∈ [(42 : Int)], IsInt k := by
    unfold IsInt
    decide
  exact subscription_answer Json.codec twoMessages ⟨0, true, true⟩ 9 9 9 hreadable hint
    (utf8_lit _) utf8_nil

end LinuxLive
