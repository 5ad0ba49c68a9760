import LinuxLive.Gui.Chat
import LinuxLive.System.ChatJournal

/-!
# The texts of a chat

Whether the senders and contents of a chat can be saved.  The sender of a message without a
name in the cache is the first eight bytes of its public key, wherever these end.
-/

namespace LinuxLive

open App Json Persistence

def ChatMessage.Utf8 (m : ChatMessage) : Prop := utf8 m.sender = true ∧ utf8 m.content = true

/-- The strings of an event come out of a JSON parser, and GTK gives a text in UTF-8. -/
def AppOp.TextsUtf8 : AppOp → Prop
  | .relayEvent ev => utf8 ev.id = true ∧ utf8 ev.pubkey = true ∧ utf8 ev.content = true ∧
      utf8Tags ev.tags = true ∧ utf8 ev.sig = true
  | .sendMessage text .. => utf8 text = true
  | _ => True

namespace AppState

def Step (lib : JsonText) (ssl : OpenSSL) (s : AppState) (op : AppOp) (t : AppState) : Prop :=
  s.step lib ssl op = some t

/-- A channel message in an open chat comes with a name in the cache, with one's own key, or
with a key that is not cut inside a character; and the own name can be saved. -/
def NamesWhole (s : AppState) : AppOp → Prop
  | .relayEvent ev => ev.kind = 42 → s.currentNodeId ≠ [] →
      s.displayNameCache ev.pubkey = none → ev.pubkey ≠ currentPubkeyHex s.publicKey →
        utf8 (ev.pubkey.take 8) = true
  | .sendMessage text .. => s.currentNodeId ≠ [] → text ≠ [] →
      ∀ id, IdentityManager.load s.files.identity = some id → utf8 id.displayName = true
  | _ => True

/-- `save_messages` in `on_send_message` returns. -/
def SavesMessage (lib : JsonText) (s : AppState) : AppOp → Prop
  | .sendMessage text now _ _ => s.currentNodeId ≠ [] → text ≠ [] →
      ∃ t, saveChat lib { s with messages := s.messages ++ [writtenMessage s text now] } = some t
  | _ => True

/-- Every text that gets into a chat is UTF-8. -/
structure TextsUtf8 (s : AppState) : Prop where
  messages : ∀ m ∈ s.messages, m.Utf8
  cache : ∀ key name, s.displayNameCache key = some name → utf8 name = true
  current : utf8 s.currentNodeId = true
  nodes : ∀ n ∈ s.nodes, utf8 n.id = true

end AppState

/-- In every state that is reached the texts of the chat are UTF-8, and a message that is
sent next can be saved with it. -/
def ChatSavable (lib : JsonText) (ssl : OpenSSL) (files : AppFiles) (ops : List AppOp) : Prop :=
  ∀ l rest s, ops = l ++ rest → Run (AppState.Step lib ssl) (initSession lib files) l s →
    (∀ m ∈ s.messages, m.Utf8) ∧ ∀ op ∈ rest.head?, s.SavesMessage lib op

/-! ## One message -/

section message

variable {lib : JsonText} {s : AppState}

theorem exists_saveChat_iff (lib : JsonText) (hnode : utf8 s.currentNodeId = true)
    (messages : List ChatMessage) :
    (∃ t, saveChat lib { s with messages := messages } = some t) ↔ ∀ m ∈ messages, m.Utf8 := by
  have hsave : (saveMessages lib (messages.map (storedMessage s.currentNodeId))).2 = none ↔
      ∀ m ∈ messages, m.Utf8 := by
    rw [saveMessages, RecordCodec.save_iff, List.forall_mem_map]
    refine forall₂_congr fun m _ => ?_
    have hutf8 : StoredMessage.codec.utf8 (storedMessage s.currentNodeId m) = true ↔
        (utf8 m.sender = true ∧ utf8 m.content = true) := by
      simp [StoredMessage.codec, StoredMessage.utf8, storedMessage, hnode]
    exact hutf8
  rw [← hsave]
  unfold saveChat
  split
  · rename_i e hthrows
    rw [hthrows]
    simp
  · rename_i hsaved
    rw [hsaved]
    simp

theorem utf8_loadChat {file : Option Bytes} {m : ChatMessage} (hm : m ∈ loadChat lib file) :
    m.Utf8 := by
  obtain ⟨stored, hstored, rfl⟩ := List.mem_map.mp hm
  have hutf8 := StoredMessage.codec.utf8_load hstored
  have hparts : ((utf8 stored.senderPubkey = true ∧ utf8 stored.senderName = true) ∧
      utf8 stored.content = true) ∧ utf8 stored.nodeId = true := by
    simpa [StoredMessage.codec, StoredMessage.utf8] using hutf8
  exact ⟨hparts.1.1.2, hparts.1.2⟩

theorem utf8_profileName (lib : JsonText) (content : Bytes) :
    utf8 (profileName lib content) = true := by
  unfold profileName
  split
  · rfl
  · rename_i j hparse
    cases hvalue : j.value getString (lit "name") [] with
    | error e => rfl
    | ok name => exact utf8_value (lib.parse_utf8 _ _ hparse) utf8_nil hvalue

/-- The sender of a message is UTF-8 just if the cut through its key is no cut through a
character. -/
theorem utf8_resolveDisplayName (hcache : ∀ key name, s.displayNameCache key = some name →
    utf8 name = true) (pubkey : Bytes) : utf8 (resolveDisplayName s pubkey) = true ↔
      (s.displayNameCache pubkey = none → pubkey ≠ currentPubkeyHex s.publicKey →
        utf8 (pubkey.take 8) = true) := by
  unfold resolveDisplayName
  split
  · rename_i name hname
    exact iff_of_true (hcache _ _ hname) fun hnone => by rw [hname] at hnone; cases hnone
  · rename_i hnone
    split
    · rename_i hown
      exact iff_of_true (utf8_lit _) fun _ hother => absurd hown hother
    · rename_i hother
      rw [utf8_append (utf8_lit "@")]
      exact ⟨fun h _ _ => h, fun h => h hnone hother⟩

theorem utf8_writtenMessage {text : Bytes} (htext : utf8 text = true) (now : UInt64) :
    (writtenMessage s text now).Utf8 ↔
      ∀ id, IdentityManager.load s.files.identity = some id → utf8 id.displayName = true := by
  unfold writtenMessage ChatMessage.Utf8
  cases hload : IdentityManager.load s.files.identity with
  | none => simp [htext]
  | some id => simp [htext]

end message

/-! ## Steps -/

namespace AppState

variable {lib : JsonText} {ssl : OpenSSL} {s t : AppState} {op : AppOp}

theorem textsUtf8_initSession (lib : JsonText) (files : AppFiles) :
    (initSession lib files).TextsUtf8 where
  messages m hm := by cases hm
  cache key name hname := by cases hname
  current := rfl
  nodes n hn := by
    have hutf8 := utf8_loadPersistedData hn
    simp only [StoredNode.utf8, NodeInfo.stored, Bool.and_eq_true] at hutf8
    tauto

theorem TextsUtf8.closeChat (h : s.TextsUtf8) : (App.closeChat s).TextsUtf8 where
  messages m hm := by cases hm
  cache := h.cache
  current := rfl
  nodes := h.nodes

theorem forall_update {cache : Bytes → Option Bytes} {key name : Bytes}
    (hcache : ∀ key name, cache key = some name → utf8 name = true) (hname : utf8 name = true) :
    ∀ key' name', Function.update cache key (some name) key' = some name' →
      utf8 name' = true := by
  intro key' name' hupdate
  rw [Function.update_apply] at hupdate
  split at hupdate
  · cases hupdate
    exact hname
  · exact hcache key' name' hupdate

/-- The message is the only text that a channel event adds. -/
theorem TextsUtf8.relayEvent {ev : RelayEvent} (h : s.TextsUtf8) (htexts : utf8 ev.content = true)
    (hwhole : s.NamesWhole (.relayEvent ev)) : (onRelayEvent lib ev s).TextsUtf8 := by
  unfold onRelayEvent
  split
  · dsimp only
    split
    · exact ⟨h.messages, forall_update h.cache (utf8_profileName lib ev.content), h.current,
        h.nodes⟩
    · exact h
  · split
    · rename_i hopen
      refine ⟨fun m hm => ?_, h.cache, h.current, h.nodes⟩
      rcases List.mem_append.mp hm with hm | hm
      · exact h.messages m hm
      · rw [List.mem_singleton.mp hm]
        exact ⟨(utf8_resolveDisplayName h.cache ev.pubkey).mpr (hwhole hopen.1 hopen.2), htexts⟩
    · exact h

theorem TextsUtf8.chatNodeClicked {idx : Int} (h : s.TextsUtf8)
    (hstep : onChatNodeClicked lib idx s = some t) : t.TextsUtf8 := by
  obtain ⟨_, rfl⟩ | ⟨node, hnode, _, rfl⟩ := onChatNodeClicked_spec hstep
  · exact h
  · exact ⟨fun m hm => utf8_loadChat hm, h.cache, h.nodes node (mem_of_nodeAt hnode), h.nodes⟩

theorem TextsUtf8.createNode {name : Bytes} {nodeKp : KeyPair} {now : UInt64} {connected : Bool}
    (h : s.TextsUtf8) (hstep : onCreateNode lib ssl name nodeKp now connected s = some t) :
    t.TextsUtf8 := by
  obtain rfl | ⟨nd, id, file, sent, hid, rfl⟩ := onCreateNode_spec hstep
  · exact h
  · refine ⟨h.messages, h.cache, h.current, fun n hn => ?_⟩
    rcases List.mem_append.mp hn with hn | hn
    · exact h.nodes n hn
    · rw [List.mem_singleton.mp hn, hid]
      exact utf8_decimal id

theorem TextsUtf8.nodeToggle {idx : Int} (h : s.TextsUtf8)
    (hstep : onNodeToggle lib idx s = some t) : t.TextsUtf8 := by
  obtain ⟨_, rfl⟩ | ⟨n, file, hnode, rfl⟩ := onNodeToggle_spec hstep
  · exact h
  · have hset : TextsUtf8 { s with
        nodes := s.nodes.set idx.toNat { n with running := !n.running }
        files := { s.files with nodes := some file } } := by
      refine ⟨h.messages, h.cache, h.current, fun m hm => ?_⟩
      rcases List.mem_or_eq_of_mem_set hm with hm | rfl
      · exact h.nodes m hm
      · exact h.nodes n (mem_of_nodeAt hnode)
    split
    · exact hset.closeChat
    · exact hset

theorem TextsUtf8.nodeDelete {idx : Int} (h : s.TextsUtf8)
    (hstep : onNodeDelete lib idx s = some t) : t.TextsUtf8 := by
  obtain ⟨_, rfl⟩ | ⟨n, file, _, rfl⟩ := onNodeDelete_spec hstep
  · exact h
  · have herase : TextsUtf8 { s with
        nodes := s.nodes.eraseIdx idx.toNat
        files := { s.files with nodes := some file } } :=
      ⟨h.messages, h.cache, h.current, fun m hm => h.nodes m (List.mem_of_mem_eraseIdx hm)⟩
    split
    · exact herase.closeChat
    · exact herase

/-- The name of a profile that was sent is one that could be written. -/
theorem TextsUtf8.relayConnected {now : UInt64} {now₁ now₂ now₃ : Nat} (h : s.TextsUtf8)
    (hstep : onRelayConnected lib ssl now now₁ now₂ now₃ s = some t) : t.TextsUtf8 := by
  obtain ⟨sent, cache, rfl, hcache⟩ := onRelayConnected_spec hstep
  refine ⟨h.messages, ?_, h.current, h.nodes⟩
  obtain rfl | ⟨own, displayName, hutf8, rfl⟩ := hcache
  · exact h.cache
  · exact forall_update h.cache hutf8

theorem TextsUtf8.step (h : s.TextsUtf8) (htexts : op.TextsUtf8) (hwhole : s.NamesWhole op)
    (hstep : Step lib ssl s op t) : t.TextsUtf8 := by
  cases op with
  | createNode name secretKey hlen now connected => exact h.createNode hstep
  | nodeToggle idx => exact h.nodeToggle hstep
  | nodeDelete idx => exact h.nodeDelete hstep
  | chatNodeClicked idx => exact h.chatNodeClicked hstep
  | backToNodes =>
      cases hstep
      exact h
  | sendMessage text now sentAt connected =>
      obtain ⟨_, rfl⟩ | ⟨hnode, htext, file, sent, _, rfl⟩ := onSendMessage_cases hstep
      · exact h
      · refine ⟨fun m hm => ?_, h.cache, h.current, h.nodes⟩
        rcases List.mem_append.mp hm with hm | hm
        · exact h.messages m hm
        · rw [List.mem_singleton.mp hm]
          exact (utf8_writtenMessage htexts now).mpr (hwhole hnode htext)
  | relayConnected now now₁ now₂ now₃ => exact h.relayConnected hstep
  | relayEvent ev =>
      cases hstep
      exact h.relayEvent htexts.2.2.1 hwhole

theorem TextsUtf8.savesMessage (h : s.TextsUtf8) (htexts : op.TextsUtf8)
    (hwhole : s.NamesWhole op) : s.SavesMessage lib op := by
  cases op with
  | sendMessage text now sentAt connected =>
      intro hnode htext
      refine (exists_saveChat_iff lib h.current _).mpr fun m hm => ?_
      rcases List.mem_append.mp hm with hm | hm
      · exact h.messages m hm
      · rw [List.mem_singleton.mp hm]
        exact (utf8_writtenMessage htexts now).mpr (hwhole hnode htext)
  | _ => trivial

/-- What can be saved, before and behind a step, shows that no name was cut. -/
theorem TextsUtf8.namesWhole (h : s.TextsUtf8) (ssl : OpenSSL) (htexts : op.TextsUtf8)
    (hsaves : s.SavesMessage lib op)
    (hafter : ∀ t, Step lib ssl s op t → ∀ m ∈ t.messages, m.Utf8) : s.NamesWhole op := by
  cases op with
  | relayEvent ev =>
      intro hkind hnode
      have hstep : Step lib ssl s (.relayEvent ev) (onRelayEvent lib ev s) := rfl
      have hmessages := hafter _ hstep
      rw [onRelayEvent_message hkind hnode] at hmessages
      have hutf8 := hmessages (receivedMessage s ev) (List.mem_append_right _ List.mem_cons_self)
      exact (utf8_resolveDisplayName h.cache ev.pubkey).mp hutf8.1
  | sendMessage text now sentAt connected =>
      intro hnode htext
      have hmessages := (exists_saveChat_iff lib h.current _).mp (hsaves hnode htext)
      have hutf8 := hmessages (writtenMessage s text now)
        (List.mem_append_right _ List.mem_cons_self)
      exact (utf8_writtenMessage htexts now).mp hutf8
  | _ => trivial

/-- Behind a message with a cut name no message can be saved with the chat. -/
theorem not_savesMessage_of_cut {ev : RelayEvent} {text : Bytes} {now sentAt : UInt64}
    {connected : Bool} (h : s.TextsUtf8) (hkind : ev.kind = 42) (hnode : s.currentNodeId ≠ [])
    (hcut : ¬ s.NamesWhole (.relayEvent ev)) (htext : text ≠ []) :
    ¬ (onRelayEvent lib ev s).SavesMessage lib (.sendMessage text now sentAt connected) := by
  intro hsaves
  rw [onRelayEvent_message hkind hnode] at hsaves
  have hmessages := (exists_saveChat_iff lib h.current _).mp (hsaves hnode htext)
  have hutf8 := hmessages (receivedMessage s ev) (by simp)
  exact hcut fun _ _ => (utf8_resolveDisplayName h.cache ev.pubkey).mp hutf8.1

end AppState

/-! ## Runs -/

section runs

variable {lib : JsonText} {ssl : OpenSSL} {files : AppFiles} {ops : List AppOp}

theorem textsUtf8_of_guarded {s t : AppState} (hops : ∀ op ∈ ops, op.TextsUtf8)
    (h : Guarded (AppState.Step lib ssl) AppState.NamesWhole s ops)
    (hrun : Run (AppState.Step lib ssl) s ops t) (hs : s.TextsUtf8) : t.TextsUtf8 := by
  induction hrun with
  | nil s => exact hs
  | cons hstep hrun ih =>
      obtain ⟨hop, hops⟩ := List.forall_mem_cons.mp hops
      have hwhole := h [] _ _ _ rfl (.nil _)
      exact ih hops (h.after (l := [_]) (.single hstep)) (hs.step hop hwhole hstep)

theorem guarded_of_savable (hops : ∀ op ∈ ops, op.TextsUtf8)
    (h : ChatSavable lib ssl files ops) :
    Guarded (AppState.Step lib ssl) AppState.NamesWhole (initSession lib files) ops := by
  intro l op rest s hsplit hrun
  induction hl : l.length using Nat.strongRecOn generalizing l op rest s with
  | ind n ih =>
      have hbefore : Guarded (AppState.Step lib ssl) AppState.NamesWhole
          (initSession lib files) l := by
        intro l₁ a l₂ t hl₁ hrun₁
        have hlt : l₁.length < n := by
          rw [← hl, hl₁, List.length_append, List.length_cons]
          omega
        exact ih _ hlt l₁ a (l₂ ++ op :: rest) t (by simp [hsplit, hl₁]) hrun₁ rfl
      have htexts : ∀ a ∈ l, a.TextsUtf8 := fun a ha => hops a (by simp [hsplit, ha])
      have hs := textsUtf8_of_guarded htexts hbefore hrun
        (AppState.textsUtf8_initSession lib files)
      have hsaves := (h l (op :: rest) s hsplit hrun).2 op rfl
      refine hs.namesWhole ssl (hops op (by simp [hsplit])) hsaves fun t hstep => ?_
      exact (h (l ++ [op]) rest t (by simp [hsplit]) (hrun.append (.single hstep))).1

end runs

/-- The chat can be saved throughout a run exactly if no name in it is cut inside a
character. -/
theorem chatSavable_iff (lib : JsonText) (ssl : OpenSSL) (files : AppFiles) (ops : List AppOp)
    (hops : ∀ op ∈ ops, op.TextsUtf8) : ChatSavable lib ssl files ops ↔
      Guarded (AppState.Step lib ssl) AppState.NamesWhole (initSession lib files) ops := by
  constructor
  · exact guarded_of_savable hops
  · intro h l rest s hsplit hrun
    have hl : Guarded (AppState.Step lib ssl) AppState.NamesWhole (initSession lib files) l :=
      Guarded.of_append (hsplit ▸ h)
    have hs := textsUtf8_of_guarded (fun op hop => hops op (by simp [hsplit, hop])) hl hrun
      (AppState.textsUtf8_initSession lib files)
    refine ⟨hs.messages, fun op hop => ?_⟩
    cases rest with
    | nil => cases hop
    | cons next rest =>
        cases hop
        exact hs.savesMessage (hops op (by simp [hsplit])) (h l op rest s hsplit hrun)

/-- The eighth byte of the key is the first one of a character of two. -/
def cutEvent : RelayEvent where
  id := lit "1"
  pubkey := lit "1234567é"
  kind := 42
  content := lit "hi"
  tags := [[lit "e", lit "7"]]
  createdAt := 1700000000
  sig := []

def cutOps : List AppOp :=
  [.chatNodeClicked 0, .relayEvent cutEvent, .sendMessage (lit "hello") 1700000001 1700000001 false]

theorem textsUtf8_cutOps : ∀ op ∈ cutOps, op.TextsUtf8 := by
  have htexts : utf8 cutEvent.id = true ∧ utf8 cutEvent.pubkey = true ∧
      utf8 cutEvent.content = true ∧ utf8Tags cutEvent.tags = true ∧ utf8 cutEvent.sig = true := by
    decide
  intro op hop
  simp only [cutOps, List.mem_cons, List.not_mem_nil, or_false] at hop
  rcases hop with rfl | rfl | rfl
  · trivial
  · exact htexts
  · exact utf8_lit _

theorem chatSavable_iff_cutOps : ChatSavable Json.codec sampleSSL lanFiles cutOps ↔
    Guarded (AppState.Step Json.codec sampleSSL) AppState.NamesWhole
      (initSession Json.codec lanFiles) cutOps :=
  chatSavable_iff Json.codec sampleSSL lanFiles cutOps textsUtf8_cutOps

/-- The message of such a key is in the chat, and the next one that is sent cannot be saved. -/
theorem cut_name_is_not_saved :
    (∀ op ∈ cutOps, op.TextsUtf8) ∧ ¬ ChatSavable Json.codec sampleSSL lanFiles cutOps := by
  refine ⟨textsUtf8_cutOps, fun h => ?_⟩
  have hstart := AppState.textsUtf8_initSession Json.codec lanFiles
  have hclick : AppState.Step Json.codec sampleSSL (initSession Json.codec lanFiles)
      (.chatNodeClicked 0) { initSession Json.codec lanFiles with currentNodeId := lit "7" } :=
    onChatNodeClicked_lan
  have hrun : Run (AppState.Step Json.codec sampleSSL) (initSession Json.codec lanFiles)
      [.chatNodeClicked 0, .relayEvent cutEvent] _ := .cons hclick (.single rfl)
  have hsaves := (h _ [.sendMessage (lit "hello") 1700000001 1700000001 false] _ rfl hrun).2 _ rfl
  have hopened := hstart.chatNodeClicked onChatNodeClicked_lan
  refine AppState.not_savesMessage_of_cut hopened rfl (by decide) ?_ ?_ hsaves
  · intro hwhole
    have hown : cutEvent.pubkey ≠ currentPubkeyHex none := by decide
    exact absurd (hwhole rfl (by decide) rfl hown) (by decide)
  · decide

end LinuxLive
