import LinuxLive.Core.DataDirectory
import LinuxLive.Core.RelayUrl
import LinuxLive.Gui.App
import LinuxLive.Gui.Nodes
import LinuxLive.Lib.Runs
import Mathlib.Logic.Function.Basic

/-!
# The chat

The handlers of the chat page, the callbacks of the relay connection, and the steps that the
application takes in any order.
-/

namespace LinuxLive

open Json Persistence

namespace App

def storedMessage (nodeId : Bytes) (m : ChatMessage) : StoredMessage :=
  ⟨[], m.sender, m.content, m.timestamp, nodeId, m.isEncrypted⟩

def loadChat (lib : JsonText) (file : Option Bytes) : List ChatMessage :=
  (loadMessages lib file).map fun m => {
    sender := m.senderName
    content := m.content
    timestamp := m.timestamp
    isEncrypted := m.isEncrypted }

/-- The file of the messages of a node, by its path from the data directory on. -/
def messagesPath (nodeId : Bytes) : List Bytes :=
  Paths.resolve (lit "messages/" ++ nodeId ++ lit ".json")

def openChat (lib : JsonText) (node : NodeInfo) (s : AppState) : AppState := {
  s with
  currentNodeId := node.id
  messages := loadChat lib (s.files.messages (messagesPath node.id)) }

/-- The load returns, and so does the parse of the URL in `connect_to_relay`. -/
def opensChat (lib : JsonText) (node : NodeInfo) (s : AppState) : Bool :=
  StoredMessage.codec.loads lib (s.files.messages (messagesPath node.id)) &&
    (node.relayUrl.isEmpty || (WsClient.parseWsUrl node.relayUrl).isOk)

/-- `on_chat_node_clicked`; what the connection to the relay of the node brings are steps of
their own. -/
def onChatNodeClicked (lib : JsonText) (idx : Int) (s : AppState) : Option AppState :=
  match nodeAt idx s with
  | none => some s
  | some node => if opensChat lib node s then some (openChat lib node s) else none

/-- `on_back_to_nodes` shows another page. -/
def onBackToNodes (s : AppState) : AppState := s

def saveChat (lib : JsonText) (s : AppState) : Option AppState :=
  match saveMessages lib (s.messages.map (storedMessage s.currentNodeId)) with
  | (_, some _) => none
  | (file, none) =>
      let path := messagesPath s.currentNodeId
      let messages := Function.update s.files.messages path (some file)
      some { s with files := { s.files with messages := messages } }

def writtenMessage (s : AppState) (text : Bytes) (now : UInt64) : ChatMessage :=
  let id := IdentityManager.load s.files.identity
  { sender := (id.map Identity.displayName).getD (lit "You")
    content := text
    timestamp := now
    isEncrypted := false }

/-- `on_send_message`, where `send_channel_message` reads the clock once more; the keys of an
identity are never refused by it. -/
def onSendMessage (lib : JsonText) (ssl : OpenSSL) (text : Bytes) (now sentAt : UInt64)
    (connected : Bool) (s : AppState) : Option AppState :=
  if s.currentNodeId = [] then some s
  else if text = [] then some s
  else
    (saveChat lib { s with messages := s.messages ++ [writtenMessage s text now] }).bind fun s =>
      match connected, IdentityManager.load s.files.identity with
      | true, some id =>
          (RelayClient.sendChannelMessage lib ssl s.currentNodeId text
            (IdentityManager.keyToHex id.secretKey) (IdentityManager.keyToHex id.publicKey)
            sentAt).map fun raw => { s with sent := s.sent ++ [raw] }
      | _, _ => some s

def resolveDisplayName (s : AppState) (pubkey : Bytes) : Bytes :=
  match s.displayNameCache pubkey with
  | some name => name
  | none =>
      if pubkey = currentPubkeyHex s.publicKey then lit "You"
      else lit "@" ++ pubkey.take 8

/-- The name in the content of a profile event; exceptions end in `catch (...) {}`. -/
def profileName (lib : JsonText) (content : Bytes) : Bytes :=
  match lib.parse content with
  | none => []
  | some j => ((j.value getString (lit "name") []).toOption).getD []

def receivedMessage (s : AppState) (ev : RelayEvent) : ChatMessage where
  sender := resolveDisplayName s ev.pubkey
  content := ev.content
  timestamp := ev.createdAt
  isEncrypted := false

/-- The event callback of `connect_to_relay`. -/
def onRelayEvent (lib : JsonText) (ev : RelayEvent) (s : AppState) : AppState :=
  if ev.kind = 0 then
    let name := profileName lib ev.content
    if name ≠ [] ∧ ev.pubkey ≠ [] then
      { s with displayNameCache := Function.update s.displayNameCache ev.pubkey (some name) }
    else s
  else if ev.kind = 42 ∧ s.currentNodeId ≠ [] then
    { s with messages := s.messages ++ [receivedMessage s ev] }
  else s

/-- `publish_profile` on a connected client. -/
def publishProfile (lib : JsonText) (ssl : OpenSSL) (now : UInt64) (s : AppState) :
    Option AppState :=
  match IdentityManager.load s.files.identity with
  | none => some s
  | some id =>
      let displayName := if id.displayName = [] then lit "User" else id.displayName
      (RelayClient.sendProfile lib ssl displayName [] (IdentityManager.keyToHex id.secretKey)
        (IdentityManager.keyToHex id.publicKey) now).map fun raw =>
          let key := currentPubkeyHex s.publicKey
          { s with
            sent := s.sent ++ [raw]
            displayNameCache := Function.update s.displayNameCache key (some displayName) }

/-- The connect callback of `connect_to_relay`. -/
def onRelayConnected (lib : JsonText) (ssl : OpenSSL) (now : UInt64) (now₁ now₂ now₃ : Nat)
    (s : AppState) : Option AppState :=
  (publishProfile lib ssl now s).map fun s =>
    let subscriptions := connectSubscriptions lib s.publicKey s.currentNodeId now₁ now₂ now₃
    { s with sent := s.sent ++ subscriptions }

/-! ## What the handlers leave of the chat -/

section handlers

variable {lib : JsonText} {ssl : OpenSSL} {s t : AppState}

def SameChat (s t : AppState) : Prop :=
  t.currentNodeId = s.currentNodeId ∧ t.messages = s.messages ∧
    t.files.messages = s.files.messages

theorem loadChat_saved {messages : List ChatMessage} {nodeId : Bytes}
    (h : (saveMessages lib (messages.map (storedMessage nodeId))).2 = none) :
    loadChat lib (some (saveMessages lib (messages.map (storedMessage nodeId))).1) = messages := by
  have hload := StoredMessage.codec.load_saved h
  rw [loadChat, loadMessages, saveMessages, hload, List.map_map]
  exact List.map_id messages

theorem saveChat_spec (h : saveChat lib s = some t) :
    ∃ file, loadChat lib (some file) = s.messages ∧
      t = { s with files := { s.files with
        messages :=
          Function.update s.files.messages (messagesPath s.currentNodeId) (some file) } } := by
  unfold saveChat at h
  split at h
  · cases h
  · rename_i file hsave
    have hnone : (saveMessages lib (s.messages.map (storedMessage s.currentNodeId))).2 = none :=
      congrArg Prod.snd hsave
    have hload := loadChat_saved hnone
    rw [hsave] at hload
    exact ⟨file, hload, (Option.some.inj h).symm⟩

theorem onChatNodeClicked_of_opens {idx : Int} {node : NodeInfo} (hnode : nodeAt idx s = some node)
    (hopens : opensChat lib node s = true) :
    onChatNodeClicked lib idx s = some (openChat lib node s) := by
  rw [onChatNodeClicked, hnode]
  exact if_pos hopens

theorem onChatNodeClicked_spec {idx : Int} (h : onChatNodeClicked lib idx s = some t) :
    nodeAt idx s = none ∧ t = s ∨ ∃ node, nodeAt idx s = some node ∧
      opensChat lib node s = true ∧ t = openChat lib node s := by
  unfold onChatNodeClicked at h
  split at h
  · exact .inl ⟨‹_›, (Option.some.inj h).symm⟩
  · rename_i node hnode
    split at h
    · exact .inr ⟨node, hnode, ‹_›, (Option.some.inj h).symm⟩
    · cases h

theorem sameChat_createNode {name : Bytes} {nodeKp : KeyPair} {now : UInt64} {connected : Bool}
    (h : onCreateNode lib ssl name nodeKp now connected s = some t) : SameChat s t := by
  obtain rfl | ⟨_, _, _, _, _, rfl⟩ := onCreateNode_spec h
  · exact ⟨rfl, rfl, rfl⟩
  · exact ⟨rfl, rfl, rfl⟩

/-- The name in a profile that is sent is one that can be written. -/
theorem utf8_of_sendProfile {displayName bio privkey pubkey raw : Bytes} {now : UInt64}
    (h : RelayClient.sendProfile lib ssl displayName bio privkey pubkey now = some raw) :
    utf8 displayName = true := by
  obtain ⟨content, hdump, _⟩ := Option.bind_eq_some_iff.mp h
  have hobject : object [(lit "name", .str displayName), (lit "about", .str bio)] =
      .obj [(lit "about", .str bio), (lit "name", .str displayName)] := rfl
  have hutf8 := lib.utf8_of_dump hdump
  rw [hobject, utf8_obj] at hutf8
  exact (hutf8 (lit "name", .str displayName) (by simp)).2

/-- A connection sends texts, and the cache may get the name of the profile. -/
theorem onRelayConnected_spec {now : UInt64} {now₁ now₂ now₃ : Nat}
    (h : onRelayConnected lib ssl now now₁ now₂ now₃ s = some t) :
    ∃ sent cache, t = { s with sent := sent, displayNameCache := cache } ∧
      (cache = s.displayNameCache ∨ ∃ key name, utf8 name = true ∧
        cache = Function.update s.displayNameCache key (some name)) := by
  obtain ⟨u, hprofile, rfl⟩ := Option.map_eq_some_iff.mp h
  unfold publishProfile at hprofile
  split at hprofile
  · cases hprofile
    exact ⟨_, _, rfl, .inl rfl⟩
  · obtain ⟨raw, hraw, rfl⟩ := Option.map_eq_some_iff.mp hprofile
    exact ⟨_, _, rfl, .inr ⟨_, _, utf8_of_sendProfile hraw, rfl⟩⟩

theorem sameChat_relayConnected {now : UInt64} {now₁ now₂ now₃ : Nat}
    (h : onRelayConnected lib ssl now now₁ now₂ now₃ s = some t) : SameChat s t := by
  obtain ⟨_, _, rfl, _⟩ := onRelayConnected_spec h
  exact ⟨rfl, rfl, rfl⟩

/-- Without a chat or a text nothing is done; else the message is added, and the chat is
saved. -/
theorem onSendMessage_cases {text : Bytes} {now sentAt : UInt64} {connected : Bool}
    (h : onSendMessage lib ssl text now sentAt connected s = some t) :
    (s.currentNodeId = [] ∨ text = []) ∧ t = s ∨ s.currentNodeId ≠ [] ∧ text ≠ [] ∧
      ∃ file sent, loadChat lib (some file) = s.messages ++ [writtenMessage s text now] ∧
        t = { s with
          messages := s.messages ++ [writtenMessage s text now]
          files := { s.files with
            messages :=
              Function.update s.files.messages (messagesPath s.currentNodeId) (some file) }
          sent := sent } := by
  unfold onSendMessage at h
  split at h
  · exact .inl ⟨.inl ‹_›, (Option.some.inj h).symm⟩
  · rename_i hnode
    split at h
    · exact .inl ⟨.inr ‹_›, (Option.some.inj h).symm⟩
    · rename_i htext
      obtain ⟨u, hsave, h⟩ := Option.bind_eq_some_iff.mp h
      obtain ⟨file, hload, rfl⟩ := saveChat_spec hsave
      split at h
      · obtain ⟨raw, _, rfl⟩ := Option.map_eq_some_iff.mp h
        exact .inr ⟨hnode, htext, file, _, hload, rfl⟩
      · cases h
        exact .inr ⟨hnode, htext, file, _, hload, rfl⟩

theorem onRelayEvent_message {ev : RelayEvent} (hkind : ev.kind = 42) (hnode : s.currentNodeId ≠ []) :
    onRelayEvent lib ev s = { s with messages := s.messages ++ [receivedMessage s ev] } := by
  have hprofile : ¬ ev.kind = 0 := by omega
  rw [onRelayEvent, if_neg hprofile, if_pos ⟨hkind, hnode⟩]

end handlers

end App

/-- What the user and the relay do; clocks, drawn keys and the state of the connection are
what the handlers find. -/
inductive AppOp where
  | createNode (name secretKey : Bytes) (h : secretKey.length = 32) (now : UInt64)
      (connected : Bool)
  | nodeToggle (idx : Int)
  | nodeDelete (idx : Int)
  | chatNodeClicked (idx : Int)
  | backToNodes
  | sendMessage (text : Bytes) (now sentAt : UInt64) (connected : Bool)
  | relayConnected (now : UInt64) (now₁ now₂ now₃ : Nat)
  | relayEvent (ev : RelayEvent)

namespace AppState

open App

/-- `none`: the program has ended with an exception. -/
def step (lib : JsonText) (ssl : OpenSSL) (s : AppState) : AppOp → Option AppState
  | .createNode name secretKey h now connected =>
      onCreateNode lib ssl name (generateKeypair ssl secretKey h) now connected s
  | .nodeToggle idx => onNodeToggle lib idx s
  | .nodeDelete idx => onNodeDelete lib idx s
  | .chatNodeClicked idx => onChatNodeClicked lib idx s
  | .backToNodes => some (onBackToNodes s)
  | .sendMessage text now sentAt connected => onSendMessage lib ssl text now sentAt connected s
  | .relayConnected now now₁ now₂ now₃ => onRelayConnected lib ssl now now₁ now₂ now₃ s
  | .relayEvent ev => some (onRelayEvent lib ev s)

end AppState

/-! ## Ids in file names -/

namespace App

/-- The ids of the nodes can stand in the name of a file. -/
def Named (nodes : List NodeInfo) : Prop := ∀ n ∈ nodes, 47 ∉ n.id ∧ 0 ∉ n.id

section named

variable {lib : JsonText} {ssl : OpenSSL} {s t : AppState} {op : AppOp}

theorem messagesPath_inj {n m : Bytes} (hn : 47 ∉ n ∧ 0 ∉ n) (hm : 47 ∉ m ∧ 0 ∉ m) :
    messagesPath n = messagesPath m ↔ n = m := by
  have hdir : 0 ∉ lit "messages" := by decide
  have hpath : ∀ {id : Bytes}, 47 ∉ id ∧ 0 ∉ id → messagesPath id =
      Paths.resolve (lit "messages") ++ [id ++ lit ".json"] := fun hid =>
    Paths.resolve_child hdir (DataFile.isName_json hid.1 hid.2)
  rw [hpath hn, hpath hm, List.append_cancel_left_eq, List.cons.injEq,
    List.append_cancel_right_eq]
  simp

/-- New nodes get a number for their id, and no other id is added. -/
theorem named_step (h : Named s.nodes) (hstep : s.step lib ssl op = some t) : Named t.nodes := by
  cases op with
  | createNode name secretKey hlen now connected =>
      obtain rfl | ⟨nd, id, file, sent, hid, rfl⟩ := onCreateNode_spec hstep
      · exact h
      · intro n hn
        rcases List.mem_append.mp hn with hn | hn
        · exact h n hn
        · rw [List.mem_singleton.mp hn, hid]
          exact ⟨fun h47 => absurd (isDigit_of_mem_decimal h47) (by decide),
            fun h0 => absurd (isDigit_of_mem_decimal h0) (by decide)⟩
  | nodeToggle idx =>
      obtain ⟨_, rfl⟩ | ⟨n, file, hnode, rfl⟩ := onNodeToggle_spec hstep
      · exact h
      · have hset : Named (s.nodes.set idx.toNat { n with running := !n.running }) := by
          intro m hm
          rcases List.mem_or_eq_of_mem_set hm with hm | rfl
          · exact h m hm
          · exact h n (mem_of_nodeAt hnode)
        split
        · exact hset
        · exact hset
  | nodeDelete idx =>
      obtain ⟨_, rfl⟩ | ⟨n, file, _, rfl⟩ := onNodeDelete_spec hstep
      · exact h
      · have herase : Named (s.nodes.eraseIdx idx.toNat) :=
          fun m hm => h m (List.mem_of_mem_eraseIdx hm)
        split
        · exact herase
        · exact herase
  | chatNodeClicked idx =>
      obtain ⟨_, rfl⟩ | ⟨_, _, _, rfl⟩ := onChatNodeClicked_spec hstep
      · exact h
      · exact h
  | backToNodes =>
      cases hstep
      exact h
  | sendMessage text now sentAt connected =>
      obtain ⟨_, rfl⟩ | ⟨_, _, _, _, _, rfl⟩ := onSendMessage_cases hstep
      · exact h
      · exact h
  | relayConnected now now₁ now₂ now₃ =>
      obtain ⟨_, _, rfl, _⟩ := onRelayConnected_spec hstep
      exact h
  | relayEvent ev =>
      cases hstep
      unfold onRelayEvent
      split
      · dsimp only
        split <;> exact h
      · split <;> exact h

end named

end App

end LinuxLive
