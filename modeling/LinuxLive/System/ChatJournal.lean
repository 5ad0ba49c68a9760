import LinuxLive.Gui.Chat
import LinuxLive.Lib.Journal
import Mathlib.Data.List.Basic

/-!
# The chat as a journal

The chats of the nodes as journals whose messages know where they come from; every step of
the application is a step of the journal.
-/

namespace LinuxLive

open App

/-- Where a message comes from: the file of a node at the start, the input of a user with the
chat of a node open, or an event with its tags. -/
inductive Origin where
  | stored (nodeId : Bytes)
  | written (nodeId : Bytes)
  | received (tags : List (List Bytes))

/-- The channel that a message was sent to; an event names it in a tag. -/
def Origin.SentTo (nodeId : Bytes) : Origin → Prop
  | .stored n => n = nodeId
  | .written n => n = nodeId
  | .received tags => [lit "e", nodeId] ∈ tags

structure Sourced where
  message : ChatMessage
  origin : Origin

abbrev ChatJournal := Journal Bytes Sourced

def toggleAct (idx : Int) (s : AppState) : Journal.Act Bytes Sourced :=
  match nodeAt idx s with
  | none => .keep
  | some n => if n.running && decide (s.currentNodeId = n.id) then .leave else .keep

def deleteAct (idx : Int) (s : AppState) : Journal.Act Bytes Sourced :=
  match nodeAt idx s with
  | none => .keep
  | some n => if n.id = s.currentNodeId then .leave else .keep

def openAct (idx : Int) (s : AppState) : Journal.Act Bytes Sourced :=
  match nodeAt idx s with
  | none => .keep
  | some node => .load node.id

def sendAct (text : Bytes) (now : UInt64) (s : AppState) : Journal.Act Bytes Sourced :=
  if text = [] then .keep
  else .save ⟨writtenMessage s text now, .written s.currentNodeId⟩

def receiveAct (ev : RelayEvent) (s : AppState) : Journal.Act Bytes Sourced :=
  if ev.kind = 42 then .note ⟨receivedMessage s ev, .received ev.tags⟩ else .keep

/-- What a step of the application does to the chat. -/
def chatAct (s : AppState) : AppOp → Journal.Act Bytes Sourced
  | .createNode .. => .keep
  | .nodeToggle idx => toggleAct idx s
  | .nodeDelete idx => deleteAct idx s
  | .chatNodeClicked idx => openAct idx s
  | .backToNodes => .keep
  | .sendMessage text now _ _ => sendAct text now s
  | .relayConnected .. => .keep
  | .relayEvent ev => receiveAct ev s

/-- The messages that are added, and the click that loads a chat. -/
inductive ActOf (s : AppState) : AppOp → Journal.Act Bytes Sourced → Prop where
  | keep (op : AppOp) : ActOf s op .keep
  | leave (op : AppOp) : ActOf s op .leave
  | load (idx : Int) (node : NodeInfo) (h : nodeAt idx s = some node) :
      ActOf s (.chatNodeClicked idx) (.load node.id)
  | save (text : Bytes) (now sentAt : UInt64) (connected : Bool) :
      ActOf s (.sendMessage text now sentAt connected)
        (.save ⟨writtenMessage s text now, .written s.currentNodeId⟩)
  | note (ev : RelayEvent) (h : ev.kind = 42) :
      ActOf s (.relayEvent ev) (.note ⟨receivedMessage s ev, .received ev.tags⟩)

section acts

variable {s : AppState} {op : AppOp} {m : Sourced} {n : Bytes}

theorem actOf (s : AppState) (op : AppOp) : ActOf s op (chatAct s op) := by
  cases op with
  | nodeToggle idx =>
      simp only [chatAct, toggleAct]
      split
      · exact .keep _
      · split
        · exact .leave _
        · exact .keep _
  | nodeDelete idx =>
      simp only [chatAct, deleteAct]
      split
      · exact .keep _
      · split
        · exact .leave _
        · exact .keep _
  | chatNodeClicked idx =>
      simp only [chatAct, openAct]
      split
      · exact .keep _
      · exact .load idx _ ‹_›
  | sendMessage text now sentAt connected =>
      simp only [chatAct, sendAct]
      split
      · exact .keep _
      · exact .save text now sentAt connected
  | relayEvent ev =>
      simp only [chatAct, receiveAct]
      split
      · exact .note ev ‹_›
      · exact .keep _
  | _ => exact .keep _

theorem origin_of_chatAct (h : chatAct s op = .save m ∨ chatAct s op = .note m) :
    m.origin = .written s.currentNodeId ∨
      ∃ ev, op = .relayEvent ev ∧ ev.kind = 42 ∧ m.origin = .received ev.tags := by
  have hact := actOf s op
  rcases h with h | h
  · rw [h] at hact
    cases hact with
    | save => exact .inl rfl
  · rw [h] at hact
    cases hact with
    | note ev hkind => exact .inr ⟨ev, rfl, hkind, rfl⟩

theorem load_of_chatAct (h : chatAct s op = .load n) :
    ∃ idx node, op = .chatNodeClicked idx ∧ nodeAt idx s = some node ∧ node.id = n := by
  have hact := actOf s op
  rw [h] at hact
  cases hact with
  | load idx node hnode => exact ⟨idx, node, rfl, hnode, rfl⟩

end acts

/-- The journal has the messages of the application, in memory and in every file whose name
is that of an id. -/
structure Agrees (lib : JsonText) (s : AppState) (j : ChatJournal) : Prop where
  current : j.current = s.currentNodeId
  named : 47 ∉ s.currentNodeId ∧ 0 ∉ s.currentNodeId
  entries : j.entries.map Sourced.message = s.messages
  saved : ∀ n, 47 ∉ n ∧ 0 ∉ n →
    (j.saved n).map Sourced.message = loadChat lib (s.files.messages (messagesPath n))

section agrees

variable {lib : JsonText} {ssl : OpenSSL} {s t : AppState} {j : ChatJournal}

theorem Agrees.keep (h : Agrees lib s j) (hsame : SameChat s t) : Agrees lib t j := by
  obtain ⟨hcurrent, hmessages, hfiles⟩ := hsame
  exact ⟨h.current.trans hcurrent.symm, hcurrent ▸ h.named, h.entries.trans hmessages.symm,
    fun n hn => hfiles ▸ h.saved n hn⟩

theorem Agrees.leave (h : Agrees lib s j) (hsame : SameChat (closeChat s) t) :
    Agrees lib t (j.act [] .leave) := by
  obtain ⟨hcurrent, hmessages, hfiles⟩ := hsame
  have hnone : t.currentNodeId = [] := hcurrent
  exact ⟨hcurrent.symm, by simp [hnone], hmessages.symm, fun n hn => hfiles ▸ h.saved n hn⟩

theorem agrees_nodeToggle {idx : Int} (h : Agrees lib s j)
    (hstep : onNodeToggle lib idx s = some t) :
    Agrees lib t (j.act [] (toggleAct idx s)) := by
  unfold toggleAct
  obtain ⟨hnode, rfl⟩ | ⟨n, file, hnode, rfl⟩ := onNodeToggle_spec hstep
  · rw [hnode]
    exact h
  · rw [hnode]
    dsimp only
    split
    · exact h.leave ⟨rfl, rfl, rfl⟩
    · exact h.keep ⟨rfl, rfl, rfl⟩

theorem agrees_nodeDelete {idx : Int} (h : Agrees lib s j)
    (hstep : onNodeDelete lib idx s = some t) :
    Agrees lib t (j.act [] (deleteAct idx s)) := by
  unfold deleteAct
  obtain ⟨hnode, rfl⟩ | ⟨n, file, hnode, rfl⟩ := onNodeDelete_spec hstep
  · rw [hnode]
    exact h
  · rw [hnode]
    dsimp only
    split
    · exact h.leave ⟨rfl, rfl, rfl⟩
    · exact h.keep ⟨rfl, rfl, rfl⟩

theorem agrees_chatNodeClicked {idx : Int} (h : Agrees lib s j) (hnamed : Named s.nodes)
    (hstep : onChatNodeClicked lib idx s = some t) : Agrees lib t (j.act [] (openAct idx s)) := by
  unfold openAct
  obtain ⟨hnode, rfl⟩ | ⟨node, hnode, _, rfl⟩ := onChatNodeClicked_spec hstep
  · rw [hnode]
    exact h
  · rw [hnode]
    have hid := hnamed node (mem_of_nodeAt hnode)
    exact ⟨rfl, hid, h.saved node.id hid, h.saved⟩

theorem agrees_sendMessage {text : Bytes} {now sentAt : UInt64} {connected : Bool}
    (h : Agrees lib s j) (hstep : onSendMessage lib ssl text now sentAt connected s = some t) :
    Agrees lib t (j.act [] (sendAct text now s)) := by
  unfold sendAct
  obtain ⟨hidle, rfl⟩ | ⟨hnode, htext, file, sent, hload, rfl⟩ := onSendMessage_cases hstep
  · by_cases htext : text = []
    · rw [if_pos htext]
      exact h
    · have hnode := hidle.resolve_right htext
      rw [if_neg htext, Journal.act_idle (h.current.trans hnode) (.inl rfl)]
      exact h
  · have hne : j.current ≠ [] := h.current ▸ hnode
    rw [if_neg htext, Journal.act_save hne]
    have hentries : (j.entries ++ [Sourced.mk (writtenMessage s text now)
        (.written s.currentNodeId)]).map Sourced.message =
          s.messages ++ [writtenMessage s text now] := by
      rw [List.map_append, h.entries]
      rfl
    refine ⟨h.current, h.named, hentries, fun n hname => ?_⟩
    by_cases hn : n = j.current
    · rw [hn, Journal.saved_write_self, h.current]
      dsimp only
      rw [Function.update_self, hload]
      exact hentries
    · have hn' : n ≠ s.currentNodeId := h.current ▸ hn
      have hpath : messagesPath n ≠ messagesPath s.currentNodeId :=
        fun hpath => hn' ((messagesPath_inj hname h.named).mp hpath)
      rw [Journal.saved_write_of_ne hn]
      dsimp only
      rw [Function.update_of_ne hpath]
      exact h.saved n hname

theorem agrees_relayEvent (ev : RelayEvent) (h : Agrees lib s j) :
    Agrees lib (onRelayEvent lib ev s) (j.act [] (receiveAct ev s)) := by
  unfold receiveAct
  by_cases hkind : ev.kind = 42
  · rw [if_pos hkind]
    by_cases hnode : s.currentNodeId = []
    · have hsame : onRelayEvent lib ev s = s := by
        have hprofile : ¬ ev.kind = 0 := by omega
        rw [onRelayEvent, if_neg hprofile, if_neg (fun hopen => hopen.2 hnode)]
      rw [hsame, Journal.act_idle (h.current.trans hnode) (.inr rfl)]
      exact h
    · have hne : j.current ≠ [] := h.current ▸ hnode
      rw [onRelayEvent_message hkind hnode, Journal.act_note hne]
      refine ⟨h.current, h.named, ?_, h.saved⟩
      rw [Journal.append, List.map_append, h.entries]
      rfl
  · rw [if_neg hkind]
    refine h.keep ?_
    unfold onRelayEvent
    split
    · dsimp only
      split <;> exact ⟨rfl, rfl, rfl⟩
    · rw [if_neg (fun hopen => hkind hopen.1)]
      exact ⟨rfl, rfl, rfl⟩

theorem agrees_step {op : AppOp} (h : Agrees lib s j) (hnamed : Named s.nodes)
    (hstep : s.step lib ssl op = some t) : Agrees lib t (j.act [] (chatAct s op)) := by
  cases op with
  | createNode name secretKey hlen now connected => exact h.keep (sameChat_createNode hstep)
  | nodeToggle idx => exact agrees_nodeToggle h hstep
  | nodeDelete idx => exact agrees_nodeDelete h hstep
  | chatNodeClicked idx => exact agrees_chatNodeClicked h hnamed hstep
  | backToNodes =>
      cases hstep
      exact h
  | sendMessage text now sentAt connected => exact agrees_sendMessage h hstep
  | relayConnected now now₁ now₂ now₃ => exact h.keep (sameChat_relayConnected hstep)
  | relayEvent ev =>
      cases hstep
      exact agrees_relayEvent ev h

end agrees

/-- Files whose nodes have ids that can stand in the name of a file. -/
def StartFiles (lib : JsonText) := { files : AppFiles // Named (loadPersistedData lib files.nodes) }

structure TracedApp (lib : JsonText) where
  app : AppState
  journal : ChatJournal
  named : Named app.nodes
  agrees : Agrees lib app journal

namespace TracedApp

variable {lib : JsonText} {ssl : OpenSSL}

def start (lib : JsonText) (files : StartFiles lib) : TracedApp lib where
  app := initSession lib files.1
  journal := {
    current := []
    entries := []
    saved := fun n =>
      (loadChat lib (files.1.messages (messagesPath n))).map fun m => ⟨m, .stored n⟩
    pending := ∅ }
  named := files.2
  agrees := ⟨rfl, by simp [initSession], rfl, fun _ _ => List.map_map.trans (List.map_id _)⟩

def Step (ssl : OpenSSL) (x : TracedApp lib) (op : AppOp) (y : TracedApp lib) : Prop :=
  x.app.step lib ssl op = some y.app ∧ y.journal = x.journal.act [] (chatAct x.app op)

theorem exists_step (ssl : OpenSSL) (x : TracedApp lib) (op : AppOp) {t : AppState}
    (h : x.app.step lib ssl op = some t) : ∃ y, Step ssl x op y ∧ y.app = t :=
  ⟨⟨t, _, named_step x.named h, agrees_step x.agrees x.named h⟩, ⟨h, rfl⟩, rfl⟩

end TracedApp

/-! ## A node that is opened -/

theorem onChatNodeClicked_lan : onChatNodeClicked Json.codec 0 (initSession Json.codec lanFiles) =
    some { initSession Json.codec lanFiles with currentNodeId := lit "7" } := by
  have hnode : nodeAt 0 (initSession Json.codec lanFiles) = some lanNode := by
    rw [nodeAt, if_neg (by decide), initSession_lanFiles]
    rfl
  rw [onChatNodeClicked_of_opens hnode rfl]
  rfl

def lanStart : StartFiles Json.codec :=
  ⟨lanFiles, by
    rw [loadPersistedData_lanFiles]
    simp only [Named, List.forall_mem_singleton]
    decide⟩

theorem exists_lanOpened (ssl : OpenSSL) : ∃ x : TracedApp Json.codec,
    TracedApp.Step ssl (TracedApp.start Json.codec lanStart) (.chatNodeClicked 0) x ∧
      x.app = { initSession Json.codec lanFiles with currentNodeId := lit "7" } :=
  TracedApp.exists_step ssl _ _ onChatNodeClicked_lan

end LinuxLive
