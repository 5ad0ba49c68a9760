import LinuxLive.Gui.Chat

/-!
# The open chat

The node whose chat is open and the sensitivity of the chat input, over runs of the handlers.
Stopping and deleting a node close its chat; opening a chat does not ask whether its node
runs.
-/

namespace LinuxLive

open App

structure ChatPage where
  app : AppState
  inputEnabled : Bool

/-- What the calls of `gtk_widget_set_sensitive` make of the chat input. -/
def AppOp.setsInput (s : AppState) (inputEnabled : Bool) : AppOp → Bool
  | .nodeToggle idx =>
      match nodeAt idx s with
      | none => inputEnabled
      | some n => if n.running && decide (s.currentNodeId = n.id) then false else inputEnabled
  | .chatNodeClicked idx =>
      match nodeAt idx s with
      | none => inputEnabled
      | some _ => true
  | .nodeDelete idx =>
      match nodeAt idx s with
      | none => inputEnabled
      | some n => if n.id = s.currentNodeId then false else inputEnabled
  | _ => inputEnabled

namespace ChatPage

/-- The chat input is built without sensitivity. -/
def start (lib : JsonText) (files : AppFiles) : ChatPage := ⟨initSession lib files, false⟩

def Step (lib : JsonText) (ssl : OpenSSL) (p : ChatPage) (op : AppOp) (q : ChatPage) : Prop :=
  p.app.step lib ssl op = some q.app ∧ q.inputEnabled = op.setsInput p.app p.inputEnabled

end ChatPage

def AppState.Runs (s : AppState) (nodeId : Bytes) : Prop :=
  ∃ n ∈ s.nodes, n.id = nodeId ∧ n.running = true

/-- A chat is open only for a running node, and the input is enabled just if one is open. -/
structure ChatPage.Consistent (p : ChatPage) : Prop where
  runs : p.app.currentNodeId ≠ [] → p.app.Runs p.app.currentNodeId
  input : p.inputEnabled = true ↔ p.app.currentNodeId ≠ []

/-- The chat that is opened is one of a running node. -/
def ChatPage.OpensRunning (lib : JsonText) (p : ChatPage) : AppOp → Prop
  | .chatNodeClicked idx => ∀ n, nodeAt idx p.app = some n → opensChat lib n p.app = true →
      n.id ≠ [] ∧ p.app.Runs n.id
  | _ => True

/-! ## What a step does to the nodes -/

section steps

variable {lib : JsonText} {ssl : OpenSSL} {s t : AppState} {idx : Int} {n : NodeInfo}
  {nodeId : Bytes}

theorem runs_createNode {name : Bytes} {nodeKp : KeyPair} {now : UInt64} {connected : Bool}
    (h : onCreateNode lib ssl name nodeKp now connected s = some t) (hruns : s.Runs nodeId) :
    t.Runs nodeId := by
  obtain rfl | ⟨_, _, _, _, _, rfl⟩ := onCreateNode_spec h
  · exact hruns
  · obtain ⟨n, hn, hid, hrunning⟩ := hruns
    exact ⟨n, List.mem_append_left _ hn, hid, hrunning⟩

theorem nodes_sendMessage {text : Bytes} {now sentAt : UInt64} {connected : Bool}
    (h : onSendMessage lib ssl text now sentAt connected s = some t) :
    t.nodes = s.nodes ∧ t.currentNodeId = s.currentNodeId := by
  obtain ⟨_, rfl⟩ | ⟨_, _, _, _, _, rfl⟩ := onSendMessage_cases h
  · exact ⟨rfl, rfl⟩
  · exact ⟨rfl, rfl⟩

theorem nodes_relayEvent (lib : JsonText) (ev : RelayEvent) (s : AppState) :
    (onRelayEvent lib ev s).nodes = s.nodes ∧
      (onRelayEvent lib ev s).currentNodeId = s.currentNodeId := by
  unfold onRelayEvent
  split
  · dsimp only
    split <;> exact ⟨rfl, rfl⟩
  · split <;> exact ⟨rfl, rfl⟩

theorem runs_set (hnode : nodeAt idx s = some n) (n' : NodeInfo) (hruns : s.Runs nodeId)
    (hother : ¬ (n.running = true ∧ nodeId = n.id)) :
    { s with nodes := s.nodes.set idx.toNat n' }.Runs nodeId := by
  obtain ⟨m, hm, hid, hrunning⟩ := hruns
  obtain ⟨j, hj⟩ := List.mem_iff_getElem?.mp hm
  have hne : idx.toNat ≠ j := by
    rintro rfl
    rw [getElem?_of_nodeAt hnode, Option.some.injEq] at hj
    exact hother ⟨hj ▸ hrunning, hj ▸ hid.symm⟩
  exact ⟨m, List.mem_of_getElem? ((List.getElem?_set_ne hne).trans hj), hid, hrunning⟩

theorem runs_eraseIdx (hnode : nodeAt idx s = some n) (hruns : s.Runs nodeId)
    (hother : nodeId ≠ n.id) : { s with nodes := s.nodes.eraseIdx idx.toNat }.Runs nodeId := by
  obtain ⟨m, hm, hid, hrunning⟩ := hruns
  obtain ⟨j, hj⟩ := List.mem_iff_getElem?.mp hm
  have hne : j ≠ idx.toNat := by
    rintro rfl
    rw [getElem?_of_nodeAt hnode, Option.some.injEq] at hj
    exact hother (hj ▸ hid.symm)
  exact ⟨m, List.mem_eraseIdx_iff_getElem?.mpr ⟨j, hne, hj⟩, hid, hrunning⟩

end steps

namespace ChatPage

variable {lib : JsonText} {ssl : OpenSSL} {p q : ChatPage} {op : AppOp} {idx : Int}

theorem consistent_start (lib : JsonText) (files : AppFiles) : (start lib files).Consistent where
  runs h := absurd rfl h
  input := by simp [start, initSession]

/-- Nothing but the nodes has changed, and every node runs on that did. -/
theorem Consistent.same (h : p.Consistent) (hcurrent : q.app.currentNodeId = p.app.currentNodeId)
    (hinput : q.inputEnabled = p.inputEnabled)
    (hruns : ∀ nodeId, p.app.Runs nodeId → q.app.Runs nodeId) : q.Consistent where
  runs hopen := by
    rw [hcurrent] at hopen ⊢
    exact hruns _ (h.runs hopen)
  input := by rw [hcurrent, hinput, h.input]

theorem Consistent.sameApp (h : p.Consistent) (happ : p.app = q.app)
    (hinput : q.inputEnabled = p.inputEnabled) : q.Consistent :=
  h.same (by rw [happ]) hinput fun _ hruns => happ ▸ hruns

theorem consistent_closed (hcurrent : q.app.currentNodeId = []) (hinput : q.inputEnabled = false) :
    q.Consistent where
  runs hopen := absurd hcurrent hopen
  input := by simp [hcurrent, hinput]

theorem Consistent.nodeToggle (h : p.Consistent) (hstep : Step lib ssl p (.nodeToggle idx) q) :
    q.Consistent := by
  obtain ⟨happ, hinput⟩ := hstep
  rw [AppOp.setsInput] at hinput
  obtain ⟨hnode, hsame⟩ | ⟨n, file, hnode, hq⟩ := onNodeToggle_spec happ
  · rw [hnode] at hinput
    exact h.sameApp hsame.symm hinput
  · rw [hnode] at hinput
    dsimp only at hinput
    by_cases hclosed : (n.running && decide (p.app.currentNodeId = n.id)) = true
    · rw [if_pos hclosed] at hq hinput
      exact consistent_closed (by rw [hq]; rfl) hinput
    · rw [if_neg hclosed] at hq hinput
      rw [Bool.and_eq_true, decide_eq_true_eq] at hclosed
      have hcurrent : q.app.currentNodeId = p.app.currentNodeId := by rw [hq]; rfl
      refine ⟨fun hopen => ?_, by rw [hcurrent, hinput, h.input]⟩
      rw [hcurrent] at hopen
      rw [hq]
      exact runs_set hnode _ (h.runs hopen) hclosed

theorem Consistent.nodeDelete (h : p.Consistent) (hstep : Step lib ssl p (.nodeDelete idx) q) :
    q.Consistent := by
  obtain ⟨happ, hinput⟩ := hstep
  rw [AppOp.setsInput] at hinput
  obtain ⟨hnode, hsame⟩ | ⟨n, file, hnode, hq⟩ := onNodeDelete_spec happ
  · rw [hnode] at hinput
    exact h.sameApp hsame.symm hinput
  · rw [hnode] at hinput
    dsimp only at hinput
    by_cases hclosed : n.id = p.app.currentNodeId
    · rw [if_pos hclosed] at hq hinput
      exact consistent_closed (by rw [hq]; rfl) hinput
    · rw [if_neg hclosed] at hq hinput
      have hcurrent : q.app.currentNodeId = p.app.currentNodeId := by rw [hq]; rfl
      refine ⟨fun hopen => ?_, by rw [hcurrent, hinput, h.input]⟩
      rw [hcurrent] at hopen
      rw [hq]
      exact runs_eraseIdx hnode (h.runs hopen) fun hid => hclosed hid.symm

/-- The chat of the node is open and the input enabled, whether the node runs or not. -/
theorem step_chatNodeClicked {n : NodeInfo} (hnode : nodeAt idx p.app = some n)
    (hstep : Step lib ssl p (.chatNodeClicked idx) q) :
    opensChat lib n p.app = true ∧ q.app.currentNodeId = n.id ∧ q.app.nodes = p.app.nodes ∧
      q.inputEnabled = true := by
  obtain ⟨happ, hinput⟩ := hstep
  rw [AppOp.setsInput, hnode] at hinput
  obtain ⟨hnone, _⟩ | ⟨m, hm, hopens, hq⟩ := onChatNodeClicked_spec happ
  · rw [hnode] at hnone
    cases hnone
  · rw [hnode] at hm
    cases hm
    rw [hq]
    exact ⟨hopens, rfl, rfl, hinput⟩

theorem Consistent.step (h : p.Consistent) (hopens : p.OpensRunning lib op)
    (hstep : Step lib ssl p op q) : q.Consistent := by
  have hstep' := hstep
  obtain ⟨happ, hinput⟩ := hstep'
  cases op with
  | createNode name secretKey hkey now connected =>
      exact h.same (sameChat_createNode happ).1 hinput fun _ => runs_createNode happ
  | nodeToggle idx => exact h.nodeToggle hstep
  | nodeDelete idx => exact h.nodeDelete hstep
  | chatNodeClicked idx =>
      cases hnode : nodeAt idx p.app with
      | none =>
          rw [AppState.step, onChatNodeClicked, hnode] at happ
          rw [AppOp.setsInput, hnode] at hinput
          exact h.sameApp (Option.some.inj happ) hinput
      | some n =>
          obtain ⟨hchat, hcurrent, hnodes, henabled⟩ := step_chatNodeClicked hnode hstep
          obtain ⟨hid, hruns⟩ := hopens n hnode hchat
          constructor
          · intro _
            rw [AppState.Runs, hnodes, hcurrent]
            exact hruns
          · rw [henabled, hcurrent]
            exact iff_of_true rfl hid
  | backToNodes => exact h.sameApp (Option.some.inj happ) hinput
  | sendMessage text now sentAt connected =>
      obtain ⟨hnodes, hcurrent⟩ := nodes_sendMessage happ
      exact h.same hcurrent hinput fun nodeId hruns => by rwa [AppState.Runs, hnodes]
  | relayConnected now now₁ now₂ now₃ =>
      obtain ⟨_, _, hq, _⟩ := onRelayConnected_spec happ
      exact h.same (by rw [hq]) hinput fun nodeId hruns => hq ▸ hruns
  | relayEvent ev =>
      obtain ⟨hnodes, hcurrent⟩ := nodes_relayEvent lib ev p.app
      rw [AppState.step, Option.some.injEq] at happ
      rw [happ] at hnodes hcurrent
      exact h.same hcurrent hinput fun nodeId hruns => by rwa [AppState.Runs, hnodes]

/-- A chat that was opened and left a consistent page is one of a running node. -/
theorem opensRunning_of_consistent (lib : JsonText) (ssl : OpenSSL)
    (h : ∀ q, Step lib ssl p op q → q.Consistent) : p.OpensRunning lib op := by
  cases op with
  | chatNodeClicked idx =>
      intro n hnode hopens
      have hstep : Step lib ssl p (.chatNodeClicked idx) ⟨openChat lib n p.app,
          AppOp.setsInput p.app p.inputEnabled (.chatNodeClicked idx)⟩ :=
        ⟨onChatNodeClicked_of_opens hnode hopens, rfl⟩
      obtain ⟨_, hcurrent, hnodes, henabled⟩ := step_chatNodeClicked hnode hstep
      have hconsistent := h _ hstep
      have hopen := hconsistent.input.mp henabled
      have hruns := hconsistent.runs hopen
      rw [AppState.Runs, hcurrent, hnodes] at hruns
      rw [hcurrent] at hopen
      exact ⟨hopen, hruns⟩
  | _ => trivial

end ChatPage

/-- In every state that a run reaches the page is consistent. -/
def StaysConsistent (lib : JsonText) (ssl : OpenSSL) (files : AppFiles) (ops : List AppOp) :
    Prop :=
  ∀ l rest p, ops = l ++ rest → Run (ChatPage.Step lib ssl) (.start lib files) l p → p.Consistent

/-- The page stays consistent exactly if every chat is opened while its node runs. -/
theorem staysConsistent_iff (lib : JsonText) (ssl : OpenSSL) (files : AppFiles)
    (ops : List AppOp) : StaysConsistent lib ssl files ops ↔
      Guarded (ChatPage.Step lib ssl) (ChatPage.OpensRunning lib) (.start lib files) ops := by
  constructor
  · intro h l op rest p hops hrun
    refine ChatPage.opensRunning_of_consistent lib ssl fun q hstep => ?_
    exact h (l ++ [op]) rest q (by simp [hops]) (hrun.append (.single hstep))
  · intro h l rest p hops hrun
    have hl : Guarded (ChatPage.Step lib ssl) (ChatPage.OpensRunning lib) (.start lib files) l :=
      Guarded.of_append (hops ▸ h)
    refine hl.keeps ?_ hrun (ChatPage.consistent_start lib files)
    intro s op t hs hopens hstep
    exact hs.step hopens hstep

/-- A node that was stopped, and nothing else. -/
def stoppedFiles : AppFiles := { lanFiles with
  nodes := some (Persistence.saveNodes Json.codec
    ([{ lanNode with running := false }].map NodeInfo.stored)).1 }

theorem stopped_chat_is_opened :
    ¬ StaysConsistent Json.codec sampleSSL stoppedFiles [.chatNodeClicked 0] := by
  intro h
  have hsaved : (Persistence.saveNodes Json.codec
      ([{ lanNode with running := false }].map NodeInfo.stored)).2 = none := by
    refine RecordCodec.save_iff.mpr ?_
    decide
  have hnodes : (ChatPage.start Json.codec stoppedFiles).app.nodes =
      [{ lanNode with running := false }] := by
    simp only [ChatPage.start, initSession, stoppedFiles, loadPersistedData_saved hsaved]
  have hnode : nodeAt 0 (ChatPage.start Json.codec stoppedFiles).app =
      some { lanNode with running := false } := by
    rw [nodeAt, hnodes]
    rfl
  have hopens : (ChatPage.start Json.codec stoppedFiles).OpensRunning Json.codec
      (.chatNodeClicked 0) :=
    ChatPage.opensRunning_of_consistent Json.codec sampleSSL fun q hstep =>
      h [.chatNodeClicked 0] [] q rfl (.single hstep)
  obtain ⟨m, hm, _, hrunning⟩ := (hopens _ hnode rfl).2
  rw [hnodes, List.mem_singleton] at hm
  rw [hm] at hrunning
  cases hrunning

end LinuxLive
