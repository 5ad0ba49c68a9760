import LinuxLive.System.ChatJournal

/-!
# Durability of the chat history

A message that the user sends is saved with the whole chat; one that comes in stays in memory
until then.
-/

namespace LinuxLive

open App

/-- Whatever the chat of a node showed earlier is shown, in its order, when it is opened. -/
def HistoryKept (lib : JsonText) (ssl : OpenSSL) (files : StartFiles lib)
    (ops : List AppOp) : Prop :=
  ∀ l₁ l₂ idx rest (x y : TracedApp lib) node z,
    ops = l₁ ++ (l₂ ++ .chatNodeClicked idx :: rest) →
    Run (TracedApp.Step ssl) (TracedApp.start lib files) l₁ x → Run (TracedApp.Step ssl) x l₂ y →
    nodeAt idx y.app = some node → node.id ≠ [] → x.app.currentNodeId = node.id →
    onChatNodeClicked lib idx y.app = some z → x.app.messages.Sublist z.messages

/-- The node whose chat is opened took in no message after the last one that was sent in it. -/
def TracedApp.Settled {lib : JsonText} (x : TracedApp lib) : AppOp → Prop
  | .chatNodeClicked idx => ∀ node, nodeAt idx x.app = some node →
      opensChat lib node x.app = true → node.id ∉ x.journal.pending
  | _ => True

namespace TracedApp

variable {lib : JsonText} {ssl : OpenSSL} {files : StartFiles lib} {x y : TracedApp lib}
  {ops l : List AppOp} {op : AppOp} {n : Bytes}

theorem based_run (h : Run (Step ssl) (start lib files) l x) : x.journal.Based [] := by
  refine h.keeps (P := fun x => x.journal.Based []) ?_ ?_
  · intro s op t hs hstep
    rw [hstep.2]
    exact hs.act
  · exact ⟨fun hne => absurd rfl hne, fun hne => absurd rfl hne⟩

theorem opensChat_of_step {idx : Int} {node : NodeInfo} {s t : AppState}
    (hnode : nodeAt idx s = some node) (h : onChatNodeClicked lib idx s = some t) :
    opensChat lib node s = true := by
  obtain ⟨hnone, rfl⟩ | ⟨node', hnode', hopens, rfl⟩ := onChatNodeClicked_spec h
  · rw [hnode] at hnone
    cases hnone
  · rw [hnode] at hnode'
    cases hnode'
    exact hopens

/-- The messages of an earlier chat are not lost as long as no pending node is clicked. -/
theorem held_run (hbased : x.journal.Based []) (hn : n ≠ []) (hcurrent : x.journal.current = n)
    (hsettled : Guarded (Step ssl) Settled x l) (hrun : Run (Step ssl) x l y) :
    y.journal.Held n x.journal.entries := by
  have hkept : y.journal.Based [] ∧ y.journal.Held n x.journal.entries := by
    refine hsettled.keeps (P := fun y => y.journal.Based [] ∧ y.journal.Held n x.journal.entries)
      ?_ hrun ⟨hbased, .entries hcurrent (List.Sublist.refl _)⟩
    intro s op t hs hguard hstep
    obtain ⟨hs, hheld⟩ := hs
    rw [hstep.2]
    refine ⟨hs.act, hheld.act hs hn ?_⟩
    intro hload
    obtain ⟨idx, node, rfl, hnode, rfl⟩ := load_of_chatAct hload
    exact hguard node hnode (opensChat_of_step hnode hstep.1)
  exact hkept.2

/-- In some earlier state the chat of the node had more messages than are saved now. -/
def Outgrown (ssl : OpenSSL) (files : StartFiles lib) (l : List AppOp) (x : TracedApp lib) (n : Bytes) :
    Prop :=
  ∃ l₁ l₂ w, l = l₁ ++ l₂ ∧ Run (Step ssl) (start lib files) l₁ w ∧ Run (Step ssl) w l₂ x ∧
    w.journal.current = n ∧ (x.journal.saved n).length < w.journal.entries.length

theorem outgrown_run (h : Run (Step ssl) (start lib files) l x) :
    ∀ n ∈ x.journal.pending, n ≠ [] ∧ Outgrown ssl files l x n := by
  refine h.snoc_induction (P := fun l x => ∀ n ∈ x.journal.pending, n ≠ [] ∧ Outgrown ssl files l x n)
    ?_ ?_
  · intro n hn
    cases hn
  · intro l t op u hrun ih hstep n hn
    have hsingle : Run (Step ssl) t [op] u := .single hstep
    rw [hstep.2] at hn
    rcases Journal.pending_act (based_run hrun) hn with ⟨hn, hsaved⟩ | ⟨hne, hcurrent, hlt⟩
    · obtain ⟨hne, l₁, l₂, w, rfl, hw, ht, hcurrent, hlt⟩ := ih n hn
      rw [← hsaved, ← hstep.2] at hlt
      exact ⟨hne, l₁, l₂ ++ [op], w, by simp, hw, ht.append hsingle, hcurrent, hlt⟩
    · rw [← hstep.2] at hcurrent hlt
      exact ⟨hne, l ++ [op], [], u, by simp, hrun.append hsingle, .nil u, hcurrent, hlt⟩

theorem messages_openChat {idx : Int} {node : NodeInfo} (hnode : nodeAt idx y.app = some node) :
    (openChat lib node y.app).messages = (y.journal.saved node.id).map Sourced.message :=
  (y.agrees.saved node.id (y.named node (mem_of_nodeAt hnode))).symm

end TracedApp

section durability

variable {lib : JsonText} {ssl : OpenSSL} {files : StartFiles lib} {ops : List AppOp}

theorem settled_of_historyKept (h : HistoryKept lib ssl files ops) :
    Guarded (TracedApp.Step ssl) TracedApp.Settled (TracedApp.start lib files) ops := by
  intro l op rest y hops hrun
  cases op with
  | chatNodeClicked idx =>
      intro node hnode hopens hpending
      obtain ⟨hne, l₁, l₂, w, hl, hw, hy, hcurrent, hlt⟩ := TracedApp.outgrown_run hrun _ hpending
      have hsplit : ops = l₁ ++ (l₂ ++ .chatNodeClicked idx :: rest) := by simp [hops, hl]
      have hkept := h l₁ l₂ idx rest w y node _ hsplit hw hy hnode hne
        (w.agrees.current.symm.trans hcurrent) (onChatNodeClicked_of_opens hnode hopens)
      rw [TracedApp.messages_openChat hnode, ← w.agrees.entries] at hkept
      have hle := hkept.length_le
      simp only [List.length_map] at hle
      omega
  | _ => trivial

end durability

/-- The history of every chat is kept in a run exactly if no node is clicked that took in a
message after the last one that was sent in it. -/
theorem history_kept_iff (lib : JsonText) (ssl : OpenSSL) (files : StartFiles lib)
    (ops : List AppOp) :
    HistoryKept lib ssl files ops ↔
      Guarded (TracedApp.Step ssl) TracedApp.Settled (TracedApp.start lib files) ops := by
  constructor
  · exact settled_of_historyKept
  · intro h l₁ l₂ idx rest x y node z hops hx hy hnode hne hcurrent hclick
    rw [hops] at h
    have hafter := h.after hx
    have hbased := TracedApp.based_run hx
    have hheld := TracedApp.held_run hbased hne (x.agrees.current.trans hcurrent)
      hafter.of_append hy
    have hopens := TracedApp.opensChat_of_step hnode hclick
    have hpending := hafter l₂ (.chatNodeClicked idx) rest y rfl hy node hnode hopens
    have hsaved := hheld.sublist_saved (TracedApp.based_run (hx.append hy)) hne hpending
    rw [onChatNodeClicked_of_opens hnode hopens] at hclick
    cases hclick
    rw [TracedApp.messages_openChat hnode, ← x.agrees.entries]
    exact hsaved.map Sourced.message

def lanMessage : RelayEvent where
  id := lit "1"
  pubkey := lit "ab"
  kind := 42
  content := lit "hi"
  tags := [[lit "e", lit "7"]]
  createdAt := 1700000000
  sig := []

/-- A message comes in while the node is open and is gone when the node is clicked again. -/
theorem received_message_is_lost :
    ¬ HistoryKept Json.codec sampleSSL lanStart
      [.chatNodeClicked 0, .relayEvent lanMessage, .backToNodes, .chatNodeClicked 0] := by
  intro h
  obtain ⟨x, hclick, hx⟩ := exists_lanOpened sampleSSL
  have hcurrent : x.app.currentNodeId = lit "7" := by rw [hx]
  have hnode : x.app.currentNodeId ≠ [] := by
    rw [hcurrent]
    decide
  obtain ⟨y, hevent, hy⟩ := TracedApp.exists_step sampleSSL x (.relayEvent lanMessage) rfl
  rw [onRelayEvent_message rfl hnode] at hy
  obtain ⟨z, hback, hz⟩ := TracedApp.exists_step sampleSSL y .backToNodes rfl
  have hzapp : z.app = y.app := hz
  have hat : nodeAt 0 z.app = some lanNode := by
    rw [hzapp, hy, nodeAt, if_neg (by decide)]
    simp only [hx, initSession_lanFiles]
    rfl
  have hopens : opensChat Json.codec lanNode z.app = true := by
    rw [hzapp, hy, hx]
    rfl
  have hkept := h [.chatNodeClicked 0, .relayEvent lanMessage] [.backToNodes] 0 [] y z lanNode _ rfl
    (.cons hclick (.single hevent)) (.single hback) hat (by decide)
    (by rw [hy]; exact hcurrent) (onChatNodeClicked_of_opens hat hopens)
  have hmessages : (openChat Json.codec lanNode z.app).messages = [] := by
    rw [hzapp, hy, hx]
    rfl
  rw [hmessages, hy] at hkept
  simp at hkept

end LinuxLive
