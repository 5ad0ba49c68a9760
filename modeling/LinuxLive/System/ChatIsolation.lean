import LinuxLive.System.ChatJournal

/-!
# Isolation of chats

The event callback adds every channel message to the open chat; the tag that
`send_channel_message` gives it is not looked at.
-/

namespace LinuxLive

open App

/-- Every message in the chat and in the message files was sent to the channel of its node. -/
def TracedApp.Isolated {lib : JsonText} (x : TracedApp lib) : Prop :=
  x.journal.Within fun nodeId m => m.origin.SentTo nodeId

/-- A channel message that comes in with a chat open is one of its channel. -/
def TracedApp.Tagged {lib : JsonText} (x : TracedApp lib) : AppOp → Prop
  | .relayEvent ev => ev.kind = 42 → x.app.currentNodeId ≠ [] →
      [lit "e", x.app.currentNodeId] ∈ ev.tags
  | _ => True

/-- In every state that is reached the chats are apart. -/
def ChatsIsolated (lib : JsonText) (ssl : OpenSSL) (files : StartFiles lib)
    (ops : List AppOp) : Prop :=
  ∀ l rest x, ops = l ++ rest → Run (TracedApp.Step ssl) (TracedApp.start lib files) l x →
    x.Isolated

namespace TracedApp

variable {lib : JsonText} {ssl : OpenSSL} {x y : TracedApp lib} {op : AppOp} {m : Sourced}

theorem isolated_start (lib : JsonText) (files : StartFiles lib) : (start lib files).Isolated := by
  constructor
  · intro m hm
    cases hm
  · intro n m hm
    obtain ⟨_, _, rfl⟩ := List.mem_map.mp hm
    rfl

theorem Isolated.step (h : x.Isolated) (htagged : x.Tagged op) (hstep : Step ssl x op y) :
    y.Isolated := by
  unfold Isolated
  rw [hstep.2]
  refine Journal.Within.act h fun m hm hnode => ?_
  rw [x.agrees.current] at hnode ⊢
  rcases origin_of_chatAct hm with horigin | ⟨ev, rfl, hkind, horigin⟩
  · rw [horigin]
    rfl
  · rw [horigin]
    exact htagged hkind hnode

theorem exists_relayEvent (ssl : OpenSSL) (x : TracedApp lib) {ev : RelayEvent}
    (hkind : ev.kind = 42) (hnode : x.app.currentNodeId ≠ []) :
    ∃ y, Step ssl x (.relayEvent ev) y ∧ y.journal.current = x.app.currentNodeId ∧
      ∃ m ∈ y.journal.entries, m.origin = .received ev.tags := by
  obtain ⟨y, hstep, _⟩ := exists_step ssl x (.relayEvent ev) rfl
  refine ⟨y, hstep, ?_⟩
  have hcurrent : x.journal.current ≠ [] := x.agrees.current ▸ hnode
  have hact : chatAct x.app (.relayEvent ev) =
      .note ⟨receivedMessage x.app ev, .received ev.tags⟩ := if_pos hkind
  rw [hstep.2, hact, Journal.act_note hcurrent]
  exact ⟨x.agrees.current, _, List.mem_append_right _ List.mem_cons_self, rfl⟩

end TracedApp

section isolation

variable {lib : JsonText} {ssl : OpenSSL} {files : StartFiles lib} {ops : List AppOp}

theorem tagged_of_isolated (h : ChatsIsolated lib ssl files ops) :
    Guarded (TracedApp.Step ssl) TracedApp.Tagged (TracedApp.start lib files) ops := by
  intro l op rest x hops hrun
  cases op with
  | relayEvent ev =>
      intro hkind hnode
      obtain ⟨y, hstep, hcurrent, m, hm, horigin⟩ := x.exists_relayEvent ssl hkind hnode
      have hsplit : ops = (l ++ [.relayEvent ev]) ++ rest := by simp [hops]
      have hisolated := h _ rest y hsplit (hrun.append (.single hstep))
      have hsent := hisolated.entries m hm
      rw [horigin, hcurrent] at hsent
      exact hsent
  | _ => trivial

end isolation

/-- The chats stay apart in a run exactly if every channel message that comes in with a chat
open bears the tag of its node. -/
theorem chats_isolated_iff (lib : JsonText) (ssl : OpenSSL) (files : StartFiles lib)
    (ops : List AppOp) :
    ChatsIsolated lib ssl files ops ↔
      Guarded (TracedApp.Step ssl) TracedApp.Tagged (TracedApp.start lib files) ops := by
  constructor
  · exact tagged_of_isolated
  · intro h l rest x hops hrun
    have hprefix : Guarded (TracedApp.Step ssl) TracedApp.Tagged (TracedApp.start lib files) l :=
      Guarded.of_append (hops ▸ h)
    refine hprefix.keeps ?_ hrun (TracedApp.isolated_start lib files)
    intro s op t hs htagged hstep
    exact hs.step htagged hstep

def strayEvent : RelayEvent where
  id := lit "1"
  pubkey := lit "ab"
  kind := 42
  content := lit "hi"
  tags := [[lit "e", lit "8"]]
  createdAt := 1700000000
  sig := []

/-- A message to channel 8 shows up in the chat of node 7. -/
theorem stray_message_is_shown :
    ¬ ChatsIsolated Json.codec sampleSSL lanStart [.chatNodeClicked 0, .relayEvent strayEvent] := by
  intro h
  obtain ⟨x, hstep, happ⟩ := exists_lanOpened sampleSSL
  have hcurrent : x.app.currentNodeId = lit "7" := by rw [happ]
  have htagged := tagged_of_isolated h [.chatNodeClicked 0] (.relayEvent strayEvent) [] x rfl
    (.single hstep) rfl
  rw [hcurrent] at htagged
  exact absurd (htagged (by decide)) (by decide)

end LinuxLive
