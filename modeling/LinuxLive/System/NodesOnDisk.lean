import LinuxLive.Gui.Chat

/-!
# The nodes on disk

`nodes.json` behind every step of the handlers of the list of nodes.
-/

namespace LinuxLive

open App

/-- The handlers of the list; GTK gives a text in UTF-8. -/
def AppOp.EditsNodes : AppOp → Prop
  | .createNode name .. => utf8 name = true
  | .nodeToggle _ => True
  | .nodeDelete _ => True
  | _ => False

def AppOp.OutOfRange (s : AppState) : AppOp → Prop
  | .nodeToggle idx => idx < 0 ∨ s.nodes.length ≤ idx
  | .nodeDelete idx => idx < 0 ∨ s.nodes.length ≤ idx
  | _ => False

/-- A step behind which `nodes.json` loads to the nodes in memory; an index out of range
changes nothing. -/
def SavingStep (lib : JsonText) (ssl : OpenSSL) (s : AppState) (op : AppOp) (t : AppState) : Prop :=
  s.step lib ssl op = some t ∧ loadPersistedData lib t.files.nodes = t.nodes ∧
    (op.OutOfRange s → t = s)

structure NodesSaved (lib : JsonText) (s : AppState) : Prop where
  loaded : loadPersistedData lib s.files.nodes = s.nodes
  utf8 : ∀ n ∈ s.nodes, n.stored.utf8 = true

section saved

variable {lib : JsonText} {ssl : OpenSSL} {s t : AppState} {op : AppOp} {idx : Int} {n : NodeInfo}

theorem nodesSaved_initSession (lib : JsonText) (files : AppFiles) :
    NodesSaved lib (initSession lib files) := ⟨rfl, fun _ hn => utf8_loadPersistedData hn⟩

theorem nodeAt_eq_none (h : idx < 0 ∨ s.nodes.length ≤ idx) : nodeAt idx s = none := by
  unfold nodeAt
  split
  · rfl
  · exact List.getElem?_eq_none (by omega)

theorem utf8_creatorPub (s : AppState) : utf8 (creatorPub s) = true := by
  unfold creatorPub
  split
  · rfl
  · exact utf8_toHex _

theorem utf8_nodeEvent {name nodePub relayUrl creator : Bytes} (now : UInt64)
    (hname : utf8 name = true) (hpub : utf8 nodePub = true) (hrelay : utf8 relayUrl = true)
    (hcreator : utf8 creator = true) :
    utf8Tags (nodeEvent name nodePub relayUrl creator now).tags = true := by
  simp [nodeEvent, utf8Tags, hname, hpub, hrelay, hcreator]

theorem nodesSaved_saveNodes (lib : JsonText) {nodes : List NodeInfo} (s : AppState)
    (h : ∀ n ∈ nodes, n.stored.utf8 = true) :
    ∃ t, saveNodes lib { s with nodes := nodes } = some t ∧ NodesSaved lib t := by
  have hstate : ∀ n ∈ { s with nodes := nodes }.nodes, n.stored.utf8 = true := h
  obtain ⟨file, hsave, hload⟩ := exists_saveNodes lib hstate
  exact ⟨_, hsave, hload, h⟩

theorem exists_createNode (ssl : OpenSSL) {name : Bytes} (nodeKp : KeyPair) (now : UInt64)
    (connected : Bool) (hname : utf8 name = true) (h : NodesSaved lib s) :
    ∃ t, onCreateNode lib ssl name nodeKp now connected s = some t ∧ NodesSaved lib t := by
  unfold onCreateNode
  split
  · exact ⟨s, rfl, h⟩
  · have hrelay := Persistence.utf8_loadRelayUrl lib s.files.config
    have hcreator := utf8_creatorPub s
    have htags := utf8_nodeEvent now hname (utf8_toHex nodeKp.publicKey) hrelay hcreator
    have hsign : ∃ signed, signEvent lib ssl (nodeEvent name (toHex nodeKp.publicKey)
        (Persistence.loadRelayUrl lib s.files.config) (creatorPub s) now) nodeKp = some signed :=
      exists_signEvent ssl nodeKp htags hname
    obtain ⟨signed, hsigned⟩ := hsign
    have hnodes : ∀ n ∈ s.nodes ++ [newNode name (creatorPub s)
        (IdentityManager.keyToHex nodeKp.secretKey) (Persistence.loadRelayUrl lib s.files.config) signed],
        n.stored.utf8 = true := by
      intro n hn
      rcases List.mem_append.mp hn with hn | hn
      · exact h.utf8 n hn
      · rw [List.mem_singleton.mp hn]
        simp [newNode, NodeInfo.stored, StoredNode.utf8, hname, hrelay, hcreator, utf8_decimal,
          IdentityManager.keyToHex, utf8_toHex]
    obtain ⟨t, hsave, ht⟩ := nodesSaved_saveNodes lib s hnodes
    simp only [IdentityManager.keyToHex, hsigned]
    rw [IdentityManager.keyToHex] at hsave
    rw [hsave, Option.bind_some]
    cases connected with
    | false => exact ⟨t, rfl, ht⟩
    | true =>
        obtain ⟨text, htext⟩ := lib.dump_of_utf8 none (RelayClient.utf8_wireJson hsigned)
        rw [if_pos rfl, publishNode, htext]
        exact ⟨_, rfl, ht.loaded, ht.utf8⟩

theorem exists_nodeToggle (idx : Int) (h : NodesSaved lib s) :
    ∃ t, onNodeToggle lib idx s = some t ∧ NodesSaved lib t ∧
      (nodeAt idx s = none → t = s) := by
  unfold onNodeToggle
  cases hnode : nodeAt idx s with
  | none => exact ⟨s, rfl, h, fun _ => rfl⟩
  | some n =>
      have hn := mem_of_nodeAt hnode
      have hnodes : ∀ m ∈ s.nodes.set idx.toNat { n with running := !n.running },
          m.stored.utf8 = true := by
        intro m hm
        rcases List.mem_or_eq_of_mem_set hm with hm | rfl
        · exact h.utf8 m hm
        · exact h.utf8 n hn
      obtain ⟨t, hsave, ht⟩ := nodesSaved_saveNodes lib s hnodes
      dsimp only
      rw [hsave, Option.map_some]
      refine ⟨_, rfl, ?_, nofun⟩
      split
      · exact ⟨ht.loaded, ht.utf8⟩
      · exact ht

theorem exists_nodeDelete (idx : Int) (h : NodesSaved lib s) :
    ∃ t, onNodeDelete lib idx s = some t ∧ NodesSaved lib t ∧
      (nodeAt idx s = none → t = s) := by
  unfold onNodeDelete
  cases hnode : nodeAt idx s with
  | none => exact ⟨s, rfl, h, fun _ => rfl⟩
  | some n =>
      have hnodes : ∀ m ∈ s.nodes.eraseIdx idx.toNat, m.stored.utf8 = true :=
        fun m hm => h.utf8 m (List.mem_of_mem_eraseIdx hm)
      dsimp only
      split
      · obtain ⟨t, hsave, ht⟩ := nodesSaved_saveNodes lib (closeChat s) hnodes
        exact ⟨t, hsave, ht, nofun⟩
      · obtain ⟨t, hsave, ht⟩ := nodesSaved_saveNodes lib s hnodes
        exact ⟨t, hsave, ht, nofun⟩

theorem exists_savingStep (ssl : OpenSSL) (h : NodesSaved lib s) (hop : op.EditsNodes) :
    ∃ t, SavingStep lib ssl s op t ∧ NodesSaved lib t := by
  cases op with
  | createNode name secretKey hlen now connected =>
      obtain ⟨t, hstep, ht⟩ :=
        exists_createNode ssl (generateKeypair ssl secretKey hlen) now connected hop h
      exact ⟨t, ⟨hstep, ht.loaded, False.elim⟩, ht⟩
  | nodeToggle idx =>
      obtain ⟨t, hstep, ht, hnone⟩ := exists_nodeToggle idx h
      exact ⟨t, ⟨hstep, ht.loaded, fun hrange => hnone (nodeAt_eq_none hrange)⟩, ht⟩
  | nodeDelete idx =>
      obtain ⟨t, hstep, ht, hnone⟩ := exists_nodeDelete idx h
      exact ⟨t, ⟨hstep, ht.loaded, fun hrange => hnone (nodeAt_eq_none hrange)⟩, ht⟩
  | _ => cases hop

theorem exists_savingRun (ssl : OpenSSL) {ops : List AppOp} (h : NodesSaved lib s)
    (hops : ∀ op ∈ ops, op.EditsNodes) : ∃ t, Run (SavingStep lib ssl) s ops t := by
  induction ops generalizing s with
  | nil => exact ⟨s, .nil s⟩
  | cons op ops ih =>
      obtain ⟨u, hstep, hu⟩ := exists_savingStep ssl h (hops op List.mem_cons_self)
      obtain ⟨t, hrun⟩ := ih hu fun op' hop' => hops op' (List.mem_cons_of_mem op hop')
      exact ⟨t, .cons hstep hrun⟩

end saved

/-- From the nodes that the file loads to, creating, toggling and deleting go through and
leave the file with the nodes in memory after each step. -/
theorem nodes_match_disk (lib : JsonText) (ssl : OpenSSL) (files : AppFiles) (ops : List AppOp)
    (hops : ∀ op ∈ ops, op.EditsNodes) :
    loadPersistedData lib files.nodes = (initSession lib files).nodes ∧
      ∃ t, Run (SavingStep lib ssl) (initSession lib files) ops t :=
  ⟨rfl, exists_savingRun ssl (nodesSaved_initSession lib files) hops⟩

/-- A node is created, stopped and deleted, with two clicks on rows that are not there. -/
theorem nodes_match_disk_lan :
    loadPersistedData Json.codec lanFiles.nodes = (initSession Json.codec lanFiles).nodes ∧
      ∃ t, Run (SavingStep Json.codec sampleSSL) (initSession Json.codec lanFiles)
        [.createNode (lit "LAN party") sampleKeys.secretKey sampleKeys.secretKey_length 1700000000 true, .nodeToggle 1, .nodeToggle (-1),
          .nodeDelete 7, .nodeDelete 1] t := by
  refine nodes_match_disk Json.codec sampleSSL lanFiles _ ?_
  intro op hop
  simp only [List.mem_cons, List.not_mem_nil, or_false] at hop
  rcases hop with rfl | rfl | rfl | rfl | rfl <;> trivial

end LinuxLive
