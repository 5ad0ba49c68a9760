import LinuxLive.Core.IdentityFile
import LinuxLive.Core.MessagesFile
import LinuxLive.Core.NodesFile
import LinuxLive.Core.RelayClient
import LinuxLive.Lib.JsonCodec
import Mathlib.Data.List.Basic

/-!
# The nodes

The part of `App` that the pages of the nodes and of the chat work on, and the handlers of
the list of nodes.  A handler that is left by an exception ends the program: its result is
`none`.
-/

namespace LinuxLive

open Persistence

structure NodeInfo where
  id : Bytes
  name : Bytes
  description : Bytes
  creatorPubkey : Bytes
  adminPrivkey : Bytes
  relayUrl : Bytes
  createdAt : UInt64
  memberCount : Int32
  isLocal : Bool
  running : Bool
  deriving DecidableEq

/-- One element of the loop in `App::save_nodes`, member by member. -/
def NodeInfo.stored (n : NodeInfo) : StoredNode :=
  ⟨n.id, n.name, n.description, n.creatorPubkey, n.adminPrivkey, n.relayUrl, n.createdAt,
    n.memberCount, n.isLocal, n.running⟩

structure ChatMessage where
  sender : Bytes
  content : Bytes
  timestamp : UInt64
  isEncrypted : Bool
  deriving DecidableEq

/-- The files in the data directory; those of the messages by their path from it on. -/
structure AppFiles where
  identity : Option Bytes
  config : Option Bytes
  nodes : Option Bytes
  messages : List Bytes → Option Bytes

structure AppState where
  files : AppFiles
  nodes : List NodeInfo
  messages : List ChatMessage
  currentNodeId : Bytes
  displayNameCache : Bytes → Option Bytes
  /-- The key whose text `current_pubkey_hex_` is. -/
  publicKey : Option Bytes
  /-- The frames that were given to the relay, in order. -/
  sent : List Bytes

namespace App

def loadPersistedData (lib : JsonText) (file : Option Bytes) : List NodeInfo :=
  (loadNodes lib file).map fun n => {
    id := n.id
    name := n.name
    description := n.description
    creatorPubkey := n.creatorPubkey
    adminPrivkey := n.adminPrivkey
    relayUrl := n.relayUrl
    createdAt := n.createdAt
    memberCount := n.memberCount
    isLocal := n.isLocal
    running := n.running }

/-- `init_session` as far as the pages of the nodes go. -/
def initSession (lib : JsonText) (files : AppFiles) : AppState where
  files := files
  nodes := loadPersistedData lib files.nodes
  messages := []
  currentNodeId := []
  displayNameCache := fun _ => none
  publicKey := (IdentityManager.load files.identity).map Identity.publicKey
  sent := []

def saveNodes (lib : JsonText) (s : AppState) : Option AppState :=
  match Persistence.saveNodes lib (s.nodes.map NodeInfo.stored) with
  | (_, some _) => none
  | (file, none) => some { s with files := { s.files with nodes := some file } }

def creatorPub (s : AppState) : Bytes :=
  match IdentityManager.load s.files.identity with
  | none => []
  | some creatorId => IdentityManager.keyToHex creatorId.publicKey

/-- The event of a new node before it is signed. -/
def nodeEvent (name nodePub relayUrl creatorPub : Bytes) (now : UInt64) : Event where
  id := 0
  createdAt := now
  kind := Event.Kind.node.value
  tags := [
    [lit "d", nodePub],
    [lit "name", name],
    [lit "relay", relayUrl],
    [lit "creator", creatorPub]]
  content := name
  pubkey := nodePub
  sig := []

def newNode (name creatorPub nodePriv relayUrl : Bytes) (signedEvent : Event) : NodeInfo where
  id := decimal signedEvent.id.toNat
  name := name
  description := []
  creatorPubkey := creatorPub
  adminPrivkey := nodePriv
  relayUrl := relayUrl
  createdAt := signedEvent.createdAt
  memberCount := 1
  isLocal := true
  running := true

/-- `publish_event` with the text of a signed event. -/
def publishNode (lib : JsonText) (signedEvent : Event) (s : AppState) : Option AppState :=
  (lib.dump none (RelayClient.wireJson signedEvent)).map fun text =>
    { s with sent := s.sent ++ (RelayClient.publishEvent lib text).toList }

/-- `on_create_node` with the key pair of the new node. -/
def onCreateNode (lib : JsonText) (ssl : OpenSSL) (name : Bytes) (nodeKp : KeyPair) (now : UInt64)
    (connected : Bool) (s : AppState) : Option AppState :=
  if name = [] then some s
  else
    let nodePub := IdentityManager.keyToHex nodeKp.publicKey
    let nodePriv := IdentityManager.keyToHex nodeKp.secretKey
    let creatorPub := creatorPub s
    let relayUrl := loadRelayUrl lib s.files.config
    match signEvent lib ssl (nodeEvent name nodePub relayUrl creatorPub now) nodeKp with
    | none => none
    | some signedEvent =>
        let nd := newNode name creatorPub nodePriv relayUrl signedEvent
        (saveNodes lib { s with nodes := s.nodes ++ [nd] }).bind fun s =>
          if connected then publishNode lib signedEvent s else some s

/-- The node of a row; `none` is an index out of range. -/
def nodeAt (idx : Int) (s : AppState) : Option NodeInfo :=
  if idx < 0 then none else s.nodes[idx.toNat]?

def closeChat (s : AppState) : AppState := { s with currentNodeId := [], messages := [] }

def onNodeToggle (lib : JsonText) (idx : Int) (s : AppState) : Option AppState :=
  match nodeAt idx s with
  | none => some s
  | some n =>
      let n := { n with running := !n.running }
      (saveNodes lib { s with nodes := s.nodes.set idx.toNat n }).map fun s =>
        if !n.running && decide (s.currentNodeId = n.id) then closeChat s else s

def onNodeDelete (lib : JsonText) (idx : Int) (s : AppState) : Option AppState :=
  match nodeAt idx s with
  | none => some s
  | some n =>
      let s := if n.id = s.currentNodeId then closeChat s else s
      saveNodes lib { s with nodes := s.nodes.eraseIdx idx.toNat }

/-! ## What the handlers leave -/

section handlers

variable {lib : JsonText} {ssl : OpenSSL} {s t : AppState} {idx : Int} {n : NodeInfo}

theorem getElem?_of_nodeAt (h : nodeAt idx s = some n) : s.nodes[idx.toNat]? = some n := by
  unfold nodeAt at h
  split at h
  · cases h
  · exact h

theorem mem_of_nodeAt (h : nodeAt idx s = some n) : n ∈ s.nodes :=
  List.mem_of_getElem? (getElem?_of_nodeAt h)

theorem saveNodes_spec (h : saveNodes lib s = some t) :
    ∃ file, t = { s with files := { s.files with nodes := some file } } := by
  unfold saveNodes at h
  split at h
  · cases h
  · rename_i file _
    exact ⟨file, (Option.some.inj h).symm⟩

/-- A node is added, and its number is the text of an id. -/
theorem onCreateNode_spec {name : Bytes} {nodeKp : KeyPair} {now : UInt64} {connected : Bool}
    (h : onCreateNode lib ssl name nodeKp now connected s = some t) :
    t = s ∨ ∃ nd id file sent, nd.id = decimal id ∧ t = { s with
      nodes := s.nodes ++ [nd]
      files := { s.files with nodes := some file }
      sent := sent } := by
  unfold onCreateNode at h
  split at h
  · exact .inl (Option.some.inj h).symm
  · dsimp only at h
    split at h
    · cases h
    · obtain ⟨u, hsave, h⟩ := Option.bind_eq_some_iff.mp h
      obtain ⟨file, rfl⟩ := saveNodes_spec hsave
      split at h
      · obtain ⟨text, _, rfl⟩ := Option.map_eq_some_iff.mp h
        exact .inr ⟨_, _, file, _, rfl, rfl⟩
      · cases h
        exact .inr ⟨_, _, file, _, rfl, rfl⟩

/-- The flag of a node is changed; if it is the one of the open chat and has stopped, the
chat is closed. -/
theorem onNodeToggle_spec (h : onNodeToggle lib idx s = some t) :
    nodeAt idx s = none ∧ t = s ∨ ∃ n file, nodeAt idx s = some n ∧
      t = (if n.running && decide (s.currentNodeId = n.id) then closeChat else id) { s with
        nodes := s.nodes.set idx.toNat { n with running := !n.running }
        files := { s.files with nodes := some file } } := by
  unfold onNodeToggle at h
  split at h
  · exact .inl ⟨‹_›, (Option.some.inj h).symm⟩
  · rename_i n hnode
    obtain ⟨u, hsave, rfl⟩ := Option.map_eq_some_iff.mp h
    obtain ⟨file, rfl⟩ := saveNodes_spec hsave
    refine .inr ⟨n, file, hnode, ?_⟩
    dsimp only
    rw [Bool.not_not]
    split <;> rfl

/-- A node is taken out; if it is the one of the open chat, the chat is closed. -/
theorem onNodeDelete_spec (h : onNodeDelete lib idx s = some t) :
    nodeAt idx s = none ∧ t = s ∨ ∃ n file, nodeAt idx s = some n ∧
      t = (if n.id = s.currentNodeId then closeChat else id) { s with
        nodes := s.nodes.eraseIdx idx.toNat
        files := { s.files with nodes := some file } } := by
  unfold onNodeDelete at h
  split at h
  · exact .inl ⟨‹_›, (Option.some.inj h).symm⟩
  · rename_i n hnode
    obtain ⟨file, rfl⟩ := saveNodes_spec h
    refine .inr ⟨n, file, hnode, ?_⟩
    split <;> rfl

end handlers

/-! ## What is saved of the nodes -/

section saved

variable {lib : JsonText} {s : AppState} {nodes : List NodeInfo} {n : NodeInfo}

theorem loadPersistedData_saved
    (h : (Persistence.saveNodes lib (nodes.map NodeInfo.stored)).2 = none) :
    loadPersistedData lib (some (Persistence.saveNodes lib (nodes.map NodeInfo.stored)).1) =
      nodes := by
  have hload := StoredNode.codec.load_saved h
  rw [loadPersistedData, loadNodes, Persistence.saveNodes, hload, List.map_map]
  exact List.map_id nodes

theorem utf8_loadPersistedData {file : Option Bytes} (hn : n ∈ loadPersistedData lib file) :
    n.stored.utf8 = true := by
  obtain ⟨stored, hstored, rfl⟩ := List.mem_map.mp hn
  exact StoredNode.codec.utf8_load hstored

/-- Nodes that can be saved are found in the file, and nothing else is touched. -/
theorem exists_saveNodes (lib : JsonText) (h : ∀ n ∈ s.nodes, n.stored.utf8 = true) :
    ∃ file, saveNodes lib s = some { s with files := { s.files with nodes := some file } } ∧
      loadPersistedData lib (some file) = s.nodes := by
  have hutf8 : ∀ n ∈ s.nodes.map NodeInfo.stored, n.utf8 = true := by
    intro n hn
    obtain ⟨node, hnode, rfl⟩ := List.mem_map.mp hn
    exact h node hnode
  have hsaved : (Persistence.saveNodes lib (s.nodes.map NodeInfo.stored)).2 = none :=
    RecordCodec.save_iff.mpr hutf8
  refine ⟨_, ?_, loadPersistedData_saved hsaved⟩
  unfold saveNodes
  split
  · rename_i hsave
    rw [hsave] at hsaved
    cases hsaved
  · rename_i file hsave
    rw [hsave]

end saved

end App

/-! ## A saved node -/

def lanNode : NodeInfo where
  id := lit "7"
  name := lit "LAN party"
  description := []
  creatorPubkey := []
  adminPrivkey := []
  relayUrl := []
  createdAt := 1700000000
  memberCount := 1
  isLocal := true
  running := true

/-- The node has been saved, and nothing else. -/
def lanFiles : AppFiles where
  identity := none
  config := none
  nodes := some (Persistence.saveNodes Json.codec ([lanNode].map NodeInfo.stored)).1
  messages := fun _ => none

theorem loadPersistedData_lanFiles :
    App.loadPersistedData Json.codec lanFiles.nodes = [lanNode] := by
  have hsaved : (Persistence.saveNodes Json.codec ([lanNode].map NodeInfo.stored)).2 = none := by
    refine RecordCodec.save_iff.mpr ?_
    decide
  simp only [lanFiles, App.loadPersistedData_saved hsaved]

theorem initSession_lanFiles : (App.initSession Json.codec lanFiles).nodes = [lanNode] := by
  simp only [App.initSession, loadPersistedData_lanFiles]

end LinuxLive
