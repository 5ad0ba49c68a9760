import LinuxLive.Lib.Runs

/-!
# The relay connection and the status bar

`App::connect_to_relay` on the thread of the interface, `recv_loop` on its own, and the
idle calls that the connect callback leaves to the main loop.  Both threads set the flag
`_relay_connected`, and the idle calls read it when they are run.
-/

namespace LinuxLive.App

/-- Where the thread of the interface is: in its main loop, or in `connect_to_relay`. -/
inductive Interface where
  | mainLoop
  /-- `WsClient::disconnect` waits for `recv_loop` to end. -/
  | joining
  /-- The old connection is gone, and the callbacks are set. -/
  | connecting
  /-- `WsClient::connect` has returned, and its result has not been reported. -/
  | connected (ok : Bool)
  /-- The connect callback has run. -/
  | reported (ok : Bool)
  deriving DecidableEq

inductive RecvLoop where
  | ended
  | reading
  /-- `connected_` is reset, and `on_close_` has not been called. -/
  | closing
  deriving DecidableEq

structure Connection where
  gui : Interface
  recv : RecvLoop
  /-- `connected_` of the client. -/
  connected : Bool
  /-- `connect_cb` is set. -/
  callback : Bool
  /-- `_relay_connected` of the window. -/
  flag : Bool
  /-- What `update_relay_status` was last called with. -/
  shown : Bool
  /-- The calls of `g_idle_add` that have not been run. -/
  idles : Nat
  /-- How often the profile was published and the subscriptions made. -/
  rounds : Nat
  deriving DecidableEq

namespace Connection

def initial : Connection where
  gui := .mainLoop
  recv := .ended
  connected := false
  callback := false
  flag := false
  shown := false
  idles := 0
  rounds := 0

/-- The connect callback: the flag, and an idle call. -/
def onConnect (c : Connection) (connected : Bool) : Connection :=
  { c with flag := connected, idles := c.idles + 1 }

inductive Act where
  /-- `connect_to_relay` is called: by a click, or when the session begins. -/
  | connectToRelay
  /-- `recv_loop` has ended, and `RelayClient::disconnect` goes on. -/
  | disconnected
  /-- The result of `WsClient::connect`. -/
  | connect (ok : Bool)
  | reportConnect
  | updateStatus
  /-- An idle call is run. -/
  | idle
  /-- `recv_loop` finds the connection closed, or reads a close frame. -/
  | peerCloses
  /-- `recv_loop` calls `on_close_` and ends. -/
  | reportClose
  /-- `recv_loop` ends without calling it. -/
  | endsSilently
  deriving DecidableEq

inductive Step : Connection → Act → Connection → Prop where
  | connectToRelay {c : Connection} :
      c.gui = .mainLoop → Step c .connectToRelay { c with gui := .joining, connected := false }
  | disconnected {c : Connection} :
      c.gui = .joining → c.recv = .ended →
      Step c .disconnected
        { (if c.callback then c.onConnect false else c) with gui := .connecting, callback := true }
  | connect {c : Connection} (ok : Bool) :
      c.gui = .connecting →
      Step c (.connect ok)
        { c with
          gui := .connected ok
          connected := ok
          recv := if ok then .reading else .ended }
  | reportConnect {c : Connection} {ok : Bool} :
      c.gui = .connected ok → Step c .reportConnect { c.onConnect ok with gui := .reported ok }
  | updateStatus {c : Connection} {ok : Bool} :
      c.gui = .reported ok → Step c .updateStatus { c with gui := .mainLoop, shown := ok }
  | idle {c : Connection} :
      c.gui = .mainLoop → 0 < c.idles →
      Step c .idle
        { c with
          shown := c.flag
          idles := c.idles - 1
          rounds := if c.flag && c.connected then c.rounds + 1 else c.rounds }
  | peerCloses {c : Connection} :
      c.recv = .reading → Step c .peerCloses { c with connected := false, recv := .closing }
  | reportClose {c : Connection} :
      c.recv = .closing → Step c .reportClose { c.onConnect false with recv := .ended }
  | endsSilently {c : Connection} :
      c.recv = .reading → Step c .endsSilently { c with recv := .ended }

/-- All that was left to the main loop has been run, and nothing is being reported. -/
structure Quiet (c : Connection) : Prop where
  gui : c.gui = .mainLoop
  idles : c.idles = 0
  recv : c.recv ≠ .closing

/-- The close of a connection is not reported before the connection itself is. -/
def InOrder (c : Connection) (a : Act) : Prop := ¬ (a = .reportClose ∧ c.gui = .connected true)

/-- What the flag and the status bar have to do with the connection. -/
structure Told (c : Connection) : Prop where
  closing : c.recv = .closing → c.connected = false
  joining : c.gui = .joining → c.connected = false
  connecting : c.gui = .connecting → c.connected = false ∧ c.recv = .ended
  connected : ∀ ok, c.gui = .connected ok → c.recv ≠ .closing → c.connected = ok
  failed : c.gui = .connected false → c.recv = .ended
  reported : ∀ ok, c.gui = .reported ok → c.recv ≠ .closing → c.flag = c.connected
  pending : ∀ ok, c.gui = .reported ok → 0 < c.idles
  mainLoop : c.gui = .mainLoop → c.recv ≠ .closing → c.flag = c.connected
  shown : c.gui = .mainLoop → c.idles = 0 → c.shown = c.flag

theorem told_initial : Told initial :=
  ⟨nofun, nofun, nofun, nofun, nofun, nofun, nofun, fun _ _ => rfl, fun _ _ => rfl⟩

theorem Told.step {c c' : Connection} {a : Act} (h : Told c) (horder : InOrder c a)
    (hstep : Step c a c') : Told c' := by
  obtain ⟨hclosing, hjoining, hconnecting, hconnected, hfailed, hreported, hpending, hloop,
    hshown⟩ := h
  cases hstep with
  | connectToRelay hgui => constructor <;> simp
  | disconnected hgui hrecv =>
      have hno := hjoining hgui
      split <;> constructor <;> simp [onConnect, hno, hrecv]
  | connect ok hgui => constructor <;> cases ok <;> simp
  | @reportConnect ok hgui => constructor <;> simp [onConnect] <;> grind
  | @updateStatus ok hgui => constructor <;> simp <;> grind
  | idle hgui hpos => constructor <;> simp [hgui] <;> grind
  | peerCloses hrecv => constructor <;> simp <;> grind
  | reportClose hrecv => constructor <;> simp [onConnect] <;> grind [InOrder]
  | endsSilently hrecv => constructor <;> simp <;> grind

/-- When all is quiet the status bar tells whether `is_connected()`, unless a close was reported
before its connection was; then it can go on showing a connection that is gone. -/
theorem status_shown :
    (∀ l c, Run Step initial l c → Guarded Step InOrder initial l → Quiet c →
      c.shown = c.connected) ∧
    ∃ l c, Run Step initial l c ∧ Quiet c ∧ c.shown = true ∧ c.connected = false := by
  constructor
  · intro l c hrun horder hquiet
    have htold : Told c :=
      horder.keeps (fun _ _ _ htold horder hstep => htold.step horder hstep) hrun told_initial
    rw [htold.shown hquiet.gui hquiet.idles, htold.mainLoop hquiet.gui hquiet.recv]
  · have hrun : Run Step initial _ _ :=
      .cons (.connectToRelay rfl) (.cons (.disconnected rfl rfl) (.cons (.connect true rfl)
        (.cons (.peerCloses rfl) (.cons (.reportClose rfl) (.cons (.reportConnect rfl)
          (.cons (.updateStatus rfl) (.cons (.idle rfl (by decide))
            (.cons (.idle rfl (by decide)) (.nil _)))))))))
    exact ⟨_, _, hrun, ⟨rfl, rfl, nofun⟩, rfl, rfl⟩

/-! ## Publishing and subscribing -/

/-- No peer closes, neither of the old connection nor of the new one, and there is no further
one. -/
def Stays (_ : Connection) (a : Act) : Prop := a ≠ .peerCloses ∧ a ≠ .connectToRelay

/-- The idle calls run and pending since `connect_to_relay` was called on `c₀`. -/
structure Counts (c₀ c : Connection) : Prop where
  recv : c.recv ≠ .closing
  joining : c.gui = .joining → c.callback = c₀.callback ∧ c.rounds + c.idles = c₀.rounds + c₀.idles
  connected : ∀ ok, c.gui = .connected ok → c.connected = ok
  reported : ∀ ok, c.gui = .reported ok → c.connected = ok ∧ c.flag = ok
  mainLoop : c.gui = .mainLoop → c.flag = c.connected
  before : c.gui = .connecting ∨ (∃ ok, c.gui = .connected ok) →
    c.rounds + c.idles = c₀.rounds + c₀.idles + if c₀.callback then 1 else 0
  after : (∃ ok, c.gui = .reported ok) ∨ c.gui = .mainLoop → c.connected = true →
    c.rounds + c.idles = c₀.rounds + c₀.idles + if c₀.callback then 2 else 1

theorem Counts.step {c₀ c c' : Connection} {a : Act} (h : Counts c₀ c) (hstays : Stays c a)
    (hstep : Step c a c') : Counts c₀ c' := by
  obtain ⟨hrecv, hjoining, hconnected, hreported, hloop, hbefore, hafter⟩ := h
  cases hstep with
  | connectToRelay hgui => exact absurd rfl hstays.2
  | disconnected hgui hended =>
      obtain ⟨hcallback, hcount⟩ := hjoining hgui
      split <;> constructor <;> simp [onConnect] <;> grind
  | connect ok hgui =>
      have hcount := hbefore (.inl hgui)
      cases ok <;> constructor <;> simp <;> grind
  | @reportConnect ok hgui =>
      have hcount := hbefore (.inr ⟨ok, hgui⟩)
      constructor <;> simp [onConnect] <;> grind
  | @updateStatus ok hgui =>
      have hcount := hafter (.inl ⟨ok, hgui⟩)
      constructor <;> simp <;> grind
  | idle hgui hpos =>
      have hcount := hafter (.inr hgui)
      constructor <;> simp [hgui] <;> grind
  | peerCloses hreading => exact absurd rfl hstays.1
  | reportClose hclosing => exact absurd hclosing hrecv
  | endsSilently hreading => constructor <;> simp <;> grind

/-- On a connection that stays, the profile is published and the subscriptions are made once
for each idle call that is run: for those still pending, once more if no callback was set, and
twice more for a client with a callback, whose `disconnect` reports too. -/
theorem rounds_of_connection (c c₁ c' : Connection) (l : List Act) (hrecv : c.recv ≠ .closing)
    (hcall : Step c .connectToRelay c₁) (hrun : Run Step c₁ l c') (hstays : Guarded Step Stays c₁ l)
    (hquiet : Quiet c') (hconnected : c'.connected = true) :
    c'.rounds = c.rounds + c.idles + if c.callback then 2 else 1 := by
  have hstart : Counts c c₁ := by
    cases hcall
    constructor <;> simp [hrecv]
  have hcounts : Counts c c' :=
    hstays.keeps (fun _ _ _ hcounts hstays hstep => hcounts.step hstays hstep) hrun hstart
  rw [← hcounts.after (.inr hquiet.gui) hconnected, hquiet.idles, Nat.add_zero]

/-- No callback is set before the first connection: a single round. -/
theorem rounds_of_first_connection :
    ∃ l c', Run Step { initial with gui := .joining } l c' ∧ c'.connected = true ∧
      c'.rounds = 1 := by
  have hrun : Run Step { initial with gui := .joining }
      [.disconnected, .connect true, .reportConnect, .updateStatus, .idle] _ :=
    .cons (.disconnected rfl rfl) (.cons (.connect true rfl) (.cons (.reportConnect rfl)
      (.cons (.updateStatus rfl) (.cons (.idle rfl (by decide)) (.nil _)))))
  have hstays : Guarded Step Stays { initial with gui := .joining }
      [.disconnected, .connect true, .reportConnect, .updateStatus, .idle] := by
    intro l₁ a l₂ _ hl _
    have hmem : a ∈ [Act.disconnected, .connect true, .reportConnect, .updateStatus, .idle] := by
      rw [hl]
      simp
    simp only [List.mem_cons, List.not_mem_nil, or_false] at hmem
    obtain rfl | rfl | rfl | rfl | rfl := hmem <;> exact ⟨nofun, nofun⟩
  exact ⟨_, _, hrun, rfl, rounds_of_connection initial _ _ _ nofun (.connectToRelay rfl) hrun hstays
    ⟨rfl, rfl, nofun⟩ rfl⟩

end Connection

end LinuxLive.App
