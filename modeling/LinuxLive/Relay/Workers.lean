import LinuxLive.Relay.Acknowledge
import LinuxLive.Relay.Overshoot

/-!
# Sessions at work

The threads of all sessions over one server: the handler cut at its locked sections and
at the frames that it sends, so that other threads can take their steps between any two of
them.  The table of sessions is the one of the last `accept`; its sessions finish their
handshakes and end meanwhile.
-/

namespace LinuxLive.Relay

open Json

/-! ## Sessions of the table -/

namespace RelayServer

/-- `is_websocket()` -/
def isWebsocket (s : RelayServer) (fd : Nat) : Bool :=
  s.sessions.any fun t => t.fd == fd && t.wsHandshakeDone

/-- `is_websocket() && is_running()` -/
def isOpen (s : RelayServer) (fd : Nat) : Bool := s.sessions.any fun t => t.fd == fd && t.isOpen

theorem map_fd_update {fd : Nat} {f : ClientSession → ClientSession} (hf : ∀ t, (f t).fd = t.fd)
    (sessions : List ClientSession) :
    (sessions.map fun t => if t.fd = fd then f t else t).map ClientSession.fd =
      sessions.map ClientSession.fd := by
  rw [List.map_map]
  refine List.map_congr_left fun t _ => ?_
  dsimp only [Function.comp]
  split
  · exact hf t
  · rfl

def updateSession (s : RelayServer) (fd : Nat) (f : ClientSession → ClientSession)
    (hf : ∀ t, (f t).fd = t.fd) : RelayServer where
  config := s.config
  sessions := s.sessions.map fun t => if t.fd = fd then f t else t
  sessions_nodup := (map_fd_update hf s.sessions).symm ▸ s.sessions_nodup
  events := s.events
  rateLimitMap := s.rateLimitMap

def handshakeDone (s : RelayServer) (fd : Nat) : RelayServer :=
  s.updateSession fd (fun t => { t with wsHandshakeDone := true }) fun _ => rfl

/-- The read loop has ended, or the session has been stopped. -/
def sessionEnded (s : RelayServer) (fd : Nat) : RelayServer :=
  s.updateSession fd (fun t => { t with running := false }) fun _ => rfl

section sessions

variable {s s' : RelayServer} {fd : Nat} {t : ClientSession}

theorem isWebsocket_iff :
    s.isWebsocket fd = true ↔ ∃ t ∈ s.sessions, t.fd = fd ∧ t.wsHandshakeDone = true := by
  simp [isWebsocket]

theorem isOpen_iff : s.isOpen fd = true ↔ ∃ t ∈ s.sessions, t.fd = fd ∧ t.isOpen = true := by
  simp [isOpen]

theorem isWebsocket_of_isOpen (h : s.isOpen fd = true) : s.isWebsocket fd = true := by
  rw [isOpen_iff] at h
  obtain ⟨t, ht, hfd, hopen⟩ := h
  rw [ClientSession.isOpen, Bool.and_eq_true] at hopen
  exact isWebsocket_iff.mpr ⟨t, ht, hfd, hopen.1⟩

theorem isOpen_of_mem (ht : t ∈ s.sessions) : s.isOpen t.fd = t.isOpen := by
  rw [Bool.eq_iff_iff, isOpen_iff]
  constructor
  · rintro ⟨u, hu, hfd, hopen⟩
    rwa [← List.inj_on_of_nodup_map s.sessions_nodup hu ht hfd]
  · exact fun hopen => ⟨t, ht, rfl, hopen⟩

/-- What the sessions do while the relay runs: handshakes are done once, and nobody whose
handshake is done opens again. -/
structure Later (s s' : RelayServer) : Prop where
  fds : s'.sessions.map ClientSession.fd = s.sessions.map ClientSession.fd
  isWebsocket : ∀ fd, s.isWebsocket fd = true → s'.isWebsocket fd = true
  isOpen : ∀ fd, s.isWebsocket fd = true → s'.isOpen fd = true → s.isOpen fd = true

theorem Later.of_sessions (h : s'.sessions = s.sessions) : Later s s' where
  fds := congrArg _ h
  isWebsocket fd hdone := by
    unfold RelayServer.isWebsocket at hdone ⊢
    rwa [h]
  isOpen fd _ hopen := by
    unfold RelayServer.isOpen at hopen ⊢
    rwa [← h]

theorem later_updateSession {f : ClientSession → ClientSession} {hf : ∀ t, (f t).fd = t.fd}
    (hdone : ∀ t : ClientSession, t.wsHandshakeDone = true → (f t).wsHandshakeDone = true)
    (hopen : ∀ t : ClientSession, t.wsHandshakeDone = true → (f t).isOpen = true →
      t.isOpen = true) : Later s (s.updateSession fd f hf) where
  fds := map_fd_update hf s.sessions
  isWebsocket key h := by
    obtain ⟨t, ht, hfd, hws⟩ := isWebsocket_iff.mp h
    refine isWebsocket_iff.mpr ⟨_, List.mem_map_of_mem ht, ?_⟩
    split
    · exact ⟨(hf t).trans hfd, hdone t hws⟩
    · exact ⟨hfd, hws⟩
  isOpen key h hkey := by
    obtain ⟨t, ht, hfd, hws⟩ := isWebsocket_iff.mp h
    obtain ⟨_, hmem, hkey, hopened⟩ := isOpen_iff.mp hkey
    obtain ⟨u, hu, rfl⟩ := List.mem_map.mp hmem
    split at hkey
    · rename_i hfound
      rw [if_pos hfound] at hopened
      have hsame : u = t :=
        List.inj_on_of_nodup_map s.sessions_nodup hu ht (((hf u).symm.trans hkey).trans hfd.symm)
      subst hsame
      exact isOpen_iff.mpr ⟨u, hu, hfd, hopen u hws hopened⟩
    · rename_i hother
      rw [if_neg hother] at hopened
      exact isOpen_iff.mpr ⟨u, hu, hkey, hopened⟩

theorem later_handshakeDone : Later s (s.handshakeDone fd) :=
  later_updateSession (fun _ _ => rfl) fun t hdone hopen => by
    simpa [ClientSession.isOpen, hdone] using hopen

theorem later_sessionEnded : Later s (s.sessionEnded fd) :=
  later_updateSession (fun _ h => h) fun t _ hopen => by simp [ClientSession.isOpen] at hopen

end sessions

end RelayServer

/-! ## Threads -/

/-- A frame of a session's thread: the reply to an event, the event passed on to another
session, or a part of the answer to a subscription. -/
inductive HubFrame where
  | ok (session : Nat) (raw text : Bytes)
  | forwarded (origin target : Nat) (raw : Bytes)
  | answer (session : Nat) (text : Bytes)
  deriving DecidableEq

namespace HubFrame

def origin : HubFrame → Nat
  | ok session _ _ => session
  | forwarded origin _ _ => origin
  | answer session _ => session

def target : HubFrame → Nat
  | ok session _ _ => session
  | forwarded _ target _ => target
  | answer session _ => session

def text : HubFrame → Bytes
  | ok _ _ text => text
  | forwarded _ _ raw => raw
  | answer _ text => text

end HubFrame

structure Hub where
  server : RelayServer
  sent : List HubFrame

namespace Hub

/-- `send_ws_text`: only on an open WebSocket. -/
def send (h : Hub) (frame : HubFrame) : Hub :=
  if h.server.isOpen frame.target then { h with sent := h.sent ++ [frame] } else h

@[simp] theorem send_server (h : Hub) (frame : HubFrame) : (h.send frame).server = h.server := by
  unfold send
  split <;> rfl

theorem send_sent (h : Hub) (frame : HubFrame) : (h.send frame).sent =
    h.sent ++ if h.server.isOpen frame.target then [frame] else [] := by
  unfold send
  split
  · rfl
  · exact (List.append_nil _).symm

end Hub

/-- What a thread has still to do for the message that it handles. -/
inductive Job where
  | waiting
  | rateChecked (raw : Bytes) (se : StoredEvent)
  | roomChecked (raw : Bytes) (se : StoredEvent)
  | stored (raw : Bytes) (se : StoredEvent)
  | replying (raw : Bytes) (se : StoredEvent)
  | forwarding (raw : Bytes) (left : List Nat)
  | answering (left : List Bytes) (thrown : Option JsonError)

namespace Job

/-- An EVENT from its head up to `check_rate_limit` and the fields behind it. -/
def beginEvent (now : UInt64) (raw : Bytes) (event : Json) (h : Hub) : Option (Job × Hub) :=
  match eventHead event with
  | .error _ => none
  | .ok (pubkey, kind) =>
      if h.server.isPubkeyBanned pubkey then some (.waiting, h)
      else if !h.server.isEventAllowed kind then some (.waiting, h)
      else
        let checked := h.server.checkRateLimit pubkey now
        if !checked.1 then some (.waiting, { h with server := checked.2 })
        else
          match readStoredEvent event pubkey kind raw.length with
          | .error _ => none
          | .ok se => some (.rateChecked raw se, { h with server := checked.2 })

/-- A message up to the end of its first section.  A handler that throws ends the program.
The lock of the store is held throughout an answer, so its frames are those of the store
as it is now. -/
def begin (lib : JsonText) (now : UInt64) (fd : Nat) (raw : Bytes) (h : Hub) : Option (Job × Hub) :=
  match lib.parse raw with
  | some (.arr (.str type :: body :: rest)) =>
      if type = lit "EVENT" then beginEvent now raw body h
      else if type = lit "REQ" then
        let answer := handleReq lib h.server ⟨fd, true, true⟩ body rest.head?
        some (.answering (answer.sent.map Prod.snd) answer.thrown, h)
      else some (.waiting, h)
  | some (.arr (_ :: _ :: _)) => none
  | _ => some (.waiting, h)

/-- One more section, or one more frame. -/
def step (lib : JsonText) (now : UInt64) (fd : Nat) : Job → Hub → Option (Job × Hub)
  | .waiting, _ => none
  | .rateChecked raw se, h =>
      some (if h.server.canStoreEvent se then .roomChecked raw se else .replying raw se, h)
  | .roomChecked raw se, h => some (.stored raw se, { h with server := h.server.storeEvent se })
  | .stored raw se, h =>
      some (.replying raw se, { h with server := h.server.recordEvent se.pubkey now })
  | .replying raw se, h =>
      match lib.dump none (okMessage se.id) with
      | none => none
      | some text =>
          some (.forwarding raw (h.server.sessions.map ClientSession.fd), h.send (.ok fd raw text))
  | .forwarding _ [], h => some (.waiting, h)
  | .forwarding raw (target :: left), h =>
      some (.forwarding raw left, if target = fd then h else h.send (.forwarded fd target raw))
  | .answering [] none, h => some (.waiting, h)
  | .answering [] (some _), _ => none
  | .answering (text :: left) thrown, h => some (.answering left thrown, h.send (.answer fd text))

end Job

structure Worker where
  fd : Nat
  job : Job

/-- A thread receives a message on its open session, or goes on with the one it has. -/
inductive Worker.Step (lib : JsonText) : Worker → Hub → Worker → Hub → Prop where
  | receives {fd : Nat} {h h' : Hub} {job : Job} (now : UInt64) (raw : Bytes) :
      h.server.isOpen fd = true → Job.begin lib now fd raw h = some (job, h') →
      Step lib ⟨fd, .waiting⟩ h ⟨fd, job⟩ h'
  | goesOn {fd : Nat} {h h' : Hub} {job job' : Job} (now : UInt64) :
      Job.step lib now fd job h = some (job', h') → Step lib ⟨fd, job⟩ h ⟨fd, job'⟩ h'

/-- What goes on besides the messages. -/
inductive Surroundings : Hub → Hub → Prop where
  | maintenance {h : Hub} {server : RelayServer} :
      Maintenance h.server server → Surroundings h { h with server := server }
  | handshakeDone (h : Hub) (fd : Nat) :
      Surroundings h { h with server := h.server.handshakeDone fd }
  | sessionEnded (h : Hub) (fd : Nat) :
      Surroundings h { h with server := h.server.sessionEnded fd }

def HubStep (lib : JsonText) : Pool Worker Hub → Option Nat → Pool Worker Hub → Prop :=
  Pool.Step (Worker.Step lib) Surroundings

def startHub (server : RelayServer) : Pool Worker Hub :=
  ⟨server.sessions.map fun t => ⟨t.fd, .waiting⟩, ⟨server, []⟩⟩

/-! ## What one step does -/

section spec

variable {lib : JsonText} {now : UInt64} {fd : Nat} {raw : Bytes} {h h' : Hub} {job job' : Job}
  {w w' : Worker}

theorem Job.begin_spec (hbegin : Job.begin lib now fd raw h = some (job, h')) :
    (h'.sent = h.sent ∧ h'.server.sessions = h.server.sessions ∧
      h'.server.events = h.server.events) ∧
    (job = .waiting ∨ (∃ se, job = .rateChecked raw se ∧ ReadsAs lib raw se) ∨
      ∃ texts thrown, job = .answering texts thrown) := by
  unfold Job.begin at hbegin
  split at hbegin
  · rename_i type body rest hparse
    split at hbegin
    · rename_i htype
      subst htype
      unfold beginEvent at hbegin
      split at hbegin
      · cases hbegin
      · rename_i pubkey kind hhead
        split at hbegin
        · cases hbegin
          exact ⟨⟨rfl, rfl, rfl⟩, .inl rfl⟩
        · split at hbegin
          · cases hbegin
            exact ⟨⟨rfl, rfl, rfl⟩, .inl rfl⟩
          · dsimp only at hbegin
            split at hbegin
            · cases hbegin
              exact ⟨⟨rfl, rfl, rfl⟩, .inl rfl⟩
            · split at hbegin
              · cases hbegin
              · rename_i se hread
                cases hbegin
                obtain ⟨_, _, _, _, _, rfl, rfl, _⟩ := readStoredEvent_spec hread
                exact ⟨⟨rfl, rfl, rfl⟩, .inr (.inl ⟨se, rfl, body, rest, hparse, hhead, hread⟩)⟩
    · split at hbegin
      · cases hbegin
        exact ⟨⟨rfl, rfl, rfl⟩, .inr (.inr ⟨_, _, rfl⟩)⟩
      · cases hbegin
        exact ⟨⟨rfl, rfl, rfl⟩, .inl rfl⟩
  · cases hbegin
  · cases hbegin
    exact ⟨⟨rfl, rfl, rfl⟩, .inl rfl⟩

theorem Hub.sent_send (h : Hub) {frame : HubFrame} (horigin : frame.origin = fd) :
    ∃ frames, (h.send frame).sent = h.sent ++ frames ∧ ∀ f ∈ frames, f.origin = fd := by
  refine ⟨_, h.send_sent frame, fun f hf => ?_⟩
  split at hf
  · rw [List.mem_singleton.mp hf]
    exact horigin
  · cases hf

theorem Job.step_spec (hstep : Job.step lib now fd job h = some (job', h')) :
    h'.server.sessions = h.server.sessions ∧
      ∃ frames, h'.sent = h.sent ++ frames ∧ ∀ f ∈ frames, f.origin = fd := by
  have hnone : ∃ frames, h.sent = h.sent ++ frames ∧ ∀ f ∈ frames, f.origin = fd :=
    ⟨[], (List.append_nil _).symm, fun f hf => absurd hf List.not_mem_nil⟩
  cases job with
  | waiting => cases hstep
  | rateChecked raw se => cases hstep; exact ⟨rfl, hnone⟩
  | roomChecked raw se => cases hstep; exact ⟨rfl, hnone⟩
  | stored raw se => cases hstep; exact ⟨rfl, hnone⟩
  | replying raw se =>
      rw [Job.step] at hstep
      split at hstep
      · cases hstep
      · cases hstep
        exact ⟨by rw [Hub.send_server], h.sent_send rfl⟩
  | forwarding raw left =>
      cases left with
      | nil => cases hstep; exact ⟨rfl, hnone⟩
      | cons target left =>
          cases hstep
          split
          · exact ⟨rfl, hnone⟩
          · exact ⟨by rw [Hub.send_server], h.sent_send rfl⟩
  | answering left thrown =>
      cases left with
      | nil =>
          cases thrown with
          | none => cases hstep; exact ⟨rfl, hnone⟩
          | some e => cases hstep
      | cons text left =>
          cases hstep
          exact ⟨by rw [Hub.send_server], h.sent_send rfl⟩

theorem Worker.Step.sameFd (hstep : Worker.Step lib w h w' h') : w'.fd = w.fd := by
  cases hstep <;> rfl

theorem Worker.Step.sessions (hstep : Worker.Step lib w h w' h') :
    h'.server.sessions = h.server.sessions := by
  cases hstep with
  | receives now raw _ hbegin => exact (Job.begin_spec hbegin).1.2.1
  | goesOn now hstep => exact (Job.step_spec hstep).1

theorem Worker.Step.sent (hstep : Worker.Step lib w h w' h') :
    ∃ frames, h'.sent = h.sent ++ frames ∧ ∀ f ∈ frames, f.origin = w.fd := by
  cases hstep with
  | receives now raw _ hbegin =>
      exact ⟨[], by rw [(Job.begin_spec hbegin).1.1, List.append_nil],
        fun f hf => absurd hf List.not_mem_nil⟩
  | goesOn now hstep => exact (Job.step_spec hstep).2

theorem Surroundings.later (hstep : Surroundings h h') :
    RelayServer.Later h.server h'.server ∧ h'.sent = h.sent := by
  cases hstep with
  | maintenance hmaintenance => cases hmaintenance <;> exact ⟨.of_sessions rfl, rfl⟩
  | handshakeDone fd => exact ⟨RelayServer.later_handshakeDone, rfl⟩
  | sessionEnded fd => exact ⟨RelayServer.later_sessionEnded, rfl⟩

end spec

/-! ## The sections of a thread -/

def RelayServer.bare (s : RelayServer) : RelayServer :=
  { s with sessions := [], sessions_nodup := List.nodup_nil }

/-- The section that a thread is at; frames and answers belong to none. -/
def Job.task : Job → Task
  | .rateChecked _ se => .rateChecked se
  | .roomChecked _ se => .roomChecked se
  | .stored _ se => .stored se
  | _ => .done

section sections

variable {lib : JsonText} {now : UInt64} {fd : Nat} {raw : Bytes} {h h' : Hub} {job job' : Job}
  {w w' : Worker} {p q : Pool Worker Hub}

theorem beginEvent_bare (event : Json) (size : Nat) (s : RelayServer) :
    beginEvent event size now s.bare =
      ((beginEvent event size now s).1, (beginEvent event size now s).2.bare) := by
  have hban : ∀ pubkey, s.bare.isPubkeyBanned pubkey = s.isPubkeyBanned pubkey := fun _ => rfl
  have hallow : ∀ kind, s.bare.isEventAllowed kind = s.isEventAllowed kind := fun _ => rfl
  have hcheck : ∀ pubkey, s.bare.checkRateLimit pubkey now =
      ((s.checkRateLimit pubkey now).1, (s.checkRateLimit pubkey now).2.bare) := fun _ => rfl
  unfold beginEvent
  simp only [hban, hallow, hcheck]
  split
  · rfl
  · split
    · rfl
    · split
      · rfl
      · split
        · rfl
        · split <;> rfl

/-- No section looks at the table. -/
theorem receive_bare (s : RelayServer) : receive lib raw now s.bare =
    ((receive lib raw now s).1, (receive lib raw now s).2.bare) := by
  unfold receive
  split
  · split
    · exact beginEvent_bare _ _ s
    · rfl
  · rfl

theorem Task.step_bare {t t' : Task} {s s' : RelayServer}
    (hstep : Task.step lib now t s = some (t', s')) :
    Task.step lib now t s.bare = some (t', s'.bare) := by
  cases t with
  | received raw =>
      have hreceive : receive lib raw now s = (t', s') := Option.some.inj hstep
      rw [Task.step, receive_bare, hreceive]
  | rateChecked se => cases hstep; rfl
  | roomChecked se => cases hstep; rfl
  | stored se => cases hstep; rfl
  | done => cases hstep

theorem Maintenance.bare {s s' : RelayServer} (hstep : Maintenance s s') :
    Maintenance s.bare s'.bare := by
  cases hstep with
  | prune now => exact .prune s.bare now
  | deleteByPubkey pubkey => exact .deleteByPubkey s.bare pubkey
  | deleteById eventId => exact .deleteById s.bare eventId
  | ban pubkey => exact .ban s.bare pubkey
  | allow kind => exact .allow s.bare kind

theorem Job.task_beginEvent {event : Json}
    (hbegin : Job.beginEvent now raw event h = some (job, h')) :
    Relay.beginEvent event raw.length now h.server = (job.task, h'.server) := by
  unfold Job.beginEvent at hbegin
  unfold Relay.beginEvent
  cases hhead : eventHead event with
  | error e =>
      rw [hhead] at hbegin
      cases hbegin
  | ok head =>
      obtain ⟨pubkey, kind⟩ := head
      rw [hhead] at hbegin
      dsimp only at hbegin ⊢
      by_cases hban : h.server.isPubkeyBanned pubkey = true
      · rw [if_pos hban] at hbegin ⊢
        cases hbegin
        rfl
      · rw [if_neg hban] at hbegin ⊢
        by_cases hallow : (!h.server.isEventAllowed kind) = true
        · rw [if_pos hallow] at hbegin ⊢
          cases hbegin
          rfl
        · rw [if_neg hallow] at hbegin ⊢
          by_cases hrate : (!(h.server.checkRateLimit pubkey now).1) = true
          · rw [if_pos hrate] at hbegin ⊢
            cases hbegin
            rfl
          · rw [if_neg hrate] at hbegin ⊢
            cases hread : readStoredEvent event pubkey kind raw.length with
            | error e =>
                rw [hread] at hbegin
                cases hbegin
            | ok se =>
                rw [hread] at hbegin
                cases hbegin
                rfl

/-- The first section is the one of the handler that sends nothing. -/
theorem Job.task_begin (hbegin : Job.begin lib now fd raw h = some (job, h')) :
    receive lib raw now h.server = (job.task, h'.server) := by
  by_cases hevent : IsEvent lib raw
  · obtain ⟨event, rest, hparse⟩ := hevent
    rw [Job.begin, hparse] at hbegin
    rw [receive, hparse]
    exact Job.task_beginEvent hbegin
  · rw [receive_of_not_event hevent]
    unfold Job.begin at hbegin
    split at hbegin
    · rename_i type body rest hparse
      have htype : type ≠ lit "EVENT" := fun htype => hevent ⟨body, rest, htype ▸ hparse⟩
      rw [if_neg htype] at hbegin
      split at hbegin <;> cases hbegin <;> rfl
    · cases hbegin
    · cases hbegin
      rfl

/-- A later section is the one of the handler, and a frame or an answer leaves the server. -/
theorem Job.task_step (hstep : Job.step lib now fd job h = some (job', h')) :
    Task.step lib now job.task h.server = some (job'.task, h'.server) ∨
      job'.task = job.task ∧ h'.server = h.server := by
  cases job with
  | waiting => cases hstep
  | rateChecked raw se =>
      cases hstep
      refine .inl ?_
      rw [Job.task, Task.step]
      split <;> rfl
  | roomChecked raw se => cases hstep; exact .inl rfl
  | stored raw se => cases hstep; exact .inl rfl
  | replying raw se =>
      rw [Job.step] at hstep
      split at hstep
      · cases hstep
      · cases hstep
        exact .inr ⟨rfl, Hub.send_server h _⟩
  | forwarding raw left =>
      cases left with
      | nil => cases hstep; exact .inr ⟨rfl, rfl⟩
      | cons target left =>
          cases hstep
          refine .inr ⟨rfl, ?_⟩
          split
          · rfl
          · exact Hub.send_server h _
  | answering left thrown =>
      cases left with
      | nil =>
          cases thrown with
          | none => cases hstep; exact .inr ⟨rfl, rfl⟩
          | some e => cases hstep
      | cons text left => cases hstep; exact .inr ⟨rfl, Hub.send_server h _⟩

/-- What a thread does to the store and the rate limiter, its sections do. -/
theorem Worker.Step.tasks (hstep : Worker.Step lib w h w' h') (before after : List Task) :
    Reachable (RelayStep lib) ⟨before ++ w.job.task :: after, h.server.bare⟩
      ⟨before ++ w'.job.task :: after, h'.server.bare⟩ := by
  cases hstep with
  | receives now raw _ hbegin =>
      have hreceive : Task.step lib now (.received raw) h.server = some (_, h'.server) :=
        congrArg some (Job.task_begin hbegin)
      have hfirst := Task.step_bare hreceive
      exact (Pool.reachable_thread (.receives raw _)).trans
        (Pool.reachable_thread (.goesOn now hfirst))
  | goesOn now hstep =>
      obtain hsection | ⟨htask, hserver⟩ := Job.task_step hstep
      · exact Pool.reachable_thread (.goesOn now (Task.step_bare hsection))
      · rw [htask, hserver]
        exact .refl _

/-- Every run of the threads is one of their sections alone. -/
theorem reachable_tasks (hreach : Reachable (HubStep lib) p q) :
    Reachable (RelayStep lib) (p.map (fun w => w.job.task) fun h => h.server.bare)
      (q.map (fun w => w.job.task) fun h => h.server.bare) := by
  refine Pool.reachable_map _ _ (fun _ _ _ _ hstep => hstep.tasks) (fun s s' hstep => ?_) hreach
  cases hstep with
  | maintenance hmaintenance => exact .inl hmaintenance.bare
  | handshakeDone fd => exact .inr rfl
  | sessionEnded fd => exact .inr rfl

end sections

/-! ## One thread at a time -/

/-- Alone, the thread finishes its message with this server and these frames. -/
def Completes (lib : JsonText) (fd : Nat) (job : Job) (h : Hub) (server : RelayServer)
    (sent : List (Nat × Bytes)) : Prop :=
  ∃ frames : List HubFrame, frames.map (fun f => (f.target, f.text)) = sent ∧
    ∀ before after, Reachable (HubStep lib) ⟨before ++ ⟨fd, job⟩ :: after, h⟩
      ⟨before ++ ⟨fd, .waiting⟩ :: after, ⟨server, h.sent ++ frames⟩⟩

section completes

variable {lib : JsonText} {now : UInt64} {fd : Nat} {raw : Bytes} {h h' : Hub} {job job' : Job}
  {server : RelayServer} {sent : List (Nat × Bytes)}

theorem completes_waiting : Completes lib fd .waiting h h.server [] := by
  refine ⟨[], rfl, fun before after => ?_⟩
  rw [List.append_nil]
  exact .refl _

theorem Completes.head (hc : Completes lib fd job' h' server sent)
    (hstep : Worker.Step lib ⟨fd, job⟩ h ⟨fd, job'⟩ h') (hsent : h'.sent = h.sent) :
    Completes lib fd job h server sent := by
  obtain ⟨frames, hframes, hreach⟩ := hc
  refine ⟨frames, hframes, fun before after => (Pool.reachable_thread hstep).trans ?_⟩
  rw [← hsent]
  exact hreach before after

/-- A step that sends a frame to an open session sends it; to another, nothing. -/
theorem Completes.send {frame : HubFrame}
    (hc : ∀ h'' : Hub, h''.server = h.server → Completes lib fd job' h'' server sent)
    (hstep : Job.step lib now fd job h = some (job', h.send frame)) :
    Completes lib fd job h server
      ((if h.server.isOpen frame.target then [(frame.target, frame.text)] else []) ++ sent) := by
  obtain ⟨frames, hframes, hreach⟩ := hc (h.send frame) (h.send_server frame)
  refine ⟨(if h.server.isOpen frame.target then [frame] else []) ++ frames, ?_,
    fun before after => (Pool.reachable_thread (.goesOn now hstep)).trans ?_⟩
  · rw [List.map_append, hframes]
    split <;> rfl
  · rw [← List.append_assoc, ← Hub.send_sent]
    exact hreach before after

theorem completes_answering (texts : List Bytes) :
    Completes lib fd (.answering texts none) h h.server
      (texts.flatMap fun text => if h.server.isOpen fd then [(fd, text)] else []) := by
  induction texts generalizing h with
  | nil => exact completes_waiting.head (.goesOn 0 rfl) rfl
  | cons text texts ih =>
      have hstep : Job.step lib 0 fd (.answering (text :: texts) none) h =
          some (.answering texts none, h.send (.answer fd text)) := rfl
      have hlater : ∀ h'' : Hub, h''.server = h.server → Completes lib fd (.answering texts none)
          h'' h.server (texts.flatMap fun text => if h.server.isOpen fd then [(fd, text)] else []) := by
        intro h'' hserver
        rw [← hserver]
        exact ih
      exact Completes.send hlater hstep

theorem completes_forwarding {session : ClientSession} (left : List ClientSession)
    (hleft : ∀ t ∈ left, t ∈ h.server.sessions) :
    Completes lib session.fd (.forwarding raw (left.map ClientSession.fd)) h h.server
      (left.flatMap fun t =>
        if t.fd != session.fd && t.wsHandshakeDone && t.running then sendWsText t raw else []) := by
  induction left generalizing h with
  | nil => exact completes_waiting.head (.goesOn 0 rfl) rfl
  | cons t left ih =>
      rw [List.forall_mem_cons] at hleft
      obtain ⟨ht, hleft⟩ := hleft
      by_cases hself : t.fd = session.fd
      · have hstep : Job.step lib 0 session.fd
            (.forwarding raw (t.fd :: left.map ClientSession.fd)) h =
              some (.forwarding raw (left.map ClientSession.fd), h) := by
          simp [Job.step, hself]
        simpa [hself] using (ih hleft).head (.goesOn 0 hstep) rfl
      · have hstep : Job.step lib 0 session.fd
            (.forwarding raw (t.fd :: left.map ClientSession.fd)) h =
              some (.forwarding raw (left.map ClientSession.fd),
                h.send (.forwarded session.fd t.fd raw)) := by
          simp [Job.step, hself]
        have hlater : ∀ h'' : Hub, h''.server = h.server → Completes lib session.fd
            (.forwarding raw (left.map ClientSession.fd)) h'' h.server (left.flatMap fun t =>
              if t.fd != session.fd && t.wsHandshakeDone && t.running then sendWsText t raw
              else []) := by
          intro h'' hserver
          rw [← hserver] at hleft ⊢
          exact ih hleft
        have hrest := Completes.send hlater hstep
        have hopen : h.server.isOpen t.fd = (t.wsHandshakeDone && t.running) :=
          RelayServer.isOpen_of_mem ht
        have hone : (if t.fd != session.fd && t.wsHandshakeDone && t.running then sendWsText t raw
            else []) = if t.wsHandshakeDone && t.running then [(t.fd, raw)] else [] := by
          simp [hself, sendWsText]
        rw [List.map_cons, List.flatMap_cons, hone, ← hopen]
        exact hrest

variable {session : ClientSession} {checkedAt recordedAt : UInt64}

theorem completes_replying {se : StoredEvent} {text : Bytes} (hsession : session ∈ h.server.sessions)
    (hdump : lib.dump none (okMessage se.id) = some text) :
    Completes lib session.fd (.replying raw se) h h.server
      (sendWsText session text ++ forward h.server session raw) := by
  have hstep : Job.step lib 0 session.fd (.replying raw se) h =
      some (.forwarding raw (h.server.sessions.map ClientSession.fd),
        h.send (.ok session.fd raw text)) := by
    simp [Job.step, hdump]
  have hlater : ∀ h'' : Hub, h''.server = h.server → Completes lib session.fd
      (.forwarding raw (h.server.sessions.map ClientSession.fd)) h'' h.server
        (forward h.server session raw) := by
    intro h'' hserver
    rw [← hserver]
    exact completes_forwarding _ fun t ht => ht
  have hopen : h.server.isOpen session.fd = session.isOpen := RelayServer.isOpen_of_mem hsession
  have hall := Completes.send hlater hstep
  rw [HubFrame.target, HubFrame.text, hopen] at hall
  exact hall

theorem completes_rateChecked {se : StoredEvent} {text : Bytes} (recordedAt : UInt64)
    (hsession : session ∈ h.server.sessions)
    (hdump : lib.dump none (okMessage se.id) = some text) :
    Completes lib session.fd (.rateChecked raw se) h (h.server.storeIfRoom se recordedAt)
      (sendWsText session text ++ forward (h.server.storeIfRoom se recordedAt) session raw) := by
  unfold RelayServer.storeIfRoom
  by_cases hroom : h.server.canStoreEvent se = true
  · rw [if_pos hroom]
    have hlast : Completes lib session.fd (.replying raw se)
        ⟨(h.server.storeEvent se).recordEvent se.pubkey recordedAt, h.sent⟩ _ _ :=
      completes_replying hsession hdump
    have hstored : Completes lib session.fd (.stored raw se)
        ⟨h.server.storeEvent se, h.sent⟩ _ _ := hlast.head (.goesOn recordedAt rfl) rfl
    have hfound : Completes lib session.fd (.roomChecked raw se) h _ _ :=
      hstored.head (.goesOn 0 rfl) rfl
    exact hfound.head (.goesOn 0 (by rw [Job.step, if_pos hroom])) rfl
  · rw [if_neg hroom]
    have hreply : Completes lib session.fd (.replying raw se) h _ _ :=
      completes_replying hsession hdump
    exact hreply.head (.goesOn 0 (by rw [Job.step, if_neg hroom])) rfl

theorem fst_of_mem_handleReq {s : RelayServer} {sub : Json} {filter : Option Json}
    {frame : Nat × Bytes} (hframe : frame ∈ (handleReq lib s session sub filter).sent) :
    frame.1 = session.fd := by
  have hown : ∀ text, frame ∈ sendWsText session text → frame.1 = session.fd := by
    intro text hmem
    unfold sendWsText at hmem
    split at hmem
    · rw [List.mem_singleton.mp hmem]
    · cases hmem
  have hloop : ∀ subId, frame ∈ (reqLoop lib session subId (filter.getD (.obj [])) s.events).1 →
      frame.1 = session.fd := by
    intro subId hmem
    obtain ⟨_, _, _, text, _, htext⟩ := reqLoop_sound hmem
    exact hown text htext
  unfold handleReq at hframe
  split at hframe
  · cases hframe
  · rename_i subId _
    split at hframe
    · rename_i hreq
      exact hloop subId (hreq ▸ hframe)
    · rename_i hreq
      split at hframe
      · exact hloop subId (hreq ▸ hframe)
      · obtain hframe | hframe := List.mem_append.mp hframe
        · exact hloop subId (hreq ▸ hframe)
        · exact hown _ hframe

theorem completes_handleReq {body : Json} {rest : List Json} (hsession : session ∈ h.server.sessions)
    (hopen : session.isOpen = true)
    (hparse : lib.parse raw = some (.arr (.str (lit "REQ") :: body :: rest)))
    (hreturns : (handleReq lib h.server session body rest.head?).thrown = none) :
    Completes lib session.fd .waiting h h.server
      (handleReq lib h.server session body rest.head?).sent := by
  have hisOpen : h.server.isOpen session.fd = true :=
    (RelayServer.isOpen_of_mem hsession).trans hopen
  have hsame : session = ⟨session.fd, true, true⟩ := by
    obtain ⟨fd, done, running⟩ := session
    cases done <;> cases running <;> first | rfl | cases hopen
  generalize hanswer : handleReq lib h.server session body rest.head? = answer at hreturns ⊢
  have hbegin : Job.begin lib 0 session.fd raw h =
      some (.answering (answer.sent.map Prod.snd) none, h) := by
    have hne : lit "REQ" ≠ lit "EVENT" := by decide
    rw [Job.begin, hparse]
    simp only [if_neg hne, if_true]
    rw [← hsame, hanswer, hreturns]
  have hsent : ((answer.sent.map Prod.snd).flatMap fun text =>
      if h.server.isOpen session.fd then [(session.fd, text)] else []) = answer.sent := by
    simp only [hisOpen, if_true, List.flatMap_map]
    rw [← List.map_eq_flatMap]
    refine (List.map_congr_left fun frame hframe => ?_).trans (List.map_id _)
    rw [← hanswer] at hframe
    rw [← fst_of_mem_handleReq hframe]
    rfl
  rw [← hsent]
  exact (completes_answering _).head (.receives 0 raw hisOpen hbegin) rfl

theorem completes_handleEvent {body : Json} {rest : List Json}
    (hsession : session ∈ h.server.sessions) (hopen : session.isOpen = true)
    (hparse : lib.parse raw = some (.arr (.str (lit "EVENT") :: body :: rest)))
    (hreturns : (handleEvent lib h.server session body raw checkedAt recordedAt).thrown = none) :
    Completes lib session.fd .waiting h
      (handleEvent lib h.server session body raw checkedAt recordedAt).server
      (handleEvent lib h.server session body raw checkedAt recordedAt).sent := by
  have hisOpen : h.server.isOpen session.fd = true :=
    (RelayServer.isOpen_of_mem hsession).trans hopen
  have hends : ∀ server, Job.begin lib checkedAt session.fd raw h =
      some (.waiting, { h with server := server }) →
      Completes lib session.fd .waiting h server [] := by
    intro server hbegin
    have hlast : Completes lib session.fd .waiting { h with server := server } server [] :=
      completes_waiting
    exact hlast.head (.receives checkedAt raw hisOpen hbegin) rfl
  have hbegin : Job.begin lib checkedAt session.fd raw h = Job.beginEvent checkedAt raw body h := by
    simp [Job.begin, hparse]
  unfold Job.beginEvent at hbegin
  unfold handleEvent at hreturns ⊢
  cases hhead : eventHead body with
  | error e =>
      rw [hhead] at hreturns
      cases hreturns
  | ok head =>
      obtain ⟨pubkey, kind⟩ := head
      simp only [hhead] at hbegin hreturns ⊢
      split
      · rename_i hbanned
        rw [if_pos hbanned] at hbegin
        exact hends _ hbegin
      · rename_i hbanned
        rw [if_neg hbanned] at hbegin hreturns
        split
        · rename_i hallowed
          rw [if_pos hallowed] at hbegin
          exact hends _ hbegin
        · rename_i hallowed
          rw [if_neg hallowed] at hbegin hreturns
          split
          · rename_i hchecked
            rw [if_pos hchecked] at hbegin
            exact hends _ hbegin
          · rename_i hchecked
            rw [if_neg hchecked] at hbegin hreturns
            cases hread : readStoredEvent body pubkey kind raw.length with
            | error e =>
                rw [hread] at hreturns
                cases hreturns
            | ok se =>
                rw [hread] at hbegin hreturns
                cases hdump : lib.dump none (okMessage se.id) with
                | none =>
                    simp only [hdump] at hreturns
                    cases hreturns
                | some text =>
                    dsimp only at hbegin ⊢
                    rw [hdump]
                    have hstep : Worker.Step lib ⟨session.fd, .waiting⟩ h
                        ⟨session.fd, .rateChecked raw se⟩
                        { h with server := (h.server.checkRateLimit pubkey checkedAt).2 } :=
                      .receives checkedAt raw hisOpen hbegin
                    have hlast : Completes lib session.fd (.rateChecked raw se)
                        { h with server := (h.server.checkRateLimit pubkey checkedAt).2 } _ _ :=
                      completes_rateChecked recordedAt hsession hdump
                    exact hlast.head hstep rfl

/-- The thread of an open session, left alone, does what the handler does. -/
theorem completes_handleClientMessage (hsession : session ∈ h.server.sessions)
    (hopen : session.isOpen = true)
    (hreturns : (handleClientMessage lib h.server session raw checkedAt recordedAt).thrown = none) :
    Completes lib session.fd .waiting h
      (handleClientMessage lib h.server session raw checkedAt recordedAt).server
      (handleClientMessage lib h.server session raw checkedAt recordedAt).sent := by
  have hisOpen : h.server.isOpen session.fd = true :=
    (RelayServer.isOpen_of_mem hsession).trans hopen
  have hends : Job.begin lib checkedAt session.fd raw h = some (.waiting, h) →
      Completes lib session.fd .waiting h h.server [] :=
    fun hbegin => completes_waiting.head (.receives checkedAt raw hisOpen hbegin) rfl
  by_cases hlong : ∃ type body rest, lib.parse raw = some (.arr (type :: body :: rest))
  · obtain ⟨type, body, rest, hparse⟩ := hlong
    cases hname : type.getString with
    | error e => simp [handleClientMessage, hparse, hname] at hreturns
    | ok name =>
        rw [getString_ok_iff.mp hname] at hparse
        by_cases hevent : name = lit "EVENT"
        · subst hevent
          rw [handleClientMessage_event hparse] at hreturns ⊢
          exact completes_handleEvent hsession hopen hparse hreturns
        · by_cases hreq : name = lit "REQ"
          · subst hreq
            rw [handleClientMessage_req hparse] at hreturns ⊢
            rw [handleReq_server]
            exact completes_handleReq hsession hopen hparse hreturns
          · have hbegin : Job.begin lib checkedAt session.fd raw h = some (.waiting, h) := by
              rw [Job.begin, hparse]
              dsimp only
              rw [if_neg hevent, if_neg hreq]
            have hnothing : handleClientMessage lib h.server session raw checkedAt recordedAt =
                ⟨h.server, [], none⟩ := by
              rw [handleClientMessage, hparse]
              dsimp only [getString]
              rw [if_neg hevent, if_neg hreq]
            rw [hnothing]
            exact hends hbegin
  · have hbegin : Job.begin lib checkedAt session.fd raw h = some (.waiting, h) := by
      unfold Job.begin
      split
      · rename_i hparse
        exact absurd ⟨_, _, _, hparse⟩ hlong
      · rename_i hparse
        exact absurd ⟨_, _, _, hparse⟩ hlong
      · rfl
    have hnothing : handleClientMessage lib h.server session raw checkedAt recordedAt =
        ⟨h.server, [], none⟩ := by
      unfold handleClientMessage
      split
      · rename_i hparse
        exact absurd ⟨_, _, _, hparse⟩ hlong
      · rfl
    rw [hnothing]
    exact hends hbegin

end completes

end LinuxLive.Relay
