import LinuxLive.Relay.Filter
import LinuxLive.Relay.Workers

/-!
# What an open session is sent

Under any interleaving of the threads: what is acknowledged to one session is passed on
to every other one that stays open, once and in order; and between the answer to a
subscription and the events passed on there is no gap.
-/

namespace LinuxLive.Relay

open Json

/-! ## Threads in the middle of a message -/

namespace Job

def event? : Job → Option (Bytes × StoredEvent)
  | .rateChecked raw se | .roomChecked raw se | .stored raw se | .replying raw se => some (raw, se)
  | _ => none

def pendingFor (k : Nat) : Job → List Bytes
  | .forwarding raw left => if k ∈ left then [raw] else []
  | _ => []

end Job

/-- What a thread knows about its session and its message. -/
structure Worker.Fits (lib : JsonText) (w : Worker) (h : Hub) : Prop where
  websocket : w.job ≠ .waiting → h.server.isWebsocket w.fd = true
  reads : ∀ raw se, w.job.event? = some (raw, se) → ReadsAs lib raw se
  once : ∀ raw left, w.job = .forwarding raw left → left.Nodup

section fits

variable {lib : JsonText} {w w' : Worker} {h h' : Hub}

theorem Worker.Fits.later (hfits : w.Fits lib h) (hlater : RelayServer.Later h.server h'.server) :
    w.Fits lib h' where
  websocket hjob := hlater.isWebsocket _ (hfits.websocket hjob)
  reads := hfits.reads
  once := hfits.once

theorem Worker.Step.later (hstep : Worker.Step lib w h w' h') :
    RelayServer.Later h.server h'.server := .of_sessions hstep.sessions

theorem Worker.Fits.step (hfits : w.Fits lib h) (hstep : Worker.Step lib w h w' h') :
    w'.Fits lib h' := by
  have hlater := hstep.later
  cases hstep with
  | receives now raw hopen hbegin =>
      have hwebsocket := hlater.isWebsocket _ (RelayServer.isWebsocket_of_isOpen hopen)
      obtain ⟨_, rfl | ⟨se, rfl, hreads⟩ | ⟨texts, thrown, rfl⟩⟩ := Job.begin_spec hbegin
      · exact ⟨fun _ => hwebsocket, nofun, nofun⟩
      · refine ⟨fun _ => hwebsocket, fun raw' se' heq => ?_, nofun⟩
        cases heq
        exact hreads
      · exact ⟨fun _ => hwebsocket, nofun, nofun⟩
  | @goesOn fd _ _ job job' now hstep =>
      have hwebsocket : h'.server.isWebsocket fd = true := by
        refine hlater.isWebsocket _ (hfits.websocket ?_)
        rintro rfl
        cases hstep
      refine ⟨fun _ => hwebsocket, ?_, ?_⟩
      · intro raw se hevent
        cases job with
        | waiting => cases hstep
        | rateChecked raw' se' =>
            cases hstep
            split at hevent <;> cases hevent <;> exact hfits.reads raw se rfl
        | roomChecked raw' se' => cases hstep; cases hevent; exact hfits.reads raw se rfl
        | stored raw' se' => cases hstep; cases hevent; exact hfits.reads raw se rfl
        | replying raw' se' =>
            rw [Job.step] at hstep
            split at hstep <;> cases hstep
            cases hevent
        | forwarding raw' left => cases left <;> cases hstep <;> cases hevent
        | answering left thrown =>
            cases left with
            | nil => cases thrown <;> cases hstep; cases hevent
            | cons text left => cases hstep; cases hevent
      · intro raw left hjob
        cases job with
        | waiting => cases hstep
        | rateChecked raw' se' =>
            cases hstep
            dsimp only at hjob
            split at hjob <;> cases hjob
        | roomChecked raw' se' => cases hstep; cases hjob
        | stored raw' se' => cases hstep; cases hjob
        | replying raw' se' =>
            rw [Job.step] at hstep
            split at hstep <;> cases hstep
            cases hjob
            exact h.server.sessions_nodup
        | forwarding raw' left' =>
            cases left' with
            | nil => cases hstep; cases hjob
            | cons target left' =>
                cases hstep
                cases hjob
                exact (hfits.once raw (target :: left) rfl).of_cons
        | answering left' thrown =>
            cases left' with
            | nil => cases thrown <;> cases hstep; cases hjob
            | cons text left' => cases hstep; cases hjob

theorem fits_of_reachable {server : RelayServer} {p : Pool Worker Hub}
    (hreach : Reachable (HubStep lib) (startHub server) p) :
    (p.threads.map Worker.fd).Nodup ∧ ∀ w ∈ p.threads, w.Fits lib p.shared := by
  have hfds : (startHub server).threads.map Worker.fd = server.sessions.map ClientSession.fd := by
    rw [startHub, List.map_map]
    rfl
  have hnodup : ((startHub server).threads.map Worker.fd).Nodup := hfds ▸ server.sessions_nodup
  obtain ⟨hkeys, _, hfits⟩ := Pool.noninterference Worker.fd (fun _ => True)
    (fun w h => w.Fits lib h)
    (fun _ _ _ _ _ hfits hstep => ⟨trivial, hfits.step hstep, hstep.sameFd⟩)
    (fun _ _ _ _ _ _ hfits _ _ hstep => hfits.later hstep.later)
    (fun _ _ _ hstep => ⟨trivial, fun _ hfits => hfits.later hstep.later.1⟩) hreach hnodup
    ⟨trivial, fun w hw => by
      obtain ⟨t, _, rfl⟩ := List.mem_map.mp hw
      exact ⟨fun hjob => absurd rfl hjob, nofun, nofun⟩⟩
  exact ⟨hkeys ▸ hnodup, hfits⟩

end fits

/-! ## Acknowledged and passed on -/

def acknowledged (i : Nat) (sent : List HubFrame) : List Bytes :=
  sent.filterMap fun
    | .ok session raw _ => if session = i then some raw else none
    | _ => none

def passedOn (i k : Nat) (sent : List HubFrame) : List Bytes :=
  sent.filterMap fun
    | .forwarded origin target raw => if origin = i ∧ target = k then some raw else none
    | _ => none

section order

variable {lib : JsonText} {i k : Nat} {w w' : Worker} {h h' : Hub} {frames : List HubFrame}

@[simp] theorem acknowledged_append (i : Nat) (sent sent' : List HubFrame) :
    acknowledged i (sent ++ sent') = acknowledged i sent ++ acknowledged i sent' :=
  List.filterMap_append

@[simp] theorem passedOn_append (i k : Nat) (sent sent' : List HubFrame) :
    passedOn i k (sent ++ sent') = passedOn i k sent ++ passedOn i k sent' :=
  List.filterMap_append

/-- Frames of other threads are neither acknowledgements of a session nor its messages. -/
theorem nothing_of_others (hframes : ∀ f ∈ frames, f.origin ≠ i) :
    acknowledged i frames = [] ∧ passedOn i k frames = [] := by
  constructor
  · refine List.filterMap_eq_nil_iff.mpr fun f hf => ?_
    cases f with
    | ok session raw text => exact if_neg (hframes _ hf)
    | forwarded origin target raw => rfl
    | answer session text => rfl
  · refine List.filterMap_eq_nil_iff.mpr fun f hf => ?_
    cases f with
    | ok session raw text => rfl
    | forwarded origin target raw => exact if_neg fun hsame => hframes _ hf hsame.1
    | answer session text => rfl

def Lasts (h : Hub) (i : Nat) : Prop := h.server.isWebsocket i = true → h.server.isOpen i = true

theorem Lasts.of_later {s : Hub} (hlater : RelayServer.Later s.server h.server) (hlasts : Lasts h i) :
    Lasts s i := fun hdone => hlater.isOpen i hdone (hlasts (hlater.isWebsocket i hdone))

/-- What has been acknowledged since is what has been passed on since and what is still to be. -/
def InStep (i k : Nat) (acked passed : List Bytes) (w : Worker) (h : Hub) : Prop :=
  w.fd = i → Lasts h i → Lasts h k → ∃ new, acknowledged i h.sent = acked ++ new ∧
    passedOn i k h.sent ++ w.job.pendingFor k = passed ++ new

variable {acked passed : List Bytes}

theorem InStep.others (hin : InStep i k acked passed w h)
    (hlater : RelayServer.Later h.server h'.server) (hsent : h'.sent = h.sent ++ frames)
    (hframes : ∀ f ∈ frames, f.origin ≠ w.fd) : InStep i k acked passed w h' := by
  intro hfd hi hk
  obtain ⟨new, hacked, hpassed⟩ := hin hfd (hi.of_later hlater) (hk.of_later hlater)
  obtain ⟨hnone, hnone'⟩ := nothing_of_others (k := k) fun f hf => hfd ▸ hframes f hf
  refine ⟨new, ?_, ?_⟩
  · rw [hsent, acknowledged_append, hnone, List.append_nil, hacked]
  · rw [hsent, passedOn_append, hnone', List.append_nil, hpassed]

theorem mem_sessions_of_isWebsocket {s : RelayServer} (hk : s.isWebsocket k = true) :
    k ∈ s.sessions.map ClientSession.fd := by
  obtain ⟨t, ht, rfl, _⟩ := RelayServer.isWebsocket_iff.mp hk
  exact List.mem_map_of_mem ht

theorem InStep.step (hne : i ≠ k) (hk : h.server.isWebsocket k = true) (hfits : w.Fits lib h)
    (hin : InStep i k acked passed w h) (hstep : Worker.Step lib w h w' h') :
    InStep i k acked passed w' h' := by
  have hlater := hstep.later
  intro hfd hi' hk'
  have hopen : h.server.isOpen k = true := hk'.of_later hlater hk
  obtain ⟨new, hacked, hpassed⟩ :=
    hin (hstep.sameFd ▸ hfd) (hi'.of_later hlater) (hk'.of_later hlater)
  cases hstep with
  | receives now raw _ hbegin =>
      obtain ⟨⟨hsent, _⟩, hjob⟩ := Job.begin_spec hbegin
      refine ⟨new, hsent ▸ hacked, ?_⟩
      rw [hsent, ← hpassed]
      obtain rfl | ⟨se, rfl, _⟩ | ⟨texts, thrown, rfl⟩ := hjob <;> rfl
  | @goesOn fd _ _ job job' now hstep =>
      dsimp only at hfd
      subst hfd
      cases job with
      | waiting => cases hstep
      | rateChecked raw se =>
          cases hstep
          refine ⟨new, hacked, ?_⟩
          split <;> exact hpassed
      | roomChecked raw se => cases hstep; exact ⟨new, hacked, hpassed⟩
      | stored raw se => cases hstep; exact ⟨new, hacked, hpassed⟩
      | replying raw se =>
          -- the acknowledgement, and with it the message to pass on
          rw [Job.step] at hstep
          split at hstep <;> cases hstep
          have hbusy : Job.replying raw se ≠ .waiting := by
            intro heq
            cases heq
          have hself : h.server.isOpen fd = true := hi'.of_later hlater (hfits.websocket hbusy)
          have hmem := mem_sessions_of_isWebsocket hk
          refine ⟨new ++ [raw], ?_, ?_⟩
          · rw [Hub.send_sent, acknowledged_append, hacked, List.append_assoc]
            simp [hself, HubFrame.target, acknowledged]
          · rw [Hub.send_sent, passedOn_append, Job.pendingFor, if_pos hmem, ← List.append_assoc,
              ← hpassed]
            simp [hself, HubFrame.target, passedOn, Job.pendingFor]
      | forwarding raw left =>
          cases left with
          | nil => cases hstep; exact ⟨new, hacked, hpassed⟩
          | cons target left =>
              cases hstep
              obtain ⟨hnotin, _⟩ := List.nodup_cons.mp (hfits.once raw (target :: left) rfl)
              by_cases hself : target = fd
              · subst hself
                refine ⟨new, by rwa [if_pos rfl], ?_⟩
                rw [if_pos rfl, ← hpassed]
                simp [Job.pendingFor, hne.symm]
              · rw [if_neg hself]
                refine ⟨new, ?_, ?_⟩
                · rw [Hub.send_sent, acknowledged_append, hacked]
                  split <;> simp [acknowledged]
                · by_cases htarget : target = k
                  · subst htarget
                    rw [← hpassed, Hub.send_sent, HubFrame.target, if_pos hopen, passedOn_append]
                    simp [Job.pendingFor, hnotin, passedOn]
                  · have hpending : (Job.forwarding raw (target :: left)).pendingFor k =
                        (Job.forwarding raw left).pendingFor k := by
                      simp [Job.pendingFor, Ne.symm htarget]
                    rw [← hpassed, hpending, Hub.send_sent, passedOn_append]
                    split <;> simp [passedOn, htarget]
      | answering left thrown =>
          cases left with
          | nil => cases thrown <;> cases hstep; exact ⟨new, hacked, hpassed⟩
          | cons text left =>
              cases hstep
              refine ⟨new, ?_, ?_⟩
              · rw [Hub.send_sent, acknowledged_append, hacked]
                split <;> simp [acknowledged]
              · rw [Hub.send_sent, passedOn_append, ← hpassed]
                split <;> simp [passedOn, Job.pendingFor]

/-- Whatever the other threads do meanwhile: to a session that is open all the time, exactly
the messages that a session has acknowledged are passed on, each once and in their order; of
a message that is still being passed on, the others may have it already. -/
theorem acknowledged_passedOn (lib : JsonText) (server : RelayServer) (p q : Pool Worker Hub)
    (i k : Nat) (hne : i ≠ k) (hp : Reachable (HubStep lib) (startHub server) p)
    (hq : Reachable (HubStep lib) p q) (hwaits : ⟨i, .waiting⟩ ∈ p.threads)
    (hopened : p.shared.server.isOpen k = true) (hstays : q.shared.server.isOpen k = true)
    (hlasts : q.shared.server.isOpen i = true) :
    ∃ new, acknowledged i q.shared.sent = acknowledged i p.shared.sent ++ new ∧
      ∃ w ∈ q.threads, w.fd = i ∧ passedOn i k q.shared.sent ++ w.job.pendingFor k =
        passedOn i k p.shared.sent ++ new := by
  obtain ⟨hnodup, hfits⟩ := fits_of_reachable hp
  have hwebsocket := RelayServer.isWebsocket_of_isOpen hopened
  have hall := Pool.noninterference Worker.fd (fun h => h.server.isWebsocket k = true)
    (fun w h => w.Fits lib h ∧
      InStep i k (acknowledged i p.shared.sent) (passedOn i k p.shared.sent) w h)
    (fun w h w' h' hk ⟨hfits, hin⟩ hstep =>
      ⟨hstep.later.isWebsocket k hk, ⟨hfits.step hstep, hin.step hne hk hfits hstep⟩,
        hstep.sameFd⟩)
    (fun w u h u' h' hk ⟨hfits, hin⟩ _ hdistinct hstep => by
      obtain ⟨frames, hsent, hframes⟩ := hstep.sent
      exact ⟨hfits.later hstep.later,
        hin.others hstep.later hsent fun f hf => hframes f hf ▸ hdistinct.symm⟩)
    (fun h h' hk hstep => ⟨hstep.later.1.isWebsocket k hk, fun w ⟨hfits, hin⟩ =>
      ⟨hfits.later hstep.later.1, hin.others hstep.later.1
        (hstep.later.2.trans (List.append_nil _).symm) fun f hf => absurd hf List.not_mem_nil⟩⟩)
    hq hnodup ⟨hwebsocket, fun w hw => ⟨hfits w hw, fun hfd _ _ => ⟨[], by simp, ?_⟩⟩⟩
  · obtain ⟨hkeys, _, hlocal⟩ := hall
    have hmem : i ∈ q.threads.map Worker.fd := hkeys ▸ List.mem_map_of_mem hwaits
    obtain ⟨w, hw, hfd⟩ := List.mem_map.mp hmem
    obtain ⟨new, hacked, hpassed⟩ := (hlocal w hw).2 hfd (fun _ => hlasts) (fun _ => hstays)
    exact ⟨new, hacked, w, hw, hfd, hpassed⟩
  · have hsame : w = ⟨i, .waiting⟩ :=
      List.inj_on_of_nodup_map hnodup hw hwaits hfd
    rw [hsame]
    rfl

/-- A fresh relay with two open sessions. -/
theorem nodup_openPair :
    (([⟨0, true, true⟩, ⟨1, true, true⟩] : List ClientSession).map ClientSession.fd).Nodup := by
  decide

def openPair : RelayServer :=
  { RelayServer.create {} with
    sessions := [⟨0, true, true⟩, ⟨1, true, true⟩]
    sessions_nodup := nodup_openPair }

def pairMessage : Bytes := lit "[\"EVENT\",\x7b\"kind\":42\x7d]"

/-- The one handles a message alone, and then it has been passed on to the other. -/
theorem acknowledged_passedOn_pair :
    ∃ q, Reachable (HubStep Json.codec) (startHub openPair) q ∧
      passedOn 0 1 q.shared.sent = acknowledged 0 q.shared.sent ∧
      q.shared.sent.map HubFrame.text = [lit "[\"OK\",\"\",true]", pairMessage] := by
  have hdone : Completes Json.codec (ClientSession.mk 0 true true).fd .waiting ⟨openPair, []⟩
      (handleClientMessage Json.codec openPair ⟨0, true, true⟩ pairMessage 100 100).server
      (handleClientMessage Json.codec openPair ⟨0, true, true⟩ pairMessage 100 100).sent :=
    completes_handleClientMessage List.mem_cons_self rfl rfl
  have hsent : (handleClientMessage Json.codec openPair ⟨0, true, true⟩ pairMessage 100 100).sent =
      [(0, lit "[\"OK\",\"\",true]"), (1, pairMessage)] := rfl
  obtain ⟨frames, hframes, hreach⟩ := hdone
  have hq := hreach [] [⟨1, .waiting⟩]
  obtain ⟨new, hacked, w, hw, hfd, hpassed⟩ := acknowledged_passedOn Json.codec openPair
    (startHub openPair) _ 0 1 (by decide) (.refl _) hq (by simp [startHub, openPair]) rfl rfl rfl
  have hwaiting : w.job = .waiting := by
    simp only [List.nil_append, List.mem_cons, List.not_mem_nil, or_false] at hw
    obtain rfl | rfl := hw <;> rfl
  rw [hwaiting] at hpassed
  refine ⟨_, hq, ?_, ?_⟩
  · simpa [Job.pendingFor, startHub, acknowledged, passedOn] using hpassed.trans hacked.symm
  · have htexts := congrArg (List.map Prod.snd) hframes
    rw [List.map_map] at htexts
    exact htexts

end order

/-! ## No gap behind an answer -/

section gap

variable {lib : JsonText} {k : Nat} {w w' : Worker} {h h' : Hub} {se : StoredEvent}

/-- The session has been sent a message of the event, or the reply to its own one. -/
def SentEvent (lib : JsonText) (k : Nat) (h : Hub) (se : StoredEvent) : Prop :=
  ∃ raw, ReadsAs lib raw se ∧
    ((∃ i, .forwarded i k raw ∈ h.sent) ∨ ∃ text, .ok k raw text ∈ h.sent)

/-- The thread has stored the event and not yet passed it on to the session. -/
def Worker.Owes (lib : JsonText) (k : Nat) (w : Worker) (se : StoredEvent) : Prop :=
  ∃ raw, ReadsAs lib raw se ∧ (w.job = .stored raw se ∨ w.job = .replying raw se ∨
    w.fd ≠ k ∧ ∃ left, w.job = .forwarding raw left ∧ k ∈ left)

theorem SentEvent.mono (hsent : SentEvent lib k h se) (hsub : h.sent ⊆ h'.sent) :
    SentEvent lib k h' se := by
  obtain ⟨raw, hreads, ⟨i, hmem⟩ | ⟨text, hmem⟩⟩ := hsent
  · exact ⟨raw, hreads, .inl ⟨i, hsub hmem⟩⟩
  · exact ⟨raw, hreads, .inr ⟨text, hsub hmem⟩⟩

theorem Worker.Step.sent_subset (hstep : Worker.Step lib w h w' h') : h.sent ⊆ h'.sent := by
  obtain ⟨frames, hsent, _⟩ := hstep.sent
  rw [hsent]
  exact List.subset_append_left _ _

theorem Worker.Step.events (hfits : w.Fits lib h) (hstep : Worker.Step lib w h w' h')
    (hse : se ∈ h'.server.events) : se ∈ h.server.events ∨ w'.Owes lib k se := by
  cases hstep with
  | receives now raw _ hbegin => exact .inl ((Job.begin_spec hbegin).1.2.2 ▸ hse)
  | @goesOn fd _ _ job job' now hstep =>
      cases job with
      | waiting => cases hstep
      | rateChecked raw se' => cases hstep; exact .inl hse
      | roomChecked raw se' =>
          cases hstep
          rw [RelayServer.storeEvent, List.mem_append, List.mem_singleton] at hse
          obtain hse | rfl := hse
          · exact .inl ((evict_suffix _ _).subset hse)
          · exact .inr ⟨raw, hfits.reads raw se rfl, .inl rfl⟩
      | stored raw se' => cases hstep; exact .inl hse
      | replying raw se' =>
          rw [Job.step] at hstep
          split at hstep <;> cases hstep
          exact .inl (by simpa using hse)
      | forwarding raw left =>
          cases left <;> cases hstep
          · exact .inl hse
          · refine .inl ?_
            split at hse
            · exact hse
            · simpa using hse
      | answering left thrown =>
          cases left with
          | nil => cases thrown <;> cases hstep; exact .inl hse
          | cons text left => cases hstep; exact .inl (by simpa using hse)

theorem Worker.Owes.step (howes : w.Owes lib k se) (hk : h.server.isWebsocket k = true)
    (hstep : Worker.Step lib w h w' h') :
    w'.Owes lib k se ∨ (h'.server.isOpen k = true → SentEvent lib k h' se) := by
  have hlater := hstep.later
  obtain ⟨raw, hreads, hjob⟩ := howes
  cases hstep with
  | receives now raw' _ hbegin =>
      obtain h | h | ⟨_, _, h, _⟩ := hjob <;> cases h
  | @goesOn fd _ _ job job' now hstep =>
      obtain rfl | rfl | ⟨hfd, left, rfl, hmem⟩ := hjob
      · cases hstep
        exact .inl ⟨raw, hreads, .inr (.inl rfl)⟩
      · rw [Job.step] at hstep
        split at hstep
        · cases hstep
        · rename_i text _
          cases hstep
          by_cases hself : fd = k
          · subst hself
            refine .inr fun hopen => ⟨raw, hreads, .inr ⟨text, ?_⟩⟩
            rw [Hub.send_sent, HubFrame.target, if_pos (hlater.isOpen fd hk hopen)]
            exact List.mem_append_right _ List.mem_cons_self
          · exact .inl ⟨raw, hreads, .inr (.inr ⟨hself, _, rfl, mem_sessions_of_isWebsocket hk⟩)⟩
      · cases left with
        | nil => cases hmem
        | cons target left =>
            cases hstep
            by_cases htarget : target = k
            · subst htarget
              refine .inr fun hopen => ⟨raw, hreads, .inl ⟨fd, ?_⟩⟩
              rw [if_neg (Ne.symm hfd), Hub.send_sent, HubFrame.target,
                if_pos (hlater.isOpen target hk hopen)]
              exact List.mem_append_right _ List.mem_cons_self
            · refine .inl ⟨raw, hreads, .inr (.inr ⟨hfd, left, rfl, ?_⟩)⟩
              exact (List.mem_cons.mp hmem).resolve_left (Ne.symm htarget)

/-- The frames of an answer are sent, or the thread still has them to send. -/
def Answers (k : Nat) (texts : List Bytes) (thrown : Option JsonError) (w : Worker) (h : Hub) :
    Prop :=
  w.fd = k → (∃ left, w.job = .answering left thrown ∧ (h.server.isOpen k = true →
      ∀ text ∈ texts, text ∈ left ∨ .answer k text ∈ h.sent)) ∨
    thrown = none ∧ (h.server.isOpen k = true → ∀ text ∈ texts, .answer k text ∈ h.sent)

variable {texts : List Bytes} {thrown : Option JsonError}

theorem Answers.mono (hans : Answers k texts thrown w h) (hk : h.server.isWebsocket k = true)
    (hlater : RelayServer.Later h.server h'.server) (hsub : h.sent ⊆ h'.sent) :
    Answers k texts thrown w h' := by
  intro hfd
  obtain ⟨left, hjob, hall⟩ | ⟨hthrown, hall⟩ := hans hfd
  · exact .inl ⟨left, hjob, fun hopen text htext =>
      (hall (hlater.isOpen k hk hopen) text htext).imp_right fun h => hsub h⟩
  · exact .inr ⟨hthrown, fun hopen text htext => hsub (hall (hlater.isOpen k hk hopen) text htext)⟩

theorem Answers.step (hans : Answers k texts thrown w h) (hk : h.server.isWebsocket k = true)
    (hstep : Worker.Step lib w h w' h') : Answers k texts thrown w' h' := by
  have hlater := hstep.later
  have hsub := hstep.sent_subset
  intro hfd
  obtain ⟨left, hjob, hall⟩ | ⟨hthrown, hall⟩ := hans (hstep.sameFd ▸ hfd)
  · cases hstep with
    | receives now raw _ hbegin => cases hjob
    | @goesOn fd _ _ job job' now hstep =>
        subst hjob
        subst hfd
        cases left with
        | nil =>
            cases thrown with
            | some e => cases hstep
            | none =>
                cases hstep
                exact .inr ⟨rfl, fun hopen text htext =>
                  (hall hopen text htext).resolve_left List.not_mem_nil⟩
        | cons next left =>
            cases hstep
            refine .inl ⟨left, rfl, fun hopen text htext => ?_⟩
            have hopen' := hlater.isOpen fd hk hopen
            obtain htext | hsent := hall hopen' text htext
            · obtain rfl | htext := List.mem_cons.mp htext
              · refine .inr ?_
                rw [Hub.send_sent, HubFrame.target, if_pos hopen']
                exact List.mem_append_right _ List.mem_cons_self
              · exact .inl htext
            · exact .inr (hsub hsent)
  · exact .inr ⟨hthrown, fun hopen text htext => hsub (hall (hlater.isOpen k hk hopen) text htext)⟩

theorem mem_handleReq {s : RelayServer} {session : ClientSession} {subId : Bytes}
    {filter : Option Json} (hopen : session.isOpen = true)
    (hreturns : (handleReq lib s session (.str subId) filter).thrown = none)
    (hse : se ∈ s.events) (hmatches : Matches (filter.getD (.obj [])) se) :
    ∃ text, lib.dump none (eventMessage subId se) = some text ∧
      text ∈ (handleReq lib s session (.str subId) filter).sent.map Prod.snd := by
  unfold handleReq at hreturns ⊢
  dsimp only [getString] at hreturns ⊢
  split
  · rename_i hloop
    rw [hloop] at hreturns
    cases hreturns
  · rename_i sent hloop
    have hdone : (reqLoop lib session subId (filter.getD (.obj [])) s.events).2 = none := by
      rw [hloop]
    obtain ⟨text, hdump, hsub⟩ := reqLoop_complete lib session hdone hse hmatches
    have hframe : (session.fd, text) ∈ sent := by
      have hsend : sendWsText session text = [(session.fd, text)] := if_pos hopen
      rw [hloop, hsend] at hsub
      exact hsub List.mem_cons_self
    refine ⟨text, hdump, ?_⟩
    split
    · exact List.mem_map_of_mem hframe
    · exact List.mem_map_of_mem (List.mem_append_left _ hframe)

theorem isWebsocket_of_reachable {p q : Pool Worker Hub} (hq : Reachable (HubStep lib) p q)
    (hk : p.shared.server.isWebsocket k = true) : q.shared.server.isWebsocket k = true := by
  refine hq.keeps (P := fun q => q.shared.server.isWebsocket k = true) ?_ hk
  intro _ _ _ hk hmove
  cases hmove with
  | thread hstep => exact hstep.later.isWebsocket k hk
  | outside hstep => exact hstep.later.1.isWebsocket k hk

theorem Surroundings.events (hstep : Surroundings h h') (hse : se ∈ h'.server.events) :
    se ∈ h.server.events := by
  cases hstep with
  | maintenance hmaintenance => exact hmaintenance.sublist.subset hse
  | handshakeDone fd => exact hse
  | sessionEnded fd => exact hse

theorem Surroundings.sent_subset (hstep : Surroundings h h') : h.sent ⊆ h'.sent := by
  rw [hstep.later.2]
  exact List.Subset.refl _

/-- Once all messages are handled, a subscriber that stays open has been sent every event of
the store that matches: in the answer, or because it came later. -/
theorem subscription_without_gap (lib : JsonText) (server : RelayServer) (before after : List Worker)
    (h h' : Hub) (k : Nat) (now : UInt64) (raw subId : Bytes) (rest : List Json) (job : Job)
    (q : Pool Worker Hub)
    (hp : Reachable (HubStep lib) (startHub server) ⟨before ++ ⟨k, .waiting⟩ :: after, h⟩)
    (hopen : h.server.isOpen k = true)
    (hparse : lib.parse raw = some (.arr (.str (lit "REQ") :: .str subId :: rest)))
    (hbegin : Job.begin lib now k raw h = some (job, h'))
    (hq : Reachable (HubStep lib) ⟨before ++ ⟨k, job⟩ :: after, h'⟩ q)
    (hwaiting : ∀ w ∈ q.threads, w.job = .waiting) (hstays : q.shared.server.isOpen k = true) :
    ∀ se ∈ q.shared.server.events, Matches (rest.head?.getD (.obj [])) se →
      (∃ text, lib.dump none (eventMessage subId se) = some text ∧
        .answer k text ∈ q.shared.sent) ∨ SentEvent lib k q.shared se := by
  obtain ⟨rfl, rfl⟩ : (let answer := handleReq lib h.server ⟨k, true, true⟩ (.str subId) rest.head?
      job = .answering (answer.sent.map Prod.snd) answer.thrown) ∧ h' = h := by
    have hne : lit "REQ" ≠ lit "EVENT" := by decide
    rw [Job.begin, hparse] at hbegin
    simp only [if_neg hne, if_true] at hbegin
    cases hbegin
    exact ⟨rfl, rfl⟩
  generalize hanswer : handleReq lib h'.server ⟨k, true, true⟩ (.str subId) rest.head? = answer
    at hbegin hq
  have hp' := hp.trans (Pool.reachable_thread (.receives now raw hopen hbegin))
  obtain ⟨hnodup, _⟩ := fits_of_reachable hp'
  have hk := RelayServer.isWebsocket_of_isOpen hopen
  have hstart : ∀ w ∈ before ++ ⟨k, .answering (answer.sent.map Prod.snd) answer.thrown⟩ :: after,
      Answers k (answer.sent.map Prod.snd) answer.thrown w h' := by
    intro w hw hfd
    have hsame : w = ⟨k, .answering (answer.sent.map Prod.snd) answer.thrown⟩ :=
      List.inj_on_of_nodup_map hnodup hw (by simp) hfd
    exact .inl ⟨_, congrArg Worker.job hsame, fun _ text htext => .inl htext⟩
  obtain ⟨hkeys, _, hanswers⟩ := Pool.noninterference Worker.fd
    (fun u => u.server.isWebsocket k = true)
    (Answers k (answer.sent.map Prod.snd) answer.thrown)
    (fun _ _ _ _ hk hans hstep =>
      ⟨hstep.later.isWebsocket k hk, hans.step hk hstep, hstep.sameFd⟩)
    (fun _ _ _ _ _ hk hans _ _ hstep => hans.mono hk hstep.later hstep.sent_subset)
    (fun _ _ hk hstep => ⟨hstep.later.1.isWebsocket k hk, fun _ hans =>
      hans.mono hk hstep.later.1 hstep.sent_subset⟩) hq hnodup
    ⟨hk, hstart⟩
  -- an event of the store was there, or came with a thread that owes it to the session
  have hdue := fun (se : StoredEvent) (hse : se ∈ q.shared.server.events) =>
    Pool.accounted (fun u se => se ∈ u.server.events)
      (fun u se => u.server.isOpen k = true → SentEvent lib k u se) (Worker.Owes lib k)
      (fun r hr w hw w' u hstep se => by
        have hkr := isWebsocket_of_reachable hr hk
        refine ⟨hstep.events ((fits_of_reachable (hp'.trans hr)).2 w hw), fun hpaid hopen => ?_,
          fun howes => howes.step hkr hstep⟩
        exact (hpaid (hstep.later.isOpen k hkr hopen)).mono hstep.sent_subset)
      (fun r hr u hstep se => ⟨hstep.events, fun hpaid hopen =>
        (hpaid (hstep.later.1.isOpen k (isWebsocket_of_reachable hr hk) hopen)).mono
          hstep.sent_subset⟩) hq hse
  intro se hse hmatches
  obtain hold | hpaid | ⟨w, hw, _, _, hjob⟩ := hdue se hse
  · refine .inl ?_
    obtain ⟨w, hw, hfd⟩ : ∃ w ∈ q.threads, w.fd = k := by
      have hmem : k ∈ q.threads.map Worker.fd := hkeys ▸ by simp
      exact List.mem_map.mp hmem
    obtain ⟨left, hjob, _⟩ | ⟨hthrown, hall⟩ := hanswers w hw hfd
    · rw [hwaiting w hw] at hjob
      cases hjob
    · rw [← hanswer] at hthrown hall
      obtain ⟨text, hdump, hmem⟩ := mem_handleReq rfl hthrown hold hmatches
      exact ⟨text, hdump, hall hstays text hmem⟩
  · exact .inr (hpaid hstays)
  · rw [hwaiting w hw] at hjob
    obtain hjob | hjob | ⟨_, _, hjob, _⟩ := hjob <;> cases hjob

/-- The one subscribes, and then the other's message is stored. -/
theorem subscription_without_gap_pair :
    ∃ q, Reachable (HubStep Json.codec)
        ⟨[⟨0, .waiting⟩, ⟨1, .answering [lit "[\"EOSE\",\"s\"]"] none⟩], ⟨openPair, []⟩⟩ q ∧
      q.shared.server.events = [⟨[], [], 42, [], [], 0, [], 21⟩] ∧
      ((∃ text, Json.codec.dump none (eventMessage (lit "s") ⟨[], [], 42, [], [], 0, [], 21⟩) =
          some text ∧ .answer 1 text ∈ q.shared.sent) ∨
        SentEvent Json.codec 1 q.shared ⟨[], [], 42, [], [], 0, [], 21⟩) := by
  have heose : Completes Json.codec 1 (.answering [lit "[\"EOSE\",\"s\"]"] none) ⟨openPair, []⟩
      openPair _ := completes_answering _
  obtain ⟨eose, _, hanswer⟩ := heose
  have hreturns : (handleClientMessage Json.codec openPair ⟨0, true, true⟩ pairMessage 100
      100).thrown = none := rfl
  have hdone : Completes Json.codec (ClientSession.mk 0 true true).fd .waiting ⟨openPair, eose⟩
      (handleClientMessage Json.codec openPair ⟨0, true, true⟩ pairMessage 100 100).server
      (handleClientMessage Json.codec openPair ⟨0, true, true⟩ pairMessage 100 100).sent :=
    completes_handleClientMessage List.mem_cons_self rfl hreturns
  obtain ⟨frames, _, hmessage⟩ := hdone
  have hfirst : Reachable (HubStep Json.codec)
      ⟨[⟨0, .waiting⟩, ⟨1, .answering [lit "[\"EOSE\",\"s\"]"] none⟩], ⟨openPair, []⟩⟩
      ⟨[⟨0, .waiting⟩, ⟨1, .waiting⟩], ⟨openPair, eose⟩⟩ := hanswer [⟨0, .waiting⟩] []
  have hq := hfirst.trans (hmessage [] [⟨1, .waiting⟩])
  have hevents : (handleClientMessage Json.codec openPair ⟨0, true, true⟩ pairMessage 100
      100).server.events = [⟨[], [], 42, [], [], 0, [], 21⟩] := by decide +kernel
  have hparse : Json.codec.parse (lit "[\"REQ\",\"s\"]") =
      some (.arr [.str (lit "REQ"), .str (lit "s")]) := rfl
  have hbegin : Job.begin Json.codec 0 1 (lit "[\"REQ\",\"s\"]") ⟨openPair, []⟩ =
      some (.answering [lit "[\"EOSE\",\"s\"]"] none, ⟨openPair, []⟩) := rfl
  have hstays : (handleClientMessage Json.codec openPair ⟨0, true, true⟩ pairMessage 100
      100).server.isOpen 1 = true := rfl
  refine ⟨_, hq, hevents, ?_⟩
  refine subscription_without_gap Json.codec openPair [⟨0, .waiting⟩] [] ⟨openPair, []⟩ _ 1 0 _ _ []
    _ _ (.refl _) rfl hparse hbegin hq ?_ hstays _ (hevents ▸ List.mem_cons_self)
    ⟨nofun, nofun, nofun⟩
  intro w hw
  simp only [List.nil_append, List.mem_cons, List.not_mem_nil, or_false] at hw
  obtain rfl | rfl := hw <;> rfl

end gap

end LinuxLive.Relay
