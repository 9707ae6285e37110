import Uclip.Server
import Uclip.RequestLaws
import Uclip.LoopLaws

/-!
# The steps of the server

Each step as a rule with what it needs and what it changes, and the frame of
the steps: what only the thread writes, what only a task writes.
-/

namespace Uclip

open Text (Bytes)

namespace Server

variable {clock : Clock} {serde : Serde} {s s' : Server} {c : Nat} {client : Client}

inductive ThreadStep (clock : Clock) (s : Server) : Server → Prop
  | ready : s.thread = .setup → ThreadStep clock s { s with thread := .polling }
  | drain (pass : Pass) : s.thread = .polling →
      ThreadStep clock s { s with
        daemon := ((s.daemon.dispatched pass).drained pass).1
        thread := .looking [] ((s.daemon.dispatched pass).drained pass).2 }
  | look {outcome outcomes} : s.thread = .looking [] (outcome :: outcomes) →
      ThreadStep clock s { s with
        daemon := { s.daemon.outcome clock outcome with events := s.daemon.events }
        thread := .looking ((s.daemon.outcome clock outcome).events.drop s.daemon.events.length)
          outcomes }
  | broadcast {event unsent outcomes} : s.thread = .looking (event :: unsent) outcomes →
      ThreadStep clock s { s with
        daemon := { s.daemon with events := s.daemon.events ++ [event] }
        thread := .looking unsent outcomes }
  | serve : s.thread = .looking [] [] → ThreadStep clock s { s with thread := .serving }
  | pop {pending requests} : s.thread = .serving → s.requests.pop = some (pending, requests) →
      ThreadStep clock s { s with requests, thread := .restoring pending }
  | execute {pending} (hasher offerHasher : Hasher String Bytes) : s.thread = .restoring pending →
      ThreadStep clock s (s.execute clock hasher offerHasher pending)
  | answer {pending} : s.thread = .replying pending →
      ThreadStep clock s { s with thread := .serving }
  | sleep : s.thread = .serving → ThreadStep clock s { s with thread := .polling }
  | exit : s.thread = .setup ∨ s.thread = .polling ∨ s.thread = .serving →
      ThreadStep clock s { s with thread := .gone, requests := s.requests.close }

theorem threadAct_step (h : s.threadAct clock a = some s') : s.ThreadStep clock s' := by
  cases a with
  | ready =>
    simp only [threadAct] at h
    split at h
    · cases h
      exact .ready ‹_›
    · cases h
  | drain events io env =>
    simp only [threadAct] at h
    split at h
    · cases h
      exact .drain { events, io, drain := env } ‹_›
    · cases h
  | look =>
    simp only [threadAct] at h
    split at h
    · cases h
      exact .look ‹_›
    · cases h
  | broadcast =>
    simp only [threadAct] at h
    split at h
    · cases h
      exact .broadcast ‹_›
    · cases h
  | serve =>
    simp only [threadAct] at h
    split at h
    · cases h
      exact .serve ‹_›
    · cases h
  | pop =>
    simp only [threadAct] at h
    split at h
    · cases h
      exact .pop ‹_› ‹_›
    · cases h
  | execute hasher offerHasher =>
    simp only [threadAct] at h
    split at h
    · cases h
      exact .execute hasher offerHasher ‹_›
    · cases h
  | answer =>
    simp only [threadAct] at h
    split at h
    · cases h
      exact .answer ‹_›
    · cases h
  | sleep =>
    simp only [threadAct] at h
    split at h
    · cases h
      exact .sleep ‹_›
    · cases h
  | exit =>
    simp only [threadAct] at h
    split at h
    · cases h
      exact .exit (.inl ‹_›)
    · cases h
      exact .exit (.inr (.inl ‹_›))
    · cases h
      exact .exit (.inr (.inr ‹_›))
    · cases h

/-- What a step of a task makes of its client, the channel and the requests. -/
inductive ClientStep (serde : Serde) (s : Server) (c : Nat) (client : Client) :
    ClientAct → Client → Channel Nat PendingRestore → List Asked → Prop
  | reply {line message} : client.phase = .selecting →
      handleLine serde s.daemon.snapshot line = .reply message →
      ClientStep serde s c client (.line line)
        { client.noteLine serde s.seen line with
          phase := .writing
            ⟨message, if maxLineBytes < line.length then .bestEffort else .plain⟩ }
        s.requests s.asked
  | restore {line id entryId} : client.phase = .selecting →
      handleLine serde s.daemon.snapshot line = .restore id entryId →
      ClientStep serde s c client (.line line)
        { client.noteLine serde s.seen line with
          phase := .sending id ⟨entryId, s.asked.length⟩ }
        s.requests (s.asked ++ [⟨c, id, entryId⟩])
  | event {event} : client.phase = .selecting → client.subscribed = true →
      s.daemon.events[client.next]? = some event →
      ClientStep serde s c client .recv
        { client with
          next := client.next + 1
          phase := .writing ⟨eventMessage event, .event client.next⟩ }
        s.requests s.asked
  | lagged {next} : client.phase = .selecting → client.subscribed = true → client.next < next →
      next ≤ s.daemon.events.length →
      ClientStep serde s c client .recv
        { client with next, phase := .writing ⟨laggedReply, .missed client.next next⟩ }
        s.requests s.asked
  | sent {id pending} : client.phase = .sending id pending → s.thread ≠ .gone →
      (s.requests.pollSend restoreQueueCapacity c pending).2 = true →
      ClientStep serde s c client .send { client with phase := .awaiting id pending }
        (s.requests.pollSend restoreQueueCapacity c pending).1 s.asked
  | full {id pending} : client.phase = .sending id pending → s.thread ≠ .gone →
      (s.requests.pollSend restoreQueueCapacity c pending).2 = false →
      ClientStep serde s c client .send client
        (s.requests.pollSend restoreQueueCapacity c pending).1 s.asked
  | refused {id pending} : client.phase = .sending id pending → s.thread = .gone →
      ClientStep serde s c client .send
        (client.answered id pending (.error "daemon shutting down")) s.requests s.asked
  | received {id pending resp} : client.phase = .awaiting id pending →
      s.oneshot pending.reply = some resp →
      ClientStep serde s c client .receive (client.answered id pending resp) s.requests s.asked
  | dropped {id pending} : client.phase = .awaiting id pending →
      s.oneshot pending.reply = none → s.thread = .gone →
      ClientStep serde s c client .receive
        (client.answered id pending (.error "restore failed: wayland thread gone"))
        s.requests s.asked
  | expired {id pending} : client.phase = .awaiting id pending →
      ClientStep serde s c client .expire
        (client.answered id pending (.error "restore timed out")) s.requests s.asked
  | written {line} : client.phase = .writing line →
      ClientStep serde s c client .write
        { client with phase := .selecting, written := client.written ++ [line] }
        s.requests s.asked
  | forgotten {line} : client.phase = .writing line → line.purpose = .bestEffort →
      ClientStep serde s c client .hangUp { client with phase := .selecting } s.requests s.asked
  | left : client.phase = .selecting →
      ClientStep serde s c client .hangUp { client with phase := .closed none } s.requests s.asked
  | broken {line} : client.phase = .writing line →
      ClientStep serde s c client .hangUp { client with phase := .closed (some line) }
        s.requests s.asked

theorem clientAct_step (h : s.clientAct serde c client a = some s') :
    ∃ client' requests asked, s.ClientStep serde c client a client' requests asked ∧
      s' = setClient { s with requests, asked } c client' := by
  cases a with
  | line line =>
    simp only [clientAct] at h
    split at h
    · rename_i hp
      cases h
      unfold clientLine
      cases hl : handleLine serde s.daemon.snapshot line with
      | reply message => exact ⟨_, _, _, .reply hp hl, rfl⟩
      | restore id entryId => exact ⟨_, _, _, .restore hp hl, rfl⟩
    · cases h
  | recv =>
    simp only [clientAct] at h
    split at h
    · rename_i hp hsub
      unfold clientRecv at h
      cases hr : Broadcast.recv broadcastCapacity s.daemon.events client.next with
      | none => simp [hr] at h
      | some received =>
        obtain ⟨received, next⟩ := received
        rcases Broadcast.recv_eq_some hr with ⟨event, hev, rfl, rfl⟩ | ⟨hlt, -, rfl⟩
        · simp only [hr] at h
          cases h
          exact ⟨_, _, _, .event hp hsub hev, rfl⟩
        · have hle := Broadcast.recv_le hr
          simp only [hr] at h
          cases h
          exact ⟨_, _, _, .lagged hp hsub hlt hle, rfl⟩
    · cases h
  | send =>
    simp only [clientAct] at h
    split at h
    · rename_i id pending hp
      split at h
      · cases h
        exact ⟨_, _, _, .refused hp ‹_›, rfl⟩
      · split at h
        · rename_i hopen _ requests hpoll
          cases h
          have hdone := congrArg Prod.snd hpoll
          refine ⟨_, _, _, .sent hp hopen hdone, ?_⟩
          rw [hpoll]
        · rename_i hopen _ requests hpoll
          cases h
          have hdone := congrArg Prod.snd hpoll
          refine ⟨_, _, _, .full hp hopen hdone, ?_⟩
          rw [hpoll]
    · cases h
  | receive =>
    simp only [clientAct] at h
    split at h
    · rename_i id pending hp
      cases hone : s.oneshot pending.reply with
      | some resp =>
        simp only [hone] at h
        cases h
        exact ⟨_, _, _, .received hp hone, rfl⟩
      | none =>
        simp only [hone] at h
        split at h
        · cases h
          exact ⟨_, _, _, .dropped hp hone ‹_›, rfl⟩
        · cases h
    · cases h
  | expire =>
    simp only [clientAct] at h
    split at h
    · split at h
      · cases h
        exact ⟨_, _, _, .expired ‹_›, rfl⟩
      · cases h
    · cases h
  | write =>
    simp only [clientAct] at h
    split at h
    · cases h
      exact ⟨_, _, _, .written ‹_›, rfl⟩
    · cases h
  | hangUp =>
    simp only [clientAct] at h
    split at h
    · cases h
      exact ⟨_, _, _, .left ‹_›, rfl⟩
    · split at h
      · cases h
        exact ⟨_, _, _, .forgotten ‹_› ‹_›, rfl⟩
      · cases h
        exact ⟨_, _, _, .broken ‹_›, rfl⟩
    · cases h

theorem act_cases (h : s.act clock serde a = some s') :
    (∃ a', a = .thread a' ∧ s.ThreadStep clock s') ∨
    (a = .accept ∧ s' = { s with clients := s.clients ++
      [{ next := s.daemon.events.length, joined := s.daemon.events.length }] }) ∨
    ∃ c a' client client' requests asked, a = .client c a' ∧ s.clients[c]? = some client ∧
      s.ClientStep serde c client a' client' requests asked ∧
      s' = setClient { s with requests, asked } c client' := by
  cases a with
  | thread a => exact .inl ⟨a, rfl, threadAct_step h⟩
  | accept =>
    cases h
    exact .inr (.inl ⟨rfl, rfl⟩)
  | client c a =>
    simp only [act] at h
    split at h
    · obtain ⟨client', requests, asked, hstep, hs'⟩ := clientAct_step h
      exact .inr (.inr ⟨c, a, _, client', requests, asked, rfl, ‹_›, hstep, hs'⟩)
    · cases h

-- ---------------------------------------------------------------------------
-- Frames
-- ---------------------------------------------------------------------------

@[simp] theorem setClient_daemon : (s.setClient c client).daemon = s.daemon := rfl
@[simp] theorem setClient_thread : (s.setClient c client).thread = s.thread := rfl
@[simp] theorem setClient_requests : (s.setClient c client).requests = s.requests := rfl
@[simp] theorem setClient_asked : (s.setClient c client).asked = s.asked := rfl
@[simp] theorem setClient_published : (s.setClient c client).published = s.published := rfl

theorem outcome_cases (clock : Clock) (d : Daemon) (outcome : ReadOutcome) :
    (d.outcome clock outcome).app.clipboard.nextId = d.app.clipboard.nextId ∧
    (((d.outcome clock outcome).events = d.events ∧
      (d.outcome clock outcome).snapshot = d.snapshot) ∨
    ∃ mime entry, outcome = .stored entry.id mime ∧
      (d.outcome clock outcome).events = d.events ++ [.entryAdded (.of entry)] ∧
      (d.outcome clock outcome).snapshot = pushSummary d.snapshot (.of entry)) := by
  cases outcome with
  | stored id mime =>
    cases hget : d.app.clipboard.get id with
    | none =>
      rw [outcome_of_get_none clock hget]
      exact ⟨rfl, .inl ⟨rfl, rfl⟩⟩
    | some entry =>
      rw [outcome_of_get_some clock hget]
      split
      · exact ⟨rfl, .inl ⟨rfl, rfl⟩⟩
      · obtain ⟨-, rfl⟩ := ClipState.mem_of_get hget
        exact ⟨rfl, .inr ⟨mime, entry, rfl, rfl, rfl⟩⟩
  | _ => exact ⟨rfl, .inl ⟨rfl, rfl⟩⟩

theorem getElem?_append_singleton {l : List α} {k : Nat} (h : (l ++ [a])[k]? = some b) :
    l[k]? = some b ∨ b = a := by
  rcases Nat.lt_or_ge k l.length with hlt | hge
  · rw [List.getElem?_append_left hlt] at h
    exact .inl h
  · rw [List.getElem?_append_right hge] at h
    exact .inr (List.mem_singleton.mp (List.mem_of_getElem? h))

theorem setClient_getElem? (h : s.clients[c]? = some old) (k : Nat) :
    (s.setClient c client).clients[k]? = if k = c then some client else s.clients[k]? := by
  have hlt := (List.getElem?_eq_some_iff.mp h).1
  by_cases hk : k = c
  · subst hk
    simp [setClient, hlt]
  · simp [setClient, hk, Ne.symm hk]

theorem setClient_cases (hk : (s.setClient c client).clients[k]? = some other)
    (h : s.clients[c]? = some old) :
    (k = c ∧ other = client) ∨ (k ≠ c ∧ s.clients[k]? = some other) := by
  rw [setClient_getElem? h] at hk
  split at hk
  · cases hk
    exact .inl ⟨‹_›, rfl⟩
  · exact .inr ⟨‹_›, hk⟩

end Server

end Uclip
