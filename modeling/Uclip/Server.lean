import Uclip.EventLoop
import Uclip.Handler
import Uclip.Lib.Broadcast
import Uclip.Lib.Channel
import Uclip.Lib.System

/-!
# The Wayland thread and the socket tasks

The two halves of the daemon share the snapshot, the channel of restore
requests, a one-shot channel for each of them and the broadcast channel. A step
of the thread is what lies between two accesses to these; a task is at one of
its waiting points. Steps interleave freely, and a timer can expire at any time
while its task waits.
-/

namespace Uclip

open Text (Bytes)

inductive Thread
  | setup
  | polling
  /-- In the outcome loop; `unsent` was pushed and is to be broadcast. -/
  | looking (unsent : List ServerEvent) (outcomes : List ReadOutcome)
  | serving
  /-- `try_recv` gave a request. -/
  | restoring (pending : PendingRestore)
  /-- Executed, and to be answered. -/
  | replying (pending : PendingRestore)
  | gone
  deriving DecidableEq, Repr

inductive Purpose
  | plain
  /-- A reply to a line that was too long; its failure is ignored. -/
  | bestEffort
  /-- The reply to the restore request with this one-shot channel. -/
  | answer (reply : Nat)
  /-- The event at this position. -/
  | event (position : Nat)
  /-- The events from one position up to another were overwritten. -/
  | missed (low high : Nat)
  deriving DecidableEq, Repr

structure Line where
  message : Message
  purpose : Purpose
  deriving DecidableEq, Repr

inductive ClientPhase
  | selecting
  /-- At `req_tx.send(..).await`. -/
  | sending (id : String) (pending : PendingRestore)
  /-- At `timeout(.., rx).await`. -/
  | awaiting (id : String) (pending : PendingRestore)
  | writing (line : Line)
  /-- The task has ended, perhaps by a line that could not be written. -/
  | closed (unwritten : Option Line)
  deriving DecidableEq, Repr

structure Client where
  phase : ClientPhase := .selecting
  subscribed : Bool := false
  /-- Where its receiver stands, and where it was made. -/
  next : Nat
  joined : Nat
  written : List Line := []
  /-- What each `List` read: how many summaries had been pushed, and the snapshot. -/
  listed : List (Nat × Snapshot) := []
  deriving DecidableEq, Repr

def Client.noteLine (serde : Serde) (client : Client) (seen : Nat × Snapshot) (line : Bytes) :
    Client :=
  { client with
    subscribed := client.subscribed || subscribes serde line
    listed := if lists serde line then client.listed ++ [seen] else client.listed }

def Client.answered (client : Client) (id : String) (pending : PendingRestore)
    (resp : DaemonResponse) : Client :=
  { client with phase := .writing ⟨respond id resp, .answer pending.reply⟩ }

structure Asked where
  client : Nat
  id : String
  entryId : Nat
  deriving DecidableEq, Repr

structure Publication where
  reply : Nat
  source : Source
  entry : ClipboardEntry
  deriving DecidableEq

structure Server where
  daemon : Daemon
  thread : Thread := .setup
  requests : Channel Nat PendingRestore := {}
  clients : List Client := []
  asked : List Asked := []
  /-- The sources published so far, which no function reads. -/
  published : List Publication := []

inductive ThreadAct
  | ready
  | drain (events : List Event) (io : RequestIo) (env : DrainEnv)
  | look
  | broadcast
  | serve
  | pop
  | execute (hasher offerHasher : Hasher String Bytes)
  | answer
  | sleep
  /-- An error of the connection ends the loop. -/
  | exit

inductive ClientAct
  | line (line : Bytes)
  | recv
  | send
  | receive
  | expire
  | write
  /-- The connection ends, or a line cannot be written. -/
  | hangUp
  deriving DecidableEq, Repr

inductive ServerAct
  | thread (a : ThreadAct)
  | accept
  | client (c : Nat) (a : ClientAct)

def Daemon.replyTo (d : Daemon) (reply : Nat) : Option DaemonResponse := d.replies.lookup reply

namespace Server

def unsent (s : Server) : List ServerEvent :=
  match s.thread with
  | .looking unsent _ => unsent
  | _ => []

/-- Everything that was pushed to the snapshot, as the events that announce it. -/
def pushed (s : Server) : List ServerEvent := s.daemon.events ++ s.unsent

def seen (s : Server) : Nat × Snapshot := (s.pushed.length, s.daemon.snapshot)

/-- What the receiver of a one-shot channel finds in it. -/
def oneshot (s : Server) (reply : Nat) : Option DaemonResponse :=
  match s.thread with
  | .replying pending => if pending.reply = reply then none else s.daemon.replyTo reply
  | _ => s.daemon.replyTo reply

def execute (clock : Clock) (s : Server) (hasher offerHasher : Hasher String Bytes)
    (pending : PendingRestore) : Server :=
  let published :=
    match s.daemon.app.clipboard.get pending.entryId,
      s.daemon.app.restoreEntry hasher offerHasher pending.entryId with
    | some entry, .ok _ => s.published ++ [⟨pending.reply, s.daemon.app.created, entry⟩]
    | _, _ => s.published
  { s with
    daemon := s.daemon.handleRestore clock hasher offerHasher pending
    thread := .replying pending
    published }

def threadAct (clock : Clock) (s : Server) : ThreadAct → Option Server
  | .ready =>
    match s.thread with
    | .setup => some { s with thread := .polling }
    | _ => none
  | .drain events io env =>
    match s.thread with
    | .polling =>
      let (daemon, outcomes) :=
        (s.daemon.dispatched { events, io, drain := env }).drained { events, io, drain := env }
      some { s with daemon, thread := .looking [] outcomes }
    | _ => none
  | .look =>
    match s.thread with
    | .looking [] (outcome :: outcomes) =>
      -- The push comes first; the event it is announced by is sent next.
      let daemon := s.daemon.outcome clock outcome
      some { s with
        daemon := { daemon with events := s.daemon.events }
        thread := .looking (daemon.events.drop s.daemon.events.length) outcomes }
    | _ => none
  | .broadcast =>
    match s.thread with
    | .looking (event :: unsent) outcomes =>
      some { s with
        daemon := { s.daemon with events := s.daemon.events ++ [event] }
        thread := .looking unsent outcomes }
    | _ => none
  | .serve =>
    match s.thread with
    | .looking [] [] => some { s with thread := .serving }
    | _ => none
  | .pop =>
    match s.thread, s.requests.pop with
    | .serving, some (pending, requests) =>
      some { s with requests, thread := .restoring pending }
    | _, _ => none
  | .execute hasher offerHasher =>
    match s.thread with
    | .restoring pending => some (s.execute clock hasher offerHasher pending)
    | _ => none
  | .answer =>
    match s.thread with
    | .replying _ => some { s with thread := .serving }
    | _ => none
  | .sleep =>
    match s.thread, s.requests.queue with
    | .serving, [] => some { s with thread := .polling }
    | _, _ => none
  | .exit =>
    match s.thread, s.requests.queue with
    | .setup, _ | .polling, _ | .serving, [] =>
      some { s with thread := .gone, requests := s.requests.close }
    | _, _ => none

def setClient (s : Server) (c : Nat) (client : Client) : Server :=
  { s with clients := s.clients.set c client }

def clientLine (serde : Serde) (s : Server) (c : Nat) (client : Client) (line : Bytes) : Server :=
  let client := client.noteLine serde s.seen line
  match handleLine serde s.daemon.snapshot line with
  | .reply message =>
    let purpose := if maxLineBytes < line.length then .bestEffort else .plain
    s.setClient c { client with phase := .writing ⟨message, purpose⟩ }
  | .restore id entryId =>
    setClient { s with asked := s.asked ++ [⟨c, id, entryId⟩] } c
      { client with phase := .sending id ⟨entryId, s.asked.length⟩ }

def clientRecv (s : Server) (c : Nat) (client : Client) : Option Server :=
  match Broadcast.recv broadcastCapacity s.daemon.events client.next with
  | none => none
  | some (.value event, next) =>
    some (s.setClient c
      { client with next, phase := .writing ⟨eventMessage event, .event client.next⟩ })
  | some (.lagged _, next) =>
    some (s.setClient c
      { client with next, phase := .writing ⟨laggedReply, .missed client.next next⟩ })

def clientAnswer (s : Server) (c : Nat) (client : Client) (id : String) (pending : PendingRestore)
    (resp : DaemonResponse) : Server :=
  s.setClient c (client.answered id pending resp)

def clientAct (serde : Serde) (s : Server) (c : Nat) (client : Client) :
    ClientAct → Option Server
  | .line line =>
    match client.phase with
    | .selecting => some (s.clientLine serde c client line)
    | _ => none
  | .recv =>
    match client.phase, client.subscribed with
    | .selecting, true => s.clientRecv c client
    | _, _ => none
  | .send =>
    match client.phase with
    | .sending id pending =>
      if s.thread = .gone then
        some (s.clientAnswer c client id pending (.error "daemon shutting down"))
      else
        match s.requests.pollSend restoreQueueCapacity c pending with
        | (requests, true) =>
          some ({ s with requests }.setClient c { client with phase := .awaiting id pending })
        | (requests, false) => some ({ s with requests }.setClient c client)
    | _ => none
  | .receive =>
    match client.phase with
    | .awaiting id pending =>
      match s.oneshot pending.reply with
      | some resp => some (s.clientAnswer c client id pending resp)
      | none =>
        if s.thread = .gone then
          some (s.clientAnswer c client id pending (.error "restore failed: wayland thread gone"))
        else none
    | _ => none
  | .expire =>
    match client.phase with
    | .awaiting id pending =>
      if s.oneshot pending.reply = none ∧ s.thread ≠ .gone then
        some (s.clientAnswer c client id pending (.error "restore timed out"))
      else none
    | _ => none
  | .write =>
    match client.phase with
    | .writing line =>
      some (s.setClient c { client with phase := .selecting, written := client.written ++ [line] })
    | _ => none
  | .hangUp =>
    match client.phase with
    | .selecting => some (s.setClient c { client with phase := .closed none })
    | .writing line =>
      if line.purpose = .bestEffort then
        some (s.setClient c { client with phase := .selecting })
      else some (s.setClient c { client with phase := .closed (some line) })
    | _ => none

def act (clock : Clock) (serde : Serde) (s : Server) : ServerAct → Option Server
  | .thread a => s.threadAct clock a
  | .accept =>
    let now := s.daemon.events.length
    some { s with clients := s.clients ++ [{ next := now, joined := now }] }
  | .client c a =>
    match s.clients[c]? with
    | some client => s.clientAct serde c client a
    | none => none

/-- The listener is bound, and the Wayland side is still being set up. -/
def start (seat manager device : Global) : Server := { daemon := .start seat manager device }

end Server

def serverSystem (clock : Clock) (serde : Serde) (seat manager device : Global) :
    System Server ServerAct :=
  .ofAct (.start seat manager device) (Server.act clock serde)

def sampleRun (acts : List ServerAct) : Option Server :=
  acts.foldlM (Server.act .still sampleSerde) (.start 0 1 2)

theorem reachable_sampleRun (h : sampleRun acts = some s) :
    (serverSystem .still sampleSerde 0 1 2).Reachable s := ⟨_, System.run_exec h⟩

end Uclip
