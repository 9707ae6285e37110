import Uclip.Drain
import Uclip.Dispatch

/-!
# The Wayland loop

One pass of `run_event_loop`: run the handlers of the queued events, drain the
pipes, go through the outcomes (suppressing the echo of our own restore), then
serve the restore requests. The loop ends early only by an error of the
connection; a run is the sequence of its completed passes.
-/

namespace Uclip

open Text (Bytes)

/-- Milliseconds of the monotonic clock. -/
abbrev Instant := Nat

structure Clock where
  reading : Nat → Instant
  monotone : Monotone reading

def Clock.still : Clock := ⟨fun _ => 0, fun _ _ _ => Nat.le_refl 0⟩

structure PendingRestore where
  entryId : Nat
  /-- The one-shot channel the answer goes to. -/
  reply : Nat
  deriving DecidableEq, Repr

/-- The locals of the loop, and what it has sent so far on the broadcast
channel and on the one-shot channels of the requests. `ticks` counts the
readings of the clock; `restoredEntry` is the entry of the last successful
restore, which no function reads. -/
structure Daemon where
  app : AppState
  snapshot : Snapshot := []
  events : List ServerEvent := []
  replies : List (Nat × DaemonResponse) := []
  expectEcho : Option (Instant × String) := none
  ticks : Nat := 0
  restoredEntry : Option ClipboardEntry := none

/-- `at.elapsed() >= ECHO_SUPPRESS_SECS` -/
def isStale (now armed : Instant) : Bool := echoSuppressMillis ≤ now - armed

def isEcho (now : Instant) (expectEcho : Option (Instant × String)) (preview : String) : Bool :=
  match expectEcho with
  | some (armed, expected) => now - armed < echoSuppressMillis && expected == preview
  | none => false

/-- A stale flag can never match a later real copy. -/
def pruneEcho (now : Instant) (expectEcho : Option (Instant × String)) :
    Option (Instant × String) :=
  expectEcho.filter fun (armed, _) => !isStale now armed

variable (clock : Clock)

def Daemon.announce (d : Daemon) (entry : ClipboardEntry) : Daemon :=
  let summary := EntrySummary.of entry
  { d with
    snapshot := pushSummary d.snapshot summary
    events := d.events ++ [.entryAdded summary] }

/-- One outcome of the drain. Each stored copy reads the clock twice at most. -/
def Daemon.outcome (d : Daemon) : ReadOutcome → Daemon
  | .stored entryId _ =>
    let expectEcho := pruneEcho (clock.reading d.ticks) d.expectEcho
    let now := clock.reading (d.ticks + 1)
    let d := { d with expectEcho, ticks := d.ticks + 2 }
    match d.app.clipboard.get entryId with
    | none => d
    | some entry =>
      if isEcho now d.expectEcho entry.preview then
        { d with
          app := { d.app with clipboard := (d.app.clipboard.remove entryId).2 }
          expectEcho := none }
      else d.announce entry
  | _ => d

def Daemon.handleRestore (hasher offerHasher : Hasher String Bytes) (d : Daemon)
    (pending : PendingRestore) : Daemon :=
  let preview := (d.app.clipboard.get pending.entryId).map (·.preview)
  match d.app.restoreEntry hasher offerHasher pending.entryId with
  | .ok app =>
    { d with
      app
      expectEcho := (preview.map (clock.reading d.ticks, ·)).or d.expectEcho
      ticks := d.ticks + 1
      restoredEntry := d.app.clipboard.get pending.entryId
      replies := d.replies ++ [(pending.reply, .restored pending.entryId)] }
  | .error err => { d with replies := d.replies ++ [(pending.reply, .ofError err)] }

structure Pass where
  events : List Event := []
  io : RequestIo := {}
  drain : DrainEnv
  /-- The requests `try_recv` finds, with the iteration orders of each restore. -/
  requests : List (PendingRestore × Hasher String Bytes × Hasher String Bytes) := []

def Daemon.dispatched (d : Daemon) (pass : Pass) : Daemon :=
  { d with app := dispatchPending pass.io d.app pass.events }

def Daemon.drained (d : Daemon) (pass : Pass) : Daemon × List ReadOutcome :=
  let (app, outcomes) := drainPendingReads pass.drain d.app
  ({ d with app }, outcomes)

def Daemon.served (d : Daemon) (pass : Pass) : Daemon :=
  pass.requests.foldl (fun d (pending, hasher, offerHasher) =>
    d.handleRestore clock hasher offerHasher pending) d

def Daemon.step (d : Daemon) (pass : Pass) : Daemon :=
  let (d, outcomes) := (d.dispatched pass).drained pass
  (outcomes.foldl (Daemon.outcome clock) d).served clock pass

/-- The loop, from the state `setup_connection` leaves. -/
def Daemon.run (d : Daemon) (passes : List Pass) : Daemon := passes.foldl (Daemon.step clock) d

def Daemon.start (seat manager device : Global) : Daemon where
  app := { AppState.new with seat := some seat, manager := some manager, device := some device }

end Uclip
