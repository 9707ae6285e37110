import Uclip.EventLoop
import Uclip.Lib.System

/-!
# The socket of the compositor

An event arrives on the socket, is read into the event queue, and is handled
when the queue is dispatched. `setup_connection` reads the socket in its two
roundtrips. The loop after it dispatches the queue, flushes and polls: it waits
for the socket to become readable and never reads it.
-/

namespace Uclip

abbrev Arrival := Nat × Event

inductive ConnectionPhase
  /-- `setup_connection` has made this many roundtrips. -/
  | connecting (roundtrips : Nat)
  | dispatching
  | draining
  | flushing
  | polling
  deriving DecidableEq

/-- The program with its connection. `handled` are the events whose handler has
run, in that order; `polled` is what was on the socket when `poll` last
returned. No function reads these two. -/
structure Connection where
  daemon : Daemon
  phase : ConnectionPhase
  socket : List Arrival := []
  queue : List Arrival := []
  handled : List Arrival := []
  arrived : Nat := 0
  polled : List Arrival := []

inductive ConnectionStep
  /-- The compositor writes an event. -/
  | arrive (event : Event)
  /-- `roundtrip`: a number of events are read and dispatched. -/
  | roundtrip (io : RequestIo) (count : Nat)
  /-- `get_data_device` -/
  | bind (device : Global)
  | dispatchPending (io : RequestIo)
  /-- The drain with its outcomes, then the restore requests. -/
  | serve (pass : Pass)
  | flush
  /-- `poll` returns: the socket is readable, or the time is over, or `EINTR`. -/
  | wake

variable (clock : Clock)

def Daemon.worked (d : Daemon) (pass : Pass) : Daemon :=
  ((d.drained pass).2.foldl (Daemon.outcome clock) (d.drained pass).1).served clock pass

def Connection.dispatchQueue (s : Connection) (io : RequestIo) : Connection :=
  { s with
    daemon := { s.daemon with app := Uclip.dispatchPending io s.daemon.app (s.queue.map (·.2)) }
    handled := s.handled ++ s.queue
    queue := [] }

def Connection.readSocket (s : Connection) (count : Nat) : Connection :=
  { s with queue := s.queue ++ s.socket.take count, socket := s.socket.drop count }

def Connection.act (s : Connection) : ConnectionStep → Option Connection
  | .arrive event =>
    some { s with socket := s.socket ++ [(s.arrived, event)], arrived := s.arrived + 1 }
  | .roundtrip io count =>
    match s.phase with
    | .connecting roundtrips =>
      if roundtrips < 2 then
        some { (s.readSocket count).dispatchQueue io with phase := .connecting (roundtrips + 1) }
      else none
    | _ => none
  | .bind device =>
    if s.phase = .connecting 2 ∧ s.daemon.app.seat.isSome ∧ s.daemon.app.manager.isSome then
      some { s with
        daemon := { s.daemon with app := { s.daemon.app with device := some device } }
        phase := .dispatching }
    else none
  | .dispatchPending io =>
    if s.phase = .dispatching then some { s.dispatchQueue io with phase := .draining } else none
  | .serve pass =>
    if s.phase = .draining then
      some { s with daemon := s.daemon.worked clock pass, phase := .flushing }
    else none
  | .flush => if s.phase = .flushing then some { s with phase := .polling } else none
  | .wake =>
    if s.phase = .polling then some { s with phase := .dispatching, polled := s.socket }
    else none

def Connection.start : Connection where
  daemon := { app := .new }
  phase := .connecting 0

def connectionSystem : System Connection ConnectionStep :=
  .ofAct .start (Connection.act clock)

def HandledOnce (events handled : List Arrival) : Prop :=
  events.Sublist handled ∧ ∀ e ∈ events, handled.count e = 1

variable {clock} {s s' : Connection} {step : ConnectionStep}

-- ---------------------------------------------------------------------------
-- Where the events are
-- ---------------------------------------------------------------------------

/-- Every event that has arrived is handled, queued or on the socket, and what
`poll` saw on the socket is still there. -/
structure Connection.Placed (s : Connection) : Prop where
  order : (s.handled ++ s.queue ++ s.socket).map (·.1) = List.range s.arrived
  queue : s.queue = []
  unread : ∀ e ∈ s.polled, e ∈ s.socket
  connecting : ∀ roundtrips, s.phase = .connecting roundtrips → s.polled = []

namespace Connection.Placed

theorem arrive (h : s.Placed) (event : Event) :
    Placed { s with
      socket := s.socket ++ [(s.arrived, event)]
      arrived := s.arrived + 1 } where
  order := by
    have horder := h.order
    rw [List.range_succ, ← horder]
    simp
  queue := h.queue
  unread e he := List.mem_append_left _ (h.unread e he)
  connecting := h.connecting

theorem roundtrip (h : s.Placed) (io : RequestIo) (count : Nat)
    (hphase : s.phase = .connecting roundtrips) :
    Placed { (s.readSocket count).dispatchQueue io with
      phase := .connecting (roundtrips + 1) } where
  order := by
    have horder := h.order
    simp only [readSocket, dispatchQueue, List.append_nil]
    rwa [← List.append_assoc, List.append_assoc _ _ (s.socket.drop count),
      List.take_append_drop]
  queue := rfl
  unread e he := by
    have hnone : s.polled = [] := h.connecting roundtrips hphase
    change e ∈ s.polled at he
    rw [hnone] at he
    cases he
  connecting _ _ := h.connecting roundtrips hphase

theorem dispatchPending (h : s.Placed) (io : RequestIo) :
    Placed { s.dispatchQueue io with phase := .draining } where
  order := by
    have horder := h.order
    simpa only [dispatchQueue, List.append_nil] using horder
  queue := rfl
  unread := h.unread
  connecting _ hphase := by cases hphase

end Connection.Placed

theorem placed_step (h : s.Placed) (hstep : s.act clock step = some s') : s'.Placed := by
  cases step with
  | arrive event =>
    cases hstep
    exact h.arrive event
  | roundtrip io count =>
    simp only [Connection.act] at hstep
    split at hstep
    · rename_i roundtrips hphase
      split at hstep
      · cases hstep
        exact h.roundtrip io count hphase
      · cases hstep
    · cases hstep
  | bind device =>
    obtain ⟨-, rfl⟩ := by simpa [Connection.act] using hstep
    exact ⟨h.order, h.queue, h.unread, fun _ hphase => by cases hphase⟩
  | dispatchPending io =>
    obtain ⟨-, rfl⟩ := by simpa [Connection.act] using hstep
    exact h.dispatchPending io
  | serve pass =>
    obtain ⟨-, rfl⟩ := by simpa [Connection.act] using hstep
    exact ⟨h.order, h.queue, h.unread, fun _ hphase => by cases hphase⟩
  | flush =>
    obtain ⟨-, rfl⟩ := by simpa [Connection.act] using hstep
    exact ⟨h.order, h.queue, h.unread, fun _ hphase => by cases hphase⟩
  | wake =>
    obtain ⟨-, rfl⟩ := by simpa [Connection.act] using hstep
    exact ⟨h.order, h.queue, fun _ => id, fun _ hphase => by cases hphase⟩

theorem reachable_placed (h : (connectionSystem clock).Reachable s) : s.Placed := by
  refine h.induct ?_ fun s step s' _ hplaced hstep => placed_step hplaced hstep
  rintro s rfl
  exact ⟨rfl, rfl, nofun, fun _ _ => rfl⟩

theorem dispatchPending_idle (hplaced : s.Placed)
    (h : s.act clock (.dispatchPending io) = some s') :
    s'.daemon = s.daemon ∧ s'.handled = s.handled ∧ s'.polled = s.polled := by
  obtain ⟨-, rfl⟩ := by simpa [Connection.act] using h
  simp [Connection.dispatchQueue, hplaced.queue, dispatchPending]

theorem handledOnce_polled_iff (hplaced : s.Placed)
    (h : s.act clock (.dispatchPending io) = some s') :
    HandledOnce s.polled s'.handled ↔ s.polled = [] := by
  obtain ⟨-, hhandled, -⟩ := dispatchPending_idle hplaced h
  constructor
  · rintro ⟨hsub, -⟩
    rw [List.eq_nil_iff_forall_not_mem]
    intro e he
    -- The event is on the socket, so no handler has seen it.
    have hn : (s.handled ++ s.queue ++ s.socket).Nodup :=
      List.Nodup.of_map (·.1) (hplaced.order ▸ List.nodup_range)
    rw [hhandled] at hsub
    exact (List.nodup_append.mp hn).2.2 e (List.mem_append_left _ (hsub.subset he)) e
      (hplaced.unread e he) rfl
  · intro hnil
    rw [hnil]
    exact ⟨List.nil_sublist _, nofun⟩

/-- In every iteration but the first, the events that were on the socket when
`poll` returned have been handled after the dispatch exactly when there were none. -/
theorem polled_events_handled_iff (clock : Clock) (steps : List ConnectionStep) :
    (∀ n io s s', steps[n]? = some (.dispatchPending io) →
      (steps.take n).foldlM (Connection.act clock) .start = some s →
      s.act clock (.dispatchPending io) = some s' → HandledOnce s.polled s'.handled) ↔
    ∀ n io s, steps[n]? = some (.dispatchPending io) →
      (steps.take n).foldlM (Connection.act clock) .start = some s →
      s.phase = .dispatching → s.polled = [] := by
  constructor
  · intro h n io s hstep hrun hphase
    have hplaced := reachable_placed ⟨_, System.run_exec hrun⟩
    have hact : s.act clock (.dispatchPending io) =
        some { s.dispatchQueue io with phase := .draining } := by
      simp [Connection.act, hphase]
    exact (handledOnce_polled_iff hplaced hact).mp (h n io s _ hstep hrun hact)
  · intro h n io s s' hstep hrun hact
    have hplaced := reachable_placed ⟨_, System.run_exec hrun⟩
    refine (handledOnce_polled_iff hplaced hact).mpr (h n io s hstep hrun ?_)
    obtain ⟨hphase, -⟩ := by simpa [Connection.act] using hact
    exact hphase

instance (events handled : List Arrival) : Decidable (HandledOnce events handled) :=
  inferInstanceAs (Decidable (_ ∧ _))

def offerArrives : List ConnectionStep :=
  [.arrive (.global "wl_seat" 0), .arrive (.global "ext_data_control_manager_v1" 1),
    .roundtrip {} 2, .roundtrip {} 0, .bind 2, .dispatchPending {},
    .serve { drain := ⟨fun _ => .ok [], fun _ => .sorted, fun _ => .sorted, fun _ => 0⟩ },
    .flush, .arrive (.dataOffer ⟨1, 0⟩), .wake]

theorem arrived_offer_unhandled :
    ∃ s s', offerArrives.foldlM (Connection.act .still) .start = some s ∧
      s.act .still (.dispatchPending {}) = some s' ∧
      ¬ HandledOnce s.polled s'.handled := by
  have hrun : (offerArrives.foldlM (Connection.act .still) .start).any (fun s =>
      (s.act .still (.dispatchPending {})).any fun s' =>
        ¬ HandledOnce s.polled s'.handled) = true := by decide +kernel
  obtain ⟨s, hs, hnext⟩ := (Option.any_eq_true _ _).mp hrun
  obtain ⟨s', hs', hnot⟩ := (Option.any_eq_true _ _).mp hnext
  exact ⟨s, s', hs, hs', of_decide_eq_true hnot⟩

end Uclip
