import Uclip.Connection
import Uclip.Setup

/-!
# What an unread socket means

The two roundtrips of `setup_connection` handle registry events only, since
there is no device yet, and the loop after them never reads the socket. So the
queue it dispatches is empty in every pass, and nothing is ever copied.
-/

namespace Uclip

open Text (Bytes)

variable {clock : Clock} {io : RequestIo}

/-- Until the device is bound the compositor sends registry events only. -/
def Connection.fromRegistry (s : Connection) : ConnectionStep → Bool
  | .arrive event =>
    match s.phase with
    | .connecting _ => event.isRegistry
    | _ => true
  | _ => true

structure Blank (d : Daemon) : Prop where
  clipboard : d.app.clipboard = .new
  reads : d.app.pendingReads = []
  requests : d.app.requests = []
  snapshot : d.snapshot = []
  events : d.events = []
  replies : ∀ reply resp, (reply, resp) ∈ d.replies →
    ∃ entryId, resp = .ofError (.entryNotFound entryId)

theorem Blank.registry {d : Daemon} (h : Blank d) (events : List Event)
    (hevents : ∀ event ∈ events, event.isRegistry = true) :
    Blank { d with app := dispatchPending io d.app events } := by
  obtain ⟨hclip, hreads, hreq, hsnap, hev, hrep⟩ := h
  have hkept : (dispatchPending io d.app events).clipboard = .new ∧
      (dispatchPending io d.app events).pendingReads = [] ∧
      (dispatchPending io d.app events).requests = [] := by
    generalize d.app = app at hclip hreads hreq
    induction events generalizing app with
    | nil => exact ⟨hclip, hreads, hreq⟩
    | cons event events ih =>
      have hrest := fun e he => hevents e (List.mem_cons_of_mem _ he)
      have hfirst := hevents event List.mem_cons_self
      cases event with
      | global interface object =>
        refine ih hrest _ ?_ ?_ ?_ <;> simp only [dispatch] <;> (repeat' split) <;> assumption
      | globalRemove => exact ih hrest _ hclip hreads hreq
      | _ => cases hfirst
  exact ⟨hkept.1, hkept.2.1, hkept.2.2, hsnap, hev, hrep⟩

theorem Blank.handleRestore {d : Daemon} (h : Blank d) (hasher offerHasher : Hasher String Bytes)
    (pending : PendingRestore) : Blank (d.handleRestore clock hasher offerHasher pending) := by
  have herr : d.app.restoreEntry hasher offerHasher pending.entryId =
      .error (.entryNotFound pending.entryId) := by
    rw [AppState.restoreEntry, h.clipboard]
    rfl
  simp only [Daemon.handleRestore, herr]
  refine ⟨h.clipboard, h.reads, h.requests, h.snapshot, h.events, fun reply resp hmem => ?_⟩
  rcases List.mem_append.mp hmem with hmem | hmem
  · exact h.replies reply resp hmem
  · cases List.mem_singleton.mp hmem
    exact ⟨_, rfl⟩

theorem Blank.served {d : Daemon} (h : Blank d) (pass : Pass) : Blank (d.served clock pass) := by
  unfold Daemon.served
  induction pass.requests generalizing d with
  | nil => exact h
  | cons request requests ih =>
    obtain ⟨pending, hasher, offerHasher⟩ := request
    exact ih (h.handleRestore hasher offerHasher pending)

theorem Blank.worked {d : Daemon} (h : Blank d) (pass : Pass) :
    Blank (d.worked clock pass) := by
  have happ : { d.app with pendingReads := [] } = d.app := by rw [← h.reads]
  have hdrain : d.drained pass = (d, []) := by
    rw [Daemon.drained, drainPendingReads, happ, h.reads]
    rfl
  rw [Daemon.worked, hdrain]
  exact h.served pass

structure Unread (s : Connection) : Prop where
  placed : s.Placed
  blank : Blank s.daemon
  registry : ∀ roundtrips, s.phase = .connecting roundtrips →
    ∀ e ∈ s.socket, e.2.isRegistry = true

theorem Unread.step {s s' : Connection} {step : ConnectionStep} (h : Unread s)
    (hok : s.fromRegistry step = true) (hstep : s.act clock step = some s') : Unread s' := by
  have hplaced := placed_step h.placed hstep
  cases step with
  | arrive event =>
    cases hstep
    refine ⟨hplaced, h.blank, fun roundtrips hphase e he => ?_⟩
    rcases List.mem_append.mp he with he | he
    · exact h.registry roundtrips hphase e he
    · cases List.mem_singleton.mp he
      have hconnecting : s.phase = .connecting roundtrips := hphase
      simpa only [Connection.fromRegistry, hconnecting] using hok
  | roundtrip io count =>
    simp only [Connection.act] at hstep
    split at hstep
    · rename_i roundtrips hphase
      have hsocket := h.registry roundtrips hphase
      split at hstep
      · cases hstep
        refine ⟨hplaced, h.blank.registry _ fun event he => ?_, fun _ _ e he => ?_⟩
        · simp only [Connection.readSocket, h.placed.queue, List.nil_append] at he
          obtain ⟨e, hmem, rfl⟩ := List.mem_map.mp he
          exact hsocket e (List.mem_of_mem_take hmem)
        · exact hsocket e (List.mem_of_mem_drop he)
      · cases hstep
    · cases hstep
  | bind device =>
    obtain ⟨-, rfl⟩ := by simpa [Connection.act] using hstep
    obtain ⟨hclip, hreads, hreq, hsnap, hev, hrep⟩ := h.blank
    exact ⟨hplaced, ⟨hclip, hreads, hreq, hsnap, hev, hrep⟩, fun _ hphase => by cases hphase⟩
  | dispatchPending io =>
    obtain ⟨hdaemon, -, -⟩ := dispatchPending_idle h.placed hstep
    obtain ⟨-, rfl⟩ := by simpa [Connection.act] using hstep
    exact ⟨hplaced, hdaemon ▸ h.blank, fun _ hphase => by cases hphase⟩
  | serve pass =>
    obtain ⟨-, rfl⟩ := by simpa [Connection.act] using hstep
    exact ⟨hplaced, h.blank.worked pass, fun _ hphase => by cases hphase⟩
  | flush =>
    obtain ⟨-, rfl⟩ := by simpa [Connection.act] using hstep
    exact ⟨hplaced, h.blank, fun _ hphase => by cases hphase⟩
  | wake =>
    obtain ⟨-, rfl⟩ := by simpa [Connection.act] using hstep
    exact ⟨hplaced, h.blank, fun _ hphase => by cases hphase⟩

/-- Since the loop only polls the socket, no run of the program captures
anything, whatever the compositor sends once the device is bound. -/
theorem nothing_captured {clock : Clock} {s : Connection}
    (h : ((connectionSystem clock).restrict (Connection.fromRegistry · ·)).Reachable s) :
    Blank s.daemon := by
  have hunread : Unread s := by
    refine h.induct ?_ fun s step s' _ hunread hstep => hunread.step hstep.2 hstep.1
    rintro _ rfl
    have hplaced : Connection.start.Placed := ⟨rfl, rfl, fun _ => id, fun _ _ => rfl⟩
    have hblank : Blank Connection.start.daemon :=
      ⟨rfl, rfl, rfl, rfl, rfl, fun _ _ h => by cases h⟩
    exact ⟨hplaced, hblank, fun _ _ _ h => by cases h⟩
  exact hunread.blank

theorem arrived_offer_ignored : ∃ s : Connection, s.socket ≠ [] ∧ s.polled = s.socket ∧
    Blank s.daemon := by
  have hrun : (offerArrives.foldlM (fun s step =>
      if s.fromRegistry step = true then s.act .still step else none) Connection.start).any
        (fun s => s.socket ≠ [] ∧ s.polled = s.socket) = true := by decide +kernel
  obtain ⟨s, hs, hsocket⟩ := (Option.any_eq_true _ _).mp hrun
  obtain ⟨hne, hpolled⟩ := of_decide_eq_true hsocket
  exact ⟨s, hne, hpolled, nothing_captured ⟨_, System.restrict_exec hs⟩⟩

end Uclip
