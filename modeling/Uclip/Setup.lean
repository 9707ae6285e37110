import Uclip.Passes
import Uclip.Selection

/-!
# Setting up, and what every restore is answered

`setup_connection` connects, makes two roundtrips over the registry and binds
the device, or fails with the first of these or for the first global that is
missing. From there on the manager stays bound, and the device is lost for good
with the first `Finished`, so the reply to a restore is decided by the history
and by whether that event has come.
-/

namespace Uclip

open Text (Bytes)

variable {io : RequestIo} {device : Global} {event : Event} {lost : Bool}

/-- The events of the registry: before there is a device no others can come. -/
def Event.isRegistry : Event → Bool
  | .global .. | .globalRemove => true
  | _ => false

def Event.boundAs (interface : String) : Event → Option Global
  | .global name object => if name = interface then some object else none
  | _ => none

/-- The last global of an interface; each announcement is bound anew. -/
def lastBound (interface : String) (events : List Event) : Option Global :=
  (events.filterMap (Event.boundAs interface)).getLast?

inductive SetupError
  /-- An error of the connection, with the text of its context. -/
  | connection (context : String)
  | clipboard (err : ClipboardError)
  deriving DecidableEq, Repr

def roundtrip (io : RequestIo) (state : AppState) :
    Option (List Event) → Except SetupError AppState
  | some events => .ok (dispatchPending io state events)
  | none => .error (.connection "initial registry roundtrip")

def setupConnection (io : RequestIo) (connected : Bool) (first second : Option (List Event))
    (device : Global) : Except SetupError AppState := do
  if connected = false then throw (.connection "connect to Wayland compositor")
  let state ← roundtrip io .new first
  let state ← roundtrip io state second
  match state.seat, state.manager with
  | none, _ => throw (.clipboard .noSeat)
  | some _, none => throw (.clipboard .noManager)
  | some _, some _ => return { state with device := some device }

/-- What goes wrong first. -/
def setupFailure (connected : Bool) : Option (List Event) → Option (List Event) → Option SetupError
  | some first, some second =>
    if connected = false then some (.connection "connect to Wayland compositor")
    else if lastBound "wl_seat" (first ++ second) = none then some (.clipboard .noSeat)
    else if lastBound "ext_data_control_manager_v1" (first ++ second) = none then
      some (.clipboard .noManager)
    else none
  | _, _ =>
    if connected = false then some (.connection "connect to Wayland compositor")
    else some (.connection "initial registry roundtrip")

def revoked (passes : List Pass) : Bool := passes.any fun pass => .finished ∈ pass.events

def verdict (held : ClipState) (lost : Bool) (entryId : Nat) : DaemonResponse :=
  if (held.get entryId).isNone then .ofError (.entryNotFound entryId)
  else if lost then .ofError .noDevice
  else .restored entryId

-- ---------------------------------------------------------------------------
-- The globals
-- ---------------------------------------------------------------------------

theorem lastBound_append_singleton (interface : String) (events : List Event) (event : Event) :
    lastBound interface (events ++ [event]) =
      (event.boundAs interface).or (lastBound interface events) := by
  rw [lastBound, List.filterMap_append]
  cases h : event.boundAs interface <;> simp [h, lastBound]

theorem dispatchPending_append (io : RequestIo) (s : AppState) (events more : List Event) :
    dispatchPending io s (events ++ more) =
      dispatchPending io (dispatchPending io s events) more := by
  simp [dispatchPending]

theorem dispatch_registry (events : List Event) (h : ∀ event ∈ events, event.isRegistry = true) :
    dispatchPending io .new events =
      { AppState.new with
        seat := lastBound "wl_seat" events
        manager := lastBound "ext_data_control_manager_v1" events } := by
  induction events using List.reverseRecOn with
  | nil => rfl
  | append_singleton events event ih =>
    have hlast := h event (by simp)
    rw [dispatchPending_append, ih fun e he => h e (List.mem_append_left _ he),
      lastBound_append_singleton, lastBound_append_singleton]
    cases event with
    | global interface object =>
      simp only [dispatchPending, List.foldl_cons, List.foldl_nil, dispatch, Event.boundAs]
      by_cases hs : interface = "wl_seat"
      · simp [hs]
      · by_cases hm : interface = "ext_data_control_manager_v1" <;> simp [hs, hm]
    | globalRemove => rfl
    | _ => cases hlast

/-- With both roundtrips made, the daemon starts exactly when both globals were
announced, and the missing seat is reported first. -/
theorem setupConnection_eq (first second : List Event)
    (h : ∀ event ∈ first ++ second, event.isRegistry = true) :
    setupConnection io true (some first) (some second) device =
      match lastBound "wl_seat" (first ++ second),
        lastBound "ext_data_control_manager_v1" (first ++ second) with
      | none, _ => .error (.clipboard .noSeat)
      | some _, none => .error (.clipboard .noManager)
      | some seat, some manager => .ok (Daemon.start seat manager device).app := by
  have hstate : setupConnection io true (some first) (some second) device =
      match (dispatchPending io (dispatchPending io .new first) second).seat,
        (dispatchPending io (dispatchPending io .new first) second).manager with
      | none, _ => .error (.clipboard .noSeat)
      | some _, none => .error (.clipboard .noManager)
      | some _, some _ =>
        .ok { dispatchPending io (dispatchPending io .new first) second with
          device := some device } := rfl
  rw [hstate, ← dispatchPending_append, dispatch_registry _ h]
  cases lastBound "wl_seat" (first ++ second) with
  | none => rfl
  | some seat => cases lastBound "ext_data_control_manager_v1" (first ++ second) <;> rfl

theorem setupConnection_cases (connected : Bool) (first second : Option (List Event))
    (h : ∀ event ∈ first.getD [] ++ second.getD [], event.isRegistry = true) :
    (∃ err, setupFailure connected first second = some err ∧
      setupConnection io connected first second device = .error err) ∨
    ∃ seat manager, setupFailure connected first second = none ∧
      setupConnection io connected first second device =
        .ok (Daemon.start seat manager device).app := by
  cases connected with
  | false =>
    refine .inl ⟨.connection "connect to Wayland compositor", ?_, rfl⟩
    cases first <;> cases second <;> rfl
  | true =>
    cases first with
    | none => exact .inl ⟨_, rfl, rfl⟩
    | some first =>
      cases second with
      | none => exact .inl ⟨_, rfl, rfl⟩
      | some second =>
        rw [setupConnection_eq first second h, setupFailure]
        cases hseat : lastBound "wl_seat" (first ++ second) with
        | none => exact .inl ⟨_, rfl, rfl⟩
        | some seat =>
          cases hmanager : lastBound "ext_data_control_manager_v1" (first ++ second) with
          | none => exact .inl ⟨_, rfl, rfl⟩
          | some manager => exact .inr ⟨seat, manager, rfl, rfl⟩

-- ---------------------------------------------------------------------------
-- Manager and device
-- ---------------------------------------------------------------------------

structure SameGlobals (s s' : AppState) : Prop where
  manager : s.manager.isSome → s'.manager.isSome
  device : s'.device = s.device
  created : s'.created = s.created

theorem SameGlobals.refl (s : AppState) : SameGlobals s s := ⟨id, rfl, rfl⟩

theorem dispatch_globals (io : RequestIo) (s : AppState) (h : event ≠ .finished) :
    SameGlobals s (dispatch io s event) := by
  refine dispatch_induct (.refl s) fun s' s'' hs he => ?_
  cases he with
  | bind seat manager hm => exact ⟨fun h => hm (hs.manager h), hs.device, hs.created⟩
  | lose hf => exact absurd hf h
  | _ => exact ⟨hs.manager, hs.device, hs.created⟩

theorem dispatch_finished (io : RequestIo) (s : AppState) :
    SameGlobals s.clearDevice (dispatch io s .finished) := by
  refine clearSelection_induct io .finished (fun _ _ => by simp) (.refl _) ?_
  intro s' s'' hs he
  cases he with
  | bind seat manager hm => exact ⟨fun h => hm (hs.manager h), hs.device, hs.created⟩
  | lose => exact ⟨hs.manager, hs.device.symm ▸ rfl, hs.created⟩
  | _ => exact ⟨hs.manager, hs.device, hs.created⟩

/-- A manager is never unbound, and only `Finished` takes the device. -/
theorem dispatchPending_globals (io : RequestIo) (s : AppState) (events : List Event) :
    (s.manager.isSome → (dispatchPending io s events).manager.isSome) ∧
      (dispatchPending io s events).device = (if .finished ∈ events then none else s.device) ∧
      (dispatchPending io s events).created = s.created := by
  induction events generalizing s with
  | nil => exact ⟨id, rfl, rfl⟩
  | cons event events ih =>
    obtain ⟨hmanager', hdevice', hcreated'⟩ := ih (dispatch io s event)
    by_cases hnow : event = .finished
    · subst hnow
      obtain ⟨hmanager, hdevice, hcreated⟩ := dispatch_finished io s
      refine ⟨fun h => hmanager' (hmanager h), hdevice'.trans ?_, hcreated'.trans hcreated⟩
      simp [hdevice, AppState.clearDevice]
    · obtain ⟨hmanager, hdevice, hcreated⟩ := dispatch_globals io s hnow
      refine ⟨fun h => hmanager' (hmanager h), hdevice'.trans ?_, hcreated'.trans hcreated⟩
      simp [hdevice, Ne.symm hnow]

-- ---------------------------------------------------------------------------
-- Replies
-- ---------------------------------------------------------------------------

def DaemonResponse.isRestored : DaemonResponse → Bool
  | .restored _ => true
  | _ => false

def restoredCount (replies : List (Nat × DaemonResponse)) : Nat :=
  replies.countP (·.2.isRestored)

def verdicts (held : ClipState) (lost : Bool) (pass : Pass) : List (Nat × DaemonResponse) :=
  pass.requests.map fun (pending, _) => (pending.reply, verdict held lost pending.entryId)

/-- What a daemon that was set up has: a manager, a device until it is revoked,
and one source created for each restore that succeeded. -/
structure Granted (d : Daemon) (lost : Bool) : Prop where
  manager : d.app.manager.isSome
  device : d.app.device.isNone = lost
  created : d.app.created = restoredCount d.replies

theorem restoredCount_append (replies : List (Nat × DaemonResponse)) (reply : Nat)
    (resp : DaemonResponse) :
    restoredCount (replies ++ [(reply, resp)]) =
      restoredCount replies + if resp.isRestored then 1 else 0 := by
  simp [restoredCount, List.countP_append, List.countP_singleton]

variable (clock : Clock)

theorem handleRestore_verdict {d : Daemon} (h : Granted d lost)
    (hasher offerHasher : Hasher String Bytes) (pending : PendingRestore) :
    let d' := d.handleRestore clock hasher offerHasher pending
    Granted d' lost ∧ d'.app.clipboard = d.app.clipboard ∧
      d'.replies =
        d.replies ++ [(pending.reply, verdict d.app.clipboard lost pending.entryId)] := by
  obtain ⟨hm, hdevice, hcreated⟩ := h
  have hfail (err : ClipboardError)
      (herr : d.app.restoreEntry hasher offerHasher pending.entryId = .error err)
      (hv : verdict d.app.clipboard lost pending.entryId = .ofError err) :
      let d' := d.handleRestore clock hasher offerHasher pending
      Granted d' lost ∧ d'.app.clipboard = d.app.clipboard ∧
        d'.replies =
          d.replies ++ [(pending.reply, verdict d.app.clipboard lost pending.entryId)] := by
    simp only [Daemon.handleRestore, herr, hv, and_true]
    refine ⟨hm, hdevice, ?_⟩
    rw [restoredCount_append]
    exact hcreated
  cases hget : d.app.clipboard.get pending.entryId with
  | none =>
    exact hfail (.entryNotFound pending.entryId) (by simp only [AppState.restoreEntry, hget])
      (by simp [verdict, hget])
  | some entry =>
    obtain ⟨m, hm'⟩ := Option.isSome_iff_exists.mp hm
    cases hd : d.app.device with
    | none =>
      rw [hd] at hdevice
      exact hfail .noDevice (by simp only [AppState.restoreEntry, hget, hm', hd])
        (by simp [verdict, hget, ← hdevice])
    | some device =>
      rw [hd] at hdevice
      have hok : d.app.restoreEntry hasher offerHasher pending.entryId = .ok _ :=
        AppState.restoreEntry_of_get hget hm (by simp [hd])
      have hv : verdict d.app.clipboard lost pending.entryId = .restored pending.entryId := by
        simp [verdict, hget, ← hdevice]
      simp only [Daemon.handleRestore, hok, hv, AppState.publish_eq, and_true]
      refine ⟨hm, by rw [hd, hdevice], ?_⟩
      rw [restoredCount_append, hcreated]
      rfl

theorem served_verdicts {d : Daemon} (h : Granted d lost) (pass : Pass) :
    let d' := d.served clock pass
    Granted d' lost ∧ d'.app.clipboard = d.app.clipboard ∧
      d'.replies = d.replies ++ verdicts d.app.clipboard lost pass := by
  dsimp only
  unfold Daemon.served verdicts
  induction pass.requests generalizing d with
  | nil => exact ⟨h, rfl, by simp⟩
  | cons request requests ih =>
    obtain ⟨pending, hasher, offerHasher⟩ := request
    obtain ⟨hgranted, hclip, hreplies⟩ :=
      handleRestore_verdict clock h hasher offerHasher pending
    obtain ⟨hgranted', hclip', hreplies'⟩ := ih hgranted
    rw [hclip, hreplies, List.append_assoc] at hreplies'
    exact ⟨hgranted', hclip'.trans hclip, hreplies'⟩

-- ---------------------------------------------------------------------------
-- Runs
-- ---------------------------------------------------------------------------

theorem step_verdicts {d : Daemon} (h : Granted d lost) (pass : Pass) :
    let d' := d.step clock pass
    let lost' := lost || decide (.finished ∈ pass.events)
    Granted d' lost' ∧ d'.replies = d.replies ++ verdicts d'.app.clipboard lost' pass := by
  obtain ⟨d', clipboard, hstep, hreplies, happ⟩ := step_worked clock d pass
  obtain ⟨hmanager, hdevice, hcreated⟩ := dispatchPending_globals pass.io d.app pass.events
  have hgranted : Granted d' (lost || decide (.finished ∈ pass.events)) := by
    refine ⟨?_, ?_, ?_⟩
    · rw [happ]
      exact hmanager h.manager
    · rw [happ, ← h.device]
      change (dispatchPending pass.io d.app pass.events).device.isNone = _
      rw [hdevice]
      by_cases hf : Event.finished ∈ pass.events <;> simp [hf]
    · rw [happ, hreplies, ← h.created]
      exact hcreated
  obtain ⟨hgranted', hclip, hreplies'⟩ := served_verdicts clock hgranted pass
  rw [← hstep] at hgranted' hclip hreplies'
  exact ⟨hgranted', by rw [hreplies', hreplies, hclip]⟩

theorem granted_start (seat manager device : Global) :
    Granted (.start seat manager device) false := ⟨rfl, rfl, rfl⟩

theorem granted_run (seat manager device : Global) (passes : List Pass) :
    Granted (Daemon.run clock (.start seat manager device) passes) (revoked passes) := by
  refine run_induct (motive := fun passes d => Granted d (revoked passes)) clock _
    (granted_start seat manager device) (fun passes pass h => ?_) passes
  have hstep := (step_verdicts clock h pass).1
  rwa [revoked, List.any_append, List.any_cons, List.any_nil, Bool.or_false]

/-- The start-up fails with what goes wrong first: connecting, a roundtrip, a
seat that was not announced, a manager that was not. What a run answers to its
restores after a start-up that did not fail is decided by what is held and by
whether `Finished` has come. No request before or after meets a missing manager,
and each `Restored` is one source created. -/
theorem restores_answered (clock : Clock) (io : RequestIo) (connected : Bool)
    (first second : Option (List Event)) (device : Global)
    (h : ∀ event ∈ first.getD [] ++ second.getD [], event.isRegistry = true) :
    match setupConnection io connected first second device with
    | .error err => setupFailure connected first second = some err
    | .ok app =>
      setupFailure connected first second = none ∧
      ∀ passes pass,
        let d := Daemon.run clock { app } passes
        let d' := d.step clock pass
        d'.replies =
            d.replies ++ verdicts d'.app.clipboard (revoked (passes ++ [pass])) pass ∧
          d'.app.created = restoredCount d'.replies := by
  rcases setupConnection_cases connected first second h with
    ⟨err, hfailure, hsetup⟩ | ⟨seat, manager, hfailure, hsetup⟩ <;> rw [hsetup]
  · exact hfailure
  · refine ⟨hfailure, fun passes pass => ?_⟩
    have hrun := granted_run clock seat manager device passes
    obtain ⟨hgranted, hreplies⟩ := step_verdicts clock hrun pass
    rw [revoked, List.any_append, List.any_cons, List.any_nil, Bool.or_false]
    exact ⟨hreplies, hgranted.created⟩

def revokedRun : List Pass :=
  [copyPass 0 ⟨1, 0⟩ ["text/plain"] fun _ => [0x68, 0x69],
    { events := [.finished]
      drain := ⟨fun _ => .ok [], fun _ => .sorted, fun _ => .sorted, fun _ => 0⟩
      requests := [(⟨1, 0⟩, .sorted, .sorted)] }]

theorem revoked_restore_refused : ∃ app,
    setupConnection {} true (some [.global "wl_seat" 0])
      (some [.global "ext_data_control_manager_v1" 1]) 2 = .ok app ∧
    (Daemon.run .still { app } revokedRun).replies = [(0, .ofError .noDevice)] := by
  have hanswered := restores_answered .still {} true (some [.global "wl_seat" 0])
    (some [.global "ext_data_control_manager_v1" 1]) 2 (by decide)
  have hok : setupConnection {} true (some [.global "wl_seat" 0])
      (some [.global "ext_data_control_manager_v1" 1]) 2 = .ok (Daemon.start 0 1 2).app :=
    setupConnection_eq _ _ (by decide)
  rw [hok] at hanswered
  obtain ⟨-, hrun⟩ := hanswered
  refine ⟨_, hok, ?_⟩
  have hlast := (hrun (revokedRun.take 1) (revokedRun.getLast (by decide))).1
  refine hlast.trans ?_
  decide +kernel

end Uclip
