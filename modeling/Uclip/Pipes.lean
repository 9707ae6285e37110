import Uclip.DrainReference
import Uclip.Passes

/-!
# Every pipe is read once

A pass reads the pipes of the `receive` requests that it has itself sent and
flushed, in the order it made them. Pipes are numbered as they are made, so
over a run no pipe is asked over twice, and none is read twice.
-/

namespace Uclip

open Text (Bytes)

structure Receive where
  offer : Offer
  mimeType : String
  fd : Fd
  deriving DecidableEq, Repr

def Receive.read (r : Receive) : PendingRead := ⟨r.fd, r.mimeType, r.offer.protocolId⟩

def Request.received : Request → Option Receive
  | .receive target mimeType fd => some ⟨target, mimeType, fd⟩
  | _ => none

def AppState.receives (s : AppState) : List Receive := s.requests.filterMap Request.received

def Daemon.readIn (clock : Clock) (d : Daemon) : List Pass → List PendingRead
  | [] => []
  | pass :: rest => (d.dispatched pass).app.pendingReads ++ (d.step clock pass).readIn clock rest

-- ---------------------------------------------------------------------------
-- The handlers of one pass
-- ---------------------------------------------------------------------------

variable {io : RequestIo} {events : List Event} {s s' : AppState} {made : List Receive}

/-- The handlers of `events` have asked for `made`, over new pipes, and queued
the reads of those they could flush. -/
structure Requested (io : RequestIo) (events : List Event) (s : AppState) (made : List Receive)
    (s' : AppState) : Prop where
  receives : s'.receives = s.receives ++ made
  reads : s'.pendingReads =
    s.pendingReads ++ (made.filter (io.flushOk ·.fd)).map Receive.read
  pipes : s.pipes ≤ s'.pipes
  numbered : made.Pairwise (·.fd < ·.fd)
  fresh : ∀ r ∈ made, s.pipes ≤ r.fd ∧ r.fd < s'.pipes
  wanted : ∀ r ∈ made, .selection (some r.offer) ∈ events ∧ Wanted r.mimeType

theorem Requested.refl (io : RequestIo) (events : List Event) (s : AppState) :
    Requested io events s [] s := ⟨by simp, by simp, Nat.le_refl _, .nil, by simp, by simp⟩

theorem Requested.quiet (h : Requested io events s made s') {s'' : AppState} (more : List Request)
    (hmore : more.filterMap Request.received = []) (hreq : s''.requests = s'.requests ++ more)
    (hreads : s''.pendingReads = s'.pendingReads) (hpipes : s'.pipes ≤ s''.pipes) :
    Requested io events s made s'' where
  receives := by
    rw [AppState.receives, hreq, List.filterMap_append, hmore, List.append_nil]
    exact h.receives
  reads := hreads.trans h.reads
  pipes := h.pipes.trans hpipes
  numbered := h.numbered
  fresh r hr := ⟨(h.fresh r hr).1, (h.fresh r hr).2.trans_le hpipes⟩
  wanted := h.wanted

theorem Requested.effect (h : Requested io events s made s') {event : Event} (hev : event ∈ events)
    {s'' : AppState} (he : Effect io event s' s'') :
    ∃ made', Requested io events s made' s'' := by
  cases he with
  | ask offer mime hsel _ hwanted =>
    refine ⟨made ++ [⟨offer, mime, s'.pipes⟩], ?_, ?_, ?_, ?_, ?_, ?_⟩
    · rw [AppState.receives, List.filterMap_append, ← List.append_assoc, ← h.receives]
      rfl
    · dsimp only
      rw [h.reads, List.filter_append, List.map_append, List.append_assoc]
      by_cases hflush : io.flushOk s'.pipes <;> simp [hflush, Receive.read]
    · exact h.pipes.trans (Nat.le_succ _)
    · refine List.pairwise_append.mpr ⟨h.numbered, List.pairwise_singleton .., ?_⟩
      intro r hr last hlast
      cases List.mem_singleton.mp hlast
      exact (h.fresh r hr).2
    · intro r hr
      rcases List.mem_append.mp hr with hr | hr
      · exact ⟨(h.fresh r hr).1, (h.fresh r hr).2.trans (Nat.lt_succ_self _)⟩
      · cases List.mem_singleton.mp hr
        exact ⟨h.pipes, Nat.lt_succ_self _⟩
    · intro r hr
      rcases List.mem_append.mp hr with hr | hr
      · exact h.wanted r hr
      · cases List.mem_singleton.mp hr
        exact ⟨hsel ▸ hev, hwanted⟩
  | noPipe => exact ⟨made, h.quiet [] rfl (by simp) rfl (Nat.le_succ _)⟩
  | clear old => exact ⟨made, h.quiet [.destroyOffer old] rfl rfl rfl (Nat.le_refl _)⟩
  | cancel source => exact ⟨made, h.quiet [.destroySource source] rfl rfl rfl (Nat.le_refl _)⟩
  | _ => exact ⟨made, h.quiet [] rfl (by simp) rfl (Nat.le_refl _)⟩

theorem dispatchPending_requested (io : RequestIo) (s : AppState) (events : List Event) :
    ∃ made, Requested io events s made (dispatchPending io s events) :=
  dispatchPending_induct (P := fun s' => ∃ made, Requested io events s made s')
    ⟨[], .refl io events s⟩ fun _ hev _ _ h he => h.elim fun _ hmade => hmade.effect hev he

-- ---------------------------------------------------------------------------
-- Runs
-- ---------------------------------------------------------------------------

variable (clock : Clock)

theorem received_publishRequests (source : Source) (contents : Blobs) (mimes : List String)
    (old : Option Source) :
    (AppState.publishRequests source contents mimes old).filterMap Request.received = [] := by
  rw [List.filterMap_eq_nil_iff]
  intro request hrequest
  rcases mem_publishRequests hrequest with rfl | ⟨_, -, rfl⟩ | rfl | ⟨_, -, rfl⟩ <;> rfl

theorem step_receives (d : Daemon) (pass : Pass) :
    (d.step clock pass).app.receives = (d.dispatched pass).app.receives ∧
      (d.step clock pass).app.pipes = (d.dispatched pass).app.pipes ∧
      (d.step clock pass).app.pendingReads = [] := by
  obtain ⟨d', clipboard, hstep, -, happ⟩ := step_worked clock d pass
  rw [hstep]
  refine served_induct clock (P := fun s => s.receives = (d.dispatched pass).app.receives ∧
    s.pipes = (d.dispatched pass).app.pipes ∧ s.pendingReads = []) ?_ ?_
  · rw [happ]
    exact ⟨rfl, rfl, rfl⟩
  · rintro s entry hasher offerHasher ⟨hreceives, hpipes, hreads⟩ - -
    rw [AppState.publish_eq]
    refine ⟨?_, hpipes, hreads⟩
    rw [AppState.receives, List.filterMap_append, received_publishRequests, List.append_nil]
    exact hreceives

structure PipeLedger (d : Daemon) (reads : List PendingRead) : Prop where
  idle : d.app.pendingReads = []
  numbered : d.app.receives.Pairwise (·.fd < ·.fd)
  below : ∀ r ∈ d.app.receives, r.fd < d.app.pipes
  reads : reads.Sublist (d.app.receives.map Receive.read)

theorem PipeLedger.step {d : Daemon} {reads : List PendingRead} (h : PipeLedger d reads)
    (pass : Pass) :
    PipeLedger (d.step clock pass) (reads ++ (d.dispatched pass).app.pendingReads) := by
  obtain ⟨made, hmade⟩ := dispatchPending_requested pass.io d.app pass.events
  obtain ⟨hreceives, hpipes, hidle⟩ := step_receives clock d pass
  have hall : (d.step clock pass).app.receives = d.app.receives ++ made :=
    hreceives.trans hmade.receives
  have hreads := hmade.reads
  rw [h.idle, List.nil_append] at hreads
  refine ⟨hidle, ?_, ?_, ?_⟩
  · rw [hall]
    refine List.pairwise_append.mpr ⟨h.numbered, hmade.numbered, fun old hold new hnew => ?_⟩
    exact (h.below old hold).trans_le (hmade.fresh new hnew).1
  · rw [hall, hpipes]
    intro r hr
    rcases List.mem_append.mp hr with hr | hr
    · exact (h.below r hr).trans_le hmade.pipes
    · exact (hmade.fresh r hr).2
  · rw [hall, List.map_append]
    exact h.reads.append (hreads ▸ List.filter_sublist.map _)

theorem readIn_append (d : Daemon) (passes : List Pass) (pass : Pass) :
    d.readIn clock (passes ++ [pass]) =
      d.readIn clock passes ++ ((d.run clock passes).dispatched pass).app.pendingReads := by
  induction passes generalizing d with
  | nil => simp [Daemon.readIn, Daemon.run]
  | cons first passes ih =>
    rw [List.cons_append, Daemon.readIn, ih, Daemon.readIn, List.append_assoc]
    rfl

theorem pipeLedger_run (seat manager device : Global) (passes : List Pass) :
    PipeLedger (Daemon.run clock (.start seat manager device) passes)
      (Daemon.readIn clock (.start seat manager device) passes) := by
  refine run_induct (motive := fun passes d =>
    PipeLedger d (Daemon.readIn clock (.start seat manager device) passes)) clock
    (.start seat manager device) ?_ (fun passes pass h => ?_) passes
  · exact ⟨rfl, .nil, nofun, .slnil⟩
  · rw [readIn_append]
    exact h.step clock pass

end Uclip
