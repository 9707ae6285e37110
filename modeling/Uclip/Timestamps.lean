import Uclip.Drained
import Uclip.LoopLaws

/-!
# Time stamps

The wall clock is read where a copy is stored, and nothing but the summaries
reads the stamp: with all stamps set to the epoch, a pass of the loop is the
pass of a daemon whose wall clock stands still.
-/

namespace Uclip

open Text (Bytes)
open ClipboardContent (fromBlobs)

def ClipboardEntry.untimed (e : ClipboardEntry) : ClipboardEntry := { e with timestamp := 0 }

def EntrySummary.untimed (summary : EntrySummary) : EntrySummary :=
  { summary with timestampMillis := 0 }

def ServerEvent.untimed : ServerEvent → ServerEvent
  | .entryAdded entry => .entryAdded entry.untimed
  | .selectionCleared => .selectionCleared

theorem ClipState.Valid.untimed {entries : List ClipboardEntry} {nextId : Nat}
    (h : Valid entries nextId) : Valid (entries.map (·.untimed)) nextId where
  bounded := (List.length_map _).trans_le h.bounded
  ordered := List.pairwise_map.mpr h.ordered
  fresh := List.forall_mem_map.mpr h.fresh
  classified := List.forall_mem_map.mpr h.classified

def ClipState.untimed (s : ClipState) : ClipState :=
  ⟨s.entries.map (·.untimed), s.nextId, s.valid.untimed⟩

def AppState.untimed (s : AppState) : AppState := { s with clipboard := s.clipboard.untimed }

def Daemon.untimed (d : Daemon) : Daemon :=
  { d with
    app := d.app.untimed
    snapshot := d.snapshot.map (·.untimed)
    events := d.events.map (·.untimed)
    restoredEntry := d.restoredEntry.map (·.untimed) }

def DrainEnv.untimed (env : DrainEnv) : DrainEnv := { env with now := fun _ => 0 }

def Pass.untimed (pass : Pass) : Pass := { pass with drain := pass.drain.untimed }

-- ---------------------------------------------------------------------------
-- The history
-- ---------------------------------------------------------------------------

theorem EntrySummary.of_untimed (e : ClipboardEntry) :
    EntrySummary.of e.untimed = (EntrySummary.of e).untimed := by
  have hzero : millisSinceEpoch 0 = 0 := by decide
  rw [EntrySummary.of, EntrySummary.untimed, ClipboardEntry.untimed, hzero]
  rfl

namespace ClipState

variable {s : ClipState}

theorem get_untimed (s : ClipState) (id : Nat) :
    s.untimed.get id = (s.get id).map (·.untimed) := List.find?_map ..

theorem latest_untimed (s : ClipState) :
    s.untimed.latest.map (·.content) = s.latest.map (·.content) := by
  have hlast : s.untimed.latest = s.latest.map (·.untimed) := List.getLast?_map
  rw [hlast, Option.map_map]
  rfl

theorem remove_untimed (s : ClipState) (id : Nat) :
    (s.untimed.remove id).2 = (s.remove id).2.untimed :=
  ClipState.ext List.filter_map rfl

theorem store_untimed (s : ClipState) (now : SystemTime) (hc : content.Classified) :
    s.untimed.store 0 content hc = (s.store now content hc).untimed := by
  refine ClipState.ext ?_ rfl
  change _ = List.map _ (Bounded.push ..)
  rw [Bounded.push, Bounded.map_popWhileOver, List.map_append]
  rfl

theorem addGrouped_untimed (hasher textHasher : Hasher String Bytes) (now : SystemTime)
    (s : ClipState) (blobs : Blobs) :
    addGrouped hasher textHasher 0 s.untimed blobs =
      ((addGrouped hasher textHasher now s blobs).1,
        (addGrouped hasher textHasher now s blobs).2.untimed) := by
  unfold addGrouped
  rw [latest_untimed]
  split
  · rfl
  · split
    · rfl
    · rw [store_untimed s now]
      rfl

end ClipState

-- ---------------------------------------------------------------------------
-- A pass
-- ---------------------------------------------------------------------------

theorem dispatchPending_untimed (io : RequestIo) (s : AppState) (events : List Event) :
    dispatchPending io s.untimed events = (dispatchPending io s events).untimed := by
  have hstart : Drained [] [] s.clipboard.untimed s s.untimed := ⟨s.pendingReads, rfl, rfl⟩
  obtain ⟨rest, hreads, hs⟩ := hstart.dispatchPending io fun _ _ _ _ => List.not_mem_nil
  rw [hs, AppState.untimed, dispatchPending_clipboard]
  cases hreads
  rfl

theorem storeCopy_untimed (env : DrainEnv) (grouped : HashMap Nat Blobs) (s : AppState)
    (outcomes : List ReadOutcome) (offerId : Nat) :
    storeCopy env.untimed grouped (s.untimed, outcomes) offerId =
      ((storeCopy env grouped (s, outcomes) offerId).1.untimed,
        (storeCopy env grouped (s, outcomes) offerId).2) := by
  have hadd := ClipState.addGrouped_untimed (env.hasher offerId) (env.textHasher offerId)
    (env.now offerId) s.clipboard (grouped[offerId]?.getD ∅)
  have happ : (s.untimed.removeOffer offerId).clipboard = s.clipboard.untimed := rfl
  have happ' : (s.removeOffer offerId).clipboard = s.clipboard := rfl
  simp only [storeCopy, happ, happ', DrainEnv.untimed, hadd]
  split
  · rfl
  · rcases ClipState.addGrouped (env.hasher offerId) (env.textHasher offerId) (env.now offerId)
      s.clipboard (grouped[offerId]?.getD ∅) with ⟨_ | entryId, clipboard⟩
    · rfl
    · simp only [ClipState.get_untimed]
      cases clipboard.get entryId <;> rfl

theorem drainPendingReads_untimed (env : DrainEnv) (s : AppState) :
    drainPendingReads env.untimed s.untimed =
      ((drainPendingReads env s).1.untimed, (drainPendingReads env s).2) := by
  have hfold (grouped : HashMap Nat Blobs) (order : List Nat)
      (acc : AppState × List ReadOutcome) :
      order.foldl (storeCopy env.untimed grouped) (acc.map AppState.untimed id) =
        (order.foldl (storeCopy env grouped) acc).map AppState.untimed id :=
    List.foldl_hom _ fun acc offerId => storeCopy_untimed env grouped acc.1 acc.2 offerId
  exact hfold _ _ ({ s with pendingReads := [] }, _)

variable (clock : Clock)

theorem announce_untimed (d : Daemon) (e : ClipboardEntry) :
    d.untimed.announce e.untimed = (d.announce e).untimed := by
  have hsnap : pushSummary (d.snapshot.map (·.untimed)) (EntrySummary.of e).untimed =
      (pushSummary d.snapshot (.of e)).map (·.untimed) := by
    rw [pushSummary, pushSummary, Bounded.push, Bounded.push, Bounded.map_popWhileOver,
      List.map_append]
    rfl
  simp only [Daemon.announce, EntrySummary.of_untimed, Daemon.untimed, hsnap, List.map_append]
  rfl

theorem outcome_untimed (d : Daemon) (outcome : ReadOutcome) :
    d.untimed.outcome clock outcome = (d.outcome clock outcome).untimed := by
  cases outcome with
  | stored entryId mime =>
    simp only [Daemon.outcome]
    have hget : d.untimed.app.clipboard.get entryId =
        (d.app.clipboard.get entryId).map (·.untimed) := ClipState.get_untimed ..
    rw [hget]
    cases d.app.clipboard.get entryId with
    | none => rfl
    | some entry =>
      by_cases hecho : isEcho (clock.reading (d.ticks + 1))
        (pruneEcho (clock.reading d.ticks) d.expectEcho) entry.preview
      · refine (if_pos hecho).trans (.trans ?_ (congrArg Daemon.untimed (if_pos hecho).symm))
        have hremove : (d.untimed.app.clipboard.remove entryId).2 =
            (d.app.clipboard.remove entryId).2.untimed := ClipState.remove_untimed ..
        rw [hremove]
        rfl
      · refine (if_neg hecho).trans (.trans ?_ (congrArg Daemon.untimed (if_neg hecho).symm))
        exact announce_untimed { d with
          expectEcho := pruneEcho (clock.reading d.ticks) d.expectEcho
          ticks := d.ticks + 2 } entry
  | _ => rfl

theorem restoreEntry_untimed (hasher offerHasher : Hasher String Bytes) (s : AppState)
    (entryId : Nat) : s.untimed.restoreEntry hasher offerHasher entryId =
      (s.restoreEntry hasher offerHasher entryId).map AppState.untimed := by
  have hget : s.untimed.clipboard.get entryId = (s.clipboard.get entryId).map (·.untimed) :=
    ClipState.get_untimed ..
  unfold AppState.restoreEntry
  rw [hget]
  cases s.clipboard.get entryId with
  | none => rfl
  | some entry =>
    have hmanager : s.untimed.manager = s.manager := rfl
    have hdevice : s.untimed.device = s.device := rfl
    simp only [Option.map_some, hmanager, hdevice, AppState.publish_eq]
    cases s.manager with
    | none => rfl
    | some _ => cases s.device <;> rfl

theorem handleRestore_untimed (hasher offerHasher : Hasher String Bytes) (d : Daemon)
    (pending : PendingRestore) :
    d.untimed.handleRestore clock hasher offerHasher pending =
      (d.handleRestore clock hasher offerHasher pending).untimed := by
  have hget : d.untimed.app.clipboard.get pending.entryId =
      (d.app.clipboard.get pending.entryId).map (·.untimed) := ClipState.get_untimed ..
  have hrestore : d.untimed.app.restoreEntry hasher offerHasher pending.entryId =
      (d.app.restoreEntry hasher offerHasher pending.entryId).map AppState.untimed :=
    restoreEntry_untimed ..
  unfold Daemon.handleRestore
  rw [hget, hrestore, Option.map_map]
  cases d.app.restoreEntry hasher offerHasher pending.entryId <;> rfl

/-- No pass reads a time stamp. -/
theorem step_untimed (d : Daemon) (pass : Pass) :
    d.untimed.step clock pass.untimed = (d.step clock pass).untimed := by
  have houtcomes (outcomes : List ReadOutcome) (d : Daemon) :
      outcomes.foldl (Daemon.outcome clock) d.untimed =
        (outcomes.foldl (Daemon.outcome clock) d).untimed :=
    List.foldl_hom _ (outcome_untimed clock)
  have hserved (d : Daemon) :
      d.untimed.served clock pass.untimed = (d.served clock pass).untimed :=
    List.foldl_hom _ fun d _ => handleRestore_untimed clock _ _ d _
  have hdispatched : d.untimed.dispatched pass.untimed = (d.dispatched pass).untimed :=
    congrArg (fun app => { d.untimed with app }) (dispatchPending_untimed pass.io d.app pass.events)
  have hdrained (d : Daemon) : d.untimed.drained pass.untimed =
      ((d.drained pass).1.untimed, (d.drained pass).2) := by
    have hdrain : drainPendingReads pass.untimed.drain d.untimed.app = _ :=
      drainPendingReads_untimed pass.drain d.app
    simp only [Daemon.drained, hdrain]
    rfl
  rw [Daemon.step, Daemon.step, hdispatched, hdrained]
  exact (congrArg (Daemon.served clock · pass.untimed) (houtcomes _ _)).trans (hserved _)

theorem run_untimed (d : Daemon) (passes : List Pass) :
    d.untimed.run clock (passes.map Pass.untimed) = (d.run clock passes).untimed :=
  List.foldl_map.trans (List.foldl_hom _ (step_untimed clock))

-- ---------------------------------------------------------------------------
-- The copies
-- ---------------------------------------------------------------------------

theorem accepted_untimed (env : DrainEnv) (last : Option ClipboardContent) (nextId : Nat)
    (l : List (Nat × Blobs)) :
    accepted env.untimed last nextId l = (accepted env last nextId l).map (·.untimed) := by
  induction l generalizing last nextId with
  | nil => rfl
  | cons copy l ih =>
    obtain ⟨offerId, blobs⟩ := copy
    have hfrom : fromBlobs (env.untimed.hasher offerId) (env.untimed.textHasher offerId) blobs =
        fromBlobs (env.hasher offerId) (env.textHasher offerId) blobs := rfl
    simp only [accepted, hfrom, ih]
    cases fromBlobs (env.hasher offerId) (env.textHasher offerId) blobs with
    | none => rfl
    | some content =>
      dsimp only
      split <;> rfl

theorem arrivals_untimed (d : Daemon) (pass : Pass) :
    d.untimed.arrivals pass.untimed = (d.arrivals pass).map (·.untimed) := by
  have happ : (d.untimed.dispatched pass.untimed).app = (d.dispatched pass).app.untimed :=
    dispatchPending_untimed ..
  rw [Daemon.arrivals, AppState.arrivals, happ]
  exact (congrArg (accepted _ · _ _) (ClipState.latest_untimed _)).trans (accepted_untimed ..)

end Uclip
