import Uclip.Mirror
import Uclip.Provenance

/-!
# The books of a run

Every copy that a run stores is announced once, or swallowed as an echo, or
evicted by the copies of its own pass. What is swallowed is paid for by the
restores: in their order, each lets one copy of its preview go missing.
-/

namespace Uclip

structure Books where
  announced : List ClipboardEntry := []
  swallowed : List ClipboardEntry := []
  lost : List ClipboardEntry := []
  restored : List ClipboardEntry := []

def Books.copies (b : Books) : List ClipboardEntry := b.announced ++ b.swallowed ++ b.lost

def DaemonResponse.restoredId : DaemonResponse → Option Nat
  | .restored entryId => some entryId
  | _ => none

/-- The entries of the restores that succeeded. -/
structure Restores (d : Daemon) (b : Books) : Prop where
  ids : b.restored.map (·.id) = d.replies.filterMap (·.2.restoredId)
  announced : b.restored ⊆ b.announced
  /-- The restores pay for what was swallowed, and the last one for the flag. -/
  paid : (b.swallowed.map (·.preview) ++ (d.expectEcho.map (·.2)).toList).Sublist
    (b.restored.map (·.preview))

structure Balanced (d : Daemon) (b : Books) : Prop extends Restores d b where
  events : d.events = b.announced.map fun e => .entryAdded (.of e)
  /-- Every id that was handed out is in the books once. -/
  once : (b.copies.map (·.id)).Perm (List.range' 1 b.copies.length)
  count : d.app.clipboard.nextId = 1 + b.copies.length
  held : d.history ⊆ b.announced

variable (clock : Clock) {d d' : Daemon} {pass : Pass} {b : Books}

-- ---------------------------------------------------------------------------
-- Restores
-- ---------------------------------------------------------------------------

theorem Balanced.handleRestore (h : Balanced d b) (hasher offerHasher : Hasher String Text.Bytes)
    (pending : PendingRestore) : ∃ restored,
      Balanced (d.handleRestore clock hasher offerHasher pending) { b with restored } := by
  obtain ⟨hclip, -, -, hevents, -⟩ := handleRestore_effect clock hasher offerHasher d pending
  have hheld : (d.handleRestore clock hasher offerHasher pending).history ⊆ b.announced := by
    rw [Daemon.history, hclip]
    exact h.held
  have hcount := (congrArg (·.nextId) hclip).trans h.count
  suffices ∃ restored, Restores (d.handleRestore clock hasher offerHasher pending)
      { b with restored } by
    obtain ⟨restored, hrestores⟩ := this
    exact ⟨restored, hrestores, hevents.trans h.events, h.once, hcount, hheld⟩
  rcases handleRestore_cases clock hasher offerHasher d pending with
    ⟨entry, app, hget, -, hd⟩ | ⟨err, -, hd⟩ <;> rw [hd]
  · obtain ⟨hmem, hid⟩ := ClipState.mem_of_get hget
    refine ⟨b.restored ++ [entry], ?_, ?_, ?_⟩
    · simp [h.ids, hid, DaemonResponse.restoredId]
    · exact List.append_subset.mpr ⟨h.announced, by simpa using h.held hmem⟩
    · rw [List.map_append]
      exact ((List.sublist_append_left ..).trans h.paid).append (.refl _)
  · refine ⟨b.restored, ?_, h.announced, h.paid⟩
    simp [h.ids, DaemonResponse.restoredId, DaemonResponse.ofError]

theorem Balanced.served (h : Balanced d b) (pass : Pass) :
    ∃ restored, Balanced (d.served clock pass) { b with restored } := by
  unfold Daemon.served
  induction pass.requests generalizing d b with
  | nil => exact ⟨b.restored, h⟩
  | cons request requests ih =>
    obtain ⟨pending, hasher, offerHasher⟩ := request
    obtain ⟨_, hnext⟩ := h.handleRestore clock hasher offerHasher pending
    obtain ⟨restored, hrest⟩ := ih hnext
    exact ⟨restored, hrest⟩

-- ---------------------------------------------------------------------------
-- Arrivals
-- ---------------------------------------------------------------------------

def Daemon.evicted (d : Daemon) (pass : Pass) : List ClipboardEntry :=
  (d.arrivals pass).filter (· ∉ (d.filled pass).history)

theorem filter_eq_toList [DecidableEq α] {xs : List α} (hn : xs.Nodup) {o : Option α}
    (ho : ∀ x, o = some x → x ∈ xs) : xs.filter (o = some ·) = o.toList := by
  cases o with
  | none => simp
  | some x =>
    have hone : xs.filter (· = x) = [x] := by
      rw [List.filter_eq, List.count_eq_one_of_mem hn (ho x rfl), List.replicate_one]
    simpa [eq_comm] using hone

theorem arrivals_perm (d : Daemon) (pass : Pass) :
    (d.passAnnounced clock pass ++ (d.passEcho clock pass).toList ++ d.evicted pass).Perm
      (d.arrivals pass) := by
  have hheld (e : ClipboardEntry) (he : d.passEcho clock pass = some e) :
      e ∈ (d.arrivals pass).filter (· ∈ (d.filled pass).history) := by
    obtain ⟨hmem, hheld, -⟩ := firstEcho_eq_some clock he
    exact List.mem_filter.mpr ⟨hmem, decide_eq_true hheld⟩
  have hecho := filter_eq_toList ((nodup_arrivals d pass).filter _) hheld
  have hann : d.passAnnounced clock pass =
      ((d.arrivals pass).filter (· ∈ (d.filled pass).history)).filter
        fun e => ! decide (d.passEcho clock pass = some e) := by
    rw [Daemon.passAnnounced, Daemon.announced, List.filter_filter]
    refine List.filter_congr fun e _ => ?_
    rw [Bool.decide_and, Bool.and_comm, decide_not]
    rfl
  rw [← hecho, hann]
  refine ((List.perm_append_comm.trans (List.filter_append_perm _ _)).append_right _).trans ?_
  simp only [Daemon.evicted, decide_not]
  exact List.filter_append_perm _ _

-- ---------------------------------------------------------------------------
-- A pass
-- ---------------------------------------------------------------------------

def Books.post (b : Books) (clock : Clock) (d : Daemon) (pass : Pass) : Books where
  announced := b.announced ++ d.passAnnounced clock pass
  swallowed := b.swallowed ++ (d.passEcho clock pass).toList
  lost := b.lost ++ d.evicted pass
  restored := b.restored

theorem post_copies (b : Books) (d : Daemon) (pass : Pass) :
    (b.post clock d pass).copies.Perm (b.copies ++ d.arrivals pass) := by
  refine .trans ?_ ((arrivals_perm clock d pass).append_left _)
  rw [List.perm_iff_count]
  intro e
  simp only [Books.copies, Books.post, List.count_append]
  omega

theorem id_arrivals (d : Daemon) (pass : Pass) : (d.arrivals pass).map (·.id) =
    List.range' d.app.clipboard.nextId (d.arrivals pass).length := by
  have hclip : (d.dispatched pass).app.clipboard = d.app.clipboard := dispatchPending_clipboard ..
  refine (map_id_accepted ..).trans ?_
  rw [hclip, Daemon.arrivals, AppState.arrivals, hclip]

/-- What the outcome loop leaves is what was announced, swallowed and evicted. -/
theorem Balanced.post (h : Balanced d b) (pass : Pass)
    (ho : OutcomeEffect clock (d.filled pass) (d.arrivals pass) d') :
    Balanced d' (b.post clock d pass) := by
  have hcopies := post_copies clock b d pass
  have hlength : (b.post clock d pass).copies.length =
      b.copies.length + (d.arrivals pass).length := by
    rw [hcopies.length_eq, List.length_append]
  obtain ⟨clipboard, happ, hnext⟩ := ho.app
  refine ⟨⟨?_, ?_, ?_⟩, ?_, ?_, ?_, ?_⟩
  · rw [ho.replies]
    exact h.ids
  · exact List.Subset.trans h.announced (List.subset_append_left ..)
  · cases hecho : d.passEcho clock pass with
    | none =>
      have hflag : (d'.expectEcho.map (·.2)).toList.Sublist (d.expectEcho.map (·.2)).toList := by
        rcases ho.expectEcho with hf | ⟨hf, -⟩ <;> rw [hf]
        · exact List.nil_sublist _
        · exact .refl _
      rw [Books.post, hecho, Option.toList_none, List.append_nil]
      exact ((List.Sublist.refl _).append hflag).trans h.paid
    | some e =>
      -- The echo uses up the flag, which names its preview.
      obtain ⟨-, -, armed, hflag⟩ := firstEcho_eq_some clock hecho
      have hpaid := h.paid
      have hused : d'.expectEcho = none := by
        rcases ho.expectEcho with hused | ⟨-, hnone⟩
        · exact hused
        · cases hecho.symm.trans hnone
      rw [show d.expectEcho = some (armed, e.preview) from hflag] at hpaid
      simpa [Books.post, hecho, hused] using hpaid
  · rw [ho.events, Books.post, List.map_append, ← h.events]
    rfl
  · rw [hlength, ← List.range'_append_1, ← h.count, ← id_arrivals]
    exact (hcopies.map _).trans (List.map_append ▸ h.once.append_right _)
  · rw [hlength, ← Nat.add_assoc, ← h.count, ← filled_nextId, ← hnext, happ]
  · intro e he
    rw [ho.history, List.mem_filter, decide_eq_true_iff, filled_history] at he
    obtain ⟨hmem, hne⟩ := he
    rcases List.mem_append.mp ((Bounded.popWhileOver_sublist _).subset hmem) with hold | hnew
    · exact List.mem_append_left _ (h.held hold)
    · refine List.mem_append_right _ ?_
      rw [passAnnounced_eq, List.mem_filter, decide_eq_true_iff]
      exact ⟨hnew, hmem, hne⟩

theorem Balanced.step (h : Balanced d b) (pass : Pass) : ∃ restored,
    Balanced (d.step clock pass) { b.post clock d pass with restored } := by
  rw [step_eq]
  exact Balanced.served clock (h.post clock pass (outcomes_effect clock (d.arrivals pass)
    (arrivals_pairwise d pass) (d.filled pass) (namedBy_arrivals d pass))) pass

-- ---------------------------------------------------------------------------
-- Runs
-- ---------------------------------------------------------------------------

def Daemon.runArrivals (clock : Clock) (d : Daemon) : List Pass → List ClipboardEntry
  | [] => []
  | pass :: passes => d.arrivals pass ++ (d.step clock pass).runArrivals clock passes

end Uclip
