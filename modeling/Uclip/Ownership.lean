import Uclip.DrainLaws
import Uclip.Effects
import Uclip.Lib.Ledger
import Uclip.Lib.System
import Uclip.StoreLaws

/-!
# The data source the daemon owns

A restore creates a source and owns it until the next restore replaces it or
the compositor cancels it. Over every order of restores, events, drains and
history calls, the sources that were created and not destroyed are exactly the
one the state holds.
-/

namespace Uclip

open Text (Bytes)

/-- A method that can fail: it works on the state in place, so that a failure
keeps what was done before it. -/
abbrev AppM := ExceptT ClipboardError (StateM AppState)

/-- `restore_entry` in place, with the state that a failure leaves, of which
`restoreEntry` says nothing. -/
def AppState.restore (hasher offerHasher : Hasher String Bytes) (entryId : Nat) : AppM Unit := do
  let some entry := (← get).clipboard.get entryId | throw (.entryNotFound entryId)
  let contents := entry.content.representations
  let some _ := (← get).manager | throw .noManager
  let some _ := (← get).device | throw .noDevice
  let contents := if entry.content.hasText then topUpAliases hasher contents else contents
  let source := (← get).created
  modify fun s => { s with created := s.created + 1 }.send (.createDataSource source ⟨contents⟩)
  (offerHasher.keys contents).forM fun mime => modify (·.send (.offer source mime))
  modify (·.send (.setSelection source))
  if let some old ← modifyGet (·.replaceSource source) then modify (·.send (.destroySource old))

def Request.creates : Request → Option Source
  | .createDataSource source _ => some source
  | _ => none

def Request.destroys : Request → Option Source
  | .destroySource source => some source
  | _ => none

def AppState.createdSources (s : AppState) : List Source := s.requests.filterMap Request.creates

def AppState.destroyedSources (s : AppState) : List Source :=
  s.requests.filterMap Request.destroys

inductive SourceOp
  | restore (hasher offerHasher : Hasher String Bytes) (entryId : Nat)
  | handle (io : RequestIo) (event : Event)
  | drain (env : DrainEnv)
  | history (op : StoreOp)

/-- `Cancelled` may come for any source of ours, whenever it was created. -/
def SourceOp.Allowed (s : AppState) : SourceOp → Prop
  | .handle _ (.cancelled source) => source < s.created
  | _ => True

def SourceOp.apply (s : AppState) : SourceOp → AppState
  | .restore hasher offerHasher entryId => ((AppState.restore hasher offerHasher entryId).run s).2
  | .handle io event => dispatch io s event
  | .drain env => (drainPendingReads env s).1
  | .history op => { s with clipboard := (op.call s.clipboard).2 }

def sourceSystem : System AppState SourceOp where
  init s := s.created = 0 ∧ s.currentSource = none ∧ s.requests = []
  step s op s' := op.Allowed s ∧ s' = op.apply s

structure SourceOwnership (s : AppState) : Prop where
  owned : ∀ source, source ∈ s.createdSources ∧ source ∉ s.destroyedSources ↔
    s.currentSource = some source
  once : s.destroyedSources.Nodup
  /-- A restore destroys a source after it has set the selection to the replacement. -/
  replaced : ∀ hasher offerHasher entryId s',
    (AppState.restore hasher offerHasher entryId).run s = (.ok (), s') →
    s'.currentSource = some s.created ∧ ∃ sent, s'.requests = s.requests ++ sent ∧
      ∀ before old after, sent = before ++ .destroySource old :: after →
        s.currentSource = some old ∧ .setSelection s.created ∈ before
  /-- A `Cancelled` for another source than the current one does nothing. -/
  stale : ∀ io source, s.currentSource ≠ some source → dispatch io s (.cancelled source) = s
  failed : ∀ hasher offerHasher entryId err s',
    (AppState.restore hasher offerHasher entryId).run s = (.error err, s') → s' = s

-- ---------------------------------------------------------------------------
-- A restore
-- ---------------------------------------------------------------------------

theorem run_bind (x : AppM α) (f : α → AppM β) (s : AppState) :
    (x >>= f).run s =
      match x.run s with
      | (.ok a, s') => (f a).run s'
      | (.error err, s') => (.error err, s') := by
  change ExceptT.bindCont f (x.run s).1 (x.run s).2 = _
  rcases x.run s with ⟨_ | a, s'⟩ <;> rfl

@[simp] theorem run_pure (a : α) (s : AppState) : (pure a : AppM α).run s = (.ok a, s) := rfl

@[simp] theorem run_throw (err : ClipboardError) (s : AppState) :
    (throw err : AppM α).run s = (.error err, s) := rfl

@[simp] theorem run_get (s : AppState) : (get : AppM AppState).run s = (.ok s, s) := rfl

@[simp] theorem run_modify (f : AppState → AppState) (s : AppState) :
    (modify f : AppM PUnit).run s = (.ok ⟨⟩, f s) := rfl

@[simp] theorem run_modifyGet (f : AppState → α × AppState) (s : AppState) :
    (modifyGet f : AppM α).run s = (.ok (f s).1, (f s).2) := rfl

theorem run_forM_send (source : Source) (mimes : List String) (s : AppState) :
    (mimes.forM (m := AppM) fun mime => modify (·.send (.offer source mime))).run s =
      (.ok (), mimes.foldl (fun s mime => s.send (.offer source mime)) s) := by
  induction mimes generalizing s with
  | nil => rfl
  | cons mime mimes ih => exact ih _

/-- The steps of a restore make the state `restoreEntry` returns; a failure
makes none. -/
theorem restore_run (hasher offerHasher : Hasher String Bytes) (entryId : Nat) (s : AppState) :
    (AppState.restore hasher offerHasher entryId).run s =
      match s.restoreEntry hasher offerHasher entryId with
      | .ok s' => (.ok (), s')
      | .error err => (.error err, s) := by
  unfold AppState.restore AppState.restoreEntry
  cases hget : s.clipboard.get entryId with
  | none => simp [run_bind, hget]
  | some entry =>
    cases hm : s.manager with
    | none => simp [run_bind, hget, hm]
    | some m =>
      cases hd : s.device with
      | none => simp [run_bind, hget, hm, hd]
      | some d =>
        simp only [run_bind, run_get, hget, hm, hd, run_modify, run_forM_send, run_modifyGet,
          AppState.publish, AppState.sourceContents]
        generalize AppState.replaceSource _ s.created = replaced
        rcases replaced with ⟨_ | old, s'⟩ <;> rfl

theorem restore_eq_ok {s s' : AppState}
    (h : (AppState.restore hasher offerHasher entryId).run s = (.ok (), s')) :
    ∃ contents, s' = { s with
      requests := s.requests ++
        AppState.publishRequests s.created contents (offerHasher.keys contents) s.currentSource
      created := s.created + 1
      currentSource := some s.created } := by
  rw [restore_run] at h
  split at h
  · rename_i _ hok
    cases h
    obtain ⟨entry, -, -, -, rfl⟩ := AppState.restoreEntry_eq_ok hok
    exact ⟨_, AppState.publish_eq ..⟩
  · cases h

theorem restore_eq_error {s s' : AppState}
    (h : (AppState.restore hasher offerHasher entryId).run s = (.error err, s')) : s' = s := by
  rw [restore_run] at h
  split at h
  · cases h
  · cases h
    rfl

theorem destroy_of_publishRequests
    (h : AppState.publishRequests source contents mimes current =
      before ++ .destroySource old :: after) :
    current = some old ∧ .setSelection source ∈ before := by
  rw [AppState.publishRequests, List.append_cons (mimes.map (Request.offer source)),
    ← List.cons_append] at h
  have hlast {rest : List Request} (hrest : current.toList.map Request.destroySource =
      rest ++ .destroySource old :: after) : current = some old := by
    cases current with
    | none => simp at hrest
    | some current =>
      cases rest with
      | nil =>
        cases hrest
        rfl
      | cons request rest => simp at hrest
  rcases List.append_eq_append_iff.mp h with ⟨rest, rfl, htail⟩ | ⟨rest, hhead, htail⟩
  · exact ⟨hlast htail, by simp⟩
  · cases rest with
    | nil =>
      rw [List.append_nil] at hhead
      have hnil : current.toList.map Request.destroySource = [] ++ .destroySource old :: after :=
        htail.symm
      exact ⟨hlast hnil, by simp [← hhead]⟩
    | cons request rest =>
      obtain rfl : .destroySource old = request := (List.cons.inj htail).1
      have hmem : Request.destroySource old ∈ Request.createDataSource source ⟨contents⟩ ::
          (mimes.map (Request.offer source) ++ [.setSelection source]) := by
        rw [hhead]
        simp
      simp at hmem

-- ---------------------------------------------------------------------------
-- The ledger of sources
-- ---------------------------------------------------------------------------

/-- Sources are numbered by creation, and the ledger is balanced by the one held. -/
structure SourceLedger (s : AppState) : Prop where
  created : s.createdSources = List.range s.created
  balanced : Ledger.Balanced s.createdSources s.destroyedSources (s.currentSource = some ·)

structure SameSources (s s' : AppState) : Prop where
  created : s'.created = s.created
  createdSources : s'.createdSources = s.createdSources
  destroyedSources : s'.destroyedSources = s.destroyedSources
  currentSource : s'.currentSource = s.currentSource

theorem SourceLedger.same {s s' : AppState} (h : SourceLedger s) (hs : SameSources s s') :
    SourceLedger s' := by
  obtain ⟨hcreated, hbalanced⟩ := h
  refine ⟨?_, ?_⟩
  · rw [hs.createdSources, hs.created, hcreated]
  · rw [hs.createdSources, hs.destroyedSources, hs.currentSource]
    exact hbalanced

namespace SameSources

variable {s s' s'' : AppState}

theorem refl (s : AppState) : SameSources s s := ⟨rfl, rfl, rfl, rfl⟩

theorem trans (h : SameSources s s') (h' : SameSources s' s'') : SameSources s s'' :=
  ⟨h'.created.trans h.created, h'.createdSources.trans h.createdSources,
    h'.destroyedSources.trans h.destroyedSources, h'.currentSource.trans h.currentSource⟩

theorem of_sent {sent : List Request} (hn : s'.created = s.created)
    (hc : s'.currentSource = s.currentSource) (hr : s'.requests = s.requests ++ sent)
    (hs : ∀ request ∈ sent, request.creates = none ∧ request.destroys = none) :
    SameSources s s' := by
  have hcreates : sent.filterMap Request.creates = [] :=
    List.filterMap_eq_nil_iff.mpr fun request h => (hs request h).1
  have hdestroys : sent.filterMap Request.destroys = [] :=
    List.filterMap_eq_nil_iff.mpr fun request h => (hs request h).2
  refine ⟨hn, ?_, ?_, hc⟩
  · rw [AppState.createdSources, hr, List.filterMap_append, hcreates, List.append_nil]
    rfl
  · rw [AppState.destroyedSources, hr, List.filterMap_append, hdestroys, List.append_nil]
    rfl

theorem of_eq (hn : s'.created = s.created) (hc : s'.currentSource = s.currentSource)
    (hr : s'.requests = s.requests) : SameSources s s' := by
  have hnone : s'.requests = s.requests ++ [] := by rw [hr, List.append_nil]
  exact of_sent hn hc hnone (by simp)

theorem of_effect {io : RequestIo} {event : Event} (h : Effect io event s s')
    (hne : ∀ source, event ≠ .cancelled source) : SameSources s s' := by
  cases h with
  | clear => exact of_sent rfl rfl rfl (by simp [Request.creates, Request.destroys])
  | ask => exact of_sent rfl rfl rfl (by simp [Request.creates, Request.destroys])
  | cancel source hev => exact absurd hev (hne source)
  | _ => exact of_eq rfl rfl rfl

theorem dispatch (io : RequestIo) (s : AppState) (event : Event)
    (hne : ∀ source, event ≠ .cancelled source) : SameSources s (dispatch io s event) :=
  dispatch_induct (P := SameSources s) (refl s) fun _ _ h he => h.trans (of_effect he hne)

end SameSources

theorem SourceLedger.cancelled {s : AppState} (h : SourceLedger s) (io : RequestIo)
    (source : Source) : SourceLedger (dispatch io s (.cancelled source)) := by
  by_cases hcurrent : s.currentSource = some source
  · rw [dispatch_cancelled io hcurrent]
    have hcreates : (s.requests ++ [Request.destroySource source]).filterMap Request.creates =
        s.createdSources := by simp [Request.creates, AppState.createdSources]
    have hdestroys : (s.requests ++ [Request.destroySource source]).filterMap Request.destroys =
        s.destroyedSources ++ [source] := by simp [Request.destroys, AppState.destroyedSources]
    refine ⟨hcreates.trans h.created, ?_⟩
    rw [AppState.createdSources, AppState.destroyedSources, hcreates, hdestroys]
    refine (h.balanced.remove hcurrent).congr fun other => ?_
    rw [hcurrent, Option.some.injEq]
    simp [eq_comm]
  · rw [dispatch_cancelled_of_ne io hcurrent]
    exact h

theorem creates_publishRequests :
    (AppState.publishRequests source contents mimes old).filterMap Request.creates = [source] := by
  have hoffers : (mimes.map (Request.offer source)).filterMap Request.creates = [] :=
    List.filterMap_eq_nil_iff.mpr (by simp [Request.creates])
  rw [AppState.publishRequests, List.filterMap_cons, List.filterMap_append, hoffers]
  cases old <;> rfl

theorem destroys_publishRequests :
    (AppState.publishRequests source contents mimes old).filterMap Request.destroys =
      old.toList := by
  have hoffers : (mimes.map (Request.offer source)).filterMap Request.destroys = [] :=
    List.filterMap_eq_nil_iff.mpr (by simp [Request.destroys])
  rw [AppState.publishRequests, List.filterMap_cons, List.filterMap_append, hoffers]
  cases old <;> rfl

theorem SourceLedger.published {s : AppState} (h : SourceLedger s) (contents : Blobs)
    (mimes : List String) :
    SourceLedger { s with
      requests := s.requests ++
        AppState.publishRequests s.created contents mimes s.currentSource
      created := s.created + 1
      currentSource := some s.created } := by
  have hcreates : (s.requests ++ AppState.publishRequests s.created contents mimes
      s.currentSource).filterMap Request.creates = s.createdSources ++ [s.created] := by
    rw [List.filterMap_append, creates_publishRequests]
    rfl
  have hdestroys : (s.requests ++ AppState.publishRequests s.created contents mimes
      s.currentSource).filterMap Request.destroys =
        s.destroyedSources ++ s.currentSource.toList := by
    rw [List.filterMap_append, destroys_publishRequests]
    rfl
  have hnew : s.created ∉ s.createdSources := by
    rw [h.created]
    simp
  refine ⟨?_, ?_⟩
  · rw [AppState.createdSources, hcreates, h.created, List.range_succ]
  · rw [AppState.createdSources, AppState.destroyedSources, hcreates, hdestroys]
    have hadded := h.balanced.add hnew
    cases hcurrent : s.currentSource with
    | none =>
      rw [Option.toList_none, List.append_nil]
      exact hadded.congr fun source => by simp [hcurrent, eq_comm]
    | some old =>
      refine (hadded.remove (.inl hcurrent)).congr fun source => ?_
      have hold : old ∈ s.createdSources := ((h.balanced.live old).mpr hcurrent).1
      have hne : s.created ≠ old := fun heq => hnew (heq ▸ hold)
      rw [hcurrent, Option.some.injEq, Option.some.injEq]
      constructor
      · rintro ⟨rfl | rfl, hsource⟩
        · exact absurd rfl hsource
        · rfl
      · rintro rfl
        exact ⟨.inr rfl, hne⟩

theorem SourceLedger.step {s s' : AppState} (h : SourceLedger s)
    (hstep : sourceSystem.step s op s') : SourceLedger s' := by
  obtain ⟨-, rfl⟩ := hstep
  cases op with
  | restore hasher offerHasher entryId =>
    rcases hrun : (AppState.restore hasher offerHasher entryId).run s with ⟨_ | _, s'⟩
    · rw [SourceOp.apply, hrun, restore_eq_error hrun]
      exact h
    · rw [SourceOp.apply, hrun]
      obtain ⟨contents, rfl⟩ := restore_eq_ok hrun
      exact h.published contents _
  | handle io event =>
    by_cases hcancelled : ∃ source, event = .cancelled source
    · obtain ⟨source, rfl⟩ := hcancelled
      exact h.cancelled io source
    · exact h.same (.dispatch io s event fun source heq => hcancelled ⟨source, heq⟩)
  | drain env =>
    obtain ⟨_, _, hdrain⟩ := drain_frame env s
    rw [SourceOp.apply, hdrain]
    exact h.same (.of_eq rfl rfl rfl)
  | history op => exact h.same (.of_eq rfl rfl rfl)

/-- Over every run, the source held is the one created and not destroyed. -/
theorem source_ownership {s : AppState} (h : sourceSystem.Reachable s) : SourceOwnership s := by
  have hledger : SourceLedger s := by
    refine h.induct (fun s hinit => ?_) fun s op s' _ hledger hstep => hledger.step hstep
    obtain ⟨hcreated, hcurrent, hrequests⟩ := hinit
    refine ⟨?_, ?_⟩
    · rw [AppState.createdSources, hrequests, hcreated]
      rfl
    · rw [AppState.createdSources, AppState.destroyedSources, hrequests]
      exact Ledger.Balanced.empty.congr fun source => by simp [hcurrent]
  refine ⟨hledger.balanced.live, hledger.balanced.closed_nodup, ?_, ?_, ?_⟩
  · intro hasher offerHasher entryId s' hrun
    obtain ⟨contents, rfl⟩ := restore_eq_ok hrun
    exact ⟨rfl, _, rfl, fun before old after hsent => destroy_of_publishRequests hsent⟩
  · intro io source hne
    exact dispatch_cancelled_of_ne io hne
  · intro hasher offerHasher entryId err s' hrun
    exact restore_eq_error hrun

theorem reachable_apply {s : AppState} (h : sourceSystem.Reachable s) (op : SourceOp)
    (hop : op.Allowed s) : sourceSystem.Reachable (op.apply s) :=
  h.next ⟨hop, rfl⟩

def restoredTwice : AppState :=
  [.history (.addGrouped .sorted .sorted 0 (blobsOf [("text/plain", [0x68, 0x69])])),
    .restore .sorted .sorted 1, .restore .sorted .sorted 1].foldl SourceOp.apply
      { AppState.new with manager := some 0, device := some 0 }

theorem second_source_owned :
    restoredTwice.currentSource = some 1 ∧
      SourceOwnership (dispatch {} restoredTwice (.cancelled 0)) := by
  refine ⟨by decide +kernel, source_ownership ?_⟩
  have hstart : sourceSystem.Reachable { AppState.new with manager := some 0, device := some 0 } :=
    .start ⟨rfl, rfl, rfl⟩
  have hcopied := reachable_apply hstart
    (.history (.addGrouped .sorted .sorted 0 (blobsOf [("text/plain", [0x68, 0x69])]))) trivial
  have hrestored := reachable_apply hcopied (.restore .sorted .sorted 1) trivial
  have hagain := reachable_apply hrestored (.restore .sorted .sorted 1) trivial
  have hallowed : 0 < restoredTwice.created := by decide +kernel
  exact reachable_apply hagain (.handle {} (.cancelled 0)) hallowed

end Uclip
