import Mathlib
import Uclip.Provenance

/-!
# What is asked of an offer

Over a run that follows the protocol the daemon asks each offer that is selected
for the types it picks of what the compositor announced of it, once each, and no
other offer for anything. An entry then has no more payloads than one selection
may ask for, and all that the history holds is bounded.
-/

namespace Uclip

open Text (Bytes)

def Event.announces (offer : Offer) : Event → Option String
  | .offer other mime => if other = offer then some mime else none
  | _ => none

def announcedTo (events : List Event) (offer : Offer) : List String :=
  events.filterMap (Event.announces offer)

def AppState.asked (s : AppState) (offer : Offer) : List String :=
  (s.receives.filter (·.offer = offer)).map (·.mimeType)

/-- Of these types those that get a pipe, when so many pipes were tried before. -/
def askedOver (io : RequestIo) (mimes : List String) (tried : Nat) : List (String × Fd) :=
  (mimes.zipIdx tried).filter fun (_, fd) => io.pipeOk fd

/-- What is known when `done` was handled; `tries` says when the pipes for an
offer were tried. -/
structure Heard (tries : Offer → RequestIo → Nat → Prop) (done : List Event) (s : OfferRun) :
    Prop where
  cached : ∀ offer ∈ s.waiting, s.app.offerMimes offer.protocolId = some (announcedTo done offer)
  unknown : ∀ offer, offer ∉ s.introduced → announcedTo done offer = []
  named : ∀ offer, .selection (some offer) ∈ done → offer ∈ s.introduced ∧ offer ∉ s.waiting
  unasked : ∀ offer, .selection (some offer) ∉ done → s.app.asked offer = []
  asked : ∀ offer, .selection (some offer) ∈ done → ∃ io tried, tries offer io tried ∧
    s.app.asked offer = (askedOver io (pickMimes (announcedTo done offer)) tried).map (·.1)

-- ---------------------------------------------------------------------------
-- Requests
-- ---------------------------------------------------------------------------

variable {io : RequestIo} {event : Event} {s s' : AppState} {offer : Offer}

theorem receives_dispatch (h : ∀ offer, event ≠ .selection (some offer)) :
    (dispatch io s event).receives = s.receives := by
  refine dispatch_induct (P := fun s' => s'.receives = s.receives) rfl fun s₁ _ hs he => ?_
  have hlast (request : Request) (hnone : request.received = none) :
      (s₁.requests ++ [request]).filterMap Request.received = s.receives := by
    rw [List.filterMap_append, List.filterMap_cons, hnone, List.filterMap_nil, List.append_nil]
    exact hs
  cases he with
  | ask offer _ hev => exact absurd hev (h offer)
  | clear => exact hlast _ rfl
  | cancel => exact hlast _ rfl
  | _ => exact hs

theorem askedOver_ok (h : ∀ fd, io.pipeOk fd = true) (mimes : List String)
    (tried : Nat) : (askedOver io mimes tried).map (·.1) = mimes := by
  rw [askedOver, List.filter_eq_self.mpr fun _ _ => h _]
  exact List.zipIdx_map_fst tried mimes

theorem askedOver_sublist (io : RequestIo) (mimes : List String) (tried : Nat) :
    ((askedOver io mimes tried).map (·.1)).Sublist mimes := by
  have hsub := (List.filter_sublist (p := fun (_, fd) => io.pipeOk fd)
    (l := mimes.zipIdx tried)).map (·.1)
  rwa [List.zipIdx_map_fst] at hsub

theorem receives_requestMimes (io : RequestIo) (offer : Offer) (mimes : List String)
    (s : AppState) : (mimes.foldl (requestMime io offer) s).receives =
      s.receives ++ (askedOver io mimes s.pipes).map fun (mime, fd) => ⟨offer, mime, fd⟩ := by
  induction mimes generalizing s with
  | nil => simp [askedOver]
  | cons mime mimes ih =>
    have hpipes : (requestMime io offer s mime).pipes = s.pipes + 1 := by
      simp only [requestMime]
      split
      · split <;> rfl
      · rfl
    rw [List.foldl_cons, ih, hpipes, askedOver, askedOver, List.zipIdx_cons]
    cases hpipe : io.pipeOk s.pipes with
    | false =>
      have hsame : (requestMime io offer s mime).receives = s.receives := by
        simp only [requestMime, hpipe, Bool.false_eq_true, if_false]
        rfl
      rw [hsame, List.filter_cons_of_neg (by simp [hpipe])]
    | true =>
      have hsent : (requestMime io offer s mime).receives =
          s.receives ++ [⟨offer, mime, s.pipes⟩] := by
        have hreq : (requestMime io offer s mime).requests =
            s.requests ++ [.receive offer mime s.pipes] := by
          simp only [requestMime, hpipe, if_true]
          split <;> rfl
        rw [AppState.receives, hreq, List.filterMap_append]
        rfl
      rw [hsent, List.filter_cons_of_pos (by simp [hpipe]), List.map_cons, List.append_assoc]
      rfl

theorem receives_selection (io : RequestIo) {mimes : List String}
    (hfresh : ∀ old, s.currentSelection = some old → old.protocolId ≠ offer.protocolId)
    (hm : s.offerMimes offer.protocolId = some mimes) :
    (dispatch io s (.selection (some offer))).receives = s.receives ++
      (askedOver io (pickMimes mimes) s.pipes).map fun (mime, fd) => ⟨offer, mime, fd⟩ := by
  obtain ⟨_, _, _, hclear, hcache⟩ := clearOther_frame s offer hfresh
  have hcached : ((clearOther s offer).setSelection offer).offerMimes offer.protocolId =
      some mimes := by
    rw [hclear]
    simpa only [AppState.offerMimes, AppState.setSelection, hcache] using hm
  have hpipes : ((clearOther s offer).setSelection offer).pipes = s.pipes := by
    rw [hclear]
    rfl
  have hreceives : ((clearOther s offer).setSelection offer).receives = s.receives := by
    unfold clearOther
    split
    · split
      · rename_i old hsel _
        simp only [AppState.clearSelection, hsel, AppState.receives, AppState.send,
          AppState.removeOffer, AppState.setSelection, List.filterMap_append]
        exact List.append_nil _
      · rfl
    · rfl
  have hev : dispatch io s (.selection (some offer)) =
      (pickMimes mimes).foldl (requestMime io offer) ((clearOther s offer).setSelection offer) := by
    simp only [dispatch, handleSelection, hcached]
  rw [hev, receives_requestMimes, hpipes, hreceives]

theorem asked_of_receives (h : s'.receives = s.receives) (offer : Offer) :
    s'.asked offer = s.asked offer := by
  rw [AppState.asked, h, AppState.asked]

theorem asked_append {made : List Receive} (h : s'.receives = s.receives ++ made)
    (hmade : ∀ r ∈ made, r.offer = offer) :
    s'.asked offer = s.asked offer ++ made.map (·.mimeType) ∧
      ∀ other, other ≠ offer → s'.asked other = s.asked other := by
  refine ⟨?_, fun other hne => ?_⟩
  · have hall : made.filter (·.offer = offer) = made :=
      List.filter_eq_self.mpr fun r hr => decide_eq_true (hmade r hr)
    rw [AppState.asked, h, List.filter_append, List.map_append, hall, AppState.asked]
  · have hnone : made.filter (·.offer = other) = [] :=
      List.filter_eq_nil_iff.mpr fun r hr => by simpa [hmade r hr] using Ne.symm hne
    rw [AppState.asked, h, List.filter_append, hnone, List.append_nil, AppState.asked]

-- ---------------------------------------------------------------------------
-- The cache
-- ---------------------------------------------------------------------------

theorem offerMimes_dispatch {id : Nat}
    (hnew : ∀ offer, event ≠ .dataOffer offer) (hmore : ∀ offer mime, event ≠ .offer offer mime)
    (hid : ∀ old, s.currentSelection = some old → old.protocolId ≠ id) :
    (dispatch io s event).offerMimes id = s.offerMimes id := by
  refine (dispatch_induct (P := fun s' => s'.offerMimes id = s.offerMimes id ∧
    ∀ old, s'.currentSelection = some old → s.currentSelection = some old ∨
      event = .selection (some old)) ⟨rfl, fun _ => .inl⟩ fun s₁ _ hs he => ?_).1
  obtain ⟨hmimes, hsel⟩ := hs
  cases he with
  | cache offer _ hev =>
    rcases hev with hev | ⟨mime, hev⟩
    · exact absurd hev (hnew offer)
    · exact absurd hev (hmore offer mime)
  | clear old hcur hne =>
    have hold := hid old ((hsel old hcur).resolve_right hne)
    refine ⟨?_, fun _ h => by cases h⟩
    rw [← hmimes, AppState.offerMimes, AppState.offerMimes, Std.ExtTreeMap.getElem?_erase,
      if_neg (mt Std.LawfulEqOrd.eq_of_compare hold)]
  | select offer hev =>
    refine ⟨hmimes, ?_⟩
    rintro _ ⟨⟩
    exact .inr hev
  | _ => exact ⟨hmimes, hsel⟩

theorem offerMimes_drain (env : DrainEnv) {id : Nat}
    (h : ∀ read ∈ s.pendingReads, read.offerId ≠ id) :
    (drainPendingReads env s).1.offerMimes id = s.offerMimes id := by
  have hapart : id ∉ refOrder env s.pendingReads := by
    intro hmem
    obtain ⟨read, hread, hid, -⟩ := mem_refOrder.mp hmem
    exact h read hread hid
  rw [AppState.offerMimes, AppState.offerMimes, drain_offers, getElem?_without, if_neg hapart]

-- ---------------------------------------------------------------------------
-- One event
-- ---------------------------------------------------------------------------

variable {tries : Offer → RequestIo → Nat → Prop} {done : List Event} {r r' : OfferRun}

theorem OfferRun.Kept.waiting_ids {dead : List Offer} (h : r.Kept)
    (hdead : dead ⊆ r.app.destroyedOffers) (hd : Distinct r.introduced dead)
    (hw : offer ∈ r.waiting) :
    (∀ other ∈ r.waiting, other.protocolId = offer.protocolId → other = offer) ∧
      ∀ old, r.app.currentSelection = some old → old.protocolId ≠ offer.protocolId := by
  obtain ⟨hintro, halive⟩ := h.ledger.waiting_alive hw
  refine ⟨fun other hother hid => ?_, fun old hold hid => ?_⟩
  · obtain ⟨hintro', halive'⟩ := h.ledger.waiting_alive hother
    exact hd _ hintro' _ hintro (fun hmem => halive' (hdead hmem))
      (fun hmem => halive (hdead hmem)) hid
  · have hheld : old ∈ r.held := by simp [OfferRun.held, hold]
    obtain ⟨hintro', halive'⟩ := (h.ledger.balanced.live old).mpr hheld
    obtain rfl := hd _ hintro' _ hintro (fun hmem => halive' (hdead hmem))
      (fun hmem => halive (hdead hmem)) hid
    have hnodup := h.ledger.nodup
    simp only [OfferRun.held, hold, Option.toList_some, List.cons_append, List.nodup_cons,
       List.mem_append, not_or] at hnodup
    exact hnodup.1.1.2 hw

theorem announcedTo_append (done : List Event) (event : Event) (offer : Offer) :
    announcedTo (done ++ [event]) offer =
      announcedTo done offer ++ (event.announces offer).toList := by
  rw [announcedTo, List.filterMap_append, announcedTo]
  cases h : event.announces offer <;> simp [h]

theorem mem_done_append (done : List Event) {last : Event} (h : event ≠ last) :
    event ∈ done ++ [last] ↔ event ∈ done := by
  simp [h]

theorem Heard.quiet (h : Heard tries done r) (hann : ∀ offer, event.announces offer = none)
    (hsel : ∀ offer, event ≠ .selection (some offer)) (hintro : r.introduced ⊆ r'.introduced)
    (hwait : ∀ offer ∈ r'.waiting, r'.app.offerMimes offer.protocolId =
      some (announcedTo done offer) ∧ (offer ∈ r.introduced → offer ∈ r.waiting))
    (hreq : r'.app.receives = r.app.receives) : Heard tries (done ++ [event]) r' := by
  have hsame (offer : Offer) : announcedTo (done ++ [event]) offer = announcedTo done offer := by
    rw [announcedTo_append, hann, Option.toList_none, List.append_nil]
  have hasked := asked_of_receives hreq
  have hdone (offer : Offer) := mem_done_append done (hsel offer).symm
  refine ⟨?_, ?_, ?_, ?_, ?_⟩
  · intro offer hmem
    rw [hsame]
    exact (hwait offer hmem).1
  · intro offer hno
    rw [hsame]
    exact h.unknown offer fun hmem => hno (hintro hmem)
  · intro offer hmem
    obtain ⟨hold, hnot⟩ := h.named offer ((hdone offer).mp hmem)
    exact ⟨hintro hold, fun hw => hnot ((hwait offer hw).2 hold)⟩
  · intro offer hno
    rw [hasked]
    exact h.unasked offer (mt (hdone offer).mpr hno)
  · intro offer hmem
    rw [hsame, hasked]
    exact h.asked offer ((hdone offer).mp hmem)

theorem Heard.introduce (h : Heard tries done r) (io : RequestIo) (hnew : offer ∉ r.introduced)
    (hids : ∀ other ∈ r.waiting, other.protocolId ≠ offer.protocolId) :
    Heard tries (done ++ [.dataOffer offer]) (r.handle io (.dataOffer offer)) := by
  refine h.quiet (fun _ => rfl) (by simp) (List.subset_append_left ..) ?_ rfl
  intro other hother
  rcases List.mem_append.mp hother with hother | hother
  · refine ⟨?_, fun _ => hother⟩
    rw [← h.cached other hother, AppState.offerMimes, AppState.offerMimes]
    exact congrArg _ (Std.ExtTreeMap.getElem?_insert.trans
      (if_neg (mt Std.LawfulEqOrd.eq_of_compare (hids other hother).symm)))
  · obtain rfl := List.mem_singleton.mp hother
    refine ⟨?_, fun hold => absurd hold hnew⟩
    rw [h.unknown _ hnew, AppState.offerMimes]
    exact congrArg _ Std.ExtTreeMap.getElem?_insert_self

theorem Heard.announce (h : Heard tries done r) (io : RequestIo) (mime : String)
    (hintro : offer ∈ r.introduced) (hw : offer ∈ r.waiting)
    (hids : ∀ other ∈ r.waiting, other.protocolId = offer.protocolId → other = offer) :
    Heard tries (done ++ [.offer offer mime]) (r.handle io (.offer offer mime)) := by
  have hother (other : Offer) (hne : other ≠ offer) :
      announcedTo (done ++ [.offer offer mime]) other = announcedTo done other := by
    rw [announcedTo_append, Event.announces, if_neg hne.symm, Option.toList_none, List.append_nil]
  have hself : announcedTo (done ++ [.offer offer mime]) offer =
      announcedTo done offer ++ [mime] := by
    rw [announcedTo_append, Event.announces, if_pos rfl, Option.toList_some]
  have hdone (other : Offer) : .selection (some other) ∈ done ++ [.offer offer mime] ↔
      .selection (some other) ∈ done := mem_done_append done (by simp)
  have hnot : .selection (some offer) ∉ done := fun hmem => (h.named offer hmem).2 hw
  refine ⟨?_, ?_, ?_, ?_, ?_⟩
  · intro other hmem
    obtain ⟨data, hdata, hmimes⟩ := Option.map_eq_some_iff.mp (h.cached other hmem)
    by_cases hne : other = offer
    · subst hne
      rw [hself, ← hmimes, AppState.offerMimes]
      refine (congrArg _ Std.ExtTreeMap.getElem?_insert_self).trans ?_
      rw [hdata]
      rfl
    · have hid : offer.protocolId ≠ other.protocolId := fun hid => hne (hids other hmem hid.symm)
      rw [hother other hne, ← h.cached other hmem, AppState.offerMimes, AppState.offerMimes]
      exact congrArg _ (Std.ExtTreeMap.getElem?_insert.trans
        (if_neg (mt Std.LawfulEqOrd.eq_of_compare hid)))
  · intro other hno
    rw [hother other fun heq => hno (heq ▸ hintro)]
    exact h.unknown other hno
  · intro other hmem
    exact h.named other ((hdone other).mp hmem)
  · intro other hno
    exact h.unasked other (mt (hdone other).mpr hno)
  · intro other hmem
    have hmem := (hdone other).mp hmem
    rw [hother other fun heq => hnot (heq ▸ hmem)]
    exact h.asked other hmem

theorem Heard.select (h : Heard tries done r) (htries : tries offer io r.app.pipes)
    (hintro : offer ∈ r.introduced) (hw : offer ∈ r.waiting) (hnodup : r.waiting.Nodup)
    (hcur : ∀ other ∈ r.waiting, ∀ old, r.app.currentSelection = some old →
      old.protocolId ≠ other.protocolId) :
    Heard tries (done ++ [.selection (some offer)]) (r.handle io (.selection (some offer))) := by
  have hann (other : Offer) :
      announcedTo (done ++ [.selection (some offer)]) other = announcedTo done other := by
    have hnone : (Event.selection (some offer)).announces other = none := rfl
    rw [announcedTo_append, hnone, Option.toList_none, List.append_nil]
  have hdone (other : Offer) (hne : other ≠ offer) :
      .selection (some other) ∈ done ++ [.selection (some offer)] ↔
        .selection (some other) ∈ done := mem_done_append done (by simpa using hne)
  have hnot : .selection (some offer) ∉ done := fun hmem => (h.named offer hmem).2 hw
  obtain ⟨hself, hother⟩ :=
    asked_append (receives_selection io (hcur offer hw) (h.cached offer hw)) fun _ hmade => by
      obtain ⟨_, -, rfl⟩ := List.mem_map.mp hmade
      rfl
  rw [h.unasked offer hnot, List.nil_append, List.map_map] at hself
  refine ⟨?_, ?_, ?_, ?_, ?_⟩
  · intro other hmem
    have hmem := List.mem_of_mem_erase hmem
    rw [hann, ← h.cached other hmem]
    exact offerMimes_dispatch (by simp) (by simp) (hcur other hmem)
  · intro other hno
    rw [hann]
    exact h.unknown other hno
  · intro other hmem
    by_cases hne : other = offer
    · subst hne
      exact ⟨hintro, hnodup.not_mem_erase⟩
    · obtain ⟨hold, hout⟩ := h.named other ((hdone other hne).mp hmem)
      exact ⟨hold, fun hmem => hout (List.mem_of_mem_erase hmem)⟩
  · intro other hno
    have hne : other ≠ offer := by
      rintro rfl
      exact hno (by simp)
    exact (hother other hne).trans (h.unasked other (mt (hdone other hne).mpr hno))
  · intro other hmem
    rw [hann]
    by_cases hne : other = offer
    · subst hne
      exact ⟨io, r.app.pipes, htries, hself⟩
    · obtain ⟨io', tried, htried, hasked⟩ := h.asked other ((hdone other hne).mp hmem)
      exact ⟨io', tried, htried, (hother other hne).trans hasked⟩

theorem Heard.handle {dead : List Offer} (h : Heard tries done r) (hk : r.Kept)
    (hdead : dead ⊆ r.app.destroyedOffers) (hd : Distinct r.introduced dead)
    (htries : ∀ offer, event = .selection (some offer) → tries offer io r.app.pipes)
    (hc : r.Conforms event) :
    Heard tries (done ++ [event]) (r.handle io event) := by
  have hids (offer : Offer) (hw : offer ∈ r.waiting) := hk.waiting_ids hdead hd hw
  have hnodup : r.waiting.Nodup :=
    (List.nodup_append.mp (List.nodup_append.mp hk.ledger.nodup).1).2.1
  have hquiet (waiting : List Offer) (hsub : waiting ⊆ r.waiting)
      (hnew : ∀ offer, event ≠ .dataOffer offer) (hmore : ∀ offer mime, event ≠ .offer offer mime) :
      ∀ offer ∈ waiting, (dispatch io r.app event).offerMimes offer.protocolId =
        some (announcedTo done offer) ∧ (offer ∈ r.introduced → offer ∈ r.waiting) := by
    intro offer hmem
    refine ⟨?_, fun _ => hsub hmem⟩
    rw [← h.cached offer (hsub hmem)]
    exact offerMimes_dispatch hnew hmore (hids offer (hsub hmem)).2
  cases event with
  | dataOffer offer =>
    refine h.introduce io hc.1 fun other hother => ?_
    obtain ⟨hintro, halive⟩ := hk.ledger.waiting_alive hother
    exact hc.2 other hintro halive
  | offer offer mime =>
    exact h.announce io mime (hk.ledger.waiting_alive hc).1 hc (hids offer hc).1
  | selection offer =>
    cases offer with
    | none =>
      exact h.quiet (fun _ => rfl) (by simp) (List.Subset.refl _)
        (hquiet _ (List.Subset.refl _) (by simp) (by simp)) (receives_dispatch (by simp))
    | some offer =>
      exact h.select (htries offer rfl) (hk.ledger.waiting_alive hc).1 hc hnodup fun other hother =>
        (hids other hother).2
  | primarySelection offer =>
    cases offer with
    | none =>
      exact h.quiet (fun _ => rfl) (by simp) (List.Subset.refl _)
        (hquiet _ (List.Subset.refl _) (by simp) (by simp)) (receives_dispatch (by simp))
    | some offer =>
      exact h.quiet (fun _ => rfl) (by simp) (List.Subset.refl _)
        (hquiet _ (List.erase_subset ..) (by simp) (by simp)) (receives_dispatch (by simp))
  | _ =>
    exact h.quiet (fun _ => rfl) (by simp) (List.Subset.refl _)
      (hquiet _ (List.Subset.refl _) (by simp) (by simp)) (receives_dispatch (by simp))

-- ---------------------------------------------------------------------------
-- Passes
-- ---------------------------------------------------------------------------

theorem Heard.queued {dead : List Offer} {events : List Event} (h : Heard tries done r)
    (hk : r.Kept) (hdead : dead ⊆ r.app.destroyedOffers) (hd : Distinct r.introduced dead)
    (htries : ∀ earlier offer later, events = earlier ++ .selection (some offer) :: later →
      tries offer io (dispatchPending io r.app earlier).pipes) (hq : r.Queued io dead events) :
    Heard tries (done ++ events) (events.foldl (OfferRun.handle io) r) := by
  induction events generalizing done r with
  | nil => rwa [List.append_nil]
  | cons event events ih =>
    obtain ⟨hc, hnew, hrest⟩ := hq
    have hfirst (offer : Offer) (hev : event = .selection (some offer)) :
        tries offer io r.app.pipes := htries [] offer events (by rw [hev]; rfl)
    have hnext := ih (h.handle hk hdead hd hfirst hc) (hk.handle io hc)
      (List.Subset.trans hdead (destroyedOffers_dispatch io r.app event)) (hd.handle io hnew)
      (fun earlier offer later heq => htries (event :: earlier) offer later (by rw [heq]; rfl))
      hrest
    rwa [List.append_assoc] at hnext

theorem Heard.same (h : Heard tries done r) (hintro : r'.introduced = r.introduced)
    (hwait : r'.waiting = r.waiting) (hreq : r'.app.receives = r.app.receives)
    (hmimes : ∀ offer ∈ r.waiting,
      r'.app.offerMimes offer.protocolId = r.app.offerMimes offer.protocolId) :
    Heard tries done r' := by
  obtain ⟨hcached, hunknown, hnamed, hunasked, hasked⟩ := h
  have hsame := asked_of_receives hreq
  refine ⟨?_, ?_, ?_, ?_, ?_⟩ <;> simp only [hintro, hwait, hsame]
  · intro offer hmem
    rw [hmimes offer hmem]
    exact hcached offer hmem
  · exact hunknown
  · exact hnamed
  · exact hunasked
  · exact hasked

variable {clock : Clock} {seat manager device : Global} {passes : List Pass}

theorem offerMimes_step (d : Daemon) (pass : Pass) {id : Nat}
    (h : ∀ read ∈ (d.dispatched pass).app.pendingReads, read.offerId ≠ id) :
    (d.step clock pass).app.offerMimes id = (d.dispatched pass).app.offerMimes id := by
  obtain ⟨d', clipboard, hstep, -, happ⟩ := step_worked clock d pass
  rw [hstep, ← offerMimes_drain pass.drain h]
  refine served_induct clock (P := fun s => s.offerMimes id =
    (drainPendingReads pass.drain (d.dispatched pass).app).1.offerMimes id) ?_ ?_
  · rw [happ]
    rfl
  · intro s entry hasher offerHasher hs _ _
    rw [AppState.publish_eq]
    exact hs

theorem read_selected {s : Dialogue} {pass : Pass} {read : PendingRead}
    (h : (dialogueSystem clock seat manager device).Run passes s)
    (hread : read ∈ (s.daemon.dispatched pass).app.pendingReads) :
    ∃ r : Receive, r.read = read ∧ .selection (some r.offer) ∈ pass.events ∧
      r ∈ (s.daemon.dispatched pass).app.receives := by
  obtain ⟨made, hmade⟩ := dispatchPending_requested pass.io s.daemon.app pass.events
  have hreads := hmade.reads
  rw [dialogue_daemon h, (pipeLedger_run clock seat manager device passes).idle,
    List.nil_append, ← dialogue_daemon h] at hreads
  have hmem : read ∈ (made.filter (pass.io.flushOk ·.fd)).map Receive.read := hreads ▸ hread
  obtain ⟨r, hr, rfl⟩ := List.mem_map.mp hmem
  have hr := (List.mem_filter.mp hr).1
  refine ⟨r, rfl, (hmade.wanted r hr).1, ?_⟩
  rw [Daemon.dispatched, hmade.receives]
  exact List.mem_append_right _ hr

/-- Of the offers of a queue, one that was selected shares its id with no other
that is still alive. -/
theorem OfferRun.Kept.selected_eq {events : List Event} {target : Offer} (h : r.Kept)
    (hd : Distinct r.introduced r.app.destroyedOffers)
    (hq : r.Queued io r.app.destroyedOffers events) (hsel : .selection (some target) ∈ events)
    (hw : offer ∈ (events.foldl (OfferRun.handle io) r).waiting)
    (hid : target.protocolId = offer.protocolId) : target = offer := by
  obtain ⟨-, hdist, hselected⟩ := h.queueKnown (fun _ => id) hd hq
  obtain ⟨hintro, halive⟩ := hselected target hsel
  obtain ⟨hintro', halive'⟩ := (h.queued hq).ledger.waiting_alive hw
  refine hdist _ hintro _ hintro' halive (fun hdead => halive' ?_) hid
  rw [handled_app]
  exact mem_destroyedOffers.mpr
    ((AppState.Asks.dispatchPending io _ events).sent.subset (mem_destroyedOffers.mp hdead))

/-- In this run the offer is selected when so many pipes have been tried. -/
def SelectedIn (clock : Clock) (start : Daemon) (passes : List Pass) (offer : Offer)
    (io : RequestIo) (tried : Nat) : Prop :=
  ∃ before pass after earlier later, passes = before ++ pass :: after ∧
    pass.events = earlier ++ .selection (some offer) :: later ∧ pass.io = io ∧
    (dispatchPending io (start.run clock before).app earlier).pipes = tried

theorem SelectedIn.mono {start : Daemon} {tried : Nat}
    (h : SelectedIn clock start passes offer io tried) (pass : Pass) :
    SelectedIn clock start (passes ++ [pass]) offer io tried := by
  obtain ⟨before, first, after, earlier, later, rfl, hevents, hio, htried⟩ := h
  exact ⟨before, first, after ++ [pass], earlier, later, by simp, hevents, hio, htried⟩

theorem Heard.mono {tries' : Offer → RequestIo → Nat → Prop} (h : Heard tries done r)
    (hmono : ∀ offer io tried, tries offer io tried → tries' offer io tried) :
    Heard tries' done r := by
  obtain ⟨hcached, hunknown, hnamed, hunasked, hasked⟩ := h
  refine ⟨hcached, hunknown, hnamed, hunasked, fun offer hmem => ?_⟩
  obtain ⟨io, tried, htried, heq⟩ := hasked offer hmem
  exact ⟨io, tried, hmono offer io tried htried, heq⟩

theorem heard_run {s : Dialogue}
    (h : (dialogueSystem clock seat manager device).Run passes s) :
    Heard (SelectedIn clock (.start seat manager device) passes) (passes.flatMap (·.events))
      s.offers := by
  induction h with
  | start hinit =>
    cases hinit
    exact ⟨by simp [Dialogue.offers], fun _ _ => rfl, by simp, fun _ _ => rfl, by simp⟩
  | @next passes s pass s' hrun hstep ih =>
    obtain ⟨hnext, hq⟩ := hstep
    cases hnext
    obtain ⟨hkept, hdist⟩ := reachable_kept ⟨_, hrun⟩
    have htries (earlier : List Event) (offer : Offer) (later : List Event)
        (hevents : pass.events = earlier ++ .selection (some offer) :: later) :
        SelectedIn clock (.start seat manager device) (passes ++ [pass]) offer pass.io
          (dispatchPending pass.io s.offers.app earlier).pipes :=
      ⟨passes, pass, [], earlier, later, rfl, hevents, rfl, by rw [← dialogue_daemon hrun]; rfl⟩
    have hhandled :=
      (ih.mono fun _ _ _ h => h.mono pass).queued hkept (fun _ => id) hdist htries hq
    have happ : (pass.events.foldl (OfferRun.handle pass.io) s.offers).app =
        (s.daemon.dispatched pass).app := handled_app pass.io s.offers pass.events
    rw [List.flatMap_append, List.flatMap_singleton]
    refine hhandled.same rfl rfl ?_ fun offer hw => ?_
    · rw [happ]
      exact (step_receives clock s.daemon pass).1
    · rw [happ]
      refine offerMimes_step s.daemon pass fun read hread hid => ?_
      obtain ⟨made, rfl, hsel, -⟩ := read_selected hrun hread
      obtain rfl := hkept.selected_eq hdist hq hsel hw hid
      exact (hhandled.named _ (List.mem_append_right _ hsel)).2 hw

/-- In every run that follows the protocol, an offer that was selected was asked
for the types the daemon picks of what was announced of it, in that order,
without those whose own pipe could not be made; no other offer was asked for
anything. -/
theorem asked_as_announced {s : Dialogue}
    (h : (dialogueSystem clock seat manager device).Run passes s) (offer : Offer) :
    let events := passes.flatMap (·.events)
    let asked := s.daemon.app.asked offer
    (.selection (some offer) ∉ events → asked = []) ∧
    (.selection (some offer) ∈ events → ∃ io tried,
      SelectedIn clock (.start seat manager device) passes offer io tried ∧
      asked = (askedOver io (pickMimes (announcedTo events offer)) tried).map (·.1)) :=
  ⟨(heard_run h).unasked offer, (heard_run h).asked offer⟩

theorem reusedId_asked : ∃ s, (dialogueSystem .still 0 1 2).Reachable s ∧
    s.daemon.app.asked ⟨1, 0⟩ = ["text/plain"] ∧ s.daemon.app.asked ⟨1, 2⟩ = ["text/plain"] := by
  obtain ⟨s, hs⟩ := Option.isSome_iff_exists.mp
    (show (runQueued .still { daemon := .start 0 1 2 } reusedId).isSome = true by decide +kernel)
  have hpipes : ∀ pass ∈ reusedId, ∀ fd, pass.io.pipeOk fd = true := by simp [reusedId, copyPass]
  have hasked (offer : Offer) (hsel : .selection (some offer) ∈ reusedId.flatMap (·.events)) :
      s.daemon.app.asked offer = pickMimes (announcedTo (reusedId.flatMap (·.events)) offer) := by
    obtain ⟨io, tried, ⟨before, pass, after, _, _, hpass, -, rfl, -⟩, heq⟩ :=
      (asked_as_announced (run_of_queued hs) offer).2 hsel
    exact heq.trans (askedOver_ok (hpipes pass (by simp [hpass])) _ _)
  exact ⟨s, ⟨_, run_of_queued hs⟩, (hasked ⟨1, 0⟩ (by decide)).trans (by decide +kernel),
    (hasked ⟨1, 2⟩ (by decide)).trans (by decide +kernel)⟩

-- ---------------------------------------------------------------------------
-- What is held
-- ---------------------------------------------------------------------------

def ClipboardContent.payloadBytes (c : ClipboardContent) : Nat :=
  (c.representations.toList.map (·.2.length)).sum

theorem length_pickMimes (mimeTypes : List String) :
    (pickMimes mimeTypes).length ≤ maxMimesPerSelection :=
  List.length_take_le ..

theorem arrival_asked {before after : List Pass} {pass : Pass} {s : Dialogue} {e : ClipboardEntry}
    (h : (dialogueSystem clock seat manager device).Run (before ++ pass :: after) s)
    (he : e ∈ (Daemon.run clock (.start seat manager device) before).arrivals pass) :
    ∃ offer, ∀ mime ∈ e.content.representations, mime ∈ s.daemon.app.asked offer := by
  obtain ⟨t, t', hrun, hstep, hq⟩ := h.split
  obtain ⟨hkept, hdist⟩ := reachable_kept ⟨before, hrun⟩
  obtain ⟨-, hdist, hselected⟩ := hkept.queueKnown (fun _ => id) hdist hq
  obtain ⟨offerId, hordered, hpayloads⟩ := arrivals_delivered he
  rw [← dialogue_daemon hrun] at hordered hpayloads
  obtain ⟨first, hfirst, hid⟩ := List.mem_map.mp (List.mem_eraseDups.mp hordered)
  obtain ⟨r, rfl, hsel, -⟩ := read_selected hrun (List.mem_filter.mp hfirst).1
  refine ⟨r.offer, fun mime hmime => ?_⟩
  obtain ⟨bytes, hbytes⟩ := Option.isSome_iff_exists.mp
    (Std.ExtTreeMap.mem_iff_isSome_getElem?.mp hmime)
  rw [hpayloads] at hbytes
  obtain ⟨read, hread, hid', rfl, -⟩ := refBlob_eq_some hbytes
  obtain ⟨r', rfl, hsel', hasked⟩ := read_selected hrun hread
  obtain ⟨hintro, halive⟩ := hselected _ hsel
  obtain ⟨hintro', halive'⟩ := hselected _ hsel'
  have hsame : r'.offer = r.offer := hdist _ hintro' _ hintro halive' halive (hid'.trans hid.symm)
  refine List.mem_map.mpr ⟨r', List.mem_filter.mpr ⟨?_, decide_eq_true hsame⟩, rfl⟩
  rw [← (step_receives clock _ pass).1] at hasked
  have hlater := run_sent clock (t.daemon.step clock pass) after
  rw [dialogue_daemon h, Daemon.run, List.foldl_append, List.foldl_cons]
  rw [dialogue_daemon hrun] at hlater hasked
  exact mem_receives.mpr (hlater.subset (mem_receives.mp hasked))

theorem length_asked_le {s : Dialogue}
    (h : (dialogueSystem clock seat manager device).Run passes s) (offer : Offer) :
    (s.daemon.app.asked offer).length ≤ maxMimesPerSelection := by
  by_cases hsel : .selection (some offer) ∈ passes.flatMap (·.events)
  · obtain ⟨io, tried, -, heq⟩ := (heard_run h).asked offer hsel
    rw [show s.daemon.app.asked offer = _ from heq]
    exact (askedOver_sublist ..).length_le.trans (length_pickMimes _)
  · rw [show s.daemon.app.asked offer = [] from (heard_run h).unasked offer hsel]
    exact Nat.zero_le _

theorem payloadBytes_le {before after : List Pass} {pass : Pass} {s : Dialogue}
    {e : ClipboardEntry}
    (h : (dialogueSystem clock seat manager device).Run (before ++ pass :: after) s)
    (he : e ∈ (Daemon.run clock (.start seat manager device) before).arrivals pass) :
    e.content.payloadBytes ≤ maxMimesPerSelection * maxContentBytes := by
  obtain ⟨offer, hasked⟩ := arrival_asked h he
  obtain ⟨offerId, -, hpayloads⟩ := arrivals_delivered he
  have hfew : e.content.representations.toList.length ≤ maxMimesPerSelection := by
    have hkeys : e.content.representations.keys.length ≤ (s.daemon.app.asked offer).length :=
      (List.subperm_of_subset Std.ExtTreeMap.nodup_keys fun mime hmime =>
        hasked mime (Std.ExtTreeMap.mem_keys.mp hmime)).length_le
    rw [Std.ExtTreeMap.length_toList, ← Std.ExtTreeMap.length_keys]
    exact hkeys.trans (length_asked_le h offer)
  have hsmall : ∀ n ∈ e.content.representations.toList.map (·.2.length), n ≤ maxContentBytes := by
    intro n hn
    obtain ⟨⟨mime, bytes⟩, hmem, rfl⟩ := List.mem_map.mp hn
    rw [Std.ExtTreeMap.mem_toList_iff_getElem?_eq_some, hpayloads] at hmem
    obtain ⟨_, -, -, -, stream, -, -, rfl⟩ := refBlob_eq_some hmem
    exact List.length_take_le ..
  calc e.content.payloadBytes
      ≤ (e.content.representations.toList.map (·.2.length)).length * maxContentBytes :=
        List.sum_le_card_nsmul _ _ hsmall
    _ ≤ maxMimesPerSelection * maxContentBytes := by
        rw [List.length_map]
        exact Nat.mul_le_mul_right _ hfew

/-- Whatever a compositor that follows the protocol offers, what is held is
bounded: so many entries, of so many payloads of so many bytes. -/
theorem history_bounded {s : Dialogue}
    (h : (dialogueSystem clock seat manager device).Reachable s) :
    (s.daemon.history.map (·.content.payloadBytes)).sum ≤
      maxHistory * (maxMimesPerSelection * maxContentBytes) := by
  obtain ⟨passes, hrun⟩ := h
  have heach : ∀ n ∈ s.daemon.history.map (·.content.payloadBytes),
      n ≤ maxMimesPerSelection * maxContentBytes := by
    intro n hn
    obtain ⟨e, he, rfl⟩ := List.mem_map.mp hn
    rw [dialogue_daemon hrun] at he
    obtain ⟨before, pass, ⟨after, rfl⟩, harrived⟩ := mem_run_history rfl he
    exact payloadBytes_le hrun harrived
  calc (s.daemon.history.map (·.content.payloadBytes)).sum
      ≤ (s.daemon.history.map (·.content.payloadBytes)).length *
          (maxMimesPerSelection * maxContentBytes) := List.sum_le_card_nsmul _ _ heach
    _ ≤ maxHistory * (maxMimesPerSelection * maxContentBytes) := by
        rw [List.length_map]
        exact Nat.mul_le_mul_right _ s.daemon.app.clipboard.valid.bounded

theorem reusedId_history_bounded : ∃ s : Dialogue, s.daemon.history ≠ [] ∧
    (s.daemon.history.map (·.content.payloadBytes)).sum ≤
      maxHistory * (maxMimesPerSelection * maxContentBytes) := by
  obtain ⟨s, hs, hheld⟩ := (Option.any_eq_true _ _).mp
    (show (runQueued .still { daemon := .start 0 1 2 } reusedId).any
      (fun s => s.daemon.history ≠ []) = true by decide +kernel)
  exact ⟨s, of_decide_eq_true hheld, history_bounded ⟨_, run_of_queued hs⟩⟩

end Uclip
