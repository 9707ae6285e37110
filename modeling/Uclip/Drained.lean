import Uclip.Dispatch
import Uclip.DrainReference

/-!
# The handlers after a drain

A drain drops the types of the offers that have delivered a payload. What the
handlers do with a queue of events does not depend on whether the reads queued
before were drained, as long as the events do not name one of these offers. The
history is not read at all.
-/

namespace Uclip

/-- The offer id that the handler of the event caches or looks up. -/
def Event.names : Event → Option Nat
  | .dataOffer named => some named.protocolId
  | .offer named _ => some named.protocolId
  | .selection (some named) => some named.protocolId
  | _ => none

def without (ids : List Nat) (offers : HashMap Nat OfferData) : HashMap Nat OfferData :=
  ids.foldl (·.erase ·) offers

/-- `s'` is `s` after the reads of `reads`, for the copies of `ids`, are drained. -/
def Drained (ids : List Nat) (reads : List PendingRead) (clipboard : ClipState)
    (s s' : AppState) : Prop :=
  ∃ rest, s.pendingReads = reads ++ rest ∧
    s' = { s with offers := without ids s.offers, clipboard, pendingReads := rest }

variable {ids : List Nat} {reads : List PendingRead} {clipboard : ClipState} {s s' : AppState}
  {io : RequestIo} {event : Event}

-- ---------------------------------------------------------------------------
-- The types a drain drops
-- ---------------------------------------------------------------------------

theorem getElem?_without (ids : List Nat) (offers : HashMap Nat OfferData) (id : Nat) :
    (without ids offers)[id]? = if id ∈ ids then none else offers[id]? := by
  induction ids generalizing offers with
  | nil => rfl
  | cons first ids ih =>
    rw [without, List.foldl_cons]
    refine (ih _).trans ?_
    rw [Std.ExtTreeMap.getElem?_erase]
    by_cases hid : first = id
    · simp [hid]
    · rw [if_neg (mt Std.LawfulEqOrd.eq_of_compare hid)]
      simp [Ne.symm hid]

theorem without_erase (ids : List Nat) (offers : HashMap Nat OfferData) (id : Nat) :
    without ids (offers.erase id) = (without ids offers).erase id := by
  refine Std.ExtTreeMap.ext_getElem? fun key => ?_
  rw [getElem?_without, Std.ExtTreeMap.getElem?_erase, Std.ExtTreeMap.getElem?_erase,
    getElem?_without]
  split <;> split <;> rfl

theorem without_insert (offers : HashMap Nat OfferData) (data : OfferData) {id : Nat}
    (h : id ∉ ids) : without ids (offers.insert id data) = (without ids offers).insert id data := by
  refine Std.ExtTreeMap.ext_getElem? fun key => ?_
  rw [getElem?_without, Std.ExtTreeMap.getElem?_insert, Std.ExtTreeMap.getElem?_insert,
    getElem?_without]
  by_cases hkey : compare id key = .eq
  · rw [if_pos hkey, if_pos hkey, if_neg]
    exact Std.LawfulEqOrd.eq_of_compare hkey ▸ h
  · rw [if_neg hkey, if_neg hkey]

theorem storeCopy_offers (env : DrainEnv) (grouped : HashMap Nat Blobs)
    (acc : AppState × List ReadOutcome) (offerId : Nat) :
    (storeCopy env grouped acc offerId).1.offers = acc.1.offers.erase offerId := by
  simp only [storeCopy, AppState.removeOffer]
  split
  · rfl
  · split
    · split <;> rfl
    · rfl

theorem drain_offers (env : DrainEnv) (s : AppState) :
    (drainPendingReads env s).1.offers = without (refOrder env s.pendingReads) s.offers := by
  have hfold (order : List Nat) (grouped : HashMap Nat Blobs)
      (acc : AppState × List ReadOutcome) :
      (order.foldl (storeCopy env grouped) acc).1.offers = without order acc.1.offers := by
    induction order generalizing acc with
    | nil => rfl
    | cons offerId order ih =>
      rw [List.foldl_cons, ih, storeCopy_offers]
      rfl
  rw [drainPendingReads, hfold, (groups_groupReads env s.pendingReads).order]

-- ---------------------------------------------------------------------------
-- The handlers
-- ---------------------------------------------------------------------------

theorem Drained.clearSelection (h : Drained ids reads clipboard s s') :
    Drained ids reads clipboard s.clearSelection s'.clearSelection := by
  obtain ⟨rest, hreads, rfl⟩ := h
  cases hsel : s.currentSelection with
  | none =>
    refine ⟨rest, ?_, ?_⟩ <;> simp [AppState.clearSelection, hsel, hreads]
  | some old =>
    refine ⟨rest, ?_, ?_⟩ <;>
      simp [AppState.clearSelection, hsel, hreads, AppState.removeOffer, AppState.send,
        without_erase]

theorem Drained.clearOther (h : Drained ids reads clipboard s s') (offer : Offer) :
    Drained ids reads clipboard (clearOther s offer) (clearOther s' offer) := by
  have hsel : s'.currentSelection = s.currentSelection := by
    obtain ⟨_, -, rfl⟩ := h
    rfl
  unfold Uclip.clearOther
  rw [hsel]
  split
  · split
    · exact h.clearSelection
    · exact h
  · exact h

theorem Drained.requestMime (h : Drained ids reads clipboard s s') (io : RequestIo) (offer : Offer)
    (mime : String) :
    Drained ids reads clipboard (requestMime io offer s mime) (requestMime io offer s' mime) := by
  obtain ⟨rest, hreads, rfl⟩ := h
  unfold Uclip.requestMime
  dsimp only
  split
  · split
    · refine ⟨rest ++ [⟨s.pipes, mime, offer.protocolId⟩], ?_, rfl⟩
      simp [AppState.pushPendingRead, AppState.send, hreads]
    · exact ⟨rest, hreads, rfl⟩
  · exact ⟨rest, hreads, rfl⟩

theorem Drained.requestMimes (h : Drained ids reads clipboard s s') (io : RequestIo)
    (offer : Offer) (mimes : List String) :
    Drained ids reads clipboard (mimes.foldl (Uclip.requestMime io offer) s)
      (mimes.foldl (Uclip.requestMime io offer) s') := by
  induction mimes generalizing s s' with
  | nil => exact h
  | cons mime mimes ih => exact ih (h.requestMime io offer mime)

theorem Drained.offerMimes (h : Drained ids reads clipboard s s') {id : Nat} (hid : id ∉ ids) :
    s'.offerMimes id = s.offerMimes id := by
  obtain ⟨_, -, rfl⟩ := h
  rw [AppState.offerMimes, AppState.offerMimes, getElem?_without, if_neg hid]

theorem Drained.handleSelection (h : Drained ids reads clipboard s s') (io : RequestIo)
    {offer : Offer} (hid : offer.protocolId ∉ ids) :
    Drained ids reads clipboard (handleSelection io s (some offer))
      (handleSelection io s' (some offer)) := by
  have hset : Drained ids reads clipboard ((Uclip.clearOther s offer).setSelection offer)
      ((Uclip.clearOther s' offer).setSelection offer) := by
    obtain ⟨rest, hreads, hs⟩ := h.clearOther offer
    exact ⟨rest, hreads, by rw [hs]; rfl⟩
  unfold Uclip.handleSelection
  dsimp only
  rw [hset.offerMimes hid]
  split
  · exact hset
  · exact hset.requestMimes io offer _

theorem Drained.dispatch (h : Drained ids reads clipboard s s') (io : RequestIo)
    (hids : ∀ id, event.names = some id → id ∉ ids) :
    Drained ids reads clipboard (dispatch io s event) (dispatch io s' event) := by
  cases event with
  | global interface object =>
    obtain ⟨rest, hreads, rfl⟩ := h
    simp only [Uclip.dispatch]
    split
    · exact ⟨rest, hreads, rfl⟩
    · split <;> exact ⟨rest, hreads, rfl⟩
  | dataOffer offer =>
    obtain ⟨rest, hreads, rfl⟩ := h
    exact ⟨rest, hreads, by simp [Uclip.dispatch, AppState.insertOffer,
      without_insert _ _ (hids _ rfl)]⟩
  | offer offer mime =>
    obtain ⟨rest, hreads, rfl⟩ := h
    exact ⟨rest, hreads, by simp [Uclip.dispatch, AppState.pushOfferMime,
      without_insert _ _ (hids _ rfl), getElem?_without, hids _ rfl]⟩
  | selection offer =>
    cases offer with
    | none => exact h.clearSelection
    | some offer => exact h.handleSelection io (hids _ rfl)
  | finished =>
    have hclear : Drained ids reads clipboard s.clearDevice s'.clearDevice := by
      obtain ⟨rest, hreads, rfl⟩ := h
      exact ⟨rest, hreads, rfl⟩
    exact hclear.clearSelection
  | cancelled source =>
    have hsame : s'.currentSource = s.currentSource := by
      obtain ⟨_, -, rfl⟩ := h
      rfl
    by_cases hcur : s.currentSource = some source
    · rw [dispatch_cancelled io hcur, dispatch_cancelled io (hsame.trans hcur)]
      obtain ⟨rest, hreads, rfl⟩ := h
      exact ⟨rest, hreads, rfl⟩
    · rw [dispatch_cancelled_of_ne io hcur, dispatch_cancelled_of_ne io (hsame ▸ hcur)]
      exact h
  | _ => exact h

theorem Drained.dispatchPending {events : List Event} (h : Drained ids reads clipboard s s')
    (io : RequestIo) (hids : ∀ event ∈ events, ∀ id, event.names = some id → id ∉ ids) :
    Drained ids reads clipboard (dispatchPending io s events) (dispatchPending io s' events) := by
  induction events generalizing s s' with
  | nil => exact h
  | cons event events ih =>
    exact ih (h.dispatch io (hids event List.mem_cons_self))
      fun later hlater => hids later (List.mem_cons_of_mem _ hlater)

end Uclip
