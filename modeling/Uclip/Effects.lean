import Uclip.Dispatch

/-!
# What a handler can do

Every handler is a sequence of a few effects on the state, each with what holds
when it happens. What all of them keep is kept by any queue of events.
-/

namespace Uclip

def Wanted (mime : String) : Prop := isTextMime mime = true ∨ mime ∈ supportedBinaryMimes

variable {io : RequestIo} {event : Event} {s s' : AppState} {P : AppState → Prop}

inductive Effect (io : RequestIo) (event : Event) (s : AppState) : AppState → Prop
  /-- A global is bound; what was bound before may be bound anew. -/
  | bind (seat manager : Option Global) : (s.manager.isSome → manager.isSome) →
      Effect io event s { s with seat, manager }
  | lose : event = .finished → Effect io event s { s with device := none }
  /-- The offer of the event is announced, or one more type of it. -/
  | cache (offer : Offer) (data : OfferData) :
      (event = .dataOffer offer ∨ ∃ mime, event = .offer offer mime) →
      Effect io event s { s with offers := s.offers.insert offer.protocolId data }
  | clear (old : Offer) : s.currentSelection = some old → event ≠ .selection (some old) →
      Effect io event s { s with
        currentSelection := none
        offers := s.offers.erase old.protocolId
        requests := s.requests ++ [.destroyOffer old] }
  | select (offer : Offer) : event = .selection (some offer) →
      (s.currentSelection = none ∨ s.currentSelection = some offer) →
      Effect io event s { s with currentSelection := some offer }
  /-- A pipe could not be made. -/
  | noPipe : Effect io event s { s with pipes := s.pipes + 1 }
  | ask (offer : Offer) (mime : String) : event = .selection (some offer) →
      s.currentSelection = some offer → Wanted mime →
      Effect io event s { s with
        pipes := s.pipes + 1
        requests := s.requests ++ [.receive offer mime s.pipes]
        pendingReads := s.pendingReads ++
          if io.flushOk s.pipes then [⟨s.pipes, mime, offer.protocolId⟩] else [] }
  | cancel (source : Source) : event = .cancelled source → s.currentSource = some source →
      Effect io event s { s with
        currentSource := none
        requests := s.requests ++ [.destroySource source] }

theorem Effect.clipboard (h : Effect io event s s') : s'.clipboard = s.clipboard := by
  cases h <;> rfl

theorem Effect.sent (h : Effect io event s s') : s.requests <+: s'.requests := by
  cases h with
  | clear | ask | cancel => exact List.prefix_append ..
  | _ => exact List.prefix_rfl

-- ---------------------------------------------------------------------------
-- The handlers
-- ---------------------------------------------------------------------------

theorem clearSelection_induct (io : RequestIo) (event : Event)
    (hev : ∀ old, s.currentSelection = some old → event ≠ .selection (some old)) (h : P s)
    (next : ∀ s s', P s → Effect io event s s' → P s') : P s.clearSelection := by
  cases hsel : s.currentSelection with
  | none => simpa [AppState.clearSelection, hsel] using h
  | some old =>
    have hclear := next s _ h (.clear old hsel (hev old hsel))
    simpa [AppState.clearSelection, hsel, AppState.removeOffer, AppState.send] using hclear

theorem clearSelection_cleared (s : AppState) : s.clearSelection.currentSelection = none := by
  cases hsel : s.currentSelection <;>
    simp [AppState.clearSelection, hsel, AppState.removeOffer, AppState.send]

theorem clearOther_selection (s : AppState) (offer : Offer) :
    (clearOther s offer).currentSelection = none ∨
      (clearOther s offer).currentSelection = some offer := by
  unfold clearOther
  split
  · rename_i old hsel
    split
    · exact .inl (clearSelection_cleared s)
    · rename_i hne
      exact .inr (hsel.trans (congrArg some (not_not.mp hne)))
  · exact .inl ‹_›

theorem requestMimes_induct {offer : Offer} (hev : event = .selection (some offer))
    (mimes : List String) (hmimes : ∀ mime ∈ mimes, Wanted mime)
    (hsel : s.currentSelection = some offer) (h : P s)
    (next : ∀ s s', P s → Effect io event s s' → P s') :
    P (mimes.foldl (requestMime io offer) s) := by
  induction mimes generalizing s with
  | nil => exact h
  | cons mime mimes ih =>
    have hrest := fun m hm => hmimes m (List.mem_cons_of_mem _ hm)
    have hask := next s _ h (.ask offer mime hev hsel (hmimes mime List.mem_cons_self))
    rw [List.foldl_cons, requestMime]
    by_cases hpipe : io.pipeOk s.pipes
    · by_cases hflush : io.flushOk s.pipes
      · simp only [hflush, if_true] at hask
        simp only [hpipe, AppState.send, hflush, if_true, AppState.pushPendingRead]
        exact ih hrest hsel hask
      · simp only [hflush, if_false, List.append_nil, Bool.false_eq_true] at hask
        simp only [hpipe, AppState.send, hflush, if_true, if_false, Bool.false_eq_true]
        exact ih hrest hsel hask
    · simp only [hpipe, if_false, Bool.false_eq_true]
      exact ih hrest hsel (next s _ h .noPipe)

theorem handleSelection_induct {offer : Offer} (hev : event = .selection (some offer)) (h : P s)
    (next : ∀ s s', P s → Effect io event s s' → P s') :
    P (handleSelection io s (some offer)) := by
  have hclear : P (clearOther s offer) := by
    unfold clearOther
    split
    · rename_i old hsel
      split
      · refine clearSelection_induct io event (fun other hother => ?_) h next
        obtain rfl : old = other := Option.some.inj (hsel.symm.trans hother)
        rw [hev]
        simpa using Ne.symm ‹old ≠ offer›
      · exact h
    · exact h
  have hset : P ((clearOther s offer).setSelection offer) :=
    next _ _ hclear (.select offer hev (clearOther_selection s offer))
  unfold handleSelection
  dsimp only
  split
  · exact hset
  · exact requestMimes_induct hev _ (fun mime hm => (pickMimes_subset hm).2) rfl hset next

theorem dispatch_induct (h : P s) (next : ∀ s s', P s → Effect io event s s' → P s') :
    P (dispatch io s event) := by
  cases event with
  | global interface object =>
    simp only [dispatch]
    split
    · exact next s _ h (.bind (some object) s.manager id)
    · split
      · exact next s _ h (.bind s.seat (some object) fun _ => rfl)
      · exact h
  | dataOffer offer => exact next s _ h (.cache offer {} (.inl rfl))
  | offer offer mime => exact next s _ h (.cache offer _ (.inr ⟨mime, rfl⟩))
  | selection offer =>
    cases offer with
    | none => exact clearSelection_induct io _ (fun _ _ => by simp) h next
    | some offer => exact handleSelection_induct rfl h next
  | finished => exact clearSelection_induct io _ (fun _ _ => by simp) (next s _ h (.lose rfl)) next
  | cancelled source =>
    by_cases hcur : s.currentSource = some source
    · rw [dispatch_cancelled io hcur]
      exact next s _ h (.cancel source rfl hcur)
    · rw [dispatch_cancelled_of_ne io hcur]
      exact h
  | _ => exact h

theorem dispatchPending_induct {events : List Event} (h : P s)
    (next : ∀ event ∈ events, ∀ s s', P s → Effect io event s s' → P s') :
    P (dispatchPending io s events) := by
  induction events generalizing s with
  | nil => exact h
  | cons event events ih =>
    exact ih (dispatch_induct h (next event List.mem_cons_self))
      fun e he => next e (List.mem_cons_of_mem _ he)

theorem dispatchPending_clipboard (io : RequestIo) (s : AppState) (events : List Event) :
    (dispatchPending io s events).clipboard = s.clipboard :=
  dispatchPending_induct (P := (·.clipboard = s.clipboard)) rfl
    fun _ _ _ _ h he => he.clipboard.trans h

end Uclip
