import Uclip.AppState

/-!
# Wayland event handlers

One handler per protocol object. `dispatch` is what one event does to the
state; what it writes into a pipe of somebody else is `sendPayload`.
-/

namespace Uclip

open Text (Bytes)

/-- The write end a `Send` event carries: of a pipe of ours, when we asked for
our own source, or of another client. -/
inductive WriteEnd
  | ours (fd : Fd)
  | theirs (client : Nat)
  deriving DecidableEq, Repr

inductive Event
  | global (interface : String) (object : Global)
  | globalRemove
  | dataOffer (offer : Offer)
  | offer (offer : Offer) (mimeType : String)
  | selection (offer : Option Offer)
  | primarySelection (offer : Option Offer)
  | finished
  | send (source : Source) (mimeType : String) (fd : WriteEnd)
  | cancelled (source : Source)
  deriving DecidableEq, Repr

structure RequestIo where
  pipeOk : Fd → Bool := fun _ => true
  flushOk : Fd → Bool := fun _ => true

def requestMime (io : RequestIo) (offer : Offer) (s : AppState) (mime : String) : AppState :=
  let fd := s.pipes
  let s := { s with pipes := s.pipes + 1 }
  if io.pipeOk fd then
    let s := s.send (.receive offer mime fd)
    if io.flushOk fd then s.pushPendingRead ⟨fd, mime, offer.protocolId⟩ else s
  else s

/-- The previous selection offer must be destroyed, unless it is the same object. -/
def clearOther (s : AppState) (offer : Offer) : AppState :=
  match s.currentSelection with
  | some old => if old ≠ offer then s.clearSelection else s
  | none => s

def handleSelection (io : RequestIo) (s : AppState) : Option Offer → AppState
  | none => s.clearSelection
  | some offer =>
    let s := (clearOther s offer).setSelection offer
    match s.offerMimes offer.protocolId with
    | none => s
    | some mimes => (pickMimes mimes).foldl (requestMime io offer) s

def dispatch (io : RequestIo) (s : AppState) : Event → AppState
  | .global interface object =>
    if interface = "wl_seat" then { s with seat := some object }
    else if interface = "ext_data_control_manager_v1" then { s with manager := some object }
    else s
  | .globalRemove => s
  | .dataOffer offer => s.insertOffer offer.protocolId
  | .offer offer mimeType => s.pushOfferMime offer.protocolId mimeType
  | .selection offer => handleSelection io s offer
  | .primarySelection _ => s
  | .finished => s.clearDevice.clearSelection
  | .send .. => s
  | .cancelled source =>
    match s.takeSourceIfActive source with
    | (some old, s) => s.send (.destroySource old)
    | (none, s) => s

def sendPayload (hasher : Hasher String Bytes) (data : SourceData) (mimeType : String) : Bytes :=
  (data.contentFor hasher mimeType).getD []

def dispatchPending (io : RequestIo) (s : AppState) (events : List Event) : AppState :=
  events.foldl (dispatch io) s

theorem dispatch_cancelled (io : RequestIo) {s : AppState} (h : s.currentSource = some source) :
    dispatch io s (.cancelled source) =
      { s with currentSource := none, requests := s.requests ++ [.destroySource source] } := by
  simp [dispatch, AppState.takeSourceIfActive, h, AppState.send]

theorem dispatch_cancelled_of_ne (io : RequestIo) {s : AppState}
    (h : s.currentSource ≠ some source) : dispatch io s (.cancelled source) = s := by
  simp only [dispatch, AppState.takeSourceIfActive, if_neg h]

end Uclip
