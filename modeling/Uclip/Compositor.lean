import Uclip.LoopLaws
import Uclip.Selection
import Uclip.Lib.System

/-!
# The Wayland thread and the compositor

The daemon and the compositor exchange messages: the requests the daemon has
sent, handled in order, and the events the compositor has sent, which all are
in the queue when `dispatch_pending` runs. A write end of a pipe is in a
`receive` that was not handled yet, in a `Send` that was not dispatched yet, or
with an outside client. A read ends when no write end is left; a client that
writes more than the bound ends it early.
-/

namespace Uclip

open Text (Bytes)

inductive Owner
  | ours (source : Source)
  | client (c : Nat)
  deriving DecidableEq, Repr

inductive Phase
  | waiting
  | dispatching (io : RequestIo) (queue : List Event)
  | draining (reads : List PendingRead)
  | serving

def Phase.queue : Phase → List Event
  | .dispatching _ queue => queue
  | _ => []

structure World where
  daemon : Daemon
  phase : Phase := .waiting
  handled : Nat := 0
  /-- Sent to the daemon, and not taken up by `dispatch_pending` yet. -/
  events : List Event := []
  offers : List (Offer × Owner) := []
  /-- The sources of ours that were cancelled or destroyed. -/
  dead : List Source := []
  selection : Option Owner := none
  /-- Pipes whose write end an outside client holds. -/
  writers : List Fd := []

inductive Act
  | beginDispatch (io : RequestIo)
  | handle
  | beginDrain
  | endRead
  | endDrain (env : DrainEnv)
  | restore (pending : PendingRestore) (hasher offerHasher : Hasher String Bytes)
  | flush
  /-- The compositor handles the next request; a new selection of ours is
  announced by this offer, its types in this order. -/
  | compositor (announced : Offer) (mimes : List String)
  | copy (client : Nat) (offer : Offer) (mimes : List String)
  | paste (client : Nat) (mimeType : String)
  | close (fd : Fd)
  /-- Events that carry no offer and no pipe. -/
  | notify (event : Event)

namespace World

def owner (w : World) (offer : Offer) : Option Owner := w.offers.lookup offer

def live (w : World) (offer : Offer) : Option Source :=
  match w.owner offer with
  | some (.ours source) => if source ∈ w.dead then none else some source
  | _ => none

def inFlight (w : World) (fd : Fd) : Bool :=
  (w.daemon.app.requests.drop w.handled).any fun
    | .receive _ _ fd' => fd' = fd
    | _ => false

/-- An event addressed to the daemon carries the write end. -/
def inSend (w : World) (fd : Fd) : Bool :=
  (w.events ++ w.phase.queue).any fun
    | .send _ _ (.ours fd') => fd' = fd
    | _ => false

def replaceSelection (w : World) (owner : Owner) : World :=
  match w.selection with
  | some (.ours source) =>
    { w with
      selection := some owner
      dead := source :: w.dead
      events := w.events ++ [.cancelled source] }
  | _ => { w with selection := some owner }

def announce (w : World) (owner : Owner) (offer : Offer) (mimes : List String) : Option World :=
  if w.owner offer = none then
    let w := w.replaceSelection owner
    some { w with
      offers := (offer, owner) :: w.offers
      events := w.events ++ selectionEvents offer mimes }
  else none

def offeredBy (w : World) (source : Source) : List String :=
  w.daemon.app.requests.filterMap fun
    | .offer source' mime => if source' = source then some mime else none
    | _ => none

def handleRequest (w : World) (announced : Offer) (mimes : List String) :
    Request → Option World
  | .setSelection source =>
    if mimes.isPerm (w.offeredBy source) then w.announce (.ours source) announced mimes else none
  | .destroySource source =>
    let w := { w with dead := source :: w.dead }
    if w.selection = some (.ours source) then
      some { w with selection := none, events := w.events ++ [.selection none] }
    else some w
  | .receive offer mime fd =>
    match w.live offer, w.owner offer with
    | some source, _ => some { w with events := w.events ++ [.send source mime (.ours fd)] }
    | none, some (.client _) => some { w with writers := fd :: w.writers }
    | none, _ => some w
  | _ => some w

def isNotice : Event → Bool
  | .global .. | .globalRemove | .primarySelection _ | .finished => true
  | _ => false

def act (clock : Clock) (w : World) : Act → Option World
  | .beginDispatch io =>
    match w.phase with
    | .waiting => some { w with phase := .dispatching io w.events, events := [] }
    | _ => none
  | .handle =>
    match w.phase with
    | .dispatching io (event :: queue) =>
      some { w with
        daemon := { w.daemon with app := dispatch io w.daemon.app event }
        phase := .dispatching io queue }
    | _ => none
  | .beginDrain =>
    match w.phase with
    | .dispatching _ [] => some { w with phase := .draining w.daemon.app.pendingReads }
    | _ => none
  | .endRead =>
    match w.phase with
    | .draining (read :: reads) =>
      if read.fd ∈ w.writers ∨ (w.inFlight read.fd = false ∧ w.inSend read.fd = false) then
        some { w with phase := .draining reads }
      else none
    | _ => none
  | .endDrain env =>
    match w.phase with
    | .draining [] =>
      let (app, outcomes) := drainPendingReads env w.daemon.app
      some { w with
        daemon := outcomes.foldl (Daemon.outcome clock) { w.daemon with app }
        phase := .serving }
    | _ => none
  | .restore pending hasher offerHasher =>
    match w.phase with
    | .serving =>
      some { w with daemon := w.daemon.handleRestore clock hasher offerHasher pending }
    | _ => none
  | .flush =>
    match w.phase with
    | .serving => some { w with phase := .waiting }
    | _ => none
  | .compositor announced mimes =>
    match w.daemon.app.requests[w.handled]? with
    | some request =>
      { w with handled := w.handled + 1 }.handleRequest announced mimes request
    | none => none
  | .copy client offer mimes => w.announce (.client client) offer mimes
  | .paste client mimeType =>
    match w.selection with
    | some (.ours source) =>
      some { w with events := w.events ++ [.send source mimeType (.theirs client)] }
    | _ => none
  | .close fd => some { w with writers := w.writers.erase fd }
  | .notify event =>
    if isNotice event then some { w with events := w.events ++ [event] } else none

def start (seat manager device : Global) : World := { daemon := .start seat manager device }

def unread (w : World) : List PendingRead :=
  match w.phase with
  | .draining reads => reads
  | _ => w.daemon.app.pendingReads

def reading (w : World) : Option PendingRead :=
  match w.phase with
  | .draining reads => reads.head?
  | _ => none

/-- Blocked in a read whose only write end is in a `Send` to ourselves. -/
def SelfBlocked (w : World) : Prop :=
  ∃ read ∈ w.reading, w.inSend read.fd = true ∧ w.inFlight read.fd = false ∧
    read.fd ∉ w.writers

instance (w : World) : Decidable w.SelfBlocked :=
  inferInstanceAs (Decidable (∃ read ∈ w.reading, _))

/-- The compositor gets to a `receive` that asks a live source of ours for the
bytes of a read that is still to be made. -/
def AsksItself (w : World) : Act → Prop
  | .compositor _ _ => ∃ offer mime, ∃ read ∈ w.unread, (w.live offer).isSome ∧
      w.daemon.app.requests[w.handled]? = some (.receive offer mime read.fd)
  | _ => False

end World

def compositorSystem (clock : Clock) (seat manager device : Global) : System World Act :=
  .ofAct (.start seat manager device) (World.act clock)

end Uclip
