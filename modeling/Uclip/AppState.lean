import Uclip.Types

/-!
# The state of the Wayland thread

`AppState` and its operations. A proxy is named by the object it stands for;
what a call sends to the compositor is appended to `requests`, so that a
function is a function from states to states. The counters `created` and
`pipes` name the next fresh source and the next fresh pipe.
-/

namespace Uclip

open Text (Bytes)

abbrev Global := Nat

abbrev Source := Nat

abbrev Fd := Nat

/-- An offer object. Protocol ids are used again after a destroy; the serial
tells the objects apart, as proxy equality does. -/
structure Offer where
  protocolId : Nat
  serial : Nat
  deriving DecidableEq, Repr

structure OfferData where
  mimeTypes : List String := []
  deriving DecidableEq, Repr

structure SourceData where
  contents : Blobs
  deriving DecidableEq

def SourceData.contentFor (hasher : Hasher String Bytes) (data : SourceData) (mimeType : String) :
    Option Bytes :=
  data.contents[mimeType]?.or
    (if isTextMime mimeType then (hasher.values data.contents).head? else none)

structure PendingRead where
  fd : Fd
  mimeType : String
  offerId : Nat
  deriving DecidableEq, Repr

inductive Request
  | createDataSource (source : Source) (data : SourceData)
  | offer (source : Source) (mimeType : String)
  | setSelection (source : Source)
  | destroySource (source : Source)
  | receive (offer : Offer) (mimeType : String) (fd : Fd)
  | destroyOffer (offer : Offer)
  deriving DecidableEq

structure AppState where
  seat : Option Global := none
  manager : Option Global := none
  device : Option Global := none
  currentSource : Option Source := none
  offers : HashMap Nat OfferData := ∅
  currentSelection : Option Offer := none
  pendingReads : List PendingRead := []
  clipboard : ClipState := .new
  requests : List Request := []
  created : Nat := 0
  pipes : Nat := 0

namespace AppState

def new : AppState := {}

def send (s : AppState) (request : Request) : AppState :=
  { s with requests := s.requests ++ [request] }

def clearDevice (s : AppState) : AppState := { s with device := none }

def takeSourceIfActive (s : AppState) (source : Source) : Option Source × AppState :=
  if s.currentSource = some source then (s.currentSource, { s with currentSource := none })
  else (none, s)

def replaceSource (s : AppState) (source : Source) : Option Source × AppState :=
  (s.currentSource, { s with currentSource := some source })

def offerMimes (s : AppState) (offerId : Nat) : Option (List String) :=
  s.offers[offerId]?.map (·.mimeTypes)

def insertOffer (s : AppState) (offerId : Nat) : AppState :=
  { s with offers := s.offers.insert offerId {} }

def pushOfferMime (s : AppState) (offerId : Nat) (mimeType : String) : AppState :=
  let data := s.offers[offerId]?.getD {}
  { s with offers := s.offers.insert offerId { mimeTypes := data.mimeTypes ++ [mimeType] } }

def removeOffer (s : AppState) (offerId : Nat) : AppState :=
  { s with offers := s.offers.erase offerId }

def setSelection (s : AppState) (offer : Offer) : AppState :=
  { s with currentSelection := some offer }

def clearSelection (s : AppState) : AppState :=
  match s.currentSelection with
  | some old =>
    (({ s with currentSelection := none }).removeOffer old.protocolId).send (.destroyOffer old)
  | none => s

def pushPendingRead (s : AppState) (read : PendingRead) : AppState :=
  { s with pendingReads := s.pendingReads ++ [read] }

/-- The payload the missing aliases are given. `hasher` iterates the map. -/
def fallbackPayload (hasher : Hasher String Bytes) (contents : Blobs) : Bytes :=
  ((contents["text/plain;charset=utf-8"]?.or contents["text/plain"]?).or
    (hasher.values contents).head?).getD []

def topUpAliases (hasher : Hasher String Bytes) (contents : Blobs) : Blobs :=
  textAliases.foldl (fun map «alias» => map.insertIfNew «alias» (fallbackPayload hasher contents))
    contents

def sourceContents (hasher : Hasher String Bytes) (content : ClipboardContent) : Blobs :=
  if content.hasText then topUpAliases hasher content.representations
  else content.representations

/-- Create a source for the contents, offer each type, set it as the selection,
then destroy the source it replaces, so that the selection is never empty. -/
def publish (offerHasher : Hasher String Bytes) (s : AppState) (contents : Blobs) : AppState :=
  let source := s.created
  let s := { s with created := s.created + 1 }.send (.createDataSource source ⟨contents⟩)
  let s := (offerHasher.keys contents).foldl (fun s mime => s.send (.offer source mime)) s
  let s := s.send (.setSelection source)
  match s.replaceSource source with
  | (some old, s) => s.send (.destroySource old)
  | (none, s) => s

/-- Publish a history entry back as the active selection. `hasher` iterates its
representations, `offerHasher` the published map. -/
def restoreEntry (hasher offerHasher : Hasher String Bytes) (s : AppState) (entryId : Nat) :
    Except ClipboardError AppState :=
  match s.clipboard.get entryId with
  | none => .error (.entryNotFound entryId)
  | some entry =>
    match s.manager, s.device with
    | none, _ => .error .noManager
    | some _, none => .error .noDevice
    | some _, some _ => .ok (s.publish offerHasher (sourceContents hasher entry.content))

-- ---------------------------------------------------------------------------
-- What a restore sends
-- ---------------------------------------------------------------------------

def publishRequests (source : Source) (contents : Blobs) (mimes : List String)
    (old : Option Source) : List Request :=
  .createDataSource source ⟨contents⟩ ::
    (mimes.map (.offer source ·) ++ .setSelection source :: old.toList.map .destroySource)

theorem foldl_send (s : AppState) (request : α → Request) (l : List α) :
    l.foldl (fun s a => s.send (request a)) s =
      { s with requests := s.requests ++ l.map request } := by
  induction l generalizing s with
  | nil => simp
  | cons a l ih =>
    rw [List.foldl_cons, ih]
    simp [send]

theorem publish_eq (offerHasher : Hasher String Bytes) (s : AppState) (contents : Blobs) :
    s.publish offerHasher contents =
      { s with
        requests := s.requests ++
          publishRequests s.created contents (offerHasher.keys contents) s.currentSource
        created := s.created + 1
        currentSource := some s.created } := by
  rw [publish]
  simp only [foldl_send]
  simp only [replaceSource, send]
  cases s.currentSource <;> simp [publishRequests]

theorem restoreEntry_eq_ok {s s' : AppState}
    (h : restoreEntry hasher offerHasher s entryId = .ok s') :
    ∃ entry, s.clipboard.get entryId = some entry ∧ s.manager.isSome ∧ s.device.isSome ∧
      s' = s.publish offerHasher (sourceContents hasher entry.content) := by
  unfold restoreEntry at h
  split at h
  · cases h
  · split at h
    · cases h
    · cases h
    · cases h
      exact ⟨_, ‹_›, by simp [*], by simp [*], rfl⟩

theorem restoreEntry_of_get {s : AppState} (h : s.clipboard.get entryId = some entry)
    (hm : s.manager.isSome) (hd : s.device.isSome) :
    restoreEntry hasher offerHasher s entryId =
      .ok (s.publish offerHasher (sourceContents hasher entry.content)) := by
  obtain ⟨m, hm⟩ := Option.isSome_iff_exists.mp hm
  obtain ⟨d, hd⟩ := Option.isSome_iff_exists.mp hd
  simp [restoreEntry, h, hm, hd]

end AppState

end Uclip
