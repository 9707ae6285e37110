import Uclip.ClipState

/-!
# Errors, wire types and the snapshot

The summary rows a UI sees, the requests it sends, the replies and events it
gets, and the snapshot: the list of summaries the socket tasks serve.
-/

namespace Uclip

inductive ClipboardError
  | noSeat
  | noManager
  | noDevice
  | entryNotFound (id : Nat)
  | wayland (detail : String)
  | io (detail : String)
  deriving DecidableEq, Repr

def ClipboardError.toString : ClipboardError → String
  | .noSeat => "no wl_seat found: is a Wayland compositor running?"
  | .noManager =>
    "no ext_data_control_manager_v1 found: compositor does not support clipboard managers"
  | .noDevice => "data device missing: compositor revoked access or setup incomplete"
  | .entryNotFound id => "clipboard entry " ++ ToString.toString id ++ " not found"
  | .wayland detail => "wayland error: " ++ detail
  | .io detail => "clipboard I/O error: " ++ detail

inductive EntryKind
  | text
  | image
  | mixed
  deriving DecidableEq, Repr

structure EntrySummary where
  id : Nat
  timestampMillis : Nat
  kind : EntryKind
  primaryMime : String
  preview : String
  hasText : Bool
  deriving DecidableEq, Repr

inductive UiRequest
  | list (offset limit : Nat)
  | restore (entryId : Nat)
  | ping
  | subscribe
  deriving DecidableEq, Repr

inductive DaemonResponse
  | entries (total : Nat) (entries : List EntrySummary)
  | restored (entryId : Nat)
  | pong
  | subscribed
  | error (message : String)
  deriving DecidableEq, Repr

inductive ServerEvent
  | entryAdded (entry : EntrySummary)
  | selectionCleared
  deriving DecidableEq, Repr

structure RequestEnvelope where
  v : UInt8
  id : String
  req : UiRequest
  deriving DecidableEq, Repr

structure ResponseEnvelope where
  v : UInt8
  id : String
  resp : DaemonResponse
  deriving DecidableEq, Repr

structure EventEnvelope where
  v : UInt8
  event : ServerEvent
  deriving DecidableEq, Repr

/-- `s.chars().take(max_chars).collect()` -/
def truncatePreview (s : String) (maxChars : Nat) : String := String.ofList (s.toList.take maxChars)

def clampLimit (limit : Nat) : Nat := min limit maxListLimit

def DaemonResponse.ofError (err : ClipboardError) : DaemonResponse := .error err.toString

def EntryKind.of : ClipboardContent → EntryKind
  | .text _ => .text
  | .image _ => .image
  | .mixed _ => .mixed

/-- Milliseconds since the epoch as a `u64`, 0 before it. -/
def millisSinceEpoch (timestamp : SystemTime) : Nat :=
  if 0 ≤ timestamp then timestamp.toNat / 1000000 % 2 ^ 64 else 0

/-- `EntrySummary::from(&entry)` -/
def EntrySummary.of (e : ClipboardEntry) : EntrySummary where
  id := e.id
  timestampMillis := millisSinceEpoch e.timestamp
  kind := .of e.content
  primaryMime := e.mimeType
  preview := truncatePreview e.preview previewChars
  hasText := e.isText

@[simp] theorem EntrySummary.id_of (e : ClipboardEntry) : (EntrySummary.of e).id = e.id := rfl

abbrev Snapshot := List EntrySummary

def pushSummary (snap : Snapshot) (summary : EntrySummary) : Snapshot :=
  Bounded.push maxHistory snap summary

/-- A page of the snapshot, with the total it was cut from. -/
def listSnapshot (snap : Snapshot) (offset limit : Nat) : Nat × List EntrySummary :=
  (snap.length, (snap.drop offset).take (clampLimit limit))

end Uclip
