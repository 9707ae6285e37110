import Uclip.AppState

/-!
# Draining the pipes

`drainPendingReads` reads every queued pipe, groups the payloads by offer id and
stores one entry per copy. What the pipes give, what the clock says and how the
maps are iterated is the environment's choice.
-/

namespace Uclip

open Text (Bytes)

inductive ReadOutcome
  | stored (entryId : Nat) (primaryMime : String)
  | ignoredDuplicate (primaryMime : String)
  | truncated (mimeType : String) (originalBytes : Nat)
  | readError (mimeType : String) (error : String)
  deriving DecidableEq, Repr

/-- What one drain meets: the bytes of each pipe up to its end or a read error,
and for each offer id the iteration orders and the wall clock at its store. -/
structure DrainEnv where
  pipe : Fd → Except String Bytes
  hasher : Nat → Hasher String Bytes
  textHasher : Nat → Hasher String Bytes
  now : Nat → SystemTime

/-- At most `maxContentBytes`, and whether there was more. -/
def readBounded (stream : Except String Bytes) : Except String (Bytes × Bool) := do
  let buf := (← stream).take (maxContentBytes + 1)
  let truncated := buf.length > maxContentBytes
  .ok (if truncated then buf.take maxContentBytes else buf, truncated)

structure Grouping where
  outcomes : List ReadOutcome := []
  order : List Nat := []
  grouped : HashMap Nat Blobs := ∅

def Grouping.read (env : DrainEnv) (g : Grouping) (read : PendingRead) : Grouping :=
  match readBounded (env.pipe read.fd) with
  | .ok (buf, wasTruncated) =>
    let outcomes :=
      if wasTruncated then g.outcomes ++ [.truncated read.mimeType (maxContentBytes + 1)]
      else g.outcomes
    if buf.isEmpty then { g with outcomes }
    else
      let blobs := g.grouped[read.offerId]?.getD ∅
      { outcomes
        order := if read.offerId ∈ g.grouped then g.order else g.order ++ [read.offerId]
        grouped := g.grouped.insert read.offerId (blobs.insert read.mimeType buf) }
  | .error error => { g with outcomes := g.outcomes ++ [.readError read.mimeType error] }

def groupReads (env : DrainEnv) (reads : List PendingRead) : Grouping :=
  reads.foldl (Grouping.read env) {}

def duplicateLabel (blobs : Blobs) : String :=
  if blobs.contains "text/plain;charset=utf-8" then "text/plain;charset=utf-8"
  else if blobs.contains "text/plain" then "text/plain"
  else blobs.minKey?.getD ""

def storeCopy (env : DrainEnv) (grouped : HashMap Nat Blobs)
    (acc : AppState × List ReadOutcome) (offerId : Nat) : AppState × List ReadOutcome :=
  let (s, outcomes) := acc
  let s := s.removeOffer offerId
  -- `grouped.remove`: an id stands once in `order`, so nothing reads it again.
  let blobs := grouped[offerId]?.getD ∅
  if blobs.isEmpty then (s, outcomes)
  else
    match s.clipboard.addGrouped (env.hasher offerId) (env.textHasher offerId) (env.now offerId)
        blobs with
    | (some entryId, clipboard) =>
      let s := { s with clipboard }
      match s.clipboard.get entryId with
      | some entry => (s, outcomes ++ [.stored entryId entry.content.primaryMime])
      | none => (s, outcomes)
    | (none, clipboard) =>
      ({ s with clipboard }, outcomes ++ [.ignoredDuplicate (duplicateLabel blobs)])

def drainPendingReads (env : DrainEnv) (s : AppState) : AppState × List ReadOutcome :=
  let g := groupReads env s.pendingReads
  g.order.foldl (storeCopy env g.grouped) ({ s with pendingReads := [] }, g.outcomes)

def storedIds (outcomes : List ReadOutcome) : List Nat :=
  outcomes.filterMap fun
    | .stored entryId _ => some entryId
    | _ => none

end Uclip
