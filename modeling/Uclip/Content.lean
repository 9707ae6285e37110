import Mathlib.Data.List.Sort
import Mathlib.Data.String.Basic
import Uclip.Lib.HashMap
import Uclip.Lib.Text
import Uclip.Mime

/-!
# Clipboard content

One value per copy. `fromBlobs` classifies the raw `mime -> bytes` payloads of
a copy; `primaryMime`, `offeredMimes`, `representations` and `preview` are the
views of the result that history listings and restores use.
-/

namespace Uclip

open Text (Bytes fromUtf8Lossy firstLine)

abbrev Blobs := HashMap String Bytes

instance : DecidableEq Blobs := inferInstanceAs (DecidableEq (HashMap String Bytes))

def blobsOf (pairs : List (String × Bytes)) : Blobs := .ofList pairs

structure TextData where
  text : String
  html : Option String
  primaryMime : String
  offeredMimes : List String
  blobs : Blobs
  deriving DecidableEq

structure ImageData where
  mimeType : String
  bytes : Bytes
  deriving DecidableEq, Repr

structure MixedData where
  text : Option TextData
  images : List ImageData
  deriving DecidableEq

inductive ClipboardContent
  | text (t : TextData)
  | image (i : ImageData)
  | mixed (m : MixedData)
  deriving DecidableEq

def usizeMax : Nat := 2 ^ 64 - 1

def textRank (mime : String) : Nat := (preferredTextMimes.idxOf? mime).getD usizeMax

/-- The first preferred type that is present, else the smallest key. -/
def choosePrimary (hasher : Hasher String Bytes) (blobs : Blobs) : Option String :=
  (preferredTextMimes.find? (blobs.contains ·)).or
    ((hasher.keys blobs).insertionSort (· ≤ ·)).head?

def distinctHtml (blobs : Blobs) (primaryMime : String) : Option String :=
  match blobs["text/html"]? with
  | some bytes =>
    if blobs[primaryMime]? = some bytes ∨ primaryMime = "text/html" then none
    else some (fromUtf8Lossy bytes)
  | none => none

namespace ClipboardContent

def buildText (hasher : Hasher String Bytes) (blobs : Blobs) : Option TextData :=
  if blobs.isEmpty then none
  else do
    let primaryMime ← choosePrimary hasher blobs
    -- `expect("primary must exist")`: `choosePrimary_mem` shows the default is never used.
    some
      { text := fromUtf8Lossy (blobs[primaryMime]?.getD [])
        html := distinctHtml blobs primaryMime
        primaryMime
        offeredMimes := (hasher.keys blobs).insertionSort (textRank · ≤ textRank ·)
        blobs }

def textBlobs (blobs : Blobs) : Blobs :=
  blobs.filter fun mime bytes => !bytes.isEmpty && isTextMime mime

def imageBlobs (hasher : Hasher String Bytes) (blobs : Blobs) : List (String × Bytes) :=
  (hasher.entries blobs).filter fun (mime, bytes) => !bytes.isEmpty && !isTextMime mime

/-- `images.sort_by(|a, b| a.mime_type.cmp(&b.mime_type))` -/
def sortImages (images : List ImageData) : List ImageData :=
  images.insertionSort (·.mimeType ≤ ·.mimeType)

/-- Classify the payloads of one copy. `hasher` iterates the argument and
`textHasher` the text map built from it. -/
def fromBlobs (hasher textHasher : Hasher String Bytes) (blobs : Blobs) :
    Option ClipboardContent :=
  let texts := textBlobs blobs
  let images := imageBlobs hasher blobs
  if texts.isEmpty ∧ images.isEmpty then none
  else
    let text := buildText textHasher texts
    let images := sortImages (images.map fun (mime, bytes) => ⟨mime, bytes⟩)
    match text, images with
    | some t, [] => some (.text t)
    | none, [i] => some (.image i)
    | t, images => some (.mixed ⟨t, images⟩)

def primaryMime : ClipboardContent → String
  | .text t => t.primaryMime
  | .image i => i.mimeType
  | .mixed m =>
    ((m.text.map (·.primaryMime)).or (m.images.head?.map (·.mimeType))).getD
      "application/octet-stream"

def offeredMimes : ClipboardContent → List String
  | .text t => t.offeredMimes
  | .image i => [i.mimeType]
  | .mixed m => (m.text.map (·.offeredMimes)).getD [] ++ m.images.map (·.mimeType)

def insertImages (map : Blobs) (images : List ImageData) : Blobs :=
  images.foldl (fun map i => map.insert i.mimeType i.bytes) map

/-- Flattened `mime -> bytes` for a restore. -/
def representations : ClipboardContent → Blobs
  | .text t => t.blobs
  | .image i => (∅ : Blobs).insert i.mimeType i.bytes
  | .mixed m => insertImages ((m.text.map (·.blobs)).getD ∅) m.images

def hasText : ClipboardContent → Bool
  | .text _ => true
  | .image _ => false
  | .mixed m => m.text.isSome

/-- `format!("<{} bytes of {}>", i.bytes.len(), i.mime_type)` -/
def imageSummary (i : ImageData) : String :=
  "<" ++ toString i.bytes.length ++ " bytes of " ++ i.mimeType ++ ">"

def preview : ClipboardContent → String
  | .text t => firstLine t.text
  | .image i => imageSummary i
  | .mixed m =>
    let textPart := (m.text.map (firstLine ·.text)).getD ""
    let imagePart := String.intercalate ", " (m.images.map imageSummary)
    if textPart = "" then imagePart
    else if imagePart = "" then textPart
    else textPart ++ " + " ++ imagePart

end ClipboardContent

end Uclip
