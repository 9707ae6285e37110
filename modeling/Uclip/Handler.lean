import Uclip.Types
import Uclip.Lib.Json
import Uclip.Lib.Text

/-!
# What the socket task does with a line

The part of `handle_client` that needs no waiting: the answer to a line that is
too long, cannot be parsed or asks for something at hand. A `Restore` request
goes on to the Wayland thread.
-/

namespace Uclip

open Text (Bytes)

/-- The two uses of `serde_json::from_str` on a line: as a `RequestEnvelope`, with
the text of the error, and as a `serde_json::Value`. -/
structure Serde where
  ν : Type
  request : Bytes → Except String RequestEnvelope
  value : Bytes → Option (Json ν)

def Serde.fallbackId (serde : Serde) (line : Bytes) : Option String :=
  (serde.value line).bind fun v => (v.get "id").bind Json.toStr

def newline : UInt8 := 0x0A

def asciiLine (text : String) : Bytes := text.toList.map (·.toNat.toUInt8) ++ [newline]

/-- `{"v":1,"id":"<id>","req":<req>}` -/
def requestLine (id req : String) : Bytes :=
  asciiLine ("\x7b\"v\":1,\"id\":\"" ++ id ++ "\",\"req\":" ++ req ++ "\x7d")

def subscribeLine : Bytes := requestLine "s1" "\"Subscribe\""

def pingLine : Bytes := requestLine "p1" "\"Ping\""

def listLine : Bytes :=
  requestLine "l1" "\x7b\"List\":\x7b\"offset\":0,\"limit\":10\x7d\x7d"

def restoreLine : Bytes := requestLine "r1" "\x7b\"Restore\":\x7b\"entry_id\":1\x7d\x7d"

/-- `serde_json` on these four lines, and on what is not JSON. -/
def sampleSerde : Serde where
  ν := Empty
  request line :=
    if line = subscribeLine then .ok ⟨1, "s1", .subscribe⟩
    else if line = pingLine then .ok ⟨1, "p1", .ping⟩
    else if line = listLine then .ok ⟨1, "l1", .list 0 10⟩
    else if line = restoreLine then .ok ⟨1, "r1", .restore 1⟩
    else .error "expected value at line 1 column 1"
  value _ := none

inductive Message
  | response (envelope : ResponseEnvelope)
  | event (envelope : EventEnvelope)
  deriving DecidableEq, Repr

def respond (id : String) (resp : DaemonResponse) : Message := .response ⟨1, id, resp⟩

def eventMessage (event : ServerEvent) : Message := .event ⟨1, event⟩

def tooLongReply (line : Bytes) : Message :=
  respond "" (.error ("line too long: " ++ toString line.length ++ " bytes (max " ++
    toString maxLineBytes ++ ")"))

def invalidReply (serde : Serde) (line : Bytes) (err : String) : Message :=
  respond ((serde.fallbackId line).getD "") (.error ("invalid request: " ++ err))

def laggedReply : Message := respond "" (.error "lagged, re-list")

inductive Handling
  | reply (message : Message)
  | restore (id : String) (entryId : Nat)
  deriving DecidableEq, Repr

def handleRequest (snapshot : Snapshot) (request : RequestEnvelope) : Handling :=
  match request.req with
  | .list offset limit =>
    let (total, entries) := listSnapshot snapshot offset limit
    .reply (respond request.id (.entries total entries))
  | .restore entryId => .restore request.id entryId
  | .ping => .reply (respond request.id .pong)
  | .subscribe => .reply (respond request.id .subscribed)

/-- A line that is too long is not parsed. -/
def parseLine (serde : Serde) (line : Bytes) : Except Message RequestEnvelope :=
  if maxLineBytes < line.length then .error (tooLongReply line)
  else (serde.request line).mapError (invalidReply serde line)

def handleLine (serde : Serde) (snapshot : Snapshot) (line : Bytes) : Handling :=
  match parseLine serde line with
  | .ok request => handleRequest snapshot request
  | .error message => .reply message

def subscribes (serde : Serde) (line : Bytes) : Bool :=
  match parseLine serde line with
  | .ok request => request.req = .subscribe
  | .error _ => false

def restores (serde : Serde) (line : Bytes) : Bool :=
  match parseLine serde line with
  | .ok ⟨_, _, .restore _⟩ => true
  | _ => false

def lists (serde : Serde) (line : Bytes) : Bool :=
  match parseLine serde line with
  | .ok ⟨_, _, .list _ _⟩ => true
  | _ => false

end Uclip
