import Mathlib.Data.List.DropRight
import Uclip.Handler
import Uclip.Lib.JsonText

/-!
# The wire format

What the derived `Serialize` and `Deserialize` of the wire types do with JSON
values, and the stream that `send_envelope` and `send_event` write: one JSON
object a line. `serde_json` itself, which turns values into text and back, is a
parameter.
-/

namespace Uclip

open Text (Bytes)

variable {ν : Type}

-- ---------------------------------------------------------------------------
-- Serialize and Deserialize
-- ---------------------------------------------------------------------------

def EntryKind.serialize : EntryKind → Json ν
  | .text => .string "text"
  | .image => .string "image"
  | .mixed => .string "mixed"

def EntryKind.deserialize (json : Json ν) : Option EntryKind :=
  match json.toVariant with
  | some ("text", content) => Json.toUnit .text content
  | some ("image", content) => Json.toUnit .image content
  | some ("mixed", content) => Json.toUnit .mixed content
  | _ => none

def EntrySummary.serialize (summary : EntrySummary) : Json ν :=
  .object [("id", .ofU64 summary.id), ("timestamp_millis", .ofU64 summary.timestampMillis),
    ("kind", summary.kind.serialize), ("primary_mime", .string summary.primaryMime),
    ("preview", .string summary.preview), ("has_text", .bool summary.hasText)]

def EntrySummary.deserialize (json : Json ν) : Option EntrySummary := do
  let get ← json.toStruct
    ["id", "timestamp_millis", "kind", "primary_mime", "preview", "has_text"]
  return {
    id := ← (get "id").bind Json.toU64
    timestampMillis := ← (get "timestamp_millis").bind Json.toU64
    kind := ← (get "kind").bind EntryKind.deserialize
    primaryMime := ← (get "primary_mime").bind Json.toStr
    preview := ← (get "preview").bind Json.toStr
    hasText := ← (get "has_text").bind Json.toBool }

def UiRequest.serialize : UiRequest → Json ν
  | .list offset limit =>
    .object [("List", .object [("offset", .ofU64 offset), ("limit", .ofU64 limit)])]
  | .restore entryId => .object [("Restore", .object [("entry_id", .ofU64 entryId)])]
  | .ping => .string "Ping"
  | .subscribe => .string "Subscribe"

def UiRequest.deserialize (json : Json ν) : Option UiRequest :=
  match json.toVariant with
  | some ("List", some content) => do
    let get ← content.toStruct ["offset", "limit"]
    return .list (← (get "offset").bind Json.toU64) (← (get "limit").bind Json.toU64)
  | some ("Restore", some content) => do
    let get ← content.toStruct ["entry_id"]
    return .restore (← (get "entry_id").bind Json.toU64)
  | some ("Ping", content) => Json.toUnit .ping content
  | some ("Subscribe", content) => Json.toUnit .subscribe content
  | _ => none

def DaemonResponse.serialize : DaemonResponse → Json ν
  | .entries total rows =>
    .object [("Entries", .object
      [("total", .ofU64 total), ("entries", .array (rows.map EntrySummary.serialize))])]
  | .restored entryId => .object [("Restored", .object [("entry_id", .ofU64 entryId)])]
  | .pong => .string "Pong"
  | .subscribed => .string "Subscribed"
  | .error message => .object [("Error", .object [("message", .string message)])]

def DaemonResponse.deserialize (json : Json ν) : Option DaemonResponse :=
  match json.toVariant with
  | some ("Entries", some content) => do
    let get ← content.toStruct ["total", "entries"]
    return .entries (← (get "total").bind Json.toU64)
      (← (get "entries").bind (Json.toVec EntrySummary.deserialize))
  | some ("Restored", some content) => do
    let get ← content.toStruct ["entry_id"]
    return .restored (← (get "entry_id").bind Json.toU64)
  | some ("Pong", content) => Json.toUnit .pong content
  | some ("Subscribed", content) => Json.toUnit .subscribed content
  | some ("Error", some content) => do
    let get ← content.toStruct ["message"]
    return .error (← (get "message").bind Json.toStr)
  | _ => none

def ServerEvent.serialize : ServerEvent → Json ν
  | .entryAdded entry => .object [("EntryAdded", .object [("entry", entry.serialize)])]
  | .selectionCleared => .string "SelectionCleared"

def ServerEvent.deserialize (json : Json ν) : Option ServerEvent :=
  match json.toVariant with
  | some ("EntryAdded", some content) => do
    let get ← content.toStruct ["entry"]
    return .entryAdded (← (get "entry").bind EntrySummary.deserialize)
  | some ("SelectionCleared", content) => Json.toUnit .selectionCleared content
  | _ => none

def defaultVersion : UInt8 := 1

/-- `#[serde(default = "default_version")]` -/
def version (field : Option (Json ν)) : Option UInt8 :=
  match field with
  | some v => v.toU8
  | none => some defaultVersion

def RequestEnvelope.serialize (envelope : RequestEnvelope) : Json ν :=
  .object [("v", .ofU8 envelope.v), ("id", .string envelope.id), ("req", envelope.req.serialize)]

def RequestEnvelope.deserialize (json : Json ν) : Option RequestEnvelope := do
  let get ← json.toStruct ["v", "id", "req"]
  return ⟨← version (get "v"), ← (get "id").bind Json.toStr,
    ← (get "req").bind UiRequest.deserialize⟩

def ResponseEnvelope.serialize (envelope : ResponseEnvelope) : Json ν :=
  .object [("v", .ofU8 envelope.v), ("id", .string envelope.id), ("resp", envelope.resp.serialize)]

def ResponseEnvelope.deserialize (json : Json ν) : Option ResponseEnvelope := do
  let get ← json.toStruct ["v", "id", "resp"]
  return ⟨← version (get "v"), ← (get "id").bind Json.toStr,
    ← (get "resp").bind DaemonResponse.deserialize⟩

def EventEnvelope.serialize (envelope : EventEnvelope) : Json ν :=
  .object [("v", .ofU8 envelope.v), ("event", envelope.event.serialize)]

def EventEnvelope.deserialize (json : Json ν) : Option EventEnvelope := do
  let get ← json.toStruct ["v", "event"]
  return ⟨← version (get "v"), ← (get "event").bind ServerEvent.deserialize⟩

-- ---------------------------------------------------------------------------
-- Round trips
-- ---------------------------------------------------------------------------

def EntrySummary.Fits (summary : EntrySummary) : Prop :=
  summary.id < 2 ^ 64 ∧ summary.timestampMillis < 2 ^ 64

def UiRequest.Fits : UiRequest → Prop
  | .list offset limit => offset < 2 ^ 64 ∧ limit < 2 ^ 64
  | .restore entryId => entryId < 2 ^ 64
  | .ping | .subscribe => True

def DaemonResponse.Fits : DaemonResponse → Prop
  | .entries total rows => total < 2 ^ 64 ∧ ∀ row ∈ rows, row.Fits
  | .restored entryId => entryId < 2 ^ 64
  | .pong | .subscribed | .error _ => True

def ServerEvent.Fits : ServerEvent → Prop
  | .entryAdded entry => entry.Fits
  | .selectionCleared => True

@[simp] theorem EntryKind.deserialize_serialize (kind : EntryKind) :
    deserialize (kind.serialize : Json ν) = some kind := by
  cases kind <;> rfl

theorem EntrySummary.deserialize_serialize {summary : EntrySummary} (h : summary.Fits) :
    deserialize (summary.serialize : Json ν) = some summary := by
  have hid : (Json.ofU64 summary.id : Json ν).toU64 = _ := Json.toU64_ofU64 h.1
  have hmillis : (Json.ofU64 summary.timestampMillis : Json ν).toU64 = _ := Json.toU64_ofU64 h.2
  have hkind : EntryKind.deserialize (summary.kind.serialize : Json ν) = _ :=
    EntryKind.deserialize_serialize summary.kind
  have hget : (summary.serialize : Json ν).toStruct
      ["id", "timestamp_millis", "kind", "primary_mime", "preview", "has_text"] = some _ :=
    Json.toStruct_object rfl (by decide)
  rw [deserialize, hget]
  show (do
    let id ← (Json.ofU64 summary.id : Json ν).toU64
    let millis ← (Json.ofU64 summary.timestampMillis : Json ν).toU64
    let kind ← EntryKind.deserialize (summary.kind.serialize : Json ν)
    some (EntrySummary.mk id millis kind summary.primaryMime summary.preview summary.hasText)) = _
  rw [hid, hmillis, hkind]
  rfl

theorem UiRequest.deserialize_serialize {req : UiRequest} (h : req.Fits) :
    deserialize (req.serialize : Json ν) = some req := by
  cases req with
  | list offset limit =>
    have hoffset : (Json.ofU64 offset : Json ν).toU64 = _ := Json.toU64_ofU64 h.1
    have hlimit : (Json.ofU64 limit : Json ν).toU64 = _ := Json.toU64_ofU64 h.2
    simp [serialize, deserialize, Json.toVariant, Json.toStruct_object, List.lookup_cons,
      hoffset, hlimit]
  | restore entryId =>
    have hid : (Json.ofU64 entryId : Json ν).toU64 = _ := Json.toU64_ofU64 h
    simp [serialize, deserialize, Json.toVariant, Json.toStruct_object, List.lookup_cons, hid]
  | ping => rfl
  | subscribe => rfl

theorem DaemonResponse.deserialize_serialize {resp : DaemonResponse} (h : resp.Fits) :
    deserialize (resp.serialize : Json ν) = some resp := by
  cases resp with
  | entries total rows =>
    have htotal : (Json.ofU64 total : Json ν).toU64 = _ := Json.toU64_ofU64 h.1
    have hrows : Json.toVec EntrySummary.deserialize
        (.array (rows.map EntrySummary.serialize) : Json ν) = some rows :=
      Json.toVec_map fun row hrow => EntrySummary.deserialize_serialize (h.2 row hrow)
    simp [serialize, deserialize, Json.toVariant, Json.toStruct_object, List.lookup_cons,
      htotal, hrows]
  | restored entryId =>
    have hid : (Json.ofU64 entryId : Json ν).toU64 = _ := Json.toU64_ofU64 h
    simp [serialize, deserialize, Json.toVariant, Json.toStruct_object, List.lookup_cons, hid]
  | pong => rfl
  | subscribed => rfl
  | error message =>
    simp [serialize, deserialize, Json.toVariant, Json.toStruct_object, List.lookup_cons]

theorem ServerEvent.deserialize_serialize {event : ServerEvent} (h : event.Fits) :
    deserialize (event.serialize : Json ν) = some event := by
  cases event with
  | entryAdded entry =>
    have hentry : EntrySummary.deserialize (entry.serialize : Json ν) = _ :=
      EntrySummary.deserialize_serialize h
    simp [serialize, deserialize, Json.toVariant, Json.toStruct_object, List.lookup_cons, hentry]
  | selectionCleared => rfl

theorem version_ofU8 (v : UInt8) : version (some (Json.ofU8 v : Json ν)) = some v := by
  rw [version, Json.toU8_ofU8]

theorem RequestEnvelope.deserialize_serialize {envelope : RequestEnvelope}
    (h : envelope.req.Fits) : deserialize (envelope.serialize : Json ν) = some envelope := by
  have hreq : UiRequest.deserialize (envelope.req.serialize : Json ν) = _ :=
    UiRequest.deserialize_serialize h
  simp [serialize, deserialize, Json.toStruct_object, List.lookup_cons, hreq, version_ofU8]

theorem ResponseEnvelope.deserialize_serialize {envelope : ResponseEnvelope}
    (h : envelope.resp.Fits) : deserialize (envelope.serialize : Json ν) = some envelope := by
  have hresp : DaemonResponse.deserialize (envelope.resp.serialize : Json ν) = _ :=
    DaemonResponse.deserialize_serialize h
  simp [serialize, deserialize, Json.toStruct_object, List.lookup_cons, hresp, version_ofU8]

theorem EventEnvelope.deserialize_serialize {envelope : EventEnvelope}
    (h : envelope.event.Fits) : deserialize (envelope.serialize : Json ν) = some envelope := by
  have hevent : ServerEvent.deserialize (envelope.event.serialize : Json ν) = _ :=
    ServerEvent.deserialize_serialize h
  simp [serialize, deserialize, Json.toStruct_object, List.lookup_cons, hevent, version_ofU8]

-- ---------------------------------------------------------------------------
-- The stream
-- ---------------------------------------------------------------------------

/-- `serde_json` between values and text. A derived decoder skips the values it
has no field for; a `serde_json::Value` keeps them all, and must be able to hold
them: a number in the range of a float, so many levels and no more. -/
structure SerdeJson (ν : Type) where
  toString : Json ν → String
  fromStr : String → Option (Json ν)
  holds : Json ν → Bool

/-- Compact text: control characters are escaped, and parsing inverts printing. -/
structure SerdeJson.Lawful (serdeJson : SerdeJson ν) : Prop where
  printable : ∀ json, ∀ c ∈ (serdeJson.toString json).toList, 0x20 ≤ c.toNat
  fromStr_toString : ∀ json, serdeJson.fromStr (serdeJson.toString json) = some json

def Message.Fits : Message → Prop
  | .response envelope => envelope.resp.Fits
  | .event envelope => envelope.event.Fits

/-- A call of `send_envelope` or of `send_event`. -/
inductive Send
  | envelope (reply : ResponseEnvelope)
  | event (event : ServerEvent)

def Send.message : Send → Message
  | .envelope reply => .response reply
  | .event pushed => eventMessage pushed

namespace SerdeJson

variable (serdeJson : SerdeJson ν)

def bytes (json : Json ν) : Bytes := Text.utf8 (serdeJson.toString json)

def writeLine (json : Json ν) : Bytes := Text.utf8 ((serdeJson.toString json).push '\n')

def sendEnvelope (envelope : ResponseEnvelope) : Bytes := serdeJson.writeLine envelope.serialize

def sendEvent (event : ServerEvent) : Bytes :=
  serdeJson.writeLine (EventEnvelope.serialize { v := 1, event })

def send : Send → Bytes
  | .envelope reply => serdeJson.sendEnvelope reply
  | .event event => serdeJson.sendEvent event

def readAs (deserialize : Json ν → Option α) (line : Bytes) : Option α := do
  let text ← Text.fromUtf8 line
  let json ← serdeJson.fromStr text
  deserialize json

def serde (error : Bytes → String) : Serde where
  ν
  request line :=
    match serdeJson.readAs RequestEnvelope.deserialize line with
    | some request => .ok request
    | none => .error (error line)
  value line := (serdeJson.readAs some line).filter serdeJson.holds

/-- A line that is this message, and nothing of the other type. -/
def Reads (line : Bytes) : Message → Prop
  | .response envelope =>
    serdeJson.readAs ResponseEnvelope.deserialize line = some envelope ∧
      serdeJson.readAs EventEnvelope.deserialize line = none
  | .event envelope =>
    serdeJson.readAs EventEnvelope.deserialize line = some envelope ∧
      serdeJson.readAs ResponseEnvelope.deserialize line = none

/-- What a newer peer may add and an older one leaves out. -/
structure Compatible (names : List String) (deserialize : Json ν → Option α) : Prop where
  unknown : ∀ fields fields', Json.WithUnknown names fields fields' →
    serdeJson.readAs deserialize (serdeJson.bytes (.object fields')) =
      serdeJson.readAs deserialize (serdeJson.bytes (.object fields))
  version : ∀ before after, "v" ∉ (before ++ after).map (·.1) →
    serdeJson.readAs deserialize
        (serdeJson.bytes (.object (before ++ ("v", .ofU8 defaultVersion) :: after))) =
      serdeJson.readAs deserialize (serdeJson.bytes (.object (before ++ after)))

end SerdeJson

variable {serdeJson : SerdeJson ν}

theorem SerdeJson.Lawful.readAs_bytes (h : serdeJson.Lawful) (deserialize : Json ν → Option α)
    (json : Json ν) : serdeJson.readAs deserialize (serdeJson.bytes json) = deserialize json := by
  rw [readAs, bytes, Text.fromUtf8_utf8]
  show (serdeJson.fromStr _).bind deserialize = _
  rw [h.fromStr_toString, Option.bind_some]

theorem SerdeJson.writeLine_eq (serdeJson : SerdeJson ν) (json : Json ν) :
    serdeJson.writeLine json = serdeJson.bytes json ++ [newline] := Text.utf8_push ..

theorem SerdeJson.Lawful.newline_not_mem (h : serdeJson.Lawful) (json : Json ν) :
    newline ∉ serdeJson.bytes json :=
  Text.lineBreak_not_mem_utf8 fun hmem => absurd (h.printable json _ hmem) (by decide)

theorem EventEnvelope.deserialize_response (envelope : ResponseEnvelope) :
    EventEnvelope.deserialize (envelope.serialize : Json ν) = none := by
  have hget : (envelope.serialize : Json ν).toStruct ["v", "event"] =
      some (List.lookup · [("v", .ofU8 envelope.v)]) := rfl
  rw [EventEnvelope.deserialize, hget]
  show (version (some (Json.ofU8 envelope.v : Json ν))).bind (fun _ => none) = none
  rw [version_ofU8, Option.bind_some]

theorem ResponseEnvelope.deserialize_event (envelope : EventEnvelope) :
    ResponseEnvelope.deserialize (envelope.serialize : Json ν) = none := by
  have hget : (envelope.serialize : Json ν).toStruct ["v", "id", "resp"] =
      some (List.lookup · [("v", .ofU8 envelope.v)]) := rfl
  rw [ResponseEnvelope.deserialize, hget]
  show (version (some (Json.ofU8 envelope.v : Json ν))).bind (fun _ => none) = none
  rw [version_ofU8, Option.bind_some]

theorem SerdeJson.Lawful.reads_response (h : serdeJson.Lawful) {envelope : ResponseEnvelope}
    (hfits : envelope.resp.Fits) :
    serdeJson.Reads (serdeJson.bytes envelope.serialize) (.response envelope) :=
  ⟨by rw [h.readAs_bytes, ResponseEnvelope.deserialize_serialize hfits],
    by rw [h.readAs_bytes, EventEnvelope.deserialize_response]⟩

theorem SerdeJson.Lawful.reads_event (h : serdeJson.Lawful) {envelope : EventEnvelope}
    (hfits : envelope.event.Fits) :
    serdeJson.Reads (serdeJson.bytes envelope.serialize) (.event envelope) :=
  ⟨by rw [h.readAs_bytes, EventEnvelope.deserialize_serialize hfits],
    by rw [h.readAs_bytes, ResponseEnvelope.deserialize_event]⟩

theorem SerdeJson.Lawful.send (h : serdeJson.Lawful) {send : Send} (hfits : send.message.Fits) :
    ∃ line, serdeJson.send send = line ++ [newline] ∧ newline ∉ line ∧
      serdeJson.Reads line send.message := by
  cases send with
  | envelope reply =>
    exact ⟨_, writeLine_eq .., h.newline_not_mem _, h.reads_response hfits⟩
  | event event => exact ⟨_, writeLine_eq .., h.newline_not_mem _, h.reads_event hfits⟩

theorem SerdeJson.Lawful.splitOn_stream (h : serdeJson.Lawful) {sends : List Send}
    (hfits : ∀ send ∈ sends, send.message.Fits) :
    ∃ lines, (sends.flatMap serdeJson.send).splitOn newline = lines ++ [[]] ∧
      List.Forall₂ serdeJson.Reads lines (sends.map Send.message) := by
  induction sends with
  | nil => exact ⟨[], rfl, .nil⟩
  | cons send sends ih =>
    obtain ⟨hsend, hrest⟩ := List.forall_mem_cons.mp hfits
    obtain ⟨line, hwrite, hno, hreads⟩ := h.send hsend
    obtain ⟨lines, hlines, hall⟩ := ih hrest
    refine ⟨line :: lines, ?_, .cons hreads hall⟩
    rw [List.flatMap_cons, hwrite, List.append_assoc, List.singleton_append,
      List.splitOn_append_cons_self_of_not_mem hno, hlines, List.cons_append]

theorem SerdeJson.Lawful.compatible (h : serdeJson.Lawful) {deserialize : Json ν → Option α}
    {build : (String → Option (Json ν)) → Option α}
    (hbuild : ∀ json, deserialize json = (json.toStruct names).bind build) (hnames : "v" ∈ names)
    (hversion : ∀ get, get "v" = none →
      build (fun key => if key = "v" then some (.ofU8 defaultVersion) else get key) = build get) :
    serdeJson.Compatible names deserialize := by
  refine ⟨fun fields fields' hunknown => ?_, fun before after hnew => ?_⟩
  · rw [h.readAs_bytes, h.readAs_bytes, hbuild, hbuild, Json.toStruct_withUnknown hunknown]
  · rw [h.readAs_bytes, h.readAs_bytes, hbuild, hbuild]
    exact Json.bind_toStruct_insert hnames hnew hversion

theorem version_default :
    version (some (.ofU8 defaultVersion : Json ν)) = version (none : Option (Json ν)) :=
  version_ofU8 defaultVersion

theorem RequestEnvelope.compatible (h : serdeJson.Lawful) :
    serdeJson.Compatible ["v", "id", "req"] RequestEnvelope.deserialize :=
  h.compatible (fun _ => rfl) (by decide) fun get hget => by simp [hget, version_default]

theorem ResponseEnvelope.compatible (h : serdeJson.Lawful) :
    serdeJson.Compatible ["v", "id", "resp"] ResponseEnvelope.deserialize :=
  h.compatible (fun _ => rfl) (by decide) fun get hget => by simp [hget, version_default]

theorem EventEnvelope.compatible (h : serdeJson.Lawful) :
    serdeJson.Compatible ["v", "event"] EventEnvelope.deserialize :=
  h.compatible (fun _ => rfl) (by decide) fun get hget => by simp [hget, version_default]

/-- Whatever the two functions write, the lines of the stream are its messages,
each read as what it is and not as the other type; events of any version and
requests are read back too; unknown fields and a `v` of 1 make no difference to
any of the three. -/
theorem wire_round_trip (h : serdeJson.Lawful) :
    (∀ sends : List Send, (∀ send ∈ sends, send.message.Fits) →
      ∃ lines, (sends.flatMap serdeJson.send).splitOn newline = lines ++ [[]] ∧
        List.Forall₂ serdeJson.Reads lines (sends.map Send.message)) ∧
    (∀ envelope : EventEnvelope, envelope.event.Fits →
      serdeJson.Reads (serdeJson.bytes envelope.serialize) (.event envelope)) ∧
    (∀ envelope : RequestEnvelope, envelope.req.Fits →
      serdeJson.readAs RequestEnvelope.deserialize (serdeJson.bytes envelope.serialize) =
        some envelope) ∧
    serdeJson.Compatible ["v", "id", "req"] RequestEnvelope.deserialize ∧
    serdeJson.Compatible ["v", "id", "resp"] ResponseEnvelope.deserialize ∧
    serdeJson.Compatible ["v", "event"] EventEnvelope.deserialize := by
  refine ⟨fun sends hfits => h.splitOn_stream hfits, fun envelope hfits => h.reads_event hfits,
    fun envelope hfits => ?_, RequestEnvelope.compatible h, ResponseEnvelope.compatible h,
    EventEnvelope.compatible h⟩
  rw [h.readAs_bytes, RequestEnvelope.deserialize_serialize hfits]

-- ---------------------------------------------------------------------------
-- A writer and a reader
-- ---------------------------------------------------------------------------

def compactJson : SerdeJson Empty where
  toString json := String.ofList json.text
  fromStr text := Json.parse (text.toList.rdropWhile (· = '\n'))
  holds _ := true

theorem compactJson_lawful : compactJson.Lawful where
  printable json := by
    rw [compactJson, String.toList_ofList]
    exact Json.printable_text json
  fromStr_toString json := by
    have hlast : json.text.rdropWhile (· = '\n') = json.text := by
      refine List.rdropWhile_eq_self_iff.mpr fun hne hlast => ?_
      have hprintable := Json.printable_text json _ (List.getLast_mem hne)
      rw [of_decide_eq_true hlast] at hprintable
      exact absurd hprintable (by decide)
    show Json.parse ((String.ofList json.text).toList.rdropWhile (· = '\n')) = some json
    rw [String.toList_ofList, hlast, Json.parse_text]

example : compactJson.toString (RequestEnvelope.serialize ⟨1, "r1", .list 0 50⟩) =
    "\x7b\"v\":1,\"id\":\"r1\",\"req\":\x7b\"List\":\x7b\"offset\":0,\"limit\":50\x7d\x7d\x7d" := by
  decide +kernel

def quotedSends : List Send :=
  [.envelope ⟨1, "a\"b", .error "line 1\nline 2"⟩,
    .event (.entryAdded ⟨7, 1700000000000, .text, "text/plain", "tab\tand \"quote\"", true⟩)]

theorem quotedSends_read : ∃ lines,
    (quotedSends.flatMap compactJson.send).splitOn newline = lines ++ [[]] ∧
      List.Forall₂ compactJson.Reads lines (quotedSends.map Send.message) :=
  (wire_round_trip compactJson_lawful).1 quotedSends
    (List.forall_mem_cons.mpr ⟨trivial, List.forall_mem_singleton.mpr ⟨by decide, by decide⟩⟩)

end Uclip
