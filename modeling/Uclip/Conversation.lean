import Uclip.Framing
import Uclip.Wire

/-!
# A conversation with one client

The session of a client, with the lines that are written back to it. Every line
that is read has its reply written before the next one is read; a `Restore` is
put into the channel of requests and its reply is waited for. All writes succeed.
-/

namespace Uclip

open Text (Bytes)

inductive RestoreWait
  | closed
  | answered (resp : DaemonResponse)
  | gone
  | timedOut
  deriving DecidableEq, Repr

def RestoreWait.response : RestoreWait → DaemonResponse
  | .closed => .error "daemon shutting down"
  | .answered resp => resp
  | .gone => .error "restore failed: wayland thread gone"
  | .timedOut => .error "restore timed out"

/-- `handleLine`, where the lock of the snapshot may be poisoned. -/
def handleLocked (serde : Serde) (lock : Option Snapshot) (line : Bytes) : Handling :=
  match parseLine serde line with
  | .error message => .reply message
  | .ok request =>
    match request.req, lock with
    | .list _ _, none => .reply (respond request.id (.error "history unavailable"))
    | _, lock => handleRequest (lock.getD []) request

inductive RestorePoint
  /-- At `req_tx.send(..).await`. -/
  | sending
  /-- There, after the channel was found full. -/
  | parked
  /-- At `timeout(.., rx).await`. -/
  | awaiting
  deriving DecidableEq, Repr

structure Restoring where
  id : String
  entryId : Nat
  point : RestorePoint := .sending
  deriving DecidableEq, Repr

/-- A closed channel is found by the send, anything else by the wait for the reply. -/
def Restoring.settles (restoring : Restoring) : RestoreWait → Bool
  | .closed => restoring.point ≠ .awaiting
  | _ => restoring.point = .awaiting

structure Conversation where
  session : Session := {}
  restoring : Option Restoring := none
  written : List Message := []
  deriving DecidableEq, Repr

inductive ConversationAct
  | arrive (chunk : Bytes)
  | finish
  | pollRead (lock : Option Snapshot)
  /-- The send finds the channel full. -/
  | full
  /-- The send puts the request into the channel. -/
  | queued
  | settle (wait : RestoreWait)
  | event (event : ServerEvent)
  deriving DecidableEq, Repr

namespace Conversation

def handleRead (serde : Serde) (lock : Option Snapshot) (s : Conversation) (line : Bytes) :
    Conversation :=
  let session := s.session.handleRead serde line
  if session.closed then { s with session }
  else
    match handleLocked serde lock line with
    | .reply message => { s with session, written := s.written ++ [message] }
    | .restore id entryId => { s with session, restoring := some { id, entryId } }

def pollSend (s : Conversation) (point : RestorePoint) : Option Conversation :=
  match s.restoring with
  | some restoring =>
    if restoring.point = .awaiting then none
    else some { s with restoring := some { restoring with point } }
  | none => none

def act (serde : Serde) (s : Conversation) : ConversationAct → Option Conversation
  | .arrive chunk =>
    (s.session.act serde (.arrive chunk)).map fun session => { s with session }
  | .finish => (s.session.act serde .finish).map fun session => { s with session }
  | .pollRead lock =>
    if s.session.closed || s.restoring.isSome then none
    else
      match s.session.readLine with
      | (session, some line) => some ({ s with session }.handleRead serde lock line)
      | (session, none) => some { s with session }
  | .full => s.pollSend .parked
  | .queued => s.pollSend .awaiting
  | .settle wait =>
    match s.restoring with
    | some restoring =>
      if restoring.settles wait then
        some { s with
          restoring := none
          written := s.written ++ [respond restoring.id wait.response] }
      else none
    | none => none
  | .event event =>
    if s.restoring.isSome then none
    else
      (s.session.act serde .event).map fun session =>
        { s with session, written := s.written ++ [eventMessage event] }

/-- Left to itself, the task makes no step: it has no line to read, or the
channel was full. -/
def Idle (s : Conversation) : Prop :=
  match s.restoring with
  | none => newline ∉ s.session.arrived
  | some restoring => restoring.point = .parked

end Conversation

def conversationSystem (serde : Serde) : System Conversation ConversationAct :=
  .ofAct {} (Conversation.act serde)

/-- What the client has sent. -/
def said (acts : List ConversationAct) : Bytes :=
  acts.flatMap fun
    | .arrive chunk => chunk
    | _ => []

/-- A reply, with the `id` of the line, unless the line is too long or has none. -/
def Answers (ids : Bytes → Option String) (line : Bytes) (message : Message) : Prop :=
  ∃ envelope, message = .response envelope ∧
    (line.length ≤ maxLineBytes → ∀ id, ids line = some id → envelope.id = id)

/-- Every line is answered in its turn, until the client closes. -/
structure EachAnswered (ids : Bytes → Option String) (lines : List Bytes) (unsent : Bytes)
    (s : Conversation) : Prop where
  inTurn : ∃ done rest, lines = done ++ rest ∧ List.Forall₂ (Answers ids) done s.written
  untilClosed : s.session.closed = true →
    s.session.ended = true ∧ s.written.length = lines.length
  everyLine : unsent = [] → s.Idle → s.written.length = lines.length

@[simp] theorem said_append (acts acts' : List ConversationAct) :
    said (acts ++ acts') = said acts ++ said acts' := by
  simp [said]

-- ---------------------------------------------------------------------------
-- The reply to a line
-- ---------------------------------------------------------------------------

variable {serde : Serde} {ids : Bytes → Option String} {s s' : Conversation}
  {a : ConversationAct} {acts : List ConversationAct} {lines : List Bytes} {unsent : Bytes}
  {fills : Prop}

/-- The `id` under which a line is answered. -/
def Serde.replyId (serde : Serde) (line : Bytes) : String :=
  match serde.request line with
  | .ok request => request.id
  | .error _ => (serde.fallbackId line).getD ""

def Recovers (serde : Serde) (ids : Bytes → Option String) (line : Bytes) : Prop :=
  line.length ≤ maxLineBytes → ∀ id, ids line = some id → serde.replyId line = id

theorem answers_respond_iff {line : Bytes} (resp : DaemonResponse) :
    Answers ids line (respond (serde.replyId line) resp) ↔ Recovers serde ids line := by
  refine ⟨fun ⟨envelope, heq, hid⟩ => ?_, fun h => ⟨_, rfl, h⟩⟩
  cases heq
  exact hid

theorem recovers_tooLong {line : Bytes} (h : maxLineBytes < line.length) :
    Recovers serde ids line := fun hle => absurd hle (Nat.not_le_of_lt h)

theorem handleLocked_some (serde : Serde) (snapshot : Snapshot) (line : Bytes) :
    handleLocked serde (some snapshot) line = handleLine serde snapshot line := by
  rw [handleLocked, handleLine]
  cases parseLine serde line with
  | error message => rfl
  | ok request =>
    obtain ⟨_, id, req⟩ := request
    cases req <;> rfl

theorem handleLocked_cases (serde : Serde) (ids : Bytes → Option String) (lock : Option Snapshot)
    (line : Bytes) :
    (∃ message, handleLocked serde lock line = .reply message ∧ restores serde line = false ∧
      (Answers ids line message ↔ Recovers serde ids line)) ∨
    ∃ entryId, handleLocked serde lock line = .restore (serde.replyId line) entryId ∧
      restores serde line = true := by
  rw [handleLocked, restores]
  by_cases hlong : maxLineBytes < line.length
  · have hparse : parseLine serde line = .error (tooLongReply line) := if_pos hlong
    rw [hparse]
    exact .inl ⟨_, rfl, rfl, iff_of_true ⟨_, rfl, fun hle => absurd hle (Nat.not_le_of_lt hlong)⟩
      (recovers_tooLong hlong)⟩
  · have hparse : parseLine serde line = (serde.request line).mapError (invalidReply serde line) :=
      if_neg hlong
    have hanswers := @answers_respond_iff serde ids line
    rw [Serde.replyId] at hanswers ⊢
    rw [hparse]
    cases hrequest : serde.request line with
    | error err =>
      rw [hrequest] at hanswers
      exact .inl ⟨_, rfl, rfl, hanswers _⟩
    | ok request =>
      rw [hrequest] at hanswers
      obtain ⟨_, id, req⟩ := request
      cases req with
      | list offset limit => cases lock <;> exact .inl ⟨_, rfl, rfl, hanswers _⟩
      | restore entryId => exact .inr ⟨entryId, rfl, rfl⟩
      | ping => exact .inl ⟨_, rfl, rfl, hanswers _⟩
      | subscribe => exact .inl ⟨_, rfl, rfl, hanswers _⟩

-- ---------------------------------------------------------------------------
-- Lines that are all valid
-- ---------------------------------------------------------------------------

structure Plain (serde : Serde) (line : Bytes) : Prop where
  isLine : Lines.IsLine newline line
  valid : Text.validUtf8 line = true
  quiet : subscribes serde line = false

theorem Session.handleRead_plain (session : Session) {line : Bytes} (h : Plain serde line) :
    ∃ handed, session.handleRead serde line = { session with handed } := by
  rw [Session.handleRead, if_neg h.isLine.ne_nil, if_neg (by simp [h.valid])]
  split
  · exact ⟨_, rfl⟩
  · exact ⟨_, by rw [h.quiet, Bool.or_false]⟩

theorem handleRead_plain (ids : Bytes → Option String) (lock : Option Snapshot) {line : Bytes}
    (h : Plain serde line) (hopen : s.session.closed = false) :
    ∃ handed,
      (∃ message, s.handleRead serde lock line =
          { s with session := { s.session with handed }, written := s.written ++ [message] } ∧
        restores serde line = false ∧ (Answers ids line message ↔ Recovers serde ids line)) ∨
      ∃ entryId, s.handleRead serde lock line =
          { s with
            session := { s.session with handed }
            restoring := some { id := serde.replyId line, entryId } } ∧
        restores serde line = true := by
  obtain ⟨handed, hsession⟩ := Session.handleRead_plain s.session h
  refine ⟨handed, ?_⟩
  rw [Conversation.handleRead, hsession]
  dsimp only
  rw [if_neg (by simp [hopen])]
  rcases handleLocked_cases serde ids lock line with ⟨message, heq, hrestores, hanswers⟩ |
    ⟨entryId, heq, hrestores⟩
  · exact .inl ⟨message, by rw [heq], hrestores, hanswers⟩
  · exact .inr ⟨entryId, by rw [heq], hrestores⟩

theorem handleRead_ended (serde : Serde) (lock : Option Snapshot) (s : Conversation)
    (line : Bytes) : (s.handleRead serde lock line).session.ended = s.session.ended := by
  obtain ⟨handed, subscribed, closed, heq, -, -⟩ := Session.handleRead_eq serde s.session line
  rw [Conversation.handleRead, heq]
  dsimp only
  split
  · rfl
  · split <;> rfl

/-- The line that is waited for is that of the request; at a full channel only if it may fill. -/
def WaitsFor (serde : Serde) (ids : Bytes → Option String) (fills : Prop) :
    Option Restoring → Option Bytes → Prop
  | none, none => True
  | some restoring, some line => restores serde line = true ∧
      (∀ resp, Answers ids line (respond restoring.id resp)) ∧
      (restoring.point = .parked → fills)
  | _, _ => False

theorem waitsFor_none {waiting : Option Bytes} (h : WaitsFor serde ids fills none waiting) :
    waiting = none := by
  cases waiting with
  | none => rfl
  | some line => cases h

theorem waitsFor_some {restoring : Restoring} {waiting : Option Bytes}
    (h : WaitsFor serde ids fills (some restoring) waiting) :
    ∃ line, waiting = some line ∧ restores serde line = true ∧
      (∀ resp, Answers ids line (respond restoring.id resp)) ∧
      (restoring.point = .parked → fills) := by
  cases waiting with
  | none => cases h
  | some line => exact ⟨line, rfl, h⟩

/-- Where the conversation stands in the lines of the client. -/
structure Stands (serde : Serde) (ids : Bytes → Option String) (fills : Prop) (unsent : Bytes)
    (s : Conversation) (answered : List Bytes) (waiting : Option Bytes) (rest : List Bytes) :
    Prop where
  noLine : newline ∉ s.session.taken
  unsubscribed : s.session.subscribed = false
  written : List.Forall₂ (Answers ids) answered s.written
  waits : WaitsFor serde ids fills s.restoring waiting
  unread : s.session.taken ++ s.session.arrived ++ unsent = rest.flatten
  closed : s.session.closed = true → s.session.ended = true ∧ waiting = none ∧ rest = []

def Standing (serde : Serde) (ids : Bytes → Option String) (fills : Prop) (lines : List Bytes)
    (unsent : Bytes) (s : Conversation) : Prop :=
  ∃ answered waiting rest, lines = answered ++ waiting.toList ++ rest ∧
    Stands serde ids fills unsent s answered waiting rest

def Conversation.took (s : Conversation) (more : Bytes) : Conversation :=
  { s with session := { s.session with arrived := more, taken := [] } }

theorem Standing.handleRead (hlines : ∀ line ∈ lines, Plain serde line)
    (hids : ∀ line ∈ lines, Recovers serde ids line) (lock : Option Snapshot) {line more : Bytes}
    (hline : Lines.IsLine newline line) (harrived : s.session.arrived = line ++ more)
    (hopen : s.session.closed = false) (hwaits : s.restoring = none)
    (h : Standing serde ids fills lines unsent s) :
    Standing serde ids fills lines unsent
      ((s.took more).handleRead serde lock (s.session.taken ++ line)) := by
  obtain ⟨answered, waiting, rest, hsplit, hstands⟩ := h
  obtain rfl : waiting = none := waitsFor_none (hwaits ▸ hstands.waits)
  have hmem : ∀ l ∈ rest, l ∈ lines := fun l hl => hsplit ▸ List.mem_append_right _ hl
  obtain ⟨tail, rfl, htail⟩ :=
    hline.next (fun l hl => (hlines l (hmem l hl)).isLine) hstands.noLine
      (harrived ▸ hstands.unread)
  have hrecovers := hids _ (hmem _ List.mem_cons_self)
  obtain ⟨handed, ⟨message, heq, -, hanswers⟩ | ⟨entryId, heq, hrestores⟩⟩ :=
    handleRead_plain ids lock (hlines _ (hmem _ List.mem_cons_self))
      (show (s.took more).session.closed = false from hopen)
  · rw [heq]
    refine ⟨answered ++ [s.session.taken ++ line], none, tail, ?_, List.not_mem_nil,
      hstands.unsubscribed,
      List.rel_append hstands.written (.cons (hanswers.mpr hrecovers) .nil), ?_, htail,
      fun hc => absurd (hopen.symm.trans hc) Bool.false_ne_true⟩
    · rw [hsplit]
      simp
    · show WaitsFor serde ids fills s.restoring none
      rw [hwaits]
      trivial
  · rw [heq]
    refine ⟨answered, some (s.session.taken ++ line), tail, ?_, List.not_mem_nil,
      hstands.unsubscribed, hstands.written,
      ⟨hrestores, fun resp => (answers_respond_iff resp).mpr hrecovers, fun hp => by cases hp⟩,
      htail, fun hc => absurd (hopen.symm.trans hc) Bool.false_ne_true⟩
    rw [hsplit]
    simp

theorem Standing.handleEnd (lock : Option Snapshot) (hlines : ∀ line ∈ lines, Plain serde line)
    (hno : newline ∉ s.session.arrived) (hended : s.session.ended = true)
    (hwaits : s.restoring = none) (h : Standing serde ids fills lines [] s) :
    Standing serde ids fills lines []
      ((s.took []).handleRead serde lock (s.session.taken ++ s.session.arrived)) := by
  obtain ⟨answered, waiting, rest, hsplit, hstands⟩ := h
  obtain rfl : waiting = none := waitsFor_none (hwaits ▸ hstands.waits)
  have hunread : s.session.taken ++ s.session.arrived = rest.flatten := by
    rw [← hstands.unread, List.append_nil]
  have hrest : rest = [] := Lines.eq_nil_of_no_line
    (fun l hl => (hlines l (hsplit ▸ List.mem_append_right _ hl)).isLine) hstands.noLine hno hunread
  subst hrest
  rw [hunread]
  refine ⟨answered, none, [], hsplit, List.not_mem_nil, hstands.unsubscribed, hstands.written, ?_,
    rfl, fun _ => ⟨hended, rfl, rfl⟩⟩
  show WaitsFor serde ids fills s.restoring none
  rw [hwaits]
  trivial

theorem pollSend_eq {point : RestorePoint} (h : s.pollSend point = some s') :
    ∃ restoring, s.restoring = some restoring ∧
      s' = { s with restoring := some { restoring with point } } := by
  rw [Conversation.pollSend] at h
  split at h
  · rename_i restoring hrestoring
    split at h
    · cases h
    · cases h
      exact ⟨restoring, hrestoring, rfl⟩
  · cases h

theorem Standing.pollSend {point : RestorePoint} (hs : s.pollSend point = some s')
    (hfull : point = .parked → fills) (h : Standing serde ids fills lines unsent s) :
    Standing serde ids fills lines unsent s' := by
  obtain ⟨restoring, hrestoring, rfl⟩ := pollSend_eq hs
  obtain ⟨answered, waiting, rest, hsplit, hstands⟩ := h
  have hwaits := hstands.waits
  rw [hrestoring] at hwaits
  obtain ⟨line, rfl, hrestores, hanswers, -⟩ := waitsFor_some hwaits
  exact ⟨answered, some line, rest, hsplit, hstands.noLine, hstands.unsubscribed,
    hstands.written, ⟨hrestores, hanswers, hfull⟩, hstands.unread, hstands.closed⟩

/-- Waiting for a line, with this much of the stream to come. -/
structure Ready (s : Conversation) (input : Bytes) : Prop where
  waits : s.restoring = none
  opened : s.session.closed = false ∧ s.session.ended = false
  taken : s.session.taken = []
  arrived : s.session.arrived = input

theorem Ready.readLine {line more : Bytes} (h : Ready s (line ++ more))
    (hline : Lines.IsLine newline line) :
    s.session.readLine = ({ s.session with arrived := more, taken := [] }, some line) := by
  have hmem : newline ∈ s.session.arrived := by
    obtain ⟨body, rfl, -⟩ := hline
    simp [h.arrived]
  rcases Session.readLine_cases s.session with ⟨line', more', harrived, hline', hread⟩ |
    ⟨hno, -⟩ | ⟨hno, -⟩
  · obtain ⟨rfl, rfl⟩ := hline.append_inj hline' (h.arrived.symm.trans harrived)
    rw [hread, h.taken, List.nil_append]
  · exact absurd hmem hno
  · exact absurd hmem hno

theorem Ready.pollRead (serde : Serde) {line more : Bytes} (h : Ready s (line ++ more))
    (hline : Lines.IsLine newline line) :
    s.act serde (.pollRead none) = some ((s.took more).handleRead serde none line) := by
  rw [Conversation.act, if_neg (by simp [h.opened.1, h.waits]), h.readLine hline]
  rfl

theorem Ready.line (ids : Bytes → Option String) {line more : Bytes} (h : Ready s (line ++ more))
    (hline : Plain serde line) :
    ∃ acts s' message, acts.foldlM (Conversation.act serde) s = some s' ∧ said acts = [] ∧
      .full ∉ acts ∧ s'.written = s.written ++ [message] ∧
      (Answers ids line message ↔ Recovers serde ids line) ∧ Ready s' more := by
  have hpoll := h.pollRead serde hline.isLine
  obtain ⟨handed, ⟨message, heq, -, hanswers⟩ | ⟨entryId, heq, -⟩⟩ :=
    handleRead_plain ids none hline (show (s.took more).session.closed = false from h.opened.1)
  · rw [heq] at hpoll
    refine ⟨[.pollRead none],
      { s with
        session := { (s.took more).session with handed }
        written := s.written ++ [message] },
      message, ?_, rfl, by simp, rfl, hanswers, h.waits, h.opened, rfl, rfl⟩
    rw [List.foldlM_cons, hpoll]
    rfl
  · rw [heq] at hpoll
    refine ⟨[.pollRead none, .queued, .settle .timedOut],
      { s with
        session := { (s.took more).session with handed }
        restoring := none
        written := s.written ++ [respond (serde.replyId line) RestoreWait.timedOut.response] },
      _, ?_, rfl, by simp, rfl, answers_respond_iff _, rfl, h.opened, rfl, rfl⟩
    rw [List.foldlM_cons, hpoll]
    rfl

theorem Ready.good (ids : Bytes → Option String) {more : Bytes}
    (hplain : ∀ line ∈ lines, Plain serde line) (h : Ready s (lines.flatten ++ more)) :
    ∃ acts s' replies, acts.foldlM (Conversation.act serde) s = some s' ∧ said acts = [] ∧
      .full ∉ acts ∧ s'.written = s.written ++ replies ∧
      List.Forall₂ (fun line message => Answers ids line message ↔ Recovers serde ids line)
        lines replies ∧ Ready s' more := by
  induction lines generalizing s with
  | nil => exact ⟨[], s, [], rfl, rfl, by simp, by simp, .nil, h⟩
  | cons line lines ih =>
    obtain ⟨hline, hrest⟩ := List.forall_mem_cons.mp hplain
    rw [List.flatten_cons, List.append_assoc] at h
    obtain ⟨acts, s', message, hacts, hsaid, hfull, hwritten, hanswers, hready⟩ := h.line ids hline
    obtain ⟨acts', s'', replies, hacts', hsaid', hfull', hwritten', hall, hready'⟩ :=
      ih hrest hready
    refine ⟨acts ++ acts', s'', message :: replies, ?_, by simp [hsaid, hsaid'],
      by simp [hfull, hfull'], by simp [hwritten', hwritten], .cons hanswers hall, hready'⟩
    rw [List.foldlM_append, hacts]
    exact hacts'

theorem exists_ready (ids : Bytes → Option String) {good : List Bytes} (after : List Bytes)
    (hgood : ∀ line ∈ good, Plain serde line) :
    ∃ acts s, (conversationSystem serde).Run acts s ∧ .full ∉ acts ∧
      said acts = (good ++ after).flatten ∧
      List.Forall₂ (fun line message => Answers ids line message ↔ Recovers serde ids line)
        good s.written ∧ Ready s after.flatten := by
  have hstart : Ready { session := { arrived := (good ++ after).flatten } }
      (good.flatten ++ after.flatten) := ⟨rfl, ⟨rfl, rfl⟩, rfl, by simp⟩
  obtain ⟨acts, s, replies, hacts, hsaid, hfull, hwritten, hall, hready⟩ := hstart.good ids hgood
  have hrun : (conversationSystem serde).Run [.arrive (good ++ after).flatten]
      { session := { arrived := (good ++ after).flatten } } := System.run_exec rfl
  refine ⟨_, s, hrun.exec hacts, by simpa using hfull, ?_, ?_, hready⟩
  · rw [said_append, hsaid]
    simp [said]
  · rw [hwritten]
    exact hall

-- ---------------------------------------------------------------------------
-- When not every line is answered
-- ---------------------------------------------------------------------------

theorem Ready.invalid (serde : Serde) {line more : Bytes} (h : Ready s (line ++ more))
    (hline : Lines.IsLine newline line) (hbad : Text.validUtf8 line = false) :
    ∃ s', s.act serde (.pollRead none) = some s' ∧ s'.session.closed = true ∧
      s'.session.ended = false := by
  refine ⟨_, h.pollRead serde hline, ?_, (handleRead_ended ..).trans h.opened.2⟩
  rw [Conversation.handleRead, Session.handleRead, if_neg hline.ne_nil, if_pos hbad]
  rfl

theorem exists_first_invalid (h : ¬ ∀ line ∈ lines, Text.validUtf8 line = true) :
    ∃ good bad after, lines = good ++ bad :: after ∧ Text.validUtf8 bad = false ∧
      ∀ line ∈ good, Text.validUtf8 line = true := by
  induction lines with
  | nil => exact absurd (fun _ hl => absurd hl List.not_mem_nil) h
  | cons line lines ih =>
    cases hline : Text.validUtf8 line with
    | false => exact ⟨[], line, lines, rfl, hline, fun _ hl => absurd hl List.not_mem_nil⟩
    | true =>
      obtain ⟨good, bad, after, rfl, hbad, hgood⟩ :=
        ih fun hall => h (List.forall_mem_cons.mpr ⟨hline, hall⟩)
      exact ⟨line :: good, bad, after, rfl, hbad, List.forall_mem_cons.mpr ⟨hline, hgood⟩⟩

def AlwaysAnswered (serde : Serde) (ids : Bytes → Option String) (fills : Prop)
    (lines : List Bytes) : Prop :=
  ∀ acts unsent s, (conversationSystem serde).Run acts s → (.full ∈ acts → fills) →
    said acts ++ unsent = lines.flatten → (s.session.ended = true → unsent = []) →
      EachAnswered ids lines unsent s

theorem AlwaysAnswered.validUtf8 (h : AlwaysAnswered serde ids fills lines)
    (hlines : ∀ line ∈ lines, Lines.IsLine newline line)
    (hquiet : ∀ line ∈ lines, subscribes serde line = false) :
    ∀ line ∈ lines, Text.validUtf8 line = true := by
  by_contra hinvalid
  obtain ⟨good, bad, after, rfl, hbad, hgood⟩ := exists_first_invalid hinvalid
  have hplain : ∀ line ∈ good, Plain serde line := fun line hl =>
    ⟨hlines line (List.mem_append_left _ hl), hgood line hl,
      hquiet line (List.mem_append_left _ hl)⟩
  obtain ⟨acts, s, hrun, hfull, hsaid, -, hready⟩ := exists_ready ids (bad :: after) hplain
  obtain ⟨s', hpoll, hclosed, hopen⟩ := hready.invalid serde
    (hlines bad (List.mem_append_right _ List.mem_cons_self)) hbad
  have hall : said (acts ++ [.pollRead none]) ++ [] = (good ++ bad :: after).flatten := by
    rw [said_append, hsaid]
    simp [said]
  have hserved := h _ [] s' (hrun.next hpoll) (fun hmem => absurd hmem (by simpa using hfull)) hall
    fun _ => rfl
  exact absurd (hopen.symm.trans (hserved.untilClosed hclosed).1) Bool.false_ne_true

section

variable {ν : Type} {serdeJson : SerdeJson ν} {error : Bytes → String}

end

-- ---------------------------------------------------------------------------
-- Two conversations
-- ---------------------------------------------------------------------------

def compactSerde : Serde := compactJson.serde fun _ => "expected value at line 1 column 1"

end Uclip
