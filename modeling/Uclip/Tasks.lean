import Uclip.Conversation
import Uclip.Replies

/-!
# A task is a conversation

A task sees of the other tasks and of the thread only the snapshot, the events
and what comes of its requests. Whatever these are, what the task has read and
written is a run of the conversation with its client, and each line it has read
is answered before the next one is read.
-/

namespace Uclip

open Text (Bytes)

def linesOf (c : Nat) (labels : List ServerAct) : List Bytes :=
  labels.filterMap fun
    | .client k (.line line) => if k = c then some line else none
    | _ => none

def ClientPhase.restoring : ClientPhase → Option (String × Nat)
  | .sending id pending | .awaiting id pending => some (id, pending.entryId)
  | _ => none

def ClientPhase.request (parked : Bool) : ClientPhase → Option Restoring
  | .sending id pending =>
    some { id, entryId := pending.entryId, point := if parked then .parked else .sending }
  | .awaiting id pending => some { id, entryId := pending.entryId, point := .awaiting }
  | _ => none

def Line.isNotice (line : Line) : Bool :=
  match line.purpose with
  | .missed _ _ => true
  | _ => false

def Line.isReply (line : Line) : Bool :=
  match line.purpose with
  | .event _ | .missed _ _ => false
  | _ => true

def endsUnterminated (lines : List Bytes) : Bool := lines.getLast?.any (newline ∉ ·)

namespace Client

/-- What the task has written or is writing, but for the notices of lost events. -/
def told (client : Client) : List Message :=
  (client.lines.filter fun line => !line.isNotice).map (·.message)

/-- The replies that the task has written or is writing. -/
def replies (client : Client) : List Message :=
  (client.lines.filter (·.isReply)).map (·.message)

def left (client : Client) : Bool := client.phase = .closed none

def conversation (client : Client) (lines : List Bytes) (parked : Bool) : Conversation where
  session :=
    { subscribed := client.subscribed
      handed := lines.filter (·.length ≤ maxLineBytes)
      ended := client.left || endsUnterminated lines
      closed := client.left }
  restoring := client.phase.request parked
  written := client.told

end Client

inductive TaskStep (serde : Serde) (client : Client) : List Bytes → Client → Prop
  | reply {snapshot line message seen purpose} : client.phase = .selecting →
      handleLine serde snapshot line = .reply message → purpose = .plain ∨ purpose = .bestEffort →
      TaskStep serde client [line]
        { client.noteLine serde seen line with phase := .writing ⟨message, purpose⟩ }
  | restore {snapshot line id entryId seen reply} : client.phase = .selecting →
      handleLine serde snapshot line = .restore id entryId →
      TaskStep serde client [line]
        { client.noteLine serde seen line with phase := .sending id ⟨entryId, reply⟩ }
  | event {event position next} : client.phase = .selecting → client.subscribed = true →
      TaskStep serde client []
        { client with next, phase := .writing ⟨eventMessage event, .event position⟩ }
  | lagged {low high next} : client.phase = .selecting →
      TaskStep serde client []
        { client with next, phase := .writing ⟨laggedReply, .missed low high⟩ }
  | sent {id pending} : client.phase = .sending id pending →
      TaskStep serde client [] { client with phase := .awaiting id pending }
  | full {id pending} : client.phase = .sending id pending → TaskStep serde client [] client
  | settled {id pending} (wait : RestoreWait) :
      client.phase = .sending id pending ∧ wait = .closed ∨
        client.phase = .awaiting id pending ∧ wait ≠ .closed →
      TaskStep serde client [] (client.answered id pending wait.response)
  | written {line} : client.phase = .writing line →
      TaskStep serde client []
        { client with phase := .selecting, written := client.written ++ [line] }
  | left : client.phase = .selecting →
      TaskStep serde client [] { client with phase := .closed none }

variable {clock : Clock} {serde : Serde} {s s' : Server} {c : Nat} {client client' : Client}
  {lines more : List Bytes} {labels : List ServerAct}

/-- The write of a line to this client fails. -/
def Server.writeFails (c : Nat) (s : Server) : ServerAct → Bool
  | .client k .hangUp =>
    k = c && s.clients[c]?.any fun client =>
      match client.phase with
      | .writing _ => true
      | _ => false
  | _ => false

def writableSystem (clock : Clock) (serde : Serde) (seat manager device : Global) (c : Nat) :
    System Server ServerAct :=
  (serverSystem clock serde seat manager device).restrict fun s a => s.writeFails c a = false

namespace Server

theorem clientStep_task {a : ClientAct} {requests : Channel Nat PendingRestore}
    {asked : List Asked} (h : s.ClientStep serde c client a client' requests asked)
    (hwrites : a = .hangUp → ∀ line, client.phase ≠ .writing line) :
    TaskStep serde client (linesOf c [.client c a]) client' := by
  have hlines (line : Bytes) : linesOf c [.client c (.line line)] = [line] := by simp [linesOf]
  cases h with
  | reply hp hl =>
    rw [hlines]
    refine .reply hp hl ?_
    split
    · exact .inr rfl
    · exact .inl rfl
  | restore hp hl =>
    rw [hlines]
    exact .restore hp hl
  | event hp hsub _ => exact .event hp hsub
  | lagged hp _ _ _ => exact .lagged hp
  | sent hp _ _ => exact .sent hp
  | full hp _ _ => exact .full hp
  | refused hp _ => exact .settled .closed (.inl ⟨hp, rfl⟩)
  | received hp _ => exact .settled (.answered _) (.inr ⟨hp, by simp⟩)
  | dropped hp _ _ => exact .settled .gone (.inr ⟨hp, by simp⟩)
  | expired hp => exact .settled .timedOut (.inr ⟨hp, by simp⟩)
  | written hp => exact .written hp
  | forgotten hp _ => exact absurd hp (hwrites rfl _)
  | left hp => exact .left hp
  | broken hp => exact absurd hp (hwrites rfl _)

end Server

-- ---------------------------------------------------------------------------
-- The rule of the tasks
-- ---------------------------------------------------------------------------

theorem linesOf_append (c : Nat) (labels more : List ServerAct) :
    linesOf c (labels ++ more) = linesOf c labels ++ linesOf c more :=
  List.filterMap_append

theorem linesOf_other {k : Nat} {a : ClientAct} (h : k ≠ c) : linesOf c [.client k a] = [] := by
  cases a <;> simp [linesOf, h]

/-- What is said of a task holds of it; one that is not there yet has read nothing. -/
structure Server.TaskHolds (motive : List Bytes → Client → Prop) (c : Nat)
    (labels : List ServerAct) (s : Server) : Prop where
  absent : s.clients[c]? = none → linesOf c labels = []
  client : ∀ client, s.clients[c]? = some client → motive (linesOf c labels) client

variable {motive : List Bytes → Client → Prop} {a : ServerAct}

theorem Server.TaskHolds.same (h : s.TaskHolds motive c labels)
    (hclients : s'.clients[c]? = s.clients[c]?) (hlines : linesOf c [a] = []) :
    s'.TaskHolds motive c (labels ++ [a]) where
  absent := by
    rw [hclients, linesOf_append, hlines, List.append_nil]
    exact h.absent
  client := by
    rw [hclients, linesOf_append, hlines, List.append_nil]
    exact h.client

theorem Server.TaskHolds.task {a : ClientAct} {requests : Channel Nat PendingRestore}
    {asked : List Asked} (h : motive (linesOf c labels ++ linesOf c [.client c a]) client')
    (hc : s.clients[c]? = some client) :
    (setClient { s with requests, asked } c client').TaskHolds motive c
      (labels ++ [.client c a]) := by
  have hget : (setClient { s with requests, asked } c client').clients[c]? = some client' :=
    (setClient_getElem? (s := { s with requests, asked }) hc c).trans (if_pos rfl)
  refine ⟨fun hnone => absurd (hget.symm.trans hnone) (Option.some_ne_none _),
    fun other hother => ?_⟩
  rw [hget, Option.some.injEq] at hother
  rw [← hother, linesOf_append]
  exact h

theorem act_taskHolds (start : ∀ now, motive [] { next := now, joined := now })
    (step : ∀ lines client more client', motive lines client →
      TaskStep serde client more client' → motive (lines ++ more) client')
    (h : s.TaskHolds motive c labels) (hs : s.act clock serde a = some s')
    (hwrites : s.writeFails c a = false) : s'.TaskHolds motive c (labels ++ [a]) := by
  rcases Server.act_cases hs with ⟨_, rfl, ht⟩ | ⟨rfl, rfl⟩ |
    ⟨k, a, other, client', requests, asked, rfl, hc, hstep, rfl⟩
  · exact h.same (by rw [Server.threadStep_clients ht]) rfl
  · rcases Nat.lt_trichotomy c s.clients.length with hlt | rfl | hgt
    · exact h.same (List.getElem?_append_left hlt) rfl
    · have hlines : linesOf s.clients.length (labels ++ [.accept]) = [] := by
        rw [linesOf_append, h.absent (List.getElem?_eq_none (Nat.le_refl _))]
        rfl
      refine ⟨fun _ => hlines, fun client hc => ?_⟩
      rw [List.getElem?_concat_length, Option.some.injEq] at hc
      rw [hlines, ← hc]
      exact start _
    · refine h.same ?_ rfl
      rw [List.getElem?_eq_none (by simpa using Nat.succ_le_of_lt hgt),
        List.getElem?_eq_none hgt.le]
  · by_cases hk : k = c
    · subst hk
      have htask := Server.clientStep_task hstep
        fun ha line hp => by simp [Server.writeFails, ha, hc, hp] at hwrites
      exact .task (step _ _ _ _ (h.client other hc) htask) hc
    · refine h.same ?_ (linesOf_other hk)
      exact (Server.setClient_getElem? (s := { s with requests, asked }) hc c).trans
        (if_neg (Ne.symm hk))

/-- What holds of a new client, and is kept by each step of a task, holds of
every client in every run in which no write to it fails. -/
theorem run_task {seat manager device : Global}
    (start : ∀ now, motive [] { next := now, joined := now })
    (step : ∀ lines client more client', motive lines client →
      TaskStep serde client more client' → motive (lines ++ more) client')
    (h : (writableSystem clock serde seat manager device c).Run labels s)
    (hc : s.clients[c]? = some client) : motive (linesOf c labels) client := by
  have hholds : s.TaskHolds motive c labels := by
    clear hc
    induction h with
    | start hinit =>
      cases hinit
      exact ⟨fun _ => rfl, fun _ hc => absurd hc.symm (Option.some_ne_none _)⟩
    | next _ hstep ih => exact act_taskHolds start step ih hstep.1 hstep.2
  exact hholds.client client hc

-- ---------------------------------------------------------------------------
-- The conversation
-- ---------------------------------------------------------------------------

/-- What `read_line` gives, line after line: text that ends in its only newline,
and at the end of the stream perhaps text without one. -/
structure ReadableLines (lines : List Bytes) : Prop where
  notEmpty : ∀ line ∈ lines, line ≠ []
  valid : ∀ line ∈ lines, Text.validUtf8 line = true
  isLine : ∀ line ∈ lines, newline ∈ line → Lines.IsLine newline line
  last : ∀ line ∈ lines.dropLast, newline ∈ line

theorem ReadableLines.before {line : Bytes} (h : ReadableLines (lines ++ [line])) :
    ReadableLines lines ∧ endsUnterminated lines = false := by
  have hended : ∀ l ∈ lines, newline ∈ l := fun l hl => h.last l (by simpa using hl)
  refine ⟨⟨fun l hl => h.notEmpty l (List.mem_append_left _ hl),
    fun l hl => h.valid l (List.mem_append_left _ hl),
    fun l hl => h.isLine l (List.mem_append_left _ hl),
    fun l hl => hended l (List.dropLast_subset _ hl)⟩, ?_⟩
  rw [endsUnterminated]
  cases hlast : lines.getLast? with
  | none => rfl
  | some l => simpa using hended l (List.mem_of_getLast? hlast)

theorem endsUnterminated_append (lines : List Bytes) (line : Bytes) :
    endsUnterminated (lines ++ [line]) = decide (newline ∉ line) := by
  simp [endsUnterminated]

theorem subscribes_tooLong {line : Bytes} (h : maxLineBytes < line.length) :
    subscribes serde line = false := by
  simp [subscribes, parseLine, h]

theorem Session.handleRead_readable (session : Session) {line : Bytes} (hne : line ≠ [])
    (hvalid : Text.validUtf8 line = true) :
    session.handleRead serde line =
      { session with
        handed := session.handed ++ [line].filter (·.length ≤ maxLineBytes)
        subscribed := session.subscribed || subscribes serde line } := by
  rw [Session.handleRead, if_neg hne, if_neg (by simp [hvalid])]
  by_cases hlong : maxLineBytes < line.length
  · simp [hlong, subscribes_tooLong hlong]
  · simp [hlong, Nat.le_of_not_lt hlong]

def readActs (lock : Option Snapshot) (line : Bytes) : List ConversationAct :=
  if newline ∈ line then [.arrive line, .pollRead lock]
  else [.arrive line, .finish, .pollRead lock]

theorem said_readActs (lock : Option Snapshot) (line : Bytes) :
    said (readActs lock line) = line := by
  rw [readActs]
  split <;> simp [said]

theorem Ready.take {s : Conversation} {line : Bytes} (h : Ready s [])
    (hline : newline ∈ line → Lines.IsLine newline line) (lock : Option Snapshot) :
    (readActs lock line).foldlM (Conversation.act serde) s =
      some ({ s with
        session := { s.session with ended := decide (newline ∉ line) } }.handleRead
          serde lock line) := by
  obtain ⟨⟨arrived, taken, ended, subscribed, handed, closed⟩, restoring, written⟩ := s
  obtain ⟨rfl, ⟨rfl, rfl⟩, rfl, rfl⟩ := h
  rw [readActs]
  by_cases hmem : newline ∈ line
  · have hready :
        Ready { session := { arrived := line, subscribed, handed }, written } (line ++ []) :=
      ⟨rfl, ⟨rfl, rfl⟩, rfl, (List.append_nil line).symm⟩
    rw [if_pos hmem, decide_eq_false (not_not_intro hmem)]
    show (Conversation.act serde { session := { arrived := line, subscribed, handed }, written }
      (.pollRead lock)).bind some = _
    rw [Conversation.act, if_neg (by simp), hready.readLine (hline hmem)]
    rfl
  · rw [if_neg hmem, decide_eq_true hmem]
    show (Conversation.act serde
      { session := { arrived := line, subscribed, handed, ended := true }, written }
      (.pollRead lock)).bind some = _
    rw [Conversation.act, if_neg (by simp), Session.readLine, Lines.cut_eq_none.mpr hmem]
    rfl

theorem ready_conversation {parked : Bool} (hp : client.phase = .selecting)
    (hlines : endsUnterminated lines = false) : Ready (client.conversation lines parked) [] :=
  ⟨by simp [Client.conversation, hp, ClientPhase.request],
    by simp [Client.conversation, Client.left, hp, hlines], rfl, rfl⟩

theorem TaskStep.converses (h : TaskStep serde client more client')
    (hreadable : ReadableLines (lines ++ more)) (parked : Bool) :
    ∃ acts parked', acts.foldlM (Conversation.act serde) (client.conversation lines parked) =
      some (client'.conversation (lines ++ more) parked') ∧ said acts = more.flatten := by
  cases h with
  | @reply snapshot line message seen purpose hp hl hpurpose =>
    obtain ⟨-, hlines⟩ := hreadable.before
    refine ⟨readActs (some snapshot) line, parked, ?_, by simp [said_readActs]⟩
    rw [(ready_conversation hp hlines).take (hreadable.isLine line (by simp)),
      Conversation.handleRead, Session.handleRead_readable _ (hreadable.notEmpty line (by simp))
        (hreadable.valid line (by simp)), handleLocked_some, hl]
    have hnotice : Line.isNotice ⟨message, purpose⟩ = false := by
      rcases hpurpose with rfl | rfl <;> rfl
    simp [Client.conversation, Client.left, Client.told, Client.lines, Client.current, hnotice,
      Client.noteLine, ClientPhase.request, endsUnterminated_append, hp]
  | @restore snapshot line id entryId seen reply hp hl =>
    obtain ⟨-, hlines⟩ := hreadable.before
    refine ⟨readActs (some snapshot) line, false, ?_, by simp [said_readActs]⟩
    rw [(ready_conversation hp hlines).take (hreadable.isLine line (by simp)),
      Conversation.handleRead, Session.handleRead_readable _ (hreadable.notEmpty line (by simp))
        (hreadable.valid line (by simp)), handleLocked_some, hl]
    simp [Client.conversation, Client.left, Client.told, Client.lines, Client.current,
      Client.noteLine, ClientPhase.request, endsUnterminated_append, hp]
  | @event event position next hp hsub =>
    refine ⟨[.event event], parked, ?_, rfl⟩
    simp [Conversation.act, Session.act, Client.conversation, Client.left, Client.told,
      Client.lines, Client.current, ClientPhase.request, Line.isNotice, hp, hsub]
  | lagged hp =>
    refine ⟨[], parked, ?_, rfl⟩
    simp [Client.conversation, Client.left, Client.told, Client.lines, Client.current,
      ClientPhase.request, Line.isNotice, hp]
  | sent hp =>
    refine ⟨[.queued], parked, ?_, rfl⟩
    cases parked <;> simp [Conversation.act, Conversation.pollSend, Client.conversation,
      Client.left, Client.told, Client.lines, Client.current, ClientPhase.request, hp]
  | full hp =>
    refine ⟨[.full], true, ?_, rfl⟩
    cases parked <;> simp [Conversation.act, Conversation.pollSend, Client.conversation,
      Client.left, Client.told, Client.lines, Client.current, ClientPhase.request, hp]
  | settled wait hp =>
    refine ⟨[.settle wait], parked, ?_, rfl⟩
    rcases hp with ⟨hp, rfl⟩ | ⟨hp, hwait⟩
    · cases parked <;> simp [Conversation.act, Restoring.settles, Client.conversation, Client.left,
        Client.told, Client.lines, Client.current, Client.answered, ClientPhase.request,
        Line.isNotice, hp]
    · have hsettles (id : String) (entryId : Nat) :
          Restoring.settles ⟨id, entryId, .awaiting⟩ wait = true := by
        cases wait with
        | closed => exact absurd rfl hwait
        | _ => rfl
      simp [Conversation.act, hsettles, Client.conversation, Client.left, Client.told,
        Client.lines, Client.current, Client.answered, ClientPhase.request, Line.isNotice, hp]
  | written hp =>
    refine ⟨[], parked, ?_, rfl⟩
    simp [Client.conversation, Client.left, Client.told, Client.lines, Client.current,
      ClientPhase.request, hp]
  | left hp =>
    refine ⟨[.finish, .pollRead none], parked, ?_, rfl⟩
    simp [Conversation.act, Session.act, Conversation.handleRead, Session.handleRead,
      Session.readLine, Lines.cut, Client.conversation, Client.left, Client.told, Client.lines,
      Client.current, ClientPhase.request, hp]

theorem TaskStep.readable_before (h : TaskStep serde client more client')
    (hreadable : ReadableLines (lines ++ more)) : ReadableLines lines := by
  cases h with
  | reply | restore => exact hreadable.before.1
  | _ => simpa using hreadable

/-- Whatever the thread and the other tasks do, what a task has read and written
is, but for the notices of lost events, a run of the conversation with its
client. -/
theorem task_converses {seat manager device : Global}
    (h : (writableSystem clock serde seat manager device c).Run labels s)
    (hc : s.clients[c]? = some client) (hlines : ReadableLines (linesOf c labels)) :
    ∃ acts parked,
      (conversationSystem serde).Run acts (client.conversation (linesOf c labels) parked) ∧
        said acts = (linesOf c labels).flatten := by
  refine run_task (motive := fun lines client => ReadableLines lines →
    ∃ acts parked, (conversationSystem serde).Run acts (client.conversation lines parked) ∧
      said acts = lines.flatten) (fun now _ => ⟨[], false, .start rfl, rfl⟩) ?_ h hc hlines
  intro lines client more client' ih hstep hgood
  obtain ⟨acts, parked, hrun, hsaid⟩ := ih (hstep.readable_before hgood)
  obtain ⟨acts', parked', hfold, hsaid'⟩ := hstep.converses hgood parked
  exact ⟨acts ++ acts', parked', hrun.exec hfold, by simp [hsaid, hsaid']⟩

def lastPingActs : List ServerAct :=
  [.accept, .client 0 (.line pingLine.dropLast), .client 0 .write, .client 0 .hangUp]

theorem last_ping_converses : ∃ acts, (conversationSystem compactSerde).Run acts
    { session := { handed := [pingLine.dropLast], ended := true, closed := true }
      written := [respond "p1" .pong] } ∧ said acts = pingLine.dropLast := by
  have hrun : (lastPingActs.foldlM (fun s label => if s.writeFails 0 label = false
      then s.act .still compactSerde label else none) (Server.start 0 1 2)).any (fun s =>
        s.clients[0]?.any fun client => ∀ parked, client.conversation [pingLine.dropLast] parked =
          { session := { handed := [pingLine.dropLast], ended := true, closed := true }
            written := [respond "p1" .pong] }) = true := by
    decide +kernel
  obtain ⟨s, hs, hclient⟩ := (Option.any_eq_true _ _).mp hrun
  obtain ⟨client, hc, hheld⟩ := (Option.any_eq_true _ _).mp hclient
  have hlines : linesOf 0 lastPingActs = [pingLine.dropLast] := rfl
  have hreadable : ReadableLines (linesOf 0 lastPingActs) := by
    rw [hlines]
    have hno : newline ∉ pingLine.dropLast := by decide
    exact ⟨by decide, by decide +kernel,
      List.forall_mem_singleton.mpr fun hmem => absurd hmem hno, by decide⟩
  obtain ⟨acts, parked, hacts, hsaid⟩ :=
    task_converses (System.restrict_exec hs) hc hreadable
  rw [hlines, of_decide_eq_true hheld parked] at hacts
  exact ⟨acts, hacts, by simpa [hlines] using hsaid⟩

-- ---------------------------------------------------------------------------
-- The replies
-- ---------------------------------------------------------------------------

def RepliesTo (serde : Serde) (line : Bytes) (message : Message) : Prop :=
  ∃ snapshot, handleLine serde snapshot line = .reply message ∨
    ∃ id entryId wait, handleLine serde snapshot line = .restore id entryId ∧
      message = respond id (RestoreWait.response wait)

/-- The line that is read and not answered is that of the request. -/
inductive Awaits (serde : Serde) : Option Bytes → Option (String × Nat) → Prop
  | idle : Awaits serde none none
  | restore {snapshot line id entryId} : handleLine serde snapshot line = .restore id entryId →
      Awaits serde (some line) (some (id, entryId))

def InTurn (serde : Serde) (lines : List Bytes) (client : Client) : Prop :=
  ∃ done waiting, lines = done ++ Option.toList waiting ∧
    List.Forall₂ (RepliesTo serde) done client.replies ∧
    Awaits serde waiting client.phase.restoring

theorem InTurn.same (h : InTurn serde lines client) (hreplies : client'.replies = client.replies)
    (hrestoring : client'.phase.restoring = client.phase.restoring) :
    InTurn serde lines client' := by
  obtain ⟨done, waiting, hsplit, hdone, hwaits⟩ := h
  exact ⟨done, waiting, hsplit, hreplies ▸ hdone, hrestoring ▸ hwaits⟩

theorem InTurn.idle (h : InTurn serde lines client) (hidle : client.phase.restoring = none) :
    List.Forall₂ (RepliesTo serde) lines client.replies := by
  obtain ⟨done, waiting, rfl, hdone, hwaits⟩ := h
  rw [hidle] at hwaits
  cases hwaits
  simpa using hdone

theorem TaskStep.inTurn (hs : TaskStep serde client more client') (h : InTurn serde lines client) :
    InTurn serde (lines ++ more) client' := by
  cases hs with
  | @reply snapshot line message seen purpose hp hl hpurpose =>
    have hreply : Line.isReply ⟨message, purpose⟩ = true := by
      rcases hpurpose with rfl | rfl <;> rfl
    refine ⟨lines ++ [line], none, by simp, ?_, .idle⟩
    have hadd : Client.replies { client.noteLine serde seen line with
        phase := .writing ⟨message, purpose⟩ } = client.replies ++ [message] := by
      simp [Client.replies, Client.lines, Client.current, Client.noteLine, hp, hreply]
    rw [hadd]
    exact List.rel_append (h.idle (by simp [hp, ClientPhase.restoring]))
      (.cons ⟨snapshot, .inl hl⟩ .nil)
  | @restore snapshot line id entryId seen reply hp hl =>
    refine ⟨lines, some line, rfl, ?_, .restore hl⟩
    have hsame : Client.replies { client.noteLine serde seen line with
        phase := .sending id ⟨entryId, reply⟩ } = client.replies := by
      simp [Client.replies, Client.lines, Client.current, Client.noteLine, hp]
    rw [hsame]
    exact h.idle (by simp [hp, ClientPhase.restoring])
  | @settled id pending wait hp =>
    have hrestoring : client.phase.restoring = some (id, pending.entryId) := by
      rcases hp with ⟨hp, -⟩ | ⟨hp, -⟩ <;> rw [hp] <;> rfl
    have hadd : (client.answered id pending wait.response).replies =
        client.replies ++ [respond id wait.response] := by
      rcases hp with ⟨hp, -⟩ | ⟨hp, -⟩ <;>
        simp [Client.replies, Client.lines, Client.current, Client.answered, Line.isReply, hp]
    obtain ⟨done, waiting, rfl, hdone, hwaits⟩ := h
    rw [hrestoring] at hwaits
    cases hwaits with
    | @restore snapshot line _ _ hl =>
      refine ⟨done ++ [line], none, by simp, ?_, .idle⟩
      rw [hadd]
      exact List.rel_append hdone (.cons ⟨snapshot, .inr ⟨id, _, wait, hl, rfl⟩⟩ .nil)
  | full hp => simpa using h
  | event hp _ | lagged hp | sent hp | written hp | left hp =>
    rw [List.append_nil]
    exact h.same
      (by simp [Client.replies, Client.lines, Client.current, Line.isReply, hp])
      (by simp [ClientPhase.restoring, hp])

/-- Whatever is pushed in between, and whatever the other tasks and the thread
do, a task answers each line before it reads the next one. -/
theorem lines_answered_in_turn {seat manager device : Global}
    (h : (writableSystem clock serde seat manager device c).Run labels s)
    (hc : s.clients[c]? = some client) :
    ∃ done waiting, linesOf c labels = done ++ Option.toList waiting ∧
      List.Forall₂ (RepliesTo serde) done client.replies ∧
      Awaits serde waiting client.phase.restoring :=
  run_task (motive := InTurn serde) (fun _ => ⟨[], none, rfl, .nil, .idle⟩)
    (fun _ _ _ _ h hs => hs.inTurn h) h hc

def pingedActs : List ServerAct :=
  [.accept, .client 0 (.line pingLine), .client 0 .write, .client 0 (.line restoreLine),
    .client 0 .send]

def pinged : Option Server :=
  pingedActs.foldlM (fun s label => if s.writeFails 0 label = false
    then s.act .still sampleSerde label else none) (.start 0 1 2)

theorem pinged_answered : ∃ (s : Server) (client : Client), s.clients[0]? = some client ∧
    client.replies = [respond "p1" .pong] ∧ client.phase.restoring = some ("r1", 1) ∧
    ∃ done waiting, linesOf 0 pingedActs = done ++ Option.toList waiting ∧
      List.Forall₂ (RepliesTo sampleSerde) done client.replies ∧
      Awaits sampleSerde waiting client.phase.restoring := by
  have hrun : pinged.any (fun s => s.clients[0]?.any fun client =>
      client.replies = [respond "p1" .pong] ∧ client.phase.restoring = some ("r1", 1)) = true := by
    decide +kernel
  obtain ⟨s, hs, hclient⟩ := (Option.any_eq_true _ _).mp hrun
  obtain ⟨client, hc, hheld⟩ := (Option.any_eq_true _ _).mp hclient
  obtain ⟨hreplies, hrestoring⟩ := of_decide_eq_true hheld
  exact ⟨s, client, hc, hreplies, hrestoring,
    lines_answered_in_turn (System.restrict_exec hs) hc⟩

end Uclip
