import Mathlib.Data.List.Nodup
import Mathlib.Data.List.Perm.Subperm
import Uclip.Selection
import Uclip.ServerLaws

/-!
# Restore requests and their replies

A request is in one place at a time: with its task, in the channel, in the
hands of the thread, answered. What a task writes for it is what the thread
answered, or an error for a request that can never be executed, or the timeout,
after which the request may still be executed.
-/

namespace Uclip

open Text (Bytes)

def Thread.inHand : Thread → Option PendingRestore
  | .restoring pending => some pending
  | _ => none

def restoredOf : Nat × DaemonResponse → Option (Nat × Nat)
  | (reply, .restored entryId) => some (reply, entryId)
  | _ => none

def Line.answers (line : Line) : Option Nat :=
  match line.purpose with
  | .answer reply => some reply
  | _ => none

namespace Client

def current (client : Client) : Option Line :=
  match client.phase with
  | .writing line => some line
  | .closed unwritten => unwritten
  | _ => none

def lines (client : Client) : List Line := client.written ++ client.current.toList

def held (client : Client) : Option Nat :=
  match client.phase with
  | .sending _ pending | .awaiting _ pending => some pending.reply
  | _ => none

def asked (client : Client) : List Nat :=
  client.lines.filterMap Line.answers ++ client.held.toList

end Client

namespace Server

variable {clock : Clock} {serde : Serde} {s s' : Server} {c : Nat} {client client' : Client}
  {requests : Channel Nat PendingRestore} {asked : List Asked} {id : String}
  {pending : PendingRestore} {line : Line}

def waiting (s : Server) : List PendingRestore := s.requests.queue ++ s.thread.inHand.toList

/-- The requests that have left their task. -/
def flight (s : Server) : List Nat :=
  s.waiting.map (·.reply) ++ s.daemon.replies.map (·.1)

/-- What was published holds the contents of its entry, whose id names no other
entry since. -/
structure PublishedFor (s : Server) (p : Publication) : Prop where
  selected : .setSelection p.source ∈ s.daemon.app.requests
  created : ∃ hasher, .createDataSource p.source
    ⟨AppState.sourceContents hasher p.entry.content⟩ ∈ s.daemon.app.requests
  known : p.entry.id < s.daemon.app.clipboard.nextId
  held : ∀ e, s.daemon.app.clipboard.get p.entry.id = some e → e = p.entry

/-- Each request is in one place, and is answered for its own entry. -/
structure Tracked (s : Server) : Prop where
  nodup : s.flight.Nodup
  waiting : ∀ p ∈ s.waiting, ∃ a, s.asked[p.reply]? = some a ∧ a.entryId = p.entryId
  answered : ∀ answer ∈ s.daemon.replies, ∃ a, s.asked[answer.1]? = some a ∧
    ∀ entryId, answer.2 = .restored entryId → entryId = a.entryId
  published : s.published.map (fun p => (p.reply, p.entry.id)) =
    s.daemon.replies.filterMap restoredOf
  contents : ∀ p ∈ s.published, s.PublishedFor p

-- ---------------------------------------------------------------------------
-- Steps of the thread
-- ---------------------------------------------------------------------------

theorem look_frame (clock : Clock) (d : Daemon) (outcome : ReadOutcome) :
    (d.outcome clock outcome).replies = d.replies ∧
      (d.outcome clock outcome).app.requests = d.app.requests := by
  unfold Daemon.outcome
  split
  · dsimp only
    split
    · exact ⟨rfl, rfl⟩
    · split <;> exact ⟨rfl, rfl⟩
  · exact ⟨rfl, rfl⟩

theorem drained_requests (d : Daemon) (pass : Pass) :
    d.app.requests <+: ((d.dispatched pass).drained pass).1.app.requests := by
  obtain ⟨offers, clipboard, h⟩ := drain_frame pass.drain (d.dispatched pass).app
  have happ : ((d.dispatched pass).drained pass).1.app =
      { (d.dispatched pass).app with offers, clipboard, pendingReads := [] } := h
  rw [happ]
  exact (AppState.Asks.dispatchPending pass.io d.app pass.events).sent

theorem threadStep_requests (h : s.ThreadStep clock s') :
    s.daemon.app.requests <+: s'.daemon.app.requests := by
  cases h with
  | drain pass _ => exact drained_requests s.daemon pass
  | @look outcome outcomes _ => exact (look_frame clock s.daemon outcome).2 ▸ List.prefix_rfl
  | execute hasher offerHasher _ =>
    exact (AppState.Asks.handleRestore clock hasher offerHasher s.daemon _).sent
  | _ => exact List.prefix_rfl

theorem threadStep_clipboard (h : s.ThreadStep clock s') :
    s.daemon.app.clipboard.Later s'.daemon.app.clipboard := by
  cases h with
  | drain pass _ =>
    have hclip : (s.daemon.dispatched pass).app.clipboard = s.daemon.app.clipboard :=
      dispatchPending_clipboard _ _ _
    exact hclip ▸ drain_later pass.drain (s.daemon.dispatched pass).app
  | look _ => exact outcome_later clock s.daemon _
  | @execute pending hasher offerHasher _ =>
    have hclip := (handleRestore_effect clock hasher offerHasher s.daemon pending).clipboard
    exact ⟨hclip ▸ Nat.le_refl _, fun _ hget => hclip ▸ hget⟩
  | _ => exact .refl _

theorem PublishedFor.mono {p : Publication} (h : s.PublishedFor p)
    (hr : s.daemon.app.requests <+: s'.daemon.app.requests)
    (hclip : s.daemon.app.clipboard.Later s'.daemon.app.clipboard) : s'.PublishedFor p where
  selected := hr.subset h.selected
  created := h.created.imp fun _ => (hr.subset ·)
  known := h.known.trans_le hclip.nextId_le
  held e he := h.held e (hclip.get_of_get h.known he)

/-- One restore: it is answered, and if the answer says so a source with the
entry's contents is published. -/
theorem execute_cases (clock : Clock) (s : Server) (hasher offerHasher : Hasher String Bytes)
    (pending : PendingRestore) :
    let s' := s.execute clock hasher offerHasher pending
    (∃ p, s'.published = s.published ++ [p] ∧ p.reply = pending.reply ∧
        p.entry.id = pending.entryId ∧ s'.PublishedFor p ∧
        s'.daemon.replies = s.daemon.replies ++ [(pending.reply, .restored pending.entryId)]) ∨
      (s'.published = s.published ∧ ∃ err,
        s'.daemon.replies = s.daemon.replies ++ [(pending.reply, .ofError err)]) := by
  intro s'
  rcases handleRestore_cases clock hasher offerHasher s.daemon pending with
    ⟨entry, app, hget, hok, hd⟩ | ⟨err, herr, hd⟩
  · refine .inl ⟨⟨pending.reply, s.daemon.app.created, entry⟩, ?_, rfl,
      (ClipState.mem_of_get hget).2, ?_, ?_⟩
    · simp only [s', execute, hget, hok]
    · obtain ⟨entry', hget', -, -, rfl⟩ := AppState.restoreEntry_eq_ok hok
      cases hget.symm.trans hget'
      have hreq : s'.daemon.app.requests = s.daemon.app.requests ++
          AppState.publishRequests s.daemon.app.created
            (AppState.sourceContents hasher entry.content)
            (offerHasher.keys (AppState.sourceContents hasher entry.content))
            s.daemon.app.currentSource := by
        simp only [s', execute, hd, AppState.publish_eq]
      have hclip : s'.daemon.app.clipboard = s.daemon.app.clipboard :=
        (handleRestore_effect clock hasher offerHasher s.daemon pending).clipboard
      obtain ⟨hmem, hid⟩ := ClipState.mem_of_get hget
      refine ⟨?_, ⟨hasher, ?_⟩, ?_, ?_⟩
      · rw [hreq]
        simp [AppState.publishRequests]
      · rw [hreq]
        simp [AppState.publishRequests]
      · rw [hclip]
        exact s.daemon.app.clipboard.valid.fresh entry hmem
      · rw [hclip, hid, hget]
        exact fun e he => (Option.some.inj he).symm
    · simp only [s', execute, hd]
  · refine .inr ⟨?_, err, ?_⟩
    · simp only [s', execute, herr]
      cases s.daemon.app.clipboard.get pending.entryId <;> rfl
    · simp only [s', execute, hd]

theorem getElem?_of_prefix {l l' : List α} {i : Nat} (h : l <+: l') (hi : l[i]? = some a) :
    l'[i]? = some a := by
  obtain ⟨more, rfl⟩ := h
  rw [List.getElem?_append_left (List.getElem?_eq_some_iff.mp hi).1, hi]

theorem execute_waiting (hasher offerHasher : Hasher String Bytes) (pending : PendingRestore) :
    (s.execute clock hasher offerHasher pending).waiting = s.requests.queue := by
  simp [Server.waiting, Server.execute, Thread.inHand]

theorem execute_replies (clock : Clock) (s : Server) (hasher offerHasher : Hasher String Bytes)
    (pending : PendingRestore) : ∃ resp,
      (s.execute clock hasher offerHasher pending).daemon.replies =
        s.daemon.replies ++ [(pending.reply, resp)] := by
  rcases execute_cases clock s hasher offerHasher pending with
    ⟨_, _, _, _, _, hreplies⟩ | ⟨_, err, hreplies⟩
  · exact ⟨_, hreplies⟩
  · exact ⟨_, hreplies⟩

theorem threadStep_waiting (h : s.ThreadStep clock s') : s'.waiting.Subperm s.waiting := by
  cases h with
  | pop hthread hpop =>
    simp only [Server.waiting, hthread, Thread.inHand, Channel.pop_queue hpop, Option.toList_none,
      Option.toList_some, List.append_nil]
    exact (List.perm_append_singleton _ _).subperm
  | execute hasher offerHasher hthread =>
    rw [execute_waiting]
    exact (List.sublist_append_left _ _).subperm
  | exit _ => simp [Server.waiting, Thread.inHand, Channel.close, List.nil_subperm]
  | ready hthread | drain _ hthread | look hthread | broadcast hthread | serve hthread
  | answer hthread | sleep hthread =>
    simp only [Server.waiting, hthread, Thread.inHand]
    exact List.Subperm.refl _

theorem threadStep_flight (h : s.ThreadStep clock s') : s'.flight.Subperm s.flight := by
  have hkeep (hreplies : s'.daemon.replies = s.daemon.replies) : s'.flight.Subperm s.flight := by
    obtain ⟨l, hperm, hsub⟩ := threadStep_waiting h
    refine ⟨l.map (·.reply) ++ s.daemon.replies.map (·.1), ?_, ?_⟩
    · rw [flight, hreplies]
      exact (hperm.map _).append_right _
    · exact (hsub.map _).append (List.Sublist.refl _)
  cases h with
  | @execute pending hasher offerHasher hthread =>
    obtain ⟨resp, hreplies⟩ := execute_replies clock s hasher offerHasher pending
    have hwaiting : s.waiting = s.requests.queue ++ [pending] := by
      simp [Server.waiting, hthread, Thread.inHand]
    rw [flight, flight, execute_waiting, hreplies, hwaiting]
    simp only [List.map_append, List.map_cons, List.map_nil, List.append_assoc]
    have hcomm : (s.daemon.replies.map (·.1) ++ [pending.reply]).Perm _ := List.perm_append_comm
    exact (hcomm.append_left _).subperm
  | look _ => exact hkeep (look_frame ..).1
  | _ => exact hkeep rfl

theorem Tracked.keep (h : s.Tracked) (hflight : s'.flight.Subperm s.flight)
    (hw : s'.waiting ⊆ s.waiting) (hreplies : s'.daemon.replies = s.daemon.replies)
    (hasked : s.asked <+: s'.asked) (hpub : s'.published = s.published)
    (hreq : s.daemon.app.requests <+: s'.daemon.app.requests)
    (hclip : s.daemon.app.clipboard.Later s'.daemon.app.clipboard) : s'.Tracked where
  nodup := by
    obtain ⟨l, hperm, hsub⟩ := hflight
    exact hperm.nodup_iff.mp (h.nodup.sublist hsub)
  waiting p hp := by
    obtain ⟨a, ha, hentry⟩ := h.waiting p (hw hp)
    exact ⟨a, getElem?_of_prefix hasked ha, hentry⟩
  answered answer hanswer := by
    obtain ⟨a, ha, hentry⟩ := h.answered answer (hreplies ▸ hanswer)
    exact ⟨a, getElem?_of_prefix hasked ha, hentry⟩
  published := by
    rw [hpub, hreplies]
    exact h.published
  contents p hp := (h.contents p (hpub ▸ hp)).mono hreq hclip

theorem Tracked.execute (h : s.Tracked) (hthread : s.thread = .restoring pending)
    (hasher offerHasher : Hasher String Bytes) :
    (s.execute clock hasher offerHasher pending).Tracked := by
  have hstep : s.ThreadStep clock (s.execute clock hasher offerHasher pending) :=
    .execute hasher offerHasher hthread
  have hreq := threadStep_requests hstep
  have hclip := threadStep_clipboard hstep
  have hw := (threadStep_waiting hstep).subset
  obtain ⟨l, hperm, hsub⟩ := threadStep_flight hstep
  have hnodup := hperm.nodup_iff.mp (h.nodup.sublist hsub)
  obtain ⟨a, ha, hentry⟩ := h.waiting pending (by simp [Server.waiting, hthread, Thread.inHand])
  have hanswered (resp : DaemonResponse) (hresp : ∀ e, resp = .restored e → e = a.entryId)
      (answer : Nat × DaemonResponse)
      (hanswer : answer ∈ s.daemon.replies ++ [(pending.reply, resp)]) :
      ∃ a, s.asked[answer.1]? = some a ∧ ∀ e, answer.2 = .restored e → e = a.entryId := by
    rcases List.mem_append.mp hanswer with hanswer | hanswer
    · exact h.answered answer hanswer
    · cases List.mem_singleton.mp hanswer
      exact ⟨a, ha, hresp⟩
  rcases execute_cases clock s hasher offerHasher pending with
    ⟨p, hpub, hreply, hid, hfor, hreplies⟩ | ⟨hpub, err, hreplies⟩
  · refine ⟨hnodup, fun p hp => h.waiting p (hw hp), ?_, ?_, ?_⟩
    · rw [hreplies]
      refine hanswered _ ?_
      rintro _ ⟨⟩
      exact hentry.symm
    · rw [hpub, hreplies, List.map_append, List.filterMap_append, h.published]
      simp [restoredOf, hreply, hid]
    · rw [hpub]
      intro p' hp'
      rcases List.mem_append.mp hp' with hp' | hp'
      · exact (h.contents p' hp').mono hreq hclip
      · cases List.mem_singleton.mp hp'
        exact hfor
  · refine ⟨hnodup, fun p hp => h.waiting p (hw hp), ?_, ?_, ?_⟩
    · rw [hreplies]
      refine hanswered _ ?_
      rintro _ ⟨⟩
    · rw [hpub, hreplies, List.filterMap_append, h.published]
      simp [restoredOf, DaemonResponse.ofError]
    · rw [hpub]
      exact fun p hp => (h.contents p hp).mono hreq hclip

theorem threadStep_tracked (h : s.Tracked) (hs : s.ThreadStep clock s') : s'.Tracked := by
  have hkeep (hreplies : s'.daemon.replies = s.daemon.replies) (hasked : s.asked = s'.asked)
      (hpub : s'.published = s.published) : s'.Tracked :=
    h.keep (threadStep_flight hs) (threadStep_waiting hs).subset hreplies
      (hasked ▸ List.prefix_rfl) hpub (threadStep_requests hs) (threadStep_clipboard hs)
  cases hs with
  | execute hasher offerHasher hthread => exact h.execute hthread hasher offerHasher
  | look _ => exact hkeep (look_frame ..).1 rfl rfl
  | _ => exact hkeep rfl rfl rfl

-- ---------------------------------------------------------------------------
-- Clients
-- ---------------------------------------------------------------------------

/-- Why a response may be written for a request: the thread gave it, or the
thread is gone and never came to the request, or the timer has expired. -/
inductive Justified (s : Server) (reply : Nat) : DaemonResponse → Prop
  | answered {resp} : (reply, resp) ∈ s.daemon.replies → Justified s reply resp
  | dead (message : String) : s.thread = .gone → reply ∉ s.daemon.replies.map (·.1) →
      Justified s reply (.error message)
  | timedOut : Justified s reply (.error "restore timed out")

structure Later (s s' : Server) : Prop where
  asked : s.asked <+: s'.asked
  replies : s.daemon.replies <+: s'.daemon.replies
  gone : s.thread = .gone → s'.thread = .gone ∧ s'.daemon.replies = s.daemon.replies

theorem Justified.mono (hl : Later s s') (h : s.Justified reply resp) :
    s'.Justified reply resp := by
  cases h with
  | answered hmem => exact .answered (hl.replies.subset hmem)
  | dead message hgone hnot =>
    obtain ⟨hgone', hreplies⟩ := hl.gone hgone
    exact .dead message hgone' (hreplies ▸ hnot)
  | timedOut => exact .timedOut

theorem threadStep_later (h : s.ThreadStep clock s') : Later s s' := by
  cases h with
  | @look outcome outcomes hthread =>
    have hreplies := (look_frame clock s.daemon outcome).1
    exact ⟨List.prefix_rfl, hreplies ▸ List.prefix_rfl, fun hg => by simp [hthread] at hg⟩
  | @execute pending hasher offerHasher hthread =>
    refine ⟨List.prefix_rfl, ?_, fun hg => by simp [hthread] at hg⟩
    rcases execute_cases clock s hasher offerHasher pending with
      ⟨_, _, _, _, _, hreplies⟩ | ⟨_, _, hreplies⟩
    · exact hreplies ▸ List.prefix_append ..
    · exact hreplies ▸ List.prefix_append ..
  | ready hthread | drain _ hthread | broadcast hthread | serve hthread | pop hthread _
  | answer hthread | sleep hthread =>
    exact ⟨List.prefix_rfl, List.prefix_rfl, fun hg => by simp [hthread] at hg⟩
  | exit _ => exact ⟨List.prefix_rfl, List.prefix_rfl, fun hg => ⟨rfl, rfl⟩⟩

theorem clientStep_later {a : ClientAct}
    (h : s.ClientStep serde c client a client' requests asked) :
    Later s (setClient { s with requests, asked } c client') := by
  have hasked : s.asked <+: asked := by
    cases h with
    | restore _ _ => exact List.prefix_append ..
    | _ => exact List.prefix_rfl
  exact ⟨hasked, List.prefix_rfl, fun hg => ⟨hg, rfl⟩⟩

theorem act_later (h : s.act clock serde a = some s') : Later s s' := by
  rcases act_cases h with ⟨_, -, ht⟩ | ⟨-, rfl⟩ | ⟨_, _, _, _, _, _, -, -, hc, rfl⟩
  · exact threadStep_later ht
  · exact ⟨List.prefix_rfl, List.prefix_rfl, fun hg => ⟨hg, rfl⟩⟩
  · exact clientStep_later hc

/-- The requests of one client are its own, and what it writes for them is
theirs. -/
structure ClientOk (s : Server) (c : Nat) (client : Client) : Prop where
  pending : ∀ id pending, client.phase = .sending id pending ∨ client.phase = .awaiting id pending →
    s.asked[pending.reply]? = some ⟨c, id, pending.entryId⟩
  unsent : ∀ id pending, client.phase = .sending id pending → pending.reply ∉ s.flight
  once : client.asked.Nodup
  lines : ∀ line ∈ client.lines, ∀ reply, line.answers = some reply → ∃ a resp,
    s.asked[reply]? = some a ∧ a.client = c ∧ line.message = respond a.id resp ∧
      s.Justified reply resp

theorem ClientOk.mono (hl : Later s s') (h : s.ClientOk c client)
    (hf : ∀ id pending, client.phase = .sending id pending → pending.reply ∉ s'.flight) :
    s'.ClientOk c client where
  pending id pending hp := getElem?_of_prefix hl.asked (h.pending id pending hp)
  unsent := hf
  once := h.once
  lines line hline reply hr := by
    obtain ⟨a, resp, ha, hc, hm, hj⟩ := h.lines line hline reply hr
    exact ⟨a, resp, getElem?_of_prefix hl.asked ha, hc, hm, hj.mono hl⟩

theorem ClientOk.mem_asked (h : s.ClientOk c client) (hr : reply ∈ client.asked) :
    ∃ a, s.asked[reply]? = some a ∧ a.client = c := by
  rcases List.mem_append.mp hr with hr | hr
  · obtain ⟨line, hline, hanswers⟩ := List.mem_filterMap.mp hr
    obtain ⟨a, _, ha, hc, -⟩ := h.lines line hline reply hanswers
    exact ⟨a, ha, hc⟩
  · have hheld : client.held = some reply := by simpa using hr
    unfold Client.held at hheld
    split at hheld
    · cases hheld
      exact ⟨_, h.pending _ _ (.inl ‹_›), rfl⟩
    · cases hheld
      exact ⟨_, h.pending _ _ (.inr ‹_›), rfl⟩
    · cases hheld

theorem ClientOk.idle (hl : Later s s') (h : s.ClientOk c client)
    (hheld : client'.held = none) (hasked : client'.asked = client.asked)
    (hlines : ∀ line ∈ client'.lines, line ∈ client.lines ∨ line.answers = none) :
    s'.ClientOk c client' where
  pending id pending hp := by
    rcases hp with hp | hp
    · simp [Client.held, hp] at hheld
    · simp [Client.held, hp] at hheld
  unsent id pending hp := by simp [Client.held, hp] at hheld
  once := hasked ▸ h.once
  lines line hline reply hr := by
    rcases hlines line hline with hline | hnone
    · obtain ⟨a, resp, ha, hc, hm, hj⟩ := h.lines line hline reply hr
      exact ⟨a, resp, getElem?_of_prefix hl.asked ha, hc, hm, hj.mono hl⟩
    · rw [hnone] at hr
      cases hr

theorem ClientOk.same (hl : Later s s') (h : s.ClientOk c client) (hheld : client.held = none)
    (hheld' : client'.held = none) (hlines : client'.lines = client.lines) :
    s'.ClientOk c client' :=
  h.idle hl hheld' (by rw [Client.asked, Client.asked, hlines, hheld, hheld'])
    fun _ hline => .inl (hlines ▸ hline)

theorem ClientOk.reply (hl : Later s s') (h : s.ClientOk c client)
    (hp : client.phase = .sending id pending ∨ client.phase = .awaiting id pending)
    (hj : s.Justified pending.reply resp) : s'.ClientOk c (client.answered id pending resp) := by
  have hlines : (client.answered id pending resp).lines =
      client.written ++ [⟨respond id resp, .answer pending.reply⟩] := rfl
  have hcurrent : client.current = none := by
    rcases hp with hp | hp <;> simp [Client.current, hp]
  have hasked : (client.answered id pending resp).asked = client.asked := by
    have hheld : client.held = some pending.reply := by
      rcases hp with hp | hp <;> simp [Client.held, hp]
    have hheld' : (client.answered id pending resp).held = none := rfl
    rw [Client.asked, Client.asked, hlines, hheld, hheld']
    simp [Client.lines, hcurrent, Line.answers]
  refine ⟨?_, ?_, hasked ▸ h.once, ?_⟩
  · rintro _ _ (hp | hp) <;> cases hp
  · rintro _ _ hp
    cases hp
  · intro line hline reply hr
    rw [hlines] at hline
    rcases List.mem_append.mp hline with hline | hline
    · obtain ⟨a, resp, ha, hc, hm, hj⟩ := h.lines line (by simp [Client.lines, hline]) reply hr
      exact ⟨a, resp, getElem?_of_prefix hl.asked ha, hc, hm, hj.mono hl⟩
    · cases List.mem_singleton.mp hline
      cases hr
      exact ⟨_, resp, getElem?_of_prefix hl.asked (h.pending id pending hp), rfl, rfl, hj.mono hl⟩

theorem ClientOk.writing (hl : Later s s') (h : s.ClientOk c client)
    (hp : client.phase = .selecting) (hline : line.answers = none)
    (hphase : client'.phase = .writing line) (hw : client'.written = client.written) :
    s'.ClientOk c client' := by
  have hlines : client'.lines = client.lines ++ [line] := by
    simp [Client.lines, Client.current, hp, hphase, hw]
  refine h.idle hl (by simp [Client.held, hphase]) ?_ ?_
  · simp [Client.asked, hlines, Client.held, hp, hphase, hline]
  · intro line' hmem
    rw [hlines] at hmem
    rcases List.mem_append.mp hmem with hmem | hmem
    · exact .inl hmem
    · exact .inr (List.mem_singleton.mp hmem ▸ hline)

theorem ClientOk.accept (hl : Later s s') (h : s.ClientOk c client) (ht : s.Tracked)
    (hp : client.phase = .selecting) (hasked : s'.asked = s.asked ++ [⟨c, id, entryId⟩])
    (hflight : s'.flight = s.flight)
    (hphase : client'.phase = .sending id ⟨entryId, s.asked.length⟩)
    (hw : client'.written = client.written) : s'.ClientOk c client' := by
  have hlines : client'.lines = client.lines := by
    simp [Client.lines, Client.current, hp, hphase, hw]
  have hlt (reply : Nat) (h : ∃ a, s.asked[reply]? = some a ∧ True) : reply ≠ s.asked.length := by
    obtain ⟨a, ha, -⟩ := h
    exact (List.getElem?_eq_some_iff.mp ha).1.ne
  refine ⟨?_, ?_, ?_, ?_⟩
  · rintro id' pending' (hp' | hp')
    · cases hphase.symm.trans hp'
      rw [hasked, List.getElem?_append_right (Nat.le_refl _), Nat.sub_self]
      rfl
    · cases hphase.symm.trans hp'
  · intro id' pending' hp' hmem
    cases hphase.symm.trans hp'
    rw [hflight] at hmem
    rcases List.mem_append.mp hmem with hmem | hmem
    · obtain ⟨p, hp, hreply⟩ := List.mem_map.mp hmem
      obtain ⟨a, ha, -⟩ := ht.waiting p hp
      exact hlt p.reply ⟨a, ha, trivial⟩ hreply
    · obtain ⟨answer, hanswer, hreply⟩ := List.mem_map.mp hmem
      obtain ⟨a, ha, -⟩ := ht.answered answer hanswer
      exact hlt answer.1 ⟨a, ha, trivial⟩ hreply
  · have hnew : s.asked.length ∉ client.asked := by
      intro hmem
      obtain ⟨a, ha, -⟩ := h.mem_asked hmem
      exact hlt _ ⟨a, ha, trivial⟩ rfl
    have hold : client.asked = client.lines.filterMap Line.answers := by
      simp [Client.asked, Client.held, hp]
    have hheld : client'.held.toList = [s.asked.length] := by simp [Client.held, hphase]
    rw [Client.asked, hlines, ← hold, hheld]
    refine List.nodup_append.mpr ⟨h.once, List.nodup_singleton _, ?_⟩
    rintro reply hmem _ hsing rfl
    exact hnew (List.mem_singleton.mp hsing ▸ hmem)
  · intro line hline reply hr
    rw [hlines] at hline
    obtain ⟨a, resp, ha, hc, hm, hj⟩ := h.lines line hline reply hr
    exact ⟨a, resp, getElem?_of_prefix hl.asked ha, hc, hm, hj.mono hl⟩

theorem clientStep_queue {a : ClientAct}
    (h : s.ClientStep serde c client a client' requests asked) :
    requests.queue = s.requests.queue ∨ ∃ id pending, client.phase = .sending id pending ∧
      client'.phase = .awaiting id pending ∧ requests.queue = s.requests.queue ++ [pending] := by
  cases h with
  | @sent id pending hp _ hdone =>
    refine .inr ⟨id, pending, hp, rfl, ?_⟩
    rw [Channel.pollSend_queue, if_pos hdone]
  | full _ _ hfull =>
    refine .inl ?_
    rw [Channel.pollSend_queue, hfull]
    rfl
  | _ => exact .inl rfl

theorem flight_of_queue (h : requests.queue = s.requests.queue) :
    (setClient { s with requests, asked } c client').flight = s.flight := by
  simp only [flight, Server.waiting, setClient_requests, setClient_thread, setClient_daemon, h]

theorem mem_flight_sent (h : requests.queue = s.requests.queue ++ [pending]) :
    reply ∈ (setClient { s with requests, asked } c client').flight ↔
      reply ∈ s.flight ∨ reply = pending.reply := by
  simp only [flight, Server.waiting, setClient_requests, setClient_thread, setClient_daemon, h]
  simp only [List.map_append, List.mem_append, List.map_cons, List.map_nil, List.mem_singleton]
  tauto

theorem clientStep_tracked (ht : s.Tracked) (hk : s.ClientOk c client)
    {a : ClientAct} (h : s.ClientStep serde c client a client' requests asked) :
    (setClient { s with requests, asked } c client').Tracked := by
  have hl := clientStep_later h
  rcases clientStep_queue h with hq | ⟨id, pending, hp, hp', hq⟩
  · refine ht.keep (List.Perm.of_eq (flight_of_queue hq)).subperm ?_ rfl hl.asked rfl
      List.prefix_rfl (.refl _)
    simp only [Server.waiting, setClient_requests, setClient_thread, hq]
    exact List.Subset.refl _
  · refine ⟨?_, ?_, ?_, ht.published, fun p hp => (ht.contents p hp).mono List.prefix_rfl (.refl _)⟩
    · have hperm : (setClient { s with requests, asked } c client').flight.Perm
          (pending.reply :: s.flight) := by
        simp only [flight, Server.waiting, setClient_requests, setClient_thread, setClient_daemon,
          hq, List.append_assoc, List.map_append, List.map_cons, List.map_nil]
        exact List.perm_middle
      exact hperm.nodup_iff.mpr (List.nodup_cons.mpr ⟨hk.unsent id pending hp, ht.nodup⟩)
    · intro p hmem
      simp only [Server.waiting, setClient_requests, setClient_thread, hq, List.mem_append,
        List.mem_singleton] at hmem
      rcases hmem with (hmem | rfl) | hmem
      · obtain ⟨a, ha, hentry⟩ := ht.waiting p (by simp [Server.waiting, hmem])
        exact ⟨a, getElem?_of_prefix hl.asked ha, hentry⟩
      · exact ⟨_, getElem?_of_prefix hl.asked (hk.pending id p (.inl hp)), rfl⟩
      · obtain ⟨a, ha, hentry⟩ := ht.waiting p (List.mem_append_right _ hmem)
        exact ⟨a, getElem?_of_prefix hl.asked ha, hentry⟩
    · intro answer hmem
      obtain ⟨a, ha, hentry⟩ := ht.answered answer hmem
      exact ⟨a, getElem?_of_prefix hl.asked ha, hentry⟩

theorem lookup_eq_some {l : List (Nat × β)} (h : l.lookup k = some b) : (k, b) ∈ l := by
  obtain ⟨l₁, l₂, rfl, -⟩ := List.lookup_eq_some_iff.mp h
  simp

theorem mem_replies_of_oneshot (h : s.oneshot reply = some resp) :
    (reply, resp) ∈ s.daemon.replies := by
  unfold oneshot at h
  split at h
  · split at h
    · cases h
    · exact lookup_eq_some h
  · exact lookup_eq_some h

theorem not_mem_replies_of_gone (hgone : s.thread = .gone) (h : s.oneshot reply = none) :
    reply ∉ s.daemon.replies.map (·.1) := by
  simp only [oneshot, hgone, Daemon.replyTo, List.lookup_eq_none_iff] at h
  intro hmem
  obtain ⟨answer, hanswer, rfl⟩ := List.mem_map.mp hmem
  simpa using h answer hanswer

theorem clientStep_ok (ht : s.Tracked) (hk : s.ClientOk c client)
    {a : ClientAct} (h : s.ClientStep serde c client a client' requests asked) :
    (setClient { s with requests, asked } c client').ClientOk c client' := by
  have hl := clientStep_later h
  cases h with
  | @reply l message hp _ =>
    refine hk.writing hl hp ?_ rfl rfl
    by_cases hlong : maxLineBytes < l.length <;> simp [Line.answers, hlong]
  | @restore l id entryId hp _ =>
    exact hk.accept hl ht hp rfl (flight_of_queue rfl) rfl rfl
  | event hp _ _ => exact hk.writing hl hp rfl rfl rfl
  | lagged hp _ _ _ => exact hk.writing hl hp rfl rfl rfl
  | @sent id pending hp _ _ =>
    refine ⟨?_, ?_, ?_, ?_⟩
    · rintro id' pending' (hp' | hp')
      · cases hp'
      · cases hp'
        exact hk.pending id pending (.inl hp)
    · rintro _ _ hp'
      cases hp'
    · simpa [Client.asked, Client.lines, Client.current, Client.held, hp] using hk.once
    · intro line hline reply hr
      obtain ⟨a, resp, ha, hc, hm, hj⟩ := hk.lines line
        (by simpa [Client.lines, Client.current, hp] using hline) reply hr
      exact ⟨a, resp, ha, hc, hm, hj.mono hl⟩
  | @full id pending hp _ hfull =>
    refine hk.mono hl fun id' pending' hp' => ?_
    rw [flight_of_queue (by rw [Channel.pollSend_queue, hfull]; rfl)]
    exact hk.unsent id' pending' hp'
  | @refused id pending hp hgone =>
    refine hk.reply hl (.inl hp) (.dead _ hgone fun hmem => ?_)
    exact hk.unsent id pending hp (List.mem_append_right _ hmem)
  | received hp hone => exact hk.reply hl (.inr hp) (.answered (mem_replies_of_oneshot hone))
  | dropped hp hone hgone =>
    exact hk.reply hl (.inr hp) (.dead _ hgone (not_mem_replies_of_gone hgone hone))
  | expired hp => exact hk.reply hl (.inr hp) .timedOut
  | written hp =>
    exact hk.same hl (by simp [Client.held, hp]) rfl
      (by simp [Client.lines, Client.current, hp])
  | @forgotten l hp hbest =>
    have hnone : l.answers = none := by simp [Line.answers, hbest]
    refine hk.idle hl rfl ?_ ?_
    · simp [Client.asked, Client.lines, Client.current, Client.held, hp, hnone]
    · intro line hline
      have hmem : line ∈ client.written := by
        simpa [Client.lines, Client.current] using hline
      exact .inl (List.mem_append_left _ hmem)
  | left hp =>
    exact hk.same hl (by simp [Client.held, hp]) rfl
      (by simp [Client.lines, Client.current, hp])
  | broken hp =>
    exact hk.same hl (by simp [Client.held, hp]) rfl
      (by simp [Client.lines, Client.current, hp])

-- ---------------------------------------------------------------------------
-- Runs
-- ---------------------------------------------------------------------------

structure Honest (s : Server) : Prop where
  tracked : s.Tracked
  clients : ∀ c client, s.clients[c]? = some client → s.ClientOk c client

theorem threadStep_clients (h : s.ThreadStep clock s') : s'.clients = s.clients := by
  cases h <;> rfl

theorem act_honest (h : s.Honest) (hs : s.act clock serde a = some s') : s'.Honest := by
  have hl := act_later hs
  rcases act_cases hs with ⟨_, -, ht⟩ | ⟨-, rfl⟩ |
    ⟨c, _, client, client', requests, asked, -, hc, hstep, rfl⟩
  · refine ⟨threadStep_tracked h.tracked ht, fun k other hk => ?_⟩
    rw [threadStep_clients ht] at hk
    have hok := h.clients k other hk
    exact hok.mono hl fun id pending hp hmem =>
      hok.unsent id pending hp ((threadStep_flight ht).subset hmem)
  · refine ⟨h.tracked.keep (.refl _) (List.Subset.refl _) rfl hl.asked rfl List.prefix_rfl
      (.refl _), ?_⟩
    intro k other hk
    rcases getElem?_append_singleton hk with hk | rfl
    · have hok := h.clients k other hk
      exact hok.mono hl hok.unsent
    · refine ⟨?_, ?_, List.nodup_nil, ?_⟩
      · rintro _ _ (hp | hp) <;> cases hp
      · rintro _ _ hp
        cases hp
      · rintro _ hline
        cases hline
  · have hok := h.clients c client hc
    refine ⟨clientStep_tracked h.tracked hok hstep, fun k other hk => ?_⟩
    rcases setClient_cases hk hc with ⟨rfl, rfl⟩ | ⟨hkc, hk⟩
    · exact clientStep_ok h.tracked hok hstep
    · have hother := h.clients k other hk
      refine hother.mono hl fun id pending hp hmem => ?_
      rcases clientStep_queue hstep with hq | ⟨id', pending', hp', -, hq⟩
      · rw [flight_of_queue hq] at hmem
        exact hother.unsent id pending hp hmem
      · rcases (mem_flight_sent hq).mp hmem with hmem | hreply
        · exact hother.unsent id pending hp hmem
        · have hk := hother.pending id pending (.inl hp)
          have hc' := hok.pending id' pending' (.inl hp')
          rw [hreply, hc'] at hk
          exact hkc (congrArg Asked.client (Option.some.inj hk)).symm

theorem Later.trans {t : Server} (h : Later s s') (h' : Later s' t) : Later s t where
  asked := h.asked.trans h'.asked
  replies := h.replies.trans h'.replies
  gone hg := by
    obtain ⟨hg', hr⟩ := h.gone hg
    obtain ⟨hg'', hr'⟩ := h'.gone hg'
    exact ⟨hg'', hr'.trans hr⟩

theorem steps_later (h : (serverSystem clock serde seat manager device).Steps mine s s') :
    Later s s' :=
  h.invariant (motive := Later s) ⟨List.prefix_rfl, List.prefix_rfl, fun hg => ⟨hg, rfl⟩⟩
    fun _ _ _ _ hl hstep => hl.trans (act_later hstep)

-- ---------------------------------------------------------------------------
-- What was published
-- ---------------------------------------------------------------------------

theorem restoredOf_sublist (l : List (Nat × DaemonResponse)) :
    ((l.filterMap restoredOf).map (·.1)).Sublist (l.map (·.1)) := by
  induction l with
  | nil => exact .slnil
  | cons answer l ih =>
    obtain ⟨reply, resp⟩ := answer
    cases resp with
    | restored entryId => exact ih.cons_cons reply
    | _ => exact ih.cons reply

theorem Tracked.replies_nodup (h : s.Tracked) : (s.daemon.replies.map (·.1)).Nodup :=
  h.nodup.sublist (List.sublist_append_right _ _)

theorem Tracked.published_nodup (h : s.Tracked) : (s.published.map (·.reply)).Nodup := by
  have hmap : s.published.map (·.reply) =
      (s.daemon.replies.filterMap restoredOf).map (·.1) := by
    rw [← h.published, List.map_map]
    rfl
  rw [hmap]
  exact h.replies_nodup.sublist (restoredOf_sublist _)

theorem Tracked.mem_published (h : s.Tracked) :
    (∃ p ∈ s.published, p.reply = reply ∧ p.entry.id = entryId) ↔
      (reply, .restored entryId) ∈ s.daemon.replies := by
  have hmem : (∃ p ∈ s.published, p.reply = reply ∧ p.entry.id = entryId) ↔
      (reply, entryId) ∈ s.published.map fun p => (p.reply, p.entry.id) := by
    simp
  rw [hmem, h.published, List.mem_filterMap]
  constructor
  · rintro ⟨⟨reply', resp⟩, hanswer, heq⟩
    cases resp with
    | restored entryId' =>
      cases heq
      exact hanswer
    | _ => cases heq
  · exact fun hanswer => ⟨_, hanswer, rfl⟩

theorem Justified.not_published (hj : s.Justified reply (.error message))
    (hne : message ≠ "restore timed out") (h : s.Tracked) {p : Publication}
    (hp : p ∈ s.published) : p.reply ≠ reply := by
  intro hreply
  have hrestored : (reply, .restored p.entry.id) ∈ s.daemon.replies :=
    h.mem_published.mp ⟨p, hp, hreply, rfl⟩
  cases hj with
  | answered herror =>
    have heq := List.inj_on_of_nodup_map h.replies_nodup herror hrestored rfl
    cases heq
  | dead _ _ hnot => exact hnot (List.mem_map_of_mem hrestored)
  | timedOut => exact hne rfl

theorem reachable_honest (h : (serverSystem clock serde seat manager device).Reachable s) :
    s.Honest := by
  refine h.induct (motive := Honest) ?_ fun _ _ _ _ ih hstep => act_honest ih hstep
  rintro _ rfl
  refine ⟨⟨List.nodup_nil, ?_, ?_, rfl, ?_⟩, ?_⟩
  · rintro _ ⟨⟩
  · rintro _ ⟨⟩
  · rintro _ ⟨⟩
  · intro c client hc
    simp [start] at hc

end Server

/-- For every client of every reachable state, and whatever happens after: what
it was written for restore requests answers each at most once, with the id of
that request; `Restored` names the entry of the request, for which a source with
its contents was published; and a request answered with an error other than the
timeout is one that no source is ever published for. One that has timed out
may be executed still, and any request is executed once at most. -/
theorem restore_replies_true (clock : Clock) (serde : Serde) (seat manager device : Global)
    {s s' : Server} (hs : (serverSystem clock serde seat manager device).Reachable s)
    (hs' : (serverSystem clock serde seat manager device).Steps (fun _ => True) s s')
    (hc : s.clients[c]? = some client) :
    (client.written.filterMap Line.answers).Nodup ∧
    (∀ line ∈ client.written, ∀ reply, line.answers = some reply → ∃ asked resp,
      s.asked[reply]? = some asked ∧ asked.client = c ∧ line.message = respond asked.id resp ∧
      (∀ entryId, resp = .restored entryId → entryId = asked.entryId ∧
        ∃ p ∈ s.published, p.reply = reply ∧ p.entry.id = entryId ∧ s.PublishedFor p) ∧
      (∀ message, resp = .error message → message ≠ "restore timed out" →
        ∀ p ∈ s'.published, p.reply ≠ reply)) ∧
    (s'.published.map (·.reply)).Nodup := by
  have hs'reach := hs.steps hs'
  have hhonest := Server.reachable_honest hs
  have hhonest' := Server.reachable_honest hs'reach
  have hok := hhonest.clients c client hc
  refine ⟨?_, fun line hline reply hr => ?_, hhonest'.tracked.published_nodup⟩
  · refine hok.once.sublist (List.Sublist.trans ?_ (List.sublist_append_left _ _))
    exact (List.sublist_append_left _ _).filterMap _
  · obtain ⟨asked, resp, ha, hclient, hm, hj⟩ :=
      hok.lines line (List.mem_append_left _ hline) reply hr
    refine ⟨asked, resp, ha, hclient, hm, ?_, ?_⟩
    · rintro entryId rfl
      cases hj with
      | answered hmem =>
        obtain ⟨a, ha', hentry⟩ := hhonest.tracked.answered _ hmem
        cases ha.symm.trans ha'
        obtain ⟨p, hp, hreply, hid⟩ := hhonest.tracked.mem_published.mpr hmem
        exact ⟨hentry _ rfl, p, hp, hreply, hid, hhonest.tracked.contents p hp⟩
    · rintro message rfl hne p hp
      exact (hj.mono (Server.steps_later hs')).not_published hne hhonest'.tracked hp

def copyRun : List ServerAct :=
  let copy := copyPass 0 ⟨1, 1⟩ ["text/plain"] fun _ => [0x68, 0x69]
  [.thread .ready, .thread (.drain copy.events copy.io copy.drain), .thread .look,
    .thread .broadcast, .thread .serve, .thread .sleep]

def executeRun : List ServerAct :=
  let idle := restorePass ⟨0, 0⟩
  [.thread (.drain idle.events idle.io idle.drain), .thread .serve, .thread .pop,
    .thread (.execute .sorted .sorted), .thread .answer]

theorem restored_in_time : ∃ s client p,
    (serverSystem .still sampleSerde 0 1 2).Reachable s ∧ s.clients[0]? = some client ∧
      client.written = [⟨respond "r1" (.restored 1), .answer 0⟩] ∧
      p ∈ s.published ∧ p.reply = 0 ∧ p.entry.id = 1 ∧ s.PublishedFor p := by
  have hrun : (sampleRun (copyRun ++ [.accept, .client 0 (.line restoreLine), .client 0 .send] ++
      executeRun ++ [.client 0 .receive, .client 0 .write])).any (fun s =>
      s.asked = [⟨0, "r1", 1⟩] ∧
        s.clients[0]?.any (·.written = [⟨respond "r1" (.restored 1), .answer 0⟩])) = true := by
    decide +kernel
  obtain ⟨s, hs, hstate⟩ := (Option.any_eq_true _ _).mp hrun
  obtain ⟨hasked, hclient⟩ := of_decide_eq_true hstate
  obtain ⟨client, hc, hw⟩ := (Option.any_eq_true _ _).mp hclient
  have hw := of_decide_eq_true hw
  have hreach := reachable_sampleRun hs
  obtain ⟨-, hlines, -⟩ := restore_replies_true .still sampleSerde 0 1 2 hreach .refl hc
  obtain ⟨asked, resp, ha, -, hm, hrestored, -⟩ :=
    hlines ⟨respond "r1" (.restored 1), .answer 0⟩ (by simp [hw]) 0 rfl
  have hresp : resp = .restored 1 := by
    simp only [respond, Message.response.injEq, ResponseEnvelope.mk.injEq, true_and] at hm
    exact hm.2.symm
  obtain ⟨-, p, hp, hreply, hid, hfor⟩ := hrestored 1 hresp
  exact ⟨s, client, p, hreach, hc, hw, hp, hreply, hid, hfor⟩

/-- A request that has timed out in the channel is executed all the same. -/
theorem timed_out_is_published : ∃ s client line p,
    (serverSystem .still sampleSerde 0 1 2).Reachable s ∧ s.clients[0]? = some client ∧
      line ∈ client.written ∧ line.answers = some 0 ∧
      line.message = respond "r1" (.error "restore timed out") ∧
      p ∈ s.published ∧ p.reply = 0 := by
  have hrun : (sampleRun (copyRun ++ [.accept, .client 0 (.line restoreLine), .client 0 .send,
      .client 0 .expire, .client 0 .write] ++ executeRun)).any (fun s =>
      s.published.any (·.reply = 0) ∧ s.clients[0]?.any (·.written =
        [⟨respond "r1" (.error "restore timed out"), .answer 0⟩])) = true := by
    decide +kernel
  obtain ⟨s, hs, hstate⟩ := (Option.any_eq_true _ _).mp hrun
  obtain ⟨hpublished, hclient⟩ := of_decide_eq_true hstate
  obtain ⟨client, hc, hw⟩ := (Option.any_eq_true _ _).mp hclient
  obtain ⟨p, hp, hreply⟩ := List.any_eq_true.mp hpublished
  exact ⟨s, client, ⟨respond "r1" (.error "restore timed out"), .answer 0⟩, p,
    reachable_sampleRun hs, hc, by simp [of_decide_eq_true hw], rfl, rfl, hp,
    of_decide_eq_true hreply⟩

end Uclip
