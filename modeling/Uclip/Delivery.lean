import Uclip.Replies

/-!
# Subscribed clients

What is pushed to the snapshot is broadcast in the same order, and a receiver
made when a client is accepted gives its task every event from then on, or a
notice for those that it has missed. So a client that lists after it has
subscribed knows of every entry, from the list or from what follows.
-/

namespace Uclip

open Text (Bytes)

def ServerEvent.added : ServerEvent → Option EntrySummary
  | .entryAdded summary => some summary
  | .selectionCleared => none

@[simp] theorem filterMap_added (summaries : List EntrySummary) :
    (summaries.map .entryAdded).filterMap ServerEvent.added = summaries := by
  rw [List.filterMap_map]
  exact List.filterMap_some

namespace Line

/-- The line gives the event at this position, or tells that it was missed. -/
def Covers (line : Line) (i : Nat) : Prop :=
  line.purpose = .event i ∨ ∃ low high, line.purpose = .missed low high ∧ low ≤ i ∧ i < high

def IsPush (line : Line) : Prop :=
  (∃ i, line.purpose = .event i) ∨ ∃ low high, line.purpose = .missed low high

def Welcomes (line : Line) : Prop := ∃ id, line.message = respond id .subscribed

def addedId (line : Line) : Option Nat :=
  match line.message with
  | .event ⟨_, .entryAdded summary⟩ => some summary.id
  | _ => none

def Before (a b : Line) : Prop := ∀ i j, a.purpose = .event i → b.purpose = .event j → i < j

end Line

namespace Server

variable {clock : Clock} {serde : Serde} {s s' : Server} {c : Nat} {client client' : Client}
  {requests : Channel Nat PendingRestore} {asked : List Asked} {line : Line}

def outcomes (s : Server) : List ReadOutcome :=
  match s.thread with
  | .looking _ outcomes => outcomes
  | _ => []

-- ---------------------------------------------------------------------------
-- What is pushed
-- ---------------------------------------------------------------------------

/-- The summaries are pushed in the order of their ids, the snapshot holds the
last of them, and the stored outcomes still to come are of later entries. -/
structure Ordered (s : Server) (summaries : List EntrySummary) : Prop where
  pushed : s.pushed = summaries.map .entryAdded
  snapshot : s.daemon.snapshot = Bounded.popWhileOver maxHistory summaries
  increasing : (summaries.map (·.id) ++ storedIds s.outcomes).Pairwise (· < ·)
  stored : ∀ id ∈ summaries.map (·.id) ++ storedIds s.outcomes,
    id < s.daemon.app.clipboard.nextId
  unsent : s.unsent.length ≤ 1

theorem Ordered.keep {summaries : List EntrySummary} (h : s.Ordered summaries)
    (hevents : s'.daemon.events ++ s'.unsent = s.daemon.events ++ s.unsent)
    (hsnap : s'.daemon.snapshot = s.daemon.snapshot)
    (hout : (storedIds s'.outcomes).Sublist (storedIds s.outcomes))
    (hnext : s'.daemon.app.clipboard.nextId = s.daemon.app.clipboard.nextId)
    (hunsent : s'.unsent.length ≤ 1) : s'.Ordered summaries where
  pushed := Eq.trans hevents h.pushed
  snapshot := hsnap.trans h.snapshot
  increasing := h.increasing.sublist (hout.append_left _)
  stored id hid := by
    rw [hnext]
    exact h.stored id ((hout.append_left _).subset hid)
  unsent := hunsent

theorem Ordered.drain {summaries : List EntrySummary} (h : s.Ordered summaries) (pass : Pass)
    (hthread : s.thread = .polling) :
    Ordered { s with
      daemon := ((s.daemon.dispatched pass).drained pass).1
      thread := .looking [] ((s.daemon.dispatched pass).drained pass).2 } summaries := by
  have hnone : s.unsent = [] := by simp [Server.unsent, hthread]
  have hempty : storedIds s.outcomes = [] := by simp [Server.outcomes, hthread, storedIds]
  obtain ⟨-, hnext, hids⟩ := drain_spec pass.drain (s.daemon.dispatched pass).app
  have hclip : (s.daemon.dispatched pass).app.clipboard = s.daemon.app.clipboard :=
    dispatchPending_clipboard _ _ _
  rw [hclip] at hnext
  have hlt : ∀ id ∈ summaries.map (·.id), id < s.daemon.app.clipboard.nextId := by
    intro id hid
    exact h.stored id (List.mem_append_left _ hid)
  have hstored : storedIds ((s.daemon.dispatched pass).drained pass).2 =
      List.range' s.daemon.app.clipboard.nextId
        ((s.daemon.dispatched pass).app.arrivals pass.drain).length := by
    refine Eq.trans hids ((map_id_accepted ..).trans ?_)
    rw [AppState.arrivals, hclip]
  have hall : storedIds (Server.outcomes { s with
      daemon := ((s.daemon.dispatched pass).drained pass).1
      thread := .looking [] ((s.daemon.dispatched pass).drained pass).2 }) =
        List.range' s.daemon.app.clipboard.nextId
          ((s.daemon.dispatched pass).app.arrivals pass.drain).length := hstored
  refine ⟨?_, h.snapshot, ?_, ?_, Nat.zero_le _⟩
  · refine Eq.trans ?_ h.pushed
    rw [Server.pushed, Server.pushed, hnone]
    rfl
  · rw [hall, List.pairwise_append]
    refine ⟨(List.pairwise_append.mp h.increasing).1, List.pairwise_lt_range', ?_⟩
    intro id hid id' hid'
    exact (hlt id hid).trans_le (List.mem_range'_1.mp hid').1
  · rw [hall]
    intro id hid
    refine Nat.lt_of_lt_of_eq ?_ hnext.symm
    rcases List.mem_append.mp hid with hid | hid
    · exact (hlt id hid).trans_le (Nat.le_add_right _ _)
    · exact (List.mem_range'_1.mp hid).2

theorem Ordered.look {summaries : List EntrySummary} (h : s.Ordered summaries)
    (hthread : s.thread = .looking [] (outcome :: rest)) :
    ∃ more, Ordered { s with
      daemon := { s.daemon.outcome clock outcome with events := s.daemon.events }
      thread := .looking
        ((s.daemon.outcome clock outcome).events.drop s.daemon.events.length) rest }
      (summaries ++ more) := by
  have hnone : s.unsent = [] := by simp [Server.unsent, hthread]
  have hpushed : s.daemon.events = summaries.map .entryAdded := by
    rw [← h.pushed, Server.pushed, hnone, List.append_nil]
  have hsub : (storedIds rest).Sublist (storedIds (outcome :: rest)) :=
    (List.sublist_cons_self ..).filterMap _
  have hincreasing := h.increasing
  have hstored := h.stored
  simp only [Server.outcomes, hthread] at hincreasing hstored
  obtain ⟨hnext, ⟨hevents, hsnap⟩ | ⟨mime, entry, rfl, hevents, hsnap⟩⟩ :=
    outcome_cases clock s.daemon outcome
  · refine ⟨[], ?_, ?_, ?_, ?_, ?_⟩
    · simp [Server.pushed, Server.unsent, hevents, hpushed]
    · simpa [hsnap] using h.snapshot
    · simpa [Server.outcomes] using hincreasing.sublist (hsub.append_left _)
    · intro id hid
      simp only [List.append_nil, Server.outcomes] at hid
      exact Nat.lt_of_lt_of_eq (hstored id ((hsub.append_left _).subset hid)) hnext.symm
    · simp [Server.unsent, hevents]
  · have hmove : (summaries ++ [EntrySummary.of entry]).map (·.id) ++ storedIds rest =
        summaries.map (·.id) ++ storedIds (.stored entry.id mime :: rest) := by
      simp [storedIds]
    refine ⟨[.of entry], ?_, ?_, ?_, ?_, ?_⟩
    · simp [Server.pushed, Server.unsent, hevents, hpushed]
    · refine hsnap.trans ?_
      rw [h.snapshot]
      exact Bounded.popWhileOver_popWhileOver_append ..
    · simp only [Server.outcomes]
      rw [hmove]
      exact hincreasing
    · simp only [Server.outcomes]
      rw [hmove]
      exact fun id hid => Nat.lt_of_lt_of_eq (hstored id hid) hnext.symm
    · simp [Server.unsent, hevents]

theorem threadStep_ordered {summaries : List EntrySummary} (h : s.Ordered summaries)
    (hs : s.ThreadStep clock s') : ∃ more, s'.Ordered (summaries ++ more) := by
  have hkeep (hevents : s'.daemon.events ++ s'.unsent = s.daemon.events ++ s.unsent)
      (hsnap : s'.daemon.snapshot = s.daemon.snapshot)
      (hout : (storedIds s'.outcomes).Sublist (storedIds s.outcomes))
      (hnext : s'.daemon.app.clipboard.nextId = s.daemon.app.clipboard.nextId)
      (hunsent : s'.unsent.length ≤ 1) : ∃ more, s'.Ordered (summaries ++ more) :=
    ⟨[], by simpa using h.keep hevents hsnap hout hnext hunsent⟩
  cases hs with
  | drain pass hthread => exact ⟨[], by simpa using h.drain pass hthread⟩
  | look hthread => exact h.look hthread
  | @broadcast event unsent outcomes hthread =>
    have hunsent := h.unsent
    simp only [Server.unsent, hthread, List.length_cons] at hunsent
    refine hkeep ?_ rfl ?_ rfl ?_
    · simp [Server.unsent, hthread]
    · simp [Server.outcomes, hthread]
    · simp only [Server.unsent]
      omega
  | execute hasher offerHasher hthread =>
    obtain ⟨hclip, -, hsnap, hevents, -⟩ :=
      handleRestore_effect clock hasher offerHasher s.daemon _
    refine hkeep ?_ hsnap ?_ (congrArg (·.nextId) hclip) (Nat.zero_le _)
    · simp only [Server.unsent, hthread, Server.execute]
      exact congrArg (· ++ []) hevents
    · simp [Server.outcomes, Server.execute, storedIds]
  | serve hthread =>
    exact hkeep (by simp [Server.unsent, hthread]) rfl
      (by simp [Server.outcomes, storedIds]) rfl (Nat.zero_le _)
  | ready hthread | pop hthread _ | answer hthread | sleep hthread =>
    exact hkeep (by simp [Server.unsent, hthread]) rfl
      (by simp [Server.outcomes, storedIds]) rfl (Nat.zero_le _)
  | exit hthread =>
    refine hkeep ?_ rfl (by simp [Server.outcomes, storedIds]) rfl (Nat.zero_le _)
    rcases hthread with hthread | hthread | hthread <;> simp [Server.unsent, hthread]

theorem Ordered.same {summaries : List EntrySummary} (h : s.Ordered summaries)
    (hd : s'.daemon = s.daemon) (ht : s'.thread = s.thread) : s'.Ordered summaries := by
  have hunsent : s'.unsent = s.unsent := by simp only [Server.unsent, ht]
  have hout : s'.outcomes = s.outcomes := by simp only [Server.outcomes, ht]
  exact h.keep (by rw [hd, hunsent]) (by rw [hd]) (hout ▸ List.Sublist.refl _) (by rw [hd])
    (hunsent ▸ h.unsent)

theorem act_ordered {summaries : List EntrySummary} (h : s.Ordered summaries)
    (hs : s.act clock serde a = some s') : ∃ more, s'.Ordered (summaries ++ more) := by
  rcases act_cases hs with ⟨_, -, ht⟩ | ⟨-, rfl⟩ | ⟨_, _, _, _, _, _, -, -, -, rfl⟩
  · exact threadStep_ordered h ht
  · exact ⟨[], (List.append_nil summaries).symm ▸ h.same rfl rfl⟩
  · exact ⟨[], (List.append_nil summaries).symm ▸ h.same rfl rfl⟩

theorem act_events (hs : s.act clock serde a = some s') :
    s.daemon.events <+: s'.daemon.events := by
  rcases act_cases hs with ⟨_, -, ht⟩ | ⟨-, rfl⟩ | ⟨_, _, _, _, _, _, -, -, -, rfl⟩
  · cases ht with
    | broadcast _ => exact List.prefix_append ..
    | execute hasher offerHasher _ =>
      obtain ⟨-, -, -, hevents, -⟩ := handleRestore_effect clock hasher offerHasher s.daemon _
      exact ⟨[], (List.append_nil _).trans hevents.symm⟩
    | _ => exact List.prefix_rfl
  · exact List.prefix_rfl
  · exact List.prefix_rfl

-- ---------------------------------------------------------------------------
-- What a client is written
-- ---------------------------------------------------------------------------

structure LineOk (s : Server) (next : Nat) (line : Line) : Prop where
  event : ∀ i, line.purpose = .event i → i < next ∧
    ∃ event, s.daemon.events[i]? = some event ∧ line.message = eventMessage event
  missed : ∀ low high, line.purpose = .missed low high → line.message = laggedReply
  response : (∀ i, line.purpose ≠ .event i) → ∃ envelope, line.message = .response envelope

structure Grows (s s' : Server) : Prop where
  events : s.daemon.events <+: s'.daemon.events
  pushed : s.pushed <+: s'.pushed

/-- A `List` came after the receiver was made, and read the snapshot of what had
been pushed by then. -/
structure ListOk (s : Server) (joined : Nat) (seen : Nat × Snapshot) : Prop where
  joined : joined ≤ seen.1
  pushed : seen.1 ≤ s.pushed.length
  snapshot : seen.2 = Bounded.popWhileOver maxHistory
    ((s.pushed.take seen.1).filterMap ServerEvent.added)

/-- The receiver has given everything up to where it stands, in order. -/
structure Follows (s : Server) (client : Client) : Prop where
  joined : client.joined ≤ client.next
  next : client.next ≤ s.daemon.events.length
  covered : ∀ i, client.joined ≤ i → i < client.next → ∃ line ∈ client.lines, line.Covers i
  lines : ∀ line ∈ client.lines, s.LineOk client.next line
  order : client.lines.Pairwise Line.Before
  listed : ∀ seen ∈ client.listed, s.ListOk client.joined seen

theorem LineOk.mono (h : s.LineOk next line) (hg : Grows s s') (hle : next ≤ next') :
    s'.LineOk next' line where
  event i hi := by
    obtain ⟨hlt, event, he, hm⟩ := h.event i hi
    exact ⟨hlt.trans_le hle, event, getElem?_of_prefix hg.events he, hm⟩
  missed := h.missed
  response := h.response

theorem ListOk.mono {read : Nat × Snapshot} {n : Nat} (h : s.ListOk n read) (hg : Grows s s') :
    s'.ListOk n read := by
  obtain ⟨more, hmore⟩ := hg.pushed
  refine ⟨h.joined, h.pushed.trans hg.pushed.length_le, ?_⟩
  rw [← hmore, List.take_append_of_le_length h.pushed]
  exact h.snapshot

theorem Follows.seen {summaries : List EntrySummary} (h : s.Follows client)
    (ho : s.Ordered summaries) : s.ListOk client.joined s.seen where
  joined := (h.joined.trans h.next).trans (List.prefix_append ..).length_le
  pushed := Nat.le_refl _
  snapshot := by
    rw [Server.seen, List.take_length, ho.pushed, filterMap_added]
    exact ho.snapshot

theorem Follows.append {more : List Line} (h : s.Follows client)
    (hg : Grows s s') (hlines : client'.lines = client.lines ++ more)
    (hjoined : client'.joined = client.joined) (hle : client.next ≤ client'.next)
    (hnext : client'.next ≤ s.daemon.events.length)
    (hcovered : ∀ i, client.next ≤ i → i < client'.next → ∃ line ∈ more, line.Covers i)
    (hmore : ∀ line ∈ more, s.LineOk client'.next line)
    (horder : more.Pairwise Line.Before)
    (hlater : ∀ line ∈ more, ∀ i, line.purpose = .event i → client.next ≤ i)
    (hlisted : ∀ seen ∈ client'.listed, seen ∈ client.listed ∨ s.ListOk client.joined seen) :
    s'.Follows client' where
  joined := hjoined ▸ h.joined.trans hle
  next := hnext.trans hg.events.length_le
  covered i hi hlt := by
    rw [hlines]
    rcases Nat.lt_or_ge i client.next with hold | hnew
    · obtain ⟨line, hline, hcov⟩ := h.covered i (hjoined ▸ hi) hold
      exact ⟨line, List.mem_append_left _ hline, hcov⟩
    · obtain ⟨line, hline, hcov⟩ := hcovered i hnew hlt
      exact ⟨line, List.mem_append_right _ hline, hcov⟩
  lines line hline := by
    rw [hlines] at hline
    rcases List.mem_append.mp hline with hline | hline
    · exact (h.lines line hline).mono hg hle
    · exact (hmore line hline).mono hg (Nat.le_refl _)
  order := by
    rw [hlines, List.pairwise_append]
    refine ⟨h.order, horder, fun a ha b hb i j hi hj => ?_⟩
    exact ((h.lines a ha).event i hi).1.trans_le (hlater b hb j hj)
  listed seen hseen := by
    rw [hjoined]
    rcases hlisted seen hseen with hseen | hnew
    · exact (h.listed seen hseen).mono hg
    · exact hnew.mono hg

theorem Follows.same (h : s.Follows client) (hg : Grows s s')
    (hlines : client'.lines = client.lines) (hjoined : client'.joined = client.joined)
    (hnext : client'.next = client.next)
    (hlisted : ∀ seen ∈ client'.listed, seen ∈ client.listed ∨ s.ListOk client.joined seen) :
    s'.Follows client' :=
  h.append hg (hlines.trans (List.append_nil _).symm) hjoined hnext.ge (hnext ▸ h.next)
    (fun i hi hlt => absurd hlt (Nat.not_lt.mpr (hnext ▸ hi))) (by simp) .nil (by simp) hlisted

theorem Follows.plain (h : s.Follows client) (hg : Grows s s')
    (hlines : client'.lines = client.lines ++ [line]) (hjoined : client'.joined = client.joined)
    (hnext : client'.next = client.next) (hline : ¬ line.IsPush)
    (hresponse : ∃ envelope, line.message = .response envelope)
    (hlisted : ∀ seen ∈ client'.listed, seen ∈ client.listed ∨ s.ListOk client.joined seen) :
    s'.Follows client' := by
  have hevent (i : Nat) : line.purpose ≠ .event i := fun hi => hline (.inl ⟨i, hi⟩)
  have hmissed (low high : Nat) : line.purpose ≠ .missed low high :=
    fun hi => hline (.inr ⟨low, high, hi⟩)
  refine h.append hg hlines hjoined hnext.ge (hnext ▸ h.next) ?_ ?_ (List.pairwise_singleton _ _)
    ?_ hlisted
  · exact fun i hi hlt => absurd hlt (Nat.not_lt.mpr (hnext ▸ hi))
  · intro l hl
    cases List.mem_singleton.mp hl
    exact ⟨fun i hi => absurd hi (hevent i), fun low high hi => absurd hi (hmissed low high),
      fun _ => hresponse⟩
  · intro l hl i hi
    cases List.mem_singleton.mp hl
    exact absurd hi (hevent i)

theorem Follows.noteLine {summaries : List EntrySummary} (h : s.Follows client)
    (ho : s.Ordered summaries) (serde : Serde) (l : Bytes) :
    ∀ seen ∈ (client.noteLine serde s.seen l).listed,
      seen ∈ client.listed ∨ s.ListOk client.joined seen := by
  unfold Client.noteLine
  dsimp only
  split
  · intro seen hseen
    rcases List.mem_append.mp hseen with hseen | hseen
    · exact .inl hseen
    · cases List.mem_singleton.mp hseen
      exact .inr (h.seen ho)
  · exact fun _ => .inl

theorem Follows.drop (h : s.Follows client) (hg : Grows s s')
    (hlines : client.lines = client'.lines ++ [line]) (hjoined : client'.joined = client.joined)
    (hnext : client'.next = client.next) (hline : ¬ line.IsPush)
    (hlisted : client'.listed = client.listed) : s'.Follows client' where
  joined := by
    rw [hjoined, hnext]
    exact h.joined
  next := hnext ▸ h.next.trans hg.events.length_le
  covered i hi hlt := by
    obtain ⟨l, hl, hcov⟩ := h.covered i (hjoined ▸ hi) (hnext ▸ hlt)
    rw [hlines] at hl
    rcases List.mem_append.mp hl with hl | hl
    · exact ⟨l, hl, hcov⟩
    · cases List.mem_singleton.mp hl
      rcases hcov with hi | ⟨low, high, hi, -⟩
      · exact absurd (.inl ⟨_, hi⟩) hline
      · exact absurd (.inr ⟨low, high, hi⟩) hline
  lines l hl := (h.lines l (hlines ▸ List.mem_append_left _ hl)).mono hg hnext.ge
  order := by
    have horder := h.order
    rw [hlines] at horder
    exact (List.pairwise_append.mp horder).1
  listed seen hseen := by
    rw [hjoined]
    exact (h.listed seen (hlisted ▸ hseen)).mono hg

theorem handleLine_reply (h : handleLine serde snapshot l = .reply message) :
    ∃ envelope, message = .response envelope := by
  unfold handleLine parseLine at h
  split at h
  · unfold handleRequest at h
    split at h <;> cases h <;> exact ⟨_, rfl⟩
  · rename_i hparse
    cases h
    split at hparse
    · cases hparse
      exact ⟨_, rfl⟩
    · cases hreq : serde.request l <;> simp [hreq, Except.mapError] at hparse
      exact ⟨_, hparse.symm⟩

theorem not_isPush_answer (message : Message) (reply : Nat) :
    ¬ Line.IsPush ⟨message, .answer reply⟩ := by
  rintro (⟨i, hi⟩ | ⟨low, high, hi⟩) <;> cases hi

theorem clientStep_follows {summaries : List EntrySummary} (h : s.Follows client)
    (ho : s.Ordered summaries) (hg : Grows s s')
    {a : ClientAct} (hs : s.ClientStep serde c client a client' requests asked) :
    s'.Follows client' := by
  have hanswered {id : String} {pending : PendingRestore} {resp : DaemonResponse}
      (hcurrent : client.current = none) : s'.Follows (client.answered id pending resp) :=
    h.plain hg (by simp [Client.lines, hcurrent]; rfl) rfl rfl (not_isPush_answer _ _)
      ⟨_, rfl⟩ fun _ => .inl
  cases hs with
  | @reply l message hp hl =>
    refine h.plain hg (by simp [Client.lines, Client.current, hp, Client.noteLine]; rfl) rfl rfl
      ?_ (handleLine_reply hl) (h.noteLine ho serde l)
    rintro (⟨i, hi⟩ | ⟨low, high, hi⟩) <;> dsimp only at hi <;> split at hi <;> cases hi
  | @restore l id entryId hp _ =>
    exact h.same hg (by simp [Client.lines, Client.current, hp, Client.noteLine]) rfl rfl
      (h.noteLine ho serde l)
  | @event event hp _ hevent =>
    have hlt := (List.getElem?_eq_some_iff.mp hevent).1
    refine h.append hg (by simp [Client.lines, Client.current, hp]; rfl) rfl (Nat.le_succ _) hlt
      ?_ ?_ (List.pairwise_singleton _ _) ?_ fun _ => .inl
    · intro i hi hlt
      cases Nat.le_antisymm (Nat.le_of_lt_succ hlt) hi
      exact ⟨_, List.mem_singleton.mpr rfl, .inl rfl⟩
    · intro line hline
      cases List.mem_singleton.mp hline
      refine ⟨?_, ?_, fun hnot => absurd rfl (hnot _)⟩
      · rintro _ ⟨⟩
        exact ⟨Nat.lt_succ_self _, event, hevent, rfl⟩
      · rintro low high ⟨⟩
    · intro line hline i hi
      cases List.mem_singleton.mp hline
      cases hi
      exact Nat.le_refl _
  | @lagged next hp _ hlt hle =>
    refine h.append hg (by simp [Client.lines, Client.current, hp]; rfl) rfl hlt.le hle
      ?_ ?_ (List.pairwise_singleton _ _) ?_ fun _ => .inl
    · exact fun i hi hlt => ⟨_, List.mem_singleton.mpr rfl, .inr ⟨_, _, rfl, hi, hlt⟩⟩
    · intro line hline
      cases List.mem_singleton.mp hline
      refine ⟨?_, fun _ _ _ => rfl, fun _ => ⟨_, rfl⟩⟩
      rintro i ⟨⟩
    · intro line hline i hi
      cases List.mem_singleton.mp hline
      cases hi
  | sent hp _ _ =>
    exact h.same hg (by simp [Client.lines, Client.current, hp]) rfl rfl fun _ => .inl
  | full _ _ _ => exact h.same hg rfl rfl rfl fun _ => .inl
  | refused hp _ => exact hanswered (by simp [Client.current, hp])
  | received hp _ => exact hanswered (by simp [Client.current, hp])
  | dropped hp _ _ => exact hanswered (by simp [Client.current, hp])
  | expired hp => exact hanswered (by simp [Client.current, hp])
  | written hp =>
    exact h.same hg (by simp [Client.lines, Client.current, hp]) rfl rfl fun _ => .inl
  | @forgotten line hp hbest =>
    refine h.drop hg (by simp [Client.lines, Client.current, hp]; rfl) rfl rfl ?_ rfl
    rintro (⟨i, hi⟩ | ⟨low, high, hi⟩) <;> simp [hbest] at hi
  | left hp =>
    exact h.same hg (by simp [Client.lines, Client.current, hp]) rfl rfl fun _ => .inl
  | broken hp =>
    exact h.same hg (by simp [Client.lines, Client.current, hp]) rfl rfl fun _ => .inl

-- ---------------------------------------------------------------------------
-- When a client is pushed to
-- ---------------------------------------------------------------------------

theorem subscribes_reply (snapshot : Snapshot) (h : subscribes serde l = true) :
    ∃ id, handleLine serde snapshot l = .reply (respond id .subscribed) := by
  unfold subscribes at h
  unfold handleLine
  split at h
  · rename_i request hparse
    have hreq : request.req = .subscribe := of_decide_eq_true h
    exact ⟨request.id, by simp [handleRequest, hreq]⟩
  · cases h

theorem handleLine_tooLong (h : maxLineBytes < l.length) :
    handleLine serde snapshot l = .reply (tooLongReply l) := by
  simp [handleLine, parseLine, h]

/-- A client is pushed to only after its `Subscribed` reply, which is written
or ends the task. -/
structure Welcomed (client : Client) : Prop where
  subscribed : client.subscribed = true → ∃ line ∈ client.lines, line.Welcomes
  first : ∀ before line, before ++ [line] <+: client.lines → line.IsPush →
    ∃ w ∈ before, w.Welcomes
  kept : ∀ line ∈ client.lines, line.purpose = .bestEffort → ¬ line.Welcomes

theorem Welcomed.same (h : Welcomed client) (hlines : client'.lines = client.lines)
    (hsub : client'.subscribed = client.subscribed) : Welcomed client' where
  subscribed hs := hlines ▸ h.subscribed (hsub ▸ hs)
  first := hlines ▸ h.first
  kept := hlines ▸ h.kept

theorem Welcomed.add (h : Welcomed client) (hlines : client'.lines = client.lines ++ [line])
    (hsub : client'.subscribed = true → client.subscribed = true ∨ line.Welcomes)
    (hpush : line.IsPush → client.subscribed = true)
    (hkept : line.purpose = .bestEffort → ¬ line.Welcomes) : Welcomed client' where
  subscribed hs := by
    rw [hlines]
    rcases hsub hs with hs | hw
    · obtain ⟨w, hmem, hw⟩ := h.subscribed hs
      exact ⟨w, List.mem_append_left _ hmem, hw⟩
    · exact ⟨line, by simp, hw⟩
  first before l hl hp := by
    rw [hlines] at hl
    rcases List.prefix_concat_iff.mp hl with heq | hpre
    · obtain ⟨rfl, hlast⟩ := List.append_inj' heq rfl
      cases hlast
      exact h.subscribed (hpush hp)
    · exact h.first before l hpre hp
  kept l hl := by
    rw [hlines] at hl
    rcases List.mem_append.mp hl with hl | hl
    · exact h.kept l hl
    · cases List.mem_singleton.mp hl
      exact hkept

theorem Welcomed.drop (h : Welcomed client) (hlines : client.lines = client'.lines ++ [line])
    (hsub : client'.subscribed = client.subscribed) (hbest : line.purpose = .bestEffort) :
    Welcomed client' where
  subscribed hs := by
    obtain ⟨w, hmem, hw⟩ := h.subscribed (hsub ▸ hs)
    rw [hlines] at hmem
    rcases List.mem_append.mp hmem with hmem | hmem
    · exact ⟨w, hmem, hw⟩
    · cases List.mem_singleton.mp hmem
      exact absurd hw (h.kept line (by simp [hlines]) hbest)
  first before l hl := h.first before l (hl.trans (hlines ▸ List.prefix_append ..))
  kept l hl := h.kept l (hlines ▸ List.mem_append_left _ hl)

theorem clientStep_welcomed (h : Welcomed client)
    {a : ClientAct} (hs : s.ClientStep serde c client a client' requests asked) :
    Welcomed client' := by
  have hanswered {id : String} {pending : PendingRestore} {resp : DaemonResponse}
      (hcurrent : client.current = none) : Welcomed (client.answered id pending resp) := by
    refine h.add (by simp [Client.lines, hcurrent]; rfl) .inl ?_ (by rintro ⟨⟩)
    exact fun hp => absurd hp (not_isPush_answer _ _)
  cases hs with
  | @reply l message hp hl =>
    refine h.add (by simp [Client.lines, Client.current, hp, Client.noteLine]; rfl) ?_ ?_ ?_
    · intro hsub
      rcases Bool.or_eq_true_iff.mp hsub with hsub | hsub
      · exact .inl hsub
      · obtain ⟨id, hreply⟩ := subscribes_reply s.daemon.snapshot hsub
        cases hl.symm.trans hreply
        exact .inr ⟨id, rfl⟩
    · rintro (⟨i, hi⟩ | ⟨low, high, hi⟩) <;> dsimp only at hi <;> split at hi <;> cases hi
    · intro hbest
      dsimp only at hbest
      split at hbest
      · rename_i hlong
        cases hl.symm.trans (handleLine_tooLong hlong)
        rintro ⟨id, hw⟩
        cases hw
      · cases hbest
  | @restore l id entryId hp hl =>
    refine h.same (by simp [Client.lines, Client.current, hp, Client.noteLine]) ?_
    have hsub : subscribes serde l = false := by
      rw [Bool.eq_false_iff]
      intro hsub
      obtain ⟨_, hreply⟩ := subscribes_reply s.daemon.snapshot hsub
      cases hl.symm.trans hreply
    simp [Client.noteLine, hsub]
  | event hp hsub _ =>
    exact h.add (by simp [Client.lines, Client.current, hp]; rfl) .inl (fun _ => hsub)
      (by rintro ⟨⟩)
  | lagged hp hsub _ _ =>
    exact h.add (by simp [Client.lines, Client.current, hp]; rfl) .inl (fun _ => hsub)
      (by rintro ⟨⟩)
  | sent hp _ _ => exact h.same (by simp [Client.lines, Client.current, hp]) rfl
  | full _ _ _ => exact h
  | refused hp _ => exact hanswered (by simp [Client.current, hp])
  | received hp _ => exact hanswered (by simp [Client.current, hp])
  | dropped hp _ _ => exact hanswered (by simp [Client.current, hp])
  | expired hp => exact hanswered (by simp [Client.current, hp])
  | written hp => exact h.same (by simp [Client.lines, Client.current, hp]) rfl
  | @forgotten line hp hbest =>
    exact h.drop (by simp [Client.lines, Client.current, hp]) rfl hbest
  | left hp => exact h.same (by simp [Client.lines, Client.current, hp]) rfl
  | broken hp => exact h.same (by simp [Client.lines, Client.current, hp]) rfl

-- ---------------------------------------------------------------------------
-- Runs
-- ---------------------------------------------------------------------------

structure Followed (s : Server) : Prop where
  ordered : ∃ summaries, s.Ordered summaries
  clients : ∀ (c : Nat) client, s.clients[c]? = some client → s.Follows client ∧ Welcomed client

theorem act_followed (h : s.Followed) (hs : s.act clock serde a = some s') : s'.Followed := by
  obtain ⟨summaries, ho⟩ := h.ordered
  obtain ⟨more, ho'⟩ := act_ordered ho hs
  have hpushed : s.pushed <+: s'.pushed := by
    rw [ho.pushed, ho'.pushed, List.map_append]
    exact List.prefix_append ..
  have hg : Grows s s' := ⟨act_events hs, hpushed⟩
  refine ⟨⟨_, ho'⟩, ?_⟩
  have hold (k : Nat) (other : Client) (hk : s.clients[k]? = some other) :
      s'.Follows other ∧ Welcomed other :=
    ⟨(h.clients k other hk).1.same hg rfl rfl rfl fun _ => .inl, (h.clients k other hk).2⟩
  intro k other hk
  rcases act_cases hs with ⟨_, -, ht⟩ | ⟨-, rfl⟩ |
    ⟨c, _, client, client', requests, asked, -, hc, hstep, rfl⟩
  · rw [threadStep_clients ht] at hk
    exact hold k other hk
  · rcases getElem?_append_singleton hk with hk | rfl
    · exact hold k other hk
    · refine ⟨⟨Nat.le_refl _, Nat.le_refl _, ?_, nofun, .nil, nofun⟩, nofun, ?_, nofun⟩
      · exact fun i hle hlt => absurd hle (Nat.not_le.mpr hlt)
      · intro before line hl
        simp [Client.lines, Client.current] at hl
  · rcases setClient_cases hk hc with ⟨rfl, rfl⟩ | ⟨-, hk⟩
    · obtain ⟨hfollows, hwelcomed⟩ := h.clients _ client hc
      exact ⟨clientStep_follows hfollows ho hg hstep, clientStep_welcomed hwelcomed hstep⟩
    · exact hold k other hk

theorem reachable_followed {seat manager device : Global}
    (h : (serverSystem clock serde seat manager device).Reachable s) : s.Followed := by
  refine h.induct ?_ fun _ _ _ _ ih hs => act_followed ih hs
  rintro _ rfl
  refine ⟨⟨[], rfl, rfl, .nil, nofun, Nat.zero_le _⟩, ?_⟩
  intro c client hc
  cases hc

inductive Delivered (s : Server) (client : Client) (i : Nat) (event : ServerEvent) : Prop
  /-- It is in a line that was written, is being written or could not be. -/
  | line {line : Line} : line ∈ client.lines → line.purpose = .event i →
      line.message = eventMessage event → Delivered s client i event
  /-- It is told to be missed in such a line. -/
  | missed {line : Line} {low high} : line ∈ client.lines → line.purpose = .missed low high →
      line.message = laggedReply → low ≤ i → i < high → Delivered s client i event
  | buffered : Broadcast.Buffered broadcastCapacity s.daemon.events client.next i →
      Delivered s client i event
  | lagged {missed next} :
      Broadcast.recv broadcastCapacity s.daemon.events client.next = some (.lagged missed, next) →
      client.next ≤ i → i < next → Delivered s client i event
  /-- It is pushed, and the send is next. -/
  | unsent : s.unsent = [event] → i = s.daemon.events.length → Delivered s client i event

theorem Follows.delivered (h : s.Follows client) (hunsent : s.unsent.length ≤ 1)
    (hi : s.pushed[i]? = some event) (hjoined : client.joined ≤ i) :
    s.Delivered client i event := by
  rcases Nat.lt_or_ge i s.daemon.events.length with hsent | hunsent'
  · rcases Nat.lt_or_ge i client.next with hgiven | hnext
    · obtain ⟨line, hline, hpurpose | ⟨low, high, hpurpose, hlow, hhigh⟩⟩ :=
        h.covered i hjoined hgiven
      · obtain ⟨-, event', hevent, hm⟩ := (h.lines line hline).event i hpurpose
        rw [pushed, List.getElem?_append_left hsent, hevent] at hi
        cases hi
        exact .line hline hpurpose hm
      · exact .missed hline hpurpose ((h.lines line hline).missed low high hpurpose) hlow hhigh
    · rcases Broadcast.buffered_or_lagged hnext hsent with hb | ⟨missed, next, hr, hlt⟩
      · exact .buffered hb
      · exact .lagged hr hnext hlt
  · rw [pushed, List.getElem?_append_right hunsent'] at hi
    obtain ⟨hlt, hi⟩ := List.getElem?_eq_some_iff.mp hi
    have hone : s.unsent.length = 1 := by omega
    obtain ⟨event', hev⟩ := List.length_eq_one_iff.mp hone
    simp only [hev, List.getElem_singleton] at hi
    exact .unsent (hi ▸ hev) (by omega)

theorem LineOk.addedId {summaries : List EntrySummary} (h : s.LineOk next line)
    (ho : s.Ordered summaries) (hid : line.addedId = some entryId) :
    ∃ i, line.purpose = .event i ∧ (summaries.map (·.id))[i]? = some entryId := by
  by_cases hresponse : ∀ i, line.purpose ≠ .event i
  · obtain ⟨envelope, hm⟩ := h.response hresponse
    simp [Line.addedId, hm] at hid
  · obtain ⟨i, hi⟩ := not_forall_not.mp hresponse
    obtain ⟨-, event, hevent, hm⟩ := h.event i hi
    have hpushed : s.pushed[i]? = some event := getElem?_of_prefix (List.prefix_append ..) hevent
    rw [ho.pushed, List.getElem?_map, Option.map_eq_some_iff] at hpushed
    obtain ⟨summary, hsummary, rfl⟩ := hpushed
    have hid : some summary.id = some entryId := by simpa [Line.addedId, hm, eventMessage] using hid
    exact ⟨i, hi, by rw [List.getElem?_map, hsummary, ← hid]; rfl⟩

theorem Follows.addedIds {summaries : List EntrySummary} (h : s.Follows client)
    (ho : s.Ordered summaries) : (client.lines.filterMap Line.addedId).Pairwise (· < ·) := by
  rw [List.pairwise_filterMap]
  refine h.order.imp_of_mem ?_
  intro a b ha hb hab entryId hid entryId' hid'
  obtain ⟨i, hi, hget⟩ := (h.lines a ha).addedId ho hid
  obtain ⟨j, hj, hget'⟩ := (h.lines b hb).addedId ho hid'
  obtain ⟨hlt, rfl⟩ := List.getElem?_eq_some_iff.mp hget
  obtain ⟨hlt', rfl⟩ := List.getElem?_eq_some_iff.mp hget'
  exact List.pairwise_iff_getElem.mp (List.pairwise_append.mp ho.increasing).1 i j hlt hlt'
    (hab i j hi hj)

end Server

/-- The snapshot holds the last of what was pushed, and a list reads the last of
what was pushed before it. What is pushed after it is still delivered to its
client or told to be missed; nothing is before the `Subscribed` reply, and the
ids of the entries that are written increase. -/
theorem list_leaves_no_gap {s : Server} {c : Nat} {client : Client} {clock : Clock} {serde : Serde}
    {seat manager device : Global}
    (h : (serverSystem clock serde seat manager device).Reachable s)
    (hc : s.clients[c]? = some client) :
    ∃ summaries, s.pushed = summaries.map .entryAdded ∧
      s.daemon.snapshot = Bounded.popWhileOver maxHistory summaries ∧
      (∀ n snapshot, (n, snapshot) ∈ client.listed →
        snapshot = Bounded.popWhileOver maxHistory (summaries.take n) ∧
        ∀ i event, n ≤ i → s.pushed[i]? = some event → s.Delivered client i event) ∧
      (∀ before line, before ++ [line] <+: client.written → line.IsPush →
        ∃ w ∈ before, w.Welcomes) ∧
      (client.written.filterMap Line.addedId).Pairwise (· < ·) := by
  obtain ⟨⟨summaries, ho⟩, hclients⟩ := Server.reachable_followed h
  obtain ⟨hfollows, hwelcomed⟩ := hclients c client hc
  have hwritten : client.written <+: client.lines := List.prefix_append ..
  refine ⟨summaries, ho.pushed, ho.snapshot, ?_, ?_, ?_⟩
  · intro n snapshot hn
    have hlist := hfollows.listed _ hn
    refine ⟨?_, fun i event hle hi => hfollows.delivered ho.unsent hi (hlist.joined.trans hle)⟩
    refine hlist.snapshot.trans ?_
    rw [ho.pushed, ← List.map_take, filterMap_added]
  · exact fun before line hb => hwelcomed.first before line (hb.trans hwritten)
  · exact (hfollows.addedIds ho).sublist (hwritten.sublist.filterMap _)

def listedRun : List ServerAct :=
  [.thread .ready, .accept, .client 0 (.line subscribeLine), .client 0 .write,
    .client 0 (.line listLine), .client 0 .write]

def pushedRun : List ServerAct :=
  let copy := copyPass 0 ⟨1, 1⟩ ["text/plain"] fun _ => [0x68, 0x69]
  [.thread (.drain copy.events copy.io copy.drain), .thread .look]

theorem copied_after_list : ∃ s client event,
    (serverSystem .still sampleSerde 0 1 2).Reachable s ∧ s.clients[0]? = some client ∧
      (0, []) ∈ client.listed ∧ s.pushed = [event] ∧ client.written.length = 3 ∧
      s.Delivered client 0 event := by
  have hrun : (sampleRun (listedRun ++ pushedRun ++ [.thread .broadcast, .client 0 .recv,
      .client 0 .write])).any (fun s => s.pushed.length = 1 ∧
        s.clients[0]?.any (fun client => client.listed = [(0, [])] ∧ client.written.length = 3)) =
      true := by
    decide +kernel
  obtain ⟨s, hs, hstate⟩ := (Option.any_eq_true _ _).mp hrun
  obtain ⟨hpushed, hclient⟩ := of_decide_eq_true hstate
  obtain ⟨client, hc, hw⟩ := (Option.any_eq_true _ _).mp hclient
  obtain ⟨hlisted, hlength⟩ := of_decide_eq_true hw
  obtain ⟨event, hevent⟩ := List.length_eq_one_iff.mp hpushed
  have hreach := reachable_sampleRun hs
  obtain ⟨_, -, -, hdelivered, -⟩ := list_leaves_no_gap hreach hc
  have hmem : (0, []) ∈ client.listed := by simp [hlisted]
  exact ⟨s, client, event, hreach, hc, hmem, hevent, hlength,
    (hdelivered 0 [] hmem).2 0 event (Nat.le_refl _) (by simp [hevent])⟩

/-- These steps of a client that has listed lead to a summary that is pushed
after the list, and is neither written, told to be missed nor in the receiver. -/
def Undelivered (acts : List ServerAct) : Prop :=
  ∃ s client event, (serverSystem .still sampleSerde 0 1 2).Reachable s ∧
    sampleRun (listedRun ++ acts) = some s ∧ s.clients[0]? = some client ∧
    client.listed = [(0, [])] ∧ s.pushed = [event] ∧
    (∀ line ∈ client.written, ¬ line.Covers 0) ∧
    (∀ line ∈ client.lines, line.message ≠ laggedReply) ∧
    ¬ Broadcast.Buffered broadcastCapacity s.daemon.events client.next 0 ∧
    Broadcast.recv broadcastCapacity s.daemon.events client.next = none

theorem undelivered_of (h : (sampleRun (listedRun ++ acts)).any (fun s => s.pushed.length = 1 ∧
    s.clients[0]?.any (fun client => client.listed = [(0, [])] ∧
      s.daemon.events.length = client.next ∧
      (∀ line ∈ client.written, line.purpose = .plain) ∧
      ∀ line ∈ client.lines, line.message ≠ laggedReply)) = true) : Undelivered acts := by
  obtain ⟨s, hs, hstate⟩ := (Option.any_eq_true _ _).mp h
  obtain ⟨hpushed, hclient⟩ := of_decide_eq_true hstate
  obtain ⟨client, hc, hw⟩ := (Option.any_eq_true _ _).mp hclient
  obtain ⟨hlisted, hnext, hplain, hlagged⟩ := of_decide_eq_true hw
  obtain ⟨event, hevent⟩ := List.length_eq_one_iff.mp hpushed
  refine ⟨s, client, event, reachable_sampleRun hs, hs, hc, hlisted, hevent, ?_, hlagged, ?_, ?_⟩
  · rintro line hline (hcov | ⟨low, high, hcov, -⟩)
    · cases (hplain line hline).symm.trans hcov
    · cases (hplain line hline).symm.trans hcov
  · rintro ⟨hle, hlt, -⟩
    omega
  · simp [Broadcast.recv, ← hnext]

/-- So it is between the push and the send, while the line is being written,
and when it could not be written. -/
theorem pushed_not_delivered :
    Undelivered pushedRun ∧ Undelivered (pushedRun ++ [.thread .broadcast, .client 0 .recv]) ∧
      Undelivered (pushedRun ++ [.thread .broadcast, .client 0 .recv, .client 0 .hangUp]) :=
  ⟨undelivered_of (by decide +kernel), undelivered_of (by decide +kernel),
    undelivered_of (by decide +kernel)⟩

end Uclip
