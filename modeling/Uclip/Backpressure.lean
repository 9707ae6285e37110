import Uclip.ServerLaws

/-!
# Waiting for a reply

Every wait of a restore request is guarded by the timer, but for the one at the
full channel: there the task depends on the Wayland thread.
-/

namespace Uclip

def Client.restoring (client : Client) : Option Nat :=
  match client.phase with
  | .sending _ pending | .awaiting _ pending => some pending.reply
  | .writing ⟨_, .answer reply⟩ => some reply
  | _ => none

/-- The task waits for a slot of the channel: all are filled, or granted to
senders before it, and the thread still holds the other end. -/
def Server.Blocked (s : Server) (c : Nat) (client : Client) : Prop :=
  (∃ id pending, client.phase = .sending id pending) ∧ c ∉ s.requests.granted ∧
    s.requests.used = restoreQueueCapacity ∧ s.thread ≠ .gone

def ServerAct.By (c : Nat) (a : ServerAct) : Prop := ∃ a', a = .client c a'

namespace Server

/-- By its own steps the task comes to write this reply, as its next line. -/
def CanReply (clock : Clock) (serde : Serde) (seat manager device : Global) (s : Server) (c : Nat)
    (client : Client) (reply : Nat) : Prop :=
  ∃ s', (serverSystem clock serde seat manager device).Steps (ServerAct.By c) s s' ∧
    ∃ client' line, s'.clients[c]? = some client' ∧ line.purpose = .answer reply ∧
      client'.written = client.written ++ [line]

variable {clock : Clock} {serde : Serde} {s s' : Server} {c : Nat} {client client' : Client}
  {requests : Channel Nat PendingRestore} {asked : List Asked} {id : String}

-- ---------------------------------------------------------------------------
-- The channel
-- ---------------------------------------------------------------------------

theorem threadStep_valid (h : s.ThreadStep clock s')
    (hv : s.requests.Valid restoreQueueCapacity) : s'.requests.Valid restoreQueueCapacity := by
  cases h with
  | pop _ hpop => exact hv.pop hpop
  | exit _ => exact hv.close
  | _ => exact hv

theorem clientStep_valid {a : ClientAct}
    (h : s.ClientStep serde c client a client' requests asked)
    (hv : s.requests.Valid restoreQueueCapacity) : requests.Valid restoreQueueCapacity := by
  cases h with
  | sent _ _ _ => exact hv.pollSend _ _
  | full _ _ _ => exact hv.pollSend _ _
  | _ => exact hv

theorem act_valid (h : s.act clock serde a = some s')
    (hv : s.requests.Valid restoreQueueCapacity) : s'.requests.Valid restoreQueueCapacity := by
  rcases act_cases h with ⟨_, -, ht⟩ | ⟨-, rfl⟩ | ⟨_, _, _, _, _, _, -, -, hc, rfl⟩
  · exact threadStep_valid ht hv
  · exact hv
  · exact clientStep_valid hc hv

theorem reachable_valid (h : (serverSystem clock serde seat manager device).Reachable s) :
    s.requests.Valid restoreQueueCapacity := by
  refine h.induct (motive := fun s => s.requests.Valid restoreQueueCapacity) ?_
    fun _ _ _ _ hv hstep => act_valid hstep hv
  rintro _ rfl
  exact Channel.valid_empty _

-- ---------------------------------------------------------------------------
-- Steps of one task
-- ---------------------------------------------------------------------------

section Own

variable {seat manager device : Global} {reply : Nat}

theorem CanReply.step {client' : Client} (ha : s.clientAct serde c client a = some s')
    (hc : s.clients[c]? = some client)
    (h : CanReply clock serde seat manager device s' c client' reply)
    (hw : client'.written = client.written) :
    CanReply clock serde seat manager device s c client reply := by
  obtain ⟨t, hsteps, hreply⟩ := h
  rw [hw] at hreply
  have hact : s.act clock serde (.client c a) = some s' := by
    simp only [act, hc]
    exact ha
  exact ⟨t, .head ⟨a, rfl⟩ hact hsteps, hreply⟩

theorem canReply_of_writing (hc : s.clients[c]? = some client) (hp : client.phase = .writing line)
    (hl : line.purpose = .answer reply) :
    CanReply clock serde seat manager device s c client reply := by
  have hact : s.act clock serde (.client c .write) = some (s.setClient c { client with
      phase := .selecting
      written := client.written ++ [line] }) := by
    simp only [act, hc, clientAct, hp]
  refine ⟨_, .head ⟨.write, rfl⟩ hact .refl,
    { client with phase := .selecting, written := client.written ++ [line] }, line, ?_, hl, rfl⟩
  rw [setClient_getElem? hc, if_pos rfl]

theorem canReply_of_answer (hc : s.clients[c]? = some client)
    (ha : s.clientAct serde c client a = some (s.clientAnswer c client id pending resp)) :
    CanReply clock serde seat manager device s c client pending.reply := by
  have hc' : (s.clientAnswer c client id pending resp).clients[c]? =
      some (client.answered id pending resp) := by
    rw [clientAnswer, setClient_getElem? hc, if_pos rfl]
  exact .step ha hc (canReply_of_writing hc' rfl rfl) rfl

theorem canReply_of_awaiting (hc : s.clients[c]? = some client)
    (hp : client.phase = .awaiting id pending) :
    CanReply clock serde seat manager device s c client pending.reply := by
  cases hone : s.oneshot pending.reply with
  | some resp =>
    have ha : s.clientAct serde c client .receive =
        some (s.clientAnswer c client id pending resp) := by
      simp only [clientAct, hp, hone]
    exact canReply_of_answer hc ha
  | none =>
    by_cases hgone : s.thread = .gone
    · have ha : s.clientAct serde c client .receive = some (s.clientAnswer c client id pending
          (.error "restore failed: wayland thread gone")) := by
        simp only [clientAct, hp, hone, hgone, if_true]
      exact canReply_of_answer hc ha
    · have ha : s.clientAct serde c client .expire = some (s.clientAnswer c client id pending
          (.error "restore timed out")) := by
        simp only [clientAct, hp]
        exact if_pos ⟨hone, hgone⟩
      exact canReply_of_answer hc ha

theorem canReply_of_sending (hv : s.requests.Valid restoreQueueCapacity)
    (hc : s.clients[c]? = some client) (hp : client.phase = .sending id pending)
    (hb : ¬ s.Blocked c client) :
    CanReply clock serde seat manager device s c client pending.reply := by
  by_cases hgone : s.thread = .gone
  · have ha : s.clientAct serde c client .send = some (s.clientAnswer c client id pending
        (.error "daemon shutting down")) := by
      simp only [clientAct, hp, hgone, if_true]
    exact canReply_of_answer hc ha
  · have hpoll : (s.requests.pollSend restoreQueueCapacity c pending).2 = true := by
      rw [hv.pollSend_iff]
      by_contra hno
      rw [not_or] at hno
      exact hb ⟨⟨id, pending, hp⟩, hno.1, Nat.le_antisymm hv.bounded (Nat.le_of_not_lt hno.2),
        hgone⟩
    have ha : s.clientAct serde c client .send = some (setClient
        { s with requests := (s.requests.pollSend restoreQueueCapacity c pending).1 } c
        { client with phase := .awaiting id pending }) := by
      simp only [clientAct, hp, if_neg hgone]
      generalize s.requests.pollSend restoreQueueCapacity c pending = polled at hpoll
      obtain ⟨requests, done⟩ := polled
      cases hpoll
      rfl
    have hc' : (setClient
        { s with requests := (s.requests.pollSend restoreQueueCapacity c pending).1 } c
        { client with phase := .awaiting id pending }).clients[c]? =
          some { client with phase := .awaiting id pending } :=
      (setClient_getElem? hc c).trans (if_pos rfl)
    exact .step ha hc (canReply_of_awaiting hc' rfl) rfl

theorem blocked_step (hv : s.requests.Valid restoreQueueCapacity) (hb : s.Blocked c client)
    {a : ClientAct} (h : s.ClientStep serde c client a client' requests asked) :
    client' = client ∧
      (setClient { s with requests, asked } c client').Blocked c client := by
  obtain ⟨⟨id, pending, hp⟩, hnot, hfull, hopen⟩ := hb
  have hstuck (p : PendingRestore) :
      (s.requests.pollSend restoreQueueCapacity c p).2 = false := by
    rw [Bool.eq_false_iff, ne_eq, hv.pollSend_iff, not_or]
    exact ⟨hnot, Nat.not_lt.mpr hfull.ge⟩
  cases h with
  | full _ _ hpoll =>
    obtain ⟨hq, hg⟩ := Channel.pollSend_stuck hpoll
    refine ⟨rfl, ⟨id, pending, hp⟩, ?_, ?_, hopen⟩
    · exact hg ▸ hnot
    · rw [setClient_requests, Channel.used, hq, hg]
      exact hfull
  | sent _ _ hpoll => exact absurd hpoll (by simp [hstuck])
  | refused _ hgone => exact absurd hgone hopen
  | reply hp' | restore hp' | event hp' | lagged hp' | received hp' | dropped hp' | expired hp'
  | written hp' | forgotten hp' | left hp' | broken hp' => simp [hp] at hp'

theorem not_canReply_of_blocked (hs : (serverSystem clock serde seat manager device).Reachable s)
    (hc : s.clients[c]? = some client) (hb : s.Blocked c client) :
    ¬ CanReply clock serde seat manager device s c client reply := by
  rintro ⟨t, hsteps, client', line, hc', -, hw⟩
  have hstay : t.requests.Valid restoreQueueCapacity ∧ t.clients[c]? = some client ∧
      t.Blocked c client := by
    refine hsteps.invariant (motive := fun t => t.requests.Valid restoreQueueCapacity ∧
      t.clients[c]? = some client ∧ t.Blocked c client) ⟨reachable_valid hs, hc, hb⟩ ?_
    rintro u _ u' ⟨a, rfl⟩ ⟨hv, hcu, hbu⟩ hstep
    refine ⟨act_valid hstep hv, ?_⟩
    rcases act_cases hstep with ⟨_, ha, -⟩ | ⟨ha, -⟩ |
      ⟨_, _, _, client', _, _, ha, hcu', hstep, rfl⟩
    · cases ha
    · cases ha
    · cases ha
      cases hcu.symm.trans hcu'
      obtain ⟨rfl, hblocked⟩ := blocked_step hv hbu hstep
      exact ⟨(setClient_getElem? hcu c).trans (if_pos rfl), hblocked⟩
  cases hc'.symm.trans hstay.2.1
  simpa using congrArg List.length hw

end Own

end Server

/-- In every reachable state, a task that has accepted a restore request can
write its reply with no step of the thread, unless it waits for a slot of the
full channel. -/
theorem can_reply_iff {s : Server} {client : Client} (clock : Clock) (serde : Serde)
    (seat manager device : Global)
    (hs : (serverSystem clock serde seat manager device).Reachable s)
    (hc : s.clients[c]? = some client) (hr : client.restoring = some reply) :
    Server.CanReply clock serde seat manager device s c client reply ↔ ¬ s.Blocked c client := by
  refine ⟨fun h hb => Server.not_canReply_of_blocked hs hc hb h, fun hb => ?_⟩
  unfold Client.restoring at hr
  split at hr
  · cases hr
    exact Server.canReply_of_sending (Server.reachable_valid hs) hc ‹_› hb
  · cases hr
    exact Server.canReply_of_awaiting hc ‹_›
  · cases hr
    exact Server.canReply_of_writing hc ‹_› rfl
  · cases hr

theorem queued_can_reply : ∃ s client,
    (serverSystem .still sampleSerde 0 1 2).Reachable s ∧ s.requests.queue = [⟨1, 0⟩] ∧
      Server.CanReply .still sampleSerde 0 1 2 s 0 client 0 := by
  have hrun : (sampleRun [.accept, .client 0 (.line restoreLine), .client 0 .send]).any (fun s =>
        s.requests = ⟨[⟨1, 0⟩], [], []⟩ ∧
          s.clients[0]? = some { phase := .awaiting "r1" ⟨1, 0⟩, next := 0, joined := 0 }) =
      true := by
    decide +kernel
  obtain ⟨s, hs, hstate⟩ := (Option.any_eq_true _ _).mp hrun
  obtain ⟨hreq, hc⟩ := of_decide_eq_true hstate
  have hfree : ¬ s.Blocked 0 { phase := .awaiting "r1" ⟨1, 0⟩, next := 0, joined := 0 } := by
    rintro ⟨⟨_, _, hp⟩, -⟩
    cases hp
  exact ⟨s, _, (reachable_sampleRun hs), by rw [hreq],
    (can_reply_iff .still sampleSerde 0 1 2 (reachable_sampleRun hs) hc rfl).mpr hfree⟩

def fillingRun : List ServerAct :=
  [.thread .ready, .accept] ++
    (List.replicate 32 [.client 0 (.line restoreLine), .client 0 .send, .client 0 .expire,
      .client 0 .write]).flatten ++
    [.client 0 (.line restoreLine)]

/-- One client fills the channel with requests that have timed out. -/
theorem full_channel_hangs : ∃ s client,
    (serverSystem .still sampleSerde 0 1 2).Reachable s ∧ s.clients[0]? = some client ∧
      client.restoring = some 32 ∧ ¬ Server.CanReply .still sampleSerde 0 1 2 s 0 client 32 := by
  have hrun : (sampleRun fillingRun).any (fun s => s.requests.used = restoreQueueCapacity ∧
      s.requests.granted = [] ∧ s.thread = .polling ∧
        s.clients[0]?.any (·.phase = .sending "r1" ⟨1, 32⟩)) = true := by
    decide +kernel
  obtain ⟨s, hs, hstate⟩ := (Option.any_eq_true _ _).mp hrun
  obtain ⟨hused, hgranted, hthread, hclient⟩ := of_decide_eq_true hstate
  obtain ⟨client, hc, hp⟩ := (Option.any_eq_true _ _).mp hclient
  have hp := of_decide_eq_true hp
  have hblocked : s.Blocked 0 client := ⟨⟨_, _, hp⟩, by simp [hgranted], hused, by simp [hthread]⟩
  exact ⟨s, client, (reachable_sampleRun hs), hc, by simp [Client.restoring, hp],
    Server.not_canReply_of_blocked (reachable_sampleRun hs) hc hblocked⟩

end Uclip
