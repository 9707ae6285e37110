import Uclip.Delivery

/-!
# A subscriber catches up

The task of a subscriber that waits for no restore can go on by its own steps,
without the thread and the other tasks, until its client has been told of every
event: of each by itself as long as the channel holds them all, and else by a
notice and the events that the channel holds.
-/

namespace Uclip

open Text (Bytes)

def pushMessage : Broadcast.Received ServerEvent → Message
  | .value event => eventMessage event
  | .lagged _ => laggedReply

namespace Server

variable {clock : Clock} {serde : Serde} {seat manager device : Global} {s : Server} {c : Nat}
  {client : Client} {line : Line}

def ReadsOn (c : Nat) (a : ServerAct) : Prop := a = .client c .recv ∨ a = .client c .write

theorem setClient_self (hc : s.clients[c]? = some client) (client' : Client) :
    (s.setClient c client').clients[c]? = some client' :=
  (setClient_getElem? hc c).trans (if_pos rfl)

theorem act_write (hc : s.clients[c]? = some client) (hp : client.phase = .writing line) :
    s.act clock serde (.client c .write) = some (s.setClient c
      { client with phase := .selecting, written := client.written ++ [line] }) := by
  simp only [act, hc, clientAct, hp]

theorem act_recv {received : Broadcast.Received ServerEvent} {next : Nat}
    (hc : s.clients[c]? = some client) (hp : client.phase = .selecting)
    (hsub : client.subscribed = true)
    (h : Broadcast.recv broadcastCapacity s.daemon.events client.next = some (received, next)) :
    ∃ line : Line, line.message = pushMessage received ∧
      s.act clock serde (.client c .recv) =
        some (s.setClient c { client with next, phase := .writing line }) := by
  cases received with
  | value event =>
    refine ⟨⟨eventMessage event, .event client.next⟩, rfl, ?_⟩
    simp only [act, hc, clientAct, hp, hsub, clientRecv, h]
  | lagged missed =>
    refine ⟨⟨laggedReply, .missed client.next next⟩, rfl, ?_⟩
    simp only [act, hc, clientAct, hp, hsub, clientRecv, h]

theorem steps_of_reads {received : List (Broadcast.Received ServerEvent)} {last : Nat}
    (h : Broadcast.Reads broadcastCapacity s.daemon.events client.next received last)
    (hc : s.clients[c]? = some client) (hp : client.phase = .selecting)
    (hsub : client.subscribed = true) :
    ∃ s' client', (serverSystem clock serde seat manager device).Steps (ReadsOn c) s s' ∧
      s'.daemon = s.daemon ∧ s'.clients[c]? = some client' ∧ client'.phase = .selecting ∧
      client'.next = last ∧ client'.written.map (·.message) =
        client.written.map (·.message) ++ received.map pushMessage := by
  generalize hsent : s.daemon.events = sent at h
  generalize hnext : client.next = next at h
  induction h generalizing s client with
  | done next => exact ⟨s, client, .refl, rfl, hc, hp, hnext, by simp⟩
  | @read next mid last r rest hrecv _ ih =>
    subst hsent hnext
    obtain ⟨line, hm, hstep⟩ := @act_recv clock serde _ _ _ _ _ hc hp hsub hrecv
    let writing : Client := { client with next := mid, phase := .writing line }
    let told : Client :=
      { writing with phase := .selecting, written := writing.written ++ [line] }
    have hc' := setClient_self hc writing
    have hwrite : (s.setClient c writing).act clock serde (.client c .write) =
        some ((s.setClient c writing).setClient c told) := act_write hc' rfl
    obtain ⟨s', client', hsteps, hdaemon, hc'', hp', hlast, hwritten⟩ :=
      ih (setClient_self hc' told) rfl hsub rfl rfl
    exact ⟨s', client', .head (.inl rfl) hstep (.head (.inr rfl) hwrite hsteps), hdaemon, hc'', hp',
      hlast, by simp [hwritten, told, writing, hm]⟩

end Server

/-- From every reachable state a subscriber that waits for no restore comes, by
the steps of its task alone, to have been told of every event: after the line it
was being written it is written just what it is owed. -/
theorem catches_up {clock : Clock} {serde : Serde} {seat manager device : Global} {s : Server}
    {c : Nat} {client : Client} (h : (serverSystem clock serde seat manager device).Reachable s)
    (hc : s.clients[c]? = some client) (hsub : client.subscribed = true)
    (hphase : client.phase = .selecting ∨ ∃ line, client.phase = .writing line) :
    ∃ s' client',
      (serverSystem clock serde seat manager device).Steps (Server.ReadsOn c) s s' ∧
      s'.daemon = s.daemon ∧ s'.clients[c]? = some client' ∧ client'.phase = .selecting ∧
      client'.next = s.daemon.events.length ∧
      client'.written.map (·.message) = client.lines.map (·.message) ++
        (Broadcast.owed broadcastCapacity s.daemon.events client.next).map pushMessage := by
  obtain ⟨-, hclients⟩ := Server.reachable_followed h
  have howed : Broadcast.Reads broadcastCapacity s.daemon.events client.next
      (Broadcast.owed broadcastCapacity s.daemon.events client.next) s.daemon.events.length :=
    Broadcast.reads_owed (hclients c client hc).1.next
  rcases hphase with hp | ⟨line, hp⟩
  · have hlines : client.lines = client.written := by simp [Client.lines, Client.current, hp]
    rw [hlines]
    exact Server.steps_of_reads howed hc hp hsub
  · have hlines : client.lines = client.written ++ [line] := by
      simp [Client.lines, Client.current, hp]
    let told : Client :=
      { client with phase := .selecting, written := client.written ++ [line] }
    have hc' : (s.setClient c told).clients[c]? = some told := Server.setClient_self hc told
    obtain ⟨s', client', hsteps, hrest⟩ :=
      @Server.steps_of_reads clock serde seat manager device (s.setClient c told) c told _ _
        howed hc' rfl hsub
    rw [hlines]
    exact ⟨s', client', .head (.inr rfl) (Server.act_write hc hp) hsteps, hrest⟩

def untoldActs : List ServerAct :=
  [.accept, .client 0 (.line subscribeLine), .client 0 .write] ++ copyRun

theorem untold_catches_up : ∃ (s s' : Server) (client' : Client) (event : ServerEvent),
    sampleRun untoldActs = some s ∧ s.daemon.events = [event] ∧
      (serverSystem .still sampleSerde 0 1 2).Steps (Server.ReadsOn 0) s s' ∧
      s'.clients[0]? = some client' ∧
      client'.written.map (·.message) = [respond "s1" .subscribed, eventMessage event] := by
  have hrun : (sampleRun untoldActs).any (fun s => s.daemon.events.length = 1 ∧
      s.clients[0]?.any fun client => client.subscribed ∧ client.phase = .selecting ∧
        client.next = 0 ∧ client.lines.map (·.message) = [respond "s1" .subscribed]) = true := by
    decide +kernel
  obtain ⟨s, hs, hstate⟩ := (Option.any_eq_true _ _).mp hrun
  obtain ⟨hlength, hclient⟩ := of_decide_eq_true hstate
  obtain ⟨client, hc, hheld⟩ := (Option.any_eq_true _ _).mp hclient
  obtain ⟨hsub, hp, hnext, hlines⟩ := of_decide_eq_true hheld
  obtain ⟨event, hevents⟩ := List.length_eq_one_iff.mp hlength
  obtain ⟨s', client', hsteps, -, hc', -, -, hwritten⟩ :=
    catches_up (reachable_sampleRun hs) hc hsub (.inl hp)
  refine ⟨s, s', client', event, hs, hevents, hsteps, hc', ?_⟩
  rw [hwritten, hlines, hevents, hnext]
  rfl

end Uclip
