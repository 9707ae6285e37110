import Uclip.ServerLaws
import Uclip.Unordered

/-!
# The server and the order of the hash maps

A task reads the snapshot, the events and the answers, and none of these depends
on the orders of the hash maps. So whatever the orders, the server can take the
same steps, and its clients read the same.
-/

namespace Uclip

open Text (Bytes)

/-- The steps are the same but for the orders of the maps. -/
inductive SameAct : ServerAct → ServerAct → Prop
  | drain {env env'} (events : List Event) (io : RequestIo) : SameReads env env' →
      SameAct (.thread (.drain events io env)) (.thread (.drain events io env'))
  | execute (hasher offerHasher hasher' offerHasher' : Hasher String Bytes) :
      SameAct (.thread (.execute hasher offerHasher)) (.thread (.execute hasher' offerHasher'))
  | same (a) : SameAct a a

namespace Server

def OneUnlistedAct (s : Server) : ServerAct → Prop
  | .thread (.drain events io env) => OneUnlistedPass s.daemon { events, io, drain := env }
  | _ => True

instance (s : Server) : DecidablePred s.OneUnlistedAct
  | .thread (.drain events io env) =>
    inferInstanceAs (Decidable (OneUnlistedPass s.daemon { events, io, drain := env }))
  | .thread .ready | .thread .look | .thread .broadcast | .thread .serve | .thread .pop
  | .thread (.execute ..) | .thread .answer | .thread .sleep | .thread .exit | .accept
  | .client .. => .isTrue trivial

def withDaemon (s : Server) (daemon : Daemon) : Server := { s with daemon }

variable {clock : Clock} {serde : Serde} {s s' : Server} {d : Daemon} {c : Nat} {client : Client}

@[simp] theorem withDaemon_daemon : (s.withDaemon d).daemon = d := rfl
@[simp] theorem withDaemon_thread : (s.withDaemon d).thread = s.thread := rfl
@[simp] theorem withDaemon_requests : (s.withDaemon d).requests = s.requests := rfl
@[simp] theorem withDaemon_clients : (s.withDaemon d).clients = s.clients := rfl

/-- The requests do not show in what the tasks share with the thread. -/
structure Shares (d d' : Daemon) : Prop where
  snapshot : d'.snapshot = d.snapshot
  events : d'.events = d.events
  replies : d'.replies = d.replies

theorem shares_of_alike (h : Alike s.daemon d) : Shares s.daemon d := by
  obtain ⟨_, rfl, -⟩ := h
  exact ⟨rfl, rfl, rfl⟩

-- ---------------------------------------------------------------------------
-- Tasks
-- ---------------------------------------------------------------------------

theorem seen_same (h : Shares s.daemon d) : (s.withDaemon d).seen = s.seen := by
  simp only [seen, pushed, withDaemon_daemon, h.snapshot, h.events]
  rfl

theorem oneshot_same (h : Shares s.daemon d) (reply : Nat) :
    (s.withDaemon d).oneshot reply = s.oneshot reply := by
  simp only [oneshot, withDaemon_thread, withDaemon_daemon, Daemon.replyTo, h.replies]

theorem clientAct_same (h : Shares s.daemon d) (serde : Serde) (c : Nat) (client : Client)
    (a : ClientAct) : (s.withDaemon d).clientAct serde c client a =
      (s.clientAct serde c client a).map (·.withDaemon d) := by
  cases a with
  | line line =>
    simp only [clientAct, clientLine, seen_same h, withDaemon_daemon, h.snapshot]
    split
    · split <;> rfl
    · rfl
  | recv =>
    simp only [clientAct, clientRecv, withDaemon_daemon, h.events]
    split
    · split <;> rfl
    · rfl
  | send =>
    simp only [clientAct, withDaemon_requests]
    rw [withDaemon_thread]
    split
    · split
      · rfl
      · split <;> rfl
    · rfl
  | receive =>
    simp only [clientAct, oneshot_same h]
    rw [withDaemon_thread]
    split
    · split
      · rfl
      · split <;> rfl
    · rfl
  | expire =>
    simp only [clientAct, oneshot_same h]
    rw [withDaemon_thread]
    split
    · split <;> rfl
    · rfl
  | write =>
    simp only [clientAct]
    split <;> rfl
  | hangUp =>
    simp only [clientAct]
    split
    · rfl
    · split <;> rfl
    · rfl

-- ---------------------------------------------------------------------------
-- The thread
-- ---------------------------------------------------------------------------

theorem execute_same (h : Alike s.daemon d) (clock : Clock)
    (hasher offerHasher hasher' offerHasher' : Hasher String Bytes) (pending : PendingRestore) :
    ∃ d', (s.withDaemon d).execute clock hasher' offerHasher' pending =
        (s.execute clock hasher offerHasher pending).withDaemon d' ∧
      Alike (s.execute clock hasher offerHasher pending).daemon d' := by
  refine ⟨d.handleRestore clock hasher' offerHasher' pending, ?_, h.handleRestore ..⟩
  obtain ⟨requests, rfl, -⟩ := h
  -- The same entry is published, or the same error given.
  have hpublished : ((s.withDaemon (s.daemon.withRequests requests)).execute clock hasher'
      offerHasher' pending).published = (s.execute clock hasher offerHasher pending).published := by
    have hget : (s.withDaemon (s.daemon.withRequests requests)).daemon.app.clipboard.get
        pending.entryId = s.daemon.app.clipboard.get pending.entryId := rfl
    simp only [execute, hget]
    cases hres : s.daemon.app.restoreEntry hasher offerHasher pending.entryId with
    | error err =>
      have hres' : (s.withDaemon (s.daemon.withRequests requests)).daemon.app.restoreEntry hasher'
          offerHasher' pending.entryId = .error err :=
        restoreEntry_error_same hres hasher' offerHasher' requests
      rw [hres']
      split <;> rfl
    | ok app =>
      obtain ⟨entry, hentry, hmanager, hdevice, -⟩ := AppState.restoreEntry_eq_ok hres
      have hres' : (s.withDaemon (s.daemon.withRequests requests)).daemon.app.restoreEntry hasher'
          offerHasher' pending.entryId = .ok _ :=
        AppState.restoreEntry_of_get hentry hmanager hdevice
      rw [hres', hentry]
      rfl
  exact congrArg (fun published => { s with
    daemon := (s.daemon.withRequests requests).handleRestore clock hasher' offerHasher' pending
    thread := .replying pending
    published }) hpublished

theorem look_same (h : Alike s.daemon d) (clock : Clock) (outcome : ReadOutcome)
    (outcomes : List ReadOutcome) :
    let looked (s : Server) : Server := { s with
      daemon := { s.daemon.outcome clock outcome with events := s.daemon.events }
      thread := .looking ((s.daemon.outcome clock outcome).events.drop s.daemon.events.length)
        outcomes }
    ∃ d', looked (s.withDaemon d) = (looked s).withDaemon d' ∧ Alike (looked s).daemon d' := by
  intro looked
  have houtcome := h.outcome clock outcome
  obtain ⟨requests, rfl, -⟩ := h
  obtain ⟨requests', heq, hrequests⟩ := houtcome
  refine ⟨Daemon.withRequests (looked s).daemon requests', ?_, requests', rfl, hrequests⟩
  have hdaemon : (s.withDaemon (s.daemon.withRequests requests)).daemon.outcome clock outcome =
      (s.daemon.outcome clock outcome).withRequests requests' := heq
  simp only [looked, hdaemon]
  rfl

def leaves : ThreadAct → Bool
  | .drain .. | .look | .broadcast | .execute .. => false
  | _ => true

theorem threadAct_leaves {a : ThreadAct} (ha : leaves a = true)
    (hs : s.threadAct clock a = some s') :
    s'.daemon = s.daemon ∧ (s.withDaemon d).threadAct clock a = some (s'.withDaemon d) := by
  cases a with
  | drain | look | broadcast | execute => cases ha
  | ready | serve | answer =>
    simp only [threadAct, withDaemon_thread] at hs ⊢
    split at hs <;> cases hs
    exact ⟨rfl, rfl⟩
  | pop | sleep | exit =>
    simp only [threadAct, withDaemon_thread, withDaemon_requests] at hs ⊢
    split at hs <;> cases hs <;> exact ⟨rfl, rfl⟩

theorem threadAct_same {a a' : ThreadAct} (h : Alike s.daemon d)
    (hsame : SameAct (.thread a) (.thread a')) (hone : s.OneUnlistedAct (.thread a))
    (hs : s.threadAct clock a = some s') :
    ∃ d', (s.withDaemon d).threadAct clock a' = some (s'.withDaemon d') ∧ Alike s'.daemon d' := by
  cases a with
  | drain events io env =>
    obtain ⟨env', rfl, hreads⟩ : ∃ env', a' = .drain events io env' ∧ SameReads env env' := by
      cases hsame with
      | drain _ _ hreads => exact ⟨_, rfl, hreads⟩
      | same => exact ⟨_, rfl, rfl, rfl⟩
    simp only [threadAct] at hs
    split at hs
    · rename_i hthread
      cases hs
      obtain ⟨hdrained, houtcomes⟩ := @Alike.drained _ _ h { events, io, drain := env }
        { events, io, drain := env' } rfl rfl hreads hone
      refine ⟨_, ?_, hdrained⟩
      simp only [threadAct, withDaemon_thread, hthread, ← houtcomes]
      rfl
    · cases hs
  | execute hasher offerHasher =>
    obtain ⟨hasher', offerHasher', rfl⟩ : ∃ hasher' offerHasher',
        a' = .execute hasher' offerHasher' := by
      cases hsame <;> exact ⟨_, _, rfl⟩
    simp only [threadAct] at hs
    split at hs
    · rename_i pending hthread
      cases hs
      obtain ⟨d', hd, halike⟩ :=
        execute_same h clock hasher offerHasher hasher' offerHasher' pending
      exact ⟨d', by simp only [threadAct, withDaemon_thread, hthread, hd], halike⟩
    · cases hs
  | look =>
    cases hsame
    simp only [threadAct] at hs
    split at hs
    · rename_i outcome outcomes hthread
      cases hs
      obtain ⟨d', hd, halike⟩ := look_same h clock outcome outcomes
      refine ⟨d', ?_, halike⟩
      simp only [threadAct, withDaemon_thread, hthread]
      exact congrArg some hd
    · cases hs
  | broadcast =>
    cases hsame
    simp only [threadAct] at hs
    split at hs
    · rename_i event unsent outcomes hthread
      cases hs
      obtain ⟨requests, rfl, hrequests⟩ := h
      refine ⟨_, ?_, requests, rfl, hrequests⟩
      simp only [threadAct, withDaemon_thread, hthread]
      rfl
    · cases hs
  | _ =>
    cases hsame
    obtain ⟨hdaemon, hstep⟩ := threadAct_leaves rfl hs
    exact ⟨d, hstep, hdaemon ▸ h⟩

-- ---------------------------------------------------------------------------
-- Runs
-- ---------------------------------------------------------------------------

theorem act_same {a a' : ServerAct} (h : Alike s.daemon d) (hsame : SameAct a a')
    (hone : s.OneUnlistedAct a) (hs : s.act clock serde a = some s') :
    ∃ d', (s.withDaemon d).act clock serde a' = some (s'.withDaemon d') ∧
      Alike s'.daemon d' := by
  cases a with
  | thread a =>
    obtain ⟨a', rfl⟩ : ∃ taken, a' = .thread taken := by
      cases hsame <;> exact ⟨_, rfl⟩
    exact @threadAct_same clock _ _ _ _ _ h hsame hone hs
  | accept =>
    cases hsame
    cases hs
    obtain ⟨requests, rfl, hrequests⟩ := h
    exact ⟨_, rfl, requests, rfl, hrequests⟩
  | client c a =>
    cases hsame
    simp only [act] at hs
    split at hs
    · rename_i client hc
      have hdaemon : s'.daemon = s.daemon := by
        obtain ⟨_, _, _, -, rfl⟩ := clientAct_step hs
        rfl
      refine ⟨d, ?_, hdaemon ▸ h⟩
      simp only [act, withDaemon_clients, hc, clientAct_same (shares_of_alike h), hs,
        Option.map_some]
    · cases hs

end Server

theorem forall₂_snoc {R : α → β → Prop} {l : List α} {a : α} {l' : List β}
    (h : List.Forall₂ R (l ++ [a]) l') :
    ∃ init last, l' = init ++ [last] ∧ List.Forall₂ R l init ∧ R a last := by
  have hinit := List.forall₂_take_append l' l [a] h.flip
  have hlast := List.forall₂_drop_append l' l [a] h.flip
  obtain ⟨last, rest, hR, hrest, hdrop⟩ := List.forall₂_cons_right_iff.mp hlast
  rw [List.forall₂_nil_right_iff.mp hrest] at hdrop
  exact ⟨_, last, by rw [← hdrop, List.take_append_drop], hinit.flip, hR⟩

/-- No client sees the seeds of the hash maps: whatever the orders, the server
can take the same steps, and then its tasks have read and written the same, the
history and the snapshot are the same, and but for the orders it has sent the
compositor the same, as long as no copy has two unlisted text types. -/
theorem orders_unseen {clock : Clock} {serde : Serde} {seat manager device : Global} {s : Server}
    {labels labels' : List ServerAct}
    (h : ((serverSystem clock serde seat manager device).restrict Server.OneUnlistedAct).Run
      labels s) (hsame : List.Forall₂ SameAct labels labels') :
    ∃ requests, (serverSystem clock serde seat manager device).Run labels'
        { s with daemon := { s.daemon with app := { s.daemon.app with requests } } } ∧
      Reordered s.daemon.app.requests requests := by
  suffices ∃ d, (serverSystem clock serde seat manager device).Run labels' (s.withDaemon d) ∧
      Alike s.daemon d by
    obtain ⟨_, hrun, requests, rfl, hrequests⟩ := this
    exact ⟨requests, hrun, hrequests⟩
  induction h generalizing labels' with
  | @start s hinit =>
    cases hinit
    rw [List.forall₂_nil_left_iff.mp hsame]
    exact ⟨_, .start rfl, _, rfl, .nil⟩
  | next _ hstep ih =>
    obtain ⟨init, last, rfl, hinit, hlast⟩ := forall₂_snoc hsame
    obtain ⟨d, hrun, halike⟩ := ih hinit
    obtain ⟨d', hstep', halike'⟩ := Server.act_same halike hlast hstep.2 hstep.1
    exact ⟨d', hrun.next hstep', halike'⟩

def hiUrlActs (hasher : Hasher String Bytes) : List ServerAct :=
  let copy := hiUrl hasher
  [.thread .ready, .accept, .client 0 (.line subscribeLine), .client 0 .write,
    .thread (.drain copy.events copy.io copy.drain), .thread .look, .thread .broadcast,
    .client 0 .recv, .client 0 .write, .client 0 (.line restoreLine), .client 0 .send,
    .thread .serve, .thread .pop, .thread (.execute hasher hasher), .thread .answer,
    .client 0 .receive, .client 0 .write]

theorem reversed_unseen : ∃ (s : Server) (requests : List Request),
    s.clients.map (·.written.map (·.purpose)) = [[.plain, .event 0, .answer 0]] ∧
      (serverSystem .still sampleSerde 0 1 2).Run (hiUrlActs reversedHasher)
        { s with daemon := { s.daemon with app := { s.daemon.app with requests } } } := by
  have hrun : ((hiUrlActs .sorted).foldlM (fun s label => if Server.OneUnlistedAct s label
      then Server.act .still sampleSerde s label else none) (Server.start 0 1 2)).any (fun s =>
        s.clients.map (·.written.map (·.purpose)) = [[.plain, .event 0, .answer 0]]) = true := by
    decide +kernel
  obtain ⟨s, hs, hwritten⟩ := (Option.any_eq_true _ _).mp hrun
  have hsame : List.Forall₂ SameAct (hiUrlActs .sorted) (hiUrlActs reversedHasher) := by
    unfold hiUrlActs
    repeat' constructor
  obtain ⟨requests, hrun', -⟩ := orders_unseen (System.restrict_exec hs) hsame
  exact ⟨s, requests, of_decide_eq_true hwritten, hrun'⟩

end Uclip
