import Uclip.Replies

/-!
# Restores in order

A restore request that is in the channel stays in line until the thread answers
it: answered, in the hands of the thread, queued. No step but the exit of the
thread takes anything out of the line or changes its order. Past the reads of a
pass, which may block, the thread can come to the end of the line by itself.
-/

namespace Uclip

open Text (Bytes)

namespace Server

variable {clock : Clock} {serde : Serde} {seat manager device : Global} {s s' : Server} {c : Nat}
  {client client' : Client} {requests : Channel Nat PendingRestore} {asked : List Asked}

/-- What the channel has taken so far, in the order of the answers. -/
def pipeline (s : Server) : List Nat :=
  s.daemon.replies.map (·.1) ++ (s.thread.inHand.toList ++ s.requests.queue).map (·.reply)

/-- The reads of the pass are over. -/
def PastReads (s : Server) : Prop :=
  match s.thread with
  | .looking _ _ | .serving | .restoring _ | .replying _ => True
  | .setup | .polling | .gone => False

def Serves : ServerAct → Prop
  | .thread (.drain _ _ _) | .thread .ready | .thread .exit => False
  | .thread _ => True
  | _ => False

-- ---------------------------------------------------------------------------
-- The order
-- ---------------------------------------------------------------------------

theorem execute_replies_ids (clock : Clock) (s : Server) (hasher offerHasher : Hasher String Bytes)
    (pending : PendingRestore) :
    (s.execute clock hasher offerHasher pending).daemon.replies.map (·.1) =
      s.daemon.replies.map (·.1) ++ [pending.reply] := by
  obtain ⟨_, -, -, -, -, hreplies⟩ | ⟨-, _, hreplies⟩ :=
    execute_cases clock s hasher offerHasher pending <;> rw [hreplies, List.map_append] <;> rfl

theorem threadStep_pipeline (h : s.ThreadStep clock s') (hgone : s'.thread ≠ .gone) :
    s'.pipeline = s.pipeline := by
  cases h with
  | look hthread =>
    simp [pipeline, Thread.inHand, hthread, (look_frame clock s.daemon _).1]
  | drain pass hthread => simp [pipeline, Thread.inHand, hthread]; rfl
  | pop hthread hpop => simp [pipeline, Thread.inHand, hthread, Channel.pop_queue hpop]
  | execute hasher offerHasher hthread =>
    simp only [pipeline, execute_replies_ids, hthread]
    simp [Thread.inHand, Server.execute]
  | exit _ => exact absurd rfl hgone
  | ready hthread | broadcast hthread | serve hthread | answer hthread | sleep hthread =>
    simp [pipeline, Thread.inHand, hthread]

theorem clientStep_pipeline {a : ClientAct}
    (h : s.ClientStep serde c client a client' requests asked) :
    s.pipeline <+: (setClient { s with requests, asked } c client').pipeline := by
  cases h with
  | sent _ _ hsent =>
    simp [pipeline, Channel.pollSend_queue, hsent]
  | full _ _ hfull =>
    simp [pipeline, Channel.pollSend_queue, hfull]
  | _ => exact List.prefix_rfl

theorem act_pipeline {a : ServerAct} (h : s.act clock serde a = some s')
    (hgone : s'.thread ≠ .gone) : s.pipeline <+: s'.pipeline := by
  rcases act_cases h with ⟨_, -, ht⟩ | ⟨-, rfl⟩ | ⟨_, _, _, _, _, _, -, -, hstep, rfl⟩
  · exact threadStep_pipeline ht hgone ▸ List.prefix_rfl
  · exact List.prefix_rfl
  · exact clientStep_pipeline hstep

theorem answered_prefix (s : Server) : s.daemon.replies.map (·.1) <+: s.pipeline :=
  List.prefix_append ..

theorem threadStep_gone (h : s.ThreadStep clock s') (hgone : s'.thread = .gone) :
    s.thread ≠ .gone ∧ s'.daemon = s.daemon := by
  cases h with
  | exit hthread => exact ⟨by rcases hthread with h | h | h <;> simp [h], rfl⟩
  | _ => cases hgone

/-- The thread answers in the order of a line that begins with what is in line
now. -/
def InLine (s t : Server) : Prop :=
  ∃ order, s.pipeline <+: order ∧ t.daemon.replies.map (·.1) <+: order ∧
    (t.thread ≠ .gone → order = t.pipeline)

theorem InLine.step {t t' : Server} {a : ServerAct} (h : InLine s t)
    (hs : t.act clock serde a = some t') : InLine s t' := by
  obtain ⟨order, hfirst, hanswered, horder⟩ := h
  by_cases hgone : t'.thread = .gone
  · -- What the thread had answered when it ended is all it ever answers.
    refine ⟨order, hfirst, ?_, fun halive => absurd hgone halive⟩
    rcases act_cases hs with ⟨_, -, ht⟩ | ⟨-, rfl⟩ | ⟨_, _, _, _, _, _, -, -, -, rfl⟩
    · rw [(threadStep_gone ht hgone).2]
      exact hanswered
    · exact hanswered
    · exact hanswered
  · have halive : t.thread ≠ .gone := by
      rcases act_cases hs with ⟨_, -, ht⟩ | ⟨-, rfl⟩ | ⟨_, _, _, _, _, _, -, -, -, rfl⟩
      · cases ht <;> simp_all
      · exact hgone
      · exact hgone
    refine ⟨t'.pipeline, ?_, answered_prefix t', fun _ => rfl⟩
    exact (horder halive ▸ hfirst).trans (act_pipeline hs hgone)

-- ---------------------------------------------------------------------------
-- The thread comes to the end of the line
-- ---------------------------------------------------------------------------

section Own

variable (clock serde seat manager device)

/-- By its own steps alone the thread comes to poll with nothing queued. -/
def Empties (s : Server) : Prop :=
  ∃ s', (serverSystem clock serde seat manager device).Steps Serves s s' ∧
    s'.thread = .polling ∧ s'.requests.queue = []

variable {clock serde seat manager device}

theorem Empties.step {a : ThreadAct} (h : s.threadAct clock a = some s')
    (hserves : Serves (.thread a))
    (hrest : Empties clock serde seat manager device s') :
    Empties clock serde seat manager device s := by
  obtain ⟨t, hsteps, hthread, hqueue⟩ := hrest
  exact ⟨t, .head hserves h hsteps, hthread, hqueue⟩

theorem pop_of_queue {ch : Channel Nat PendingRestore} (h : ch.queue = pending :: rest) :
    ∃ ch', ch.pop = some (pending, ch') ∧ ch'.queue = rest := by
  unfold Channel.pop
  cases hw : ch.waiting with
  | nil => exact ⟨{ ch with queue := rest }, by simp [h, hw], rfl⟩
  | cons k waiting =>
    exact ⟨{ queue := rest, waiting, granted := ch.granted ++ [k] }, by simp [h], rfl⟩

theorem empties_serving (h : s.thread = .serving) :
    Empties clock serde seat manager device s := by
  generalize hqueue : s.requests.queue = queue
  induction queue generalizing s with
  | nil =>
    have hsleep : s.threadAct clock .sleep = some { s with thread := .polling } := by
      simp only [threadAct, h, hqueue]
    exact .step hsleep trivial ⟨_, .refl, rfl, hqueue⟩
  | cons pending rest ih =>
    obtain ⟨requests, hpop, hrest⟩ := pop_of_queue hqueue
    have hpop : s.threadAct clock .pop =
        some { s with requests, thread := .restoring pending } := by
      simp only [threadAct, h, hpop]
    refine .step hpop trivial (.step (a := .execute .sorted .sorted) rfl trivial ?_)
    exact .step (a := .answer) rfl trivial (ih rfl hrest)

theorem empties_replying (h : s.thread = .replying pending) :
    Empties clock serde seat manager device s := by
  have hanswer : s.threadAct clock .answer = some { s with thread := .serving } := by
    simp only [threadAct, h]
  exact .step hanswer trivial (empties_serving rfl)

theorem empties_restoring (h : s.thread = .restoring pending) :
    Empties clock serde seat manager device s := by
  have hexecute : s.threadAct clock (.execute .sorted .sorted) =
      some (s.execute clock .sorted .sorted pending) := by
    simp only [threadAct, h]
  exact .step hexecute trivial (empties_replying rfl)

theorem empties_looking {unsent : List ServerEvent} {outcomes : List ReadOutcome}
    (h : s.thread = .looking unsent outcomes) :
    Empties clock serde seat manager device s := by
  induction outcomes generalizing s unsent with
  | nil =>
    induction unsent generalizing s with
    | nil =>
      have hserve : s.threadAct clock .serve = some { s with thread := .serving } := by
        simp only [threadAct, h]
      exact .step hserve trivial (empties_serving rfl)
    | cons event unsent ih =>
      have hbroadcast : s.threadAct clock .broadcast = some { s with
          daemon := { s.daemon with events := s.daemon.events ++ [event] }
          thread := .looking unsent [] } := by
        simp only [threadAct, h]
      exact .step hbroadcast trivial (ih rfl)
  | cons outcome outcomes ih =>
    induction unsent generalizing s with
    | nil =>
      have hlook : ∃ s', s.threadAct clock .look = some s' ∧ ∃ more,
          s'.thread = .looking more outcomes := by
        simp only [threadAct, h]
        exact ⟨_, rfl, _, rfl⟩
      obtain ⟨s', hlook, _, hthread⟩ := hlook
      exact .step hlook trivial (ih hthread)
    | cons event unsent ihu =>
      have hbroadcast : s.threadAct clock .broadcast = some { s with
          daemon := { s.daemon with events := s.daemon.events ++ [event] }
          thread := .looking unsent (outcome :: outcomes) } := by
        simp only [threadAct, h]
      exact .step hbroadcast trivial (ihu rfl)

theorem empties_of_pastReads (h : s.PastReads) : Empties clock serde seat manager device s := by
  unfold PastReads at h
  split at h
  · exact empties_looking ‹_›
  · exact empties_serving ‹_›
  · exact empties_restoring ‹_›
  · exact empties_replying ‹_›
  all_goals exact h.elim

end Own

theorem serves_alive {a : ThreadAct} (hserves : Serves (.thread a))
    (h : s.threadAct clock a = some s') : s'.thread ≠ .gone := by
  cases a with
  | ready | drain _ _ _ | exit => exact hserves.elim
  | _ =>
    simp only [threadAct] at h
    split at h
    · cases h
      simp [Server.execute]
    · cases h

theorem serves_pipeline {a : ServerAct} (hserves : Serves a) (h : s.act clock serde a = some s') :
    s'.pipeline = s.pipeline := by
  cases a with
  | thread a =>
    have hact : s.threadAct clock a = some s' := h
    exact threadStep_pipeline (threadAct_step hact) (serves_alive hserves hact)
  | _ => exact hserves.elim

end Server

/-- What has been put in the channel is answered in that order, none twice and
none skipped, as long as the thread lives; and when the reads of its pass are
over it can answer all of it by its own steps, whatever the tasks do or do not. -/
theorem restores_first_come {clock : Clock} {serde : Serde} {seat manager device : Global}
    {s : Server} (h : (serverSystem clock serde seat manager device).Reachable s) :
    s.pipeline.Nodup ∧
    (∀ s', (serverSystem clock serde seat manager device).Steps (fun _ => True) s s' →
      ∃ order, s.pipeline <+: order ∧ s'.daemon.replies.map (·.1) <+: order ∧
        (s'.thread ≠ .gone → order = s'.pipeline)) ∧
    (s.PastReads → ∃ s',
      (serverSystem clock serde seat manager device).Steps Server.Serves s s' ∧
        s'.thread = .polling ∧ s'.daemon.replies.map (·.1) = s.pipeline) := by
  refine ⟨?_, fun s' hsteps => ?_, fun hpast => ?_⟩
  · refine (List.perm_append_comm.trans ?_).nodup_iff.mpr (Server.reachable_honest h).tracked.nodup
    exact (List.perm_append_comm.map _).append_right _
  · refine hsteps.invariant (motive := Server.InLine s) ?_ fun _ _ _ _ hline hstep =>
      hline.step hstep
    exact ⟨s.pipeline, List.prefix_rfl, Server.answered_prefix s, fun _ => rfl⟩
  · obtain ⟨s', hsteps, hthread, hqueue⟩ := Server.empties_of_pastReads hpast
    refine ⟨s', hsteps, hthread, ?_⟩
    have hsame : s'.pipeline = s.pipeline :=
      hsteps.invariant (motive := fun t => t.pipeline = s.pipeline) rfl
        fun _ _ _ hserves hline hstep => (Server.serves_pipeline hserves hstep).trans hline
    rw [← hsame, Server.pipeline, hthread, hqueue]
    simp [Thread.inHand]

theorem queued_comes_first : ∃ s s',
    (serverSystem .still sampleSerde 0 1 2).Reachable s ∧ s.daemon.replies = [] ∧
      s.pipeline = [0] ∧
      (serverSystem .still sampleSerde 0 1 2).Steps Server.Serves s s' ∧
      s'.daemon.replies.map (·.1) = [0] := by
  have hrun : (sampleRun (copyRun ++ [.accept, .client 0 (.line restoreLine), .client 0 .send,
      .thread (.drain [] {} (restorePass ⟨0, 0⟩).drain)])).any (fun s =>
        s.daemon.replies = [] ∧ s.pipeline = [0] ∧ s.thread = .looking [] []) = true := by
    decide +kernel
  obtain ⟨s, hs, hstate⟩ := (Option.any_eq_true _ _).mp hrun
  obtain ⟨hreplies, hpipeline, hthread⟩ := of_decide_eq_true hstate
  have hreach := reachable_sampleRun hs
  obtain ⟨-, -, hserved⟩ := restores_first_come hreach
  obtain ⟨s', hsteps, -, hanswered⟩ := hserved (by simp [Server.PastReads, hthread])
  exact ⟨s, s', hreach, hreplies, hpipeline, hsteps, hanswered.trans hpipeline⟩

end Uclip
