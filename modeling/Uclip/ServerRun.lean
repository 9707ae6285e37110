import Uclip.Passes
import Uclip.Replies

/-!
# The thread runs the loop

The steps of the thread cut `run_event_loop` at its accesses to what is shared.
However they interleave with the tasks, the thread is at some point of a pass
after some passes of the loop.
-/

namespace Uclip

namespace Server

variable {clock : Clock} {serde : Serde} {seat manager device : Global} {s s' : Server}
  {d₀ : Daemon}

/-- The loop has no point between the push and the send. -/
def whole (s : Server) : Daemon := { s.daemon with events := s.pushed }

theorem whole_of_sent (h : s.unsent = []) : s.whole = s.daemon := by
  simp [whole, pushed, h]

/-- Where the daemon of a thread is that has begun these passes. The requests
of the last are those it has executed so far. -/
inductive InPass (clock : Clock) (d₀ : Daemon) : List Pass → Thread → Daemon → Prop
  | setup : InPass clock d₀ [] .setup d₀
  | polling (passes : List Pass) : InPass clock d₀ passes .polling (d₀.run clock passes)
  | looking {unsent outcomes} (passes : List Pass) (pass : Pass) (looked : List ReadOutcome) :
      pass.requests = [] →
      (((d₀.run clock passes).dispatched pass).drained pass).2 = looked ++ outcomes →
      InPass clock d₀ (passes ++ [pass]) (.looking unsent outcomes)
        (looked.foldl (Daemon.outcome clock)
          (((d₀.run clock passes).dispatched pass).drained pass).1)
  | serving (passes : List Pass) (pass : Pass) :
      InPass clock d₀ (passes ++ [pass]) .serving ((d₀.run clock passes).step clock pass)
  | restoring {pending} (passes : List Pass) (pass : Pass) :
      InPass clock d₀ (passes ++ [pass]) (.restoring pending)
        ((d₀.run clock passes).step clock pass)
  | replying {pending} (passes : List Pass) (pass : Pass) :
      InPass clock d₀ (passes ++ [pass]) (.replying pending) ((d₀.run clock passes).step clock pass)
  | gone (passes : List Pass) : InPass clock d₀ passes .gone (d₀.run clock passes)

theorem whole_looking (s : Server) (daemon : Daemon) (outcomes : List ReadOutcome)
    (h : s.daemon.events <+: daemon.events) :
    whole { s with
      daemon := { daemon with events := s.daemon.events }
      thread := .looking (daemon.events.drop s.daemon.events.length) outcomes } = daemon := by
  have hevents := List.prefix_iff_eq_append.mp h
  simp [whole, pushed, unsent, hevents]

theorem outcome_events (clock : Clock) (d : Daemon) (outcome : ReadOutcome) :
    d.events <+: (d.outcome clock outcome).events := by
  obtain ⟨-, ⟨hevents, -⟩ | ⟨_, _, -, hevents, -⟩⟩ := outcome_cases clock d outcome
  · exact hevents ▸ List.prefix_rfl
  · exact hevents ▸ List.prefix_append ..

abbrev Input := List Event × RequestIo × DrainEnv

def input : ServerAct → Option Input
  | .thread (.drain events io env) => some (events, io, env)
  | _ => none

theorem threadAct_input (h : s.threadAct clock a = some s') :
    (input (.thread a) = none ∧
      ∀ unsent outcomes, ¬ (s.thread = .polling ∧ s'.thread = .looking unsent outcomes)) ∨
    ∃ pass : Pass, input (.thread a) = some (pass.events, pass.io, pass.drain) ∧
      pass.requests = [] ∧ s.thread = .polling ∧
      s' = { s with
        daemon := ((s.daemon.dispatched pass).drained pass).1
        thread := .looking [] ((s.daemon.dispatched pass).drained pass).2 } := by
  cases a with
  | drain events io env =>
    simp only [threadAct] at h
    split at h
    · cases h
      exact .inr ⟨{ events, io, drain := env }, rfl, rfl, ‹_›, rfl⟩
    · cases h
  | _ =>
    refine .inl ⟨rfl, fun unsent outcomes hpolls => ?_⟩
    obtain ⟨hpolling, hlooking⟩ := hpolls
    simp only [threadAct, hpolling] at h
    cases h <;> cases hlooking

structure Ran (clock : Clock) (d₀ : Daemon) (passes : List Pass) (inputs : List Input)
    (s : Server) : Prop where
  inputs : passes.map (fun pass => (pass.events, pass.io, pass.drain)) = inputs
  inPass : InPass clock d₀ passes s.thread s.whole

theorem InPass.look {passes : List Pass} {outcome : ReadOutcome} {outcomes : List ReadOutcome}
    (h : InPass clock d₀ passes (.looking [] (outcome :: outcomes)) s.daemon) :
    let looked := s.daemon.outcome clock outcome
    let unsent := looked.events.drop s.daemon.events.length
    InPass clock d₀ passes (.looking unsent outcomes)
      (whole { s with
        daemon := { looked with events := s.daemon.events }
        thread := .looking unsent outcomes }) := by
  intro looked unsent
  rw [whole_looking s looked outcomes (outcome_events clock s.daemon outcome)]
  simp only [looked]
  generalize s.daemon = d at h
  cases h with | looking passes pass seen hidle hall =>
  have hseen : (seen.foldl (Daemon.outcome clock)
      (((d₀.run clock passes).dispatched pass).drained pass).1).outcome clock outcome =
        (seen ++ [outcome]).foldl (Daemon.outcome clock)
          (((d₀.run clock passes).dispatched pass).drained pass).1 := by
    rw [List.foldl_append]
    rfl
  rw [hseen]
  exact .looking passes pass (seen ++ [outcome]) hidle (by simpa using hall)

theorem InPass.serve {passes : List Pass} {d : Daemon}
    (h : InPass clock d₀ passes (.looking [] []) d) : InPass clock d₀ passes .serving d := by
  cases h with | looking passes pass looked hidle hall =>
  have hstep : (d₀.run clock passes).step clock pass = looked.foldl
      (Daemon.outcome clock) (((d₀.run clock passes).dispatched pass).drained pass).1 := by
    simp only [Daemon.step, Daemon.served, hidle, hall, List.append_nil, List.foldl_nil]
  rw [← hstep]
  exact .serving passes pass

theorem InPass.execute {passes : List Pass} {pending : PendingRestore} {d : Daemon}
    (h : InPass clock d₀ passes (.restoring pending) d)
    (hasher offerHasher : Hasher String Text.Bytes) :
    ∃ passes', passes'.map (fun pass => (pass.events, pass.io, pass.drain)) =
        passes.map (fun pass => (pass.events, pass.io, pass.drain)) ∧
      InPass clock d₀ passes' (.replying pending)
        (d.handleRestore clock hasher offerHasher pending) := by
  cases h with | restoring passes pass =>
  refine ⟨passes ++
    [{ pass with requests := pass.requests ++ [(pending, hasher, offerHasher)] }], ?_, ?_⟩
  · rw [List.map_append, List.map_append]
    rfl
  · rw [step_served]
    exact .replying passes _

theorem InPass.gone_of {passes : List Pass} {thread : Thread} {d : Daemon}
    (h : InPass clock d₀ passes thread d)
    (hthread : thread = .setup ∨ thread = .polling ∨ thread = .serving) :
    InPass clock d₀ passes .gone d := by
  rcases hthread with rfl | rfl | rfl
  · cases h with | setup => exact .gone []
  · cases h with | polling => exact .gone passes
  · cases h with | serving passes pass =>
    rw [run_step]
    exact .gone _

theorem Ran.step {a : ThreadAct} {passes : List Pass} {inputs : List Input}
    (h : Ran clock d₀ passes inputs s) (hs : s.threadAct clock a = some s') :
    ∃ passes', Ran clock d₀ passes' (inputs ++ [.thread a].filterMap input) s' := by
  obtain ⟨hinputs, hpass⟩ := h
  have hsent (hthread : s.unsent = []) : s.whole = s.daemon := whole_of_sent hthread
  rcases threadAct_input hs with ⟨hnone, hno⟩ | ⟨pass, hinput, hidle, hthread, rfl⟩
  · rw [List.filterMap_cons_none hnone, List.filterMap_nil, List.append_nil]
    cases threadAct_step hs with
    | drain pass hthread => exact absurd ⟨hthread, rfl⟩ (hno _ _)
    | ready hthread =>
      rw [hthread, hsent (by simp [unsent, hthread])] at hpass
      refine ⟨passes, hinputs, ?_⟩
      rw [whole_of_sent rfl]
      generalize s.daemon = d at hpass
      cases hpass with | setup => exact .polling []
    | @look outcome outcomes hthread =>
      rw [hthread, hsent (by simp [unsent, hthread])] at hpass
      exact ⟨passes, hinputs, hpass.look⟩
    | @broadcast event unsent outcomes hthread =>
      have hsame : whole { s with
          daemon := { s.daemon with events := s.daemon.events ++ [event] }
          thread := .looking unsent outcomes } = s.whole := by
        simp [whole, pushed, Server.unsent, hthread]
      rw [hthread] at hpass
      refine ⟨passes, hinputs, ?_⟩
      rw [hsame]
      generalize s.whole = d at hpass
      cases hpass with | looking passes pass looked hidle hall =>
      exact .looking passes pass looked hidle hall
    | serve hthread =>
      rw [hthread, hsent (by simp [unsent, hthread])] at hpass
      refine ⟨passes, hinputs, ?_⟩
      rw [whole_of_sent rfl]
      exact hpass.serve
    | pop hthread hpop =>
      rw [hthread, hsent (by simp [unsent, hthread])] at hpass
      refine ⟨passes, hinputs, ?_⟩
      rw [whole_of_sent rfl]
      generalize s.daemon = d at hpass
      cases hpass with | serving passes pass => exact .restoring passes pass
    | @execute pending hasher offerHasher hthread =>
      rw [hthread, hsent (by simp [unsent, hthread])] at hpass
      obtain ⟨passes', hsame, hpass'⟩ := hpass.execute hasher offerHasher
      refine ⟨passes', hsame.trans hinputs, ?_⟩
      rw [whole_of_sent rfl]
      exact hpass'
    | answer hthread =>
      rw [hthread, hsent (by simp [unsent, hthread])] at hpass
      refine ⟨passes, hinputs, ?_⟩
      rw [whole_of_sent rfl]
      generalize s.daemon = d at hpass
      cases hpass with | replying passes pass => exact .serving passes pass
    | sleep hthread =>
      rw [hthread, hsent (by simp [unsent, hthread])] at hpass
      refine ⟨passes, hinputs, ?_⟩
      rw [whole_of_sent rfl]
      generalize s.daemon = d at hpass
      cases hpass with | serving passes pass =>
      rw [run_step]
      exact .polling _
    | exit hthread =>
      rw [hsent (by rcases hthread with h | h | h <;> simp [unsent, h])] at hpass
      refine ⟨passes, hinputs, ?_⟩
      rw [whole_of_sent rfl]
      exact hpass.gone_of hthread
  · rw [hthread, hsent (by simp [unsent, hthread])] at hpass
    refine ⟨passes ++ [pass], ?_, ?_⟩
    · rw [List.filterMap_cons_some hinput, List.map_append, hinputs]
      rfl
    · rw [whole_of_sent rfl]
      generalize s.daemon = d at hpass
      cases hpass with | polling => exact .looking passes pass [] hidle rfl

theorem run_ran {labels : List ServerAct}
    (h : (serverSystem clock serde seat manager device).Run labels s) :
    ∃ passes, Ran clock (.start seat manager device) passes (labels.filterMap input) s := by
  induction h with
  | start hinit =>
    cases hinit
    exact ⟨[], rfl, .setup⟩
  | @next labels s a s' _ hstep ih =>
    obtain ⟨passes, hran⟩ := ih
    rw [List.filterMap_append]
    rcases act_cases hstep with ⟨a', rfl, -⟩ | ⟨rfl, rfl⟩ | ⟨_, _, _, _, _, _, rfl, -, -, rfl⟩
    · exact hran.step hstep
    · exact ⟨passes, hran.inputs.trans (List.append_nil _).symm, hran.inPass⟩
    · exact ⟨passes, hran.inputs.trans (List.append_nil _).symm, hran.inPass⟩

theorem served_replies (d : Daemon) (pass : Pass) : (d.served clock pass).replies.map (·.1) =
    d.replies.map (·.1) ++ pass.requests.map (·.1.reply) := by
  unfold Daemon.served
  induction pass.requests generalizing d with
  | nil => simp
  | cons request requests ih =>
    obtain ⟨pending, hasher, offerHasher⟩ := request
    rw [List.foldl_cons, ih]
    rcases handleRestore_cases clock hasher offerHasher d pending with
      ⟨_, _, -, -, hd⟩ | ⟨_, -, hd⟩ <;> simp [hd]

/-- The requests of a run are answered in their order. -/
theorem run_replies (d : Daemon) (passes : List Pass) : (d.run clock passes).replies.map (·.1) =
    d.replies.map (·.1) ++ (passes.flatMap (·.requests)).map (·.1.reply) := by
  refine run_induct (motive := fun passes d' => d'.replies.map (·.1) =
    d.replies.map (·.1) ++ (passes.flatMap (·.requests)).map (·.1.reply)) clock d (by simp)
    (fun passes pass ih => ?_) passes
  obtain ⟨d', _, hstep, hreplies, -⟩ := step_worked clock (d.run clock passes) pass
  rw [hstep, served_replies, hreplies, ih]
  simp

theorem foldl_outcome_frame (d : Daemon) (outcomes : List ReadOutcome) :
    (outcomes.foldl (Daemon.outcome clock) d).replies = d.replies ∧
      (outcomes.foldl (Daemon.outcome clock) d).app.requests = d.app.requests ∧
      d.events <+: (outcomes.foldl (Daemon.outcome clock) d).events := by
  induction outcomes generalizing d with
  | nil => exact ⟨rfl, rfl, List.prefix_rfl⟩
  | cons outcome outcomes ih =>
    obtain ⟨hreplies, hrequests, hevents⟩ := ih (d.outcome clock outcome)
    exact ⟨hreplies.trans (look_frame clock d outcome).1,
      hrequests.trans (look_frame clock d outcome).2,
      (outcome_events clock d outcome).trans hevents⟩

theorem InPass.daemon {passes : List Pass} {thread : Thread} {d : Daemon}
    (h : InPass clock d₀ passes thread d)
    (hthread : ∀ unsent outcomes, thread ≠ .looking unsent outcomes) :
    d = d₀.run clock passes := by
  cases h with
  | setup => rfl
  | polling | gone => rfl
  | looking => exact absurd rfl (hthread _ _)
  | serving | restoring | replying => exact run_step clock d₀ _ _

/-- In the middle of a pass the daemon is on the way to its end. -/
theorem InPass.ahead {passes : List Pass} {thread : Thread} {d : Daemon}
    (h : InPass clock d₀ passes thread d) :
    d.replies = (d₀.run clock passes).replies ∧
      d.app.requests = (d₀.run clock passes).app.requests ∧
      d.events <+: (d₀.run clock passes).events := by
  by_cases hthread : ∀ unsent outcomes, thread ≠ .looking unsent outcomes
  · rw [h.daemon hthread]
    exact ⟨rfl, rfl, List.prefix_rfl⟩
  · cases h with
    | looking passes pass looked hidle hall =>
      rename_i unsent outcomes
      have hrest := @foldl_outcome_frame clock (looked.foldl (Daemon.outcome clock)
        (((d₀.run clock passes).dispatched pass).drained pass).1) outcomes
      have hend : d₀.run clock (passes ++ [pass]) = outcomes.foldl (Daemon.outcome clock)
          (looked.foldl (Daemon.outcome clock)
            (((d₀.run clock passes).dispatched pass).drained pass).1) := by
        rw [← run_step, ← List.foldl_append, ← hall]
        simp only [Daemon.step, Daemon.served, hidle, List.foldl_nil]
      rw [hend]
      exact ⟨hrest.1.symm, hrest.2.1.symm, hrest.2.2⟩
    | _ => exact absurd (by simp) hthread

end Server

/-- The server simulates the loop: however the tasks interleave with the thread,
the passes it has begun are of the inputs of its drains, they serve the requests
it has answered, what has been pushed is part of what they announce, and but for
a pass that is still looking at its arrivals the daemon is what they make of it. -/
theorem thread_runs_loop {clock : Clock} {serde : Serde} {seat manager device : Global}
    {labels : List ServerAct} {s : Server}
    (h : (serverSystem clock serde seat manager device).Run labels s) :
    ∃ passes : List Pass,
      passes.map (fun pass => (pass.events, pass.io, pass.drain)) =
        labels.filterMap Server.input ∧
      (passes.flatMap (·.requests)).map (·.1.reply) = s.daemon.replies.map (·.1) ∧
      s.pushed <+: (Daemon.run clock (.start seat manager device) passes).events ∧
      ((∀ unsent outcomes, s.thread ≠ .looking unsent outcomes) →
        s.daemon = Daemon.run clock (.start seat manager device) passes) := by
  obtain ⟨passes, hinputs, hpass⟩ := Server.run_ran h
  obtain ⟨hreplies, -, hevents⟩ := hpass.ahead
  refine ⟨passes, hinputs, ?_, hevents, fun hthread => ?_⟩
  · have hrun := @Server.run_replies clock (.start seat manager device) passes
    rw [← hreplies] at hrun
    exact hrun.symm
  · have hsent : s.unsent = [] := by
      unfold Server.unsent
      split
      · exact absurd ‹_› (hthread _ _)
      · rfl
    rw [← Server.whole_of_sent hsent]
    exact hpass.daemon hthread

theorem executed_runs_loop : ∃ s passes,
    sampleRun (copyRun ++ [.accept, .client 0 (.line restoreLine), .client 0 .send] ++
      executeRun) = some s ∧ passes.length = 2 ∧
      s.daemon = Daemon.run .still (.start 0 1 2) passes ∧
      s.daemon.replies = [(0, .restored 1)] := by
  have hrun : (sampleRun (copyRun ++ [.accept, .client 0 (.line restoreLine), .client 0 .send] ++
      executeRun)).any (fun s => s.daemon.replies = [(0, .restored 1)] ∧ s.thread = .serving) =
      true := by
    decide +kernel
  obtain ⟨s, hs, hstate⟩ := (Option.any_eq_true _ _).mp hrun
  obtain ⟨hreplies, hthread⟩ := of_decide_eq_true hstate
  obtain ⟨passes, hinputs, -, -, hdaemon⟩ := thread_runs_loop (System.run_exec hs)
  have hlength := congrArg List.length hinputs
  rw [List.length_map] at hlength
  exact ⟨s, passes, hs, hlength, hdaemon (by simp [hthread]), hreplies⟩

end Uclip
