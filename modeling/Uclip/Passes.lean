import Uclip.Effects
import Uclip.LoopLaws

/-!
# The rules of a pass

What the effects of the handlers, the drain and the restores keep is kept by a
whole pass, and with it by every run.
-/

namespace Uclip

variable {s : AppState} {P : AppState → Prop} (clock : Clock)

theorem mem_publishRequests {request : Request} {source : Source} {contents : Blobs}
    {mimes : List String} {old : Option Source}
    (h : request ∈ AppState.publishRequests source contents mimes old) :
    request = .createDataSource source ⟨contents⟩ ∨
      (∃ mime ∈ mimes, request = .offer source mime) ∨ request = .setSelection source ∨
      ∃ replaced, old = some replaced ∧ request = .destroySource replaced := by
  simp only [AppState.publishRequests, List.mem_cons, List.mem_append, List.mem_map,
    Option.mem_toList] at h
  rcases h with rfl | ⟨mime, hmime, rfl⟩ | rfl | ⟨replaced, hold, rfl⟩
  · exact .inl rfl
  · exact .inr (.inl ⟨mime, hmime, rfl⟩)
  · exact .inr (.inr (.inl rfl))
  · exact .inr (.inr (.inr ⟨replaced, hold, rfl⟩))

theorem served_induct {d : Daemon} {pass : Pass} (h : P d.app)
    (publish : ∀ s entry hasher offerHasher, P s → entry ∈ s.clipboard.entries →
      s.device.isSome → P (s.publish offerHasher (AppState.sourceContents hasher entry.content))) :
    P (d.served clock pass).app := by
  unfold Daemon.served
  induction pass.requests generalizing d with
  | nil => exact h
  | cons request requests ih =>
    obtain ⟨pending, hasher, offerHasher⟩ := request
    refine ih ?_
    change P (d.handleRestore clock hasher offerHasher pending).app
    rcases handleRestore_cases clock hasher offerHasher d pending with
      ⟨entry, app, -, hok, hd⟩ | ⟨_, -, hd⟩ <;> rw [hd]
    · obtain ⟨entry, hget, -, hdevice, rfl⟩ := AppState.restoreEntry_eq_ok hok
      exact publish _ entry hasher offerHasher h (ClipState.mem_of_get hget).1 hdevice
    · exact h

/-- Between the handlers of a pass and its requests the queue of reads is
emptied, the types of what was read are dropped, and the history changes. -/
theorem step_worked (d : Daemon) (pass : Pass) : ∃ (d' : Daemon) (clipboard : ClipState),
    d.step clock pass = d'.served clock pass ∧ d'.replies = d.replies ∧
      d'.app = { (d.dispatched pass).app with
        offers := (drainPendingReads pass.drain (d.dispatched pass).app).1.offers
        clipboard
        pendingReads := [] } := by
  have ho := outcomes_effect clock (d.arrivals pass) (arrivals_pairwise d pass) (d.filled pass)
    (namedBy_arrivals d pass)
  obtain ⟨clipboard, happ, -⟩ := ho.app
  obtain ⟨offers, _, hdrain⟩ := drain_frame pass.drain (d.dispatched pass).app
  have hfilled : (d.filled pass).app = (drainPendingReads pass.drain (d.dispatched pass).app).1 :=
    rfl
  rw [hfilled, hdrain] at happ
  exact ⟨_, clipboard, step_eq clock d pass, ho.replies, by rw [happ, hdrain]⟩

/-- The rule of a pass. -/
theorem step_induct {d : Daemon} {pass : Pass} (h : P d.app)
    (next : ∀ event ∈ pass.events, ∀ s s', P s → Effect pass.io event s s' → P s')
    (drain : ∀ s offers clipboard, P s → P { s with offers, clipboard, pendingReads := [] })
    (publish : ∀ s entry hasher offerHasher, P s → entry ∈ s.clipboard.entries →
      s.device.isSome → P (s.publish offerHasher (AppState.sourceContents hasher entry.content))) :
    P (d.step clock pass).app := by
  obtain ⟨d', clipboard, hstep, -, happ⟩ := step_worked clock d pass
  rw [hstep]
  refine served_induct clock ?_ publish
  rw [happ]
  exact drain _ _ clipboard (dispatchPending_induct h next)

theorem step_sent (d : Daemon) (pass : Pass) :
    d.app.requests <+: (d.step clock pass).app.requests := by
  refine step_induct clock (P := fun s => d.app.requests <+: s.requests) List.prefix_rfl
    (fun _ _ _ _ h he => h.trans he.sent) (fun _ _ _ h => h)
    fun s entry hasher offerHasher h _ _ => ?_
  rw [AppState.publish_eq]
  exact h.trans (List.prefix_append ..)

theorem run_induct {motive : List Pass → Daemon → Prop} (d : Daemon) (start : motive [] d)
    (next : ∀ passes pass, motive passes (d.run clock passes) →
      motive (passes ++ [pass]) ((d.run clock passes).step clock pass)) (passes : List Pass) :
    motive passes (d.run clock passes) := by
  induction passes using List.reverseRecOn with
  | nil => exact start
  | append_singleton passes pass ih =>
    have hstep := next passes pass ih
    rwa [run_step] at hstep

theorem run_sent (d : Daemon) (passes : List Pass) :
    d.app.requests <+: (d.run clock passes).app.requests :=
  run_induct (motive := fun _ d' => d.app.requests <+: d'.app.requests) clock d
    List.prefix_rfl (fun _ pass h => h.trans (step_sent clock _ pass)) passes

end Uclip
