import Mathlib.Data.Fintype.EquivFin
import Uclip.Compositor
import Uclip.RequestLaws
import Uclip.Stored

/-!
# Reading our own source

A `Send` to ourselves is handled by `dispatch_pending` only, and the drain that
waits for its pipe stands between two of those. So once the compositor is asked
for the bytes of a live source of ours, the drain never ends; and nothing else
makes it wait for ourselves.
-/

namespace Uclip

open Text (Bytes)

-- ---------------------------------------------------------------------------
-- What the compositor does
-- ---------------------------------------------------------------------------

namespace World

/-- The daemon and its phase are left alone, and the events sent to it carry no
pipe but the ones in `fds`. -/
structure Notified (w w' : World) (fds : List Fd) : Prop where
  daemon : w'.daemon = w.daemon
  phase : w'.phase = w.phase
  events : ∃ sent, w'.events = w.events ++ sent ∧
    ∀ source mime fd, .send source mime (.ours fd) ∈ sent → fd ∈ fds

theorem Notified.refl (w : World) : w.Notified w [] := ⟨rfl, rfl, [], by simp, by simp⟩

theorem send_not_mem_selectionEvents (offer : Offer) (mimes : List String) (mime : String) :
    .send source mime fd ∉ selectionEvents offer mimes := by
  simp [selectionEvents]

theorem announce_notified {w w' : World} (h : w.announce who offer mimes = some w') :
    w.Notified w' [] := by
  unfold announce at h
  split at h
  · cases h
    refine ⟨?_, ?_, ?_⟩
    · unfold replaceSelection
      split <;> rfl
    · unfold replaceSelection
      split <;> rfl
    · unfold replaceSelection
      split
      · refine ⟨_, List.append_assoc .., fun source mime fd hm => ?_⟩
        rcases List.mem_append.mp hm with hm | hm
        · simp at hm
        · exact absurd hm (send_not_mem_selectionEvents offer mimes mime)
      · exact ⟨_, rfl, fun source mime fd hm =>
          absurd hm (send_not_mem_selectionEvents offer mimes mime)⟩
  · cases h

theorem handleRequest_notified {w w' : World}
    (h : w.handleRequest announced mimes request = some w') :
    w.Notified w' [] ∨ ∃ offer mime fd, request = .receive offer mime fd ∧
      (w.live offer).isSome ∧ w.Notified w' [fd] := by
  cases request with
  | setSelection source =>
    simp only [handleRequest] at h
    split at h
    · exact .inl (announce_notified h)
    · cases h
  | destroySource source =>
    simp only [handleRequest] at h
    split at h
    · cases h
      exact .inl ⟨rfl, rfl, _, rfl, by simp⟩
    · cases h
      exact .inl ⟨rfl, rfl, [], by simp, by simp⟩
  | receive offer mime fd =>
    simp only [handleRequest] at h
    split at h
    · rename_i source hlive
      cases h
      exact .inr ⟨offer, mime, fd, rfl, by simp [hlive], rfl, rfl, _, rfl, by simp⟩
    · cases h
      exact .inl ⟨rfl, rfl, [], by simp, by simp⟩
    · cases h
      exact .inl (.refl w)
  | _ =>
    cases h
    exact .inl (.refl w)

-- ---------------------------------------------------------------------------
-- One step
-- ---------------------------------------------------------------------------

inductive Turn (clock : Clock) (w : World) : World → Prop
  | beginDispatch (io : RequestIo) : w.phase = .waiting →
      Turn clock w { w with phase := .dispatching io w.events, events := [] }
  | handle {io event queue} : w.phase = .dispatching io (event :: queue) →
      Turn clock w { w with
        daemon := { w.daemon with app := dispatch io w.daemon.app event }
        phase := .dispatching io queue }
  | beginDrain {io} : w.phase = .dispatching io [] →
      Turn clock w { w with phase := .draining w.daemon.app.pendingReads }
  | endRead {read reads} : w.phase = .draining (read :: reads) →
      Turn clock w { w with phase := .draining reads }
  | endDrain (env : DrainEnv) : w.phase = .draining [] →
      Turn clock w { w with
        daemon := w.daemon.step clock { drain := env }
        phase := .serving }
  | restore (pending : PendingRestore) (hasher offerHasher : Hasher String Bytes) :
      w.phase = .serving →
      Turn clock w { w with daemon := w.daemon.handleRestore clock hasher offerHasher pending }
  | flush : w.phase = .serving → Turn clock w { w with phase := .waiting }

/-- A step is one of the thread, or sends it something; a write end only where
the compositor answers a `receive` on an offer of a live source of ours. -/
theorem act_cases {w w' : World} (h : w.act clock a = some w') :
    w.Turn clock w' ∨ w.Notified w' [] ∨
      ∃ announced mimes offer mime fd, a = .compositor announced mimes ∧
        w.daemon.app.requests[w.handled]? = some (.receive offer mime fd) ∧
        (w.live offer).isSome ∧ w.Notified w' [fd] := by
  cases a with
  | beginDispatch io =>
    simp only [act] at h
    split at h
    · cases h
      exact .inl (.beginDispatch io ‹_›)
    · cases h
  | handle =>
    simp only [act] at h
    split at h
    · cases h
      exact .inl (.handle ‹_›)
    · cases h
  | beginDrain =>
    simp only [act] at h
    split at h
    · cases h
      exact .inl (.beginDrain ‹_›)
    · cases h
  | endRead =>
    simp only [act] at h
    split at h
    · split at h
      · cases h
        exact .inl (.endRead ‹_›)
      · cases h
    · cases h
  | endDrain env =>
    simp only [act] at h
    split at h
    · cases h
      exact .inl (.endDrain env ‹_›)
    · cases h
  | restore pending hasher offerHasher =>
    simp only [act] at h
    split at h
    · cases h
      exact .inl (.restore pending hasher offerHasher ‹_›)
    · cases h
  | flush =>
    simp only [act] at h
    split at h
    · cases h
      exact .inl (.flush ‹_›)
    · cases h
  | compositor announced mimes =>
    simp only [act] at h
    split at h
    · rename_i request hreq
      rcases handleRequest_notified h with hn | ⟨offer, mime, fd, rfl, hlive, hn⟩
      · exact .inr (.inl ⟨hn.daemon, hn.phase, hn.events⟩)
      · exact .inr (.inr ⟨announced, mimes, offer, mime, fd, rfl, hreq, hlive,
          hn.daemon, hn.phase, hn.events⟩)
    · cases h
  | copy client offer mimes => exact .inr (.inl (announce_notified h))
  | paste client mimeType =>
    simp only [act] at h
    split at h
    · cases h
      exact .inr (.inl ⟨rfl, rfl, _, rfl, by simp⟩)
    · cases h
  | close fd =>
    cases h
    exact .inr (.inl ⟨rfl, rfl, [], by simp, by simp⟩)
  | notify event =>
    simp only [act] at h
    split at h
    · rename_i hn
      cases h
      refine .inr (.inl ⟨rfl, rfl, _, rfl, fun source mime fd hmem => ?_⟩)
      cases List.mem_singleton.mp hmem
      cases hn
    · cases h

-- ---------------------------------------------------------------------------
-- Pipes
-- ---------------------------------------------------------------------------

theorem inSend_iff {w : World} : w.inSend fd = true ↔
    ∃ source mime, .send source mime (.ours fd) ∈ w.events ++ w.phase.queue := by
  simp only [inSend, List.any_eq_true]
  constructor
  · rintro ⟨event, hmem, he⟩
    cases event with
    | send source mime fd' =>
      cases fd' with
      | ours fd' =>
        cases of_decide_eq_true he
        exact ⟨source, mime, hmem⟩
      | theirs _ => cases he
    | _ => cases he
  · rintro ⟨source, mime, hmem⟩
    exact ⟨_, hmem, by simp⟩

structure Moves (w w' : World) (fds : List Fd) : Prop where
  pipes : w.daemon.app.pipes ≤ w'.daemon.app.pipes
  unread : ∀ read ∈ w'.unread, read ∈ w.unread ∨ w.daemon.app.pipes ≤ read.fd
  receives : ∀ offer mime fd, .receive offer mime fd ∈ w'.daemon.app.requests →
    .receive offer mime fd ∈ w.daemon.app.requests ∨ fd < w'.daemon.app.pipes
  inSend : ∀ fd, w'.inSend fd = true → w.inSend fd = true ∨ fd ∈ fds

theorem Notified.moves {w w' : World} (h : w.Notified w' fds) : w.Moves w' fds := by
  obtain ⟨hd, hp, sent, hev, hsent⟩ := h
  refine ⟨by rw [hd], ?_, fun _ _ _ => by rw [hd]; exact .inl, fun fd hfd => ?_⟩
  · intro read hread
    rw [World.unread, hd, hp] at hread
    exact .inl hread
  · obtain ⟨source, mime, hmem⟩ := inSend_iff.mp hfd
    rw [hev, hp] at hmem
    simp only [List.mem_append] at hmem
    rcases hmem with (hmem | hmem) | hmem
    · exact .inl (inSend_iff.mpr ⟨source, mime, List.mem_append_left _ hmem⟩)
    · exact .inr (hsent source mime fd hmem)
    · exact .inl (inSend_iff.mpr ⟨source, mime, List.mem_append_right _ hmem⟩)

theorem Moves.of_asks {w w' : World} (h : w.daemon.app.Asks w'.daemon.app)
    (hr : ∀ read ∈ w'.unread, read ∈ w.unread ∨ w.daemon.app.pipes ≤ read.fd)
    (hs : ∀ event ∈ w'.events ++ w'.phase.queue, event ∈ w.events ++ w.phase.queue) :
    w.Moves w' [] where
  pipes := h.pipes
  unread := hr
  receives := h.receives
  inSend fd hfd := by
    obtain ⟨source, mime, hmem⟩ := inSend_iff.mp hfd
    exact .inl (inSend_iff.mpr ⟨source, mime, hs _ hmem⟩)

theorem Moves.of_phase {w w' : World} (hd : w'.daemon = w.daemon)
    (hr : ∀ read ∈ w'.unread, read ∈ w.unread)
    (hs : ∀ event ∈ w'.events ++ w'.phase.queue, event ∈ w.events ++ w.phase.queue) :
    w.Moves w' [] :=
  .of_asks (hd ▸ .of_eq rfl rfl rfl) (fun read hread => .inl (hr read hread)) hs

theorem Turn.moves {w w' : World} (h : w.Turn clock w') : w.Moves w' [] := by
  cases h with
  | beginDispatch io hp =>
    exact .of_phase rfl (by simp [World.unread, hp]) (by simp [Phase.queue, hp])
  | @handle io event queue hp =>
    have hasks := AppState.Asks.dispatch io w.daemon.app event
    refine .of_asks hasks (by simpa [World.unread, hp] using hasks.reads) ?_
    simp only [Phase.queue, hp, List.mem_append, List.mem_cons]
    rintro e (he | he)
    · exact .inl he
    · exact .inr (.inr he)
  | beginDrain hp =>
    exact .of_phase rfl (by simp [World.unread, hp]) (by simp [Phase.queue, hp])
  | endRead hp =>
    refine .of_phase rfl (fun r hr => ?_) (by simp [Phase.queue, hp])
    simpa [World.unread, hp] using .inr hr
  | endDrain env hp =>
    obtain ⟨offers, clipboard, happ⟩ :=
      (step_frame clock w.daemon (show Pass.requests { drain := env } = [] from rfl)).1
    refine ⟨?_, ?_, ?_, ?_⟩
    · rw [happ]
      exact Nat.le_refl _
    · simp [World.unread, happ]
    · rw [happ]
      exact fun _ _ _ => .inl
    · exact fun fd hfd => .inl (by simpa [World.inSend, Phase.queue, hp] using hfd)
  | restore pending hasher offerHasher hp =>
    have hasks := AppState.Asks.handleRestore clock hasher offerHasher w.daemon pending
    exact .of_asks hasks (by simpa [World.unread, hp] using hasks.reads) (by simp)
  | flush hp => exact .of_phase rfl (by simp [World.unread, hp]) (by simp [Phase.queue, hp])

structure OwnPipes (w : World) : Prop where
  sent : ∀ fd, w.inSend fd = true → fd < w.daemon.app.pipes
  asked : ∀ offer mime fd, .receive offer mime fd ∈ w.daemon.app.requests →
    fd < w.daemon.app.pipes

theorem Moves.ownPipes {w w' : World} (hi : w.OwnPipes) (h : w.Moves w' fds)
    (hfds : ∀ fd ∈ fds, fd < w.daemon.app.pipes) : w'.OwnPipes where
  sent fd hfd := by
    rcases h.inSend fd hfd with hfd | hfd
    · exact (hi.sent fd hfd).trans_le h.pipes
    · exact (hfds fd hfd).trans_le h.pipes
  asked offer mime fd hreq := by
    rcases h.receives offer mime fd hreq with hreq | hlt
    · exact (hi.asked offer mime fd hreq).trans_le h.pipes
    · exact hlt

theorem act_ownPipes {w w' : World} (hi : w.OwnPipes) (h : w.act clock a = some w') :
    w'.OwnPipes := by
  rcases act_cases h with ht | hn | ⟨_, _, offer, mime, fd, -, hreq, -, hn⟩
  · exact ht.moves.ownPipes hi (by simp)
  · exact hn.moves.ownPipes hi (by simp)
  · refine hn.moves.ownPipes hi ?_
    simpa using hi.asked offer mime fd (List.mem_of_getElem? hreq)

/-- No read that is still to be made waits for a `Send` to ourselves. -/
def Clear (w : World) : Prop := ∀ read ∈ w.unread, w.inSend read.fd = false

theorem Moves.clear {w w' : World} (hi : w.OwnPipes) (hc : w.Clear) (h : w.Moves w' fds)
    (hfds : ∀ fd ∈ fds, fd < w.daemon.app.pipes ∧ ∀ read ∈ w.unread, read.fd ≠ fd) :
    w'.Clear := by
  intro read hread
  rw [Bool.eq_false_iff]
  intro hsend
  rcases h.inSend read.fd hsend with hsend | hfd
  · rcases h.unread read hread with hread | hle
    · exact Bool.false_ne_true ((hc read hread).symm.trans hsend)
    · exact absurd (hi.sent read.fd hsend) (Nat.not_lt.mpr hle)
  · obtain ⟨hlt, hne⟩ := hfds read.fd hfd
    rcases h.unread read hread with hread | hle
    · exact hne read hread rfl
    · exact absurd hlt (Nat.not_lt.mpr hle)

theorem act_clear {w w' : World} (hi : w.OwnPipes) (hc : w.Clear) (h : w.act clock a = some w')
    (hok : ¬ w.AsksItself a) : w'.Clear := by
  rcases act_cases h with ht | hn | ⟨announced, mimes, offer, mime, fd, rfl, hreq, hlive, hn⟩
  · exact ht.moves.clear hi hc (by simp)
  · exact hn.moves.clear hi hc (by simp)
  · refine hn.moves.clear hi hc ?_
    simp only [List.mem_singleton, forall_eq]
    refine ⟨hi.asked offer mime fd (List.mem_of_getElem? hreq), ?_⟩
    rintro read hread rfl
    exact hok ⟨offer, mime, read, hread, hlive, hreq⟩

theorem Clear.not_selfBlocked {w : World} (h : w.Clear) : ¬ w.SelfBlocked := by
  rintro ⟨read, hread, hsend, -, -⟩
  have hmem : read ∈ w.unread := by
    unfold reading at hread
    split at hread
    · rename_i reads hp
      simpa [World.unread, hp] using List.mem_of_head? hread
    · cases hread
  exact Bool.false_ne_true ((h read hmem).symm.trans hsend)

-- ---------------------------------------------------------------------------
-- The thread runs the loop
-- ---------------------------------------------------------------------------

/-- The daemon at some point of a pass, after some passes of the loop. -/
inductive InRun (clock : Clock) (d₀ : Daemon) : Phase → Daemon → Prop
  | waiting (passes : List Pass) : InRun clock d₀ .waiting (d₀.run clock passes)
  | dispatching {queue} (passes : List Pass) (io : RequestIo) (events : List Event) :
      InRun clock d₀ (.dispatching io queue) { d₀.run clock passes with
        app := dispatchPending io (d₀.run clock passes).app events }
  | draining {reads} (passes : List Pass) (io : RequestIo) (events : List Event) :
      InRun clock d₀ (.draining reads) { d₀.run clock passes with
        app := dispatchPending io (d₀.run clock passes).app events }
  | serving (passes : List Pass) (pass : Pass) :
      InRun clock d₀ .serving ((d₀.run clock passes).step clock pass)

theorem Turn.inRun {w w' : World} (ht : w.Turn clock w') (h : InRun clock d₀ w.phase w.daemon) :
    InRun clock d₀ w'.phase w'.daemon := by
  generalize hd : w.daemon = d at h
  cases ht with
  | beginDispatch io hp =>
    rw [hp] at h
    cases h with | waiting passes =>
    simp only [hd]
    exact .dispatching passes io []
  | @handle io event queue hp =>
    rw [hp] at h
    cases h with | dispatching passes io events =>
    have hlast : dispatch io (dispatchPending io (d₀.run clock passes).app events) event =
        dispatchPending io (d₀.run clock passes).app (events ++ [event]) := by
      simp [dispatchPending]
    simp only [hd, hlast]
    exact .dispatching passes io (events ++ [event])
  | beginDrain hp =>
    rw [hp] at h
    cases h with | dispatching passes _ events =>
    simp only [hd]
    exact .draining passes _ events
  | endRead hp =>
    rw [hp] at h
    cases h with | draining passes io events =>
    simp only [hd]
    exact .draining passes io events
  | endDrain env hp =>
    rw [hp] at h
    cases h with | draining passes io events =>
    simp only [hd]
    exact .serving passes { events, io, drain := env }
  | restore pending hasher offerHasher hp =>
    rw [hp] at h
    cases h with | serving passes pass =>
    rw [hp, hd, step_served]
    exact .serving passes _
  | flush hp =>
    rw [hp] at h
    cases h with | serving passes pass =>
    simp only [hd, run_step]
    exact .waiting _

theorem Notified.inRun {w w' : World} (hn : w.Notified w' fds)
    (h : InRun clock d₀ w.phase w.daemon) : InRun clock d₀ w'.phase w'.daemon := by
  rw [hn.phase, hn.daemon]
  exact h

theorem reachable_inRun {w : World} (h : (compositorSystem clock seat manager device).Reachable w) :
    InRun clock (Daemon.start seat manager device) w.phase w.daemon := by
  refine h.induct (motive := fun w => InRun clock _ w.phase w.daemon) ?_
    fun w a w' _ ih hstep => ?_
  · rintro _ rfl
    exact .waiting []
  · rcases act_cases hstep with ht | hn | ⟨_, _, _, _, _, -, -, -, hn⟩
    · exact ht.inRun ih
    · exact hn.inRun ih
    · exact hn.inRun ih

theorem InRun.idle (h : InRun clock (Daemon.start seat manager device) p d)
    (hp : p = .waiting ∨ p = .serving) : d.app.pendingReads = [] := by
  have hrun (passes : List Pass) : Settled ((Daemon.start seat manager device).run clock passes) :=
    settled_run clock _ passes (settled_start seat manager device)
  cases h with
  | waiting passes => exact (hrun passes).idle
  | serving passes pass => exact (settled_step clock _ pass (hrun passes)).idle
  | _ => simp at hp

-- ---------------------------------------------------------------------------
-- A read of our own source never ends
-- ---------------------------------------------------------------------------

/-- A read that is still to be made waits for a `Send` that the next
`dispatch_pending` would handle. -/
structure Waits (w : World) (read : PendingRead) : Prop where
  unread : read ∈ w.unread
  sent : ∃ source mime, .send source mime (.ours read.fd) ∈ w.events

section Leads

variable {clock : Clock} {seat manager device : Global} {w : World} {read : PendingRead}

def Leads (clock : Clock) (seat manager device : Global) (w : World) : Prop :=
  ∃ t, (compositorSystem clock seat manager device).Steps (fun _ => True) w t ∧ t.SelfBlocked

theorem Leads.step {w' : World} (hstep : w.act clock a = some w')
    (h : Leads clock seat manager device w') : Leads clock seat manager device w :=
  let ⟨t, hsteps, ht⟩ := h
  ⟨t, .head trivial hstep hsteps, ht⟩

theorem leads_of_reads (hp : w.phase = .draining reads) (hw : w.Waits read)
    (hall : w.daemon.app.requests.length ≤ w.handled) (hout : w.writers = []) :
    Leads clock seat manager device w := by
  have hflight (fd : Fd) : w.inFlight fd = false := by
    rw [inFlight, List.drop_of_length_le hall, List.any_nil]
  have hunread : read ∈ reads := by simpa [World.unread, hp] using hw.unread
  induction reads generalizing w with
  | nil => cases hunread
  | cons head reads ih =>
    by_cases hself : w.inSend head.fd = true
    · exact ⟨w, .refl, head, by simp [reading, hp], hself, hflight head.fd, by simp [hout]⟩
    · have hend : w.act clock .endRead = some { w with phase := .draining reads } := by
        simp [act, hp, hflight, Bool.eq_false_iff.mpr hself]
      refine .step hend ?_
      rcases List.mem_cons.mp hunread with rfl | hunread
      · obtain ⟨source, mime, hsent⟩ := hw.sent
        exact absurd (inSend_iff.mpr ⟨source, mime, List.mem_append_left _ hsent⟩) hself
      · exact ih (w := { w with phase := .draining reads }) rfl ⟨by simpa [World.unread], hw.sent⟩
          hall hout hflight hunread

/-- The clients close what they hold. -/
theorem leads_of_handled (hp : w.phase = .draining reads) (hw : w.Waits read)
    (hall : w.daemon.app.requests.length ≤ w.handled) : Leads clock seat manager device w := by
  generalize hout : w.writers = writers
  induction writers generalizing w with
  | nil => exact leads_of_reads hp hw hall hout
  | cons fd writers ih =>
    have hclose : w.act clock (.close fd) = some { w with writers } := by
      simp [act, hout]
    exact .step hclose (ih (w := { w with writers }) hp ⟨hw.unread, hw.sent⟩ hall rfl)

theorem exists_fresh (w : World) : ∃ offer, w.owner offer = none := by
  obtain ⟨serial, hserial⟩ :=
    Infinite.exists_notMem_finset (w.offers.map (·.1.serial)).toFinset
  refine ⟨⟨0, serial⟩, List.lookup_eq_none_iff.mpr ?_⟩
  rintro ⟨offer, who⟩ hmem
  rw [bne_iff_ne]
  rintro rfl
  exact hserial (List.mem_toFinset.mpr (List.mem_map_of_mem hmem))

theorem handleRequest_total (w : World) (request : Request) :
    ∃ announced mimes w', w.handleRequest announced mimes request = some w' ∧
      w'.handled = w.handled := by
  cases request with
  | setSelection source =>
    obtain ⟨offer, hfresh⟩ := w.exists_fresh
    refine ⟨offer, w.offeredBy source, _,
      (if_pos (List.isPerm_iff.mpr (.refl _))).trans (if_pos hfresh), ?_⟩
    dsimp only
    unfold replaceSelection
    split <;> rfl
  | destroySource source =>
    simp only [handleRequest]
    split
    · exact ⟨⟨0, 0⟩, [], _, rfl, rfl⟩
    · exact ⟨⟨0, 0⟩, [], _, rfl, rfl⟩
  | receive offer mime fd =>
    simp only [handleRequest]
    split
    · exact ⟨⟨0, 0⟩, [], _, rfl, rfl⟩
    · exact ⟨⟨0, 0⟩, [], _, rfl, rfl⟩
    · exact ⟨⟨0, 0⟩, [], _, rfl, rfl⟩
  | _ => exact ⟨⟨0, 0⟩, [], _, rfl, rfl⟩

theorem Waits.notified {w' : World} (hw : w.Waits read) (hn : w.Notified w' fds) :
    w'.Waits read := by
  obtain ⟨hunread, source, mime, hsent⟩ := hw
  obtain ⟨hd, hp, sent, hev, -⟩ := hn
  refine ⟨?_, source, mime, ?_⟩
  · rw [World.unread, hd, hp]
    exact hunread
  · rw [hev]
    exact List.mem_append_left _ hsent

theorem leads_of_draining (hp : w.phase = .draining reads) (hw : w.Waits read) :
    Leads clock seat manager device w := by
  generalize hn : w.daemon.app.requests.length - w.handled = n
  induction n generalizing w with
  | zero => exact leads_of_handled hp hw (Nat.sub_eq_zero_iff_le.mp hn)
  | succ n ih =>
    have hlt : w.handled < w.daemon.app.requests.length := by omega
    obtain ⟨announced, mimes, w', hreq, hhandled⟩ :=
      { w with handled := w.handled + 1 }.handleRequest_total w.daemon.app.requests[w.handled]
    have hstep : w.act clock (.compositor announced mimes) = some w' := by
      simp only [act, List.getElem?_eq_getElem hlt]
      exact hreq
    have hnot : ∃ fds, w.Notified w' fds := by
      rcases handleRequest_notified hreq with hn | ⟨_, _, fd, -, -, hn⟩
      · exact ⟨[], hn.daemon, hn.phase, hn.events⟩
      · exact ⟨[fd], hn.daemon, hn.phase, hn.events⟩
    obtain ⟨fds, hnot⟩ := hnot
    refine .step hstep (ih (hnot.phase.trans hp) (hw.notified hnot) ?_)
    rw [hnot.daemon, hhandled]
    dsimp only
    omega

theorem leads_of_dispatching (hp : w.phase = .dispatching io queue) (hw : w.Waits read) :
    Leads clock seat manager device w := by
  induction queue generalizing w with
  | nil =>
    have hstep : w.act clock .beginDrain =
        some { w with phase := .draining w.daemon.app.pendingReads } := by
      simp only [act, hp]
    refine .step hstep (leads_of_draining rfl ⟨?_, hw.sent⟩)
    simpa [World.unread, hp] using hw.unread
  | cons event queue ih =>
    have hstep : w.act clock .handle = some { w with
        daemon := { w.daemon with app := dispatch io w.daemon.app event }
        phase := .dispatching io queue } := by
      simp only [act, hp]
    refine .step hstep (ih rfl ⟨?_, hw.sent⟩)
    have hunread : read ∈ w.daemon.app.pendingReads := by
      simpa [World.unread, hp] using hw.unread
    exact (AppState.Asks.dispatch io w.daemon.app event).kept read hunread

theorem leads_of_waits {w' : World}
    (hw : (compositorSystem clock seat manager device).Reachable w) (hread : read ∈ w.unread)
    (hp : w'.phase = w.phase) (hwaits : w'.Waits read) :
    Leads clock seat manager device w' := by
  cases hphase : w.phase with
  | waiting | serving =>
    have hidle := (reachable_inRun hw).idle (by simp [hphase])
    simp [World.unread, hphase, hidle] at hread
  | dispatching io queue => exact leads_of_dispatching (hp.trans hphase) hwaits
  | draining reads => exact leads_of_draining (hp.trans hphase) hwaits

/-- Once the compositor is asked for the bytes of a live source of ours while
the read is to be made, the drain can block on ourselves. -/
theorem leads_of_asksItself {w' : World}
    (hw : (compositorSystem clock seat manager device).Reachable w)
    (h : w.act clock a = some w') (hask : w.AsksItself a) :
    Leads clock seat manager device w' := by
  cases a with
  | compositor announced mimes =>
    obtain ⟨offer, mime, read, hread, hlive, hreq⟩ := hask
    obtain ⟨source, hlive⟩ := Option.isSome_iff_exists.mp hlive
    have hlive' : World.live { w with handled := w.handled + 1 } offer = some source := hlive
    simp only [act, hreq, handleRequest, hlive'] at h
    cases h
    refine leads_of_waits hw hread rfl ⟨hread, source, mime, ?_⟩
    exact List.mem_append_right _ List.mem_cons_self
  | _ => exact hask.elim

end Leads

end World

open World in
/-- The thread never waits for itself in a run in which the compositor is never
asked for the bytes of a live source of the daemon's own while their read is
to be made; and from every step that asks so, it can come to wait for itself. -/
theorem never_waits_for_itself (clock : Clock) (seat manager device : Global) :
    (∀ w, ((compositorSystem clock seat manager device).restrict
        fun w a => ¬ w.AsksItself a).Reachable w → ¬ w.SelfBlocked) ∧
      ∀ w a w', (compositorSystem clock seat manager device).Reachable w → w.AsksItself a →
        w.act clock a = some w' →
        ∃ t, (compositorSystem clock seat manager device).Steps (fun _ => True) w' t ∧
          t.SelfBlocked := by
  refine ⟨fun w hw => ?_, fun w a w' hw hask h => leads_of_asksItself hw h hask⟩
  have hinv : w.OwnPipes ∧ w.Clear := by
    refine hw.induct (motive := fun w => w.OwnPipes ∧ w.Clear) ?_ fun w a w' _ ih hstep => ?_
    · rintro _ rfl
      exact ⟨⟨by simp [start, inSend, Phase.queue], by simp [start, Daemon.start, AppState.new]⟩,
        by simp [Clear, World.unread, start, Daemon.start, AppState.new]⟩
    · exact ⟨act_ownPipes ih.1 hstep.1, act_clear ih.1 ih.2 hstep.1 hstep.2⟩
  exact hinv.2.not_selfBlocked

def ownEchoRun : List Act :=
  let echo := ["text/plain;charset=utf-8", "text/plain", "UTF8_STRING", "TEXT", "STRING"]
  [.copy 7 ⟨1, 1⟩ ["text/plain"], .beginDispatch {}] ++ List.replicate 3 .handle ++
    [.beginDrain, .compositor ⟨0, 0⟩ [], .close 0, .endRead,
      .endDrain (copyPass 0 ⟨1, 1⟩ ["text/plain"] fun _ => [104, 105]).drain,
      .restore ⟨1, 0⟩ .sorted .sorted, .flush] ++
    List.replicate 6 (.compositor ⟨0, 0⟩ []) ++
    [.compositor ⟨2, 2⟩ echo, .beginDispatch {}] ++ List.replicate 7 .handle ++
    [.beginDrain, .compositor ⟨0, 0⟩ [], .compositor ⟨0, 0⟩ []]

/-- The echo of a restore is read from ourselves: the drain waits for a `Send`
that only the next pass would handle. -/
theorem own_echo_blocks : ∃ w,
    (compositorSystem .still 0 1 2).Reachable w ∧ w.SelfBlocked := by
  have hrun : (ownEchoRun.foldlM (World.act .still) (.start 0 1 2)).any (decide ·.SelfBlocked) =
      true := by
    decide +kernel
  obtain ⟨w, hw, hself⟩ := (Option.any_eq_true _ _).mp hrun
  exact ⟨w, ⟨_, System.run_exec hw⟩, of_decide_eq_true hself⟩

end Uclip
