import Mathlib.Order.Monotone.Basic
import Uclip.DrainLaws
import Uclip.Effects
import Uclip.EventLoop

/-!
# What one pass does

A pass appends the arrivals of its drain to the history, takes at most one of
them out again as the echo of the last restore, and pushes the summaries of the
others that are still held. The clock is monotonic, so whether an arrival is
the echo depends only on the flag before the pass.
-/

namespace Uclip

open Text (Bytes)

variable (clock : Clock) {d : Daemon} {id : Nat} {pass : Pass}

abbrev Daemon.history (d : Daemon) : List ClipboardEntry := d.app.clipboard.entries

-- ---------------------------------------------------------------------------
-- The echo flag
-- ---------------------------------------------------------------------------

theorem isEcho_iff :
    isEcho now flag preview = true ↔
      ∃ armed, flag = some (armed, preview) ∧ now - armed < echoSuppressMillis := by
  cases flag with
  | none => simp [isEcho]
  | some f =>
    obtain ⟨armed, expected⟩ := f
    simp only [isEcho, Bool.and_eq_true, decide_eq_true_eq, beq_iff_eq, Option.some.injEq,
      Prod.mk.injEq]
    constructor
    · rintro ⟨hfresh, rfl⟩
      exact ⟨armed, ⟨rfl, rfl⟩, hfresh⟩
    · rintro ⟨_, ⟨rfl, rfl⟩, hfresh⟩
      exact ⟨hfresh, rfl⟩

theorem pruneEcho_cases (now : Instant) (flag : Option (Instant × String)) :
    pruneEcho now flag = flag ∨
      pruneEcho now flag = none ∧ ∃ armed expected, flag = some (armed, expected) ∧
        echoSuppressMillis ≤ now - armed := by
  cases flag with
  | none => exact .inl rfl
  | some f =>
    obtain ⟨armed, expected⟩ := f
    by_cases h : echoSuppressMillis ≤ now - armed
    · exact .inr ⟨by simp [pruneEcho, isStale, h], armed, expected, rfl, h⟩
    · exact .inl (by simp [pruneEcho, isStale, Nat.lt_of_not_le h])

/-- A reading at or after a prune is not fooled by it: a pruned flag was stale. -/
theorem isEcho_pruneEcho {now later : Instant} (h : now ≤ later) :
    isEcho later (pruneEcho now flag) preview = isEcho later flag preview := by
  rcases pruneEcho_cases now flag with hp | ⟨hp, armed, expected, rfl, hstale⟩
  · rw [hp]
  · rw [hp]
    have hl : ¬ later - armed < echoSuppressMillis :=
      Nat.not_lt.mpr (hstale.trans (Nat.sub_le_sub_right h armed))
    simp [isEcho, hl]

/-- The arrival the outcome loop takes for the echo: the first one still held
that matches the flag when it is looked at. -/
def firstEcho (flag : Option (Instant × String)) (held : List ClipboardEntry) :
    Nat → List ClipboardEntry → Option ClipboardEntry
  | _, [] => none
  | ticks, e :: rest =>
    if e ∈ held ∧ isEcho (clock.reading (ticks + 1)) flag e.preview = true then some e
    else firstEcho flag held (ticks + 2) rest

theorem firstEcho_pruneEcho (h : tick ≤ ticks) (held arrivals : List ClipboardEntry) :
    firstEcho clock (pruneEcho (clock.reading tick) flag) held ticks arrivals =
      firstEcho clock flag held ticks arrivals := by
  induction arrivals generalizing ticks with
  | nil => rfl
  | cons e rest ih =>
    have hle : clock.reading tick ≤ clock.reading (ticks + 1) := clock.monotone (by omega)
    rw [firstEcho, firstEcho, isEcho_pruneEcho hle, ih (by omega)]

theorem look_tick_succ (ticks i : Nat) : ticks + 2 * (i + 1) + 1 = ticks + 2 + 2 * i + 1 := by
  omega

theorem firstEcho_none (held arrivals : List ClipboardEntry) :
    firstEcho clock none held ticks arrivals = none := by
  induction arrivals generalizing ticks with
  | nil => rfl
  | cons e rest ih => simp [firstEcho, isEcho, ih]

theorem firstEcho_eq_some_iff :
    firstEcho clock flag held ticks arrivals = some e ↔
      ∃ j, arrivals[j]? = some e ∧ e ∈ held ∧
        isEcho (clock.reading (ticks + 2 * j + 1)) flag e.preview = true ∧
        ∀ i < j, ∀ x, arrivals[i]? = some x → x ∈ held →
          ¬ isEcho (clock.reading (ticks + 2 * i + 1)) flag x.preview = true := by
  induction arrivals generalizing ticks with
  | nil => simp [firstEcho]
  | cons a rest ih =>
    have hnext := look_tick_succ ticks
    rw [firstEcho]
    split
    · rename_i ha
      constructor
      · rintro ⟨⟩
        exact ⟨0, rfl, ha.1, ha.2, fun i hi => absurd hi (Nat.not_lt_zero i)⟩
      · rintro ⟨j, hj, -, -, hfirst⟩
        cases j with
        | zero => exact hj
        | succ j => exact absurd ha.2 (hfirst 0 (Nat.succ_pos j) a rfl ha.1)
    · rename_i ha
      rw [ih]
      constructor
      · rintro ⟨j, hj, he, hecho, hfirst⟩
        refine ⟨j + 1, hj, he, by rwa [hnext], fun i hi x hx hheld => ?_⟩
        cases i with
        | zero =>
          cases hx
          exact fun hx => ha ⟨hheld, hx⟩
        | succ i =>
          rw [hnext]
          exact hfirst i (Nat.lt_of_succ_lt_succ hi) x hx hheld
      · rintro ⟨j, hj, he, hecho, hfirst⟩
        cases j with
        | zero =>
          cases hj
          exact absurd ⟨he, hecho⟩ ha
        | succ j =>
          rw [hnext] at hecho
          refine ⟨j, hj, he, hecho, fun i hi x hx hheld => ?_⟩
          rw [← hnext]
          exact hfirst (i + 1) (Nat.succ_lt_succ hi) x hx hheld

theorem firstEcho_eq_some (h : firstEcho clock flag held ticks arrivals = some e) :
    e ∈ arrivals ∧ e ∈ held ∧ ∃ armed, flag = some (armed, e.preview) := by
  obtain ⟨j, hj, hheld, hecho, -⟩ := (firstEcho_eq_some_iff clock).mp h
  obtain ⟨armed, hflag, -⟩ := isEcho_iff.mp hecho
  exact ⟨List.mem_of_getElem? hj, hheld, armed, hflag⟩

theorem firstEcho_isSome :
    (firstEcho clock flag held ticks arrivals).isSome ↔
      ∃ (j : Nat) (e : ClipboardEntry), arrivals[j]? = some e ∧ e ∈ held ∧
        isEcho (clock.reading (ticks + 2 * j + 1)) flag e.preview = true := by
  induction arrivals generalizing ticks with
  | nil => simp [firstEcho]
  | cons a rest ih =>
    have hnext := look_tick_succ ticks
    rw [firstEcho]
    split
    · rename_i ha
      simp only [Option.isSome_some, true_iff]
      exact ⟨0, a, rfl, ha⟩
    · rename_i ha
      rw [ih]
      constructor
      · rintro ⟨j, e, hj, he, hecho⟩
        exact ⟨j + 1, e, hj, he, by rwa [hnext]⟩
      · rintro ⟨j, e, hj, he, hecho⟩
        cases j with
        | zero =>
          cases hj
          exact absurd ⟨he, hecho⟩ ha
        | succ j => exact ⟨j, e, hj, he, by rwa [← hnext]⟩

-- ---------------------------------------------------------------------------
-- The outcome loop
-- ---------------------------------------------------------------------------

/-- The outcome loop looks at the stored outcomes only, and only at their ids. -/
theorem foldl_outcome (outcomes : List ReadOutcome) (d : Daemon) :
    outcomes.foldl (Daemon.outcome clock) d =
      (storedIds outcomes).foldl (fun d id => d.outcome clock (.stored id "")) d := by
  induction outcomes generalizing d with
  | nil => rfl
  | cons outcome outcomes ih =>
    rw [List.foldl_cons, ih]
    cases outcome <;> rfl

def Daemon.looked (d : Daemon) : Daemon :=
  { d with expectEcho := pruneEcho (clock.reading d.ticks) d.expectEcho, ticks := d.ticks + 2 }

def Daemon.suppressed (d : Daemon) (id : Nat) : Daemon :=
  { d with
    app := { d.app with clipboard := (d.app.clipboard.remove id).2 }
    expectEcho := none
    ticks := d.ticks + 2 }

theorem outcome_of_get_none (h : d.app.clipboard.get id = none) :
    d.outcome clock (.stored id mime) = d.looked clock := by
  simp only [Daemon.outcome, h, Daemon.looked]

theorem outcome_of_get_some (h : d.app.clipboard.get id = some e) :
    d.outcome clock (.stored id mime) =
      if isEcho (clock.reading (d.ticks + 1)) d.expectEcho e.preview = true then d.suppressed id
      else (d.looked clock).announce e := by
  have hle : clock.reading d.ticks ≤ clock.reading (d.ticks + 1) := clock.monotone (by omega)
  simp only [Daemon.outcome, h, isEcho_pruneEcho hle, Daemon.looked, Daemon.suppressed]

theorem outcome_later (d : Daemon) (outcome : ReadOutcome) :
    d.app.clipboard.Later (d.outcome clock outcome).app.clipboard := by
  cases outcome with
  | stored id mime =>
    cases hget : d.app.clipboard.get id with
    | none =>
      rw [outcome_of_get_none clock hget]
      exact .refl _
    | some e =>
      rw [outcome_of_get_some clock hget]
      split
      · exact ClipState.later_remove
      · exact .refl _
  | _ => exact .refl _

def Daemon.echo (d : Daemon) (arrivals : List ClipboardEntry) : Option ClipboardEntry :=
  firstEcho clock d.expectEcho d.history d.ticks arrivals

def Daemon.announced (d : Daemon) (arrivals : List ClipboardEntry) : List ClipboardEntry :=
  arrivals.filter fun e => e ∈ d.history ∧ d.echo clock arrivals ≠ some e

/-- The effect of the outcome loop on a daemon whose drain added `arrivals`. -/
structure OutcomeEffect (d : Daemon) (arrivals : List ClipboardEntry) (d' : Daemon) : Prop where
  app : ∃ clipboard, d'.app = { d.app with clipboard } ∧ clipboard.nextId = d.app.clipboard.nextId
  history : d'.history = d.history.filter fun e => d.echo clock arrivals ≠ some e
  snapshot : d'.snapshot =
    ((d.announced clock arrivals).map EntrySummary.of).foldl pushSummary d.snapshot
  events : d'.events =
    d.events ++ (d.announced clock arrivals).map fun e => .entryAdded (.of e)
  expectEcho : d'.expectEcho = none ∨
    d'.expectEcho = d.expectEcho ∧ d.echo clock arrivals = none
  replies : d'.replies = d.replies
  ticks : d'.ticks = d.ticks + 2 * arrivals.length
  restoredEntry : d'.restoredEntry = d.restoredEntry

def NamedBy (history arrivals : List ClipboardEntry) : Prop :=
  ∀ e ∈ arrivals, ∀ held ∈ history, held.id = e.id → held = e

theorem echo_looked (h : ¬ (a ∈ d.history ∧
    isEcho (clock.reading (d.ticks + 1)) d.expectEcho a.preview = true)) :
    (d.looked clock).echo clock rest = d.echo clock (a :: rest) := by
  have hle : d.ticks ≤ d.ticks + 2 := by omega
  simp only [Daemon.echo, Daemon.looked, firstEcho_pruneEcho clock hle]
  rw [firstEcho, if_neg h]

theorem looked_expectEcho (clock : Clock) (d : Daemon) :
    (d.looked clock).expectEcho = none ∨ (d.looked clock).expectEcho = d.expectEcho :=
  (pruneEcho_cases _ _).elim .inr fun h => .inl h.1

theorem expectEcho_of_looked {flag : Option (Instant × String)} {noEcho : Prop}
    (h : flag = none ∨ flag = (d.looked clock).expectEcho ∧ noEcho) :
    flag = none ∨ flag = d.expectEcho ∧ noEcho := by
  rcases h with hf | ⟨hf, he⟩
  · exact .inl hf
  · exact (looked_expectEcho clock d).imp hf.trans fun h => ⟨hf.trans h, he⟩

theorem OutcomeEffect.evicted (ha : a ∉ d.history)
    (h : OutcomeEffect clock (d.looked clock) rest d') :
    OutcomeEffect clock d (a :: rest) d' := by
  have hecho : (d.looked clock).echo clock rest = d.echo clock (a :: rest) :=
    echo_looked clock fun h => ha h.1
  have hann : (d.looked clock).announced clock rest = d.announced clock (a :: rest) := by
    rw [Daemon.announced, Daemon.announced, hecho, List.filter_cons_of_neg (by simp [ha])]
    rfl
  obtain ⟨happ, hhist, hsnap, hev, hflag, hrep, htick, hentry⟩ := h
  rw [hecho] at hhist hflag
  rw [hann] at hsnap hev
  refine ⟨happ, hhist, hsnap, hev, ?_, hrep, ?_, hentry⟩
  · exact expectEcho_of_looked clock hflag
  · rw [htick, List.length_cons]
    simp only [Daemon.looked]
    omega

theorem OutcomeEffect.suppressed (ha : a ∈ d.history)
    (hn : ∀ held ∈ d.history, held.id = a.id → held = a) (hrest : ∀ e ∈ rest, a.id < e.id)
    (hecho : isEcho (clock.reading (d.ticks + 1)) d.expectEcho a.preview = true)
    (h : OutcomeEffect clock (d.suppressed a.id) rest d') :
    OutcomeEffect clock d (a :: rest) d' := by
  have hnone : (d.suppressed a.id).echo clock rest = none := firstEcho_none ..
  have hsome : d.echo clock (a :: rest) = some a := by
    rw [Daemon.echo, firstEcho, if_pos ⟨ha, hecho⟩]
  have hann : (d.suppressed a.id).announced clock rest = d.announced clock (a :: rest) := by
    rw [Daemon.announced, Daemon.announced, hnone, hsome,
      List.filter_cons_of_neg (by simp)]
    refine List.filter_congr fun e he => ?_
    have hne : e.id ≠ a.id := (hrest e he).ne'
    have hne' : a ≠ e := fun h => hne (h ▸ rfl)
    simp [Daemon.suppressed, Daemon.history, ClipState.remove, hne, hne']
  obtain ⟨⟨clipboard, happ, hnext⟩, hhist, hsnap, hev, hflag, hrep, htick, hentry⟩ := h
  rw [hann] at hsnap hev
  refine ⟨⟨clipboard, happ, hnext⟩, ?_, hsnap, hev, .inl ?_, hrep, ?_, hentry⟩
  · rw [hhist, hnone, hsome]
    simp only [Daemon.suppressed, Daemon.history, ClipState.entries_remove, List.filter_filter]
    refine List.filter_congr fun e he => ?_
    by_cases hid : e.id = a.id
    · simp [hn e he hid]
    · have hne : a ≠ e := fun h => hid (h ▸ rfl)
      simp [hid, hne]
  · exact hflag.elim id (·.1)
  · rw [htick, List.length_cons]
    simp only [Daemon.suppressed]
    omega

theorem OutcomeEffect.announced (ha : a ∈ d.history)
    (hecho : ¬ isEcho (clock.reading (d.ticks + 1)) d.expectEcho a.preview = true)
    (hrest : ∀ e ∈ rest, a.id < e.id)
    (h : OutcomeEffect clock ((d.looked clock).announce a) rest d') :
    OutcomeEffect clock d (a :: rest) d' := by
  have hecho : (d.looked clock).echo clock rest = d.echo clock (a :: rest) :=
    echo_looked clock fun h => hecho h.2
  have hne : d.echo clock (a :: rest) ≠ some a := by
    intro h
    rw [← hecho] at h
    exact Nat.lt_irrefl _ (hrest a (firstEcho_eq_some clock h).1)
  have hecho' : ((d.looked clock).announce a).echo clock rest = d.echo clock (a :: rest) :=
    hecho
  have hann : d.announced clock (a :: rest) =
      a :: ((d.looked clock).announce a).announced clock rest := by
    rw [Daemon.announced, Daemon.announced, List.filter_cons_of_pos (by simp [ha, hne]), hecho']
    rfl
  obtain ⟨happ, hhist, hsnap, hev, hflag, hrep, htick, hentry⟩ := h
  rw [hecho'] at hhist hflag
  refine ⟨happ, hhist, ?_, ?_, ?_, hrep, ?_, hentry⟩
  · rw [hsnap, hann]
    rfl
  · rw [hev, hann, List.map_cons, List.append_cons]
    rfl
  · exact expectEcho_of_looked clock hflag
  · rw [htick, List.length_cons]
    simp only [Daemon.announce, Daemon.looked]
    omega

/-- The outcome loop, arrival by arrival: each is evicted already, or the echo,
or announced. -/
theorem outcomes_effect (arrivals : List ClipboardEntry) (hp : arrivals.Pairwise (·.id < ·.id))
    (d : Daemon) (hn : NamedBy d.history arrivals) :
    OutcomeEffect clock d arrivals
      ((arrivals.map (·.id)).foldl (fun d id => d.outcome clock (.stored id "")) d) := by
  induction arrivals generalizing d with
  | nil =>
    have happ : ({ d.app with clipboard := d.app.clipboard } : AppState) = d.app := rfl
    exact ⟨⟨_, happ.symm, rfl⟩, by simp [Daemon.echo, firstEcho], rfl, by simp [Daemon.announced],
      .inr ⟨rfl, rfl⟩, rfl, rfl, rfl⟩
  | cons a rest ih =>
    obtain ⟨ha, hordered⟩ := List.pairwise_cons.mp hp
    have hrest : NamedBy d.history rest := fun e he => hn e (List.mem_cons_of_mem _ he)
    rw [List.map_cons, List.foldl_cons]
    cases hg : d.app.clipboard.get a.id with
    | none =>
      rw [outcome_of_get_none clock hg]
      exact .evicted clock (fun hmem => ClipState.get_eq_none_iff.mp hg a hmem rfl)
        (ih hordered _ hrest)
    | some e =>
      obtain ⟨hmem, hid⟩ := ClipState.mem_of_get hg
      obtain rfl : e = a := hn a List.mem_cons_self e hmem hid
      rw [outcome_of_get_some clock hg]
      split
      · refine .suppressed clock hmem (hn e List.mem_cons_self) ha ‹_› (ih hordered _ ?_)
        exact fun x hx held hheld => hrest x hx held (List.mem_of_mem_filter hheld)
      · exact .announced clock hmem ‹_› ha (ih hordered _ hrest)

-- ---------------------------------------------------------------------------
-- Serving requests
-- ---------------------------------------------------------------------------

theorem handleRestore_cases (hasher offerHasher : Hasher String Bytes) (d : Daemon)
    (pending : PendingRestore) :
    (∃ entry app, d.app.clipboard.get pending.entryId = some entry ∧
      d.app.restoreEntry hasher offerHasher pending.entryId = .ok app ∧
      d.handleRestore clock hasher offerHasher pending =
        { d with
          app
          expectEcho := some (clock.reading d.ticks, entry.preview)
          ticks := d.ticks + 1
          restoredEntry := some entry
          replies := d.replies ++ [(pending.reply, .restored pending.entryId)] }) ∨
    (∃ err, d.app.restoreEntry hasher offerHasher pending.entryId = .error err ∧
      d.handleRestore clock hasher offerHasher pending =
        { d with replies := d.replies ++ [(pending.reply, .ofError err)] }) := by
  unfold Daemon.handleRestore
  cases h : d.app.restoreEntry hasher offerHasher pending.entryId with
  | ok app =>
    obtain ⟨entry, hg, -⟩ := AppState.restoreEntry_eq_ok h
    exact .inl ⟨entry, app, hg, rfl, by simp [hg]⟩
  | error err => exact .inr ⟨err, rfl, rfl⟩

theorem restoreEntry_frame {s s' : AppState}
    (h : s.restoreEntry hasher offerHasher entryId = .ok s') :
    s'.clipboard = s.clipboard ∧ s'.pendingReads = s.pendingReads := by
  obtain ⟨_, -, -, -, rfl⟩ := AppState.restoreEntry_eq_ok h
  rw [AppState.publish_eq]
  exact ⟨rfl, rfl⟩

structure ServeEffect (d d' : Daemon) : Prop where
  clipboard : d'.app.clipboard = d.app.clipboard
  pendingReads : d'.app.pendingReads = d.app.pendingReads
  snapshot : d'.snapshot = d.snapshot
  events : d'.events = d.events
  expectEcho : (d'.expectEcho = d.expectEcho ∧ d'.restoredEntry = d.restoredEntry) ∨
    ∃ e ∈ d.history, ∃ armed, d'.expectEcho = some (armed, e.preview) ∧ d'.restoredEntry = some e

theorem handleRestore_effect (hasher offerHasher : Hasher String Bytes) (d : Daemon)
    (pending : PendingRestore) :
    ServeEffect d (d.handleRestore clock hasher offerHasher pending) := by
  rcases handleRestore_cases clock hasher offerHasher d pending with
    ⟨entry, app, hg, hok, h⟩ | ⟨err, -, h⟩ <;> rw [h]
  · exact ⟨(restoreEntry_frame hok).1, (restoreEntry_frame hok).2, rfl, rfl,
      .inr ⟨entry, (ClipState.mem_of_get hg).1, _, rfl, rfl⟩⟩
  · exact ⟨rfl, rfl, rfl, rfl, .inl ⟨rfl, rfl⟩⟩

theorem served_effect (d : Daemon) (pass : Pass) : ServeEffect d (d.served clock pass) := by
  unfold Daemon.served
  induction pass.requests generalizing d with
  | nil => exact ⟨rfl, rfl, rfl, rfl, .inl ⟨rfl, rfl⟩⟩
  | cons request requests ih =>
    obtain ⟨pending, hasher, offerHasher⟩ := request
    obtain ⟨hclip, hreads, hsnap, hev, hflag⟩ :=
      handleRestore_effect clock hasher offerHasher d pending
    obtain ⟨hclip', hreads', hsnap', hev', hflag'⟩ :=
      ih (d.handleRestore clock hasher offerHasher pending)
    refine ⟨hclip'.trans hclip, hreads'.trans hreads, hsnap'.trans hsnap, hev'.trans hev, ?_⟩
    rcases hflag' with ⟨hf, hentry⟩ | ⟨e, he, armed, hf⟩
    · rcases hflag with ⟨hf', hentry'⟩ | ⟨e, he, armed, hf', hentry'⟩
      · exact .inl ⟨hf.trans hf', hentry.trans hentry'⟩
      · exact .inr ⟨e, he, armed, hf.trans hf', hentry.trans hentry'⟩
    · rw [Daemon.history, hclip] at he
      exact .inr ⟨e, he, armed, hf⟩

-- ---------------------------------------------------------------------------
-- One pass
-- ---------------------------------------------------------------------------

theorem step_restore (hidle : d.app.pendingReads = []) (drain : DrainEnv)
    (pending : PendingRestore) (hasher offerHasher : Hasher String Bytes) :
    d.step clock { drain, requests := [(pending, hasher, offerHasher)] } =
      d.handleRestore clock hasher offerHasher pending := by
  have happ : { d.app with pendingReads := [] } = d.app := by rw [← hidle]
  have hdrain : drainPendingReads drain d.app = (d.app, []) := by
    rw [drainPendingReads, happ, hidle]
    rfl
  simp only [Daemon.step, Daemon.drained, Daemon.dispatched, dispatchPending, List.foldl_nil,
    hdrain, Daemon.served, List.foldl_cons]

def Daemon.arrivals (d : Daemon) (pass : Pass) : List ClipboardEntry :=
  (d.dispatched pass).app.arrivals pass.drain

def Daemon.filled (d : Daemon) (pass : Pass) : Daemon := ((d.dispatched pass).drained pass).1

def Daemon.passEcho (d : Daemon) (pass : Pass) : Option ClipboardEntry :=
  (d.filled pass).echo clock (d.arrivals pass)

theorem filled_history (d : Daemon) (pass : Pass) :
    (d.filled pass).history = Bounded.popWhileOver maxHistory (d.history ++ d.arrivals pass) := by
  have h := (drain_spec pass.drain (d.dispatched pass).app).1
  rw [Daemon.dispatched, dispatchPending_clipboard] at h
  exact h

theorem filled_nextId (d : Daemon) (pass : Pass) :
    (d.filled pass).app.clipboard.nextId =
      d.app.clipboard.nextId + (d.arrivals pass).length := by
  have h := (drain_spec pass.drain (d.dispatched pass).app).2.1
  rw [Daemon.dispatched, dispatchPending_clipboard] at h
  exact h

theorem arrivals_pairwise (d : Daemon) (pass : Pass) :
    (d.arrivals pass).Pairwise (·.id < ·.id) := accepted_pairwise ..

theorem id_lt_of_mem_arrivals (he : e ∈ d.history) (ha : a ∈ d.arrivals pass) : e.id < a.id := by
  have hle := le_id_of_mem_accepted ha
  rw [Daemon.dispatched, dispatchPending_clipboard] at hle
  exact (d.app.clipboard.valid.fresh e he).trans_le hle

theorem namedBy_arrivals (d : Daemon) (pass : Pass) :
    NamedBy (d.filled pass).history (d.arrivals pass) := by
  intro a ha held hheld hid
  rw [filled_history] at hheld
  rcases List.mem_append.mp ((Bounded.popWhileOver_sublist _).subset hheld) with h | h
  · exact absurd hid (id_lt_of_mem_arrivals h ha).ne
  · have hn : ((d.arrivals pass).map (·.id)).Nodup :=
      List.pairwise_map.mpr ((arrivals_pairwise d pass).imp Nat.ne_of_lt)
    exact List.inj_on_of_nodup_map hn h ha hid

/-- A pass is a drain, the outcome loop over its arrivals, and the requests. -/
theorem step_eq (d : Daemon) (pass : Pass) :
    d.step clock pass = Daemon.served clock
      (((d.arrivals pass).map (·.id)).foldl (fun d id => d.outcome clock (.stored id ""))
        (d.filled pass)) pass := by
  rw [Daemon.step, Daemon.arrivals, ← (drain_spec pass.drain (d.dispatched pass).app).2.2,
    ← foldl_outcome]
  rfl

theorem run_step (d : Daemon) (passes : List Pass) (pass : Pass) :
    (d.run clock passes).step clock pass = d.run clock (passes ++ [pass]) := by
  simp [Daemon.run]

theorem step_served (d : Daemon) (pass : Pass) (pending : PendingRestore)
    (hasher offerHasher : Hasher String Bytes) :
    (d.step clock pass).handleRestore clock hasher offerHasher pending =
      d.step clock { pass with requests := pass.requests ++ [(pending, hasher, offerHasher)] } := by
  simp [Daemon.step, Daemon.served, Daemon.dispatched, Daemon.drained]

theorem step_effect (d : Daemon) (pass : Pass) :
    ∃ d', OutcomeEffect clock (d.filled pass) (d.arrivals pass) d' ∧
      ServeEffect d' (d.step clock pass) := by
  refine ⟨_, outcomes_effect clock (d.arrivals pass) (arrivals_pairwise d pass) (d.filled pass)
    (namedBy_arrivals d pass), ?_⟩
  rw [step_eq]
  exact served_effect ..

theorem step_frame (d : Daemon) (hreq : pass.requests = []) :
    (∃ offers clipboard, (d.step clock pass).app =
      { (d.dispatched pass).app with offers, clipboard, pendingReads := [] }) ∧
      ((d.step clock pass).expectEcho = none ∨ (d.step clock pass).expectEcho = d.expectEcho) := by
  obtain ⟨offers, clipboard, hdrain⟩ := drain_frame pass.drain (d.dispatched pass).app
  have ho := outcomes_effect clock (d.arrivals pass) (arrivals_pairwise d pass) (d.filled pass)
    (namedBy_arrivals d pass)
  obtain ⟨clipboard', happ, -⟩ := ho.app
  have hfilled : (d.filled pass).app = (drainPendingReads pass.drain (d.dispatched pass).app).1 :=
    rfl
  rw [hfilled, hdrain] at happ
  rw [step_eq, Daemon.served, hreq, List.foldl_nil]
  exact ⟨⟨offers, clipboard', happ⟩, ho.expectEcho.imp_right (·.1)⟩

theorem step_history (d : Daemon) (pass : Pass) :
    (d.step clock pass).history =
      (Bounded.popWhileOver maxHistory (d.history ++ d.arrivals pass)).filter
        fun e => d.passEcho clock pass ≠ some e := by
  obtain ⟨d', ho, hs⟩ := step_effect clock d pass
  rw [Daemon.history, hs.clipboard]
  exact ho.history.trans (by rw [filled_history]; rfl)

def Daemon.passAnnounced (d : Daemon) (pass : Pass) : List ClipboardEntry :=
  (d.filled pass).announced clock (d.arrivals pass)

theorem passAnnounced_eq (d : Daemon) (pass : Pass) :
    d.passAnnounced clock pass = (d.arrivals pass).filter fun e =>
      e ∈ Bounded.popWhileOver maxHistory (d.history ++ d.arrivals pass) ∧
        d.passEcho clock pass ≠ some e := by
  rw [Daemon.passAnnounced, Daemon.announced, filled_history]
  rfl

theorem step_snapshot (d : Daemon) (pass : Pass) :
    (d.step clock pass).snapshot =
      ((d.passAnnounced clock pass).map EntrySummary.of).foldl pushSummary d.snapshot := by
  obtain ⟨d', ho, hs⟩ := step_effect clock d pass
  exact hs.snapshot.trans ho.snapshot

theorem step_events (d : Daemon) (pass : Pass) :
    (d.step clock pass).events =
      d.events ++ (d.passAnnounced clock pass).map fun e => .entryAdded (.of e) := by
  obtain ⟨d', ho, hs⟩ := step_effect clock d pass
  exact hs.events.trans ho.events

/-- A flag that is armed after a pass was armed before it and met no echo, or
was armed by a restore of an entry that is still held. -/
theorem step_expectEcho (d : Daemon) (pass : Pass) :
    (d.step clock pass).expectEcho = none ∨
      ((d.step clock pass).expectEcho = d.expectEcho ∧ d.passEcho clock pass = none ∧
        (d.step clock pass).restoredEntry = d.restoredEntry) ∨
      ∃ e ∈ (d.step clock pass).history, ∃ armed,
        (d.step clock pass).expectEcho = some (armed, e.preview) ∧
          (d.step clock pass).restoredEntry = some e := by
  obtain ⟨d', ho, hs⟩ := step_effect clock d pass
  rcases hs.expectEcho with ⟨hf, hentry⟩ | ⟨e, he, armed, hf⟩
  · rcases ho.expectEcho with hf' | ⟨hf', hecho⟩
    · exact .inl (hf.trans hf')
    · exact .inr (.inl ⟨hf.trans hf', hecho, hentry.trans ho.restoredEntry⟩)
  · refine .inr (.inr ⟨e, ?_, armed, hf⟩)
    rw [Daemon.history, hs.clipboard]
    exact he

end Uclip
