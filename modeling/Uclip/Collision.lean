import Uclip.Mirror

/-!
# Copies that look like the echo

The flag knows the echo by its preview, which is one line. A copy whose primary
payload differs but whose preview agrees is taken for the echo when it is the
first of its drain to meet the fresh flag; every other copy is kept.
-/

namespace Uclip

open Text (Bytes)

variable (clock : Clock) {d : Daemon} {pass : Pass} {e c : ClipboardEntry}

def primaryPayload (c : ClipboardContent) : Option Bytes := c.representations[c.primaryMime]?

structure Kept (d d' : Daemon) (c : ClipboardEntry) : Prop where
  held : c ∈ d'.history
  listed : EntrySummary.of c ∈ d'.snapshot
  broadcast : .entryAdded (.of c) ∈ d'.events.drop d.events.length

/-- A copy that a user made, that fewer than `maxHistory` copies of its drain
follow, and whose primary payload is not the one of the last restored entry. -/
structure OtherCopy (user : Nat → Prop) (d : Daemon) (pass : Pass) (j : Nat)
    (e c : ClipboardEntry) : Prop where
  arrival : (d.arrivals pass)[j]? = some c
  user : user c.id
  recent : (d.arrivals pass).length ≤ j + maxHistory
  restored : d.restoredEntry = some e
  other : primaryPayload c.content ≠ primaryPayload e.content

def Collides (user : Nat → Prop) (d : Daemon) (pass : Pass) : Prop :=
  ∃ j e c armed, OtherCopy user d pass j e c ∧ d.expectEcho = some (armed, e.preview) ∧
    c.preview = e.preview ∧
    clock.reading (d.ticks + 2 * j + 1) - armed < echoSuppressMillis ∧
    ∀ i < j, ∀ x, (d.arrivals pass)[i]? = some x → (d.arrivals pass).length ≤ i + maxHistory →
      x.preview ≠ e.preview

theorem passEcho_eq_some_iff :
    d.passEcho clock pass = some c ↔ ∃ j, (d.arrivals pass)[j]? = some c ∧
      (d.arrivals pass).length ≤ j + maxHistory ∧
      isEcho (clock.reading (d.ticks + 2 * j + 1)) d.expectEcho c.preview = true ∧
      ∀ i < j, ∀ x, (d.arrivals pass)[i]? = some x → (d.arrivals pass).length ≤ i + maxHistory →
        ¬ isEcho (clock.reading (d.ticks + 2 * i + 1)) d.expectEcho x.preview = true := by
  rw [Daemon.passEcho, Daemon.echo, firstEcho_eq_some_iff]
  refine exists_congr fun j => and_congr_right fun hj => ?_
  rw [mem_filled_iff hj]
  refine and_congr_right fun _ => and_congr_right fun _ => ?_
  refine forall_congr' fun i => forall_congr' fun _ => forall_congr' fun x => ?_
  refine forall_congr' fun hi => ?_
  rw [mem_filled_iff hi]
  rfl

theorem kept_iff (hsnap : d.snapshot.length ≤ maxHistory) (hj : (d.arrivals pass)[j]? = some c)
    (hrecent : (d.arrivals pass).length ≤ j + maxHistory) :
    Kept d (d.step clock pass) c ↔ d.passEcho clock pass ≠ some c := by
  have hheld := (mem_filled_iff hj).mpr hrecent
  rw [filled_history] at hheld
  constructor
  · intro h hecho
    have := h.held
    rw [step_history, List.mem_filter, hecho] at this
    simp at this
  · intro hne
    have hann : c ∈ d.passAnnounced clock pass := by
      rw [passAnnounced_eq, List.mem_filter]
      exact ⟨List.mem_of_getElem? hj, by simpa using ⟨hheld, hne⟩⟩
    refine ⟨?_, ?_, ?_⟩
    · rw [step_history, List.mem_filter]
      exact ⟨hheld, by simpa using hne⟩
    · have hlen : (d.passAnnounced clock pass).length ≤ maxHistory := by
        rw [passAnnounced_eq_filter]
        refine Nat.le_trans (List.length_filter_le ..) ?_
        rw [Bounded.length_popWhileOver]
        exact Nat.min_le_right ..
      rw [step_snapshot_eq clock hsnap, Bounded.popWhileOver_eq_drop, List.length_append,
        List.length_map, List.drop_append_of_le_length (by omega)]
      exact List.mem_append_right _ (List.mem_map_of_mem hann)
    · rw [step_events, List.drop_left]
      exact List.mem_map_of_mem hann

theorem snapshot_length_step (h : d.snapshot.length ≤ maxHistory) :
    (d.step clock pass).snapshot.length ≤ maxHistory := by
  rw [step_snapshot_eq clock h, Bounded.length_popWhileOver]
  exact Nat.min_le_right ..

theorem snapshot_length_run (h : d.snapshot.length ≤ maxHistory) (passes : List Pass) :
    (d.run clock passes).snapshot.length ≤ maxHistory := by
  induction passes generalizing d with
  | nil => exact h
  | cons pass passes ih => exact ih (snapshot_length_step clock h)

-- ---------------------------------------------------------------------------
-- The entry behind the flag
-- ---------------------------------------------------------------------------

def FlagNames (d : Daemon) : Prop :=
  ∀ armed expected, d.expectEcho = some (armed, expected) →
    ∃ e, d.restoredEntry = some e ∧ expected = e.preview

theorem flagNames_step (h : FlagNames d) : FlagNames (d.step clock pass) := by
  intro armed expected hf
  rcases step_expectEcho clock d pass with hnone | ⟨hsame, -, hentry⟩ | ⟨e, -, _, hnew, hentry⟩
  · rw [hnone] at hf
    cases hf
  · rw [hentry]
    exact h armed expected (hsame ▸ hf)
  · rw [hnew] at hf
    cases hf
    exact ⟨e, hentry, rfl⟩

theorem flagNames_run (h : FlagNames d) (passes : List Pass) : FlagNames (d.run clock passes) := by
  induction passes generalizing d with
  | nil => exact h
  | cons pass passes ih => exact ih (flagNames_step clock h)

theorem isEcho_armed {now armed : Instant} :
    isEcho now (some (armed, expected)) preview = true ↔
      now - armed < echoSuppressMillis ∧ preview = expected := by
  simp only [isEcho, Bool.and_eq_true, decide_eq_true_eq, beq_iff_eq]
  exact and_congr_right fun _ => eq_comm

/-- The echo of a pass, when the flag is armed for `e`: earlier copies met an
even fresher flag, so they had another preview. -/
theorem passEcho_armed (hf : d.expectEcho = some (armed, e.preview)) :
    d.passEcho clock pass = some c ↔ ∃ j, (d.arrivals pass)[j]? = some c ∧
      (d.arrivals pass).length ≤ j + maxHistory ∧ c.preview = e.preview ∧
      clock.reading (d.ticks + 2 * j + 1) - armed < echoSuppressMillis ∧
      ∀ i < j, ∀ x, (d.arrivals pass)[i]? = some x → (d.arrivals pass).length ≤ i + maxHistory →
        x.preview ≠ e.preview := by
  rw [passEcho_eq_some_iff]
  refine exists_congr fun j => and_congr_right fun _ => and_congr_right fun _ => ?_
  rw [hf, isEcho_armed, and_assoc, and_left_comm]
  refine and_congr_right fun _ => and_congr_right fun hfresh => ?_
  refine forall_congr' fun i => forall_congr' fun hi => forall_congr' fun x => ?_
  refine forall_congr' fun _ => forall_congr' fun _ => ?_
  have hle : clock.reading (d.ticks + 2 * i + 1) ≤ clock.reading (d.ticks + 2 * j + 1) :=
    clock.monotone (by omega)
  have hfresh' : clock.reading (d.ticks + 2 * i + 1) - armed < echoSuppressMillis :=
    Nat.lt_of_le_of_lt (Nat.sub_le_sub_right hle armed) hfresh
  rw [isEcho_armed, and_iff_right hfresh']

theorem other_copies_kept_iff (user : Nat → Prop) (hsnap : d.snapshot.length ≤ maxHistory)
    (hflag : FlagNames d) :
    (∀ j e c, OtherCopy user d pass j e c → Kept d (d.step clock pass) c) ↔
      ¬ Collides clock user d pass := by
  constructor
  · rintro h ⟨j, e, c, armed, hother, hf, hpreview, hfresh, hfirst⟩
    refine (kept_iff clock hsnap hother.arrival hother.recent).mp (h j e c hother) ?_
    exact (passEcho_armed clock hf).mpr
      ⟨j, hother.arrival, hother.recent, hpreview, hfresh, hfirst⟩
  · intro h j e c hother
    rw [kept_iff clock hsnap hother.arrival hother.recent]
    intro hpass
    obtain ⟨-, -, armed, hf⟩ := passEcho_eq_some clock hpass
    obtain ⟨e', he', hexpected⟩ := hflag armed _ hf
    cases Option.some.inj (he'.symm.trans hother.restored)
    rw [hexpected] at hf
    obtain ⟨i, hi, hrecent, hpreview, hfresh, hfirst⟩ := (passEcho_armed clock hf).mp hpass
    exact h ⟨i, e, c, armed, ⟨hi, hother.user, hrecent, hother.restored, hother.other⟩, hf,
      hpreview, hfresh, hfirst⟩

/-- The echo path keeps every other user copy of a run, whatever copies are
called user copies, exactly when no pass collides with the flag. -/
theorem user_copies_kept_iff (seat manager device : Global) (passes : List Pass)
    (user : Nat → Prop) :
    (∀ n pass, passes[n]? = some pass →
      let d := (Daemon.start seat manager device).run clock (passes.take n)
      ∀ j e c, OtherCopy user d pass j e c → Kept d (d.step clock pass) c) ↔
    ∀ n pass, passes[n]? = some pass →
      ¬ Collides clock user ((Daemon.start seat manager device).run clock (passes.take n))
        pass := by
  refine forall_congr' fun n => forall_congr' fun pass => forall_congr' fun _ => ?_
  exact other_copies_kept_iff clock user (snapshot_length_run clock (Nat.zero_le _) _)
    (flagNames_run clock (fun _ _ h => by cases h) _)

/-- "a\nb" is restored; the copy of "a\nc" that follows is swallowed. -/
theorem second_line_swallowed :
    let d := (Daemon.start 0 0 0).run .still
      [copyPass 0 ⟨1, 0⟩ ["text/plain"] fun _ => [0x61, 0x0A, 0x62], restorePass ⟨1, 0⟩]
    let pass := copyPass d.app.pipes ⟨2, 1⟩ ["text/plain"] fun _ => [0x61, 0x0A, 0x63]
    ∃ e c, OtherCopy (fun _ => True) d pass 0 e c ∧ ¬ Kept d (d.step .still pass) c := by
  intro d pass
  obtain ⟨e, he⟩ : ∃ e, d.restoredEntry = some e := Option.isSome_iff_exists.mp (by decide +kernel)
  obtain ⟨c, hc⟩ : ∃ c, (d.arrivals pass)[0]? = some c :=
    Option.isSome_iff_exists.mp (by decide +kernel)
  have hpayload : d.restoredEntry.map (primaryPayload ·.content) =
      some (some [0x61, 0x0A, 0x62]) := by decide +kernel
  have hother : (d.arrivals pass)[0]?.map (primaryPayload ·.content) =
      some (some [0x61, 0x0A, 0x63]) := by decide +kernel
  rw [he, Option.map_some] at hpayload
  rw [hc, Option.map_some] at hother
  refine ⟨e, c, ⟨hc, trivial, by decide +kernel, he, ?_⟩, fun hkept => ?_⟩
  · rw [Option.some.inj hpayload, Option.some.inj hother]
    decide
  · have hid : (d.arrivals pass)[0]?.map (·.id) = some 2 := by decide +kernel
    have hheld : 2 ∉ (d.step .still pass).history.map (·.id) := by decide +kernel
    rw [hc, Option.map_some] at hid
    exact hheld (Option.some.inj hid ▸ List.mem_map_of_mem hkept.held)

end Uclip
