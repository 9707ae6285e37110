import Uclip.Selection

/-!
# The snapshot and the history

The history evicts inside a drain, the snapshot when an arrival is announced,
and the echo is taken out of the history only. The two stay equal over every
pass but one kind: a pass that overflows the history and meets an echo evicts
one row for the echo that the snapshot keeps.
-/

namespace Uclip

open Text (Bytes)
open ClipboardContent (fromBlobs)

variable (clock : Clock) {d : Daemon} {pass : Pass} {e : ClipboardEntry}

structure Mirrors (d : Daemon) : Prop where
  rows : d.snapshot = d.history.map EntrySummary.of
  /-- Every id of a page can be restored. -/
  found : ∀ offset limit, ∀ row ∈ (listSnapshot d.snapshot offset limit).2,
    (d.app.clipboard.get row.id).isSome
  /-- Every held entry is on a page. -/
  listed : ∀ e ∈ d.history, ∃ offset,
    EntrySummary.of e ∈ (listSnapshot d.snapshot offset maxListLimit).2

theorem mirrors_iff : Mirrors d ↔ d.snapshot = d.history.map EntrySummary.of := by
  refine ⟨(·.rows), fun h => ⟨h, fun offset limit row hrow => ?_, fun e he => ?_⟩⟩
  · have hmem : row ∈ d.snapshot := List.mem_of_mem_drop (List.mem_of_mem_take hrow)
    rw [h] at hmem
    obtain ⟨e, he, rfl⟩ := List.mem_map.mp hmem
    exact Option.isSome_iff_exists.mpr ⟨e, ClipState.get_eq_some_iff.mpr ⟨he, rfl⟩⟩
  · have hrow : EntrySummary.of e ∈ d.history.map EntrySummary.of := List.mem_map_of_mem he
    obtain ⟨i, hi, hget⟩ := List.mem_iff_getElem.mp hrow
    refine ⟨i, ?_⟩
    rw [listSnapshot, h, List.drop_eq_getElem_cons hi, hget]
    exact List.mem_cons_self

-- ---------------------------------------------------------------------------
-- Arrivals and the bound
-- ---------------------------------------------------------------------------

theorem nodup_arrivals (d : Daemon) (pass : Pass) : (d.arrivals pass).Nodup :=
  (arrivals_pairwise d pass).imp fun hlt => mt (congrArg (·.id)) (Nat.ne_of_lt hlt)

theorem nodup_history (d : Daemon) : d.history.Nodup :=
  d.app.clipboard.valid.ordered.imp fun hlt => mt (congrArg (·.id)) (Nat.ne_of_lt hlt)

theorem nodup_history_arrivals (d : Daemon) (pass : Pass) :
    (d.history ++ d.arrivals pass).Nodup :=
  List.nodup_append.mpr ⟨nodup_history d, nodup_arrivals d pass,
    fun _ he _ ha h => Nat.lt_irrefl _ (h ▸ id_lt_of_mem_arrivals he ha)⟩

theorem filter_held (d : Daemon) (pass : Pass) :
    (d.arrivals pass).filter
        (· ∈ Bounded.popWhileOver maxHistory (d.history ++ d.arrivals pass)) =
      Bounded.popWhileOver maxHistory (d.arrivals pass) :=
  Bounded.filter_mem_popWhileOver d.history (nodup_arrivals d pass)

theorem mem_filled_iff (hj : (d.arrivals pass)[j]? = some c) :
    c ∈ (d.filled pass).history ↔ (d.arrivals pass).length ≤ j + maxHistory := by
  rw [filled_history, ← Bounded.mem_popWhileOver_iff (nodup_arrivals d pass) hj, ← filter_held,
    List.mem_filter, decide_eq_true_iff]
  exact ⟨fun h => ⟨List.mem_of_getElem? hj, h⟩, (·.2)⟩

theorem passAnnounced_eq_filter (d : Daemon) (pass : Pass) :
    d.passAnnounced clock pass = (Bounded.popWhileOver maxHistory (d.arrivals pass)).filter
      fun e => d.passEcho clock pass ≠ some e := by
  rw [passAnnounced_eq, ← filter_held, List.filter_filter]
  refine List.filter_congr fun e _ => ?_
  rw [Bool.decide_and, Bool.and_comm]

theorem passEcho_eq_some (h : d.passEcho clock pass = some e) :
    e ∈ d.arrivals pass ∧ e ∈ Bounded.popWhileOver maxHistory (d.arrivals pass) ∧
      ∃ armed, d.expectEcho = some (armed, e.preview) := by
  obtain ⟨ha, hheld, hflag⟩ := firstEcho_eq_some clock h
  obtain ⟨j, hj⟩ := List.getElem?_of_mem ha
  refine ⟨ha, ?_, hflag⟩
  exact (Bounded.mem_popWhileOver_iff (nodup_arrivals d pass) hj).mpr ((mem_filled_iff hj).mp hheld)

theorem step_snapshot_eq (h : d.snapshot.length ≤ maxHistory) :
    (d.step clock pass).snapshot = Bounded.popWhileOver maxHistory
      (d.snapshot ++ (d.passAnnounced clock pass).map EntrySummary.of) := by
  rw [step_snapshot]
  exact Bounded.foldl_push_of_le h _

theorem snapshot_step (h : d.snapshot = d.history.map EntrySummary.of) :
    (d.step clock pass).snapshot = (Bounded.popWhileOver maxHistory (d.history ++
      (Bounded.popWhileOver maxHistory (d.arrivals pass)).filter
        fun e => d.passEcho clock pass ≠ some e)).map EntrySummary.of := by
  have hle : d.snapshot.length ≤ maxHistory := by
    rw [h, List.length_map]
    exact d.app.clipboard.valid.bounded
  rw [step_snapshot_eq clock hle, passAnnounced_eq_filter, h, ← List.map_append,
    Bounded.map_popWhileOver]

-- ---------------------------------------------------------------------------
-- One pass
-- ---------------------------------------------------------------------------

/-- Without an echo the two evictions agree, however many copies arrive. -/
theorem mirror_of_no_echo (h : d.snapshot = d.history.map EntrySummary.of)
    (hecho : d.passEcho clock pass = none) :
    (d.step clock pass).snapshot = (d.step clock pass).history.map EntrySummary.of := by
  rw [snapshot_step clock h, step_history, hecho]
  simp [Bounded.popWhileOver_append_popWhileOver]

theorem mirror_of_no_overflow (h : d.snapshot = d.history.map EntrySummary.of)
    (hle : d.history.length + (d.arrivals pass).length ≤ maxHistory) :
    (d.step clock pass).snapshot = (d.step clock pass).history.map EntrySummary.of := by
  have hfilter : d.history.filter (fun e => d.passEcho clock pass ≠ some e) = d.history := by
    rw [List.filter_eq_self]
    intro e he
    rw [decide_eq_true_iff]
    intro hecho
    exact Nat.lt_irrefl _ (id_lt_of_mem_arrivals he (passEcho_eq_some clock hecho).1)
  have hlen := (List.filter_sublist (l := d.arrivals pass)
    (p := fun e => d.passEcho clock pass ≠ some e)).length_le
  have harrivals : Bounded.popWhileOver maxHistory (d.arrivals pass) = d.arrivals pass :=
    Bounded.popWhileOver_of_le (by omega)
  have hall : Bounded.popWhileOver maxHistory (d.history ++ d.arrivals pass) =
      d.history ++ d.arrivals pass :=
    Bounded.popWhileOver_of_le (by rw [List.length_append]; omega)
  rw [snapshot_step clock h, step_history, harrivals, hall, List.filter_append, hfilter,
    Bounded.popWhileOver_of_le (by rw [List.length_append]; omega)]

theorem length_filter_ne {l : List ClipboardEntry} (hn : l.Nodup) (he : e ∈ l) :
    (l.filter fun x => some e ≠ some x).length = l.length - 1 := by
  rw [← List.length_erase_of_mem he, hn.erase_eq_filter]
  congr 1
  exact List.filter_congr fun x _ => by simp [bne, beq_eq_decide, eq_comm]

/-- An echo in an overflowing pass: the history is one short, the snapshot full. -/
theorem lengths_of_overflow (h : d.snapshot = d.history.map EntrySummary.of)
    (hne : d.history ≠ []) (hover : maxHistory < d.history.length + (d.arrivals pass).length)
    (hecho : d.passEcho clock pass = some e) :
    (d.step clock pass).snapshot.length = maxHistory ∧
      (d.step clock pass).history.length = maxHistory - 1 := by
  obtain ⟨ha, hheld, -⟩ := passEcho_eq_some clock hecho
  have hpos : 0 < d.history.length := List.length_pos_iff.mpr hne
  constructor
  · rw [snapshot_step clock h, List.length_map, Bounded.length_popWhileOver, List.length_append,
      hecho, length_filter_ne ((nodup_arrivals d pass).sublist (Bounded.popWhileOver_sublist _))
        hheld, Bounded.length_popWhileOver]
    have : 0 < (d.arrivals pass).length := List.length_pos_of_mem ha
    omega
  · have hmem : e ∈ Bounded.popWhileOver maxHistory (d.history ++ d.arrivals pass) := by
      rw [← filter_held] at hheld
      simpa using (List.mem_filter.mp hheld).2
    rw [step_history, hecho, length_filter_ne ((nodup_history_arrivals d pass).sublist
      (Bounded.popWhileOver_sublist _)) hmem, Bounded.length_popWhileOver, List.length_append]
    omega

/-- The pass overflows the history, and a copy it still holds after the drain
meets a fresh flag with its preview. -/
def Daemon.DropsRow (d : Daemon) (pass : Pass) : Prop :=
  maxHistory < d.history.length + (d.arrivals pass).length ∧
    ∃ j e, (d.arrivals pass)[j]? = some e ∧ (d.arrivals pass).length ≤ j + maxHistory ∧
      isEcho (clock.reading (d.ticks + 2 * j + 1)) d.expectEcho e.preview = true

theorem passEcho_isSome (d : Daemon) (pass : Pass) :
    (d.passEcho clock pass).isSome ↔
      ∃ j e, (d.arrivals pass)[j]? = some e ∧ (d.arrivals pass).length ≤ j + maxHistory ∧
        isEcho (clock.reading (d.ticks + 2 * j + 1)) d.expectEcho e.preview = true := by
  rw [Daemon.passEcho, Daemon.echo, firstEcho_isSome]
  refine exists_congr fun j => exists_congr fun e => and_congr_right fun hj => ?_
  exact and_congr_left fun _ => mem_filled_iff hj

/-- An armed flag names an entry, so there is one. -/
def Daemon.Armed (d : Daemon) : Prop := d.expectEcho.isSome → d.history ≠ []

theorem mirror_step_iff (h : d.snapshot = d.history.map EntrySummary.of) (harmed : d.Armed) :
    (d.step clock pass).snapshot = (d.step clock pass).history.map EntrySummary.of ↔
      ¬ d.DropsRow clock pass := by
  by_cases hover : maxHistory < d.history.length + (d.arrivals pass).length
  · rw [Daemon.DropsRow, and_iff_right hover, ← passEcho_isSome]
    cases hecho : d.passEcho clock pass with
    | none => simpa using mirror_of_no_echo clock h hecho
    | some e =>
      obtain ⟨armed, hflag⟩ := (passEcho_eq_some clock hecho).2.2
      obtain ⟨hsnap, hhist⟩ :=
        lengths_of_overflow clock h (harmed (by simp [hflag])) hover hecho
      refine iff_of_false (fun heq => ?_) (by simp)
      have := congrArg List.length heq
      rw [hsnap, List.length_map, hhist, maxHistory] at this
      omega
  · exact iff_of_true (mirror_of_no_overflow clock h (Nat.not_lt.mp hover)) fun hd => hover hd.1

theorem armed_step (harmed : d.Armed) : (d.step clock pass).Armed := by
  intro hsome
  rcases step_expectEcho clock d pass with h | ⟨hflag, hecho, -⟩ | ⟨e, he, -⟩
  · simp [h] at hsome
  · rw [hflag] at hsome
    rw [step_history, hecho, ← List.length_pos_iff]
    have := List.length_pos_iff.mpr (harmed hsome)
    simp only [ne_eq, reduceCtorEq, not_false_eq_true, decide_true, List.filter_true,
      Bounded.length_popWhileOver, List.length_append, maxHistory]
    omega
  · exact List.ne_nil_of_mem he

-- ---------------------------------------------------------------------------
-- Runs
-- ---------------------------------------------------------------------------

theorem run_take_succ (d : Daemon) {passes : List Pass} (h : passes[n]? = some pass) :
    d.run clock (passes.take (n + 1)) = (d.run clock (passes.take n)).step clock pass := by
  rw [List.take_add_one, h]
  simp [Daemon.run]

theorem armed_run (harmed : d.Armed) (passes : List Pass) : (d.run clock passes).Armed := by
  induction passes generalizing d with
  | nil => exact harmed
  | cons pass passes ih => exact ih (armed_step clock harmed)

/-- The snapshot mirrors the history after every pass of a run exactly when no
pass overflows the history and meets an echo. -/
theorem snapshot_mirrors_iff (seat manager device : Global) (passes : List Pass) :
    (∀ n ≤ passes.length,
      Mirrors ((Daemon.start seat manager device).run clock (passes.take n))) ↔
    ∀ n pass, passes[n]? = some pass →
      ¬ ((Daemon.start seat manager device).run clock (passes.take n)).DropsRow clock pass := by
  have harmed (n : Nat) : ((Daemon.start seat manager device).run clock (passes.take n)).Armed :=
    armed_run clock (fun hsome => by cases hsome) _
  simp only [mirrors_iff]
  constructor
  · intro h n pass hn
    have hlt : n < passes.length := (List.getElem?_eq_some_iff.mp hn).1
    rw [← mirror_step_iff clock (h n hlt.le) (harmed n), ← run_take_succ clock _ hn]
    exact h (n + 1) hlt
  · intro h n
    induction n with
    | zero => exact fun _ => rfl
    | succ n ih =>
      intro hlt
      have hn : passes[n]? = some passes[n] := List.getElem?_eq_getElem hlt
      rw [run_take_succ clock _ hn, mirror_step_iff clock (ih (by omega)) (harmed n)]
      exact h n _ hn

-- ---------------------------------------------------------------------------
-- A full history and an echo
-- ---------------------------------------------------------------------------

def letter (n : Nat) : UInt8 := if n % 2 = 0 then 0x61 else 0x62

def copyLetter (d : Daemon) (n : Nat) (mimes : List String) : Pass :=
  copyPass d.app.pipes ⟨n + 1, n⟩ mimes fun _ => [letter n]

def letterPasses : Nat → List Pass
  | 0 => []
  | n + 1 => letterPasses n ++
    [copyLetter ((Daemon.start 0 0 0).run .still (letterPasses n)) n ["text/plain"]]

def letterContent (mimes : List String) (n : Nat) : Option ClipboardContent :=
  fromBlobs .sorted .sorted (payloads (fun _ => [letter n]) (pickMimes mimes))

theorem letter_cases (n : Nat) :
    letter n = 0x61 ∧ letter (n + 1) = 0x62 ∨ letter n = 0x62 ∧ letter (n + 1) = 0x61 := by
  unfold letter
  rcases Nat.mod_two_eq_zero_or_one n with h | h
  · exact .inl ⟨by rw [if_pos h], by rw [if_neg (by omega)]⟩
  · exact .inr ⟨by rw [if_neg (by omega)], by rw [if_pos (by omega)]⟩

theorem letterContent_isSome (n : Nat) : (letterContent ["text/plain"] n).isSome := by
  unfold letterContent
  rcases letter_cases n with ⟨h, -⟩ | ⟨h, -⟩ <;> rw [h] <;> decide +kernel

theorem letterContent_ne (n : Nat) :
    letterContent ["text/plain"] (n + 1) ≠ letterContent ["text/plain"] n := by
  unfold letterContent
  rcases letter_cases n with ⟨h, h'⟩ | ⟨h, h'⟩ <;> rw [h, h'] <;> decide +kernel

theorem letterContent_aliases (n : Nat) :
    letterContent textAliases n ≠ letterContent ["text/plain"] n ∧
      (letterContent textAliases n).map (·.preview) =
        (letterContent ["text/plain"] n).map (·.preview) := by
  unfold letterContent
  rcases letter_cases n with ⟨h, -⟩ | ⟨h, -⟩ <;> rw [h] <;> decide +kernel

theorem announces_letter (hsel : ∀ old, d.app.currentSelection = some old → old.protocolId ≤ n)
    (mimes : List String) :
    Announces d.app (copyLetter d n mimes) ⟨n + 1, n⟩ mimes fun _ => [letter n] :=
  announces_copyPass fun old hold => Nat.ne_of_lt (Nat.lt_succ_of_le (hsel old hold))

theorem arrivals_letter (hidle : d.app.pendingReads = [])
    (hsel : ∀ old, d.app.currentSelection = some old → old.protocolId ≤ n)
    (hc : letterContent mimes n = some content)
    (hlast : d.app.clipboard.latest.map (·.content) ≠ some content) :
    d.arrivals (copyLetter d n mimes) = [⟨d.app.clipboard.nextId, 0, content⟩] := by
  have harr := arrivals_selection (announces_letter hsel mimes) hidle (fun _ _ => by simp)
    (fun _ _ => by simp [maxContentBytes])
  refine harr.trans ?_
  have hf : fromBlobs ((copyLetter d n mimes).drain.hasher (n + 1))
      ((copyLetter d n mimes).drain.textHasher (n + 1))
      (payloads (fun _ => [letter n]) (pickMimes mimes)) = some content := hc
  simp only [hf, if_neg hlast]
  rfl

structure Lettered (n : Nat) (d : Daemon) : Prop where
  length : d.history.length = n
  rows : d.snapshot = d.history.map EntrySummary.of
  idle : d.app.pendingReads = []
  flag : d.expectEcho = none
  selection : ∀ old, d.app.currentSelection = some old → old.protocolId ≤ n
  able : d.app.manager.isSome ∧ d.app.device.isSome
  last : d.app.clipboard.latest.map (·.content) =
    match n with
    | 0 => none
    | m + 1 => letterContent ["text/plain"] m

theorem lettered_step (h : Lettered n d) (hroom : n < maxHistory) :
    Lettered (n + 1) (d.step .still (copyLetter d n ["text/plain"])) := by
  obtain ⟨hlen, hrows, hidle, hflag, hsel, hable, hlast⟩ := h
  obtain ⟨content, hc⟩ := Option.isSome_iff_exists.mp (letterContent_isSome n)
  have hnew : d.app.clipboard.latest.map (·.content) ≠ some content := by
    rw [hlast, ← hc]
    cases n with
    | zero => exact fun h => by simp [← h] at hc
    | succ m => exact (letterContent_ne m).symm
  have harr := arrivals_letter hidle hsel hc hnew
  have hecho : d.passEcho .still (copyLetter d n ["text/plain"]) = none := by
    rw [Option.eq_none_iff_forall_ne_some]
    intro e he
    obtain ⟨-, -, armed, hf⟩ := passEcho_eq_some .still he
    rw [hflag] at hf
    cases hf
  have hhist : (d.step .still (copyLetter d n ["text/plain"])).history =
      d.history ++ [⟨d.app.clipboard.nextId, 0, content⟩] := by
    rw [step_history, harr, hecho, Bounded.popWhileOver_of_le]
    · simp
    · rw [List.length_append, hlen]
      exact hroom
  have hreq : (copyLetter d n ["text/plain"]).requests = [] := rfl
  obtain ⟨⟨offers, clipboard, happ⟩, hflag'⟩ := step_frame .still d hreq
  obtain ⟨_, _, hdispatch⟩ := dispatch_selection (announces_letter hsel ["text/plain"])
  have happ' : (d.dispatched (copyLetter d n ["text/plain"])).app = _ := hdispatch
  rw [happ'] at happ
  refine ⟨?_, mirror_of_no_echo .still hrows hecho, ?_, ?_, ?_, ?_, ?_⟩
  · rw [hhist, List.length_append, hlen]
    rfl
  · rw [happ]
  · rw [hflag] at hflag'
    exact hflag'.elim id id
  · rw [happ]
    intro old hold
    cases hold
    exact Nat.le_refl _
  · rw [happ]
    exact hable
  · have hl : (d.step .still (copyLetter d n ["text/plain"])).app.clipboard.latest =
        some ⟨d.app.clipboard.nextId, 0, content⟩ := by
      rw [ClipState.latest, show ClipState.entries _ = _ from hhist, List.getLast?_append]
      rfl
    rw [hl]
    exact hc.symm

theorem lettered (n : Nat) (h : n ≤ maxHistory) :
    Lettered n ((Daemon.start 0 0 0).run .still (letterPasses n)) := by
  induction n with
  | zero => exact ⟨rfl, rfl, rfl, rfl, nofun, ⟨rfl, rfl⟩, rfl⟩
  | succ n ih =>
    rw [letterPasses, Daemon.run, List.foldl_append]
    exact lettered_step (ih (Nat.le_of_succ_le h)) h

def restoreLast (d : Daemon) : Daemon :=
  d.step .still (restorePass ⟨(d.app.clipboard.latest.map (·.id)).getD 0, 0⟩)

theorem restoreLast_eq (h : Lettered n d) (hlatest : d.app.clipboard.latest = some e) :
    restoreLast d =
      { d with
        app := d.app.publish .sorted (AppState.sourceContents .sorted e.content)
        expectEcho := some (0, e.preview)
        ticks := d.ticks + 1
        restoredEntry := some e
        replies := d.replies ++ [(0, .restored e.id)] } := by
  have hget : d.app.clipboard.get e.id = some e :=
    ClipState.get_eq_some_iff.mpr ⟨List.mem_of_getLast? hlatest, rfl⟩
  rw [restoreLast, restorePass, step_restore .still h.idle, hlatest]
  simp only [Option.map_some, Option.getD_some, Daemon.handleRestore, hget,
    AppState.restoreEntry_of_get hget h.able.1 h.able.2]
  rfl

/-- The echo of the last entry evicts the oldest before it is taken out again. -/
theorem lettered_drops_row (h : Lettered (m + 1) d) (hm : m + 1 = maxHistory) :
    ¬ Mirrors ((restoreLast d).step .still (copyLetter (restoreLast d) (m + 2) textAliases)) := by
  obtain ⟨content, hc⟩ := Option.isSome_iff_exists.mp (letterContent_isSome m)
  obtain ⟨e, hlatest, he⟩ := Option.map_eq_some_iff.mp (h.last.trans hc)
  have hrestored := restoreLast_eq h hlatest
  rw [AppState.publish_eq] at hrestored
  obtain ⟨hnew, hpreview⟩ := letterContent_aliases m
  have hsame : letterContent textAliases (m + 2) = letterContent textAliases m := by
    simp [letterContent, letter]
  rw [← hsame, hc] at hnew hpreview
  obtain ⟨echo, hecho, hpreview⟩ := Option.map_eq_some_iff.mp hpreview
  have harr : (restoreLast d).arrivals (copyLetter (restoreLast d) (m + 2) textAliases) =
      [⟨d.app.clipboard.nextId, 0, echo⟩] := by
    rw [hecho] at hnew
    rw [arrivals_letter _ _ hecho] <;> rw [hrestored]
    · change d.app.clipboard.latest.map (·.content) ≠ some echo
      rw [hlatest, Option.map_some, he]
      exact hnew.symm
    · exact h.idle
    · exact fun old hold => Nat.le_succ_of_le (h.selection old hold)
  rw [mirrors_iff, mirror_step_iff .still, not_not]
  · refine ⟨?_, 0, _, by rw [harr]; rfl, ?_, ?_⟩
    · rw [harr, hrestored]
      change maxHistory < d.history.length + 1
      rw [h.length, hm]
      exact Nat.lt_succ_self _
    · rw [harr]
      simp [maxHistory]
    · rw [hrestored]
      refine isEcho_iff.mpr ⟨0, ?_, Nat.zero_lt_succ _⟩
      change some (0, e.content.preview) = some (0, echo.preview)
      rw [he, hpreview]
  · rw [hrestored]
    exact h.rows
  · intro _
    rw [hrestored]
    exact List.ne_nil_of_mem (List.mem_of_getLast? hlatest)

theorem full_history_drops_row :
    let d := (Daemon.start 0 0 0).run .still (letterPasses maxHistory)
    ¬ Mirrors ((restoreLast d).step .still
      (copyLetter (restoreLast d) (maxHistory + 1) textAliases)) :=
  lettered_drops_row (lettered maxHistory (Nat.le_refl _)) rfl

end Uclip
