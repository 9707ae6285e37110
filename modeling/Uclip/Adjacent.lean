import Mathlib.Data.List.Chain
import Uclip.Collision

/-!
# Equal neighbours in the history

A copy is compared with the last entry when it is stored. The loop takes the
echo out afterwards, so a copy that was stored behind the echo can end up next
to an equal entry in front of it. That is the only way two neighbours become
equal: evictions and further copies keep them apart.
-/

namespace Uclip

open Text (Bytes)

variable (clock : Clock) {d : Daemon} {pass : Pass} {e : ClipboardEntry}

def NoRepeat (entries : List ClipboardEntry) : Prop :=
  entries.IsChain fun a b => a.content ≠ b.content

instance (entries : List ClipboardEntry) : Decidable (NoRepeat entries) :=
  inferInstanceAs (Decidable (entries.IsChain _))

/-- The `j`-th copy of the pass is the first one to meet the fresh flag, among
those that are still held when the outcomes are looked at. -/
structure EchoAt (d : Daemon) (pass : Pass) (j : Nat) (e : ClipboardEntry) : Prop where
  arrival : (d.arrivals pass)[j]? = some e
  recent : (d.arrivals pass).length ≤ j + maxHistory
  echo : isEcho (clock.reading (d.ticks + 2 * j + 1)) d.expectEcho e.preview = true
  first : ∀ i < j, ∀ x, (d.arrivals pass)[i]? = some x →
    (d.arrivals pass).length ≤ i + maxHistory →
      ¬ isEcho (clock.reading (d.ticks + 2 * i + 1)) d.expectEcho x.preview = true

/-- The echo of the pass stands between two entries of equal content, both of
them among the last `maxHistory`. -/
def Daemon.Rejoins (d : Daemon) (pass : Pass) : Prop :=
  ∃ j e, EchoAt clock d pass j e ∧ ∃ older a b newer,
    d.history ++ d.arrivals pass = older ++ a :: e :: b :: newer ∧
      newer.length + 3 ≤ maxHistory ∧ a.content = b.content

-- ---------------------------------------------------------------------------
-- Taking one element out of a list
-- ---------------------------------------------------------------------------

theorem filter_ne_middle [DecidableEq α] {older newer : List α} {x : α}
    (hn : (older ++ x :: newer).Nodup) :
    (older ++ x :: newer).filter (· ≠ x) = older ++ newer := by
  obtain ⟨-, hnewer, hdisjoint⟩ := List.nodup_append.mp hn
  have holder : older.filter (· ≠ x) = older := by
    refine List.filter_eq_self.mpr fun y hy => decide_eq_true ?_
    exact hdisjoint y hy x List.mem_cons_self
  have hnewer : newer.filter (· ≠ x) = newer := by
    refine List.filter_eq_self.mpr fun y hy => decide_eq_true ?_
    rintro rfl
    exact (List.nodup_cons.mp hnewer).1 hy
  rw [List.filter_append, List.filter_cons_of_neg (by simp), holder, hnewer]

theorem isChain_filter_ne_iff [DecidableEq α] {R : α → α → Prop} {l : List α} {x : α}
    (hn : l.Nodup) (hx : x ∈ l) (h : l.IsChain R) :
    (l.filter (· ≠ x)).IsChain R ↔
      ∀ older a b newer, l = older ++ a :: x :: b :: newer → R a b := by
  constructor
  · rintro hchain older a b newer rfl
    rw [List.append_cons] at hn hchain
    rw [filter_ne_middle hn, List.append_assoc, List.singleton_append] at hchain
    exact (List.isChain_append_cons_cons.mp hchain).2.1
  · intro hneighbours
    obtain ⟨older, newer, rfl⟩ := List.append_of_mem hx
    obtain ⟨holder, hnewer, -⟩ := List.isChain_append.mp h
    rw [filter_ne_middle hn]
    refine List.isChain_append.mpr ⟨holder, hnewer.tail, fun a ha b hb => ?_⟩
    obtain ⟨older, rfl⟩ := List.getLast?_eq_some_iff.mp ha
    obtain ⟨newer, rfl⟩ := List.head?_eq_some_iff.mp hb
    exact hneighbours older a b newer (by simp)

-- ---------------------------------------------------------------------------
-- Storing
-- ---------------------------------------------------------------------------

theorem noRepeat_accepted (env : DrainEnv) (last : Option ClipboardContent) (nextId : Nat)
    (l : List (Nat × Blobs)) :
    NoRepeat (accepted env last nextId l) ∧
      ∀ e ∈ (accepted env last nextId l).head?, last ≠ some e.content := by
  induction l generalizing last nextId with
  | nil => exact ⟨List.isChain_nil, nofun⟩
  | cons copy rest ih =>
    obtain ⟨offerId, blobs⟩ := copy
    simp only [accepted]
    split
    · exact ih ..
    · rename_i content hcontent
      split
      · exact ih ..
      · rename_i hlast
        obtain ⟨hchain, hhead⟩ := ih (some content) (nextId + 1)
        refine ⟨List.isChain_cons.mpr ⟨fun e he => ?_, hchain⟩, ?_⟩
        · exact fun h => hhead e he (congrArg some h)
        · rintro _ ⟨⟩
          exact hlast

theorem noRepeat_filled (h : NoRepeat d.history) : NoRepeat (d.history ++ d.arrivals pass) := by
  obtain ⟨hchain, hhead⟩ := noRepeat_accepted pass.drain
    ((d.dispatched pass).app.clipboard.latest.map (·.content))
    (d.dispatched pass).app.clipboard.nextId
    (copies pass.drain (d.dispatched pass).app.pendingReads)
  refine List.isChain_append.mpr ⟨h, hchain, fun a ha b hb hab => ?_⟩
  apply hhead b hb
  rw [Daemon.dispatched, dispatchPending_clipboard, ClipState.latest, ha, ← hab]
  rfl

-- ---------------------------------------------------------------------------
-- One pass
-- ---------------------------------------------------------------------------

theorem passEcho_eq_some_iff_echoAt :
    d.passEcho clock pass = some e ↔ ∃ j, EchoAt clock d pass j e := by
  rw [passEcho_eq_some_iff]
  refine exists_congr fun j => ⟨?_, ?_⟩
  · rintro ⟨harrival, hrecent, hecho, hfirst⟩
    exact ⟨harrival, hrecent, hecho, hfirst⟩
  · rintro ⟨harrival, hrecent, hecho, hfirst⟩
    exact ⟨harrival, hrecent, hecho, hfirst⟩

theorem popWhileOver_split_iff {all : List ClipboardEntry} :
    (∃ older newer, Bounded.popWhileOver maxHistory all = older ++ a :: e :: b :: newer) ↔
      ∃ older newer, all = older ++ a :: e :: b :: newer ∧ newer.length + 3 ≤ maxHistory := by
  rw [Bounded.popWhileOver_eq_drop]
  constructor
  · rintro ⟨older, newer, h⟩
    refine ⟨all.take (all.length - maxHistory) ++ older, newer, ?_, ?_⟩
    · rw [List.append_assoc, ← h, List.take_append_drop]
    · have hlen := congrArg List.length h
      simp only [List.length_drop, List.length_append, List.length_cons] at hlen
      omega
  · rintro ⟨older, newer, rfl, hle⟩
    refine ⟨older.drop ((older ++ a :: e :: b :: newer).length - maxHistory), newer, ?_⟩
    rw [List.drop_append_of_le_length]
    simp only [List.length_append, List.length_cons]
    omega

theorem noRepeat_step_iff (h : NoRepeat d.history) :
    NoRepeat (d.step clock pass).history ↔ ¬ d.Rejoins clock pass := by
  have hkept : NoRepeat (Bounded.popWhileOver maxHistory (d.history ++ d.arrivals pass)) := by
    rw [Bounded.popWhileOver_eq_drop]
    exact (noRepeat_filled h).drop _
  rw [step_history]
  cases hecho : d.passEcho clock pass with
  | none =>
    refine iff_of_true (by simpa using hkept) ?_
    rintro ⟨j, e, hat, -⟩
    rw [(passEcho_eq_some_iff_echoAt clock).mpr ⟨j, hat⟩] at hecho
    cases hecho
  | some e =>
    have hfilter : (Bounded.popWhileOver maxHistory (d.history ++ d.arrivals pass)).filter
          (fun x => some e ≠ some x) =
        (Bounded.popWhileOver maxHistory (d.history ++ d.arrivals pass)).filter (· ≠ e) :=
      List.filter_congr fun x _ => by simp [eq_comm]
    have hmem : e ∈ Bounded.popWhileOver maxHistory (d.history ++ d.arrivals pass) := by
      rw [← filled_history]
      exact (firstEcho_eq_some clock hecho).2.1
    rw [hfilter, NoRepeat, isChain_filter_ne_iff
      ((nodup_history_arrivals d pass).sublist (Bounded.popWhileOver_sublist _)) hmem hkept]
    constructor
    · rintro hne ⟨j, e', hat, older, a, b, newer, hsplit, hle, hab⟩
      have he := (passEcho_eq_some_iff_echoAt clock).mpr ⟨j, hat⟩
      cases hecho.symm.trans he
      obtain ⟨older, newer, hkept⟩ := popWhileOver_split_iff.mpr ⟨older, newer, hsplit, hle⟩
      exact hne older a b newer hkept hab
    · intro hnot older a b newer hkept hab
      obtain ⟨j, hat⟩ := (passEcho_eq_some_iff_echoAt clock).mp hecho
      obtain ⟨older, newer, hsplit, hle⟩ := popWhileOver_split_iff.mp ⟨older, newer, hkept⟩
      exact hnot ⟨j, e, hat, older, a, b, newer, hsplit, hle, hab⟩

/-- No two neighbours are equal after any pass of a run exactly when no pass
takes the echo out from between two entries of equal content. -/
theorem no_repeat_iff (seat manager device : Global) (passes : List Pass) :
    (∀ n ≤ passes.length,
      NoRepeat ((Daemon.start seat manager device).run clock (passes.take n)).history) ↔
    ∀ n pass, passes[n]? = some pass →
      ¬ ((Daemon.start seat manager device).run clock (passes.take n)).Rejoins clock pass := by
  constructor
  · intro h n pass hn
    have hlt : n < passes.length := (List.getElem?_eq_some_iff.mp hn).1
    rw [← noRepeat_step_iff clock (h n hlt.le), ← run_take_succ clock _ hn]
    exact h (n + 1) hlt
  · intro h n
    induction n with
    | zero => exact fun _ => List.isChain_nil
    | succ n ih =>
      intro hlt
      have hn : passes[n]? = some passes[n] := List.getElem?_eq_getElem hlt
      rw [run_take_succ clock _ hn, noRepeat_step_iff clock (ih (by omega))]
      exact h n _ hn

-- ---------------------------------------------------------------------------
-- The echo and a copy in one drain
-- ---------------------------------------------------------------------------

def restoredFirst : List Pass :=
  [copyPass 0 ⟨1, 0⟩ ["text/plain"] fun _ => [0x62],
    copyPass 1 ⟨2, 1⟩ ["text/plain"] fun _ => [0x61], restorePass ⟨1, 0⟩]

def echoThenCopy : Pass where
  events := selectionEvents ⟨3, 2⟩ textAliases ++ selectionEvents ⟨4, 3⟩ ["text/plain"]
  drain := { (copyPass 0 ⟨0, 0⟩ [] fun _ => []).drain with
    pipe := fun fd => .ok (if fd < 6 then [0x62] else [0x61]) }

theorem echo_rejoins_copies :
    ¬ NoRepeat ((Daemon.start 0 0 0).run .still (restoredFirst ++ [echoThenCopy])).history := by
  decide +kernel

end Uclip
