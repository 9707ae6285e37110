/-!
# A broadcast ring

Every value sent gets the next position. A receiver stands at a position; it is
given the values from there on, in order, and where the ring has overwritten
some of them, one notice for all that it has missed.
-/

namespace Broadcast

inductive Received (α : Type)
  | value (a : α)
  | lagged (missed : Nat)
  deriving DecidableEq, Repr

/-- What a receiver at `next` is given, and where it stands then. -/
def recv (cap : Nat) (sent : List α) (next : Nat) : Option (Received α × Nat) :=
  match sent[next]? with
  | none => none
  | some a =>
    if cap < sent.length - next then
      some (.lagged (sent.length - cap - next), sent.length - cap)
    else some (.value a, next + 1)

variable {cap next : Nat} {sent : List α}

theorem recv_eq_some (h : recv cap sent next = some (r, next')) :
    (∃ a, sent[next]? = some a ∧ r = .value a ∧ next' = next + 1) ∨
      (next < next' ∧ next' = sent.length - cap ∧ r = .lagged (next' - next)) := by
  unfold recv at h
  split at h
  · cases h
  · rename_i a ha
    split at h
    · cases h
      exact .inr ⟨by omega, rfl, rfl⟩
    · cases h
      exact .inl ⟨a, ha, rfl, rfl⟩

theorem recv_le (h : recv cap sent next = some (r, next')) : next' ≤ sent.length := by
  rcases recv_eq_some h with ⟨a, ha, -, rfl⟩ | ⟨-, rfl, -⟩
  · exact (List.getElem?_eq_some_iff.mp ha).1
  · exact Nat.sub_le _ _

def Buffered (cap : Nat) (sent : List α) (next i : Nat) : Prop :=
  next ≤ i ∧ i < sent.length ∧ sent.length ≤ i + cap

/-- A receiver misses nothing in silence: what it was not given yet is in the
ring, or the next thing it is given is a notice. -/
theorem buffered_or_lagged {i : Nat} (hle : next ≤ i) (hlt : i < sent.length) :
    Buffered cap sent next i ∨
      ∃ missed next', recv cap sent next = some (.lagged missed, next') ∧ i < next' := by
  by_cases hring : sent.length ≤ i + cap
  · exact .inl ⟨hle, hlt, hring⟩
  · have hnext : next < sent.length := Nat.lt_of_le_of_lt hle hlt
    refine .inr ⟨sent.length - cap - next, sent.length - cap, ?_, by omega⟩
    simp only [recv, List.getElem?_eq_getElem hnext]
    exact if_pos (by omega)

inductive Reads (cap : Nat) (sent : List α) : Nat → List (Received α) → Nat → Prop
  | done (next : Nat) : Reads cap sent next [] next
  | read {next mid last : Nat} {r : Received α} {rest : List (Received α)} :
      recv cap sent next = some (r, mid) → Reads cap sent mid rest last →
      Reads cap sent next (r :: rest) last

def owed (cap : Nat) (sent : List α) (next : Nat) : List (Received α) :=
  if cap < sent.length - next then
    .lagged (sent.length - cap - next) :: (sent.drop (sent.length - cap)).map .value
  else (sent.drop next).map .value

theorem reads_values (hle : next ≤ sent.length) (hring : sent.length ≤ next + cap) :
    Reads cap sent next ((sent.drop next).map .value) sent.length := by
  induction hleft : sent.length - next generalizing next with
  | zero =>
    obtain rfl : next = sent.length := by omega
    rw [List.drop_length]
    exact .done _
  | succ left ih =>
    have hlt : next < sent.length := by omega
    rw [List.drop_eq_getElem_cons hlt]
    refine .read ?_ (ih (by omega) (by omega) (by omega))
    simp only [recv, List.getElem?_eq_getElem hlt]
    exact if_neg (by omega)

theorem reads_owed (hle : next ≤ sent.length) :
    Reads cap sent next (owed cap sent next) sent.length := by
  by_cases hlag : cap < sent.length - next
  · have hlt : next < sent.length := by omega
    rw [owed, if_pos hlag]
    refine .read ?_ (reads_values (Nat.sub_le _ _) (by omega))
    simp only [recv, List.getElem?_eq_getElem hlt]
    exact if_pos hlag
  · rw [owed, if_neg hlag]
    exact reads_values hle (by omega)

end Broadcast
