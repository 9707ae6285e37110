import Mathlib.Order.Basic

/-!
# A bounded channel with fair senders

A queue of bounded length. A sender that finds no free slot waits in line; a
slot that the receiver frees is granted to the first in line, who puts its value
in when it is polled next.
-/

structure Channel (κ α : Type) where
  queue : List α := []
  waiting : List κ := []
  granted : List κ := []
  deriving DecidableEq, Repr

namespace Channel

variable [DecidableEq κ] {cap : Nat} {ch : Channel κ α}

def used (ch : Channel κ α) : Nat := ch.queue.length + ch.granted.length

/-- One poll of a sender: whether its value is in the queue now. -/
def pollSend (cap : Nat) (ch : Channel κ α) (k : κ) (a : α) : Channel κ α × Bool :=
  if k ∈ ch.granted then
    ({ ch with granted := ch.granted.erase k, queue := ch.queue ++ [a] }, true)
  else if k ∈ ch.waiting then (ch, false)
  else if ch.used < cap then ({ ch with queue := ch.queue ++ [a] }, true)
  else ({ ch with waiting := ch.waiting ++ [k] }, false)

/-- The receiver takes a value, and its slot goes to the first in line. -/
def pop (ch : Channel κ α) : Option (α × Channel κ α) :=
  match ch.queue, ch.waiting with
  | [], _ => none
  | a :: queue, [] => some (a, { ch with queue })
  | a :: queue, k :: waiting => some (a, { queue, waiting, granted := ch.granted ++ [k] })

/-- The receiver is gone: what is queued is dropped, and every sender is woken. -/
def close (ch : Channel κ α) : Channel κ α := { ch with queue := [], waiting := [] }

/-- Nobody waits while a slot is free. -/
structure Valid (cap : Nat) (ch : Channel κ α) : Prop where
  bounded : ch.used ≤ cap
  full : ch.waiting ≠ [] → ch.used = cap

omit [DecidableEq κ] in
theorem valid_empty (cap : Nat) : Valid cap ({} : Channel κ α) :=
  ⟨Nat.zero_le _, fun h => absurd rfl h⟩

theorem Valid.pollSend (h : ch.Valid cap) (k : κ) (a : α) : (ch.pollSend cap k a).1.Valid cap := by
  unfold Channel.pollSend
  split
  · rename_i hk
    have hlen := List.length_erase_of_mem hk
    have hpos := List.length_pos_of_mem hk
    have hused : used { ch with granted := ch.granted.erase k, queue := ch.queue ++ [a] } =
        ch.used := by
      simp only [used, List.length_append, List.length_singleton, hlen]
      omega
    exact ⟨hused.trans_le h.bounded, fun hw => hused.trans (h.full hw)⟩
  · split
    · exact h
    · split
      · rename_i hfree
        have hused : used { ch with queue := ch.queue ++ [a] } = ch.used + 1 := by
          simp only [used, List.length_append, List.length_singleton]
          omega
        refine ⟨hused.trans_le hfree, fun hw => ?_⟩
        exact absurd (h.full hw) (Nat.ne_of_lt hfree)
      · rename_i hfull
        exact ⟨h.bounded, fun _ => Nat.le_antisymm h.bounded (Nat.le_of_not_lt hfull)⟩

omit [DecidableEq κ] in
theorem Valid.pop {ch' : Channel κ α} (h : ch.Valid cap) (hp : ch.pop = some (a, ch')) :
    ch'.Valid cap := by
  have hle := h.bounded
  unfold Channel.pop at hp
  split at hp
  · cases hp
  · rename_i a queue hq hw
    cases hp
    simp only [used, hq, List.length_cons] at hle
    exact ⟨by simp only [used]; omega, fun hne => absurd hw hne⟩
  · rename_i a queue k waiting hq hw
    have hfull := h.full (by simp [hw])
    cases hp
    simp only [used, hq, List.length_cons] at hle hfull
    refine ⟨?_, fun _ => ?_⟩
    · simp only [used, List.length_append, List.length_singleton]
      omega
    · simp only [used, List.length_append, List.length_singleton]
      omega

omit [DecidableEq κ] in
theorem Valid.close (h : ch.Valid cap) : ch.close.Valid cap := by
  have hle := h.bounded
  simp only [used] at hle
  exact ⟨by simp only [used, Channel.close, List.length_nil]; omega, fun hne => (hne rfl).elim⟩

theorem Valid.pollSend_iff (h : ch.Valid cap) (k : κ) (a : α) :
    (ch.pollSend cap k a).2 = true ↔ k ∈ ch.granted ∨ ch.used < cap := by
  unfold Channel.pollSend
  split
  · simp [*]
  · split
    · rename_i hk hw
      have hfull := h.full (List.ne_nil_of_mem hw)
      simp [hk, hfull]
    · split
      · simp [*]
      · simp [*]

theorem pollSend_stuck {k : κ} {a : α} (h : (ch.pollSend cap k a).2 = false) :
    (ch.pollSend cap k a).1.queue = ch.queue ∧ (ch.pollSend cap k a).1.granted = ch.granted := by
  unfold Channel.pollSend at h ⊢
  split
  · simp [*] at h
  · split
    · exact ⟨rfl, rfl⟩
    · split
      · simp [*] at h
      · exact ⟨rfl, rfl⟩

theorem pollSend_queue (cap : Nat) (ch : Channel κ α) (k : κ) (a : α) :
    (ch.pollSend cap k a).1.queue =
      if (ch.pollSend cap k a).2 then ch.queue ++ [a] else ch.queue := by
  unfold Channel.pollSend
  split
  · rfl
  · split
    · rfl
    · split <;> rfl

omit [DecidableEq κ] in
theorem pop_queue {ch' : Channel κ α} (h : ch.pop = some (a, ch')) :
    ch.queue = a :: ch'.queue := by
  unfold Channel.pop at h
  split at h
  · cases h
  · cases h
    assumption
  · cases h
    assumption

end Channel
