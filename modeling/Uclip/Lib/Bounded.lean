import Mathlib.Data.List.Nodup

/-!
# Lists that drop their oldest elements

`popWhileOver cap` is the loop `while len > cap { pop_front }`. Its laws say
that it keeps the last `cap` elements, so that popping early, late or twice
makes no difference.
-/

namespace Bounded

def popWhileOver (cap : Nat) : List α → List α
  | [] => []
  | x :: xs => if xs.length + 1 > cap then popWhileOver cap xs else x :: xs

/-- One store into a bounded list: append, then pop while too long. -/
def push (cap : Nat) (xs : List α) (x : α) : List α := popWhileOver cap (xs ++ [x])

variable {cap : Nat}

theorem popWhileOver_eq_drop (xs : List α) :
    popWhileOver cap xs = xs.drop (xs.length - cap) := by
  induction xs with
  | nil => simp [popWhileOver]
  | cons x xs ih =>
    rw [popWhileOver]
    split
    · rw [ih, List.length_cons, show xs.length + 1 - cap = xs.length - cap + 1 by omega,
        List.drop_succ_cons]
    · rw [List.length_cons, show xs.length + 1 - cap = 0 by omega, List.drop_zero]

theorem length_popWhileOver (xs : List α) :
    (popWhileOver cap xs).length = min xs.length cap := by
  rw [popWhileOver_eq_drop, List.length_drop]
  omega

theorem popWhileOver_of_le {xs : List α} (h : xs.length ≤ cap) : popWhileOver cap xs = xs := by
  rw [popWhileOver_eq_drop, Nat.sub_eq_zero_of_le h, List.drop_zero]

theorem popWhileOver_sublist (xs : List α) : (popWhileOver cap xs).Sublist xs := by
  rw [popWhileOver_eq_drop]
  exact List.drop_sublist ..

theorem map_popWhileOver (f : α → β) (xs : List α) :
    (popWhileOver cap xs).map f = popWhileOver cap (xs.map f) := by
  simp [popWhileOver_eq_drop, List.map_drop]

/-- Popping before an append is undone by popping after it. -/
theorem popWhileOver_popWhileOver_append (xs ys : List α) :
    popWhileOver cap (popWhileOver cap xs ++ ys) = popWhileOver cap (xs ++ ys) := by
  simp only [popWhileOver_eq_drop, List.length_append, List.length_drop, List.drop_append,
    List.drop_drop]
  congr 2 <;> omega

theorem popWhileOver_append_of_le {xs ys : List α} (h : cap ≤ ys.length) :
    popWhileOver cap (xs ++ ys) = popWhileOver cap ys := by
  simp only [popWhileOver_eq_drop, List.length_append, List.drop_append]
  rw [List.drop_eq_nil_of_le (by omega), List.nil_append,
    show xs.length + ys.length - cap - xs.length = ys.length - cap by omega]

theorem popWhileOver_append_popWhileOver (xs ys : List α) :
    popWhileOver cap (xs ++ popWhileOver cap ys) = popWhileOver cap (xs ++ ys) := by
  by_cases h : ys.length ≤ cap
  · rw [popWhileOver_of_le h]
  · have hfull : cap ≤ (popWhileOver cap ys).length := by
      rw [length_popWhileOver]
      omega
    have hle : (popWhileOver cap ys).length ≤ cap := by
      rw [length_popWhileOver]
      omega
    rw [popWhileOver_append_of_le hfull, popWhileOver_append_of_le (by omega),
      popWhileOver_of_le hle]

theorem mem_popWhileOver_iff {xs : List α} (hn : xs.Nodup) {i : Nat} (h : xs[i]? = some x) :
    x ∈ popWhileOver cap xs ↔ xs.length ≤ i + cap := by
  obtain ⟨hi, rfl⟩ := List.getElem?_eq_some_iff.mp h
  rw [popWhileOver_eq_drop, List.mem_drop_iff_getElem]
  constructor
  · rintro ⟨j, hj, he⟩
    have := (List.Nodup.getElem_inj_iff hn).mp he
    omega
  · intro hle
    exact ⟨i - (xs.length - cap), by omega, by congr 1; omega⟩

/-- In an increasing list an element is kept exactly when fewer than `cap`
larger ones are kept. -/
theorem mem_popWhileOver_iff_larger {key : α → Nat} {xs : List α}
    (hp : xs.Pairwise (key · < key ·)) (hx : x ∈ xs) :
    x ∈ popWhileOver cap xs ↔
      ((popWhileOver cap xs).filter (key x < key ·)).length < cap := by
  obtain ⟨smaller, larger, rfl⟩ := List.append_of_mem hx
  obtain ⟨-, hlarger, hsmaller⟩ := List.pairwise_append.mp hp
  have hself : ∀ y ∈ larger, key x < key y := (List.pairwise_cons.mp hlarger).1
  rw [List.append_cons]
  by_cases h : cap ≤ larger.length
  · have hsub : (popWhileOver cap larger).Sublist larger := popWhileOver_sublist larger
    have hall : (popWhileOver cap larger).filter (key x < key ·) = popWhileOver cap larger :=
      List.filter_eq_self.mpr fun y hy => decide_eq_true (hself y (hsub.subset hy))
    rw [popWhileOver_append_of_le h, hall, length_popWhileOver, Nat.min_eq_right h]
    exact iff_of_false (fun hmem => Nat.lt_irrefl _ (hself x (hsub.subset hmem)))
      (Nat.lt_irrefl _)
  · rw [popWhileOver_eq_drop, List.append_assoc, List.singleton_append,
      List.drop_append_of_le_length (by simp only [List.length_append, List.length_cons]; omega)]
    have hnone : (smaller.drop ((smaller ++ x :: larger).length - cap)).filter
        (key x < key ·) = [] := by
      refine List.filter_eq_nil_iff.mpr fun y hy => ?_
      have := hsmaller y (List.mem_of_mem_drop hy) x List.mem_cons_self
      simpa using Nat.le_of_lt this
    have hall : larger.filter (key x < key ·) = larger :=
      List.filter_eq_self.mpr fun y hy => decide_eq_true (hself y hy)
    rw [List.filter_append, hnone, List.nil_append, List.filter_cons_of_neg (by simp), hall]
    exact iff_of_true (by simp) (Nat.lt_of_not_le h)

theorem filter_mem_popWhileOver [DecidableEq α] (xs : List α) {ys : List α} (hn : ys.Nodup) :
    ys.filter (· ∈ popWhileOver cap (xs ++ ys)) = popWhileOver cap ys := by
  by_cases h : ys.length ≤ cap
  · rw [popWhileOver_of_le h, List.filter_eq_self]
    intro y hy
    rw [popWhileOver_eq_drop, List.length_append, List.drop_append_of_le_length (by omega)]
    simp [hy]
  · rw [popWhileOver_append_of_le (by omega), popWhileOver_eq_drop]
    generalize ys.length - cap = k
    conv => lhs; arg 2; rw [← List.take_append_drop k ys]
    rw [List.filter_append, List.filter_eq_nil_iff.mpr, List.filter_eq_self.mpr, List.nil_append]
    · simp
    · intro y hy hd
      exact List.disjoint_take_drop hn (Nat.le_refl k) hy (by simpa using hd)

theorem foldl_push (xs ys : List α) :
    ys.foldl (push cap) (popWhileOver cap xs) = popWhileOver cap (xs ++ ys) := by
  induction ys generalizing xs with
  | nil => simp
  | cons y ys ih =>
    rw [List.foldl_cons, push, popWhileOver_popWhileOver_append, ih, List.append_assoc]
    rfl

theorem foldl_push_of_le {xs : List α} (h : xs.length ≤ cap) (ys : List α) :
    ys.foldl (push cap) xs = popWhileOver cap (xs ++ ys) := by
  rw [← foldl_push, popWhileOver_of_le h]

end Bounded
