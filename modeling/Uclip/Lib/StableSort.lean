import Mathlib.Data.List.Induction
import Mathlib.Data.List.Sort

/-!
# First occurrences, and stable sorting by a rank

`eraseDups` keeps the first occurrence of each element. `sortByRank` leaves the
elements of one rank in the order of the list, so a list sorted by rank is known
once the order within each rank is.
-/

namespace StableSort

variable {α κ : Type*}

-- ---------------------------------------------------------------------------
-- First occurrences
-- ---------------------------------------------------------------------------

section
variable [BEq α] [LawfulBEq α]

theorem eraseDups_snoc (l : List α) (a : α) :
    (l ++ [a]).eraseDups = if a ∈ l.eraseDups then l.eraseDups else l.eraseDups ++ [a] := by
  rw [List.eraseDups_append, List.cons_removeAll]
  by_cases h : a ∈ l <;> simp [h, List.eraseDups_cons]

theorem nodup_eraseDups (l : List α) : l.eraseDups.Nodup := by
  induction l using List.reverseRecOn with
  | nil => exact .nil
  | append_singleton l a ih =>
    rw [eraseDups_snoc]
    split
    · exact ih
    · rename_i h
      exact List.nodup_append.mpr ⟨ih, List.nodup_singleton a, by rintro b hb c hc rfl; simp_all⟩

theorem eraseDups_eq_self {l : List α} (h : l.Nodup) : l.eraseDups = l := by
  induction l using List.reverseRecOn with
  | nil => rfl
  | append_singleton l a ih =>
    obtain ⟨hl, -, hne⟩ := List.nodup_append.mp h
    have ha : a ∉ l := fun hmem => hne a hmem a (List.mem_singleton_self a) rfl
    rw [eraseDups_snoc, ih hl, if_neg ha]

theorem filter_eraseDups (p : α → Bool) (l : List α) :
    l.eraseDups.filter p = (l.filter p).eraseDups := by
  induction l using List.reverseRecOn with
  | nil => rfl
  | append_singleton l a ih =>
    rw [eraseDups_snoc, List.filter_append]
    by_cases hp : p a = true
    · rw [List.filter_cons_of_pos hp, List.filter_nil, eraseDups_snoc, ← ih]
      simp only [List.mem_filter, hp, and_true]
      split
      · rfl
      · rw [List.filter_append, List.filter_cons_of_pos hp, List.filter_nil]
    · rw [List.filter_cons_of_neg hp, List.filter_nil, List.append_nil, ← ih]
      split
      · rfl
      · rw [List.filter_append, List.filter_cons_of_neg hp, List.filter_nil, List.append_nil]

end

-- ---------------------------------------------------------------------------
-- Sorting
-- ---------------------------------------------------------------------------

variable [LinearOrder κ]

def sortByRank (rank : α → κ) (l : List α) : List α := l.insertionSort (rank · ≤ rank ·)

variable {rank : α → κ} {l l' : List α}

theorem pairwise_sortByRank (rank : α → κ) (l : List α) :
    (sortByRank rank l).Pairwise (rank · ≤ rank ·) := by
  have : Std.Total fun a b => rank a ≤ rank b := ⟨fun _ _ => le_total ..⟩
  have : IsTrans α fun a b => rank a ≤ rank b := ⟨fun _ _ _ => le_trans⟩
  exact List.pairwise_insertionSort _ _

theorem sortByRank_eq_self (h : l.Pairwise (rank · ≤ rank ·)) : sortByRank rank l = l :=
  h.insertionSort_eq

theorem filter_orderedInsert (k : κ) (a : α) (l : List α) :
    (l.orderedInsert (rank · ≤ rank ·) a).filter (rank · = k) =
      (a :: l).filter (rank · = k) := by
  induction l with
  | nil => rfl
  | cons b l ih =>
    by_cases h : rank a ≤ rank b
    · rw [List.orderedInsert_cons, if_pos h]
    · rw [List.orderedInsert_cons, if_neg h]
      by_cases hb : rank b = k
      · -- `a` moves behind `b`, which has another rank.
        have ha : rank a ≠ k := fun ha => h (ha.trans hb.symm).le
        simp only [List.filter_cons, hb, ha, ih, decide_true, decide_false, if_true, if_false,
          Bool.false_eq_true]
      · simp only [List.filter_cons, hb, ih, decide_false, if_false, Bool.false_eq_true]

/-- Stability: within one rank nothing moves. -/
theorem filter_sortByRank (k : κ) (l : List α) :
    (sortByRank rank l).filter (rank · = k) = l.filter (rank · = k) := by
  induction l with
  | nil => rfl
  | cons a l ih =>
    rw [sortByRank, List.insertionSort_cons, filter_orderedInsert, List.filter_cons,
      List.filter_cons, ← ih]
    rfl

theorem mem_iff_of_filter_rank (h : ∀ k, l.filter (rank · = k) = l'.filter (rank · = k)) (a : α) :
    a ∈ l ↔ a ∈ l' := by
  have hclass : a ∈ l.filter (rank · = rank a) ↔ a ∈ l'.filter (rank · = rank a) := by rw [h]
  simpa using hclass

theorem filter_rank_of_unique (hl : l.Nodup) (hl' : l'.Nodup) (hm : ∀ a, a ∈ l ↔ a ∈ l') {k : κ}
    (hu : ∀ a ∈ l, ∀ b ∈ l, rank a = k → rank b = k → a = b) :
    l.filter (rank · = k) = l'.filter (rank · = k) := by
  have hp : l.Perm l' := (List.perm_ext_iff_of_nodup hl hl').mpr hm
  have hall (l : List α) : l.Pairwise fun _ _ => True := List.pairwise_of_forall fun _ _ => trivial
  refine List.Perm.eq_of_pairwise ?_ (hall _) (hall _) (hp.filter _)
  intro a b ha hb _ _
  obtain ⟨ha, hka⟩ := List.mem_filter.mp ha
  obtain ⟨hb, hkb⟩ := List.mem_filter.mp hb
  exact hu a ha b ((hm b).mpr hb) (of_decide_eq_true hka) (of_decide_eq_true hkb)

theorem eq_of_filter_rank (hl : l.Pairwise (rank · ≤ rank ·))
    (hl' : l'.Pairwise (rank · ≤ rank ·))
    (h : ∀ k, l.filter (rank · = k) = l'.filter (rank · = k)) : l = l' := by
  have hmem := mem_iff_of_filter_rank h
  induction l generalizing l' with
  | nil =>
    cases l' with
    | nil => rfl
    | cons b l' => exact absurd ((hmem b).mpr List.mem_cons_self) List.not_mem_nil
  | cons a l ih =>
    cases l' with
    | nil => exact absurd ((hmem a).mp List.mem_cons_self) List.not_mem_nil
    | cons b l' =>
      have hrank : rank a = rank b := by
        apply le_antisymm
        · rcases List.mem_cons.mp ((hmem b).mpr List.mem_cons_self) with rfl | hb
          · exact le_rfl
          · exact List.rel_of_pairwise_cons hl hb
        · rcases List.mem_cons.mp ((hmem a).mp List.mem_cons_self) with rfl | ha
          · exact le_rfl
          · exact List.rel_of_pairwise_cons hl' ha
      -- Both heads lead the class of their common rank.
      obtain rfl : a = b := by
        have hclass := h (rank a)
        simp only [List.filter_cons, hrank, decide_true, if_true] at hclass
        exact (List.cons.inj hclass).1
      have htail (k : κ) : l.filter (rank · = k) = l'.filter (rank · = k) := by
        have hclass := h k
        simp only [List.filter_cons] at hclass
        split at hclass
        · exact (List.cons.inj hclass).2
        · exact hclass
      rw [ih hl.of_cons hl'.of_cons htail (mem_iff_of_filter_rank htail)]

/-- What makes a list the sort of another: it is sorted and keeps the order
within each rank. -/
theorem sortByRank_eq_iff :
    sortByRank rank l = l' ↔ l'.Pairwise (rank · ≤ rank ·) ∧
      ∀ k, l'.filter (rank · = k) = l.filter (rank · = k) := by
  constructor
  · rintro rfl
    exact ⟨pairwise_sortByRank rank l, fun k => filter_sortByRank k l⟩
  · rintro ⟨hsorted, hclass⟩
    refine eq_of_filter_rank (pairwise_sortByRank rank l) hsorted fun k => ?_
    rw [filter_sortByRank, hclass]

end StableSort
