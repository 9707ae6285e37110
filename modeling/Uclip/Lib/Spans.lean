import Mathlib.Data.List.Chain
import Mathlib.Data.List.Nodup

/-!
# Spans with gaps between them

Spans of positions, each starting where the one before it stops or later. They
never cover a position twice, and a position between the first start and the
last is either covered or in exactly the kind of place that `InGap` names.
-/

namespace Spans

variable {start stop : α → Nat} {spans : List α} {p : Nat}

abbrev Ordered (start stop : α → Nat) (spans : List α) : Prop :=
  spans.IsChain fun s t => stop s ≤ start t

def positions (start stop : α → Nat) (s : α) : List Nat := List.range' (start s) (stop s - start s)

/-- Behind a span and in front of the next one. -/
def InGap (start stop : α → Nat) (spans : List α) (p : Nat) : Prop :=
  ∃ pair ∈ spans.zip spans.tail, stop pair.1 ≤ p ∧ p < start pair.2

theorem mem_positions {s : α} (h : start s ≤ stop s) :
    p ∈ positions start stop s ↔ start s ≤ p ∧ p < stop s := by
  rw [positions, List.mem_range'_1, Nat.add_sub_cancel' h]

theorem stop_le_start (hspan : ∀ s ∈ spans, start s ≤ stop s)
    (h : Ordered start stop (s :: spans)) : ∀ t ∈ spans, stop s ≤ start t := by
  induction spans generalizing s with
  | nil => exact fun _ ht => absurd ht List.not_mem_nil
  | cons next spans ih =>
    obtain ⟨hnext, hrest⟩ := List.isChain_cons_cons.mp h
    intro t ht
    rcases List.mem_cons.mp ht with rfl | ht
    · exact hnext
    · have hlater := ih (fun u hu => hspan u (List.mem_cons_of_mem _ hu)) hrest t ht
      exact hnext.trans ((hspan next List.mem_cons_self).trans hlater)

theorem start_le (hspan : ∀ s ∈ spans, start s ≤ stop s) (hs : start s ≤ stop s)
    (h : Ordered start stop (s :: spans)) : ∀ t ∈ s :: spans, start s ≤ start t := by
  intro t ht
  rcases List.mem_cons.mp ht with rfl | ht
  · exact Nat.le_refl _
  · exact hs.trans (stop_le_start hspan h t ht)

theorem nodup_positions (hspan : ∀ s ∈ spans, start s ≤ stop s) (h : Ordered start stop spans) :
    (spans.flatMap (positions start stop)).Nodup := by
  induction spans with
  | nil => exact List.nodup_nil
  | cons s spans ih =>
    have hrest : ∀ t ∈ spans, start t ≤ stop t := fun t ht => hspan t (List.mem_cons_of_mem _ ht)
    refine List.nodup_append'.mpr ⟨List.nodup_range', ih hrest h.tail, fun p hp hlater => ?_⟩
    obtain ⟨t, ht, hp'⟩ := List.mem_flatMap.mp hlater
    have hlt := ((mem_positions (hspan s List.mem_cons_self)).mp hp).2
    have hle := stop_le_start hrest h t ht
    have := ((mem_positions (hrest t ht)).mp hp').1
    omega

theorem inGap_cons_cons {s t : α} :
    InGap start stop (s :: t :: spans) p ↔
      (stop s ≤ p ∧ p < start t) ∨ InGap start stop (t :: spans) p := by
  simp [InGap]

/-- What is not in a gap is covered, up to the start of the last span. -/
theorem covered_iff (hspan : ∀ s ∈ spans, start s ≤ stop s) (h : Ordered start stop spans)
    (hfirst : ∀ s ∈ spans.head?, start s ≤ p) (hlast : ∃ s ∈ spans.getLast?, p < start s) :
    (∃ s ∈ spans, p ∈ positions start stop s) ↔ ¬ InGap start stop spans p := by
  induction spans with
  | nil => simp at hlast
  | cons s spans ih =>
    have hp := hfirst s rfl
    have hrest : ∀ t ∈ spans, start t ≤ stop t := fun t ht => hspan t (List.mem_cons_of_mem _ ht)
    cases spans with
    | nil =>
      obtain ⟨t, ht, hlt⟩ := hlast
      obtain rfl : s = t := Option.some.inj ht
      omega
    | cons next spans =>
      have hstop : stop s ≤ start next := stop_le_start hrest h next List.mem_cons_self
      have hnext : ∀ t ∈ next :: spans, start next ≤ start t :=
        start_le (fun u hu => hrest u (List.mem_cons_of_mem _ hu)) (hrest next List.mem_cons_self)
          h.tail
      rw [inGap_cons_cons, List.exists_mem_cons_iff, mem_positions (hspan s List.mem_cons_self)]
      by_cases hle : start next ≤ p
      · -- Past the second start only the later spans matter.
        rw [ih hrest h.tail (fun t ht => by cases ht; exact hle) hlast,
          or_iff_right (by omega), or_iff_right (by omega)]
      · have hnone : ¬ ∃ t ∈ next :: spans, p ∈ positions start stop t := by
          rintro ⟨t, ht, hpt⟩
          have := ((mem_positions (hrest t ht)).mp hpt).1
          have := hnext t ht
          omega
        have hnogap : ¬ InGap start stop (next :: spans) p := by
          rintro ⟨⟨t, u⟩, hpair, hge, -⟩
          have ht := (List.of_mem_zip hpair).1
          have := (hnext t ht).trans (hrest t ht)
          exact hle (this.trans hge)
        rw [or_iff_left hnone, or_iff_left hnogap]
        omega

end Spans
