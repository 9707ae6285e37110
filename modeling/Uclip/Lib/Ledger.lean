/-!
# Ledgers

Resources that are opened once and must be closed once. A ledger is balanced
when what was opened and not closed is exactly what is held: nothing leaks, and
nothing is closed twice.
-/

structure Ledger.Balanced (opened closed : List κ) (held : κ → Prop) : Prop where
  opened_nodup : opened.Nodup
  closed_nodup : closed.Nodup
  closed_opened : ∀ k ∈ closed, k ∈ opened
  live : ∀ k, k ∈ opened ∧ k ∉ closed ↔ held k

namespace Ledger.Balanced

variable {opened closed : List κ} {held held' : κ → Prop} {k : κ}

theorem empty : Balanced ([] : List κ) [] fun _ => False :=
  ⟨.nil, .nil, by simp, by simp⟩

theorem congr (h : Balanced opened closed held) (hheld : ∀ k, held k ↔ held' k) :
    Balanced opened closed held' :=
  { h with live := fun k => (h.live k).trans (hheld k) }

theorem add (h : Balanced opened closed held) (hk : k ∉ opened) :
    Balanced (opened ++ [k]) closed fun x => held x ∨ x = k where
  opened_nodup := by
    refine List.nodup_append.mpr ⟨h.opened_nodup, by simp, ?_⟩
    rintro a ha b hb rfl
    exact hk (List.mem_singleton.mp hb ▸ ha)
  closed_nodup := h.closed_nodup
  closed_opened x hx := List.mem_append_left _ (h.closed_opened x hx)
  live x := by
    have hclosed : k ∉ closed := fun hc => hk (h.closed_opened k hc)
    rw [List.mem_append, List.mem_singleton, or_and_right, h.live]
    refine or_congr_right ⟨And.left, ?_⟩
    rintro rfl
    exact ⟨rfl, hclosed⟩

theorem remove (h : Balanced opened closed held) (hk : held k) :
    Balanced opened (closed ++ [k]) fun x => held x ∧ x ≠ k where
  opened_nodup := h.opened_nodup
  closed_nodup := by
    refine List.nodup_append.mpr ⟨h.closed_nodup, by simp, ?_⟩
    rintro a ha b hb rfl
    exact ((h.live k).mpr hk).2 (List.mem_singleton.mp hb ▸ ha)
  closed_opened x hx := by
    rcases List.mem_append.mp hx with hx | hx
    · exact h.closed_opened x hx
    · exact List.mem_singleton.mp hx ▸ ((h.live k).mpr hk).1
  live x := by
    rw [← h.live, List.mem_append, List.mem_singleton, not_or, and_assoc]

end Ledger.Balanced
