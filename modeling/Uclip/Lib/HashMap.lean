import Std.Data.ExtTreeMap

/-!
# Hash maps with an unspecified iteration order

Two hash maps are equal when they hold the same payload under the same keys,
whatever their hashers do. `HashMap` is therefore an extensional map, and the
one thing a hasher decides, the order in which a map is iterated, is a separate
value that every iterating function takes as an argument.
-/

/-- Contents only; see `Hasher` for the iteration order. -/
abbrev HashMap (κ ν : Type) [Ord κ] := Std.ExtTreeMap κ ν compare

/-- What the seed of one map decides: how the stored pairs are arranged. Every
permutation of the pairs of a given map is the arrangement of some hasher. -/
structure Hasher (κ ν : Type) where
  arrange : List (κ × ν) → List (κ × ν)
  perm : ∀ entries, (arrange entries).Perm entries

namespace Hasher

variable {κ ν : Type}

def sorted : Hasher κ ν := ⟨id, fun _ => .refl _⟩

def choosing [DecidableEq κ] [DecidableEq ν] (chosen : List (κ × ν)) : Hasher κ ν where
  arrange entries := if chosen.isPerm entries then chosen else entries
  perm entries := by
    split
    · exact List.isPerm_iff.mp ‹_›
    · exact .refl _

variable [Ord κ] [Std.TransOrd κ] (h : Hasher κ ν) (m : HashMap κ ν)

def entries : List (κ × ν) := h.arrange m.toList

def keys : List κ := (h.entries m).map Prod.fst

def values : List ν := (h.entries m).map Prod.snd

theorem entries_perm : (h.entries m).Perm m.toList := h.perm _

theorem keys_perm : (h.keys m).Perm m.keys := by
  rw [← Std.ExtTreeMap.map_fst_toList_eq_keys]
  exact (h.entries_perm m).map _

theorem nodup_keys [Std.LawfulEqOrd κ] : (h.keys m).Nodup :=
  (h.keys_perm m).nodup_iff.mpr m.nodup_keys

variable [Std.LawfulEqOrd κ]

@[simp] theorem mem_keys : k ∈ h.keys m ↔ k ∈ m :=
  (h.keys_perm m).mem_iff.trans Std.ExtTreeMap.mem_keys

@[simp] theorem mem_entries : (k, v) ∈ h.entries m ↔ m[k]? = some v :=
  (h.entries_perm m).mem_iff.trans Std.ExtTreeMap.mem_toList_iff_getElem?_eq_some

theorem mem_values : v ∈ h.values m ↔ ∃ k : κ, m[k]? = some v := by
  simp [values]

omit [Std.LawfulEqOrd κ] in
@[simp] theorem values_eq_nil : h.values m = [] ↔ m = ∅ := by
  rw [values, List.map_eq_nil_iff, ← Std.ExtTreeMap.toList_eq_nil_iff]
  exact ⟨fun e => List.nil_perm.mp (e ▸ h.entries_perm m),
    fun e => List.perm_nil.mp (e ▸ h.entries_perm m)⟩

omit [Std.LawfulEqOrd κ] in
/-- Any arrangement of a map's pairs is the iteration order of some hasher. -/
theorem entries_choosing [DecidableEq κ] [DecidableEq ν] {chosen : List (κ × ν)}
    (hp : chosen.Perm m.toList) : (choosing chosen).entries m = chosen := by
  simp [entries, choosing, List.isPerm_iff.mpr hp]

theorem exists_head?_values [DecidableEq κ] [DecidableEq ν] {k : κ} (hk : m[k]? = some v) :
    ∃ hasher : Hasher κ ν, (hasher.values m).head? = some v := by
  have hmem : (k, v) ∈ m.toList := Std.ExtTreeMap.mem_toList_iff_getElem?_eq_some.mpr hk
  refine ⟨choosing ((k, v) :: m.toList.erase (k, v)), ?_⟩
  rw [values, entries_choosing m (List.perm_cons_erase hmem).symm]
  rfl

end Hasher
