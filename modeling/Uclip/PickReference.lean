import Uclip.Lib.StableSort
import Uclip.Mime

/-!
# The selection as one ranked sort

`pickMimes` scans the offer three times. The reference keeps the supported types
once each and sorts them by rank: the preferred text types in their order, then
every other text type, tied, then the supported binary types in theirs.
-/

namespace Uclip

open StableSort

def isSupported (mime : String) : Bool := isTextMime mime || supportedBinaryMimes.contains mime

/-- A text type that is not listed has the index `preferredTextMimes.length`. -/
def pickRank (mime : String) : Nat :=
  if isTextMime mime then preferredTextMimes.idxOf mime
  else preferredTextMimes.length + 1 + supportedBinaryMimes.idxOf mime

def rankedMimes (offered : List String) : List String :=
  sortByRank pickRank (offered.filter isSupported).eraseDups

def refPickMimes (offered : List String) : List String :=
  (rankedMimes offered).take maxMimesPerSelection

-- ---------------------------------------------------------------------------
-- Ranks
-- ---------------------------------------------------------------------------

def isUnlistedText (mime : String) : Bool := isTextMime mime && !preferredTextMimes.contains mime

variable {offered : List String}

theorem isSupported_iff :
    isSupported mime = true ↔ isTextMime mime = true ∨ mime ∈ supportedBinaryMimes := by
  simp [isSupported]

theorem pickRank_text (h : isTextMime mime = true) :
    pickRank mime = preferredTextMimes.idxOf mime := if_pos h

theorem pickRank_binary (h : isTextMime mime = false) :
    pickRank mime = preferredTextMimes.length + 1 + supportedBinaryMimes.idxOf mime := by
  simp [pickRank, h]

theorem pickRank_text_le (h : isTextMime mime = true) :
    pickRank mime ≤ preferredTextMimes.length := by
  rw [pickRank_text h]
  exact List.idxOf_le_length

theorem length_lt_pickRank_binary (h : isTextMime mime = false) :
    preferredTextMimes.length < pickRank mime := by
  rw [pickRank_binary h]
  omega

theorem pickRank_unlisted : pickRank mime = preferredTextMimes.length ↔
    isUnlistedText mime = true := by
  cases h : isTextMime mime with
  | false => simp [isUnlistedText, h, (length_lt_pickRank_binary h).ne']
  | true =>
    have hunlisted : isUnlistedText mime = true ↔ mime ∉ preferredTextMimes := by
      simp [isUnlistedText, h]
    rw [pickRank_text h, hunlisted]
    exact List.idxOf_eq_length_iff

theorem pickRank_injective (ha : isSupported a = true)
    (h : pickRank a = pickRank b) (hne : pickRank a ≠ preferredTextMimes.length) : a = b := by
  cases hta : isTextMime a with
  | true =>
    have hlt := lt_of_le_of_ne (pickRank_text_le hta) hne
    cases htb : isTextMime b with
    | true =>
      rw [pickRank_text hta, pickRank_text htb] at h
      rw [pickRank_text hta] at hlt
      exact (List.idxOf_inj (List.idxOf_lt_length_iff.mp hlt)).mp h
    | false =>
      have := length_lt_pickRank_binary htb
      omega
  | false =>
    have hlt := length_lt_pickRank_binary hta
    cases htb : isTextMime b with
    | true =>
      have := pickRank_text_le htb
      omega
    | false =>
      have hmem : a ∈ supportedBinaryMimes :=
        (isSupported_iff.mp ha).resolve_left (by simp [hta])
      rw [pickRank_binary hta, pickRank_binary htb] at h
      exact (List.idxOf_inj hmem).mp (by omega)

-- ---------------------------------------------------------------------------
-- The three scans
-- ---------------------------------------------------------------------------

theorem pickText_snoc (mimeTypes : List String) (m : String) (picked : List String) :
    pickText (mimeTypes ++ [m]) picked =
      if isTextMime m then pickOnce (pickText mimeTypes picked) m
      else pickText mimeTypes picked := by
  simp only [pickText, List.foldl_append, List.foldl_cons, List.foldl_nil]

/-- The scan over the offer appends the first occurrence of each text type that
was not picked before. -/
theorem pickText_eq (mimeTypes picked : List String) :
    pickText mimeTypes picked =
      picked ++ (mimeTypes.filter fun m => isTextMime m && !picked.contains m).eraseDups := by
  induction mimeTypes using List.reverseRecOn with
  | nil => simp [pickText]
  | append_singleton mimeTypes m ih =>
    rw [pickText_snoc, List.filter_append]
    cases ht : isTextMime m with
    | false => simp [ht, ih]
    | true =>
      by_cases hm : m ∈ picked
      · have hold : m ∈ pickText mimeTypes picked := mem_pickText.mpr (.inl hm)
        rw [if_pos rfl, pickOnce, if_pos hold, ih,
          List.filter_cons_of_neg (by simp [hm]), List.filter_nil, List.append_nil]
      · rw [if_pos rfl, List.filter_cons_of_pos (by simp [ht, hm]), List.filter_nil,
          eraseDups_snoc, pickOnce, ih]
        simp only [List.mem_append, hm, false_or]
        split
        · rfl
        · rw [List.append_assoc]

def scanned (offered : List String) : List String :=
  pickKnown offered supportedBinaryMimes
    (pickText offered (pickKnown offered preferredTextMimes []))

theorem scanned_eq (offered : List String) :
    scanned offered = preferredTextMimes.filter (· ∈ offered) ++
      (offered.filter isUnlistedText).eraseDups ++ supportedBinaryMimes.filter (· ∈ offered) := by
  rw [scanned, pickKnown_eq_filter (by decide) (notMem_pickText_of_binary offered), pickText_eq,
    pickKnown_eq_filter (by decide) fun m _ => List.not_mem_nil, List.nil_append]
  congr 3
  apply List.filter_congr
  intro m hm
  simp [isUnlistedText, hm]

theorem mem_scanned : m ∈ scanned offered ↔ m ∈ offered ∧ isSupported m = true := by
  rw [scanned, mem_pickKnown, mem_pickText, mem_pickKnown, isSupported_iff]
  have := isTextMime_preferred m
  simp only [List.not_mem_nil, false_or]
  tauto

theorem nodup_scanned (offered : List String) : (scanned offered).Nodup :=
  nodup_pickKnown (nodup_pickText (nodup_pickKnown .nil))

theorem pairwise_scanned (offered : List String) :
    (scanned offered).Pairwise (pickRank · ≤ pickRank ·) := by
  have hpreferred : preferredTextMimes.Pairwise (pickRank · ≤ pickRank ·) := by decide
  have hbinary : supportedBinaryMimes.Pairwise (pickRank · ≤ pickRank ·) := by decide
  have hunlisted : ∀ m ∈ (offered.filter isUnlistedText).eraseDups,
      pickRank m = preferredTextMimes.length := by
    intro m hm
    rw [List.mem_eraseDups, List.mem_filter] at hm
    exact pickRank_unlisted.mpr hm.2
  rw [scanned_eq, List.pairwise_append, List.pairwise_append]
  refine ⟨⟨hpreferred.filter _, ?_, ?_⟩, hbinary.filter _, ?_⟩
  · exact List.pairwise_of_forall_mem_list fun a ha b hb =>
      ((hunlisted a ha).trans (hunlisted b hb).symm).le
  · intro a ha b hb
    rw [hunlisted b hb]
    exact pickRank_text_le (isTextMime_preferred a (List.mem_filter.mp ha).1)
  · intro a ha b hb
    have hb := length_lt_pickRank_binary (not_isTextMime_binary b (List.mem_filter.mp hb).1)
    rcases List.mem_append.mp ha with ha | ha
    · exact (pickRank_text_le (isTextMime_preferred a (List.mem_filter.mp ha).1)).trans hb.le
    · exact (hunlisted a ha).trans_le hb.le

theorem filter_scanned_unlisted (offered : List String) :
    (scanned offered).filter (pickRank · = preferredTextMimes.length) =
      (offered.filter isUnlistedText).eraseDups := by
  have hpreferred : ∀ m ∈ preferredTextMimes.filter (· ∈ offered),
      ¬ decide (pickRank m = preferredTextMimes.length) = true := by
    intro m hm h
    have hlisted := (List.mem_filter.mp hm).1
    have := pickRank_unlisted.mp (of_decide_eq_true h)
    simp [isUnlistedText, hlisted] at this
  have hbinary : ∀ m ∈ supportedBinaryMimes.filter (· ∈ offered),
      ¬ decide (pickRank m = preferredTextMimes.length) = true := by
    intro m hm h
    have hnot := not_isTextMime_binary m (List.mem_filter.mp hm).1
    exact (length_lt_pickRank_binary hnot).ne' (of_decide_eq_true h)
  rw [scanned_eq, List.filter_append, List.filter_append, List.filter_eq_nil_iff.mpr hpreferred,
    List.filter_eq_nil_iff.mpr hbinary, List.nil_append, List.append_nil, List.filter_eq_self]
  intro m hm
  rw [List.mem_eraseDups, List.mem_filter] at hm
  exact decide_eq_true (pickRank_unlisted.mpr hm.2)

theorem filter_supported_unlisted (offered : List String) :
    ((offered.filter isSupported).eraseDups).filter (pickRank · = preferredTextMimes.length) =
      (offered.filter isUnlistedText).eraseDups := by
  rw [filter_eraseDups, List.filter_filter]
  congr 1
  apply List.filter_congr
  intro m _
  rw [Bool.eq_iff_iff, Bool.and_eq_true, decide_eq_true_iff, pickRank_unlisted, isSupported_iff,
    and_iff_left_iff_imp]
  intro h
  simp only [isUnlistedText, Bool.and_eq_true] at h
  exact .inl h.1

/-- The scans are the ranked sort: sorted, and in offer order where ranks tie. -/
theorem scanned_eq_rankedMimes (offered : List String) : scanned offered = rankedMimes offered := by
  symm
  rw [rankedMimes, sortByRank_eq_iff]
  refine ⟨pairwise_scanned offered, fun k => ?_⟩
  by_cases hk : k = preferredTextMimes.length
  · rw [hk, filter_scanned_unlisted, filter_supported_unlisted]
  · refine filter_rank_of_unique (nodup_scanned offered) (nodup_eraseDups _) ?_ ?_
    · intro m
      rw [mem_scanned, List.mem_eraseDups, List.mem_filter]
    · rintro a ha b - rfl hb
      exact pickRank_injective (mem_scanned.mp ha).2 hb.symm hk

theorem pickMimes_eq_refPickMimes (offered : List String) :
    pickMimes offered = refPickMimes offered := by
  rw [refPickMimes, ← scanned_eq_rankedMimes]
  rfl

-- ---------------------------------------------------------------------------
-- What the reference says of a selection
-- ---------------------------------------------------------------------------

theorem mem_rankedMimes : m ∈ rankedMimes offered ↔ m ∈ offered ∧ isSupported m = true := by
  rw [← scanned_eq_rankedMimes, mem_scanned]

/-- What the cut drops ranks no lower than anything that is picked. -/
theorem dropped_pickMimes (h : m ∈ offered) (hs : isSupported m = true)
    (hm : m ∉ pickMimes offered) :
    (pickMimes offered).length = maxMimesPerSelection ∧
      ∀ p ∈ pickMimes offered, pickRank p ≤ pickRank m := by
  have hmem : m ∈ rankedMimes offered := mem_rankedMimes.mpr ⟨h, hs⟩
  rw [pickMimes_eq_refPickMimes, refPickMimes] at hm ⊢
  have hdrop : m ∈ (rankedMimes offered).drop maxMimesPerSelection := by
    rw [← List.take_append_drop maxMimesPerSelection (rankedMimes offered),
      List.mem_append] at hmem
    exact hmem.resolve_left hm
  constructor
  · have hlen := List.length_pos_of_mem hdrop
    rw [List.length_drop] at hlen
    rw [List.length_take]
    omega
  · have hsorted := pairwise_sortByRank pickRank (offered.filter isSupported).eraseDups
    rw [← rankedMimes, ← List.take_append_drop maxMimesPerSelection (rankedMimes offered),
      List.pairwise_append] at hsorted
    exact fun p hp => hsorted.2.2 p hp m hdrop

theorem pickMimes_idempotent (offered : List String) :
    pickMimes (pickMimes offered) = pickMimes offered := by
  have hsupported : (pickMimes offered).filter isSupported = pickMimes offered := by
    rw [List.filter_eq_self]
    exact fun m hm => isSupported_iff.mpr (pickMimes_subset hm).2
  have hsorted : (pickMimes offered).Pairwise (pickRank · ≤ pickRank ·) := by
    rw [pickMimes_eq_refPickMimes]
    exact (pairwise_sortByRank ..).sublist (List.take_sublist ..)
  have hlen : (pickMimes offered).length ≤ maxMimesPerSelection := List.length_take_le ..
  calc pickMimes (pickMimes offered)
      = (sortByRank pickRank ((pickMimes offered).filter isSupported).eraseDups).take
          maxMimesPerSelection := pickMimes_eq_refPickMimes _
    _ = pickMimes offered := by
      rw [hsupported, eraseDups_eq_self (nodup_pickMimes offered), sortByRank_eq_self hsorted,
        List.take_of_length_le hlen]

/-- `pickMimes` is the reference; what follows from it for every offer. -/
theorem pickMimes_refines_reference (offered : List String) :
    pickMimes offered = refPickMimes offered ∧
    (pickMimes offered).Nodup ∧
    (∀ m ∈ pickMimes offered, m ∈ offered) ∧
    (∀ m ∈ offered, isSupported m = true → m ∉ pickMimes offered →
      (pickMimes offered).length = maxMimesPerSelection ∧
      ∀ p ∈ pickMimes offered, pickRank p ≤ pickRank m) ∧
    pickMimes (pickMimes offered) = pickMimes offered :=
  ⟨pickMimes_eq_refPickMimes offered, nodup_pickMimes offered,
    fun _ hm => (pickMimes_subset hm).1, fun _ => dropped_pickMimes, pickMimes_idempotent offered⟩

example : refPickMimes ["image/gif", "text/csv", "TEXT", "text/x-log", "text/csv", "image/png"] =
    ["TEXT", "text/csv", "text/x-log", "image/png"] := by decide +kernel

end Uclip
