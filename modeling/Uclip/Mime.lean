import Uclip.Config

/-!
# MIME types

Which types count as text, and which of the offered types are requested.
-/

namespace Uclip

def isTextMime (mime : String) : Bool :=
  mime == "TEXT" || mime == "STRING" || mime == "UTF8_STRING" || mime == "text/plain" ||
    "text/plain;".toList.isPrefixOf mime.toList || "text/".toList.isPrefixOf mime.toList

/-- `picked.push(m)` unless it is already there. -/
def pickOnce (picked : List String) (mime : String) : List String :=
  if mime ∈ picked then picked else picked ++ [mime]

def pickKnown (mimeTypes known picked : List String) : List String :=
  known.foldl (fun picked mime =>
    match mimeTypes.find? (· == mime) with
    | some m => pickOnce picked m
    | none => picked) picked

def pickText (mimeTypes picked : List String) : List String :=
  mimeTypes.foldl (fun picked m => if isTextMime m then pickOnce picked m else picked) picked

/-- Preferred text types first, then any other text type, then the supported
binary types; at most `maxMimesPerSelection` of them. -/
def pickMimes (mimeTypes : List String) : List String :=
  let picked := pickKnown mimeTypes preferredTextMimes []
  let picked := pickText mimeTypes picked
  let picked := pickKnown mimeTypes supportedBinaryMimes picked
  picked.take maxMimesPerSelection

theorem isTextMime_preferred : ∀ mime ∈ preferredTextMimes, isTextMime mime = true := by decide

theorem not_isTextMime_binary : ∀ mime ∈ supportedBinaryMimes, isTextMime mime = false := by decide

theorem mem_pickOnce : m ∈ pickOnce picked mime ↔ m ∈ picked ∨ m = mime := by
  unfold pickOnce
  split
  · exact ⟨.inl, fun h => h.elim id (· ▸ ‹_›)⟩
  · simp

theorem nodup_pickOnce (h : picked.Nodup) : (pickOnce picked mime).Nodup := by
  unfold pickOnce
  split
  · exact h
  · rename_i hn
    exact List.nodup_append.mpr ⟨h, by simp, by rintro a ha b hb rfl; simp_all⟩

theorem pickKnown_cons :
    pickKnown mimeTypes (mime :: known) picked =
      pickKnown mimeTypes known (if mime ∈ mimeTypes then pickOnce picked mime else picked) := by
  simp only [pickKnown, List.foldl_cons]
  congr 1
  split
  · rename_i m h
    have hm : m = mime := by simpa using List.find?_some h
    have hmem : m ∈ mimeTypes := List.mem_of_find?_eq_some h
    subst hm
    simp [hmem]
  · rename_i h
    have : mime ∉ mimeTypes := fun hm => by simpa using List.find?_eq_none.mp h mime hm
    simp [this]

theorem mem_pickKnown :
    m ∈ pickKnown mimeTypes known picked ↔ m ∈ picked ∨ m ∈ known ∧ m ∈ mimeTypes := by
  induction known generalizing picked with
  | nil => simp [pickKnown]
  | cons mime known ih =>
    rw [pickKnown_cons, ih]
    split
    · rw [mem_pickOnce, List.mem_cons]; grind
    · rw [List.mem_cons]; grind

theorem nodup_pickKnown (h : picked.Nodup) : (pickKnown mimeTypes known picked).Nodup := by
  induction known generalizing picked with
  | nil => exact h
  | cons mime known ih =>
    rw [pickKnown_cons]
    apply ih
    split
    · exact nodup_pickOnce h
    · exact h

theorem mem_pickText :
    m ∈ pickText mimeTypes picked ↔ m ∈ picked ∨ isTextMime m = true ∧ m ∈ mimeTypes := by
  induction mimeTypes generalizing picked with
  | nil => simp [pickText]
  | cons mime rest ih =>
    simp only [pickText, List.foldl_cons] at ih ⊢
    rw [ih]
    split
    · rw [mem_pickOnce, List.mem_cons]; grind
    · rw [List.mem_cons]; grind

theorem nodup_pickText (h : picked.Nodup) : (pickText mimeTypes picked).Nodup := by
  induction mimeTypes generalizing picked with
  | nil => exact h
  | cons mime rest ih =>
    simp only [pickText, List.foldl_cons] at ih ⊢
    apply ih
    split
    · exact nodup_pickOnce h
    · exact h

theorem nodup_pickMimes (mimeTypes : List String) : (pickMimes mimeTypes).Nodup :=
  (nodup_pickKnown (nodup_pickText (nodup_pickKnown .nil))).sublist (List.take_sublist ..)

theorem pickMimes_subset (h : m ∈ pickMimes mimeTypes) :
    m ∈ mimeTypes ∧ (isTextMime m = true ∨ m ∈ supportedBinaryMimes) := by
  have h := List.mem_of_mem_take h
  rw [mem_pickKnown, mem_pickText, mem_pickKnown] at h
  rcases h with ((h | ⟨hp, hm⟩) | ⟨ht, hm⟩) | ⟨hb, hm⟩
  · cases h
  · exact ⟨hm, .inl (isTextMime_preferred m hp)⟩
  · exact ⟨hm, .inl ht⟩
  · exact ⟨hm, .inr hb⟩

-- ---------------------------------------------------------------------------
-- What is picked, in order
-- ---------------------------------------------------------------------------

theorem pickKnown_eq_filter (hn : known.Nodup) (hd : ∀ m ∈ known, m ∉ picked) :
    pickKnown mimeTypes known picked = picked ++ known.filter (· ∈ mimeTypes) := by
  induction known generalizing picked with
  | nil => simp [pickKnown]
  | cons mime known ih =>
    obtain ⟨hmime, hn⟩ := List.nodup_cons.mp hn
    have hpicked : mime ∉ picked := hd mime List.mem_cons_self
    have hknown : ∀ m ∈ known, m ∉ picked := fun m hm => hd m (List.mem_cons_of_mem _ hm)
    rw [pickKnown_cons]
    split
    · rename_i hoffered
      have hd' : ∀ m ∈ known, m ∉ picked ++ [mime] := by
        intro m hm hmem
        rcases List.mem_append.mp hmem with h | h
        · exact hknown m hm h
        · exact hmime (List.mem_singleton.mp h ▸ hm)
      rw [pickOnce, if_neg hpicked, ih hn hd', List.filter_cons_of_pos (by simpa using hoffered),
        List.append_assoc, List.singleton_append]
    · rename_i hoffered
      rw [ih hn hknown, List.filter_cons_of_neg (by simpa using hoffered)]

theorem prefix_pickText (mimeTypes picked : List String) :
    picked <+: pickText mimeTypes picked := by
  induction mimeTypes generalizing picked with
  | nil => exact List.prefix_rfl
  | cons mime rest ih =>
    simp only [pickText, List.foldl_cons] at ih ⊢
    refine .trans ?_ (ih _)
    split
    · unfold pickOnce
      split
      · exact List.prefix_rfl
      · exact List.prefix_append ..
    · exact List.prefix_rfl

theorem pickText_of_no_text (h : ∀ m ∈ mimeTypes, isTextMime m = false) :
    pickText mimeTypes picked = picked := by
  induction mimeTypes generalizing picked with
  | nil => rfl
  | cons mime rest ih =>
    simp only [pickText, List.foldl_cons] at ih ⊢
    rw [h mime List.mem_cons_self, if_neg Bool.false_ne_true]
    exact ih fun m hm => h m (List.mem_cons_of_mem _ hm)

theorem notMem_pickText_of_binary (mimeTypes : List String) :
    ∀ m ∈ supportedBinaryMimes,
      m ∉ pickText mimeTypes (pickKnown mimeTypes preferredTextMimes []) := by
  intro m hm hmem
  have hnot := not_isTextMime_binary m hm
  rw [mem_pickText, mem_pickKnown] at hmem
  rcases hmem with (h | ⟨hp, -⟩) | ⟨ht, -⟩
  · cases h
  · simp [isTextMime_preferred m hp] at hnot
  · simp [ht] at hnot

theorem prefix_pickMimes (mimeTypes : List String) :
    (preferredTextMimes.filter (· ∈ mimeTypes)).take maxMimesPerSelection <+:
      pickMimes mimeTypes := by
  have htext := prefix_pickText mimeTypes (pickKnown mimeTypes preferredTextMimes [])
  rw [pickKnown_eq_filter (by decide) fun m _ => List.not_mem_nil, List.nil_append] at htext
  rw [pickMimes, pickKnown_eq_filter (by decide) (notMem_pickText_of_binary mimeTypes),
    pickKnown_eq_filter (by decide) fun m _ => List.not_mem_nil, List.nil_append]
  obtain ⟨rest, hrest⟩ := htext
  rw [← hrest, List.append_assoc, List.take_append]
  exact List.prefix_append ..

theorem pickMimes_of_no_text (h : ∀ m ∈ mimeTypes, isTextMime m = false) :
    pickMimes mimeTypes = supportedBinaryMimes.filter (· ∈ mimeTypes) := by
  have hpreferred : preferredTextMimes.filter (· ∈ mimeTypes) = [] := by
    rw [List.filter_eq_nil_iff]
    intro m hm hmem
    have htext := h m (by simpa using hmem)
    rw [isTextMime_preferred m hm] at htext
    cases htext
  have hnone : pickKnown mimeTypes preferredTextMimes [] = [] := by
    rw [pickKnown_eq_filter (by decide) fun m _ => List.not_mem_nil, hpreferred, List.append_nil]
  rw [pickMimes, pickText_of_no_text h, hnone,
    pickKnown_eq_filter (by decide) fun m _ => List.not_mem_nil, List.nil_append,
    List.take_of_length_le]
  exact Nat.le_trans (List.length_filter_le ..) (by decide)

end Uclip
