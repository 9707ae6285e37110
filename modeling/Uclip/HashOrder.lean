import Uclip.StoreLaws

/-!
# Content and the order of the hash map

The images of a copy are sorted by their type, the text types by their place in
the preference list, where all unlisted ones tie. The sort is stable, so two
unlisted types stay in the order the map was iterated in, and the contents that
two iterations make are different values.
-/

namespace Uclip

open Text (Bytes)
open ClipboardContent (fromBlobs)

def SameContent (blobs : Blobs) : Prop :=
  ∀ hasher textHasher hasher' textHasher',
    fromBlobs hasher textHasher blobs = fromBlobs hasher' textHasher' blobs

/-- The second of two equal copies in a row is dropped. -/
def SecondDropped (s : ClipState) (blobs : Blobs) : Prop :=
  ∀ hasher textHasher now hasher' textHasher' now',
    let first := (s.addGrouped hasher textHasher now blobs).2
    first.addGrouped hasher' textHasher' now' blobs = (none, first)

/-- No two text types with a payload are missing from the preference list. -/
def OneUnlisted (blobs : Blobs) : Prop :=
  ∀ a b, a ∈ storedBlobs blobs → b ∈ storedBlobs blobs → isTextMime a = true →
    isTextMime b = true → a ∉ preferredTextMimes → b ∉ preferredTextMimes → a = b

-- ---------------------------------------------------------------------------
-- At most one unlisted type
-- ---------------------------------------------------------------------------

variable {blobs : Blobs} {c c' : ClipboardContent}

theorem sameContent_of_oneUnlisted (h : OneUnlisted blobs) : SameContent blobs := by
  intro hasher textHasher hasher' textHasher'
  rw [ClipboardContent.fromBlobs_hasher hasher hasher']
  refine ClipboardContent.fromBlobs_of_ranked ?_ textHasher textHasher'
  intro a ha b hb hrank
  obtain ⟨ha, hta⟩ := mem_textsOf.mp ha
  obtain ⟨hb, htb⟩ := mem_textsOf.mp hb
  by_cases hla : a ∈ preferredTextMimes
  · by_cases hlb : b ∈ preferredTextMimes
    · exact ClipboardContent.textRank_injective a hla b hlb hrank
    · exact absurd (hrank.trans (textRank_unlisted hlb)) (textRank_listed hla)
  · by_cases hlb : b ∈ preferredTextMimes
    · exact absurd (hrank.symm.trans (textRank_unlisted hla)) (textRank_listed hlb)
    · exact h a b ha hb hta htb hla hlb

-- ---------------------------------------------------------------------------
-- Two unlisted types
-- ---------------------------------------------------------------------------

theorem not_pair_sublist_swap {l : List String} (hn : l.Nodup) (h : [a, b].Sublist l) :
    ¬ [b, a].Sublist l := by
  induction l with
  | nil => cases h
  | cons x l ih =>
    obtain ⟨hx, hn⟩ := List.nodup_cons.mp hn
    intro h'
    cases h with
    | cons _ h =>
      cases h' with
      | cons _ h' => exact ih hn h h'
      | cons_cons _ h' => exact hx (h.subset (by simp))
    | cons_cons _ h =>
      cases h' with
      | cons _ h' => exact hx (h'.subset (by simp))
      | cons_cons _ h' => exact hx (h.subset (by simp))

theorem exists_keys_before {m : Blobs} {a b : String} (ha : a ∈ m) (hb : b ∈ m) (hne : a ≠ b) :
    ∃ hasher : Hasher String Bytes, [a, b].Sublist (hasher.keys m) := by
  obtain ⟨va, hva⟩ := Option.isSome_iff_exists.mp (Std.ExtTreeMap.mem_iff_isSome_getElem?.mp ha)
  obtain ⟨vb, hvb⟩ := Option.isSome_iff_exists.mp (Std.ExtTreeMap.mem_iff_isSome_getElem?.mp hb)
  have hma : (a, va) ∈ m.toList := Std.ExtTreeMap.mem_toList_iff_getElem?_eq_some.mpr hva
  have hmb : (b, vb) ∈ m.toList.erase (a, va) :=
    (List.mem_erase_of_ne fun h => hne (congrArg Prod.fst h).symm).mpr
      (Std.ExtTreeMap.mem_toList_iff_getElem?_eq_some.mpr hvb)
  have hp : ((a, va) :: (b, vb) :: (m.toList.erase (a, va)).erase (b, vb)).Perm m.toList :=
    ((List.perm_cons_erase hmb).symm.cons _).trans (List.perm_cons_erase hma).symm
  refine ⟨.choosing ((a, va) :: (b, vb) :: (m.toList.erase (a, va)).erase (b, vb)), ?_⟩
  rw [Hasher.keys, Hasher.entries_choosing m hp]
  exact ((List.nil_sublist _).cons_cons b).cons_cons a

theorem exists_contents_ne (h : ¬ OneUnlisted blobs) :
    ∃ textHasher textHasher' c c', fromBlobs .sorted textHasher blobs = some c ∧
      fromBlobs .sorted textHasher' blobs = some c' ∧ c ≠ c' := by
  simp only [OneUnlisted, not_forall] at h
  obtain ⟨a, b, ha, hb, hta, htb, hla, hlb, hne⟩ := h
  have hma := mem_textsOf.mpr ⟨ha, hta⟩
  have hmb := mem_textsOf.mpr ⟨hb, htb⟩
  obtain ⟨textHasher, hab⟩ := exists_keys_before hma hmb hne
  obtain ⟨textHasher', hba⟩ := exists_keys_before hmb hma (Ne.symm hne)
  have hsome (textHasher : Hasher String Bytes) :
      ∃ c t, fromBlobs .sorted textHasher blobs = some c ∧ c.textPart = some t := by
    have hne : fromBlobs .sorted textHasher blobs ≠ none := by
      rw [ne_eq, ClipboardContent.fromBlobs_eq_none]
      intro hempty
      rw [hempty] at ha
      exact Std.ExtTreeMap.not_mem_empty ha
    obtain ⟨c, hc⟩ := Option.ne_none_iff_exists'.mp hne
    have ht := (ClipboardContent.hasText_fromBlobs hc).mpr ⟨a, ha, hta⟩
    rw [ClipboardContent.hasText_eq, Option.isSome_iff_exists] at ht
    obtain ⟨t, ht⟩ := ht
    exact ⟨c, t, hc, ht⟩
  obtain ⟨c, t, hc, ht⟩ := hsome textHasher
  obtain ⟨c', t', hc', ht'⟩ := hsome textHasher'
  refine ⟨textHasher, textHasher', c, c', hc, hc', ?_⟩
  rintro rfl
  obtain rfl : t = t' := Option.some.inj (ht.symm.trans ht')
  have hrank : textRank a = textRank b := by rw [textRank_unlisted hla, textRank_unlisted hlb]
  have hsort := List.pair_sublist_insertionSort (r := (textRank · ≤ textRank ·)) hrank.le hab
  have hsort' := List.pair_sublist_insertionSort (r := (textRank · ≤ textRank ·)) hrank.ge hba
  rw [← offeredMimes_text hc ht] at hsort
  rw [← offeredMimes_text hc' ht'] at hsort'
  refine not_pair_sublist_swap ?_ hsort hsort'
  rw [offeredMimes_text hc ht]
  exact (List.perm_insertionSort ..).nodup_iff.mpr (Hasher.nodup_keys ..)

-- ---------------------------------------------------------------------------
-- Two equal copies
-- ---------------------------------------------------------------------------

theorem latest_addGrouped (s : ClipState) (now : SystemTime)
    (h : fromBlobs hasher textHasher blobs = some c) :
    (s.addGrouped hasher textHasher now blobs).2.latest.map (·.content) = some c := by
  rcases ClipState.addGrouped_cases hasher textHasher now s blobs with
    ⟨hf, -⟩ | ⟨content, hf, hl, ha⟩ | ⟨content, hc, hf, -, ha⟩
  · rw [h] at hf
    cases hf
  · rw [ha, hl, ← hf, h]
  · rw [ha, ClipState.latest_store]
    exact hf.symm.trans h

theorem addGrouped_of_latest {s : ClipState} (now : SystemTime)
    (h : s.latest.map (·.content) = fromBlobs hasher textHasher blobs) :
    s.addGrouped hasher textHasher now blobs = (none, s) := by
  rcases ClipState.addGrouped_cases hasher textHasher now s blobs with
    ⟨-, ha⟩ | ⟨_, -, -, ha⟩ | ⟨_, _, hf, hl, -⟩
  · exact ha
  · exact ha
  · exact absurd (h.trans hf) hl

theorem secondDropped_of_sameContent (s : ClipState) (h : SameContent blobs) :
    SecondDropped s blobs := by
  intro hasher textHasher now hasher' textHasher' now' first
  cases hf : fromBlobs hasher textHasher blobs with
  | none =>
    rw [h _ _ hasher' textHasher'] at hf
    rcases ClipState.addGrouped_cases hasher' textHasher' now' first blobs with
      ⟨-, ha⟩ | ⟨_, hf', -, -⟩ | ⟨_, _, hf', -, -⟩
    · exact ha
    · cases hf.symm.trans hf'
    · cases hf.symm.trans hf'
  | some c =>
    apply addGrouped_of_latest
    rw [latest_addGrouped s now hf, ← h hasher textHasher, hf]

/-- Exactly when the iteration order plays no part: at most one text type with
a payload is missing from the preference list. The same condition decides, in
every state of the history, whether a second equal copy is dropped. -/
theorem hash_order_iff (blobs : Blobs) :
    (SameContent blobs ↔ OneUnlisted blobs) ∧
      ∀ ops, SecondDropped (ClipState.exec ops) blobs ↔ OneUnlisted blobs := by
  refine ⟨⟨fun h => ?_, sameContent_of_oneUnlisted⟩, fun ops => ⟨fun h => ?_, fun h => ?_⟩⟩
  · by_contra hnot
    obtain ⟨textHasher, textHasher', c, c', hc, hc', hne⟩ := exists_contents_ne hnot
    rw [h _ textHasher _ textHasher', hc'] at hc
    exact hne (Option.some.inj hc).symm
  · by_contra hnot
    obtain ⟨textHasher, textHasher', c, c', hc, hc', hne⟩ := exists_contents_ne hnot
    have hlast := latest_addGrouped (ClipState.exec ops) 0 hc
    have hlast' := latest_addGrouped
      ((ClipState.exec ops).addGrouped .sorted textHasher 0 blobs).2 0 hc'
    rw [h .sorted textHasher 0 .sorted textHasher' 0, hlast] at hlast'
    exact hne (Option.some.inj hlast')
  · exact secondDropped_of_sameContent _ (sameContent_of_oneUnlisted h)

def browserBlobs : Blobs := blobsOf [("text/_moz_htmlinfo", [0x31]), ("text/x-moz-url", [0x32])]

theorem browser_copy_stored_twice :
    ¬ SameContent browserBlobs ∧ ¬ SecondDropped .new browserBlobs := by
  constructor
  · intro h
    have := h .sorted .sorted .sorted
      (.choosing [("text/x-moz-url", [0x32]), ("text/_moz_htmlinfo", [0x31])])
    revert this
    decide +kernel
  · intro h
    have := congrArg Prod.fst (h .sorted .sorted 0 .sorted
      (.choosing [("text/x-moz-url", [0x32]), ("text/_moz_htmlinfo", [0x31])]) 0)
    revert this
    decide +kernel

end Uclip
