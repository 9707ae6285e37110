import Mathlib.Data.List.Find
import Mathlib.Order.Bounds.Basic
import Uclip.ContentLaws

/-!
# The shape of classified content

The variant, the primary type, the offered types, the HTML and the flattened map
are computed by separate functions, each with an order of its own. `Shape` says
how they fit together over the non-empty payloads of a copy.
-/

namespace Uclip

open Text (Bytes)

def AllText (blobs : Blobs) : Prop := ∀ mime ∈ storedBlobs blobs, isTextMime mime = true

def NoText (blobs : Blobs) : Prop := ∀ mime ∈ storedBlobs blobs, isTextMime mime = false

def OnlyImage (blobs : Blobs) : Prop :=
  ∃ image, isTextMime image = false ∧ ∀ mime, mime ∈ storedBlobs blobs ↔ mime = image

structure Shape (blobs : Blobs) (c : ClipboardContent) : Prop where
  isText : (∃ t, c = .text t) ↔ AllText blobs
  isImage : (∃ i, c = .image i) ↔ OnlyImage blobs
  isMixed : (∃ m, c = .mixed m) ↔ ¬ AllText blobs ∧ ¬ OnlyImage blobs
  mixed_parts : ∀ m, c = .mixed m →
    m.text.isSome ∧ 1 ≤ m.images.length ∨ m.text = none ∧ 2 ≤ m.images.length
  images_notText : ∀ i ∈ c.imageParts, isTextMime i.mimeType = false
  images_sorted : c.imageParts.Pairwise (·.mimeType < ·.mimeType)
  offered_nodup : c.offeredMimes.Nodup
  offered_iff : ∀ mime, mime ∈ c.offeredMimes ↔ mime ∈ c.representations
  offered_textFirst : c.offeredMimes.Pairwise fun a b =>
    isTextMime b = true → isTextMime a = true
  -- `idxOf` of an unlisted type is the length of the list.
  offered_ranked : c.offeredMimes.Pairwise fun a b => isTextMime a = true → isTextMime b = true →
    preferredTextMimes.idxOf a ≤ preferredTextMimes.idxOf b
  primary_preferred : ∀ mime, preferredTextMimes.find? (· ∈ storedBlobs blobs) = some mime →
    c.primaryMime = mime
  primary_text : (∀ mime ∈ preferredTextMimes, mime ∉ storedBlobs blobs) → ¬ NoText blobs →
    IsLeast {mime | mime ∈ storedBlobs blobs ∧ isTextMime mime = true} c.primaryMime
  primary_image : NoText blobs →
    IsLeast {mime | mime ∈ storedBlobs blobs ∧ isTextMime mime = false} c.primaryMime
  primary_mem : c.primaryMime ∈ c.representations
  html : (∃ t, c.textPart = some t ∧ t.html.isSome) ↔
    "text/html" ∈ c.offeredMimes ∧ c.primaryMime ≠ "text/html" ∧
      c.representations["text/html"]? ≠ c.representations[c.primaryMime]?

-- ---------------------------------------------------------------------------
-- The two halves
-- ---------------------------------------------------------------------------

theorem imagesOf_eq_nil {blobs : Blobs} :
    imagesOf blobs = [] ↔ ∀ mime ∈ blobs, isTextMime mime = true := by
  rw [List.eq_nil_iff_forall_not_mem]
  constructor
  · intro h mime hm
    obtain ⟨bytes, hb⟩ := Option.isSome_iff_exists.mp
      (Std.ExtTreeMap.mem_iff_isSome_getElem?.mp hm)
    by_contra ht
    exact h ⟨mime, bytes⟩ (mem_imagesOf.mpr ⟨hb, Bool.eq_false_of_not_eq_true ht⟩)
  · intro h i hi
    obtain ⟨hb, ht⟩ := mem_imagesOf.mp hi
    have hm : i.mimeType ∈ blobs := Std.ExtTreeMap.mem_iff_isSome_getElem?.mpr (by simp [hb])
    simp [h _ hm] at ht

theorem mem_imagesOf_map {blobs : Blobs} :
    mime ∈ (imagesOf blobs).map (·.mimeType) ↔ mime ∈ blobs ∧ isTextMime mime = false := by
  simp only [List.mem_map, mem_imagesOf, Std.ExtTreeMap.mem_iff_isSome_getElem?,
    Option.isSome_iff_exists]
  constructor
  · rintro ⟨i, ⟨hb, ht⟩, rfl⟩
    exact ⟨⟨_, hb⟩, ht⟩
  · rintro ⟨⟨bytes, hb⟩, ht⟩
    exact ⟨⟨mime, bytes⟩, ⟨hb, ht⟩, rfl⟩

theorem exists_imagesOf_eq_singleton {blobs : Blobs} (ht : isTextMime image = false)
    (h : ∀ mime, mime ∈ blobs ↔ mime = image) : ∃ i, imagesOf blobs = [i] := by
  have hmap : (imagesOf blobs).map (·.mimeType) = [image] := by
    rw [← List.perm_singleton, List.perm_ext_iff_of_nodup]
    · intro mime
      rw [mem_imagesOf_map, List.mem_singleton, h]
      exact ⟨And.left, fun hm => ⟨hm, hm ▸ ht⟩⟩
    · exact List.pairwise_map.mpr ((imagesOf_pairwise blobs).imp ne_of_lt)
    · exact List.nodup_singleton image
  obtain ⟨i, hi, -⟩ := List.map_eq_singleton_iff.mp hmap
  exact ⟨i, hi⟩

variable {blobs : Blobs} {c : ClipboardContent}

namespace ClipboardContent

theorem eq_assemble (h : fromBlobs hasher textHasher blobs = some c) :
    c = assemble c.textPart c.imageParts := by
  rw [textPart_fromBlobs h, imageParts_fromBlobs h, ← (fromBlobs_eq_some.mp h).2]

theorem textPart_eq_none (h : fromBlobs hasher textHasher blobs = some c) :
    c.textPart = none ↔ NoText blobs := by
  rw [textPart_fromBlobs h, buildText_eq_none, textsOf_eq_empty, NoText]

theorem imageParts_eq_nil (h : fromBlobs hasher textHasher blobs = some c) :
    c.imageParts = [] ↔ AllText blobs := by
  rw [imageParts_fromBlobs h, imagesOf_eq_nil, AllText]

/-- A classified copy has some payload, so it is not both all text and no text. -/
theorem parts_nonempty (h : fromBlobs hasher textHasher blobs = some c)
    (ht : c.textPart = none) : c.imageParts ≠ [] := by
  intro hi
  have hno := (textPart_eq_none h).mp ht
  have hall := (imageParts_eq_nil h).mp hi
  apply (fromBlobs_eq_some.mp h).1
  refine Std.ExtTreeMap.eq_empty_iff_forall_not_mem.mpr fun mime hm => ?_
  exact absurd (hall mime hm) (by simp [hno mime hm])

theorem exists_eq_text_iff (h : fromBlobs hasher textHasher blobs = some c) :
    (∃ t, c = .text t) ↔ AllText blobs := by
  rw [← imageParts_eq_nil h]
  constructor
  · rintro ⟨t, rfl⟩
    rfl
  · intro hi
    have hc := eq_assemble h
    rw [hi] at hc
    cases ht : c.textPart with
    | none => exact absurd hi (parts_nonempty h ht)
    | some t => exact ⟨t, hc.trans (by rw [ht]; rfl)⟩

theorem exists_eq_image_iff (h : fromBlobs hasher textHasher blobs = some c) :
    (∃ i, c = .image i) ↔ OnlyImage blobs := by
  constructor
  · rintro ⟨i, rfl⟩
    have hno : NoText blobs := (textPart_eq_none h).mp rfl
    have himages : imagesOf (storedBlobs blobs) = [i] := (imageParts_fromBlobs h).symm
    have hmem (mime : String) : mime ∈ storedBlobs blobs ↔ mime = i.mimeType := by
      have hkey : mime ∈ (imagesOf (storedBlobs blobs)).map (·.mimeType) ↔ _ := mem_imagesOf_map
      rw [himages, List.map_singleton, List.mem_singleton] at hkey
      exact ⟨fun hm => hkey.mpr ⟨hm, hno mime hm⟩, fun hm => (hkey.mp hm).1⟩
    exact ⟨i.mimeType, hno _ ((hmem _).mpr rfl), hmem⟩
  · rintro ⟨image, himage, hmem⟩
    obtain ⟨i, hi⟩ := exists_imagesOf_eq_singleton himage hmem
    have ht : c.textPart = none := by
      rw [textPart_eq_none h]
      exact fun mime hm => (hmem mime).mp hm ▸ himage
    have hc := eq_assemble h
    rw [ht, imageParts_fromBlobs h, hi] at hc
    exact ⟨i, hc⟩

theorem exists_eq_mixed_iff (h : fromBlobs hasher textHasher blobs = some c) :
    (∃ m, c = .mixed m) ↔ ¬ AllText blobs ∧ ¬ OnlyImage blobs := by
  rw [← exists_eq_text_iff h, ← exists_eq_image_iff h]
  cases c <;> simp

theorem mixed_parts (h : fromBlobs hasher textHasher blobs = some (.mixed m)) :
    m.text.isSome ∧ 1 ≤ m.images.length ∨ m.text = none ∧ 2 ≤ m.images.length := by
  have hc : ClipboardContent.mixed m = assemble m.text m.images := eq_assemble h
  have hne : m.text = none → m.images ≠ [] := parts_nonempty h
  obtain ⟨t, images⟩ := m
  cases t with
  | some t =>
    cases images with
    | nil => cases hc
    | cons i images => exact .inl ⟨rfl, by simp⟩
  | none =>
    rcases images with _ | ⟨i, _ | ⟨j, images⟩⟩
    · exact absurd rfl (hne rfl)
    · cases hc
    · exact .inr ⟨rfl, by simp⟩

-- ---------------------------------------------------------------------------
-- The offered types
-- ---------------------------------------------------------------------------

theorem textRank_le_iff {a b : String} : textRank a ≤ textRank b ↔
    preferredTextMimes.idxOf a ≤ preferredTextMimes.idxOf b := by
  have hlisted : ∀ mime ∈ preferredTextMimes,
      textRank mime = preferredTextMimes.idxOf mime ∧ textRank mime < usizeMax := by decide
  have hunlisted (mime : String) (h : mime ∉ preferredTextMimes) :
      preferredTextMimes.idxOf mime = preferredTextMimes.length := List.idxOf_eq_length h
  by_cases ha : a ∈ preferredTextMimes <;> by_cases hb : b ∈ preferredTextMimes
  · rw [(hlisted a ha).1, (hlisted b hb).1]
  · rw [textRank_unlisted hb, hunlisted b hb]
    exact ⟨fun _ => List.idxOf_le_length, fun _ => (hlisted a ha).2.le⟩
  · rw [textRank_unlisted ha, hunlisted a ha]
    have hlt := List.idxOf_lt_length_iff.mpr hb
    have := (hlisted b hb).2
    omega
  · rw [textRank_unlisted ha, textRank_unlisted hb, hunlisted a ha, hunlisted b hb]
    exact ⟨fun _ => le_rfl, fun _ => le_rfl⟩

theorem offeredMimes_eq (c : ClipboardContent) :
    c.offeredMimes =
      (c.textPart.map (·.offeredMimes)).getD [] ++ c.imageParts.map (·.mimeType) := by
  cases c <;> simp [offeredMimes, textPart, imageParts]

theorem textOffered_eq (h : fromBlobs hasher textHasher blobs = some c) :
    (c.textPart.map (·.offeredMimes)).getD [] =
      (textHasher.keys (textsOf (storedBlobs blobs))).insertionSort
        (textRank · ≤ textRank ·) := by
  cases ht : c.textPart with
  | none =>
    have hempty := textsOf_eq_empty.mpr ((textPart_eq_none h).mp ht)
    have hkeys : textHasher.keys (∅ : Blobs) = [] :=
      List.perm_nil.mp (textHasher.keys_perm (∅ : Blobs))
    rw [hempty, hkeys]
    rfl
  | some t => exact offeredMimes_text h ht

theorem offeredMimes_fromBlobs (h : fromBlobs hasher textHasher blobs = some c) :
    c.offeredMimes =
      (textHasher.keys (textsOf (storedBlobs blobs))).insertionSort (textRank · ≤ textRank ·) ++
        (imagesOf (storedBlobs blobs)).map (·.mimeType) := by
  rw [offeredMimes_eq, textOffered_eq h, imageParts_fromBlobs h]

theorem mem_textOffered {textHasher : Hasher String Bytes} :
    mime ∈ (textHasher.keys (textsOf blobs)).insertionSort (textRank · ≤ textRank ·) ↔
      mime ∈ blobs ∧ isTextMime mime = true := by
  rw [List.mem_insertionSort, Hasher.mem_keys, mem_textsOf]

theorem mem_offeredMimes (h : fromBlobs hasher textHasher blobs = some c) (mime : String) :
    mime ∈ c.offeredMimes ↔ mime ∈ c.representations := by
  rw [offeredMimes_fromBlobs h, representations_fromBlobs h, List.mem_append, mem_textOffered,
    mem_imagesOf_map]
  cases isTextMime mime <;> simp

theorem offeredMimes_nodup (h : fromBlobs hasher textHasher blobs = some c) :
    c.offeredMimes.Nodup := by
  rw [offeredMimes_fromBlobs h, List.nodup_append]
  refine ⟨(List.perm_insertionSort ..).nodup_iff.mpr (Hasher.nodup_keys ..),
    List.pairwise_map.mpr ((imagesOf_pairwise _).imp ne_of_lt), ?_⟩
  rintro a ha b hb rfl
  have ha := (mem_textOffered.mp ha).2
  have hb := (mem_imagesOf_map.mp hb).2
  simp [ha] at hb

theorem offeredMimes_textFirst (h : fromBlobs hasher textHasher blobs = some c) :
    c.offeredMimes.Pairwise fun a b => isTextMime b = true → isTextMime a = true := by
  rw [offeredMimes_fromBlobs h, List.pairwise_append]
  refine ⟨?_, ?_, ?_⟩
  · exact List.pairwise_of_forall_mem_list fun a ha _ _ _ => (mem_textOffered.mp ha).2
  · refine List.pairwise_of_forall_mem_list fun _ _ b hb ht => ?_
    simp [(mem_imagesOf_map.mp hb).2] at ht
  · exact fun a ha _ _ _ => (mem_textOffered.mp ha).2

theorem offeredMimes_ranked (h : fromBlobs hasher textHasher blobs = some c) :
    c.offeredMimes.Pairwise fun a b => isTextMime a = true → isTextMime b = true →
      preferredTextMimes.idxOf a ≤ preferredTextMimes.idxOf b := by
  rw [offeredMimes_fromBlobs h, List.pairwise_append]
  refine ⟨?_, ?_, ?_⟩
  · exact (StableSort.pairwise_sortByRank textRank _).imp fun hab _ _ => textRank_le_iff.mp hab
  · refine List.pairwise_of_forall_mem_list fun a ha _ _ ht => ?_
    simp [(mem_imagesOf_map.mp ha).2] at ht
  · intro _ _ b hb _ ht
    simp [(mem_imagesOf_map.mp hb).2] at ht

-- ---------------------------------------------------------------------------
-- The primary type
-- ---------------------------------------------------------------------------

theorem isLeast_head?_keys {blobs : Blobs} (h : blobs.keys.head? = some mime) :
    IsLeast {mime | mime ∈ blobs} mime := by
  have hsorted : blobs.keys.Pairwise (· < ·) :=
    Std.ExtTreeMap.ordered_keys.imp compare_string_lt.mp
  refine ⟨Std.ExtTreeMap.mem_of_mem_keys (List.mem_of_head? h), fun other hother => ?_⟩
  obtain ⟨rest, hkeys⟩ := List.head?_eq_some_iff.mp h
  have hother : other ∈ blobs.keys := Std.ExtTreeMap.mem_keys.mpr hother
  rw [hkeys] at hsorted hother
  rcases List.mem_cons.mp hother with rfl | hother
  · exact le_rfl
  · exact (List.rel_of_pairwise_cons hsorted hother).le

theorem choosePrimary_of_text (h : fromBlobs hasher textHasher blobs = some c)
    (ht : ¬ NoText blobs) :
    choosePrimary textHasher (textsOf (storedBlobs blobs)) = some c.primaryMime := by
  apply choosePrimary_fromBlobs h
  rwa [hasText_eq, Option.isSome_iff_ne_none, ne_eq, textPart_eq_none h]

/-- Preferred types are text, so the text half has one when the copy does. -/
theorem find?_preferred (blobs : Blobs) :
    preferredTextMimes.find? (fun mime => (textsOf blobs).contains mime) =
      preferredTextMimes.find? (· ∈ blobs) := by
  apply List.find?_congr
  intro mime hm
  rw [Bool.eq_iff_iff, ← Std.ExtTreeMap.mem_iff_contains, mem_textsOf, decide_eq_true_iff]
  exact and_iff_left (isTextMime_preferred mime hm)

theorem primaryMime_of_preferred (h : fromBlobs hasher textHasher blobs = some c)
    (hp : preferredTextMimes.find? (· ∈ storedBlobs blobs) = some mime) : c.primaryMime = mime := by
  have ht : ¬ NoText blobs := by
    intro hno
    have hm : mime ∈ storedBlobs blobs := by simpa using List.find?_some hp
    have hlisted := List.mem_of_find?_eq_some hp
    exact absurd (hno mime hm) (by simp [isTextMime_preferred mime hlisted])
  have hchosen := choosePrimary_of_text h ht
  rw [choosePrimary_eq, find?_preferred, hp, Option.some_or] at hchosen
  exact (Option.some.inj hchosen).symm

theorem isLeast_primaryMime_text (h : fromBlobs hasher textHasher blobs = some c)
    (hp : ∀ mime ∈ preferredTextMimes, mime ∉ storedBlobs blobs) (ht : ¬ NoText blobs) :
    IsLeast {mime | mime ∈ storedBlobs blobs ∧ isTextMime mime = true} c.primaryMime := by
  have hnone : preferredTextMimes.find? (· ∈ storedBlobs blobs) = none := by
    rw [List.find?_eq_none]
    simpa using hp
  have hchosen := choosePrimary_of_text h ht
  rw [choosePrimary_eq, find?_preferred, hnone, Option.none_or] at hchosen
  have hleast := isLeast_head?_keys hchosen
  simpa only [mem_textsOf] using hleast

theorem primaryMime_assemble_none : (assemble none (i :: images)).primaryMime = i.mimeType := by
  cases images <;> rfl

theorem isLeast_primaryMime_image (h : fromBlobs hasher textHasher blobs = some c)
    (ht : NoText blobs) :
    IsLeast {mime | mime ∈ storedBlobs blobs ∧ isTextMime mime = false} c.primaryMime := by
  have hc := eq_assemble h
  rw [(textPart_eq_none h).mpr ht, imageParts_fromBlobs h] at hc
  cases hi : imagesOf (storedBlobs blobs) with
  | nil =>
    rw [← imageParts_fromBlobs h] at hi
    exact absurd hi (parts_nonempty h ((textPart_eq_none h).mpr ht))
  | cons i images =>
    have hsorted := imagesOf_pairwise (storedBlobs blobs)
    have hkey {mime : String} : mime ∈ (i :: images).map (·.mimeType) ↔
        mime ∈ storedBlobs blobs ∧ isTextMime mime = false := hi ▸ mem_imagesOf_map
    rw [hi] at hc hsorted
    rw [hc, primaryMime_assemble_none]
    refine ⟨hkey.mp List.mem_cons_self, fun other hother => ?_⟩
    obtain ⟨j, hj, rfl⟩ := List.mem_map.mp (hkey.mpr hother)
    rcases List.mem_cons.mp hj with rfl | hj
    · exact le_rfl
    · exact (List.rel_of_pairwise_cons hsorted hj).le

theorem primaryMime_mem_representations (h : fromBlobs hasher textHasher blobs = some c) :
    c.primaryMime ∈ c.representations := by
  by_cases ht : NoText blobs
  · rw [representations_fromBlobs h]
    exact (isLeast_primaryMime_image h ht).1.1
  · refine primaryMime_mem h ?_
    rwa [hasText_eq, Option.isSome_iff_ne_none, ne_eq, textPart_eq_none h]

-- ---------------------------------------------------------------------------
-- HTML
-- ---------------------------------------------------------------------------

theorem distinctHtml_isSome (blobs : Blobs) (primary : String) :
    (distinctHtml blobs primary).isSome ↔
      "text/html" ∈ blobs ∧ primary ≠ "text/html" ∧ blobs["text/html"]? ≠ blobs[primary]? := by
  rw [distinctHtml, Std.ExtTreeMap.mem_iff_isSome_getElem?]
  cases hb : blobs["text/html"]? with
  | none => simp
  | some bytes =>
    dsimp only
    split
    · rename_i h
      rcases h with h | h <;> simp [h]
    · rename_i h
      obtain ⟨hdiffer, hprimary⟩ := not_or.mp h
      simp [hprimary, Ne.symm hdiffer]

/-- The HTML is kept when it is offered beside a primary text of other bytes. -/
theorem exists_html_iff (h : fromBlobs hasher textHasher blobs = some c) :
    (∃ t, c.textPart = some t ∧ t.html.isSome) ↔
      "text/html" ∈ c.offeredMimes ∧ c.primaryMime ≠ "text/html" ∧
        c.representations["text/html"]? ≠ c.representations[c.primaryMime]? := by
  have hhtml : isTextMime "text/html" = true := by decide
  rw [mem_offeredMimes h, representations_fromBlobs h]
  cases ht : c.textPart with
  | none =>
    have hno := (textPart_eq_none h).mp ht
    simp only [reduceCtorEq, false_and, exists_false, false_iff]
    rintro ⟨hm, -⟩
    simp [hno _ hm] at hhtml
  | some t =>
    have hbuild := ht
    rw [textPart_fromBlobs h] at hbuild
    obtain ⟨hchosen, -, hdistinct, -⟩ := buildText_eq_some hbuild
    have hprimary : t.primaryMime = c.primaryMime := by
      have := choosePrimary_fromBlobs h (by rw [hasText_eq, ht]; rfl)
      exact Option.some.inj (hchosen.symm.trans this)
    have htext : isTextMime c.primaryMime = true :=
      (mem_textsOf.mp (choosePrimary_mem (hprimary ▸ hchosen))).2
    simp only [Option.some.injEq, exists_eq_left', hdistinct, hprimary, distinctHtml_isSome,
      mem_textsOf, getElem?_textsOf, hhtml, htext, and_true, if_true]

-- ---------------------------------------------------------------------------
-- The shape
-- ---------------------------------------------------------------------------

theorem shape_of_fromBlobs (h : fromBlobs hasher textHasher blobs = some c) : Shape blobs c where
  isText := exists_eq_text_iff h
  isImage := exists_eq_image_iff h
  isMixed := exists_eq_mixed_iff h
  mixed_parts := by
    rintro m rfl
    exact mixed_parts h
  images_notText := by
    rw [imageParts_fromBlobs h]
    exact fun i hi => (mem_imagesOf.mp hi).2
  images_sorted := by
    rw [imageParts_fromBlobs h]
    exact imagesOf_pairwise _
  offered_nodup := offeredMimes_nodup h
  offered_iff := mem_offeredMimes h
  offered_textFirst := offeredMimes_textFirst h
  offered_ranked := offeredMimes_ranked h
  primary_preferred := fun _ => primaryMime_of_preferred h
  primary_text := isLeast_primaryMime_text h
  primary_image := isLeast_primaryMime_image h
  primary_mem := primaryMime_mem_representations h
  html := exists_html_iff h

end ClipboardContent

/-- `fromBlobs` drops a copy only when all its payloads are empty, and what it
returns has the shape, whatever the maps' iteration orders. -/
theorem fromBlobs_shape (hasher textHasher : Hasher String Bytes) (blobs : Blobs) :
    (ClipboardContent.fromBlobs hasher textHasher blobs = none ↔
      ∀ (mime : String) bytes, blobs[mime]? = some bytes → bytes = []) ∧
    ∀ c, ClipboardContent.fromBlobs hasher textHasher blobs = some c → Shape blobs c := by
  refine ⟨?_, fun c => ClipboardContent.shape_of_fromBlobs⟩
  rw [ClipboardContent.fromBlobs_eq_none, Std.ExtTreeMap.eq_empty_iff_forall_not_mem]
  simp only [mem_storedBlobs, not_exists, not_and, ne_eq, not_not]

end Uclip
