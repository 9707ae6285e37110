import Uclip.Content
import Uclip.Lib.StableSort

/-!
# Laws of classified content

A copy is determined by its non-empty payloads and the order its text map is
iterated in. The lemmas here read each view of the content `fromBlobs` returns
off those payloads.
-/

namespace Uclip

open Text (Bytes fromUtf8Lossy firstLine)

theorem compare_string_lt {a b : String} : compare a b = .lt ↔ a < b := compare_lt_iff_lt

def storedBlobs (blobs : Blobs) : Blobs := blobs.filter fun _ bytes => !bytes.isEmpty

def imagesOf (blobs : Blobs) : List ImageData :=
  (blobs.filter fun mime _ => !isTextMime mime).toList.map fun (mime, bytes) => ⟨mime, bytes⟩

def textsOf (blobs : Blobs) : Blobs := blobs.filter fun mime _ => isTextMime mime

theorem getElem?_storedBlobs (blobs : Blobs) (mime : String) :
    (storedBlobs blobs)[mime]? = blobs[mime]?.filter (!·.isEmpty) := by
  simp [storedBlobs]

theorem mem_storedBlobs :
    mime ∈ storedBlobs blobs ↔ ∃ bytes, blobs[mime]? = some bytes ∧ bytes ≠ [] := by
  rw [Std.ExtTreeMap.mem_iff_isSome_getElem?, getElem?_storedBlobs]
  cases h : blobs[mime]? <;> simp [Option.filter]

theorem getElem?_textsOf (blobs : Blobs) (mime : String) :
    (textsOf blobs)[mime]? = if isTextMime mime then blobs[mime]? else none := by
  rw [textsOf, Std.ExtTreeMap.getElem?_filter']
  cases blobs[mime]? <;> simp [Option.filter]

theorem mem_textsOf {mime : String} :
    mime ∈ textsOf blobs ↔ mime ∈ blobs ∧ isTextMime mime = true := by
  simp only [Std.ExtTreeMap.mem_iff_isSome_getElem?, getElem?_textsOf]
  cases isTextMime mime <;> simp

theorem textsOf_eq_empty {blobs : Blobs} :
    textsOf blobs = ∅ ↔ ∀ mime ∈ blobs, isTextMime mime = false := by
  rw [textsOf, Std.ExtTreeMap.filter_eq_empty_iff]
  simp only [Std.ExtTreeMap.getKey_eq]

theorem storedBlobs_eq_self_iff :
    storedBlobs blobs = blobs ↔
      ∀ (mime : String) bytes, blobs[mime]? = some bytes → bytes ≠ [] := by
  constructor
  · intro h mime bytes hb
    rw [← h, getElem?_storedBlobs, Option.filter_eq_some_iff] at hb
    simpa using hb.2
  · intro h
    apply Std.ExtTreeMap.ext_getElem?
    intro mime
    rw [getElem?_storedBlobs]
    cases hb : blobs[mime]? with
    | none => rfl
    | some bytes => simp [Option.filter, h mime bytes hb]

theorem storedBlobs_storedBlobs : storedBlobs (storedBlobs blobs) = storedBlobs blobs := by
  rw [storedBlobs_eq_self_iff]
  intro mime bytes h
  rw [getElem?_storedBlobs, Option.filter_eq_some_iff] at h
  simpa using h.2

theorem mem_imagesOf {blobs : Blobs} :
    i ∈ imagesOf blobs ↔ blobs[i.mimeType]? = some i.bytes ∧ isTextMime i.mimeType = false := by
  simp only [imagesOf, List.mem_map, Prod.exists, Std.ExtTreeMap.mem_toList_iff_getElem?_eq_some,
    Std.ExtTreeMap.getElem?_filter', Option.filter_eq_some_iff, Bool.not_eq_true']
  constructor
  · rintro ⟨mime, bytes, h, rfl⟩
    exact h
  · intro h
    exact ⟨_, _, h, rfl⟩

theorem imagesOf_pairwise (blobs : Blobs) :
    (imagesOf blobs).Pairwise (·.mimeType < ·.mimeType) := by
  rw [imagesOf, List.pairwise_map]
  exact Std.ExtTreeMap.ordered_keys_toList.imp compare_string_lt.mp

-- ---------------------------------------------------------------------------
-- The text half
-- ---------------------------------------------------------------------------

theorem sorted_keys (hasher : Hasher String Bytes) (blobs : Blobs) :
    (hasher.keys blobs).insertionSort (· ≤ ·) = blobs.keys := by
  apply List.Perm.eq_of_pairwise' (List.pairwise_insertionSort ..)
  · exact Std.ExtTreeMap.ordered_keys.imp fun h => (compare_string_lt.mp h).le
  · exact (List.perm_insertionSort ..).trans (hasher.keys_perm blobs)

theorem choosePrimary_eq (hasher : Hasher String Bytes) (blobs : Blobs) :
    choosePrimary hasher blobs =
      (preferredTextMimes.find? (blobs.contains ·)).or blobs.keys.head? := by
  rw [choosePrimary, sorted_keys]

theorem choosePrimary_mem (h : choosePrimary hasher blobs = some mime) : mime ∈ blobs := by
  rw [choosePrimary_eq, Option.or_eq_some_iff] at h
  rcases h with h | ⟨-, h⟩
  · exact Std.ExtTreeMap.mem_iff_contains.mpr (List.find?_some h)
  · exact Std.ExtTreeMap.mem_of_mem_keys (List.mem_of_mem_head? h)

theorem choosePrimary_isSome (hasher : Hasher String Bytes) {blobs : Blobs} (h : blobs ≠ ∅) :
    ∃ mime, choosePrimary hasher blobs = some mime := by
  rw [choosePrimary_eq]
  cases hk : blobs.keys with
  | nil => exact absurd (Std.ExtTreeMap.keys_eq_nil_iff.mp hk) h
  | cons mime rest =>
    cases hp : preferredTextMimes.find? (blobs.contains ·) with
    | none => exact ⟨mime, by simp⟩
    | some preferred => exact ⟨preferred, by simp⟩

/-- The two types a restore looks for first are also the first two preferences. -/
theorem choosePrimary_utf8 {blobs : Blobs} (h : "text/plain;charset=utf-8" ∈ blobs) :
    choosePrimary hasher blobs = some "text/plain;charset=utf-8" := by
  rw [Std.ExtTreeMap.mem_iff_contains] at h
  simp [choosePrimary, preferredTextMimes, h]

theorem choosePrimary_plain {blobs : Blobs} (hu : "text/plain;charset=utf-8" ∉ blobs)
    (h : "text/plain" ∈ blobs) : choosePrimary hasher blobs = some "text/plain" := by
  rw [Std.ExtTreeMap.mem_iff_contains] at h hu
  simp only [Bool.not_eq_true] at hu
  simp [choosePrimary, preferredTextMimes, h, hu]

theorem textRank_listed (h : mime ∈ preferredTextMimes) : textRank mime ≠ usizeMax := by
  have hall : ∀ mime ∈ preferredTextMimes, textRank mime ≠ usizeMax := by decide
  exact hall mime h

theorem textRank_unlisted (h : mime ∉ preferredTextMimes) : textRank mime = usizeMax := by
  rw [textRank, List.idxOf?_eq_none_iff.mpr h]
  rfl

namespace ClipboardContent

theorem buildText_eq_none : buildText hasher blobs = none ↔ blobs = ∅ := by
  unfold buildText
  rw [← Std.ExtTreeMap.isEmpty_iff]
  split
  · simp_all
  · rename_i h
    rw [Std.ExtTreeMap.isEmpty_iff] at h
    obtain ⟨mime, hm⟩ := choosePrimary_isSome hasher h
    simp [hm, h]

theorem buildText_eq_some (h : buildText hasher blobs = some t) :
    choosePrimary hasher blobs = some t.primaryMime ∧
      t.text = fromUtf8Lossy (blobs[t.primaryMime]?.getD []) ∧
      t.html = distinctHtml blobs t.primaryMime ∧
      t.offeredMimes = (hasher.keys blobs).insertionSort (textRank · ≤ textRank ·) ∧
      t.blobs = blobs := by
  unfold buildText at h
  split at h
  · cases h
  · obtain ⟨mime, hm, h⟩ := Option.bind_eq_some_iff.mp h
    cases h
    exact ⟨hm, rfl, rfl, rfl, rfl⟩

-- ---------------------------------------------------------------------------
-- The two halves of a classification
-- ---------------------------------------------------------------------------

def assemble : Option TextData → List ImageData → ClipboardContent
  | some t, [] => .text t
  | none, [i] => .image i
  | t, images => .mixed ⟨t, images⟩

def textPart : ClipboardContent → Option TextData
  | .text t => some t
  | .image _ => none
  | .mixed m => m.text

def imageParts : ClipboardContent → List ImageData
  | .text _ => []
  | .image i => [i]
  | .mixed m => m.images

@[simp] theorem textPart_assemble : (assemble t images).textPart = t := by
  cases t <;> rcases images with _ | ⟨i, _ | _⟩ <;> rfl

@[simp] theorem imageParts_assemble : (assemble t images).imageParts = images := by
  cases t <;> rcases images with _ | ⟨i, _ | _⟩ <;> rfl

theorem textBlobs_eq (blobs : Blobs) : textBlobs blobs = textsOf (storedBlobs blobs) := by
  apply Std.ExtTreeMap.ext_getElem?
  intro mime
  rw [getElem?_textsOf, getElem?_storedBlobs, textBlobs, Std.ExtTreeMap.getElem?_filter']
  cases blobs[mime]? <;> cases isTextMime mime <;> simp [Option.filter]

theorem sortImages_imageBlobs (hasher : Hasher String Bytes) (blobs : Blobs) :
    sortImages ((imageBlobs hasher blobs).map fun (mime, bytes) => ⟨mime, bytes⟩) =
      imagesOf (storedBlobs blobs) := by
  have hperm : ((imageBlobs hasher blobs).map fun (mime, bytes) => ImageData.mk mime bytes).Perm
      (imagesOf (storedBlobs blobs)) := by
    have hfilter : (storedBlobs blobs).filter (fun mime _ => !isTextMime mime) =
        blobs.filter fun mime bytes => !bytes.isEmpty && !isTextMime mime := by
      apply Std.ExtTreeMap.ext_getElem?
      intro mime
      rw [Std.ExtTreeMap.getElem?_filter', Std.ExtTreeMap.getElem?_filter', getElem?_storedBlobs]
      cases blobs[mime]? with
      | none => rfl
      | some bytes => cases bytes <;> simp [Option.filter]
    rw [imagesOf, hfilter, Std.ExtTreeMap.toList_filter]
    exact ((hasher.entries_perm blobs).filter _).map _
  have hsorted : (imagesOf (storedBlobs blobs)).Pairwise (·.mimeType ≤ ·.mimeType) :=
    (imagesOf_pairwise _).imp le_of_lt
  have hsort : (sortImages ((imageBlobs hasher blobs).map fun (mime, bytes) =>
      ImageData.mk mime bytes)).Pairwise (·.mimeType ≤ ·.mimeType) := by
    exact StableSort.pairwise_sortByRank ImageData.mimeType _
  refine List.Perm.eq_of_pairwise ?_ hsort hsorted ((List.perm_insertionSort ..).trans hperm)
  -- Two images of one type are one image: the type is the key of the map.
  intro a b ha hb hab hba
  have ha := mem_imagesOf.mp (hperm.mem_iff.mp ((List.mem_insertionSort _).mp ha))
  have hb := mem_imagesOf.mp hb
  have hm : a.mimeType = b.mimeType := le_antisymm hab hba
  cases a; cases b
  simp_all

theorem imageBlobs_eq_nil (hasher : Hasher String Bytes) (blobs : Blobs) :
    imageBlobs hasher blobs = [] ↔ imagesOf (storedBlobs blobs) = [] := by
  rw [← sortImages_imageBlobs hasher blobs, sortImages]
  constructor
  · intro h
    rw [h]
    rfl
  · intro h
    have hlen := congrArg List.length h
    simpa using hlen

theorem storedBlobs_eq_empty (hasher : Hasher String Bytes) (blobs : Blobs) :
    storedBlobs blobs = ∅ ↔ (textBlobs blobs).isEmpty ∧ (imageBlobs hasher blobs).isEmpty := by
  rw [Std.ExtTreeMap.isEmpty_iff, List.isEmpty_iff, imageBlobs_eq_nil, textBlobs_eq]
  constructor
  · intro h
    rw [h]
    exact ⟨rfl, rfl⟩
  · rintro ⟨ht, hi⟩
    apply Std.ExtTreeMap.ext_getElem?
    intro mime
    rw [Std.ExtTreeMap.getElem?_empty]
    by_contra hne
    obtain ⟨bytes, hb⟩ := Option.ne_none_iff_exists'.mp hne
    cases htext : isTextMime mime with
    | true =>
      have := getElem?_textsOf (storedBlobs blobs) mime
      simp [ht, htext, hb] at this
    | false =>
      have : (⟨mime, bytes⟩ : ImageData) ∈ imagesOf (storedBlobs blobs) :=
        mem_imagesOf.mpr ⟨hb, htext⟩
      simp [hi] at this

/-- `fromBlobs` in one line: the text half and the image half, assembled. -/
theorem fromBlobs_eq (hasher textHasher : Hasher String Bytes) (blobs : Blobs) :
    fromBlobs hasher textHasher blobs =
      if storedBlobs blobs = ∅ then none
      else some (assemble (buildText textHasher (textsOf (storedBlobs blobs)))
        (imagesOf (storedBlobs blobs))) := by
  simp only [fromBlobs, sortImages_imageBlobs, textBlobs_eq]
  rw [← textBlobs_eq]
  by_cases h : storedBlobs blobs = ∅
  · rw [if_pos h, if_pos ((storedBlobs_eq_empty hasher blobs).mp h)]
  · rw [if_neg h, if_neg (mt (storedBlobs_eq_empty hasher blobs).mpr h)]
    generalize buildText textHasher (textBlobs blobs) = t
    generalize imagesOf (storedBlobs blobs) = images
    cases t <;> rcases images with _ | ⟨i, _ | _⟩ <;> rfl

theorem fromBlobs_eq_some :
    fromBlobs hasher textHasher blobs = some c ↔ storedBlobs blobs ≠ ∅ ∧
      c = assemble (buildText textHasher (textsOf (storedBlobs blobs)))
        (imagesOf (storedBlobs blobs)) := by
  rw [fromBlobs_eq]
  split
  · rename_i h
    exact ⟨nofun, fun hc => absurd h hc.1⟩
  · rename_i h
    exact ⟨fun hc => ⟨h, (Option.some.inj hc).symm⟩, fun hc => by rw [hc.2]⟩

theorem fromBlobs_eq_none : fromBlobs hasher textHasher blobs = none ↔ storedBlobs blobs = ∅ := by
  rw [fromBlobs_eq]
  split <;> simp_all

theorem textPart_fromBlobs (h : fromBlobs hasher textHasher blobs = some c) :
    c.textPart = buildText textHasher (textsOf (storedBlobs blobs)) := by
  rw [(fromBlobs_eq_some.mp h).2, textPart_assemble]

theorem imageParts_fromBlobs (h : fromBlobs hasher textHasher blobs = some c) :
    c.imageParts = imagesOf (storedBlobs blobs) := by
  rw [(fromBlobs_eq_some.mp h).2, imageParts_assemble]

-- ---------------------------------------------------------------------------
-- Flattening
-- ---------------------------------------------------------------------------

theorem representations_eq (c : ClipboardContent) :
    c.representations = insertImages ((c.textPart.map (·.blobs)).getD ∅) c.imageParts := by
  cases c <;> rfl

theorem getElem?_insertImages_of_notMem {map : Blobs} (h : ∀ i ∈ images, i.mimeType ≠ mime) :
    (insertImages map images)[mime]? = map[mime]? := by
  induction images generalizing map with
  | nil => rfl
  | cons i images ih =>
    rw [insertImages, List.foldl_cons]
    refine (ih fun j hj => h j (List.mem_cons_of_mem _ hj)).trans ?_
    rw [Std.ExtTreeMap.getElem?_insert, if_neg]
    simpa using h i List.mem_cons_self

theorem getElem?_insertImages_of_mem {map : Blobs}
    (hn : images.Pairwise (·.mimeType < ·.mimeType)) (h : i ∈ images) :
    (insertImages map images)[i.mimeType]? = some i.bytes := by
  induction images generalizing map with
  | nil => cases h
  | cons j images ih =>
    obtain ⟨hj, hn⟩ := List.pairwise_cons.mp hn
    rw [insertImages, List.foldl_cons]
    rcases List.mem_cons.mp h with rfl | h
    · refine (getElem?_insertImages_of_notMem fun k hk => (hj k hk).ne').trans ?_
      exact Std.ExtTreeMap.getElem?_insert_self
    · exact ih hn h

theorem representations_fromBlobs (h : fromBlobs hasher textHasher blobs = some c) :
    c.representations = storedBlobs blobs := by
  obtain ⟨-, rfl⟩ := fromBlobs_eq_some.mp h
  rw [representations_eq, textPart_assemble, imageParts_assemble]
  have htexts : ((buildText textHasher (textsOf (storedBlobs blobs))).map (·.blobs)).getD ∅ =
      textsOf (storedBlobs blobs) := by
    cases hb : buildText textHasher (textsOf (storedBlobs blobs)) with
    | none => exact (buildText_eq_none.mp hb).symm
    | some t => exact (buildText_eq_some hb).2.2.2.2
  rw [htexts]
  apply Std.ExtTreeMap.ext_getElem?
  intro mime
  by_cases hi : ∃ i ∈ imagesOf (storedBlobs blobs), i.mimeType = mime
  · obtain ⟨i, hi, rfl⟩ := hi
    rw [getElem?_insertImages_of_mem (imagesOf_pairwise _) hi, (mem_imagesOf.mp hi).1]
  · rw [getElem?_insertImages_of_notMem fun i him he => hi ⟨i, him, he⟩, getElem?_textsOf]
    split
    · rfl
    · rename_i htext
      cases hb : (storedBlobs blobs)[mime]? with
      | none => rfl
      | some bytes =>
        exact absurd ⟨⟨mime, bytes⟩, mem_imagesOf.mpr ⟨hb, by simpa using htext⟩, rfl⟩ hi

theorem hasText_eq (c : ClipboardContent) : c.hasText = c.textPart.isSome := by
  cases c <;> rfl

theorem hasText_fromBlobs (h : fromBlobs hasher textHasher blobs = some c) :
    c.hasText = true ↔ ∃ mime ∈ storedBlobs blobs, isTextMime mime = true := by
  rw [hasText_eq, textPart_fromBlobs h, Option.isSome_iff_ne_none, ne_eq, buildText_eq_none,
    textsOf_eq_empty]
  simp only [not_forall, Bool.not_eq_false, exists_prop]

/-- Content that `fromBlobs` returns: its own representations classify to it. -/
def Classified (c : ClipboardContent) : Prop :=
  ∃ textHasher, fromBlobs .sorted textHasher c.representations = some c

theorem fromBlobs_hasher (hasher hasher' : Hasher String Bytes) :
    fromBlobs hasher textHasher blobs = fromBlobs hasher' textHasher blobs := by
  rw [fromBlobs_eq, fromBlobs_eq]

theorem fromBlobs_storedBlobs :
    fromBlobs hasher textHasher (storedBlobs blobs) = fromBlobs hasher textHasher blobs := by
  rw [fromBlobs_eq, fromBlobs_eq, storedBlobs_storedBlobs]

theorem textRank_injective : ∀ a ∈ preferredTextMimes, ∀ b ∈ preferredTextMimes,
    textRank a = textRank b → a = b := by decide

theorem fromBlobs_of_ranked
    (h : ∀ a ∈ textsOf (storedBlobs blobs), ∀ b ∈ textsOf (storedBlobs blobs),
      textRank a = textRank b → a = b) (textHasher textHasher' : Hasher String Bytes) :
    fromBlobs hasher textHasher blobs = fromBlobs hasher textHasher' blobs := by
  have hsorted (hasher : Hasher String Bytes) :
      ((hasher.keys (textsOf (storedBlobs blobs))).insertionSort
        (textRank · ≤ textRank ·)).Pairwise (textRank · ≤ textRank ·) := by
    exact StableSort.pairwise_sortByRank textRank _
  have hoffered : (textHasher.keys (textsOf (storedBlobs blobs))).insertionSort
        (textRank · ≤ textRank ·) =
      (textHasher'.keys (textsOf (storedBlobs blobs))).insertionSort (textRank · ≤ textRank ·) := by
    refine List.Perm.eq_of_pairwise ?_ (hsorted textHasher) (hsorted textHasher') ?_
    · intro a b ha hb hab hba
      rw [List.mem_insertionSort, Hasher.mem_keys] at ha hb
      exact h a ha b hb (Nat.le_antisymm hab hba)
    · exact (List.perm_insertionSort ..).trans (((textHasher.keys_perm _).trans
        (textHasher'.keys_perm _).symm).trans (List.perm_insertionSort ..).symm)
  have hbuild : buildText textHasher (textsOf (storedBlobs blobs)) =
      buildText textHasher' (textsOf (storedBlobs blobs)) := by
    simp only [buildText, choosePrimary_eq, hoffered]
  rw [fromBlobs_eq, fromBlobs_eq, hbuild]

theorem fromBlobs_textHasher (h : ∀ mime ∈ storedBlobs blobs, isTextMime mime = true →
      mime ∈ preferredTextMimes) (textHasher textHasher' : Hasher String Bytes) :
    fromBlobs hasher textHasher blobs = fromBlobs hasher textHasher' blobs := by
  have hlisted : ∀ mime ∈ textsOf (storedBlobs blobs), mime ∈ preferredTextMimes := by
    intro mime hm
    rw [Std.ExtTreeMap.mem_iff_isSome_getElem?, getElem?_textsOf] at hm
    split at hm
    · exact h mime (Std.ExtTreeMap.mem_iff_isSome_getElem?.mpr hm) ‹_›
    · cases hm
  exact fromBlobs_of_ranked (fun a ha b hb => textRank_injective a (hlisted a ha) b (hlisted b hb))
    textHasher textHasher'

theorem classified_fromBlobs (h : fromBlobs hasher textHasher blobs = some c) : c.Classified := by
  refine ⟨textHasher, ?_⟩
  rw [representations_fromBlobs h, fromBlobs_storedBlobs, fromBlobs_hasher .sorted hasher, h]

theorem Classified.nonempty {c : ClipboardContent} (hc : c.Classified) {mime : String}
    (h : c.representations[mime]? = some bytes) : bytes ≠ [] := by
  obtain ⟨textHasher, hf⟩ := hc
  exact storedBlobs_eq_self_iff.mp (representations_fromBlobs hf).symm mime bytes h

end ClipboardContent

-- ---------------------------------------------------------------------------
-- The primary type and the offered text
-- ---------------------------------------------------------------------------

open ClipboardContent (fromBlobs)

theorem primaryMime_assemble {t : TextData} :
    (ClipboardContent.assemble (some t) images).primaryMime = t.primaryMime := by
  rcases images with _ | ⟨i, _ | _⟩ <;> rfl

theorem choosePrimary_fromBlobs (h : fromBlobs hasher textHasher blobs = some c)
    (ht : c.hasText = true) :
    choosePrimary textHasher (textsOf (storedBlobs blobs)) = some c.primaryMime := by
  obtain ⟨-, rfl⟩ := ClipboardContent.fromBlobs_eq_some.mp h
  rw [ClipboardContent.hasText_eq, ClipboardContent.textPart_assemble] at ht
  obtain ⟨t, hbuild⟩ := Option.isSome_iff_exists.mp ht
  rw [hbuild, primaryMime_assemble]
  exact (ClipboardContent.buildText_eq_some hbuild).1

theorem primaryMime_mem (h : fromBlobs hasher textHasher blobs = some c) (ht : c.hasText = true) :
    c.primaryMime ∈ c.representations := by
  rw [ClipboardContent.representations_fromBlobs h]
  exact (mem_textsOf.mp (choosePrimary_mem (choosePrimary_fromBlobs h ht))).1

theorem offeredMimes_text (h : fromBlobs hasher textHasher blobs = some c)
    (ht : c.textPart = some t) :
    t.offeredMimes =
      (textHasher.keys (textsOf (storedBlobs blobs))).insertionSort
        (textRank · ≤ textRank ·) := by
  rw [ClipboardContent.textPart_fromBlobs h] at ht
  exact (ClipboardContent.buildText_eq_some ht).2.2.2.1

end Uclip
