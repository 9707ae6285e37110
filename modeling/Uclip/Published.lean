import Uclip.AppState

/-!
# What a restore publishes

A restore offers the stored representations of its entry and, when the entry
has text, the missing text aliases. The representations are exact for as long
as the store holds the entry. The aliases carry the entry's primary text only
when the copy offered one of the two types `fallbackPayload` looks for first,
or when all its payloads are the same bytes.
-/

namespace Uclip

open Text (Bytes)
open ClipboardContent (fromBlobs)

/-- A successful restore of `entryId` in `s` creates a source with this data. -/
def Publishes (s : AppState) (entryId : Nat) (hasher offerHasher : Hasher String Bytes)
    (data : SourceData) (offered : List String) : Prop :=
  ∃ s', s.restoreEntry hasher offerHasher entryId = .ok s' ∧
    s'.requests = s.requests ++ AppState.publishRequests s.created data.contents offered
      s.currentSource

theorem publishRequests_inj
    (h : AppState.publishRequests source contents mimes old =
      AppState.publishRequests source contents' mimes' old) :
    contents = contents' ∧ mimes = mimes' := by
  simp only [AppState.publishRequests, List.cons.injEq, Request.createDataSource.injEq,
    SourceData.mk.injEq, true_and, List.append_cancel_right_eq] at h
  exact ⟨h.1, List.map_injective_iff.mpr (fun _ _ hr => (Request.offer.inj hr).2) h.2⟩

theorem publishes_iff :
    Publishes s entryId hasher offerHasher data offered ↔
      ∃ entry, s.clipboard.get entryId = some entry ∧ s.manager.isSome ∧ s.device.isSome ∧
        data.contents = AppState.sourceContents hasher entry.content ∧
        offered = offerHasher.keys data.contents := by
  constructor
  · rintro ⟨s', hok, hreq⟩
    obtain ⟨entry, hg, hm, hd, rfl⟩ := AppState.restoreEntry_eq_ok hok
    rw [AppState.publish_eq] at hreq
    obtain ⟨hc, ho⟩ := publishRequests_inj (List.append_cancel_left hreq)
    exact ⟨entry, hg, hm, hd, hc.symm, by rw [← hc, ho]⟩
  · rintro ⟨entry, hg, hm, hd, hc, ho⟩
    refine ⟨_, AppState.restoreEntry_of_get hg hm hd, ?_⟩
    rw [AppState.publish_eq, ← hc, ho]

theorem getElem?_insertIfNew_foldl (names : List String) (map : Blobs) (payload : Bytes)
    (mime : String) :
    (names.foldl (fun map name => map.insertIfNew name payload) map)[mime]? =
      map[mime]?.or (if mime ∈ names then some payload else none) := by
  induction names generalizing map with
  | nil => simp
  | cons name names ih =>
    rw [List.foldl_cons, ih, Std.ExtTreeMap.getElem?_insertIfNew]
    by_cases hn : name = mime
    · subst hn
      cases hm : map[name]? <;> simp [hm, Std.ExtTreeMap.mem_iff_isSome_getElem?]
    · simp [hn, Ne.symm hn]

theorem getElem?_sourceContents (hasher : Hasher String Bytes) (c : ClipboardContent)
    (mime : String) :
    (AppState.sourceContents hasher c)[mime]? =
      c.representations[mime]?.or
        (if c.hasText = true ∧ mime ∈ textAliases then
          some (AppState.fallbackPayload hasher c.representations)
        else none) := by
  unfold AppState.sourceContents
  split
  · rename_i h
    simp only [h, true_and]
    exact getElem?_insertIfNew_foldl ..
  · rename_i h
    simp [h]

theorem mem_sourceContents :
    mime ∈ AppState.sourceContents hasher c ↔
      mime ∈ c.representations ∨ c.hasText = true ∧ mime ∈ textAliases := by
  rw [Std.ExtTreeMap.mem_iff_isSome_getElem?, getElem?_sourceContents,
    Std.ExtTreeMap.mem_iff_isSome_getElem?]
  cases c.representations[mime]? <;> simp

theorem contentFor_of_getElem? {data : SourceData} (h : data.contents[mime]? = some bytes) :
    data.contentFor hasher mime = some bytes := by
  simp [SourceData.contentFor, h]

-- ---------------------------------------------------------------------------
-- Stored payloads
-- ---------------------------------------------------------------------------

inductive HistoryOp
  | addGrouped (hasher textHasher : Hasher String Bytes) (now : SystemTime) (blobs : Blobs)
  | addEntry (hasher textHasher : Hasher String Bytes) (now : SystemTime) (mimeType : String)
      (content : Bytes)
  | remove (id : Nat)
  | restore (hasher offerHasher : Hasher String Bytes) (entryId : Nat)

def HistoryOp.apply (s : AppState) : HistoryOp → AppState
  | .addGrouped hasher textHasher now blobs =>
    { s with clipboard := (s.clipboard.addGrouped hasher textHasher now blobs).2 }
  | .addEntry hasher textHasher now mimeType content =>
    { s with clipboard := (s.clipboard.addEntry hasher textHasher now mimeType content).2 }
  | .remove id => { s with clipboard := (s.clipboard.remove id).2 }
  | .restore hasher offerHasher entryId =>
    match s.restoreEntry hasher offerHasher entryId with
    | .ok s' => s'
    | .error _ => s

theorem HistoryOp.later (op : HistoryOp) (s : AppState) :
    s.clipboard.Later (op.apply s).clipboard := by
  cases op with
  | addGrouped => exact ClipState.later_addGrouped
  | addEntry => exact ClipState.later_addEntry
  | remove => exact ClipState.later_remove
  | restore hasher offerHasher entryId =>
    simp only [apply]
    split
    · obtain ⟨_, -, -, -, rfl⟩ := AppState.restoreEntry_eq_ok ‹_›
      rw [AppState.publish_eq]
      exact .refl _
    · exact .refl _

theorem HistoryOp.later_foldl (ops : List HistoryOp) (s : AppState) :
    s.clipboard.Later (ops.foldl apply s).clipboard := by
  induction ops generalizing s with
  | nil => exact .refl _
  | cons op ops ih => exact (op.later s).trans (ih _)

theorem addGrouped_eq_some {id : Nat}
    (h : (ClipState.addGrouped hasher textHasher now s blobs).1 = some id) :
    ∃ content, fromBlobs hasher textHasher blobs = some content ∧
      id < (ClipState.addGrouped hasher textHasher now s blobs).2.nextId ∧
      (ClipState.addGrouped hasher textHasher now s blobs).2.get id =
        some ⟨id, now, content⟩ := by
  rcases ClipState.addGrouped_cases hasher textHasher now s blobs with
    ⟨-, ha⟩ | ⟨_, -, -, ha⟩ | ⟨content, hc, hf, -, ha⟩ <;> rw [ha] at h ⊢ <;> cases h
  refine ⟨content, hf, Nat.lt_succ_self _, ClipState.get_eq_some_iff.mpr ⟨?_, rfl⟩⟩
  exact List.mem_of_getLast? (ClipState.latest_store hc)

theorem addGrouped_eq_none
    (h : (ClipState.addGrouped hasher textHasher now s blobs).1 = none)
    (hb : storedBlobs blobs ≠ ∅) :
    (ClipState.addGrouped hasher textHasher now s blobs).2 = s ∧
      ∃ e, s.latest = some e ∧ e.content.representations = storedBlobs blobs := by
  rcases ClipState.addGrouped_cases hasher textHasher now s blobs with
    ⟨hn, -⟩ | ⟨content, hf, hl, ha⟩ | ⟨_, _, -, -, ha⟩
  · exact absurd (ClipboardContent.fromBlobs_eq_none.mp hn) hb
  · obtain ⟨e, he, rfl⟩ := Option.map_eq_some_iff.mp hl
    exact ⟨by rw [ha], e, he, ClipboardContent.representations_fromBlobs hf⟩
  · rw [ha] at h
    cases h

/-- Restored bytes are exact end to end, for as long as the id is held. -/
theorem restored_bytes_exact (hasher textHasher : Hasher String Bytes) (now : SystemTime)
    (s : AppState) (blobs : Blobs)
    (hb : ∃ (mime : String) (bytes : Bytes), blobs[mime]? = some bytes ∧ bytes ≠ []) :
    let added := s.clipboard.addGrouped hasher textHasher now blobs
    (∀ id, added.1 = some id → ∃ content : ClipboardContent, ∀ ops : List HistoryOp,
      let later := ops.foldl HistoryOp.apply { s with clipboard := added.2 }
      ∀ hasher offerHasher data offered, Publishes later id hasher offerHasher data offered →
        data.contents = AppState.sourceContents hasher content ∧
        (∀ (mime : String) (bytes : Bytes), blobs[mime]? = some bytes → bytes ≠ [] →
          ∀ sendHasher, data.contentFor sendHasher mime = some bytes) ∧
        offered.Nodup ∧
        ∀ mime, mime ∈ offered ↔
          (∃ bytes, blobs[mime]? = some bytes ∧ bytes ≠ []) ∨
          mime ∈ textAliases ∧
            ∃ (text : String) (bytes : Bytes), blobs[text]? = some bytes ∧ bytes ≠ [] ∧
              isTextMime text = true) ∧
    (added.1 = none → added.2 = s.clipboard ∧ ∃ e, s.clipboard.latest = some e ∧
      ∀ (mime : String) (bytes : Bytes),
        e.content.representations[mime]? = some bytes ↔
          blobs[mime]? = some bytes ∧ bytes ≠ []) := by
  intro added
  constructor
  · intro id hid
    obtain ⟨content, hf, hlt, hg⟩ := addGrouped_eq_some hid
    refine ⟨content, ?_⟩
    intro ops later hasher' offerHasher data offered hp
    obtain ⟨entry, hentry, -, -, hdata, rfl⟩ := publishes_iff.mp hp
    have hlater : added.2.Later later.clipboard :=
      HistoryOp.later_foldl ops { s with clipboard := added.2 }
    obtain rfl : entry = ⟨id, now, content⟩ :=
      Option.some.inj ((hlater.get_of_get hlt hentry).symm.trans hg)
    have hreps := ClipboardContent.representations_fromBlobs hf
    refine ⟨hdata, fun mime bytes hm hne sendHasher => contentFor_of_getElem? ?_,
      Hasher.nodup_keys .., fun mime => ?_⟩
    · rw [hdata, getElem?_sourceContents, hreps, getElem?_storedBlobs, hm]
      simp [Option.filter, hne]
    · rw [Hasher.mem_keys, hdata, mem_sourceContents, hreps, mem_storedBlobs,
        ClipboardContent.hasText_fromBlobs hf, and_comm (b := mime ∈ textAliases)]
      simp only [mem_storedBlobs]
      constructor
      · rintro (h | ⟨ha, text, ⟨bytes, hm, hne⟩, ht⟩)
        · exact .inl h
        · exact .inr ⟨ha, text, bytes, hm, hne, ht⟩
      · rintro (h | ⟨ha, text, bytes, hm, hne, ht⟩)
        · exact .inl h
        · exact .inr ⟨ha, text, ⟨bytes, hm, hne⟩, ht⟩
  · intro hnone
    obtain ⟨mime, bytes, hm, hne⟩ := hb
    have hstored : storedBlobs blobs ≠ ∅ := fun h => by
      have := mem_storedBlobs.mpr ⟨bytes, hm, hne⟩
      simp [h] at this
    obtain ⟨hs, e, he, hreps⟩ := addGrouped_eq_none hnone hstored
    refine ⟨hs, e, he, fun mime bytes => ?_⟩
    rw [hreps, getElem?_storedBlobs, Option.filter_eq_some_iff]
    simp

def storedOnce (hasher textHasher : Hasher String Bytes) (blobs : Blobs) : AppState :=
  { AppState.new with
    manager := some 0
    device := some 0
    clipboard := (ClipState.new.addGrouped hasher textHasher 0 blobs).2 }

theorem storedOnce_publishes (restoreHasher offerHasher : Hasher String Bytes)
    (h : fromBlobs hasher textHasher blobs = some c) :
    (∃ e, (storedOnce hasher textHasher blobs).clipboard.get 1 = some e ∧ e.content = c) ∧
      Publishes (storedOnce hasher textHasher blobs) 1 restoreHasher offerHasher
        ⟨AppState.sourceContents restoreHasher c⟩
        (offerHasher.keys (AppState.sourceContents restoreHasher c)) := by
  have hid : (ClipState.new.addGrouped hasher textHasher 0 blobs).1 = some 1 := by
    rcases ClipState.addGrouped_cases hasher textHasher 0 .new blobs with
      ⟨hf, -⟩ | ⟨_, -, hl, -⟩ | ⟨_, _, -, -, ha⟩
    · rw [h] at hf
      cases hf
    · cases hl
    · rw [ha]
      rfl
  obtain ⟨content, hf, -, hg⟩ := addGrouped_eq_some hid
  obtain rfl : content = c := Option.some.inj (hf.symm.trans h)
  exact ⟨⟨_, hg, rfl⟩, publishes_iff.mpr ⟨_, hg, rfl, rfl, rfl, rfl⟩⟩

theorem restored_bytes_exact_hi : ∃ data offered,
    Publishes (storedOnce .sorted .sorted
      (blobsOf [("text/plain", [0x68, 0x69]), ("image/png", [0x89])])) 1 .sorted .sorted
      data offered ∧
    data.contentFor .sorted "text/plain" = some [0x68, 0x69] ∧ "STRING" ∈ offered := by
  have hsome : (fromBlobs .sorted .sorted
      (blobsOf [("text/plain", [0x68, 0x69]), ("image/png", [0x89])])).isSome := by decide +kernel
  obtain ⟨c, hc⟩ := Option.isSome_iff_exists.mp hsome
  have hp := (storedOnce_publishes .sorted .sorted hc).2
  obtain ⟨content, h⟩ := (restored_bytes_exact .sorted .sorted 0
    { AppState.new with manager := some 0, device := some 0 }
    (blobsOf [("text/plain", [0x68, 0x69]), ("image/png", [0x89])])
    ⟨"text/plain", [0x68, 0x69], by decide +kernel⟩).1 1 (by decide +kernel)
  obtain ⟨-, hbytes, -, hoffered⟩ := h [] .sorted .sorted _ _ hp
  exact ⟨_, _, hp, hbytes "text/plain" _ (by decide +kernel) (by decide) _,
    (hoffered "STRING").mpr (.inr ⟨by decide, "text/plain", [0x68, 0x69], by decide +kernel,
      by decide, by decide⟩)⟩

-- ---------------------------------------------------------------------------
-- Aliases
-- ---------------------------------------------------------------------------

/-- Every restore of a text entry built from these payloads, under every
iteration order, publishes each alias the copy did not offer with the bytes of
the entry's primary text, and each alias it did offer with its own bytes. -/
def AliasesCarryPrimary (blobs : Blobs) : Prop :=
  ∀ hasher textHasher c, fromBlobs hasher textHasher blobs = some c → c.hasText = true →
    ∀ s entryId e, s.clipboard.get entryId = some e → e.content = c →
      ∀ hasher offerHasher data offered, Publishes s entryId hasher offerHasher data offered →
        ∀ name ∈ textAliases, data.contents[name]? =
          if name ∈ c.representations then c.representations[name]?
          else c.representations[c.primaryMime]?

theorem fallbackPayload_eq_primary (h : fromBlobs hasher textHasher blobs = some c)
    (ht : c.hasText = true)
    (hm : "text/plain;charset=utf-8" ∈ c.representations ∨ "text/plain" ∈ c.representations) :
    c.representations[c.primaryMime]? =
      some (AppState.fallbackPayload restoreHasher c.representations) := by
  have hp := choosePrimary_fromBlobs h ht
  have hreps := ClipboardContent.representations_fromBlobs h
  rw [← hreps] at hp
  have htext (mime : String) (hmime : isTextMime mime = true) (hmem : mime ∈ c.representations) :
      mime ∈ textsOf c.representations := mem_textsOf.mpr ⟨hmem, hmime⟩
  by_cases hu : "text/plain;charset=utf-8" ∈ c.representations
  · rw [choosePrimary_utf8 (htext _ (by decide) hu)] at hp
    rw [← Option.some.inj hp]
    obtain ⟨bytes, hb⟩ := Option.isSome_iff_exists.mp
      (Std.ExtTreeMap.mem_iff_isSome_getElem?.mp hu)
    simp [AppState.fallbackPayload, hb]
  · have hplain := hm.resolve_left hu
    rw [choosePrimary_plain (fun hmem => hu (mem_textsOf.mp hmem).1)
      (htext _ (by decide) hplain)] at hp
    rw [← Option.some.inj hp]
    obtain ⟨bytes, hb⟩ := Option.isSome_iff_exists.mp
      (Std.ExtTreeMap.mem_iff_isSome_getElem?.mp hplain)
    have hnone := Std.ExtTreeMap.getElem?_eq_none hu
    simp [AppState.fallbackPayload, hb, hnone]

theorem fallbackPayload_of_notMem {contents : Blobs}
    (hu : "text/plain;charset=utf-8" ∉ contents) (hp : "text/plain" ∉ contents) :
    AppState.fallbackPayload hasher contents = ((hasher.values contents).head?).getD [] := by
  simp [AppState.fallbackPayload, Std.ExtTreeMap.getElem?_eq_none hu,
    Std.ExtTreeMap.getElem?_eq_none hp]

theorem alias_payload (hp : Publishes s entryId hasher offerHasher data offered)
    (he : s.clipboard.get entryId = some e) (ht : e.content.hasText = true)
    (ha : name ∈ textAliases) :
    data.contents[name]? =
      if name ∈ e.content.representations then e.content.representations[name]?
      else some (AppState.fallbackPayload hasher e.content.representations) := by
  obtain ⟨e', he', -, -, hdata, -⟩ := publishes_iff.mp hp
  cases Option.some.inj (he'.symm.trans he)
  rw [hdata, getElem?_sourceContents, if_pos ⟨ht, ha⟩]
  split
  · rename_i hm
    obtain ⟨bytes, hb⟩ := Option.isSome_iff_exists.mp
      (Std.ExtTreeMap.mem_iff_isSome_getElem?.mp hm)
    rw [hb, Option.some_or]
  · rename_i hm
    rw [Std.ExtTreeMap.getElem?_eq_none hm, Option.none_or]

theorem not_aliasesCarryPrimary (hf : fromBlobs hasher textHasher blobs = some c)
    (ht : c.hasText = true) (hu : "text/plain;charset=utf-8" ∉ c.representations)
    (hplain : "text/plain" ∉ c.representations) {mime : String}
    (hm : c.representations[mime]? = some other)
    (hother : c.representations[c.primaryMime]? ≠ some other) : ¬ AliasesCarryPrimary blobs := by
  intro h
  obtain ⟨restoreHasher, hhead⟩ := Hasher.exists_head?_values c.representations hm
  obtain ⟨⟨e, he, hec⟩, hp⟩ := storedOnce_publishes restoreHasher .sorted hf
  have hcarry := h _ _ c hf ht _ 1 e he hec _ _ _ _ hp "text/plain" (by decide)
  rw [alias_payload hp he (hec ▸ ht) (by decide), hec, if_neg hplain, if_neg hplain,
    fallbackPayload_of_notMem hu hplain, hhead] at hcarry
  exact hother hcarry.symm

/-- Exactly when the aliases carry the primary text: the copy offered one of the
two types the fallback looks for, or all its payloads are the same bytes. -/
theorem aliases_carry_primary_iff (blobs : Blobs)
    (htext : ∃ (mime : String) (bytes : Bytes), blobs[mime]? = some bytes ∧ bytes ≠ [] ∧
      isTextMime mime = true) :
    AliasesCarryPrimary blobs ↔
      "text/plain;charset=utf-8" ∈ storedBlobs blobs ∨ "text/plain" ∈ storedBlobs blobs ∨
        ∀ (mime mime' : String) (bytes bytes' : Bytes), (storedBlobs blobs)[mime]? = some bytes →
          (storedBlobs blobs)[mime']? = some bytes' → bytes = bytes' := by
  constructor
  · intro h
    by_contra hcond
    simp only [not_or, not_forall] at hcond
    obtain ⟨hu, hplain, mime, mime', bytes, bytes', hm, hm', hne⟩ := hcond
    obtain ⟨text, payload, htext, hpayload, hmime⟩ := htext
    have hstored : text ∈ storedBlobs blobs := mem_storedBlobs.mpr ⟨payload, htext, hpayload⟩
    obtain ⟨c, hf⟩ : ∃ c, fromBlobs .sorted .sorted blobs = some c := by
      rw [← Option.isSome_iff_exists, Option.isSome_iff_ne_none, ne_eq,
        ClipboardContent.fromBlobs_eq_none]
      intro hempty
      simp [hempty] at hstored
    have ht := (ClipboardContent.hasText_fromBlobs hf).mpr ⟨text, hstored, hmime⟩
    rw [← ClipboardContent.representations_fromBlobs hf] at hu hplain hm hm'
    -- One of the two payloads differs from the primary one.
    by_cases hb : c.representations[c.primaryMime]? = some bytes
    · refine not_aliasesCarryPrimary hf ht hu hplain hm' (fun hb' => hne ?_) h
      exact Option.some.inj (hb.symm.trans hb')
    · exact not_aliasesCarryPrimary hf ht hu hplain hm hb h
  · intro h hasher textHasher c hf ht s entryId e he hec restoreHasher offerHasher data offered hp
      name hn
    subst hec
    rw [alias_payload hp he ht hn]
    have hreps := ClipboardContent.representations_fromBlobs hf
    split
    · rfl
    · symm
      by_cases hm : "text/plain;charset=utf-8" ∈ e.content.representations ∨
          "text/plain" ∈ e.content.representations
      · exact fallbackPayload_eq_primary hf ht hm
      · obtain ⟨hu, hplain⟩ := not_or.mp hm
        have hsame := (h.resolve_left (hreps ▸ hu)).resolve_left (hreps ▸ hplain)
        obtain ⟨primary, hprimary⟩ := Option.isSome_iff_exists.mp
          (Std.ExtTreeMap.mem_iff_isSome_getElem?.mp (primaryMime_mem hf ht))
        rw [hprimary, fallbackPayload_of_notMem hu hplain]
        cases hv : (restoreHasher.values e.content.representations).head? with
        | none =>
          have := (Hasher.values_eq_nil ..).mp (List.head?_eq_none_iff.mp hv)
          simp [this] at hprimary
        | some v =>
          obtain ⟨mime, hmime⟩ := (Hasher.mem_values ..).mp (List.mem_of_head? hv)
          rw [← hreps] at hsame
          simp [hsame _ _ _ _ hprimary hmime]

theorem plain_aliases_carry_primary :
    AliasesCarryPrimary (blobsOf [("text/plain", [0x68, 0x69]), ("image/png", [0x89])]) :=
  (aliases_carry_primary_iff _ ⟨"text/plain", [0x68, 0x69], by decide +kernel, by decide,
    by decide⟩).mpr (.inr (.inl (by decide +kernel)))

/-- An HTML copy with an image: the aliases can be given the image. -/
theorem html_aliases_carry_image :
    ¬ AliasesCarryPrimary (blobsOf [("text/html", [0x68, 0x69]), ("image/png", [0x89])]) := by
  obtain ⟨c, hf⟩ : ∃ c, fromBlobs .sorted .sorted
      (blobsOf [("text/html", [0x68, 0x69]), ("image/png", [0x89])]) = some c :=
    Option.isSome_iff_exists.mp (by decide +kernel)
  have hreps := ClipboardContent.representations_fromBlobs hf
  have ht := (ClipboardContent.hasText_fromBlobs hf).mpr
    ⟨"text/html", by decide +kernel, by decide⟩
  have hprimary : c.primaryMime = "text/html" := by
    have hp := choosePrimary_fromBlobs hf ht
    exact Option.some.inj (hp.symm.trans (by decide +kernel))
  have himage : c.representations["image/png"]? = some [0x89] := by
    rw [hreps]
    decide +kernel
  exact not_aliasesCarryPrimary hf ht (by rw [hreps]; decide +kernel)
    (by rw [hreps]; decide +kernel) himage (by rw [hreps, hprimary]; decide +kernel)

end Uclip
