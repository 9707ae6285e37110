import Uclip.Published

/-!
# What a data source answers

A text request for a type the source does not hold falls back to another
payload of the map. The fallback takes the first one, whatever its type, so the
bytes are text under every iteration order only when every payload is.
-/

namespace Uclip

open Text (Bytes)
open ClipboardContent (fromBlobs)

def TextPayload (data : SourceData) (bytes : Bytes) : Prop :=
  ∃ mime : String, isTextMime mime = true ∧ data.contents[mime]? = some bytes

/-- What a request is owed: the exact payload, else for a text type some text
payload if there is one, else nothing. -/
structure AnswersRequest (hasher : Hasher String Bytes) (data : SourceData) (mimeType : String) :
    Prop where
  exact : ∀ bytes, data.contents[mimeType]? = some bytes →
    data.contentFor hasher mimeType = some bytes
  text : mimeType ∉ data.contents → isTextMime mimeType = true →
    (∃ bytes, TextPayload data bytes) →
    ∃ bytes, data.contentFor hasher mimeType = some bytes ∧ TextPayload data bytes
  noText : mimeType ∉ data.contents → isTextMime mimeType = true →
    (¬ ∃ bytes, TextPayload data bytes) → data.contentFor hasher mimeType = none
  other : mimeType ∉ data.contents → isTextMime mimeType = false →
    data.contentFor hasher mimeType = none

variable {data : SourceData} {hasher : Hasher String Bytes}

theorem contentFor_fallback (h : mimeType ∉ data.contents) (ht : isTextMime mimeType = true) :
    data.contentFor hasher mimeType = (hasher.values data.contents).head? := by
  rw [SourceData.contentFor, Std.ExtTreeMap.getElem?_eq_none h, Option.none_or, if_pos ht]

theorem contentFor_other (h : mimeType ∉ data.contents) (ht : isTextMime mimeType = false) :
    data.contentFor hasher mimeType = none := by
  rw [SourceData.contentFor, Std.ExtTreeMap.getElem?_eq_none h, Option.none_or, ht,
    if_neg Bool.false_ne_true]

theorem answersRequest_iff_fallback :
    AnswersRequest hasher data mimeType ↔
      (mimeType ∉ data.contents → isTextMime mimeType = true →
        ∀ bytes, (hasher.values data.contents).head? = some bytes → TextPayload data bytes) := by
  constructor
  · intro h hm ht bytes hb
    rw [← contentFor_fallback hm ht] at hb
    by_cases hex : ∃ bytes, TextPayload data bytes
    · obtain ⟨served, hserved, htext⟩ := h.text hm ht hex
      obtain rfl : served = bytes := Option.some.inj (hserved.symm.trans hb)
      exact htext
    · rw [h.noText hm ht hex] at hb
      cases hb
  · intro h
    refine ⟨fun _ => contentFor_of_getElem?, ?_, ?_, contentFor_other⟩
    · rintro hm ht ⟨bytes, mime, -, hb⟩
      cases hv : (hasher.values data.contents).head? with
      | none =>
        rw [List.head?_eq_none_iff, Hasher.values_eq_nil] at hv
        simp [hv] at hb
      | some served =>
        exact ⟨served, (contentFor_fallback hm ht).trans hv, h hm ht served hv⟩
    · intro hm ht hnone
      rw [contentFor_fallback hm ht]
      by_contra hne
      obtain ⟨served, hv⟩ := Option.ne_none_iff_exists'.mp hne
      exact hnone ⟨served, h hm ht served hv⟩

/-- A request is answered under one iteration order exactly when the payload met
first, should the fallback need it, is text, and under every order exactly when
every payload is. -/
theorem answersRequest_iff (data : SourceData) (mimeType : String) :
    (∀ hasher, AnswersRequest hasher data mimeType ↔
      mimeType ∈ data.contents ∨ isTextMime mimeType = false ∨
        ∀ bytes, (hasher.values data.contents).head? = some bytes → TextPayload data bytes) ∧
    ((∀ hasher, AnswersRequest hasher data mimeType) ↔
      mimeType ∈ data.contents ∨ isTextMime mimeType = false ∨
        ∀ (mime : String) bytes, data.contents[mime]? = some bytes → TextPayload data bytes) := by
  have hone (hasher : Hasher String Bytes) : AnswersRequest hasher data mimeType ↔
      mimeType ∈ data.contents ∨ isTextMime mimeType = false ∨
        ∀ bytes, (hasher.values data.contents).head? = some bytes → TextPayload data bytes := by
    rw [answersRequest_iff_fallback, ← Bool.not_eq_true]
    tauto
  refine ⟨hone, ?_⟩
  simp only [hone]
  constructor
  · intro h
    by_cases hm : mimeType ∈ data.contents
    · exact .inl hm
    by_cases ht : isTextMime mimeType = false
    · exact .inr (.inl ht)
    refine .inr (.inr fun mime bytes hb => ?_)
    -- Some order meets this payload first.
    obtain ⟨hasher, hfirst⟩ := Hasher.exists_head?_values data.contents hb
    exact ((h hasher).resolve_left hm).resolve_left ht bytes hfirst
  · rintro (hm | ht | hall) hasher
    · exact .inl hm
    · exact .inr (.inl ht)
    · refine .inr (.inr fun bytes hb => ?_)
      obtain ⟨mime, hmime⟩ := (Hasher.mem_values ..).mp (List.mem_of_head? hb)
      exact hall mime bytes hmime

theorem contentFor_without_text (hasher : Hasher String Bytes) (hm : mimeType ∉ data.contents)
    (ht : isTextMime mimeType = true) (hne : data.contents ≠ ∅) :
    ∃ (mime : String) (bytes : Bytes), data.contents[mime]? = some bytes ∧
      data.contentFor hasher mimeType = some bytes := by
  rw [contentFor_fallback hm ht]
  cases hv : (hasher.values data.contents).head? with
  | none => exact absurd ((Hasher.values_eq_nil ..).mp (List.head?_eq_none_iff.mp hv)) hne
  | some bytes =>
    obtain ⟨mime, hmime⟩ := (Hasher.mem_values ..).mp (List.mem_of_head? hv)
    exact ⟨mime, bytes, hmime, rfl⟩

theorem not_answersRequest_without_text (hasher : Hasher String Bytes)
    (hm : mimeType ∉ data.contents) (ht : isTextMime mimeType = true) (hne : data.contents ≠ ∅)
    (hnone : ¬ ∃ bytes, TextPayload data bytes) : ¬ AnswersRequest hasher data mimeType := by
  intro h
  obtain ⟨_, _, _, hserved⟩ := contentFor_without_text hasher hm ht hne
  rw [h.noText hm ht hnone] at hserved
  cases hserved

/-- The source that a restore of a copied PNG publishes sends the PNG as text. -/
theorem restored_image_answers_text : ∃ data offered,
    Publishes (storedOnce .sorted .sorted (blobsOf [("image/png", [0x89, 0x50, 0x4E, 0x47])])) 1
      .sorted .sorted data offered ∧
    ∀ hasher, data.contentFor hasher "text/plain" = some [0x89, 0x50, 0x4E, 0x47] ∧
      ¬ AnswersRequest hasher data "text/plain" := by
  have hc : fromBlobs .sorted .sorted (blobsOf [("image/png", [0x89, 0x50, 0x4E, 0x47])]) =
      some (.image ⟨"image/png", [0x89, 0x50, 0x4E, 0x47]⟩) := by decide +kernel
  refine ⟨_, _, (storedOnce_publishes .sorted .sorted hc).2, fun hasher => ?_⟩
  generalize hdata : (⟨AppState.sourceContents .sorted _⟩ : SourceData) = data
  have hstored (mime : String) : data.contents[mime]? =
      if "image/png" = mime then some [0x89, 0x50, 0x4E, 0x47] else none := by
    rw [← hdata]
    exact Std.ExtTreeMap.getElem?_insert.trans (by simp)
  have hm : "text/plain" ∉ data.contents := by
    simp [Std.ExtTreeMap.mem_iff_isSome_getElem?, hstored]
  have hne : data.contents ≠ ∅ := by
    intro h
    have := hstored "image/png"
    simp [h] at this
  have hnone : ¬ ∃ bytes, TextPayload data bytes := by
    rintro ⟨bytes, text, htext, hbytes⟩
    rw [hstored] at hbytes
    split at hbytes
    · subst text
      exact absurd htext (by decide)
    · cases hbytes
  refine ⟨?_, not_answersRequest_without_text hasher hm (by decide) hne hnone⟩
  obtain ⟨mime, bytes, hb, hserved⟩ := contentFor_without_text hasher hm (by decide) hne
  rw [hstored] at hb
  split at hb
  · exact hserved.trans hb.symm
  · cases hb

end Uclip
