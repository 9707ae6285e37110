import Uclip.Stored
import Uclip.Selection
import Uclip.Published

/-!
# The round trip of a restore

A restore publishes a source, the compositor announces it back, the daemon asks
for the types `pickMimes` takes from it and classifies what it reads. The echo
is an image or images when the entry is, and otherwise always a text whose
primary payload is the one published under `text/plain;charset=utf-8`. It
leaves no trace when the last entry equals it, or when its preview is the
entry's and the history has room for it.
-/

namespace Uclip

open Text (Bytes fromUtf8Lossy firstLine)
open ClipboardContent (fromBlobs)

variable (clock : Clock) {d : Daemon} {pass : Pass} {c : ClipboardContent}

-- ---------------------------------------------------------------------------
-- What is read back
-- ---------------------------------------------------------------------------

def echoMimes (c : ClipboardContent) : List String :=
  if c.hasText then
    (["text/plain;charset=utf-8", "text/plain"] ++
      ["text/markdown", "text/html", "text/uri-list"].filter (· ∈ c.representations) ++
      ["TEXT", "STRING", "UTF8_STRING"]).take maxMimesPerSelection
  else c.representations.keys

/-- What is read back: the published payloads of those types. -/
def echoBlobs (hasher : Hasher String Bytes) (c : ClipboardContent) : Blobs :=
  (AppState.sourceContents hasher c).filter fun mime _ => mime ∈ echoMimes c

theorem getElem?_echoBlobs (hasher : Hasher String Bytes) (c : ClipboardContent) (mime : String) :
    (echoBlobs hasher c)[mime]? =
      if mime ∈ echoMimes c then (AppState.sourceContents hasher c)[mime]? else none := by
  rw [echoBlobs, Std.ExtTreeMap.getElem?_filter']
  cases (AppState.sourceContents hasher c)[mime]? <;> simp [Option.filter]

theorem echoMimes_of_text {c : ClipboardContent} (h : c.hasText = true) :
    echoMimes c = (preferredTextMimes.filter fun mime =>
      mime ∈ c.representations ∨ c.hasText = true ∧ mime ∈ textAliases).take
        maxMimesPerSelection := by
  rw [echoMimes, if_pos h]
  by_cases hmd : "text/markdown" ∈ c.representations <;>
    by_cases hhtml : "text/html" ∈ c.representations <;>
      by_cases huri : "text/uri-list" ∈ c.representations <;>
        simp [preferredTextMimes, textAliases, h, hmd, hhtml, huri]

theorem echoMimes_of_no_text (h : c.hasText = false) : echoMimes c = c.representations.keys := by
  rw [echoMimes, if_neg (by simp [h])]

theorem sourceContents_of_no_text (h : c.hasText = false) :
    AppState.sourceContents hasher c = c.representations := by
  simp [AppState.sourceContents, h]

theorem mem_pickMimes_of_text {c : ClipboardContent} (h : c.hasText = true)
    (hann : ∀ mime, mime ∈ announced ↔ mime ∈ AppState.sourceContents hasher c) :
    pickMimes announced = echoMimes c := by
  have hpre := prefix_pickMimes announced
  have hfilter : (preferredTextMimes.filter (· ∈ announced)).take maxMimesPerSelection =
      echoMimes c := by
    rw [echoMimes_of_text h]
    congr 1
    refine List.filter_congr fun mime _ => ?_
    simp only [hann, mem_sourceContents]
  rw [hfilter] at hpre
  symm
  -- Five aliases are always announced, so the list is full.
  have hlen : (echoMimes c).length = maxMimesPerSelection := by
    rw [echoMimes, if_pos h, List.length_take, List.length_append, List.length_append]
    simp [maxMimesPerSelection]
    omega
  refine hpre.eq_of_length_le ?_
  rw [hlen]
  exact List.length_take_le ..

theorem representations_no_text (hc : c.Classified) (h : c.hasText = false) {mime : String}
    (hm : mime ∈ c.representations) : isTextMime mime = false := by
  obtain ⟨textHasher, hf⟩ := hc
  by_contra htext
  have hstored : mime ∈ storedBlobs c.representations :=
    (ClipboardContent.representations_fromBlobs hf) ▸ hm
  have := (ClipboardContent.hasText_fromBlobs hf).mpr ⟨mime, hstored, by simpa using htext⟩
  rw [h] at this
  cases this

/-- Whatever the order of the announcement, the same payloads are read back. -/
theorem payloads_echo (hc : c.Classified) (hw : WantedContent c) {data : SourceData}
    (hdata : data.contents = AppState.sourceContents hasher c)
    (hann : ∀ mime, mime ∈ announced ↔ mime ∈ AppState.sourceContents hasher c) :
    payloads (sendPayload sendHasher data) (pickMimes announced) = echoBlobs hasher c := by
  have hmem : ∀ mime, mime ∈ pickMimes announced ↔
      mime ∈ echoMimes c ∧ mime ∈ AppState.sourceContents hasher c := by
    intro mime
    cases htext : c.hasText with
    | true =>
      rw [mem_pickMimes_of_text htext hann]
      refine ⟨fun h => ⟨h, ?_⟩, (·.1)⟩
      rw [← mem_pickMimes_of_text htext hann] at h
      exact (hann mime).mp (pickMimes_subset h).1
    | false =>
      rw [sourceContents_of_no_text htext] at hann ⊢
      rw [pickMimes_of_no_text fun m hm => representations_no_text hc htext ((hann m).mp hm),
        List.mem_filter, decide_eq_true_iff, hann, echoMimes_of_no_text htext,
        Std.ExtTreeMap.mem_keys]
      refine ⟨fun h => ⟨h.2, h.2⟩, fun h => ⟨?_, h.2⟩⟩
      obtain ⟨bytes, hb⟩ := Option.isSome_iff_exists.mp
        (Std.ExtTreeMap.mem_iff_isSome_getElem?.mp h.1)
      refine (hw mime bytes hb).2.resolve_left ?_
      simp [representations_no_text hc htext h.1]
  apply Std.ExtTreeMap.ext_getElem?
  intro mime
  rw [getElem?_payloads, getElem?_echoBlobs]
  by_cases hm : mime ∈ echoMimes c
  · rw [if_pos hm]
    cases hp : (AppState.sourceContents hasher c)[mime]? with
    | none => rw [if_neg fun h => by simpa [Std.ExtTreeMap.mem_iff_isSome_getElem?, hp] using
        ((hmem mime).mp h).2]
    | some bytes =>
      have hsource : mime ∈ AppState.sourceContents hasher c :=
        Std.ExtTreeMap.mem_iff_isSome_getElem?.mpr (by simp [hp])
      rw [if_pos ((hmem mime).mpr ⟨hm, hsource⟩), sendPayload,
        contentFor_of_getElem? (by rw [hdata, hp]), Option.getD_some]
  · rw [if_neg hm, if_neg fun h => hm ((hmem mime).mp h).1]

theorem sourceContents_value (hc : c.Classified) {mime : String}
    (h : (AppState.sourceContents hasher c)[mime]? = some bytes) :
    ∃ stored : String, c.representations[stored]? = some bytes := by
  rw [getElem?_sourceContents, Option.or_eq_some_iff] at h
  rcases h with h | ⟨-, h⟩
  · exact ⟨mime, h⟩
  · obtain ⟨⟨htext, -⟩, rfl⟩ : (c.hasText = true ∧ mime ∈ textAliases) ∧
        AppState.fallbackPayload hasher c.representations = bytes := by
      split at h
      · exact ⟨‹_›, Option.some.inj h⟩
      · cases h
    rw [AppState.fallbackPayload]
    cases hu : c.representations["text/plain;charset=utf-8"]? with
    | some utf8 => exact ⟨_, by simpa using hu⟩
    | none =>
      cases hp : c.representations["text/plain"]? with
      | some plain => exact ⟨_, by simpa using hp⟩
      | none =>
        cases hv : (hasher.values c.representations).head? with
        | some value =>
          simpa using (Hasher.mem_values ..).mp (List.mem_of_head? hv)
        | none =>
          -- An entry with text has a payload.
          obtain ⟨textHasher, hf⟩ := hc
          have hempty := (Hasher.values_eq_nil ..).mp (List.head?_eq_none_iff.mp hv)
          have hmem := primaryMime_mem hf htext
          rw [hempty] at hmem
          exact absurd hmem Std.ExtTreeMap.not_mem_empty

theorem storedBlobs_echoBlobs (hc : c.Classified) :
    storedBlobs (echoBlobs hasher c) = echoBlobs hasher c := by
  rw [storedBlobs_eq_self_iff]
  intro mime bytes h
  rw [getElem?_echoBlobs] at h
  split at h
  · obtain ⟨stored, hs⟩ := sourceContents_value hc h
    exact hc.nonempty hs
  · cases h

theorem isTextMime_of_mem_echoMimes (h : c.hasText = true) {mime : String}
    (hm : mime ∈ echoMimes c) : mime ∈ preferredTextMimes := by
  rw [echoMimes_of_text h] at hm
  exact List.mem_of_mem_filter (List.mem_of_mem_take hm)

theorem echoBlobs_listed (hc : c.Classified) {mime : String} (hm : mime ∈ echoBlobs hasher c)
    (htext : isTextMime mime = true) : mime ∈ preferredTextMimes := by
  rw [Std.ExtTreeMap.mem_iff_isSome_getElem?, getElem?_echoBlobs] at hm
  split at hm
  · rename_i hecho
    cases h : c.hasText with
    | true => exact isTextMime_of_mem_echoMimes h hecho
    | false =>
      rw [echoMimes_of_no_text h, Std.ExtTreeMap.mem_keys] at hecho
      rw [representations_no_text hc h hecho] at htext
      cases htext
  · cases hm

/-- The echo is the content of an entry exactly when the entry holds what is
read back. -/
theorem eq_echo_iff (hc : c.Classified) {held : ClipboardContent} (hheld : held.Classified)
    (he : fromBlobs echoHasher textHasher (echoBlobs hasher c) = some echo) :
    held = echo ↔ held.representations = echoBlobs hasher c := by
  have hreps := ClipboardContent.representations_fromBlobs he
  rw [storedBlobs_echoBlobs hc] at hreps
  constructor
  · rintro rfl
    exact hreps
  · intro h
    obtain ⟨heldHasher, hf⟩ := hheld
    rw [h, ClipboardContent.fromBlobs_hasher .sorted echoHasher,
      ClipboardContent.fromBlobs_textHasher (fun mime hm ht => by
        rw [storedBlobs_echoBlobs hc] at hm
        exact echoBlobs_listed hc hm ht) heldHasher textHasher, he] at hf
    exact (Option.some.inj hf).symm

theorem echo_of_no_text (hc : c.Classified) (h : c.hasText = false)
    (he : fromBlobs echoHasher textHasher (echoBlobs hasher c) = some echo) : c = echo := by
  rw [eq_echo_iff hc hc he]
  apply Std.ExtTreeMap.ext_getElem?
  intro mime
  rw [getElem?_echoBlobs, echoMimes_of_no_text h, sourceContents_of_no_text h]
  split
  · rfl
  · rename_i hm
    rw [Std.ExtTreeMap.mem_keys] at hm
    exact Std.ExtTreeMap.getElem?_eq_none hm

theorem getElem?_echoBlobs_utf8 (hasher : Hasher String Bytes) (h : c.hasText = true) :
    (echoBlobs hasher c)["text/plain;charset=utf-8"]? =
      some (AppState.fallbackPayload hasher c.representations) := by
  have hmem : "text/plain;charset=utf-8" ∈ echoMimes c := by
    rw [echoMimes, if_pos h]
    simp [maxMimesPerSelection]
  rw [getElem?_echoBlobs, if_pos hmem, getElem?_sourceContents,
    if_pos ⟨h, by decide⟩, AppState.fallbackPayload]
  cases c.representations["text/plain;charset=utf-8"]? <;> simp

theorem echo_of_text (hc : c.Classified) (h : c.hasText = true)
    (he : fromBlobs echoHasher textHasher (echoBlobs hasher c) = some echo) :
    echo.preview =
      firstLine (fromUtf8Lossy (AppState.fallbackPayload hasher c.representations)) := by
  have htexts : textsOf (echoBlobs hasher c) = echoBlobs hasher c := by
    apply Std.ExtTreeMap.ext_getElem?
    intro mime
    rw [getElem?_textsOf, getElem?_echoBlobs]
    by_cases hm : mime ∈ echoMimes c
    · rw [if_pos (isTextMime_preferred mime (isTextMime_of_mem_echoMimes h hm))]
    · simp [hm]
  have himages : imagesOf (echoBlobs hasher c) = [] := by
    rw [List.eq_nil_iff_forall_not_mem]
    intro i hi
    obtain ⟨hb, hnot⟩ := mem_imagesOf.mp hi
    rw [getElem?_echoBlobs] at hb
    split at hb
    · rename_i hm
      rw [isTextMime_preferred _ (isTextMime_of_mem_echoMimes h hm)] at hnot
      cases hnot
    · cases hb
  obtain ⟨-, rfl⟩ := ClipboardContent.fromBlobs_eq_some.mp he
  rw [storedBlobs_echoBlobs hc, htexts, himages]
  have hutf8 := getElem?_echoBlobs_utf8 hasher h
  cases hb : ClipboardContent.buildText textHasher (echoBlobs hasher c) with
  | none =>
    rw [ClipboardContent.buildText_eq_none.mp hb] at hutf8
    simp at hutf8
  | some t =>
    obtain ⟨hprimary, htext, -⟩ := ClipboardContent.buildText_eq_some hb
    have hmem : "text/plain;charset=utf-8" ∈ echoBlobs hasher c :=
      Std.ExtTreeMap.mem_iff_isSome_getElem?.mpr (by simp [hutf8])
    rw [choosePrimary_utf8 hmem] at hprimary
    rw [← Option.some.inj hprimary, hutf8, Option.getD_some] at htext
    change firstLine t.text = _
    rw [htext]

-- ---------------------------------------------------------------------------
-- The pass of the echo
-- ---------------------------------------------------------------------------

structure NoTrace (d d' : Daemon) : Prop where
  history : d'.history = d.history
  snapshot : d'.snapshot = d.snapshot
  events : d'.events = d.events

theorem noTrace_of_no_arrivals (h : d.arrivals pass = []) : NoTrace d (d.step clock pass) := by
  have hecho : d.passEcho clock pass = none := by
    rw [Daemon.passEcho, h]
    rfl
  have hann : d.passAnnounced clock pass = [] := by
    rw [passAnnounced_eq, h]
    rfl
  refine ⟨?_, ?_, ?_⟩
  · rw [step_history, h, hecho, List.append_nil,
      Bounded.popWhileOver_of_le d.app.clipboard.valid.bounded]
    simp
  · rw [step_snapshot, hann]
    rfl
  · rw [step_events, hann]
    simp

theorem noTrace_of_arrival (h : d.arrivals pass = [x]) :
    NoTrace d (d.step clock pass) ↔ d.history.length < maxHistory ∧
      isEcho (clock.reading (d.ticks + 1)) d.expectEcho x.preview = true := by
  have hheld : Bounded.popWhileOver maxHistory (d.arrivals pass) = [x] := by
    rw [h, Bounded.popWhileOver_of_le (by simp [maxHistory])]
  have hmem : x ∈ (d.filled pass).history := by
    have := filter_held d pass
    rw [hheld, h] at this
    rw [filled_history, h]
    simpa using this
  have hpass : d.passEcho clock pass =
      if isEcho (clock.reading (d.ticks + 1)) d.expectEcho x.preview = true then some x
      else none := by
    rw [Daemon.passEcho, Daemon.echo, h, firstEcho, firstEcho]
    simp only [hmem, true_and]
    rfl
  by_cases hecho : isEcho (clock.reading (d.ticks + 1)) d.expectEcho x.preview = true
  · rw [if_pos hecho] at hpass
    have hann : d.passAnnounced clock pass = [] := by
      rw [passAnnounced_eq_filter, hheld, hpass]
      simp
    have hnot : x ∉ d.history := fun hx =>
      Nat.lt_irrefl _ (id_lt_of_mem_arrivals hx (h ▸ List.mem_singleton_self x))
    have hhist : (d.step clock pass).history =
        (Bounded.popWhileOver maxHistory (d.history ++ [x])).filter fun e => some x ≠ some e := by
      rw [step_history, h, hpass]
    constructor
    · rintro ⟨hsame, -, -⟩
      refine ⟨?_, hecho⟩
      have hn : (Bounded.popWhileOver maxHistory (d.history ++ [x])).Nodup := by
        rw [← h]
        exact (nodup_history_arrivals d pass).sublist (Bounded.popWhileOver_sublist _)
      rw [filled_history, h] at hmem
      have hlen := congrArg List.length (hhist.symm.trans hsame)
      rw [length_filter_ne hn hmem, Bounded.length_popWhileOver, List.length_append,
        List.length_singleton] at hlen
      have := d.app.clipboard.valid.bounded
      simp only [maxHistory] at hlen this ⊢
      omega
    · rintro ⟨hlt, -⟩
      refine ⟨?_, ?_, ?_⟩
      · rw [hhist, Bounded.popWhileOver_of_le (by rw [List.length_append]; exact hlt),
          List.filter_append]
        have hself : d.history.filter (fun e => some x ≠ some e) = d.history := by
          rw [List.filter_eq_self]
          intro e he
          have hne : x ≠ e := fun heq => hnot (heq ▸ he)
          simpa using hne
        rw [hself]
        simp
      · rw [step_snapshot, hann]
        rfl
      · rw [step_events, hann]
        simp
  · rw [if_neg hecho] at hpass
    have hann : d.passAnnounced clock pass = [x] := by
      rw [passAnnounced_eq_filter, hheld, hpass]
      simp
    refine iff_of_false (fun htrace => ?_) fun hcond => hecho hcond.2
    have hev := htrace.events
    rw [step_events, hann] at hev
    simp at hev

theorem NoTrace.symm (h : NoTrace d d') : NoTrace d' d :=
  ⟨h.history.symm, h.snapshot.symm, h.events.symm⟩

theorem NoTrace.trans (h : NoTrace d d') (h' : NoTrace d' d'') : NoTrace d d'' :=
  ⟨h'.history.trans h.history, h'.snapshot.trans h.snapshot, h'.events.trans h.events⟩

def Daemon.Quiet (d : Daemon) : List Pass → Prop
  | [] => True
  | pass :: rest => pass.requests = [] ∧ d.arrivals pass = [] ∧ (d.step clock pass).Quiet rest

theorem quiet_step (hreq : pass.requests = []) (harr : d.arrivals pass = []) :
    (d.step clock pass).app.clipboard = d.app.clipboard ∧ NoTrace d (d.step clock pass) ∧
      (d.step clock pass).expectEcho = d.expectEcho := by
  have hstep : d.step clock pass = d.filled pass := by
    rw [step_eq, harr, Daemon.served, hreq]
    rfl
  have hhist := filled_history d pass
  rw [harr, List.append_nil, Bounded.popWhileOver_of_le d.app.clipboard.valid.bounded] at hhist
  have hnext := filled_nextId d pass
  rw [harr, List.length_nil, Nat.add_zero] at hnext
  rw [hstep]
  exact ⟨ClipState.ext hhist hnext, ⟨hhist, rfl, rfl⟩, rfl⟩

theorem quiet_run (passes : List Pass) (d : Daemon) (h : d.Quiet clock passes) :
    (d.run clock passes).app.clipboard = d.app.clipboard ∧ NoTrace d (d.run clock passes) ∧
      (d.run clock passes).expectEcho = d.expectEcho := by
  induction passes generalizing d with
  | nil => exact ⟨rfl, ⟨rfl, rfl, rfl⟩, rfl⟩
  | cons pass passes ih =>
    obtain ⟨hreq, harr, hrest⟩ := h
    obtain ⟨hclip, htrace, hflag⟩ := quiet_step clock hreq harr
    obtain ⟨hclip', htrace', hflag'⟩ := ih (d.step clock pass) hrest
    exact ⟨hclip'.trans hclip, htrace.trans htrace', hflag'.trans hflag⟩

/-- When the echo of this entry leaves no trace: the last entry holds exactly
what is read back, or the history has room and the preview of an entry with
text is the first line of what is published as plain text. -/
def EchoHides (hasher : Hasher String Bytes) (d : Daemon) (c : ClipboardContent) : Prop :=
  (∃ last, d.app.clipboard.latest = some last ∧
      last.content.representations = echoBlobs hasher c) ∨
    d.history.length < maxHistory ∧
      (c.hasText = true → c.preview =
        firstLine (fromUtf8Lossy (AppState.fallbackPayload hasher c.representations)))

theorem exists_echo (hasher : Hasher String Bytes) (hc : c.Classified)
    (echoHasher textHasher : Hasher String Bytes) :
    ∃ echo, fromBlobs echoHasher textHasher (echoBlobs hasher c) = some echo := by
  rw [← Option.isSome_iff_exists, Option.isSome_iff_ne_none, ne_eq,
    ClipboardContent.fromBlobs_eq_none, storedBlobs_echoBlobs hc]
  intro hempty
  cases h : c.hasText with
  | true =>
    have hutf8 := getElem?_echoBlobs_utf8 hasher h
    rw [hempty] at hutf8
    simp at hutf8
  | false =>
    obtain ⟨textHasher, hf⟩ := hc
    refine (ClipboardContent.fromBlobs_eq_some.mp hf).1 ?_
    rw [← ClipboardContent.representations_fromBlobs hf]
    apply Std.ExtTreeMap.ext_getElem?
    intro mime
    have hnone := congrArg (fun blobs : Blobs => blobs[mime]?) hempty
    simp only [getElem?_echoBlobs, echoMimes_of_no_text h, sourceContents_of_no_text h,
      Std.ExtTreeMap.mem_keys] at hnone
    by_cases hm : mime ∈ c.representations
    · rwa [if_pos hm] at hnone
    · rw [Std.ExtTreeMap.getElem?_eq_none hm, Std.ExtTreeMap.getElem?_empty]

theorem arrivals_echo (hs : Settled d) (hc : c.Classified) (hw : WantedContent c)
    {data : SourceData} (hdata : data.contents = AppState.sourceContents hasher c)
    (hann : ∀ mime, mime ∈ announced ↔ mime ∈ AppState.sourceContents hasher c)
    (h : Announces d.app pass offer announced (sendPayload sendHasher data)) :
    ∃ echo echoHasher textHasher now,
      fromBlobs echoHasher textHasher (echoBlobs hasher c) = some echo ∧
      d.arrivals pass =
        if d.app.clipboard.latest.map (·.content) = some echo then []
        else [⟨d.app.clipboard.nextId, now, echo⟩] := by
  have hvalue : ∀ mime ∈ pickMimes announced, ∃ stored : String,
      c.representations[stored]? = some (sendPayload sendHasher data mime) := by
    intro mime hm
    obtain ⟨bytes, hb⟩ := Option.isSome_iff_exists.mp (Std.ExtTreeMap.mem_iff_isSome_getElem?.mp
      ((hann mime).mp (pickMimes_subset hm).1))
    rw [sendPayload, contentFor_of_getElem? (by rw [hdata, hb]), Option.getD_some]
    exact sourceContents_value hc hb
  obtain ⟨echo, hecho⟩ := exists_echo hasher hc
    (pass.drain.hasher offer.protocolId) (pass.drain.textHasher offer.protocolId)
  refine ⟨echo, _, _, pass.drain.now offer.protocolId, hecho, ?_⟩
  have harr := arrivals_selection h hs.idle
    (fun mime hm => have ⟨_, hstored⟩ := hvalue mime hm; hc.nonempty hstored)
    (fun mime hm => have ⟨_, hstored⟩ := hvalue mime hm; (hw _ _ hstored).1)
  rw [payloads_echo hc hw hdata hann] at harr
  exact harr.trans (by simp only [hecho])

/-- A successful restore arms the flag with the entry's preview and leaves the
history, the snapshot and the broadcasts alone. -/
theorem restored_effect (hs : Settled d) {pending : PendingRestore}
    (hget : d.app.clipboard.get pending.entryId = some e)
    (hok : d.app.restoreEntry hasher offerHasher pending.entryId = .ok s') :
    let restored := d.handleRestore clock hasher offerHasher pending
    restored.app.clipboard = d.app.clipboard ∧ NoTrace d restored ∧
      restored.expectEcho = some (clock.reading d.ticks, e.preview) ∧ Settled restored := by
  intro restored
  rcases handleRestore_cases clock hasher offerHasher d pending with
    ⟨entry, app, hg, happ, h⟩ | ⟨err, herr, -⟩
  · cases Option.some.inj (hg.symm.trans hget)
    obtain ⟨hclip, hreads⟩ := restoreEntry_frame happ
    have hsame : restored.app.clipboard = d.app.clipboard :=
      (congrArg (·.app.clipboard) h).trans hclip
    refine ⟨hsame, ⟨congrArg (·.entries) hsame, congrArg (·.snapshot) h, congrArg (·.events) h⟩,
      congrArg (·.expectEcho) h, (congrArg (·.app.pendingReads) h).trans (hreads.trans hs.idle), ?_⟩
    intro x hx
    rw [Daemon.history, hsame] at hx
    exact hs.wanted x hx
  · rw [hok] at herr
    cases herr

theorem echo_leaves_no_trace_iff (hs : Settled d) (he : e ∈ d.history) {data : SourceData}
    (hdata : data.contents = AppState.sourceContents hasher e.content)
    (hann : ∀ mime, mime ∈ announced ↔ mime ∈ AppState.sourceContents hasher e.content)
    (h : Announces d.app pass offer announced (sendPayload sendHasher data))
    (hflag : d.expectEcho = some (armed, e.preview))
    (hfresh : clock.reading (d.ticks + 1) - armed < echoSuppressMillis) :
    NoTrace d (d.step clock pass) ↔ EchoHides hasher d e.content := by
  have hc : e.content.Classified := d.app.clipboard.valid.classified e he
  obtain ⟨echo, echoHasher, textHasher, now, hecho, harr⟩ :=
    arrivals_echo hs hc (hs.wanted e he) hdata hann h
  have hlast : (∃ last, d.app.clipboard.latest = some last ∧
      last.content.representations = echoBlobs hasher e.content) ↔
      d.app.clipboard.latest.map (·.content) = some echo := by
    rw [Option.map_eq_some_iff]
    refine exists_congr fun last => and_congr_right fun hl => ?_
    exact (eq_echo_iff hc (d.app.clipboard.valid.classified last (List.mem_of_getLast? hl))
      hecho).symm
  have hpreview : (e.content.hasText = true → e.content.preview = firstLine (fromUtf8Lossy
      (AppState.fallbackPayload hasher e.content.representations))) ↔
      e.content.preview = echo.preview := by
    cases ht : e.content.hasText with
    | true => simp [echo_of_text hc ht hecho]
    | false => simp [← echo_of_no_text hc ht hecho]
  rw [EchoHides, hlast, hpreview]
  by_cases hdup : d.app.clipboard.latest.map (·.content) = some echo
  · rw [if_pos hdup] at harr
    exact iff_of_true (noTrace_of_no_arrivals clock harr) (.inl hdup)
  · rw [if_neg hdup] at harr
    rw [noTrace_of_arrival clock harr, or_iff_right hdup, isEcho_iff, hflag]
    refine and_congr_right fun _ => ⟨?_, fun hp => ⟨armed, ?_, hfresh⟩⟩
    · rintro ⟨_, heq, -⟩
      exact (Prod.mk.inj (Option.some.inj heq)).2
    · exact congrArg (fun p => some (armed, p)) hp

/-- A restore leaves no trace, whatever the iteration orders and the order of
the announcement, exactly when `EchoHides`. -/
theorem restore_leaves_no_trace_iff (seat manager device : Global) (passes quiet : List Pass)
    (pass : Pass) (pending : PendingRestore) (hasher offerHasher sendHasher : Hasher String Bytes)
    (e : ClipboardEntry) (data : SourceData) (offered announced : List String) (offer : Offer) :
    let d := (Daemon.start seat manager device).run clock passes
    let restored := d.handleRestore clock hasher offerHasher pending
    let idle := restored.run clock quiet
    d.app.clipboard.get pending.entryId = some e →
    Publishes d.app pending.entryId hasher offerHasher data offered →
    restored.Quiet clock quiet →
    announced.Perm offered →
    Announces idle.app pass offer announced (sendPayload sendHasher data) →
    clock.reading (idle.ticks + 1) - clock.reading d.ticks < echoSuppressMillis →
    (NoTrace d (idle.step clock pass) ↔ EchoHides hasher d e.content) := by
  intro d restored idle hget hpub hquiet hperm hann hfresh
  obtain ⟨e', hget', -, -, hdata, hoffered⟩ := publishes_iff.mp hpub
  cases Option.some.inj (hget'.symm.trans hget)
  obtain ⟨s', hok, -⟩ := hpub
  have hsettled : Settled d := settled_run clock _ _ (settled_start ..)
  obtain ⟨hclip, htrace, hflag, hrs⟩ := restored_effect clock hsettled hget hok
  obtain ⟨hclip', htrace', hflag'⟩ := quiet_run clock quiet restored hquiet
  have hback : NoTrace d idle := htrace.trans htrace'
  have hsame : idle.app.clipboard = d.app.clipboard := hclip'.trans hclip
  have hmem : ∀ mime, mime ∈ announced ↔
      mime ∈ AppState.sourceContents hasher e.content := by
    intro mime
    rw [hperm.mem_iff, hoffered, Hasher.mem_keys, hdata]
  have he : e ∈ idle.history := hback.history ▸ (ClipState.mem_of_get hget).1
  have hiff := echo_leaves_no_trace_iff clock (settled_run clock _ _ hrs) he hdata hmem hann
    (hflag'.trans hflag) hfresh
  have hhides : EchoHides hasher idle e.content ↔ EchoHides hasher d e.content := by
    rw [EchoHides, EchoHides, hsame, hback.history]
  rw [← hhides, ← hiff]
  exact ⟨hback.symm.trans, hback.trans⟩

def copiedOnce (mimes : List String) (payload : String → Bytes) : Daemon :=
  (Daemon.start 0 0 0).run .still [copyPass 0 ⟨1, 0⟩ mimes payload]

theorem publishes_of_eval (hasher offerHasher : Hasher String Bytes) (data : SourceData)
    (s : AppState) (id : Nat)
    (h : (s.clipboard.get id).map (fun e => AppState.sourceContents hasher e.content) =
      some data.contents) (hm : s.manager.isSome) (hd : s.device.isSome) :
    ∃ e, s.clipboard.get id = some e ∧
      Publishes s id hasher offerHasher data (offerHasher.keys data.contents) := by
  obtain ⟨e, he, hdata⟩ := Option.map_eq_some_iff.mp h
  exact ⟨e, he, publishes_iff.mpr ⟨e, he, hm, hd, hdata.symm, rfl⟩⟩

theorem plain_restore_leaves_no_trace :
    let d := copiedOnce ["text/plain"] fun _ => [0x68, 0x69]
    let restored := d.handleRestore .still .sorted .sorted ⟨1, 0⟩
    let data : SourceData := ⟨blobsOf (textAliases.map (·, [0x68, 0x69]))⟩
    NoTrace d (restored.step .still (copyPass restored.app.pipes ⟨2, 1⟩
      (Hasher.sorted.keys data.contents) (sendPayload .sorted data))) := by
  intro d restored data
  obtain ⟨e, he, hp⟩ := publishes_of_eval .sorted .sorted data d.app 1 (by decide +kernel)
    (by decide +kernel) (by decide +kernel)
  refine (restore_leaves_no_trace_iff .still 0 0 0
    [copyPass 0 ⟨1, 0⟩ ["text/plain"] fun _ => [0x68, 0x69]] [] _ ⟨1, 0⟩ .sorted .sorted .sorted
    e data _ _ ⟨2, 1⟩ he hp trivial (.refl _) (announces_copyPass ?_) (by decide)).mpr (.inr ?_)
  · intro old hold
    have hsel : restored.app.currentSelection = some ⟨1, 0⟩ := by decide +kernel
    cases Option.some.inj (hold.symm.trans hsel)
    decide
  · refine ⟨by decide +kernel, fun _ => ?_⟩
    have hpreview : (d.app.clipboard.get 1).map (·.content.preview) = some "hi" := by
      decide +kernel
    have hplain : (d.app.clipboard.get 1).map (fun e => firstLine (fromUtf8Lossy
        (AppState.fallbackPayload .sorted e.content.representations))) = some "hi" := by
      decide +kernel
    rw [he, Option.map_some] at hpreview hplain
    exact (Option.some.inj hpreview).trans (Option.some.inj hplain).symm

/-- A text with an image: the echo is the text alone, a row nobody copied. -/
theorem mixed_restore_leaves_phantom_row :
    let d := copiedOnce ["text/plain", "image/png"] fun mime =>
      if mime = "image/png" then [0x89] else [0x68, 0x69]
    let restored := d.handleRestore .still .sorted .sorted ⟨1, 0⟩
    let data : SourceData :=
      ⟨blobsOf (("image/png", [0x89]) :: textAliases.map (·, [0x68, 0x69]))⟩
    let pass := copyPass restored.app.pipes ⟨2, 1⟩ (Hasher.sorted.keys data.contents)
      (sendPayload .sorted data)
    Publishes d.app 1 .sorted .sorted data (Hasher.sorted.keys data.contents) ∧
      Announces restored.app pass ⟨2, 1⟩ (Hasher.sorted.keys data.contents)
        (sendPayload .sorted data) ∧
      Clock.still.reading (restored.ticks + 1) - Clock.still.reading d.ticks <
        echoSuppressMillis ∧
      ¬ NoTrace d (restored.step .still pass) := by
  intro d restored data pass
  obtain ⟨e, -, hp⟩ := publishes_of_eval .sorted .sorted data d.app 1 (by decide +kernel)
    (by decide +kernel) (by decide +kernel)
  refine ⟨hp, announces_copyPass fun old hold => ?_, by decide, fun htrace => ?_⟩
  · have hsel : restored.app.currentSelection = some ⟨1, 0⟩ := by decide +kernel
    cases Option.some.inj (hold.symm.trans hsel)
    decide
  · have hrows : (restored.step .still pass).history.map (·.preview) =
        ["hi + <1 bytes of image/png>", "hi"] := by decide +kernel
    have hbefore : d.history.map (·.preview) = ["hi + <1 bytes of image/png>"] := by
      decide +kernel
    rw [htrace.history, hbefore] at hrows
    cases hrows

end Uclip
