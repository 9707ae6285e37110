import Uclip.Dialogue
import Uclip.DrainReference
import Uclip.Pipes
import Uclip.Published
import Uclip.Stored

/-!
# Where the bytes come from

An entry arrives in one pass and holds what one offer id delivered over the
pipes of that pass. What a source of ours answers with is a payload of the
entry it was published for, so every byte the daemon ever sends was read from a
pipe it had asked for, and all bytes of one source come from the same copy.
-/

namespace Uclip

open Text (Bytes)
open ClipboardContent (fromBlobs)

variable {env : DrainEnv} {reads : List PendingRead} {offerId : Nat} {c : ClipboardContent}

/-- The content is what this offer id delivered over these reads. -/
structure DeliveredBy (env : DrainEnv) (reads : List PendingRead) (offerId : Nat)
    (c : ClipboardContent) : Prop where
  ordered : offerId ∈ refOrder env reads
  payloads : ∀ mime : String, c.representations[mime]? = refBlob env reads offerId mime

structure ArrivedIn (clock : Clock) (start : Daemon) (passes before : List Pass) (pass : Pass)
    (e : ClipboardEntry) : Prop where
  ran : ∃ after, passes = before ++ pass :: after
  arrived : e ∈ (start.run clock before).arrivals pass

-- ---------------------------------------------------------------------------
-- Arrivals
-- ---------------------------------------------------------------------------

theorem refPayload_eq_some {read : PendingRead} {bytes : Bytes}
    (h : refPayload env read = some bytes) :
    ∃ stream, env.pipe read.fd = .ok stream ∧ stream ≠ [] ∧
      bytes = stream.take maxContentBytes := by
  unfold refPayload at h
  split at h
  · split at h
    · cases h
    · cases h
      exact ⟨_, ‹_›, ‹_›, rfl⟩
  · cases h

theorem refBlob_eq_some {mime : String} {bytes : Bytes}
    (h : refBlob env reads offerId mime = some bytes) :
    ∃ read ∈ reads, read.offerId = offerId ∧ read.mimeType = mime ∧
      ∃ stream, env.pipe read.fd = .ok stream ∧ stream ≠ [] ∧
        bytes = stream.take maxContentBytes := by
  obtain ⟨read, hread, hpayload⟩ := List.mem_filterMap.mp (List.mem_of_getLast? h)
  obtain ⟨hread, hmatch⟩ := List.mem_filter.mp hread
  obtain ⟨hid, hmime⟩ := of_decide_eq_true hmatch
  exact ⟨read, hread, hid, hmime, refPayload_eq_some hpayload⟩

theorem take_ne_nil {stream : Bytes} (h : stream ≠ []) : stream.take maxContentBytes ≠ [] := by
  cases stream with
  | nil => exact absurd rfl h
  | cons byte stream => simp [maxContentBytes]

theorem mem_copies_delivered {blobs : Blobs} (h : (offerId, blobs) ∈ copies env reads)
    (hf : fromBlobs hasher textHasher blobs = some c) : DeliveredBy env reads offerId c := by
  have hgroups := groups_groupReads env reads
  obtain ⟨_, hid, hcopy⟩ := List.mem_map.mp h
  cases hcopy
  rw [hgroups.order] at hid
  refine ⟨hid, fun mime => ?_⟩
  rw [ClipboardContent.representations_fromBlobs hf, getElem?_storedBlobs, hgroups.blobs]
  cases hblob : refBlob env reads offerId mime with
  | none => rfl
  | some bytes =>
    obtain ⟨_, -, -, -, _, -, hne, rfl⟩ := refBlob_eq_some hblob
    simp [Option.filter, take_ne_nil hne]

theorem arrivals_delivered {s : AppState} (h : e ∈ s.arrivals env) :
    ∃ offerId, DeliveredBy env s.pendingReads offerId e.content := by
  obtain ⟨offerId, blobs, hcopy, hf⟩ := mem_accepted h
  exact ⟨offerId, mem_copies_delivered hcopy hf⟩

-- ---------------------------------------------------------------------------
-- The history of a run
-- ---------------------------------------------------------------------------

variable {clock : Clock} {start : Daemon} {passes before : List Pass} {pass : Pass}

theorem ArrivedIn.mono (h : ArrivedIn clock start passes before pass e) (last : Pass) :
    ArrivedIn clock start (passes ++ [last]) before pass e := by
  obtain ⟨⟨after, rfl⟩, harrived⟩ := h
  exact ⟨⟨after ++ [last], by simp⟩, harrived⟩

theorem mem_step_history {d : Daemon} (h : e ∈ (d.step clock pass).history) :
    e ∈ d.history ∨ e ∈ d.arrivals pass := by
  rw [step_history] at h
  exact List.mem_append.mp ((Bounded.popWhileOver_sublist _).subset (List.mem_of_mem_filter h))

theorem mem_run_history (hstart : start.history = []) (h : e ∈ (start.run clock passes).history) :
    ∃ before pass, ArrivedIn clock start passes before pass e := by
  refine run_induct (motive := fun passes d => ∀ e ∈ d.history,
    ∃ before pass, ArrivedIn clock start passes before pass e) clock start ?_ ?_ passes e h
  · intro e he
    rw [hstart] at he
    cases he
  · intro passes pass ih e he
    rcases mem_step_history he with he | he
    · obtain ⟨before, first, h⟩ := ih e he
      exact ⟨before, first, h.mono pass⟩
    · exact ⟨passes, pass, ⟨[], rfl⟩, he⟩

-- ---------------------------------------------------------------------------
-- Sources
-- ---------------------------------------------------------------------------

theorem mem_dispatch_creates {io : RequestIo} {s : AppState} {events : List Event}
    (h : .createDataSource source data ∈ (dispatchPending io s events).requests) :
    .createDataSource source data ∈ s.requests := by
  refine dispatchPending_induct (P := fun s' => .createDataSource source data ∈ s'.requests →
    .createDataSource source data ∈ s.requests) id (fun event _ s' s'' hs he => ?_) h
  have hlast (request : Request) (hne : request ≠ .createDataSource source data)
      (hmem : .createDataSource source data ∈ s'.requests ++ [request]) :
      .createDataSource source data ∈ s.requests := by
    rcases List.mem_append.mp hmem with hmem | hmem
    · exact hs hmem
    · exact absurd (List.mem_singleton.mp hmem).symm hne
  cases he with
  | clear => exact hlast _ (by simp)
  | ask => exact hlast _ (by simp)
  | cancel => exact hlast _ (by simp)
  | _ => exact hs

def PublishedOf (data : SourceData) (e : ClipboardEntry) : Prop :=
  ∃ hasher, data.contents = AppState.sourceContents hasher e.content

theorem mem_step_creates {d : Daemon}
    (h : .createDataSource source data ∈ (d.step clock pass).app.requests) :
    .createDataSource source data ∈ d.app.requests ∨
      ∃ e ∈ (d.step clock pass).history, PublishedOf data e := by
  obtain ⟨d', clipboard, hstep, -, happ⟩ := step_worked clock d pass
  have hclip : (d.step clock pass).app.clipboard = d'.app.clipboard := by
    rw [hstep]
    exact (served_effect clock d' pass).clipboard
  rw [Daemon.history, hclip]
  rw [hstep] at h
  refine (served_induct clock (P := fun s => s.clipboard = d'.app.clipboard ∧
    (.createDataSource source data ∈ s.requests → .createDataSource source data ∈ d.app.requests ∨
      ∃ e ∈ d'.app.clipboard.entries, PublishedOf data e)) ⟨rfl, fun h => .inl ?_⟩ ?_).2 h
  · rw [happ] at h
    exact mem_dispatch_creates h
  · rintro s entry hasher offerHasher ⟨hs, hcreates⟩ hentry -
    rw [AppState.publish_eq]
    refine ⟨hs, fun hmem => ?_⟩
    rcases List.mem_append.mp hmem with hmem | hmem
    · exact hcreates hmem
    · rcases mem_publishRequests hmem with heq | ⟨_, -, heq⟩ | heq | ⟨_, -, heq⟩ <;> cases heq
      exact .inr ⟨entry, hs ▸ hentry, hasher, rfl⟩

/-- Every source of a run was published for an entry that arrived in the run. -/
theorem mem_run_creates (hstart : start.history = []) (hsent : start.app.requests = [])
    (h : .createDataSource source data ∈ (start.run clock passes).app.requests) :
    ∃ before pass e, ArrivedIn clock start passes before pass e ∧ PublishedOf data e := by
  refine run_induct (motive := fun passes d => .createDataSource source data ∈ d.app.requests →
    ∃ before pass e, ArrivedIn clock start passes before pass e ∧ PublishedOf data e)
    clock start ?_ ?_ passes h
  · intro h
    rw [hsent] at h
    cases h
  · intro passes pass ih h
    rcases mem_step_creates h with h | ⟨e, he, hpub⟩
    · obtain ⟨before, first, e, harrived, hpub⟩ := ih h
      exact ⟨before, first, e, harrived.mono pass, hpub⟩
    · rw [run_step] at he
      obtain ⟨before, first, harrived⟩ := mem_run_history hstart he
      exact ⟨before, first, e, harrived, hpub⟩

-- ---------------------------------------------------------------------------
-- Answers
-- ---------------------------------------------------------------------------

theorem fallbackPayload_mem {hasher : Hasher String Bytes} {contents : Blobs}
    (h : contents ≠ ∅) :
    ∃ mime : String, contents[mime]? = some (AppState.fallbackPayload hasher contents) := by
  unfold AppState.fallbackPayload
  cases hu : contents["text/plain;charset=utf-8"]? with
  | some bytes => exact ⟨_, hu⟩
  | none =>
    cases hp : contents["text/plain"]? with
    | some bytes => exact ⟨_, hp⟩
    | none =>
      obtain ⟨bytes, rest, hvalues⟩ :=
        List.exists_cons_of_ne_nil (mt (hasher.values_eq_nil contents).mp h)
      have hmem : bytes ∈ hasher.values contents := hvalues ▸ List.mem_cons_self
      obtain ⟨mime, hm⟩ := (hasher.mem_values contents).mp hmem
      refine ⟨mime, ?_⟩
      rw [hvalues]
      exact hm

/-- What a source holds is stored in its entry, and under the same type unless
the type is an alias that the entry does not have. -/
theorem mem_published {e : ClipboardEntry} {mime : String} {bytes : Bytes}
    (hne : e.content.representations ≠ ∅) (hpub : PublishedOf data e)
    (h : data.contents[mime]? = some bytes) :
    ∃ stored, e.content.representations[stored]? = some bytes ∧
      (stored = mime ∨ mime ∉ e.content.representations) := by
  obtain ⟨hasher, hdata⟩ := hpub
  rw [hdata, getElem?_sourceContents] at h
  cases hm : e.content.representations[mime]? with
  | some stored =>
    rw [hm] at h
    exact ⟨mime, hm.trans h, .inl rfl⟩
  | none =>
    rw [hm, Option.none_or] at h
    split at h
    · rename_i hcond
      cases h
      obtain ⟨stored, hstored⟩ := fallbackPayload_mem hne
      refine ⟨stored, hstored, .inr ?_⟩
      rw [Std.ExtTreeMap.mem_iff_isSome_getElem?, hm]
      exact Bool.false_ne_true
    · cases h

theorem contentFor_eq_some {data : SourceData} {hasher : Hasher String Bytes} {mime : String}
    {bytes : Bytes}
    (h : data.contentFor hasher mime = some bytes) :
    ∃ stored : String, data.contents[stored]? = some bytes ∧
      (stored = mime ∨ mime ∉ data.contents) := by
  unfold SourceData.contentFor at h
  cases hm : data.contents[mime]? with
  | some payload =>
    rw [hm] at h
    exact ⟨mime, hm.trans h, .inl rfl⟩
  | none =>
    rw [hm, Option.none_or] at h
    split at h
    · obtain ⟨stored, hstored⟩ := (hasher.mem_values _).mp (List.mem_of_mem_head? h)
      refine ⟨stored, hstored, .inr ?_⟩
      rw [Std.ExtTreeMap.mem_iff_isSome_getElem?, hm]
      exact Bool.false_ne_true
    · cases h

/-- The bytes were read, in this pass, from a pipe asked for under this offer
id, and are what a bounded read keeps of its stream. -/
structure ReadFrom (clock : Clock) (start : Daemon) (before : List Pass) (pass : Pass)
    (offerId : Nat) (bytes : Bytes) (read : PendingRead) : Prop where
  queued : read ∈ ((start.run clock before).dispatched pass).app.pendingReads
  offerId : read.offerId = offerId
  stream : ∃ stream, pass.drain.pipe read.fd = .ok stream ∧ stream ≠ [] ∧
    bytes = stream.take maxContentBytes

/-- In this pass this offer id delivered a payload of the type. -/
def Delivers (clock : Clock) (start : Daemon) (before : List Pass) (pass : Pass)
    (offerId : Nat) (mime : String) : Prop :=
  refBlob pass.drain ((start.run clock before).dispatched pass).app.pendingReads offerId mime ≠ none

theorem answer_read {e : ClipboardEntry}
    (hdelivered : DeliveredBy pass.drain ((start.run clock before).dispatched pass).app.pendingReads
      offerId e.content)
    (hpub : PublishedOf data e) (hasher : Hasher String Bytes) (mime : String) :
    sendPayload hasher data mime = [] ∨
      ∃ read, ReadFrom clock start before pass offerId (sendPayload hasher data mime) read ∧
        (Delivers clock start before pass offerId mime → read.mimeType = mime) := by
  obtain ⟨hordered, hpayloads⟩ := hdelivered
  have hne : e.content.representations ≠ ∅ := blobs_ne_empty hordered hpayloads
  unfold sendPayload
  cases hcontent : data.contentFor hasher mime with
  | none => exact .inl rfl
  | some bytes =>
    obtain ⟨held, hheld, hsame⟩ := contentFor_eq_some hcontent
    obtain ⟨stored, hstored, hsame'⟩ := mem_published hne hpub hheld
    rw [hpayloads] at hstored
    obtain ⟨read, hread, hid, hmime, hstream⟩ := refBlob_eq_some hstored
    refine .inr ⟨read, ⟨hread, hid, hstream⟩, fun hdelivered => ?_⟩
    -- A delivered type is stored, so neither the source nor the alias falls back.
    have hmem : mime ∈ e.content.representations := by
      rw [Std.ExtTreeMap.mem_iff_isSome_getElem?, hpayloads]
      exact Option.isSome_iff_ne_none.mpr hdelivered
    have hsource : mime ∈ data.contents := by
      obtain ⟨_, hdata⟩ := hpub
      exact hdata ▸ mem_sourceContents.mpr (.inl hmem)
    obtain rfl := hsame.resolve_right (not_not.mpr hsource)
    obtain rfl := hsame'.resolve_right (not_not.mpr hmem)
    exact hmime

/-- Whatever a source of ours is asked for, in any run, it answers nothing or
what was read from one of the pipes of one pass and one offer id, the same for
all its answers; for a type that the copy delivered, from a pipe of that type. -/
theorem answers_read_from_pipes (clock : Clock) (seat manager device : Global)
    (passes : List Pass) (source : Source) (data : SourceData)
    (h : .createDataSource source data ∈
      (Daemon.run clock (.start seat manager device) passes).app.requests) :
    ∃ before pass after offerId, passes = before ++ pass :: after ∧
      ∀ hasher mime, sendPayload hasher data mime = [] ∨
        ∃ read, ReadFrom clock (.start seat manager device) before pass offerId
            (sendPayload hasher data mime) read ∧
          (Delivers clock (.start seat manager device) before pass offerId mime →
            read.mimeType = mime) := by
  obtain ⟨before, pass, e, harrived, hpub⟩ := mem_run_creates rfl rfl h
  obtain ⟨offerId, hdelivered⟩ := arrivals_delivered harrived.arrived
  obtain ⟨after, hran⟩ := harrived.ran
  exact ⟨before, pass, after, offerId, hran, answer_read hdelivered hpub⟩

theorem hi_answers_read_from_pipes :
    let passes : List Pass := [{ copyPass 0 ⟨1, 0⟩ ["text/plain"] fun _ => [0x68, 0x69] with
      requests := [(⟨1, 0⟩, .sorted, .sorted)] }]
    ∃ data : SourceData, ∃ before pass after offerId, passes = before ++ pass :: after ∧
      ∀ hasher mime, sendPayload hasher data mime = [] ∨
        ∃ read, ReadFrom .still (.start 0 1 2) before pass offerId
            (sendPayload hasher data mime) read ∧
          (Delivers .still (.start 0 1 2) before pass offerId mime → read.mimeType = mime) := by
  intro passes
  obtain ⟨data, hdata⟩ := mem_createdSources.mp
    (show 0 ∈ (Daemon.run .still (.start 0 1 2) passes).app.createdSources by decide +kernel)
  exact ⟨data, answers_read_from_pipes .still 0 1 2 passes 0 data hdata⟩

-- ---------------------------------------------------------------------------
-- One offer
-- ---------------------------------------------------------------------------

variable {seat manager device : Global} {s : Dialogue}

theorem dialogue_daemon (h : (dialogueSystem clock seat manager device).Run passes s) :
    s.daemon = Daemon.run clock (.start seat manager device) passes := by
  induction h with
  | start hinit =>
    cases hinit
    rfl
  | next _ hstep ih =>
    obtain ⟨hnext, -⟩ := hstep
    cases hnext
    rw [← run_step, ← ih]
    rfl

def AskedOf (requests : List Request) (pass : Pass) (offer : Offer) (payload : Bytes) : Prop :=
  ∃ mime fd stream, .receive offer mime fd ∈ requests ∧ pass.drain.pipe fd = .ok stream ∧
    payload = stream.take maxContentBytes

theorem mem_receives {s : AppState} {r : Receive} :
    r ∈ s.receives ↔ .receive r.offer r.mimeType r.fd ∈ s.requests := by
  rw [AppState.receives, List.mem_filterMap]
  constructor
  · rintro ⟨request, hmem, hr⟩
    cases request <;> cases hr
    exact hmem
  · exact fun hmem => ⟨_, hmem, rfl⟩

theorem read_from_one_offer {before after : List Pass}
    (h : (dialogueSystem clock seat manager device).Run (before ++ pass :: after) s)
    (offerId : Nat) :
    ∃ offer, ∀ bytes read,
      ReadFrom clock (.start seat manager device) before pass offerId bytes read →
      AskedOf s.daemon.app.requests pass offer bytes := by
  obtain ⟨t, t', hrun, hstep, hq⟩ := h.split
  obtain ⟨hkept, hdist⟩ := reachable_kept ⟨before, hrun⟩
  obtain ⟨-, hdist, hselected⟩ := hkept.queueKnown (fun _ => id) hdist hq
  obtain ⟨made, hmade⟩ := dispatchPending_requested pass.io
    (Daemon.run clock (.start seat manager device) before).app pass.events
  have hidle := (pipeLedger_run clock seat manager device before).idle
  have hsent : ∀ r ∈ made, .receive r.offer r.mimeType r.fd ∈ s.daemon.app.requests := by
    intro r hr
    have hmem : r ∈ ((Daemon.run clock (.start seat manager device) before).dispatched
        pass).app.receives := by
      rw [Daemon.dispatched, hmade.receives]
      exact List.mem_append_right _ hr
    rw [← (step_receives clock _ pass).1] at hmem
    have hlater := run_sent clock
      ((Daemon.run clock (.start seat manager device) before).step clock pass) after
    rw [dialogue_daemon h, Daemon.run, List.foldl_append]
    exact hlater.subset (mem_receives.mp hmem)
  -- What was made under the id was made of one offer.
  have hone : ∀ a ∈ made, ∀ b ∈ made, a.offer.protocolId = b.offer.protocolId →
      a.offer = b.offer := by
    intro a ha b hb hid
    obtain ⟨hintro, halive⟩ := hselected _ (hmade.wanted a ha).1
    obtain ⟨hintro', halive'⟩ := hselected _ (hmade.wanted b hb).1
    exact hdist _ hintro _ hintro' halive halive' hid
  have hread : ∀ bytes read,
      ReadFrom clock (.start seat manager device) before pass offerId bytes read →
      ∃ r ∈ made, r.offer.protocolId = offerId ∧
        AskedOf s.daemon.app.requests pass r.offer bytes := by
    rintro bytes read ⟨hqueued, hid, stream, hpipe, -, hbytes⟩
    have hreads := hmade.reads
    rw [hidle, List.nil_append] at hreads
    have hmem : read ∈ (made.filter (pass.io.flushOk ·.fd)).map Receive.read := hreads ▸ hqueued
    obtain ⟨r, hr, rfl⟩ := List.mem_map.mp hmem
    have hr := (List.mem_filter.mp hr).1
    exact ⟨r, hr, hid, r.mimeType, r.fd, stream, hsent r hr, hpipe, hbytes⟩
  by_cases hany : ∃ r ∈ made, r.offer.protocolId = offerId
  · obtain ⟨r, hr, hid⟩ := hany
    refine ⟨r.offer, fun bytes read hfrom => ?_⟩
    obtain ⟨r', hr', hid', hasked⟩ := hread bytes read hfrom
    exact hone r' hr' r hr (hid'.trans hid.symm) ▸ hasked
  · refine ⟨⟨offerId, 0⟩, fun bytes read hfrom => ?_⟩
    obtain ⟨r, hr, hid, -⟩ := hread bytes read hfrom
    exact absurd ⟨r, hr, hid⟩ hany

/-- Everything a source of ours ever answers was read in one pass from one
offer, even where the compositor gives its ids to several. -/
theorem answers_from_one_offer {clock : Clock} {seat manager device : Global}
    {passes : List Pass} {s : Dialogue} {source : Source} {data : SourceData}
    (h : (dialogueSystem clock seat manager device).Run passes s)
    (hcreate : .createDataSource source data ∈ s.daemon.app.requests) :
    ∃ pass ∈ passes, ∃ offer, ∀ hasher mime, sendPayload hasher data mime = [] ∨
      AskedOf s.daemon.app.requests pass offer (sendPayload hasher data mime) := by
  rw [dialogue_daemon h] at hcreate
  obtain ⟨before, pass, e, harrived, hpub⟩ := mem_run_creates rfl rfl hcreate
  obtain ⟨offerId, hdelivered⟩ := arrivals_delivered harrived.arrived
  obtain ⟨after, rfl⟩ := harrived.ran
  obtain ⟨offer, hoffer⟩ := read_from_one_offer h offerId
  refine ⟨pass, by simp, offer, fun hasher mime => ?_⟩
  rcases answer_read hdelivered hpub hasher mime with hnone | ⟨read, hread, -⟩
  · exact .inl hnone
  · exact .inr (hoffer _ read hread)

theorem reusedId_answers_from_one_offer : ∃ (s : Dialogue) (data : SourceData),
    .createDataSource 0 data ∈ s.daemon.app.requests ∧
    ∃ pass ∈ reusedId, ∃ offer, ∀ hasher mime, sendPayload hasher data mime = [] ∨
      AskedOf s.daemon.app.requests pass offer (sendPayload hasher data mime) := by
  obtain ⟨s, hrun, hcreated⟩ := (Option.any_eq_true _ _).mp
    (show (runQueued .still { daemon := .start 0 1 2 } reusedId).any
      (fun s => 0 ∈ s.daemon.app.createdSources) = true by decide +kernel)
  obtain ⟨data, hdata⟩ := mem_createdSources.mp (of_decide_eq_true hcreated)
  exact ⟨s, data, hdata, answers_from_one_offer (run_of_queued hrun) hdata⟩

end Uclip
