import Uclip.Accounting

/-!
# From a copy to its restore and back

The `n`-th restore that succeeds creates source `n`, for the entry it names. An
id names one arrival of the run, so what the source answers for a type that the
copy delivered are the bytes that were read for it then, however many copies,
evictions and restores lie between.
-/

namespace Uclip

open Text (Bytes)

variable {d : Daemon} {pass : Pass} {restored : List (ClipboardEntry × SourceData)}

def Request.made : Request → Option (Source × SourceData)
  | .createDataSource source data => some (source, data)
  | _ => none

def Request.offered : Request → Option (Source × String)
  | .offer source mime => some (source, mime)
  | _ => none

def Request.chosen : Request → Option Source
  | .setSelection source => some source
  | _ => none

/-- The entries of the restores that succeeded, with what was published. -/
structure Restored (d : Daemon) (restored : List (ClipboardEntry × SourceData)) : Prop where
  ids : restored.map (·.1.id) = d.replies.filterMap (·.2.restoredId)
  created : d.app.created = restored.length
  made : d.app.requests.filterMap Request.made = (restored.map (·.2)).zipIdx.map Prod.swap
  offered : ∀ source mime, (source, mime) ∈ d.app.requests.filterMap Request.offered ↔
    ∃ data, (source, data) ∈ d.app.requests.filterMap Request.made ∧ mime ∈ data.contents
  chosen : d.app.requests.filterMap Request.chosen = List.range restored.length
  published : ∀ p ∈ restored, PublishedOf p.2 p.1

-- ---------------------------------------------------------------------------
-- Sources
-- ---------------------------------------------------------------------------

def SamePublications (s s' : AppState) : Prop :=
  s'.created = s.created ∧
    s'.requests.filterMap Request.made = s.requests.filterMap Request.made ∧
    s'.requests.filterMap Request.offered = s.requests.filterMap Request.offered ∧
    s'.requests.filterMap Request.chosen = s.requests.filterMap Request.chosen

theorem Effect.samePublications {io : RequestIo} {event : Event} {s₀ s s' : AppState}
    (hs : SamePublications s₀ s) (h : Effect io event s s') : SamePublications s₀ s' := by
  cases h with
  | clear | ask | cancel =>
    simpa [SamePublications, List.filterMap_cons, Request.made, Request.offered,
      Request.chosen] using hs
  | _ => exact hs

theorem Restored.worked {d' : Daemon} (h : Restored d restored)
    (hreplies : d'.replies = d.replies) (hsame : SamePublications d.app d'.app) :
    Restored d' restored := by
  obtain ⟨hcreated, hmade, hoffered, hchosen⟩ := hsame
  refine ⟨hreplies ▸ h.ids, hcreated.trans h.created, hmade.trans h.made, ?_,
    hchosen.trans h.chosen, h.published⟩
  rw [hmade, hoffered]
  exact h.offered

theorem filterMap_made_publish (source : Source) (contents : Blobs) (mimes : List String)
    (old : Option Source) :
    (AppState.publishRequests source contents mimes old).filterMap Request.made =
      [(source, ⟨contents⟩)] := by
  have hoffers : (mimes.map (Request.offer source)).filterMap Request.made = [] := by
    simp [List.filterMap_eq_nil_iff, Request.made]
  cases old <;>
    simp [AppState.publishRequests, List.filterMap_cons, Request.made, hoffers]

theorem filterMap_offered_publish (source : Source) (contents : Blobs) (mimes : List String)
    (old : Option Source) :
    (AppState.publishRequests source contents mimes old).filterMap Request.offered =
      mimes.map (source, ·) := by
  have hoffers : (mimes.map (Request.offer source)).filterMap Request.offered =
      mimes.map (source, ·) := by
    rw [List.filterMap_map]
    exact congrFun (List.filterMap_eq_map (f := (source, ·))) mimes
  cases old <;>
    simp [AppState.publishRequests, List.filterMap_cons, Request.offered, hoffers]

theorem filterMap_chosen_publish (source : Source) (contents : Blobs) (mimes : List String)
    (old : Option Source) :
    (AppState.publishRequests source contents mimes old).filterMap Request.chosen = [source] := by
  have hoffers : (mimes.map (Request.offer source)).filterMap Request.chosen = [] := by
    simp [List.filterMap_eq_nil_iff, Request.chosen]
  cases old <;>
    simp [AppState.publishRequests, List.filterMap_cons, Request.chosen, hoffers]

variable (clock : Clock)

theorem Restored.handleRestore (h : Restored d restored)
    (hasher offerHasher : Hasher String Bytes) (pending : PendingRestore) :
    ∃ more, Restored (d.handleRestore clock hasher offerHasher pending) (restored ++ more) ∧
      ∀ p ∈ more, p.1 ∈ d.history := by
  rcases handleRestore_cases clock hasher offerHasher d pending with
    ⟨entry, app, hget, hok, hd⟩ | ⟨err, -, hd⟩ <;> rw [hd]
  · obtain ⟨hmem, hid⟩ := ClipState.mem_of_get hget
    obtain ⟨entry', hget', -, -, rfl⟩ := AppState.restoreEntry_eq_ok hok
    obtain rfl : entry = entry' := Option.some.inj (hget.symm.trans hget')
    let data : SourceData := ⟨AppState.sourceContents hasher entry.content⟩
    refine ⟨[(entry, data)], ⟨?_, ?_, ?_, ?_, ?_, ?_⟩, by simpa using hmem⟩
    · simp [h.ids, hid, DaemonResponse.restoredId]
    · simp [AppState.publish_eq, h.created]
    · simp [AppState.publish_eq, h.made, filterMap_made_publish, List.zipIdx_append, h.created,
        data]
    · intro source mime
      simp only [AppState.publish_eq, List.filterMap_append, List.mem_append, h.offered,
        filterMap_made_publish, filterMap_offered_publish, List.mem_map, Hasher.mem_keys,
        List.mem_singleton, Prod.mk.injEq]
      constructor
      · rintro (⟨data, hmade, hmime⟩ | ⟨_, hmime, rfl, rfl⟩)
        · exact ⟨data, .inl hmade, hmime⟩
        · exact ⟨_, .inr ⟨rfl, rfl⟩, hmime⟩
      · rintro ⟨data, hmade | ⟨rfl, rfl⟩, hmime⟩
        · exact .inl ⟨data, hmade, hmime⟩
        · exact .inr ⟨mime, hmime, rfl, rfl⟩
    · simp [AppState.publish_eq, h.chosen, filterMap_chosen_publish, h.created, List.range_succ]
    · intro p hp
      rcases List.mem_append.mp hp with hp | hp
      · exact h.published p hp
      · obtain rfl := List.mem_singleton.mp hp
        exact ⟨hasher, rfl⟩
  · refine ⟨[], ?_, by simp⟩
    rw [List.append_nil]
    refine ⟨?_, h.created, h.made, h.offered, h.chosen, h.published⟩
    simp [h.ids, DaemonResponse.restoredId, DaemonResponse.ofError]

theorem Restored.served (h : Restored d restored) (pass : Pass) :
    ∃ more, Restored (d.served clock pass) (restored ++ more) ∧ ∀ p ∈ more, p.1 ∈ d.history := by
  unfold Daemon.served
  induction pass.requests generalizing d restored with
  | nil => exact ⟨[], by rwa [List.append_nil], by simp⟩
  | cons request requests ih =>
    obtain ⟨pending, hasher, offerHasher⟩ := request
    obtain ⟨more, hnext, hmore⟩ := h.handleRestore clock hasher offerHasher pending
    obtain ⟨rest, hrest, hmem⟩ := ih hnext
    have hclip := (handleRestore_effect clock hasher offerHasher d pending).clipboard
    rw [List.append_assoc] at hrest
    refine ⟨more ++ rest, hrest, fun p hp => ?_⟩
    rcases List.mem_append.mp hp with hp | hp
    · exact hmore p hp
    · have hheld := hmem p hp
      rwa [Daemon.history, hclip] at hheld

theorem Restored.step (h : Restored d restored) (pass : Pass) :
    ∃ more, Restored (d.step clock pass) (restored ++ more) ∧
      ∀ p ∈ more, p.1 ∈ (d.step clock pass).history := by
  obtain ⟨d', clipboard, hstep, hreplies, happ⟩ := step_worked clock d pass
  have hsame : SamePublications d.app d'.app := by
    have hdispatched : SamePublications d.app (d.dispatched pass).app :=
      dispatchPending_induct ⟨rfl, rfl, rfl, rfl⟩ fun _ _ _ _ hs he => he.samePublications hs
    rw [happ]
    exact hdispatched
  obtain ⟨more, hserved, hmem⟩ := (h.worked hreplies hsame).served clock pass
  rw [hstep, Daemon.history, (served_effect clock d' pass).clipboard]
  exact ⟨more, hserved, hmem⟩

-- ---------------------------------------------------------------------------
-- Ids
-- ---------------------------------------------------------------------------

theorem step_nextId (d : Daemon) (pass : Pass) : (d.step clock pass).app.clipboard.nextId =
    d.app.clipboard.nextId + (d.arrivals pass).length := by
  obtain ⟨clipboard, happ, hnext⟩ := (outcomes_effect clock (d.arrivals pass)
    (arrivals_pairwise d pass) (d.filled pass) (namedBy_arrivals d pass)).app
  rw [step_eq, (served_effect clock _ pass).clipboard, happ, ← filled_nextId, ← hnext]

theorem run_nextId_le (d : Daemon) (passes : List Pass) :
    d.app.clipboard.nextId ≤ (d.run clock passes).app.clipboard.nextId :=
  run_induct (motive := fun _ d' => d.app.clipboard.nextId ≤ d'.app.clipboard.nextId) clock d
    (Nat.le_refl _) (fun _ pass h => by rw [step_nextId]; omega) passes

theorem id_bounds (h : e ∈ d.arrivals pass) : d.app.clipboard.nextId ≤ e.id ∧
    e.id < (d.step clock pass).app.clipboard.nextId := by
  have hid : e.id ∈ (d.arrivals pass).map (·.id) := List.mem_map_of_mem h
  rw [id_arrivals, List.mem_range'_1] at hid
  rw [step_nextId]
  exact hid

variable {clock} {start : Daemon} {passes before before' : List Pass} {pass' : Pass}
  {e e' : ClipboardEntry}

theorem id_lt_of_arrived_after {between : List Pass}
    (h : e ∈ (start.run clock before).arrivals pass)
    (h' : e' ∈ (start.run clock (before ++ pass :: between)).arrivals pass') : e.id < e'.id := by
  have hfirst := (id_bounds clock h).2
  have hlater := run_nextId_le clock ((start.run clock before).step clock pass) between
  have hsecond := (id_bounds clock h').1
  rw [Daemon.run, List.foldl_append, List.foldl_cons] at hsecond
  exact hfirst.trans_le (hlater.trans hsecond)

theorem id_runArrivals (d : Daemon) (passes : List Pass) :
    (d.runArrivals clock passes).map (·.id) =
      List.range' d.app.clipboard.nextId (d.runArrivals clock passes).length := by
  induction passes generalizing d with
  | nil => rfl
  | cons pass passes ih =>
    rw [Daemon.runArrivals, List.map_append, ih, id_arrivals, step_nextId, List.length_append,
      List.range'_append_1]

theorem eq_of_id_arrivals (h : e ∈ d.arrivals pass) (h' : e' ∈ d.arrivals pass)
    (hid : e.id = e'.id) : e = e' := by
  have hids : ((d.arrivals pass).map (·.id)).Nodup :=
    List.pairwise_map.mpr ((arrivals_pairwise d pass).imp Nat.ne_of_lt)
  exact List.inj_on_of_nodup_map hids h h' hid

theorem ArrivedIn.eq_of_id (h : ArrivedIn clock start passes before pass e)
    (h' : ArrivedIn clock start passes before' pass' e') (hid : e.id = e'.id) :
    before = before' ∧ pass = pass' ∧ e = e' := by
  obtain ⟨⟨after, rfl⟩, harrived⟩ := h
  obtain ⟨⟨after', hran⟩, harrived'⟩ := h'
  -- One of the passes comes first in the run, unless they are the same.
  rcases List.append_eq_append_iff.mp hran with
    ⟨_ | ⟨_, between⟩, rfl, hrest⟩ | ⟨_ | ⟨_, between⟩, rfl, hrest⟩ <;>
    obtain ⟨rfl, -⟩ := List.cons.inj hrest
  · rw [List.append_nil] at harrived' ⊢
    exact ⟨rfl, rfl, eq_of_id_arrivals harrived harrived' hid⟩
  · exact absurd hid (Nat.ne_of_lt (id_lt_of_arrived_after harrived harrived'))
  · rw [List.append_nil] at harrived ⊢
    exact ⟨rfl, rfl, eq_of_id_arrivals harrived harrived' hid⟩
  · exact absurd hid.symm (Nat.ne_of_lt (id_lt_of_arrived_after harrived' harrived))

theorem ArrivedIn.mem_runArrivals (h : ArrivedIn clock start passes before pass e) :
    e ∈ start.runArrivals clock passes := by
  obtain ⟨⟨after, rfl⟩, harrived⟩ := h
  induction before generalizing start with
  | nil => exact List.mem_append_left _ harrived
  | cons first before ih => exact List.mem_append_right _ (ih harrived)

theorem filter_eq_singleton {f : α → Nat} {l : List α} {a : α} (h : (l.map f).Nodup) (ha : a ∈ l) :
    l.filter (f · = f a) = [a] := by
  obtain ⟨before, after, rfl⟩ := List.append_of_mem ha
  rw [List.map_append, List.map_cons, List.nodup_middle, List.nodup_cons, ← List.map_append] at h
  have hother : ∀ b ∈ before ++ after, f b ≠ f a := fun b hb heq =>
    h.1 (heq ▸ List.mem_map_of_mem hb)
  have hnone (l : List α) (hl : l ⊆ before ++ after) : l.filter (f · = f a) = [] :=
    List.filter_eq_nil_iff.mpr fun b hb => by simpa using hother b (hl hb)
  rw [List.filter_append, List.filter_cons_of_pos (by simp),
    hnone before (List.subset_append_left ..), hnone after (List.subset_append_right ..)]
  rfl

theorem ArrivedIn.once (h : ArrivedIn clock start passes before pass e) :
    (start.runArrivals clock passes).filter (·.id = e.id) = [e] := by
  refine filter_eq_singleton ?_ h.mem_runArrivals
  rw [id_runArrivals]
  exact List.nodup_range'

-- ---------------------------------------------------------------------------
-- Runs
-- ---------------------------------------------------------------------------

variable (clock)

theorem restored_run (seat manager device : Global) (passes : List Pass) :
    ∃ restored, Restored (Daemon.run clock (.start seat manager device) passes) restored ∧
      ∀ p ∈ restored, ∃ before pass,
        ArrivedIn clock (.start seat manager device) passes before pass p.1 := by
  refine run_induct (motive := fun passes d => ∃ restored, Restored d restored ∧
    ∀ p ∈ restored, ∃ before pass,
      ArrivedIn clock (.start seat manager device) passes before pass p.1)
    clock _
    ⟨[], ⟨rfl, rfl, rfl, by simp [Daemon.start, AppState.new], rfl, by simp⟩, by simp⟩ ?_ passes
  rintro passes pass ⟨restored, h, harrived⟩
  obtain ⟨more, hstep, hmore⟩ := h.step clock pass
  refine ⟨restored ++ more, hstep, fun p hp => ?_⟩
  rcases List.mem_append.mp hp with hp | hp
  · obtain ⟨before, first, hfirst⟩ := harrived p hp
    exact ⟨before, first, hfirst.mono pass⟩
  · have hheld := hmore p hp
    rw [run_step] at hheld
    exact mem_run_history rfl hheld

/-- What a restore published is what was read for a copy of its entry. -/
theorem Restored.copied {start : Daemon} {passes : List Pass} {n : Nat} {e : ClipboardEntry}
    {data : SourceData} (h : Restored (start.run clock passes) restored)
    (harrived : ∀ p ∈ restored, ∃ before pass, ArrivedIn clock start passes before pass p.1)
    (hn : restored[n]? = some (e, data)) :
    ∃ before pass offerId, ArrivedIn clock start passes before pass e ∧
      (start.runArrivals clock passes).filter (·.id = e.id) = [e] ∧
      (∀ before' pass' e', ArrivedIn clock start passes before' pass' e' → e.id = e'.id →
        before = before' ∧ pass = pass' ∧ e = e') ∧
      let reads := ((start.run clock before).dispatched pass).app.pendingReads
      DeliveredBy pass.drain reads offerId e.content ∧
      ∀ mime bytes, refBlob pass.drain reads offerId mime = some bytes →
        .offer n mime ∈ (start.run clock passes).app.requests ∧
          ∀ hasher, sendPayload hasher data mime = bytes := by
  have hmem := List.mem_of_getElem? hn
  obtain ⟨before, pass, hfirst⟩ := harrived _ hmem
  obtain ⟨offerId, hdelivered⟩ := arrivals_delivered hfirst.arrived
  obtain ⟨hasher, hdata⟩ := h.published _ hmem
  refine ⟨before, pass, offerId, hfirst, hfirst.once, fun _ _ _ h' => hfirst.eq_of_id h',
    hdelivered, fun mime bytes hbytes => ?_⟩
  have hheld : data.contents[mime]? = some bytes := by
    rw [hdata, getElem?_sourceContents, hdelivered.payloads, hbytes, Option.some_or]
  refine ⟨?_, fun hasher => ?_⟩
  · have hmade : (n, data) ∈ (start.run clock passes).app.requests.filterMap Request.made := by
      rw [h.made]
      refine List.mem_map.mpr ⟨(data, n), ?_, rfl⟩
      rw [List.mem_zipIdx_iff_getElem?, List.getElem?_map, hn]
      rfl
    have hoffered := (h.offered n mime).mpr
      ⟨data, hmade, Std.ExtTreeMap.mem_iff_isSome_getElem?.mpr (by rw [hheld]; rfl)⟩
    obtain ⟨request, hrequest, hsome⟩ := List.mem_filterMap.mp hoffered
    cases request with
    | offer source mime' =>
      obtain ⟨rfl, rfl⟩ := Prod.mk.inj (Option.some.inj hsome)
      exact hrequest
    | _ => cases hsome
  · rw [sendPayload, contentFor_of_getElem? hheld]
    rfl

/-- The `n`-th `Restored` of any run names an entry that arrived once, in one
pass and over the pipes of one offer id; it created and selected source `n`,
which offers every type that was delivered then, and answers each with the bytes
that were read for it. -/
theorem restored_as_copied (seat manager device : Global) (passes : List Pass) :
    let start := Daemon.start seat manager device
    let d := Daemon.run clock start passes
    ∃ restored : List (ClipboardEntry × SourceData),
      restored.map (·.1.id) = d.replies.filterMap (·.2.restoredId) ∧
      d.app.requests.filterMap Request.made = (restored.map (·.2)).zipIdx.map Prod.swap ∧
      d.app.requests.filterMap Request.chosen = List.range restored.length ∧
      ∀ n e data, restored[n]? = some (e, data) → ∃ before pass offerId,
        ArrivedIn clock start passes before pass e ∧
        (start.runArrivals clock passes).filter (·.id = e.id) = [e] ∧
        (∀ before' pass' e', ArrivedIn clock start passes before' pass' e' → e.id = e'.id →
          before = before' ∧ pass = pass' ∧ e = e') ∧
        let reads := ((start.run clock before).dispatched pass).app.pendingReads
        DeliveredBy pass.drain reads offerId e.content ∧
        ∀ mime bytes, refBlob pass.drain reads offerId mime = some bytes →
          .offer n mime ∈ d.app.requests ∧ ∀ hasher, sendPayload hasher data mime = bytes := by
  obtain ⟨restored, h, harrived⟩ := restored_run clock seat manager device passes
  exact ⟨restored, h.ids, h.made, h.chosen, fun n e data hn => h.copied clock harrived hn⟩

end Uclip
