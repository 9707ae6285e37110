import Uclip.Mirror

/-!
# Everything stored was asked for

A pass ends with no queued read, and every payload of the history was read
whole over a pipe, for a type that `pickMimes` picked.
-/

namespace Uclip

open Text (Bytes)
open ClipboardContent (fromBlobs)

variable (clock : Clock) {read : PendingRead}

-- ---------------------------------------------------------------------------
-- Queued reads
-- ---------------------------------------------------------------------------

theorem Effect.reads {io : RequestIo} {event : Event} {s s' : AppState}
    (he : Effect io event s s') (h : read ∈ s'.pendingReads) :
    read ∈ s.pendingReads ∨ Wanted read.mimeType := by
  cases he with
  | ask offer mime _ _ hwanted =>
    rcases List.mem_append.mp h with h | h
    · exact .inl h
    · split at h
      · cases List.mem_singleton.mp h
        exact .inr hwanted
      · cases h
  | _ => exact .inl h

theorem dispatchPending_reads {s : AppState} {events : List Event}
    (h : read ∈ (dispatchPending io s events).pendingReads) :
    read ∈ s.pendingReads ∨ Wanted read.mimeType :=
  dispatchPending_induct
    (P := fun s' => read ∈ s'.pendingReads → read ∈ s.pendingReads ∨ Wanted read.mimeType) .inl
    (fun _ _ _ _ ih he h => (he.reads h).elim ih .inr) h

-- ---------------------------------------------------------------------------
-- Payloads
-- ---------------------------------------------------------------------------

theorem readBounded_length (h : readBounded stream = .ok (buf, truncated)) :
    buf.length ≤ maxContentBytes := by
  cases stream with
  | error e => cases h
  | ok bytes =>
    rw [readBounded_ok] at h
    cases h
    exact List.length_take_le ..

/-- A payload of a copy: read whole, for the type of some read. -/
def Delivered (reads : List PendingRead) (blobs : Blobs) : Prop :=
  ∀ (mime : String) (bytes : Bytes), blobs[mime]? = some bytes →
    bytes.length ≤ maxContentBytes ∧ ∃ read ∈ reads, read.mimeType = mime

theorem delivered_empty (reads : List PendingRead) : Delivered reads ∅ :=
  fun mime bytes h => by simp at h

theorem grouping_read_delivered {g : Grouping} (hmem : read ∈ reads)
    (hg : ∀ offerId : Nat, Delivered reads (g.grouped[offerId]?.getD ∅)) (offerId : Nat) :
    Delivered reads ((g.read env read).grouped[offerId]?.getD ∅) := by
  unfold Grouping.read
  split
  · rename_i buf truncated hbuf
    dsimp only
    split
    · exact hg offerId
    · rw [Std.ExtTreeMap.getElem?_insert]
      split
      · intro mime bytes h
        rw [Option.getD_some, Std.ExtTreeMap.getElem?_insert] at h
        split at h
        · rename_i hm
          cases h
          exact ⟨readBounded_length hbuf, read, hmem, Std.LawfulEqOrd.eq_of_compare hm⟩
        · exact hg _ mime bytes h
      · exact hg offerId
  · exact hg offerId

theorem groupReads_delivered (env : DrainEnv) (reads : List PendingRead) (offerId : Nat) :
    Delivered reads ((groupReads env reads).grouped[offerId]?.getD ∅) := by
  suffices ∀ rest : List PendingRead, rest ⊆ reads → ∀ g : Grouping,
      (∀ offerId : Nat, Delivered reads (g.grouped[offerId]?.getD ∅)) →
      ∀ offerId : Nat,
        Delivered reads ((rest.foldl (Grouping.read env) g).grouped[offerId]?.getD ∅) from
    this reads (fun _ h => h) {} (fun _ => by simpa using delivered_empty reads) offerId
  intro rest
  induction rest with
  | nil => exact fun _ g hg => hg
  | cons read rest ih =>
    intro hsub g hg
    obtain ⟨hread, hrest⟩ := List.cons_subset.mp hsub
    exact ih hrest _ fun offerId => grouping_read_delivered hread hg offerId

theorem mem_copies (h : (offerId, blobs) ∈ copies env reads) : Delivered reads blobs := by
  obtain ⟨_, -, hcopy⟩ := List.mem_map.mp h
  cases hcopy
  exact groupReads_delivered env reads _

theorem mem_accepted (h : e ∈ accepted env last nextId l) :
    ∃ offerId blobs, (offerId, blobs) ∈ l ∧
      fromBlobs (env.hasher offerId) (env.textHasher offerId) blobs = some e.content := by
  induction l generalizing last nextId with
  | nil => cases h
  | cons copy rest ih =>
    obtain ⟨offerId, blobs⟩ := copy
    have hrest : (∃ offerId' blobs', (offerId', blobs') ∈ rest ∧
        fromBlobs (env.hasher offerId') (env.textHasher offerId') blobs' = some e.content) →
        ∃ offerId' blobs', (offerId', blobs') ∈ (offerId, blobs) :: rest ∧
          fromBlobs (env.hasher offerId') (env.textHasher offerId') blobs' = some e.content :=
      fun ⟨i, b, hm, hf⟩ => ⟨i, b, List.mem_cons_of_mem _ hm, hf⟩
    simp only [accepted] at h
    split at h
    · exact hrest (ih h)
    · rename_i content hf
      split at h
      · exact hrest (ih h)
      · rcases List.mem_cons.mp h with rfl | h
        · exact ⟨offerId, blobs, List.mem_cons_self, hf⟩
        · exact hrest (ih h)

def WantedContent (c : ClipboardContent) : Prop :=
  ∀ (mime : String) (bytes : Bytes), c.representations[mime]? = some bytes →
    bytes.length ≤ maxContentBytes ∧ Wanted mime

theorem arrivals_wanted {s : AppState} (h : ∀ read ∈ s.pendingReads, Wanted read.mimeType)
    (he : e ∈ s.arrivals env) : WantedContent e.content := by
  intro mime bytes hm
  obtain ⟨offerId, blobs, hcopy, hf⟩ := mem_accepted he
  rw [ClipboardContent.representations_fromBlobs hf, getElem?_storedBlobs,
    Option.filter_eq_some_iff] at hm
  obtain ⟨hle, read, hread, rfl⟩ := mem_copies hcopy mime bytes hm.1
  exact ⟨hle, h read hread⟩

-- ---------------------------------------------------------------------------
-- Runs
-- ---------------------------------------------------------------------------

/-- Between two passes: nothing is queued, and what is held was asked for. -/
structure Settled (d : Daemon) : Prop where
  idle : d.app.pendingReads = []
  wanted : ∀ e ∈ d.history, WantedContent e.content

theorem settled_step (d : Daemon) (pass : Pass) (h : Settled d) :
    Settled (d.step clock pass) := by
  have hreads : ∀ read ∈ (d.dispatched pass).app.pendingReads, Wanted read.mimeType := by
    intro read hread
    rcases dispatchPending_reads hread with hread | hwanted
    · rw [h.idle] at hread
      cases hread
    · exact hwanted
  refine ⟨?_, fun e he => ?_⟩
  · obtain ⟨d', ho, hs⟩ := step_effect clock d pass
    obtain ⟨clipboard, happ, -⟩ := ho.app
    obtain ⟨_, _, hdrain⟩ := drain_frame pass.drain (d.dispatched pass).app
    rw [hs.pendingReads, happ]
    exact congrArg (·.pendingReads) hdrain
  · rw [step_history] at he
    have he := (Bounded.popWhileOver_sublist _).subset (List.mem_of_mem_filter he)
    rcases List.mem_append.mp he with he | he
    · exact h.wanted e he
    · exact arrivals_wanted hreads he

theorem settled_run (d : Daemon) (passes : List Pass) (h : Settled d) :
    Settled (d.run clock passes) := by
  induction passes generalizing d with
  | nil => exact h
  | cons pass passes ih => exact ih _ (settled_step clock d pass h)

theorem settled_start (seat manager device : Global) :
    Settled (Daemon.start seat manager device) := ⟨rfl, fun e he => by cases he⟩

end Uclip
