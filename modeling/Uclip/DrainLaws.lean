import Uclip.Drain

/-!
# What a drain adds to the history

A drain appends the accepted copies to the history under consecutive ids and
pops what is over the bound: `accepted` is the list it appends, read off the
payloads alone, and the stored outcomes name exactly its ids, in order.
-/

namespace Uclip

open Text (Bytes)
open ClipboardContent (fromBlobs)

/-- The copies of one drain: the payloads of each offer id, in first-read order. -/
def copies (env : DrainEnv) (reads : List PendingRead) : List (Nat × Blobs) :=
  let g := groupReads env reads
  g.order.map fun offerId => (offerId, g.grouped[offerId]?.getD ∅)

/-- The entries a list of copies makes, after a history that ends in `last`. -/
def accepted (env : DrainEnv) (last : Option ClipboardContent) (nextId : Nat) :
    List (Nat × Blobs) → List ClipboardEntry
  | [] => []
  | (offerId, blobs) :: rest =>
    match fromBlobs (env.hasher offerId) (env.textHasher offerId) blobs with
    | none => accepted env last nextId rest
    | some content =>
      if last = some content then accepted env last nextId rest
      else ⟨nextId, env.now offerId, content⟩ :: accepted env (some content) (nextId + 1) rest

def AppState.arrivals (env : DrainEnv) (s : AppState) : List ClipboardEntry :=
  accepted env (s.clipboard.latest.map (·.content)) s.clipboard.nextId (copies env s.pendingReads)

theorem map_id_accepted (env : DrainEnv) (last : Option ClipboardContent) (nextId : Nat)
    (l : List (Nat × Blobs)) :
    (accepted env last nextId l).map (·.id) =
      List.range' nextId (accepted env last nextId l).length := by
  induction l generalizing last nextId with
  | nil => rfl
  | cons copy rest ih =>
    obtain ⟨offerId, blobs⟩ := copy
    simp only [accepted]
    split
    · exact ih ..
    · split
      · exact ih ..
      · rw [List.map_cons, List.length_cons, List.range'_succ, ih]

theorem accepted_pairwise (env : DrainEnv) (last : Option ClipboardContent) (nextId : Nat)
    (l : List (Nat × Blobs)) : (accepted env last nextId l).Pairwise (·.id < ·.id) := by
  rw [← List.pairwise_map, map_id_accepted]
  exact List.pairwise_lt_range'

theorem le_id_of_mem_accepted (h : e ∈ accepted env last nextId l) : nextId ≤ e.id := by
  have hid : e.id ∈ (accepted env last nextId l).map (·.id) := List.mem_map_of_mem h
  rw [map_id_accepted, List.mem_range'_1] at hid
  exact hid.1

theorem readBounded_ok (stream : Bytes) :
    readBounded (.ok stream) =
      .ok (stream.take maxContentBytes, decide (maxContentBytes < stream.length)) := by
  simp only [readBounded, bind, Except.bind]
  by_cases h : maxContentBytes < stream.length
  · have hlen : (stream.take (maxContentBytes + 1)).length > maxContentBytes := by
      rw [List.length_take]
      omega
    have hmin : min maxContentBytes (maxContentBytes + 1) = maxContentBytes := by omega
    simp only [hlen, h, decide_true, if_true, List.take_take, hmin]
  · have hle : stream.length ≤ maxContentBytes := Nat.le_of_not_lt h
    have hall : stream.take (maxContentBytes + 1) = stream :=
      List.take_of_length_le (Nat.le_succ_of_le hle)
    simp only [hall, gt_iff_lt, h, decide_false, if_false, List.take_of_length_le hle]

theorem fromBlobs_empty : fromBlobs hasher textHasher ∅ = none :=
  ClipboardContent.fromBlobs_eq_none.mpr rfl

@[simp] theorem storedIds_append (outcomes outcomes' : List ReadOutcome) :
    storedIds (outcomes ++ outcomes') = storedIds outcomes ++ storedIds outcomes' := by
  simp [storedIds]

theorem storeCopy_cases (env : DrainEnv) (grouped : HashMap Nat Blobs) (s : AppState)
    (outcomes : List ReadOutcome) (offerId : Nat) (rest : List (Nat × Blobs)) :
    let blobs := grouped[offerId]?.getD ∅
    let acc := storeCopy env grouped (s, outcomes) offerId
    let last := s.clipboard.latest.map (·.content)
    (acc.1.clipboard = s.clipboard ∧ storedIds acc.2 = storedIds outcomes ∧
      accepted env last s.clipboard.nextId ((offerId, blobs) :: rest) =
        accepted env last s.clipboard.nextId rest) ∨
    (∃ content hc, acc.1.clipboard = s.clipboard.store (env.now offerId) content hc ∧
      storedIds acc.2 = storedIds outcomes ++ [s.clipboard.nextId] ∧
      accepted env last s.clipboard.nextId ((offerId, blobs) :: rest) =
        ⟨s.clipboard.nextId, env.now offerId, content⟩ ::
          accepted env (some content) (s.clipboard.nextId + 1) rest) := by
  intro blobs acc last
  by_cases hempty : blobs.isEmpty
  · have hb : blobs = ∅ := Std.ExtTreeMap.isEmpty_iff.mp hempty
    have hacc : acc = (s.removeOffer offerId, outcomes) := by
      simp only [acc, storeCopy]
      rw [if_pos hempty]
    rw [hacc, hb]
    exact .inl ⟨rfl, rfl, by simp only [accepted, fromBlobs_empty]⟩
  · have hignored (ha : s.clipboard.addGrouped (env.hasher offerId) (env.textHasher offerId)
        (env.now offerId) blobs = (none, s.clipboard)) : acc = (s.removeOffer offerId,
          outcomes ++ [.ignoredDuplicate (duplicateLabel blobs)]) := by
      simp only [acc, storeCopy]
      rw [if_neg hempty]
      simp only [AppState.removeOffer, ha, blobs]
    rcases ClipState.addGrouped_cases (env.hasher offerId) (env.textHasher offerId)
      (env.now offerId) s.clipboard blobs with ⟨hf, ha⟩ | ⟨content, hf, hl, ha⟩ |
        ⟨content, hc, hf, hl, ha⟩
    · rw [hignored ha]
      exact .inl ⟨rfl, by simp [storedIds], by simp only [accepted, hf]⟩
    · rw [hignored ha]
      exact .inl ⟨rfl, by simp [storedIds], by simp only [accepted, hf, last, hl, if_true]⟩
    · have hg : (s.clipboard.store (env.now offerId) content hc).get s.clipboard.nextId =
          some ⟨s.clipboard.nextId, env.now offerId, content⟩ :=
        ClipState.get_eq_some_iff.mpr ⟨List.mem_of_getLast? (ClipState.latest_store hc), rfl⟩
      have hacc : acc = ({ s.removeOffer offerId with
            clipboard := s.clipboard.store (env.now offerId) content hc },
          outcomes ++ [.stored s.clipboard.nextId content.primaryMime]) := by
        simp only [acc, storeCopy]
        rw [if_neg hempty]
        simp only [AppState.removeOffer, ha, hg, blobs]
      rw [hacc]
      exact .inr ⟨content, hc, rfl, by simp [storedIds],
        by simp only [accepted, hf, last, hl, if_false]⟩

theorem storeCopies (env : DrainEnv) (grouped : HashMap Nat Blobs) (order : List Nat)
    (s : AppState) (outcomes : List ReadOutcome) :
    let l := order.map fun offerId => (offerId, grouped[offerId]?.getD ∅)
    let arrivals := accepted env (s.clipboard.latest.map (·.content)) s.clipboard.nextId l
    let acc := order.foldl (storeCopy env grouped) (s, outcomes)
    acc.1.clipboard.entries = Bounded.popWhileOver maxHistory (s.clipboard.entries ++ arrivals) ∧
      acc.1.clipboard.nextId = s.clipboard.nextId + arrivals.length ∧
      storedIds acc.2 = storedIds outcomes ++ arrivals.map (·.id) := by
  induction order generalizing s outcomes with
  | nil => simp [accepted, Bounded.popWhileOver_of_le s.clipboard.valid.bounded]
  | cons offerId order ih =>
    intro l arrivals acc
    have hacc : acc = order.foldl (storeCopy env grouped)
        ((storeCopy env grouped (s, outcomes) offerId).1,
          (storeCopy env grouped (s, outcomes) offerId).2) := rfl
    obtain ⟨hentries, hnext, hids⟩ := ih (storeCopy env grouped (s, outcomes) offerId).1
      (storeCopy env grouped (s, outcomes) offerId).2
    rw [← hacc] at hentries hnext hids
    rcases storeCopy_cases env grouped s outcomes offerId
      (order.map fun offerId => (offerId, grouped[offerId]?.getD ∅)) with
      ⟨hclip, hout, harr⟩ | ⟨content, hc, hclip, hout, harr⟩
    · rw [hclip] at hentries hnext hids
      rw [hout] at hids
      have harrivals : arrivals = _ := harr
      rw [harrivals]
      exact ⟨hentries, hnext, hids⟩
    · rw [hclip, ClipState.latest_store hc] at hentries hnext hids
      rw [hout] at hids
      have harrivals : arrivals = _ := harr
      rw [harrivals]
      refine ⟨?_, ?_, ?_⟩
      · rw [hentries, ClipState.entries_store, Bounded.popWhileOver_popWhileOver_append,
          List.append_assoc]
        rfl
      · rw [hnext, List.length_cons]
        simp only [ClipState.store, Option.map_some]
        omega
      · rw [hids, List.append_assoc]
        rfl

theorem storeCopies_frame (env : DrainEnv) (grouped : HashMap Nat Blobs) (s : AppState)
    (order : List Nat) (acc : AppState × List ReadOutcome)
    (h : ∃ offers clipboard, acc.1 = { s with offers, clipboard, pendingReads := [] }) :
    ∃ offers clipboard, (order.foldl (storeCopy env grouped) acc).1 =
      { s with offers, clipboard, pendingReads := [] } := by
  induction order generalizing acc with
  | nil => exact h
  | cons offerId order ih =>
    obtain ⟨app, outcomes⟩ := acc
    obtain ⟨offers, clipboard, rfl⟩ := h
    apply ih
    simp only [storeCopy]
    split
    · exact ⟨_, _, rfl⟩
    · split
      · split <;> exact ⟨_, _, rfl⟩
      · exact ⟨_, _, rfl⟩

theorem drain_frame (env : DrainEnv) (s : AppState) : ∃ offers clipboard,
    (drainPendingReads env s).1 = { s with offers, clipboard, pendingReads := [] } :=
  storeCopies_frame env _ s _ _ ⟨_, _, rfl⟩

theorem storedIds_groupReads (env : DrainEnv) (reads : List PendingRead) :
    storedIds (groupReads env reads).outcomes = [] := by
  unfold groupReads
  suffices ∀ g : Grouping, storedIds g.outcomes = [] →
      storedIds (reads.foldl (Grouping.read env) g).outcomes = [] from this {} rfl
  induction reads with
  | nil => exact fun _ h => h
  | cons read reads ih =>
    intro g hg
    apply ih
    unfold Grouping.read
    split
    · split <;> split <;> simp [storedIds] <;> simpa [storedIds] using hg
    · simpa [storedIds] using hg

theorem drain_spec (env : DrainEnv) (s : AppState) :
    let acc := drainPendingReads env s
    acc.1.clipboard.entries =
        Bounded.popWhileOver maxHistory (s.clipboard.entries ++ s.arrivals env) ∧
      acc.1.clipboard.nextId = s.clipboard.nextId + (s.arrivals env).length ∧
      storedIds acc.2 = (s.arrivals env).map (·.id) := by
  obtain ⟨hentries, hnext, hids⟩ := storeCopies env (groupReads env s.pendingReads).grouped
    (groupReads env s.pendingReads).order { s with pendingReads := [] }
    (groupReads env s.pendingReads).outcomes
  rw [storedIds_groupReads, List.nil_append] at hids
  exact ⟨hentries, hnext, hids⟩

theorem drain_later (env : DrainEnv) (s : AppState) :
    s.clipboard.Later (drainPendingReads env s).1.clipboard := by
  obtain ⟨hentries, hnext, -⟩ := drain_spec env s
  refine ⟨hnext ▸ Nat.le_add_right _ _, fun hid hget => ?_⟩
  obtain ⟨he, rfl⟩ := ClipState.mem_of_get hget
  rw [hentries] at he
  rcases List.mem_append.mp ((Bounded.popWhileOver_sublist _).subset he) with he | he
  · exact ClipState.get_eq_some_iff.mpr ⟨he, rfl⟩
  · exact absurd hid (Nat.not_lt.mpr (le_id_of_mem_accepted he))

end Uclip
