import Mathlib.Data.List.Induction
import Uclip.DrainLaws

/-!
# The reference of a drain

What a drain should do, without its loops: which offer ids delivered a payload
and in which order, the last payload each delivered under each type, one add per
such id. `drain_matches_reference` says that `drainPendingReads` does exactly
that, and that it reads every pipe of the queue once.
-/

namespace Uclip

open Text (Bytes)

-- ---------------------------------------------------------------------------
-- The reference
-- ---------------------------------------------------------------------------

/-- What a read delivers: nothing when it fails or the stream is empty. -/
def refPayload (env : DrainEnv) (read : PendingRead) : Option Bytes :=
  match env.pipe read.fd with
  | .ok stream => if stream = [] then none else some (stream.take maxContentBytes)
  | .error _ => none

/-- The offer ids that delivered a payload, by their first one. -/
def refOrder (env : DrainEnv) (reads : List PendingRead) : List Nat :=
  ((reads.filter fun read => (refPayload env read).isSome).map (·.offerId)).eraseDups

/-- The last payload of one type that one offer id delivered. -/
def refBlob (env : DrainEnv) (reads : List PendingRead) (offerId : Nat) (mime : String) :
    Option Bytes :=
  ((reads.filter fun read => read.offerId = offerId ∧ read.mimeType = mime).filterMap
    (refPayload env)).getLast?

def refOutcome (env : DrainEnv) (read : PendingRead) : Option ReadOutcome :=
  match env.pipe read.fd with
  | .ok stream =>
    if maxContentBytes < stream.length then
      some (.truncated read.mimeType (maxContentBytes + 1))
    else none
  | .error error => some (.readError read.mimeType error)

def addOutcome (blobs : Blobs) : Option Nat × ClipState → ReadOutcome
  | (some entryId, clipboard) =>
    .stored entryId ((clipboard.latest.map (·.content.primaryMime)).getD "")
  | (none, _) => .ignoredDuplicate (duplicateLabel blobs)

def refAdds (env : DrainEnv) (blobs : Nat → Blobs) (clipboard : ClipState) :
    List Nat → ClipState × List ReadOutcome
  | [] => (clipboard, [])
  | offerId :: order =>
    let added := clipboard.addGrouped (env.hasher offerId) (env.textHasher offerId)
      (env.now offerId) (blobs offerId)
    let rest := refAdds env blobs added.2 order
    (rest.1, addOutcome (blobs offerId) added :: rest.2)

/-- The read loop over pipes that can be read once: a read takes its pipe, and
from a pipe that was taken it gets an error. -/
def readOnce (env : DrainEnv) (acc : Grouping × (Fd → Option (Except String Bytes)))
    (read : PendingRead) : Grouping × (Fd → Option (Except String Bytes)) :=
  (acc.1.read { env with pipe := fun fd => (acc.2 fd).getD (.error "Bad file descriptor") } read,
    fun fd => if fd = read.fd then none else acc.2 fd)

structure MatchesReference (env : DrainEnv) (s s' : AppState) (outcomes : List ReadOutcome) :
    Prop where
  queue : s'.pendingReads = []
  /-- A descriptor has one owner, so the queue names it once. -/
  consumed : (s.pendingReads.map (·.fd)).Nodup →
    s.pendingReads.foldl (readOnce env) ({}, fun fd => some (env.pipe fd)) =
      (groupReads env s.pendingReads,
        fun fd => if fd ∈ s.pendingReads.map (·.fd) then none else some (env.pipe fd))
  adds : ∃ blobs : Nat → Blobs,
    (∀ offerId mime, (blobs offerId)[mime]? = refBlob env s.pendingReads offerId mime) ∧
    s'.clipboard = (refAdds env blobs s.clipboard (refOrder env s.pendingReads)).1 ∧
    outcomes = s.pendingReads.filterMap (refOutcome env) ++
      (refAdds env blobs s.clipboard (refOrder env s.pendingReads)).2

-- ---------------------------------------------------------------------------
-- One read
-- ---------------------------------------------------------------------------

variable {env : DrainEnv} {read : PendingRead} {reads : List PendingRead}

theorem read_of_none (g : Grouping) (h : refPayload env read = none) :
    g.read env read = { g with outcomes := g.outcomes ++ (refOutcome env read).toList } := by
  unfold Grouping.read refOutcome
  unfold refPayload at h
  cases hp : env.pipe read.fd with
  | error error => rfl
  | ok stream =>
    rw [hp] at h
    obtain rfl : stream = [] := by simpa using h
    simp [readBounded_ok]

theorem read_of_some (g : Grouping) (h : refPayload env read = some buf) :
    g.read env read =
      { outcomes := g.outcomes ++ (refOutcome env read).toList
        order := if read.offerId ∈ g.grouped then g.order else g.order ++ [read.offerId]
        grouped := g.grouped.insert read.offerId
          ((g.grouped[read.offerId]?.getD ∅).insert read.mimeType buf) } := by
  unfold Grouping.read refOutcome
  unfold refPayload at h
  cases hp : env.pipe read.fd with
  | error error =>
    rw [hp] at h
    cases h
  | ok stream =>
    rw [hp] at h
    obtain ⟨hne, rfl⟩ : stream ≠ [] ∧ stream.take maxContentBytes = buf := by simpa using h
    have hempty : (stream.take maxContentBytes).isEmpty = false := by
      simp [hne, maxContentBytes]
    by_cases hlong : maxContentBytes < stream.length <;> simp [readBounded_ok, hempty, hlong]

structure Groups (env : DrainEnv) (reads : List PendingRead) (g : Grouping) : Prop where
  outcomes : g.outcomes = reads.filterMap (refOutcome env)
  order : g.order = refOrder env reads
  keys : ∀ offerId, offerId ∈ g.grouped ↔ offerId ∈ refOrder env reads
  blobs : ∀ offerId mime,
    (g.grouped[offerId]?.getD ∅)[mime]? = refBlob env reads offerId mime

theorem refOrder_snoc (env : DrainEnv) (reads : List PendingRead) (read : PendingRead) :
    refOrder env (reads ++ [read]) =
      if (refPayload env read).isSome ∧ read.offerId ∉ refOrder env reads then
        refOrder env reads ++ [read.offerId]
      else refOrder env reads := by
  unfold refOrder
  rw [List.filter_append, List.map_append]
  cases h : refPayload env read with
  | none => simp [h]
  | some buf =>
    rw [List.filter_cons_of_pos (by simp [h]), List.filter_nil, List.map_singleton,
      StableSort.eraseDups_snoc, ← ite_not, Option.isSome_some]
    simp only [true_and]

theorem refBlob_snoc (env : DrainEnv) (reads : List PendingRead) (read : PendingRead)
    (offerId : Nat) (mime : String) :
    refBlob env (reads ++ [read]) offerId mime =
      if read.offerId = offerId ∧ read.mimeType = mime then
        (refPayload env read).or (refBlob env reads offerId mime)
      else refBlob env reads offerId mime := by
  unfold refBlob
  rw [List.filter_append, List.filterMap_append, List.getLast?_append]
  by_cases h : read.offerId = offerId ∧ read.mimeType = mime
  · rw [if_pos h, List.filter_cons_of_pos (by simpa using h)]
    cases hp : refPayload env read <;> simp [hp]
  · rw [if_neg h, List.filter_cons_of_neg (by simpa using h)]
    simp

theorem groups_snoc {g : Grouping} (h : Groups env reads g) (read : PendingRead) :
    Groups env (reads ++ [read]) (g.read env read) := by
  have houtcomes : g.outcomes ++ (refOutcome env read).toList =
      (reads ++ [read]).filterMap (refOutcome env) := by
    rw [h.outcomes, List.filterMap_append]
    cases hr : refOutcome env read <;> simp [hr]
  cases hp : refPayload env read with
  | none =>
    rw [read_of_none g hp]
    refine ⟨houtcomes, ?_, ?_, ?_⟩
    · rw [refOrder_snoc, hp]
      simpa using h.order
    · rw [refOrder_snoc, hp]
      simpa using h.keys
    · intro offerId mime
      rw [refBlob_snoc, hp, Option.none_or, ite_self]
      exact h.blobs offerId mime
  | some buf =>
    rw [read_of_some g hp]
    refine ⟨houtcomes, ?_, ?_, ?_⟩
    · rw [refOrder_snoc, hp, h.order]
      by_cases hmem : read.offerId ∈ refOrder env reads <;> simp [h.keys, hmem]
    · intro offerId
      rw [refOrder_snoc, hp, Std.ExtTreeMap.mem_insert, h.keys, Std.LawfulEqOrd.compare_eq_iff_eq]
      by_cases hmem : read.offerId ∈ refOrder env reads
      · simp only [hmem, not_true_eq_false, and_false, if_false, or_iff_right_iff_imp]
        rintro rfl
        exact hmem
      · simp [hmem, or_comm, eq_comm]
    · intro offerId mime
      rw [refBlob_snoc, hp, Option.some_or, Std.ExtTreeMap.getElem?_insert]
      simp only [Std.LawfulEqOrd.compare_eq_iff_eq]
      by_cases hid : read.offerId = offerId
      · subst hid
        rw [if_pos rfl, Option.getD_some, Std.ExtTreeMap.getElem?_insert, h.blobs]
        simp
      · rw [if_neg hid, if_neg (fun hboth => hid hboth.1), h.blobs]

theorem groups_groupReads (env : DrainEnv) (reads : List PendingRead) :
    Groups env reads (groupReads env reads) := by
  induction reads using List.reverseRecOn with
  | nil => exact ⟨rfl, rfl, by simp [groupReads, refOrder], by simp [groupReads, refBlob]⟩
  | append_singleton reads read ih =>
    rw [groupReads, List.foldl_append]
    exact groups_snoc ih read

theorem mem_refOrder : offerId ∈ refOrder env reads ↔
    ∃ read ∈ reads, read.offerId = offerId ∧ (refPayload env read).isSome := by
  simp only [refOrder, List.mem_eraseDups, List.mem_map, List.mem_filter]
  exact exists_congr fun read => ⟨fun h => ⟨h.1.1, h.2, h.1.2⟩, fun h => ⟨⟨h.1, h.2.2⟩, h.2.1⟩⟩

theorem blobs_ne_empty {blobs : Blobs} (h : offerId ∈ refOrder env reads)
    (hb : ∀ mime : String, blobs[mime]? = refBlob env reads offerId mime) : blobs ≠ ∅ := by
  obtain ⟨read, hread, rfl, hsome⟩ := mem_refOrder.mp h
  rintro rfl
  have hnone := hb read.mimeType
  rw [Std.ExtTreeMap.getElem?_empty, refBlob, eq_comm, List.getLast?_eq_none_iff,
    List.filterMap_eq_nil_iff] at hnone
  rw [hnone read (List.mem_filter.mpr ⟨hread, by simp⟩)] at hsome
  cases hsome

-- ---------------------------------------------------------------------------
-- One add per copy
-- ---------------------------------------------------------------------------

theorem storeCopy_eq {grouped : HashMap Nat Blobs} (s : AppState) (outcomes : List ReadOutcome)
    (h : grouped[offerId]?.getD ∅ ≠ ∅) :
    storeCopy env grouped (s, outcomes) offerId =
      let added := s.clipboard.addGrouped (env.hasher offerId) (env.textHasher offerId)
        (env.now offerId) (grouped[offerId]?.getD ∅)
      ({ s.removeOffer offerId with clipboard := added.2 },
        outcomes ++ [addOutcome (grouped[offerId]?.getD ∅) added]) := by
  have hempty : ¬ (grouped[offerId]?.getD ∅).isEmpty := mt Std.ExtTreeMap.isEmpty_iff.mp h
  simp only [storeCopy, if_neg hempty, AppState.removeOffer]
  rcases ClipState.addGrouped_cases (env.hasher offerId) (env.textHasher offerId)
    (env.now offerId) s.clipboard (grouped[offerId]?.getD ∅) with
    ⟨-, ha⟩ | ⟨_, -, -, ha⟩ | ⟨content, hc, -, -, ha⟩
  · simp only [ha, addOutcome]
  · simp only [ha, addOutcome]
  · have hlatest : (s.clipboard.store (env.now offerId) content hc).latest =
        some ⟨s.clipboard.nextId, env.now offerId, content⟩ := ClipState.latest_store hc
    have hget : (s.clipboard.store (env.now offerId) content hc).get s.clipboard.nextId =
        some ⟨s.clipboard.nextId, env.now offerId, content⟩ :=
      ClipState.get_eq_some_iff.mpr ⟨List.mem_of_getLast? hlatest, rfl⟩
    simp only [ha, hget, addOutcome, hlatest, Option.map_some, Option.getD_some]

theorem foldl_storeCopy (env : DrainEnv) {grouped : HashMap Nat Blobs} (order : List Nat)
    (h : ∀ offerId ∈ order, grouped[offerId]?.getD ∅ ≠ ∅) (s : AppState)
    (outcomes : List ReadOutcome) :
    let adds := refAdds env (fun offerId => grouped[offerId]?.getD ∅) s.clipboard order
    (order.foldl (storeCopy env grouped) (s, outcomes)).1.clipboard = adds.1 ∧
      (order.foldl (storeCopy env grouped) (s, outcomes)).2 = outcomes ++ adds.2 := by
  induction order generalizing s outcomes with
  | nil => simp [refAdds]
  | cons offerId order ih =>
    rw [List.foldl_cons, storeCopy_eq s outcomes (h offerId List.mem_cons_self)]
    obtain ⟨hclip, hout⟩ := ih (fun id hid => h id (List.mem_cons_of_mem _ hid)) _ _
    refine ⟨hclip, hout.trans ?_⟩
    simp [refAdds]

-- ---------------------------------------------------------------------------
-- The drain
-- ---------------------------------------------------------------------------

theorem foldl_readOnce (env : DrainEnv) (reads : List PendingRead)
    (hn : (reads.map (·.fd)).Nodup) (g : Grouping) (pipes : Fd → Option (Except String Bytes))
    (hopen : ∀ read ∈ reads, pipes read.fd = some (env.pipe read.fd)) :
    reads.foldl (readOnce env) (g, pipes) = (reads.foldl (Grouping.read env) g,
      fun fd => if fd ∈ reads.map (·.fd) then none else pipes fd) := by
  induction reads generalizing g pipes with
  | nil => simp
  | cons read reads ih =>
    obtain ⟨hnot, hn⟩ := List.nodup_cons.mp hn
    have hread : readOnce env (g, pipes) read =
        (g.read env read, fun fd => if fd = read.fd then none else pipes fd) := by
      simp [readOnce, Grouping.read, hopen read List.mem_cons_self]
    rw [List.foldl_cons, hread, ih hn, List.foldl_cons]
    · congr 1
      funext fd
      by_cases hfd : fd = read.fd <;> simp [hfd]
    · intro r hr
      have hne : r.fd ≠ read.fd := fun h => hnot (List.mem_map.mpr ⟨r, hr, h⟩)
      rw [if_neg hne]
      exact hopen r (List.mem_cons_of_mem _ hr)

theorem drain_matches_reference (env : DrainEnv) (s : AppState) :
    MatchesReference env s (drainPendingReads env s).1 (drainPendingReads env s).2 := by
  have hg := groups_groupReads env s.pendingReads
  have horder : ∀ offerId ∈ (groupReads env s.pendingReads).order,
      (groupReads env s.pendingReads).grouped[offerId]?.getD ∅ ≠ ∅ := by
    intro offerId hid
    rw [hg.order] at hid
    exact blobs_ne_empty hid (hg.blobs offerId)
  obtain ⟨hclip, hout⟩ := foldl_storeCopy env _ horder
    { s with pendingReads := [] } (groupReads env s.pendingReads).outcomes
  rw [hg.order] at hclip hout
  refine ⟨?_, fun hn => ?_, _, hg.blobs, ?_, ?_⟩
  · obtain ⟨_, _, hframe⟩ := drain_frame env s
    rw [hframe]
  · exact foldl_readOnce env s.pendingReads hn {} _ fun _ _ => rfl
  · rw [drainPendingReads, hg.order]
    exact hclip
  · rw [drainPendingReads, hg.order, ← hg.outcomes]
    exact hout

end Uclip
