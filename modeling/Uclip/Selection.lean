import Uclip.LoopLaws

/-!
# One selection, announced and read

The pass in which somebody sets the selection: the compositor announces a new
offer and its types, the handlers ask for the types of `pickMimes`, and the
drain reads one payload for each. What arrives is the one copy those payloads
classify to, unless the last entry already holds it.
-/

namespace Uclip

open Text (Bytes)
open ClipboardContent (fromBlobs)

variable {pass : Pass}

def selectionEvents (offer : Offer) (mimes : List String) : List Event :=
  .dataOffer offer :: (mimes.map (.offer offer ·) ++ [.selection (some offer)])

def payloads (payload : String → Bytes) (mimes : List String) : Blobs :=
  mimes.foldl (fun blobs mime => blobs.insert mime (payload mime)) ∅

/-- The owner of the selection offers `mimes` and answers with `payload`. The
protocol id of a new offer is not the one of an offer we still hold. -/
structure Announces (s : AppState) (pass : Pass) (offer : Offer) (mimes : List String)
    (payload : String → Bytes) : Prop where
  events : pass.events = selectionEvents offer mimes
  pipeOk : ∀ fd, pass.io.pipeOk fd = true
  flushOk : ∀ fd, pass.io.flushOk fd = true
  fresh : ∀ old, s.currentSelection = some old → old.protocolId ≠ offer.protocolId
  answers : ∀ i mime, (pickMimes mimes)[i]? = some mime →
    pass.drain.pipe (s.pipes + i) = .ok (payload mime)

theorem getElem?_payloads (payload : String → Bytes) (mimes : List String) (mime : String) :
    (payloads payload mimes)[mime]? = if mime ∈ mimes then some (payload mime) else none := by
  suffices ∀ blobs : Blobs,
      (mimes.foldl (fun blobs mime => blobs.insert mime (payload mime)) blobs)[mime]? =
        if mime ∈ mimes then some (payload mime) else blobs[mime]? by
    simpa [payloads] using this ∅
  induction mimes with
  | nil => simp
  | cons m mimes ih =>
    intro blobs
    rw [List.foldl_cons, ih, Std.ExtTreeMap.getElem?_insert]
    by_cases hm : m = mime
    · subst hm
      simp
    · simp [hm, Ne.symm hm]

-- ---------------------------------------------------------------------------
-- Dispatch
-- ---------------------------------------------------------------------------

theorem dispatch_offers (io : RequestIo) (s : AppState) (offer : Offer) (mimes : List String) :
    let s' := dispatchPending io s (mimes.map (.offer offer ·))
    s' = { s with offers := s'.offers } ∧
      ∀ data, s.offers[offer.protocolId]? = some data →
        s'.offers[offer.protocolId]? = some ⟨data.mimeTypes ++ mimes⟩ := by
  induction mimes generalizing s with
  | nil => exact ⟨rfl, fun data h => by simpa [dispatchPending] using h⟩
  | cons mime mimes ih =>
    obtain ⟨heq, hdata⟩ := ih (s.pushOfferMime offer.protocolId mime)
    refine ⟨heq, fun data h => ?_⟩
    have hpush : (s.pushOfferMime offer.protocolId mime).offers[offer.protocolId]? =
        some ⟨data.mimeTypes ++ [mime]⟩ := by
      simp [AppState.pushOfferMime, h]
    rw [List.append_cons]
    exact hdata _ hpush

theorem requestMimes_frame (hp : ∀ fd, io.pipeOk fd = true) (offer : Offer)
    (mimes : List String) (s : AppState) :
    ∃ pendingReads requests, mimes.foldl (requestMime io offer) s =
      { s with pendingReads, requests, pipes := s.pipes + mimes.length } := by
  induction mimes generalizing s with
  | nil => exact ⟨_, _, rfl⟩
  | cons mime mimes ih =>
    obtain ⟨reads, requests, h⟩ := ih (requestMime io offer s mime)
    refine ⟨reads, requests, ?_⟩
    rw [List.foldl_cons, h, List.length_cons, requestMime]
    simp only [hp, if_true]
    split <;> simp [AppState.pushPendingRead, AppState.send, Nat.add_assoc, Nat.add_comm 1]

theorem requestMimes_reads (hp : ∀ fd, io.pipeOk fd = true) (hf : ∀ fd, io.flushOk fd = true)
    (offer : Offer) (mimes : List String) (s : AppState) :
    (mimes.foldl (requestMime io offer) s).pendingReads =
      s.pendingReads ++ mimes.mapIdx fun i mime => ⟨s.pipes + i, mime, offer.protocolId⟩ := by
  induction mimes generalizing s with
  | nil => simp
  | cons mime mimes ih =>
    rw [List.foldl_cons, ih, List.mapIdx_cons]
    simp [requestMime, hp, hf, AppState.pushPendingRead, AppState.send, Nat.add_assoc,
      Nat.add_comm 1]

theorem clearOther_frame (s : AppState) (offer : Offer)
    (hfresh : ∀ old, s.currentSelection = some old → old.protocolId ≠ offer.protocolId) :
    ∃ offers requests currentSelection,
      clearOther s offer = { s with offers, requests, currentSelection } ∧
        offers[offer.protocolId]? = s.offers[offer.protocolId]? := by
  unfold clearOther
  cases hsel : s.currentSelection with
  | none => exact ⟨_, _, _, rfl, rfl⟩
  | some old =>
    dsimp only
    split
    · have hne : compare old.protocolId offer.protocolId ≠ .eq :=
        mt Std.LawfulEqOrd.eq_of_compare (hfresh old hsel)
      refine ⟨s.offers.erase old.protocolId, s.requests ++ [.destroyOffer old], none, ?_, ?_⟩
      · simp [AppState.clearSelection, hsel, AppState.removeOffer, AppState.send]
      · simp [Std.ExtTreeMap.getElem?_erase, hne]
    · exact ⟨_, _, _, rfl, rfl⟩

theorem dispatch_selection (h : Announces s pass offer mimes payload) : ∃ offers requests,
    dispatchPending pass.io s pass.events =
      { s with
        offers
        requests
        currentSelection := some offer
        pendingReads := s.pendingReads ++
          (pickMimes mimes).mapIdx fun i mime => ⟨s.pipes + i, mime, offer.protocolId⟩
        pipes := s.pipes + (pickMimes mimes).length } := by
  obtain ⟨heq, hdata⟩ := dispatch_offers pass.io (s.insertOffer offer.protocolId) offer mimes
  have hoffer := hdata {} (by simp [AppState.insertOffer])
  rw [List.nil_append] at hoffer
  generalize hs' : dispatchPending pass.io (s.insertOffer offer.protocolId)
    (mimes.map (.offer offer ·)) = s' at heq hoffer
  have hsel : s'.currentSelection = s.currentSelection := by rw [heq]; rfl
  obtain ⟨offers, requests, currentSelection, hclear, ho⟩ :=
    clearOther_frame s' offer (by rw [hsel]; exact h.fresh)
  have hev : dispatchPending pass.io s pass.events = handleSelection pass.io s' (some offer) := by
    rw [h.events, selectionEvents, ← hs']
    simp [dispatchPending, dispatch]
  have hmimes : ((clearOther s' offer).setSelection offer).offerMimes offer.protocolId =
      some mimes := by
    rw [hclear]
    simp [AppState.offerMimes, AppState.setSelection, ho, hoffer]
  obtain ⟨reads, requests', hframe⟩ := requestMimes_frame h.pipeOk offer
    (pickMimes mimes) ((clearOther s' offer).setSelection offer)
  have hreads := requestMimes_reads h.pipeOk h.flushOk offer (pickMimes mimes)
    ((clearOther s' offer).setSelection offer)
  rw [hframe] at hreads
  dsimp only at hreads
  refine ⟨offers, requests', ?_⟩
  rw [hev, handleSelection]
  simp only [hmimes]
  rw [hframe, hreads, hclear, heq]
  simp only [AppState.setSelection, AppState.insertOffer]

-- ---------------------------------------------------------------------------
-- Drain
-- ---------------------------------------------------------------------------

structure Answered (env : DrainEnv) (offerId : Nat) (payload : String → Bytes)
    (read : PendingRead) : Prop where
  offerId : read.offerId = offerId
  answer : env.pipe read.fd = .ok (payload read.mimeType)
  nonempty : payload read.mimeType ≠ []
  bounded : (payload read.mimeType).length ≤ maxContentBytes

theorem readBounded_of_le {bytes : Bytes} (h : bytes.length ≤ maxContentBytes) :
    readBounded (.ok bytes) = .ok (bytes, false) := by
  rw [readBounded_ok, List.take_of_length_le h, decide_eq_false (Nat.not_lt.mpr h)]

theorem read_answered {read : PendingRead} (h : Answered env offerId payload read)
    (g : Grouping) :
    g.read env read =
      { g with
        order := if offerId ∈ g.grouped then g.order else g.order ++ [offerId]
        grouped := g.grouped.insert offerId
          ((g.grouped[offerId]?.getD ∅).insert read.mimeType (payload read.mimeType)) } := by
  have hempty : (payload read.mimeType).isEmpty = false := by simpa using h.nonempty
  simp [Grouping.read, h.answer, readBounded_of_le h.bounded, hempty, h.offerId]

theorem foldl_read_answered (reads : List PendingRead)
    (h : ∀ read ∈ reads, Answered env offerId payload read) (g : Grouping)
    (hg : offerId ∈ g.grouped) :
    (reads.foldl (Grouping.read env) g).order = g.order ∧
      (reads.foldl (Grouping.read env) g).grouped[offerId]?.getD ∅ =
        (reads.map (·.mimeType)).foldl (fun blobs mime => blobs.insert mime (payload mime))
          (g.grouped[offerId]?.getD ∅) := by
  induction reads generalizing g with
  | nil => exact ⟨rfl, rfl⟩
  | cons read reads ih =>
    have hread := read_answered (h read List.mem_cons_self) g
    obtain ⟨horder, hgrouped⟩ := ih (fun r hr => h r (List.mem_cons_of_mem _ hr))
      (g.read env read) (by rw [hread]; simp)
    rw [List.foldl_cons, horder, hgrouped, hread]
    simp [hg]

theorem copies_answered (reads : List PendingRead)
    (h : ∀ read ∈ reads, Answered env offerId payload read) :
    copies env reads =
      if reads = [] then [] else [(offerId, payloads payload (reads.map (·.mimeType)))] := by
  cases reads with
  | nil => rfl
  | cons read reads =>
    have hread := read_answered (h read List.mem_cons_self) {}
    obtain ⟨horder, hgrouped⟩ := foldl_read_answered reads
      (fun r hr => h r (List.mem_cons_of_mem _ hr)) (Grouping.read env {} read)
      (by rw [hread]; simp)
    have hfirst : (Grouping.read env {} read).order = [offerId] := by
      rw [hread]
      simp
    rw [copies, groupReads, List.foldl_cons, horder, hfirst, if_neg (List.cons_ne_nil read reads),
      List.map_cons, List.map_nil, hgrouped, hread]
    simp [payloads]

theorem arrivals_selection (h : Announces s pass offer mimes payload) (hidle : s.pendingReads = [])
    (hne : ∀ mime ∈ pickMimes mimes, payload mime ≠ [])
    (hle : ∀ mime ∈ pickMimes mimes, (payload mime).length ≤ maxContentBytes) :
    (dispatchPending pass.io s pass.events).arrivals pass.drain =
      match fromBlobs (pass.drain.hasher offer.protocolId) (pass.drain.textHasher offer.protocolId)
          (payloads payload (pickMimes mimes)) with
      | none => []
      | some content =>
        if s.clipboard.latest.map (·.content) = some content then []
        else [⟨s.clipboard.nextId, pass.drain.now offer.protocolId, content⟩] := by
  have hreads : (dispatchPending pass.io s pass.events).pendingReads =
      (pickMimes mimes).mapIdx fun i mime => ⟨s.pipes + i, mime, offer.protocolId⟩ := by
    obtain ⟨_, _, hdispatch⟩ := dispatch_selection h
    rw [hdispatch, hidle]
    rfl
  have hans : ∀ read ∈ (pickMimes mimes).mapIdx fun i mime =>
      PendingRead.mk (s.pipes + i) mime offer.protocolId,
      Answered pass.drain offer.protocolId payload read := by
    intro read hread
    obtain ⟨i, hi, rfl⟩ := List.mem_mapIdx.mp hread
    have hmem := List.getElem_mem hi
    exact ⟨rfl, h.answers i _ (List.getElem?_eq_getElem hi), hne _ hmem, hle _ hmem⟩
  have hmimes : ((pickMimes mimes).mapIdx fun i mime =>
      PendingRead.mk (s.pipes + i) mime offer.protocolId).map (·.mimeType) = pickMimes mimes :=
    List.ext_getElem (by simp) (by simp)
  rw [AppState.arrivals, hreads, copies_answered _ hans, hmimes, dispatchPending_clipboard]
  by_cases hnil : pickMimes mimes = []
  · simp only [hnil, List.mapIdx_nil, if_true, accepted, payloads, List.foldl_nil, fromBlobs_empty]
  · rw [if_neg (by simpa using hnil)]
    cases hf : fromBlobs (pass.drain.hasher offer.protocolId)
      (pass.drain.textHasher offer.protocolId) (payloads payload (pickMimes mimes)) with
    | none => simp only [accepted, hf]
    | some content => simp only [accepted, hf]

/-- The pass in which a client copies: it offers `mimes` and answers with
`payload`. The first fresh pipe is `fd`. -/
def copyPass (fd : Fd) (offer : Offer) (mimes : List String) (payload : String → Bytes) :
    Pass where
  events := selectionEvents offer mimes
  drain :=
    { pipe := fun read => .ok (((pickMimes mimes)[read - fd]?.map payload).getD [])
      hasher := fun _ => .sorted
      textHasher := fun _ => .sorted
      now := fun _ => 0 }

theorem announces_copyPass {s : AppState}
    (hfresh : ∀ old, s.currentSelection = some old → old.protocolId ≠ offer.protocolId) :
    Announces s (copyPass s.pipes offer mimes payload) offer mimes payload :=
  ⟨rfl, fun _ => rfl, fun _ => rfl, hfresh, fun i mime h => by
    simp [copyPass, h]⟩

def restorePass (pending : PendingRestore) : Pass where
  drain := (copyPass 0 ⟨0, 0⟩ [] fun _ => []).drain
  requests := [(pending, .sorted, .sorted)]

end Uclip
