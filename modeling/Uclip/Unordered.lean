import Uclip.HashOrder
import Uclip.Passes
import Uclip.Published
import Uclip.Selection

/-!
# Runs and the order of the hash maps

The seeds of the hash maps are no input of the daemon, yet they choose the order
its maps are iterated in. As long as no copy has two unlisted text types, two
runs that differ in these orders alone stay the same in all that is kept and
told, and send the same requests, but for the order of the offered types and the
payloads of the missing aliases.
-/

namespace Uclip

open Text (Bytes)
open ClipboardContent (fromBlobs)

variable {s s' : AppState} {io : RequestIo}

-- ---------------------------------------------------------------------------
-- Requests are only written
-- ---------------------------------------------------------------------------

def AppState.withRequests (s : AppState) (requests : List Request) : AppState :=
  { s with requests }

@[simp] theorem withRequests_withRequests (s : AppState) (requests more : List Request) :
    (s.withRequests requests).withRequests more = s.withRequests more := rfl

/-- What the function does and sends does not depend on what was sent. -/
def WriteOnly (f : AppState → AppState) : Prop :=
  ∀ s, ∃ sent, ∀ requests, f (s.withRequests requests) = (f s).withRequests (requests ++ sent)

theorem WriteOnly.quiet {f : AppState → AppState}
    (h : ∀ s requests, f (s.withRequests requests) = (f s).withRequests requests) : WriteOnly f :=
  fun s => ⟨[], fun requests => by rw [List.append_nil, h]⟩

theorem WriteOnly.comp {f g : AppState → AppState} (hg : WriteOnly g) (hf : WriteOnly f) :
    WriteOnly (g ∘ f) := by
  intro s
  obtain ⟨sent, hsent⟩ := hf s
  obtain ⟨more, hmore⟩ := hg (f s)
  refine ⟨sent ++ more, fun requests => ?_⟩
  rw [Function.comp, hsent, hmore, List.append_assoc, Function.comp]

theorem WriteOnly.foldl {f : AppState → α → AppState} (hf : ∀ a, WriteOnly (f · a)) (l : List α) :
    WriteOnly fun s => l.foldl f s := by
  induction l with
  | nil => exact .quiet fun _ _ => rfl
  | cons a l ih => exact ih.comp (hf a)

theorem writeOnly_clearSelection : WriteOnly AppState.clearSelection := by
  rintro ⟨_, _, _, _, _, _ | old, _, _, _, _, _⟩
  · exact ⟨[], fun requests => by rw [List.append_nil]; rfl⟩
  · exact ⟨[.destroyOffer old], fun _ => rfl⟩

theorem writeOnly_requestMime (io : RequestIo) (offer : Offer) (mime : String) :
    WriteOnly (requestMime io offer · mime) := by
  intro s
  have hpipes (requests : List Request) : (s.withRequests requests).pipes = s.pipes := rfl
  by_cases hpipe : io.pipeOk s.pipes
  · refine ⟨[.receive offer mime s.pipes], fun _ => ?_⟩
    by_cases hflush : io.flushOk s.pipes <;> simp only [requestMime, hpipes, hpipe, hflush] <;> rfl
  · refine ⟨[], fun requests => ?_⟩
    simp only [requestMime, hpipes, hpipe, List.append_nil]
    rfl

theorem writeOnly_clearOther (offer : Offer) : WriteOnly (clearOther · offer) := by
  intro s
  have hsel (requests : List Request) :
      (s.withRequests requests).currentSelection = s.currentSelection := rfl
  cases h : s.currentSelection with
  | none => exact ⟨[], fun requests => by simp [clearOther, hsel, h]⟩
  | some old =>
    by_cases hne : old ≠ offer
    · obtain ⟨sent, hsent⟩ := writeOnly_clearSelection s
      exact ⟨sent, fun requests => by simp [clearOther, hsel, h, hne, hsent]⟩
    · exact ⟨[], fun _ => by simp [clearOther, hsel, h, hne]⟩

theorem writeOnly_handleSelection (io : RequestIo) (offer : Option Offer) :
    WriteOnly (handleSelection io · offer) := by
  cases offer with
  | none => exact writeOnly_clearSelection
  | some offer =>
    have hask : WriteOnly fun s => (s.offerMimes offer.protocolId).elim s fun mimes =>
        (pickMimes mimes).foldl (requestMime io offer) s := by
      intro s
      have hmimes (requests : List Request) :
          (s.withRequests requests).offerMimes offer.protocolId =
            s.offerMimes offer.protocolId := rfl
      cases h : s.offerMimes offer.protocolId with
      | none => exact ⟨[], fun _ => by simp [hmimes, h]⟩
      | some mimes =>
        obtain ⟨sent, hsent⟩ := WriteOnly.foldl (writeOnly_requestMime io offer)
          (pickMimes mimes) s
        refine ⟨sent, fun requests => ?_⟩
        simpa only [hmimes, h, Option.elim_some] using hsent requests
    have hset : WriteOnly (AppState.setSelection · offer) := .quiet fun _ _ => rfl
    have hparts := (hask.comp hset).comp (writeOnly_clearOther offer)
    refine fun s => (hparts s).imp fun sent hsent requests => ?_
    have hsame (s : AppState) : handleSelection io s (some offer) =
        (((clearOther s offer).setSelection offer).offerMimes offer.protocolId).elim
          ((clearOther s offer).setSelection offer) fun mimes =>
            (pickMimes mimes).foldl (requestMime io offer)
              ((clearOther s offer).setSelection offer) := by
      unfold handleSelection
      dsimp only
      split <;> simp [*]
    simp only [hsame]
    exact hsent requests

theorem writeOnly_dispatch (io : RequestIo) (event : Event) : WriteOnly (dispatch io · event) := by
  cases event with
  | global interface object =>
    refine .quiet fun s requests => ?_
    simp only [dispatch]
    split
    · rfl
    · split <;> rfl
  | selection offer => exact writeOnly_handleSelection io offer
  | finished =>
    exact writeOnly_clearSelection.comp (f := AppState.clearDevice) (.quiet fun _ _ => rfl)
  | cancelled source =>
    intro s
    dsimp only
    by_cases hcur : s.currentSource = some source
    · refine ⟨[.destroySource source], fun requests => ?_⟩
      rw [dispatch_cancelled io hcur, dispatch_cancelled io (s := s.withRequests requests) hcur]
      rfl
    · refine ⟨[], fun requests => ?_⟩
      rw [dispatch_cancelled_of_ne io hcur,
        dispatch_cancelled_of_ne io (s := s.withRequests requests) hcur, List.append_nil]
  | _ => exact .quiet fun _ _ => rfl

theorem writeOnly_dispatchPending (io : RequestIo) (events : List Event) :
    WriteOnly (dispatchPending io · events) :=
  WriteOnly.foldl (writeOnly_dispatch io) events

-- ---------------------------------------------------------------------------
-- The drain
-- ---------------------------------------------------------------------------

structure SameReads (env env' : DrainEnv) : Prop where
  pipe : env'.pipe = env.pipe
  now : env'.now = env.now

theorem groupReads_same {env env' : DrainEnv} (h : SameReads env env') (reads : List PendingRead) :
    groupReads env' reads = groupReads env reads := by
  have hread : Grouping.read env' = Grouping.read env := by
    funext g read
    simp only [Grouping.read, h.pipe]
  rw [groupReads, groupReads, hread]

theorem addGrouped_of_none {blobs : Blobs} {c : ClipState} {now : SystemTime}
    (h : fromBlobs hasher textHasher blobs = none) :
    c.addGrouped hasher textHasher now blobs = (none, c) := by
  rcases ClipState.addGrouped_cases hasher textHasher now c blobs with
    ⟨-, ha⟩ | ⟨_, hf, -, -⟩ | ⟨_, _, hf, -, -⟩
  · exact ha
  · cases h.symm.trans hf
  · cases h.symm.trans hf

theorem addGrouped_of_some {blobs : Blobs} {c : ClipState} {now : SystemTime}
    {content : ClipboardContent} (h : fromBlobs hasher textHasher blobs = some content) :
    c.addGrouped hasher textHasher now blobs =
      if c.latest.map (·.content) = some content then (none, c)
      else (some c.nextId,
        c.store now content (ClipboardContent.classified_fromBlobs h)) := by
  rcases ClipState.addGrouped_cases hasher textHasher now c blobs with
    ⟨hf, -⟩ | ⟨_, hf, hl, ha⟩ | ⟨_, _, hf, hl, ha⟩
  · cases h.symm.trans hf
  · cases h.symm.trans hf
    rw [if_pos hl, ha]
  · cases h.symm.trans hf
    rw [if_neg hl, ha]

theorem addGrouped_same {blobs : Blobs} (h : SameContent blobs)
    (hasher textHasher hasher' textHasher' : Hasher String Bytes) (now : SystemTime)
    (c : ClipState) :
    c.addGrouped hasher' textHasher' now blobs = c.addGrouped hasher textHasher now blobs := by
  cases hf : fromBlobs hasher textHasher blobs with
  | none =>
    have hf' := (h hasher' textHasher' hasher textHasher).trans hf
    rw [addGrouped_of_none hf, addGrouped_of_none hf']
  | some content =>
    have hf' := (h hasher' textHasher' hasher textHasher).trans hf
    rw [addGrouped_of_some hf, addGrouped_of_some hf']

theorem storeCopy_same {env env' : DrainEnv} (h : SameReads env env') (grouped : HashMap Nat Blobs)
    (acc : AppState × List ReadOutcome) {offerId : Nat}
    (hone : SameContent (grouped[offerId]?.getD ∅)) :
    storeCopy env' grouped acc offerId = storeCopy env grouped acc offerId := by
  obtain ⟨s, outcomes⟩ := acc
  simp only [storeCopy, h.now, addGrouped_same hone (env.hasher offerId) (env.textHasher offerId)
    (env'.hasher offerId) (env'.textHasher offerId)]

/-- A drain of copies with one unlisted type each depends on no order. -/
theorem drain_same {env env' : DrainEnv} (h : SameReads env env') (s : AppState)
    (hone : ∀ copy ∈ copies env s.pendingReads, OneUnlisted copy.2) :
    drainPendingReads env' s = drainPendingReads env s := by
  unfold drainPendingReads
  rw [groupReads_same h]
  refine List.foldl_ext _ _ _ fun acc offerId hid => ?_
  refine storeCopy_same h _ acc (sameContent_of_oneUnlisted (hone (offerId, _) ?_))
  exact List.mem_map.mpr ⟨offerId, hid, rfl⟩

theorem storeCopy_withRequests (env : DrainEnv) (grouped : HashMap Nat Blobs) (s : AppState)
    (outcomes : List ReadOutcome) (offerId : Nat) (requests : List Request) :
    storeCopy env grouped (s.withRequests requests, outcomes) offerId =
      ((storeCopy env grouped (s, outcomes) offerId).1.withRequests requests,
        (storeCopy env grouped (s, outcomes) offerId).2) := by
  simp only [storeCopy]
  split
  · rfl
  · have hclip : ((s.withRequests requests).removeOffer offerId).clipboard =
        (s.removeOffer offerId).clipboard := rfl
    rw [hclip]
    split
    · split <;> rfl
    · rfl

theorem drain_withRequests (env : DrainEnv) (s : AppState) (requests : List Request) :
    drainPendingReads env (s.withRequests requests) =
      ((drainPendingReads env s).1.withRequests requests, (drainPendingReads env s).2) := by
  suffices ∀ (order : List Nat) grouped (s : AppState) outcomes,
      order.foldl (storeCopy env grouped) (s.withRequests requests, outcomes) =
        ((order.foldl (storeCopy env grouped) (s, outcomes)).1.withRequests requests,
          (order.foldl (storeCopy env grouped) (s, outcomes)).2) from
    this (groupReads env s.pendingReads).order (groupReads env s.pendingReads).grouped
      { s with pendingReads := [] } (groupReads env s.pendingReads).outcomes
  intro order grouped
  induction order with
  | nil => exact fun _ _ => rfl
  | cons offerId order ih =>
    intro s outcomes
    rw [List.foldl_cons, storeCopy_withRequests]
    exact ih _ _

-- ---------------------------------------------------------------------------
-- Two daemons
-- ---------------------------------------------------------------------------

/-- A restore of the content sends these, under the orders of its two maps. -/
def publication (source : Source) (old : Option Source) (content : ClipboardContent)
    (hasher offerHasher : Hasher String Bytes) : List Request :=
  let contents := AppState.sourceContents hasher content
  AppState.publishRequests source contents (offerHasher.keys contents) old

/-- The requests are the same, but each restore published the one content under
its own orders. -/
inductive Reordered : List Request → List Request → Prop
  | nil : Reordered [] []
  | sent {before before'} (requests : List Request) :
      Reordered before before' → Reordered (before ++ requests) (before' ++ requests)
  | published {before before'} (source : Source) (old : Option Source)
      (content : ClipboardContent) (hasher offerHasher hasher' offerHasher' : Hasher String Bytes) :
      Reordered before before' →
      Reordered (before ++ publication source old content hasher offerHasher)
        (before' ++ publication source old content hasher' offerHasher')

def Daemon.withRequests (d : Daemon) (requests : List Request) : Daemon :=
  { d with app := d.app.withRequests requests }

/-- The daemons are the same but for what the orders chose of the requests. -/
def Alike (d d' : Daemon) : Prop :=
  ∃ requests, d' = d.withRequests requests ∧ Reordered d.app.requests requests

variable (clock : Clock) {d d' : Daemon}

theorem outcome_withRequests (d : Daemon) (requests : List Request) (outcome : ReadOutcome) :
    (d.withRequests requests).outcome clock outcome =
      (d.outcome clock outcome).withRequests requests := by
  cases outcome with
  | stored entryId mime =>
    cases hget : d.app.clipboard.get entryId with
    | none =>
      rw [outcome_of_get_none clock hget,
        outcome_of_get_none clock (d := d.withRequests requests) hget]
      rfl
    | some e =>
      rw [outcome_of_get_some clock hget,
        outcome_of_get_some clock (d := d.withRequests requests) hget]
      change (if isEcho (clock.reading (d.ticks + 1)) d.expectEcho e.preview = true
        then _ else _) = _
      split <;> rfl
  | _ => rfl

theorem restoreEntry_error_same {s : AppState} {err : ClipboardError}
    (h : s.restoreEntry hasher offerHasher entryId = .error err)
    (hasher' offerHasher' : Hasher String Bytes) (requests : List Request) :
    (s.withRequests requests).restoreEntry hasher' offerHasher' entryId = .error err := by
  have hclip : (s.withRequests requests).clipboard = s.clipboard := rfl
  have hmanager : (s.withRequests requests).manager = s.manager := rfl
  have hdevice : (s.withRequests requests).device = s.device := rfl
  unfold AppState.restoreEntry at h ⊢
  rw [hclip, hmanager, hdevice]
  cases hget : s.clipboard.get entryId with
  | none => simpa [hget] using h
  | some entry =>
    cases hm : s.manager with
    | none => simpa [hget, hm] using h
    | some manager =>
      cases hd : s.device with
      | none => simpa [hget, hm, hd] using h
      | some device => simp [hget, hm, hd] at h

theorem Alike.handleRestore (h : Alike d d')
    (hasher offerHasher hasher' offerHasher' : Hasher String Bytes) (pending : PendingRestore) :
    Alike (d.handleRestore clock hasher offerHasher pending)
      (d'.handleRestore clock hasher' offerHasher' pending) := by
  obtain ⟨requests, rfl, hsame⟩ := h
  cases hres : d.app.restoreEntry hasher offerHasher pending.entryId with
  | error err =>
    have hres' := restoreEntry_error_same hres hasher' offerHasher' requests
    refine ⟨requests, ?_, ?_⟩
    · simp only [Daemon.handleRestore, Daemon.withRequests, hres, hres']
    · simpa only [Daemon.handleRestore, hres] using hsame
  | ok app =>
    obtain ⟨entry, hget, hmanager, hdevice, rfl⟩ := AppState.restoreEntry_eq_ok hres
    have hres' : (d.app.withRequests requests).restoreEntry hasher' offerHasher' pending.entryId =
        .ok _ := AppState.restoreEntry_of_get hget hmanager hdevice
    refine ⟨requests ++ publication d.app.created d.app.currentSource entry.content
      hasher' offerHasher', ?_, ?_⟩
    · simp only [Daemon.handleRestore, Daemon.withRequests, hres, hres', AppState.publish_eq]
      rfl
    · simp only [Daemon.handleRestore, hres, AppState.publish_eq]
      exact hsame.published ..

-- ---------------------------------------------------------------------------
-- Passes
-- ---------------------------------------------------------------------------

structure SameInput (pass pass' : Pass) : Prop where
  events : pass'.events = pass.events
  io : pass'.io = pass.io
  reads : SameReads pass.drain pass'.drain
  requests : pass'.requests.map (·.1) = pass.requests.map (·.1)

def OneUnlistedPass (d : Daemon) (pass : Pass) : Prop :=
  ∀ copy ∈ copies pass.drain (d.dispatched pass).app.pendingReads, OneUnlisted copy.2

def unlistedTexts (blobs : Blobs) : List String :=
  (storedBlobs blobs).keys.filter fun mime => isTextMime mime && decide (mime ∉ preferredTextMimes)

theorem oneUnlisted_iff (blobs : Blobs) : OneUnlisted blobs ↔
    ∀ a ∈ unlistedTexts blobs, ∀ b ∈ unlistedTexts blobs, a = b := by
  simp only [unlistedTexts, List.mem_filter, Std.ExtTreeMap.mem_keys, Bool.and_eq_true,
    decide_eq_true_eq]
  constructor
  · rintro h a ⟨ha, hta, hla⟩ b ⟨hb, htb, hlb⟩
    exact h a b ha hb hta htb hla hlb
  · intro h a b ha hb hta htb hla hlb
    exact h a ⟨ha, hta, hla⟩ b ⟨hb, htb, hlb⟩

instance (blobs : Blobs) : Decidable (OneUnlisted blobs) :=
  decidable_of_iff _ (oneUnlisted_iff blobs).symm

instance (d : Daemon) (pass : Pass) : Decidable (OneUnlistedPass d pass) :=
  inferInstanceAs (Decidable
    (∀ copy ∈ copies pass.drain (d.dispatched pass).app.pendingReads, OneUnlisted copy.2))

theorem Alike.served (h : Alike d d') {pass pass' : Pass}
    (hrequests : pass'.requests.map (·.1) = pass.requests.map (·.1)) :
    Alike (d.served clock pass) (d'.served clock pass') := by
  unfold Daemon.served
  generalize pass.requests = asked at hrequests
  generalize pass'.requests = asked' at hrequests
  induction asked generalizing d d' asked' with
  | nil =>
    obtain rfl := List.map_eq_nil_iff.mp hrequests
    exact h
  | cons request asked ih =>
    obtain ⟨request', asked', rfl, hfirst, hrest⟩ := List.map_eq_cons_iff.mp hrequests
    obtain ⟨pending, hasher, offerHasher⟩ := request
    obtain ⟨pending', hasher', offerHasher'⟩ := request'
    obtain rfl : pending' = pending := hfirst
    exact ih (h.handleRestore clock hasher offerHasher hasher' offerHasher' pending') asked' hrest

theorem Alike.drained (h : Alike d d') {pass pass' : Pass} (hevents : pass'.events = pass.events)
    (hio : pass'.io = pass.io) (hreads : SameReads pass.drain pass'.drain)
    (hone : OneUnlistedPass d pass) :
    Alike ((d.dispatched pass).drained pass).1 ((d'.dispatched pass').drained pass').1 ∧
      ((d'.dispatched pass').drained pass').2 = ((d.dispatched pass).drained pass).2 := by
  obtain ⟨requests, rfl, hrequests⟩ := h
  obtain ⟨sent, hsent⟩ := writeOnly_dispatchPending pass.io pass.events d.app
  have hdispatched : (d.withRequests requests).dispatched pass' =
      (d.dispatched pass).withRequests (requests ++ sent) := by
    simp only [Daemon.dispatched, hevents, hio, Daemon.withRequests, hsent]
  have hdrained : ((d.withRequests requests).dispatched pass').drained pass' =
      ((((d.dispatched pass).drained pass).1).withRequests (requests ++ sent),
        ((d.dispatched pass).drained pass).2) := by
    rw [hdispatched]
    simp only [Daemon.drained, Daemon.withRequests, drain_withRequests,
      drain_same hreads (d.dispatched pass).app hone]
  -- The drain sends nothing.
  have hquiet : ((d.dispatched pass).drained pass).1.app.requests = d.app.requests ++ sent := by
    have hdrain := drain_withRequests pass.drain (d.dispatched pass).app
      (d.dispatched pass).app.requests
    exact (congrArg (·.1.requests) hdrain).trans (congrArg (·.requests) (hsent d.app.requests))
  rw [hdrained]
  exact ⟨⟨requests ++ sent, rfl, hquiet ▸ hrequests.sent sent⟩, rfl⟩

theorem Alike.outcome (h : Alike d d') (outcome : ReadOutcome) :
    Alike (d.outcome clock outcome) (d'.outcome clock outcome) := by
  obtain ⟨requests, rfl, hrequests⟩ := h
  have hquiet := congrArg (·.app.requests)
    (outcome_withRequests clock d d.app.requests outcome)
  exact ⟨requests, outcome_withRequests clock d requests outcome, hquiet ▸ hrequests⟩

theorem Alike.outcomes (h : Alike d d') (outcomes : List ReadOutcome) :
    Alike (outcomes.foldl (Daemon.outcome clock) d) (outcomes.foldl (Daemon.outcome clock) d') := by
  induction outcomes generalizing d d' with
  | nil => exact h
  | cons outcome outcomes ih => exact ih (h.outcome clock outcome)

theorem Alike.step (h : Alike d d') {pass pass' : Pass} (hsame : SameInput pass pass')
    (hone : OneUnlistedPass d pass) : Alike (d.step clock pass) (d'.step clock pass') := by
  obtain ⟨hdrained, houtcomes⟩ := h.drained hsame.events hsame.io hsame.reads hone
  simp only [Daemon.step, houtcomes]
  exact (hdrained.outcomes clock _).served clock hsame.requests

-- ---------------------------------------------------------------------------
-- Runs
-- ---------------------------------------------------------------------------

theorem Alike.run (h : Alike d d') {passes passes' : List Pass}
    (hsame : List.Forall₂ SameInput passes passes')
    (hone : ∀ before pass after, passes = before ++ pass :: after →
      OneUnlistedPass (d.run clock before) pass) :
    Alike (d.run clock passes) (d'.run clock passes') := by
  induction hsame generalizing d d' with
  | nil => exact h
  | @cons pass pass' passes passes' hfirst _ ih =>
    refine ih (h.step clock hfirst (hone [] pass passes rfl)) fun before next after heq => ?_
    exact hone (pass :: before) next after (congrArg (pass :: ·) heq)

/-- The seeds of the hash maps are not seen: two runs that meet the same in
everything else, in which no copy has two unlisted text types, keep the same
history and offers, announce the same, suppress the same, answer the same, and
send the same requests, but that each restore published the same content under
its own orders. -/
theorem order_unobservable (clock : Clock) (seat manager device : Global)
    (passes passes' : List Pass) (hsame : List.Forall₂ SameInput passes passes')
    (hone : ∀ before pass after, passes = before ++ pass :: after →
      OneUnlistedPass (Daemon.run clock (.start seat manager device) before) pass) :
    let d := Daemon.run clock (.start seat manager device) passes
    ∃ requests, Daemon.run clock (.start seat manager device) passes' =
        { d with app := { d.app with requests } } ∧
      Reordered d.app.requests requests :=
  Alike.run clock ⟨[], rfl, .nil⟩ hsame hone

def hiUrl (hasher : Hasher String Bytes) : Pass :=
  let copy := copyPass 0 ⟨1, 0⟩ ["text/plain", "text/x-moz-url"] fun _ => [0x68, 0x69]
  { copy with
    drain := { copy.drain with hasher := fun _ => hasher, textHasher := fun _ => hasher }
    requests := [(⟨1, 0⟩, hasher, hasher)] }

def reversedHasher : Hasher String Bytes := ⟨List.reverse, List.reverse_perm⟩

theorem reversed_unobservable : ∃ requests,
    Daemon.run .still (.start 0 1 2) [hiUrl reversedHasher] =
      { Daemon.run .still (.start 0 1 2) [hiUrl .sorted] with
        app := { (Daemon.run .still (.start 0 1 2) [hiUrl .sorted]).app with requests } } ∧
    requests ≠ (Daemon.run .still (.start 0 1 2) [hiUrl .sorted]).app.requests := by
  have hsame : SameInput (hiUrl .sorted) (hiUrl reversedHasher) := ⟨rfl, rfl, ⟨rfl, rfl⟩, rfl⟩
  have hone (before : List Pass) (pass : Pass) (after : List Pass)
      (hrun : [hiUrl .sorted] = before ++ pass :: after) :
      OneUnlistedPass (Daemon.run .still (.start 0 1 2) before) pass := by
    rcases before with _ | ⟨first, before⟩
    · cases hrun
      decide +kernel
    · simp at hrun
  obtain ⟨requests, heq, -⟩ := order_unobservable .still 0 1 2 [hiUrl .sorted]
    [hiUrl reversedHasher] (.cons hsame .nil) hone
  have hdiffer : (Daemon.run .still (.start 0 1 2) [hiUrl reversedHasher]).app.requests ≠
      (Daemon.run .still (.start 0 1 2) [hiUrl .sorted]).app.requests := by
    decide +kernel
  refine ⟨requests, heq, ?_⟩
  rwa [heq] at hdiffer

end Uclip
