import Uclip.Lib.Trace
import Uclip.OfferLife
import Uclip.Ownership
import Uclip.Passes
import Uclip.RequestLaws
import Uclip.Selection

/-!
# The dialogue with a compositor that follows the protocol

The loop together with what the compositor knows of its offers. Over every run
the offers and the sources are kept like two ledgers, and no request the daemon
ever sends addresses an object that it has destroyed, or a source that it has
not created.
-/

namespace Uclip

open Text (Bytes)
open Trace (Legal)

structure Dialogue where
  daemon : Daemon
  introduced : List Offer := []
  waiting : List Offer := []
  ignored : List Offer := []

def Dialogue.offers (s : Dialogue) : OfferRun :=
  { app := s.daemon.app, introduced := s.introduced, waiting := s.waiting, ignored := s.ignored }

def OfferRun.handle (io : RequestIo) (s : OfferRun) (event : Event) : OfferRun :=
  { s.noted event with app := dispatch io s.app event }

/-- The id of a new offer is one that no offer has which may be alive. -/
def OfferRun.FreeId (s : OfferRun) (dead : List Offer) : Event → Prop
  | .dataOffer offer => ∀ other ∈ s.introduced, other ∉ dead → other.protocolId ≠ offer.protocolId
  | _ => True

/-- The queue follows the protocol. All of it was sent before the pass, when no
more offers were dead than `dead`. -/
def OfferRun.Queued (io : RequestIo) (dead : List Offer) : OfferRun → List Event → Prop
  | _, [] => True
  | s, event :: events =>
    s.Conforms event ∧ s.FreeId dead event ∧ Queued io dead (s.handle io event) events

def Dialogue.next (clock : Clock) (s : Dialogue) (pass : Pass) : Dialogue :=
  let handled := pass.events.foldl (OfferRun.handle pass.io) s.offers
  { daemon := s.daemon.step clock pass
    introduced := handled.introduced
    waiting := handled.waiting
    ignored := handled.ignored }

def dialogueSystem (clock : Clock) (seat manager device : Global) : System Dialogue Pass :=
  (System.ofAct { daemon := .start seat manager device } fun s pass =>
    some (s.next clock pass)).restrict fun s pass =>
      s.offers.Queued pass.io s.daemon.app.destroyedOffers pass.events

inductive Proxy
  | offer (offer : Offer)
  | source (source : Source)
  deriving DecidableEq, Repr

def Request.uses : Request → Option Proxy
  | .createDataSource .. => none
  | .offer source _ => some (.source source)
  | .setSelection source => some (.source source)
  | .destroySource source => some (.source source)
  | .receive target .. => some (.offer target)
  | .destroyOffer target => some (.offer target)

def Request.kills : Request → Option Proxy
  | .destroySource source => some (.source source)
  | .destroyOffer target => some (.offer target)
  | _ => none

/-- The request may follow what was sent: its object was not destroyed, and if
it is a source it was created. -/
def Request.MayFollow (sent : List Request) (request : Request) : Prop :=
  ∀ proxy, request.uses = some proxy → (∀ r ∈ sent, r.kills ≠ some proxy) ∧
    ∀ source, proxy = .source source → ∃ data, .createDataSource source data ∈ sent

-- ---------------------------------------------------------------------------
-- One handler
-- ---------------------------------------------------------------------------

variable {s s' : AppState} {io : RequestIo} {event : Event}

theorem mem_destroyedOffers {offer : Offer} :
    offer ∈ s.destroyedOffers ↔ .destroyOffer offer ∈ s.requests := by
  rw [AppState.destroyedOffers, List.mem_filterMap]
  constructor
  · rintro ⟨request, hmem, hr⟩
    cases request <;> cases hr
    exact hmem
  · exact fun hmem => ⟨_, hmem, rfl⟩

theorem mem_destroyedSources {source : Source} :
    source ∈ s.destroyedSources ↔ .destroySource source ∈ s.requests := by
  rw [AppState.destroyedSources, List.mem_filterMap]
  constructor
  · rintro ⟨request, hmem, hr⟩
    cases request <;> cases hr
    exact hmem
  · exact fun hmem => ⟨_, hmem, rfl⟩

theorem mem_createdSources {source : Source} :
    source ∈ s.createdSources ↔ ∃ data, .createDataSource source data ∈ s.requests := by
  rw [AppState.createdSources, List.mem_filterMap]
  constructor
  · rintro ⟨request, hmem, hr⟩
    cases request <;> cases hr
    exact ⟨_, hmem⟩
  · rintro ⟨_, hmem⟩
    exact ⟨_, hmem, rfl⟩

theorem kills_ne_offer {offer : Offer} (h : offer ∉ s.destroyedOffers) :
    ∀ r ∈ s.requests, r.kills ≠ some (.offer offer) := by
  intro r hr hkills
  cases r <;> cases hkills
  exact h (mem_destroyedOffers.mpr hr)

theorem kills_ne_source {source : Source} (h : source ∉ s.destroyedSources) :
    ∀ r ∈ s.requests, r.kills ≠ some (.source source) := by
  intro r hr hkills
  cases r <;> cases hkills
  exact h (mem_destroyedSources.mpr hr)

theorem mayFollow_offer {request : Request} {offer : Offer}
    (hu : request.uses = some (.offer offer)) (h : offer ∉ s.destroyedOffers) :
    request.MayFollow s.requests := by
  intro proxy hp
  obtain rfl : Proxy.offer offer = proxy := Option.some.inj (hu.symm.trans hp)
  exact ⟨kills_ne_offer h, fun _ hsource => by cases hsource⟩

theorem mayFollow_source {request : Request} {source : Source} {sent : List Request}
    (hu : request.uses = some (.source source))
    (hkills : ∀ r ∈ sent, r.kills ≠ some (.source source))
    (hcreated : ∃ data, .createDataSource source data ∈ sent) : request.MayFollow sent := by
  intro proxy hp
  obtain rfl : Proxy.source source = proxy := Option.some.inj (hu.symm.trans hp)
  refine ⟨hkills, ?_⟩
  rintro _ ⟨⟩
  exact hcreated

structure Alive (s : AppState) : Prop where
  legal : Legal Request.MayFollow s.requests
  sources : SourceLedger s
  current : ∀ offer, s.currentSelection = some offer → offer ∉ s.destroyedOffers

structure Addressed (event : Event) (s : AppState) : Prop extends Alive s where
  /-- The offer the event is about has not been destroyed. -/
  named : ∀ offer, event = .selection (some offer) → offer ∉ s.destroyedOffers

theorem SourceLedger.current_ne (h : SourceLedger s) {source : Source}
    (hs : s.currentSource = some source) :
    source ∉ s.destroyedSources ∧ ∃ data, .createDataSource source data ∈ s.requests := by
  obtain ⟨hcreated, hlive⟩ := (h.balanced.live source).mpr hs
  exact ⟨hlive, mem_createdSources.mp hcreated⟩

theorem SourceLedger.new_ne (h : SourceLedger s) : s.created ∉ s.destroyedSources := by
  intro hmem
  have hcreated := h.balanced.closed_opened _ hmem
  rw [h.created, List.mem_range] at hcreated
  exact Nat.lt_irrefl _ hcreated

theorem destroyedOffers_append (h : s'.requests = s.requests ++ more) :
    s'.destroyedOffers = s.destroyedOffers ++ more.filterMap Request.destroysOffer := by
  rw [AppState.destroyedOffers, h, List.filterMap_append]
  rfl

theorem Addressed.quiet (h : Addressed event s) (hreq : s'.requests = s.requests)
    (hsel : s'.currentSelection = s.currentSelection) (hcreated : s'.created = s.created)
    (hsource : s'.currentSource = s.currentSource) : Addressed event s' := by
  have hdestroyed : s'.destroyedOffers = s.destroyedOffers := by
    rw [AppState.destroyedOffers, hreq, AppState.destroyedOffers]
  refine ⟨⟨hreq ▸ h.legal, h.sources.same (.of_eq hcreated hsource hreq), ?_⟩, ?_⟩
  · rw [hsel, hdestroyed]
    exact h.current
  · rw [hdestroyed]
    exact h.named

theorem Addressed.send (h : Addressed event s) {request : Request}
    (hreq : s'.requests = s.requests ++ [request]) (hmay : request.MayFollow s.requests)
    (hno : request.destroysOffer = none) (hsources : SourceLedger s')
    (hsel : s'.currentSelection = s.currentSelection) : Addressed event s' := by
  have hdestroyed : s'.destroyedOffers = s.destroyedOffers := by
    rw [destroyedOffers_append hreq, List.filterMap_cons, hno, List.filterMap_nil,
      List.append_nil]
  refine ⟨⟨hreq ▸ h.legal.snoc hmay, hsources, ?_⟩, ?_⟩
  · rw [hsel, hdestroyed]
    exact h.current
  · rw [hdestroyed]
    exact h.named

theorem Addressed.effect (h : Addressed event s) (he : Effect io event s s') :
    Addressed event s' := by
  cases he with
  | clear old hsel hne =>
    refine ⟨⟨h.legal.snoc (mayFollow_offer rfl (h.current old hsel)), ?_, ?_⟩, ?_⟩
    · exact h.sources.same (.of_sent rfl rfl rfl (by simp [Request.creates, Request.destroys]))
    · intro offer hoffer
      cases hoffer
    · intro offer hev
      rw [destroyedOffers_append rfl, List.mem_append, not_or]
      refine ⟨h.named offer hev, ?_⟩
      rintro hmem
      obtain rfl : offer = old := by simpa [Request.destroysOffer] using hmem
      exact hne hev
  | select offer hev =>
    refine ⟨⟨h.legal, h.sources.same (.of_eq rfl rfl rfl), ?_⟩, h.named⟩
    rintro _ ⟨⟩
    exact h.named offer hev
  | ask offer mime hev hsel =>
    exact h.send rfl (mayFollow_offer rfl (h.current offer hsel)) rfl
      (h.sources.same (.of_sent rfl rfl rfl (by simp [Request.creates, Request.destroys]))) rfl
  | cancel source hev hcur =>
    have hledger := h.sources.cancelled io source
    rw [dispatch_cancelled io hcur] at hledger
    obtain ⟨hlive, hcreated⟩ := h.sources.current_ne hcur
    exact h.send rfl (mayFollow_source rfl (kills_ne_source hlive) hcreated) rfl hledger rfl
  | _ => exact h.quiet rfl rfl rfl rfl

-- ---------------------------------------------------------------------------
-- A restore
-- ---------------------------------------------------------------------------

theorem legal_publish (h : Legal Request.MayFollow s.requests) (hs : SourceLedger s)
    (contents : Blobs) (mimes : List String) :
    Legal Request.MayFollow
      (s.requests ++ AppState.publishRequests s.created contents mimes s.currentSource) := by
  have hnew := kills_ne_source hs.new_ne
  have hcreate : Legal Request.MayFollow
      (s.requests ++ [.createDataSource s.created ⟨contents⟩]) :=
    h.snoc fun _ hp => by cases hp
  -- The new source is not killed by anything up to the selection.
  have hquiet (names : List String) :
      ∀ r ∈ s.requests ++ [.createDataSource s.created ⟨contents⟩] ++
        names.map (Request.offer s.created), r.kills ≠ some (.source s.created) := by
    intro r hr
    rcases List.mem_append.mp hr with hr | hr
    · rcases List.mem_append.mp hr with hr | hr
      · exact hnew r hr
      · cases List.mem_singleton.mp hr
        simp [Request.kills]
    · obtain ⟨_, -, rfl⟩ := List.mem_map.mp hr
      simp [Request.kills]
  have hoffers : Legal Request.MayFollow
      (s.requests ++ [.createDataSource s.created ⟨contents⟩] ++
        mimes.map (Request.offer s.created)) := by
    refine hcreate.append fun past a rest heq => ?_
    obtain ⟨before, after, rfl, rfl, hafter⟩ := List.map_eq_append_iff.mp heq
    obtain ⟨mime, _, -, rfl, -⟩ := List.map_eq_cons_iff.mp hafter
    exact mayFollow_source rfl (hquiet before) ⟨⟨contents⟩, by simp⟩
  have hselect := hoffers.snoc (a := .setSelection s.created)
    (mayFollow_source rfl (hquiet mimes) ⟨⟨contents⟩, by simp⟩)
  cases hcur : s.currentSource with
  | none => simpa [AppState.publishRequests] using hselect
  | some old =>
    obtain ⟨hlive, data, hdata⟩ := hs.current_ne hcur
    have hdestroy := hselect.snoc (a := .destroySource old) (mayFollow_source rfl ?_
      ⟨data, by simp [hdata]⟩)
    · simpa [AppState.publishRequests] using hdestroy
    · intro r hr
      simp only [List.mem_append, List.mem_singleton, List.mem_map] at hr
      rcases hr with ((hr | rfl) | ⟨_, -, rfl⟩) | rfl
      · exact kills_ne_source hlive r hr
      · simp [Request.kills]
      · simp [Request.kills]
      · simp [Request.kills]

theorem destroysOffer_publishRequests (source : Source) (contents : Blobs) (mimes : List String)
    (old : Option Source) :
    (AppState.publishRequests source contents mimes old).filterMap Request.destroysOffer = [] := by
  rw [List.filterMap_eq_nil_iff]
  intro request hrequest
  rcases mem_publishRequests hrequest with rfl | ⟨_, -, rfl⟩ | rfl | ⟨_, -, rfl⟩ <;> rfl

theorem Alive.publish (h : Alive s) (offerHasher : Hasher String Bytes) (contents : Blobs) :
    Alive (s.publish offerHasher contents) := by
  rw [AppState.publish_eq]
  refine ⟨legal_publish h.legal h.sources contents _, h.sources.published contents _, ?_⟩
  rw [destroyedOffers_append rfl, destroysOffer_publishRequests, List.append_nil]
  exact h.current

-- ---------------------------------------------------------------------------
-- Passes
-- ---------------------------------------------------------------------------

structure OfferRun.Kept (s : OfferRun) : Prop where
  alive : Alive s.app
  ledger : OfferLedger s

theorem OfferLedger.waiting_alive {s : OfferRun} (h : OfferLedger s) {offer : Offer}
    (hw : offer ∈ s.waiting) : offer ∈ s.introduced ∧ offer ∉ s.app.destroyedOffers :=
  (h.balanced.live offer).mpr (List.mem_append_left _ (List.mem_append_right _ hw))

theorem OfferRun.Kept.handle {s : OfferRun} (h : s.Kept) (io : RequestIo) (hc : s.Conforms event) :
    (s.handle io event).Kept := by
  refine ⟨?_, h.ledger.handle io event hc⟩
  have haddressed : Addressed event s.app := by
    refine ⟨h.alive, ?_⟩
    rintro offer rfl
    exact (h.ledger.waiting_alive hc).2
  exact (dispatch_induct haddressed fun _ _ hs he => hs.effect he : Addressed event _).toAlive

theorem handled_app (io : RequestIo) (s : OfferRun) (events : List Event) :
    (events.foldl (OfferRun.handle io) s).app = dispatchPending io s.app events := by
  induction events generalizing s with
  | nil => rfl
  | cons event events ih => exact ih _

theorem OfferRun.Kept.queued {s : OfferRun} (h : s.Kept) {dead : List Offer} {events : List Event}
    (hq : s.Queued io dead events) : (events.foldl (OfferRun.handle io) s).Kept := by
  induction events generalizing s with
  | nil => exact h
  | cons event events ih => exact ih (h.handle io hq.1) hq.2.2

variable {clock : Clock}

theorem sameOffers_worked (d : Daemon) (pass : Pass) :
    SameOffers (d.dispatched pass).app (d.step clock pass).app := by
  obtain ⟨d', clipboard, hstep, -, happ⟩ := step_worked clock d pass
  rw [hstep]
  refine served_induct clock ?_ fun s entry hasher offerHasher hs _ _ => ?_
  · have hdrain := sameOffers_drain pass.drain (d.dispatched pass).app
    rw [happ]
    exact ⟨rfl, rfl, hdrain.keys⟩
  · rw [AppState.publish_eq]
    refine ⟨?_, hs.selection, hs.keys⟩
    rw [destroyedOffers_append rfl, destroysOffer_publishRequests, List.append_nil]
    exact hs.destroyed

theorem alive_worked {d : Daemon} {pass : Pass} (h : Alive (d.dispatched pass).app) :
    Alive (d.step clock pass).app := by
  obtain ⟨d', clipboard, hstep, -, happ⟩ := step_worked clock d pass
  rw [hstep]
  refine served_induct clock ?_ fun s entry hasher offerHasher hs _ _ => hs.publish offerHasher _
  rw [happ]
  exact ⟨h.legal, h.sources.same (.of_eq rfl rfl rfl), h.current⟩

theorem OfferRun.Kept.next {s : Dialogue} (h : s.offers.Kept) {pass : Pass}
    (hq : s.offers.Queued pass.io s.daemon.app.destroyedOffers pass.events) :
    (s.next clock pass).offers.Kept := by
  have hhandled := h.queued hq
  have happ := handled_app pass.io s.offers pass.events
  have halive := hhandled.alive
  rw [happ] at halive
  refine ⟨alive_worked halive, hhandled.ledger.same ?_⟩
  rw [happ]
  exact sameOffers_worked s.daemon pass

-- ---------------------------------------------------------------------------
-- Offers and their ids
-- ---------------------------------------------------------------------------

/-- Among the offers that are not known dead an id names one offer. -/
def Distinct (introduced dead : List Offer) : Prop :=
  ∀ a ∈ introduced, ∀ b ∈ introduced, a ∉ dead → b ∉ dead → a.protocolId = b.protocolId → a = b

theorem Distinct.add {introduced dead : List Offer} {offer : Offer} (h : Distinct introduced dead)
    (hnew : ∀ other ∈ introduced, other ∉ dead → other.protocolId ≠ offer.protocolId) :
    Distinct (introduced ++ [offer]) dead := by
  intro a ha b hb hda hdb hid
  rcases List.mem_append.mp ha with ha | ha <;> rcases List.mem_append.mp hb with hb | hb
  · exact h a ha b hb hda hdb hid
  · cases List.mem_singleton.mp hb
    exact absurd hid (hnew a ha hda)
  · cases List.mem_singleton.mp ha
    exact absurd hid.symm (hnew b hb hdb)
  · rw [List.mem_singleton.mp ha, List.mem_singleton.mp hb]

theorem introduced_noted (s : OfferRun) (event : Event) :
    (s.noted event).introduced = s.introduced ∨
      ∃ offer, event = .dataOffer offer ∧ (s.noted event).introduced = s.introduced ++ [offer] := by
  cases event with
  | dataOffer offer => exact .inr ⟨offer, rfl, rfl⟩
  | selection offer => cases offer <;> exact .inl rfl
  | primarySelection offer => cases offer <;> exact .inl rfl
  | _ => exact .inl rfl

structure QueueKnown (s : OfferRun) (dead : List Offer) (events : List Event) (s' : OfferRun) :
    Prop where
  introduced : s.introduced ⊆ s'.introduced
  distinct : Distinct s'.introduced dead
  /-- The offers that are selected were alive before the pass. -/
  selected : ∀ offer, .selection (some offer) ∈ events → offer ∈ s'.introduced ∧ offer ∉ dead

theorem Distinct.handle {s : OfferRun} {dead : List Offer} (h : Distinct s.introduced dead)
    (io : RequestIo) (hnew : s.FreeId dead event) :
    Distinct (s.handle io event).introduced dead := by
  rcases introduced_noted s event with heq | ⟨offer, hev, heq⟩
  · exact heq ▸ h
  · subst hev
    exact heq ▸ h.add hnew

theorem introduced_handle (io : RequestIo) (s : OfferRun) (event : Event) :
    s.introduced ⊆ (s.handle io event).introduced := by
  rcases introduced_noted s event with heq | ⟨_, -, heq⟩
  · exact fun offer hmem => heq ▸ hmem
  · exact fun offer hmem => heq ▸ List.mem_append_left _ hmem

theorem destroyedOffers_dispatch (io : RequestIo) (s : AppState) (event : Event) :
    s.destroyedOffers ⊆ (dispatch io s event).destroyedOffers := by
  intro offer hmem
  have hsent := (AppState.Asks.dispatch io s event).sent
  exact mem_destroyedOffers.mpr (hsent.subset (mem_destroyedOffers.mp hmem))

theorem OfferRun.Kept.queueKnown {s : OfferRun} (h : s.Kept) {dead : List Offer}
    {events : List Event} (hdead : dead ⊆ s.app.destroyedOffers)
    (hd : Distinct s.introduced dead) (hq : s.Queued io dead events) :
    QueueKnown s dead events (events.foldl (OfferRun.handle io) s) := by
  induction events generalizing s with
  | nil => exact ⟨fun _ => id, hd, fun _ hmem => by cases hmem⟩
  | cons event events ih =>
    obtain ⟨hc, hnew, hrest⟩ := hq
    have hgrow := destroyedOffers_dispatch io s.app event
    have hsub := introduced_handle io s event
    obtain ⟨hsub', hdist', hselected⟩ :=
      ih (h.handle io hc) (List.Subset.trans hdead hgrow) (hd.handle io hnew) hrest
    refine ⟨List.Subset.trans hsub hsub', hdist', fun offer hmem => ?_⟩
    rcases List.mem_cons.mp hmem with rfl | hmem
    · obtain ⟨hintro, halive⟩ := h.ledger.waiting_alive hc
      exact ⟨hsub' (hsub hintro), fun hd => halive (hdead hd)⟩
    · exact hselected offer hmem

-- ---------------------------------------------------------------------------
-- Runs
-- ---------------------------------------------------------------------------

variable {seat manager device : Global} {s : Dialogue}

theorem kept_start (seat manager device : Global) :
    OfferRun.Kept { app := (Daemon.start seat manager device).app } := by
  have hsources : SourceLedger (Daemon.start seat manager device).app :=
    ⟨rfl, Ledger.Balanced.empty.congr fun _ => by simp [Daemon.start, AppState.new]⟩
  refine ⟨⟨.nil, hsources, fun _ h => by cases h⟩, (offerLedger_run (.start ?_)).1⟩
  exact ⟨rfl, rfl, rfl, rfl, rfl, rfl⟩

theorem reachable_kept (h : (dialogueSystem clock seat manager device).Reachable s) :
    s.offers.Kept ∧ Distinct s.introduced s.daemon.app.destroyedOffers := by
  refine h.induct (motive := fun s => s.offers.Kept ∧
    Distinct s.introduced s.daemon.app.destroyedOffers) ?_ fun s pass s' _ ih hstep => ?_
  · rintro _ rfl
    exact ⟨kept_start seat manager device, fun _ h => by cases h⟩
  · obtain ⟨hkept, hdist⟩ := ih
    obtain ⟨hnext, hq⟩ := hstep
    cases hnext
    refine ⟨hkept.next hq, ?_⟩
    obtain ⟨-, hdist', -⟩ := hkept.queueKnown (fun _ => id) hdist hq
    intro a ha b hb hda hdb
    -- What was dead before the pass is still dead after it.
    have hdead : s.daemon.app.destroyedOffers ⊆ (s.next clock pass).daemon.app.destroyedOffers := by
      rw [Dialogue.next, (sameOffers_worked s.daemon pass).destroyed]
      intro offer hmem
      exact mem_destroyedOffers.mpr
        ((AppState.Asks.dispatchPending pass.io _ _).sent.subset (mem_destroyedOffers.mp hmem))
    exact hdist' a ha b hb (fun h => hda (hdead h)) fun h => hdb (hdead h)

/-- Whatever the compositor does within the protocol, every request the daemon
ever sends may follow those before it: no source or offer is used or destroyed
after it was destroyed, and no source before it was created. -/
theorem requests_alive {clock : Clock} {seat manager device : Global} {s : Dialogue}
    (h : (dialogueSystem clock seat manager device).Reachable s) :
    Legal Request.MayFollow s.daemon.app.requests :=
  (reachable_kept h).1.alive.legal

instance (s : OfferRun) : (event : Event) → Decidable (s.Conforms event)
  | .dataOffer offer => inferInstanceAs (Decidable (offer ∉ s.introduced ∧ ∀ other ∈ s.introduced,
      other ∉ s.app.destroyedOffers → other.protocolId ≠ offer.protocolId))
  | .offer offer _ | .selection (some offer) | .primarySelection (some offer) =>
    inferInstanceAs (Decidable (offer ∈ s.waiting))
  | .global .. | .globalRemove | .selection none | .primarySelection none | .finished | .send ..
  | .cancelled _ => .isTrue trivial

instance (s : OfferRun) (dead : List Offer) : (event : Event) → Decidable (s.FreeId dead event)
  | .dataOffer offer => inferInstanceAs (Decidable (∀ other ∈ s.introduced,
      other ∉ dead → other.protocolId ≠ offer.protocolId))
  | .global .. | .globalRemove | .offer .. | .selection _ | .primarySelection _ | .finished
  | .send .. | .cancelled _ => .isTrue trivial

instance decidableQueued (io : RequestIo) (dead : List Offer) (events : List Event) :
    (s : OfferRun) → Decidable (s.Queued io dead events) :=
  match events with
  | [] => fun _ => .isTrue trivial
  | event :: events => fun s =>
    have := decidableQueued io dead events (s.handle io event)
    inferInstanceAs (Decidable (_ ∧ _ ∧ _))

def reusedId : List Pass :=
  let copy (fd : Fd) (offer : Offer) := copyPass fd offer ["text/plain"] fun _ => [0x68, 0x69]
  [{ copy 0 ⟨1, 0⟩ with requests := [(⟨1, 0⟩, .sorted, .sorted)] },
    { copy 1 ⟨2, 1⟩ with events := (copy 1 ⟨2, 1⟩).events ++ [.cancelled 0] },
    copy 2 ⟨1, 2⟩]

/-- The dialogue, as long as its queues follow the protocol. -/
def runQueued (clock : Clock) (s : Dialogue) (passes : List Pass) : Option Dialogue :=
  passes.foldlM (fun (s : Dialogue) pass =>
    if s.offers.Queued pass.io s.daemon.app.destroyedOffers pass.events then
      some (s.next clock pass) else none) s

theorem run_of_queued {passes : List Pass}
    (h : runQueued clock { daemon := .start seat manager device } passes = some s) :
    (dialogueSystem clock seat manager device).Run passes s :=
  System.restrict_exec h

theorem reusedId_requests_alive : ∃ s : Dialogue,
    s.daemon.app.destroyedOffers = [⟨1, 0⟩, ⟨2, 1⟩] ∧ s.daemon.app.destroyedSources = [0] ∧
    Legal Request.MayFollow s.daemon.app.requests := by
  have hrun : (runQueued .still { daemon := .start 0 1 2 } reusedId).any
      (fun s => s.daemon.app.destroyedOffers = [⟨1, 0⟩, ⟨2, 1⟩] ∧
        s.daemon.app.destroyedSources = [0]) = true := by
    decide +kernel
  obtain ⟨s, hs, hdestroyed⟩ := (Option.any_eq_true _ _).mp hrun
  obtain ⟨hoffers, hsources⟩ := of_decide_eq_true hdestroyed
  exact ⟨s, hoffers, hsources, requests_alive ⟨_, run_of_queued hs⟩⟩

end Uclip
