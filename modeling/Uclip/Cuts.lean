import Uclip.Mirror
import Uclip.Provenance
import Uclip.Timestamps

/-!
# How a queue is cut into passes

When the events of a queue arrive decides in which pass they are handled, and
with it which reads are drained together. A compositor that follows the protocol
does not name an offer again that it has selected. So while no echo is awaited,
and one pass holds no more copies than the history, a queue handled in one pass
leaves what it leaves when it is cut into several, but for the time stamps.
-/

namespace Uclip

open Text (Bytes)
open ClipboardContent (fromBlobs)

def SelectsLast (event later : Event) : Prop :=
  ∀ offer, event = .selection (some offer) → later.names ≠ some offer.protocolId

variable {reads : List PendingRead} {clipboard : ClipState} {io : RequestIo}

-- ---------------------------------------------------------------------------
-- The copies of two drains
-- ---------------------------------------------------------------------------

variable {env : DrainEnv} {reads' : List PendingRead} {offerId : Nat}

theorem refOrder_append (h : ∀ read ∈ reads', read.offerId ∉ refOrder env reads) :
    refOrder env (reads ++ reads') = refOrder env reads ++ refOrder env reads' := by
  induction reads' using List.reverseRecOn with
  | nil => simp [refOrder]
  | append_singleton reads' read ih =>
    have hread := h read (by simp)
    rw [← List.append_assoc, refOrder_snoc, refOrder_snoc,
      ih fun r hr => h r (List.mem_append_left _ hr)]
    by_cases hnew : (refPayload env read).isSome ∧ read.offerId ∉ refOrder env reads'
    · rw [if_pos ⟨hnew.1, by simp [hread, hnew.2]⟩, if_pos hnew, List.append_assoc]
    · rw [if_neg (by simpa [hread] using hnew), if_neg hnew]

theorem refBlob_append (mime : String) : refBlob env (reads ++ reads') offerId mime =
    (refBlob env reads' offerId mime).or (refBlob env reads offerId mime) := by
  simp [refBlob, List.getLast?_append]

theorem refBlob_of_notMem (h : offerId ∉ refOrder env reads) (mime : String) :
    refBlob env reads offerId mime = none := by
  cases hblob : refBlob env reads offerId mime with
  | none => rfl
  | some bytes =>
    obtain ⟨read, hread, hpayload⟩ := List.mem_filterMap.mp (List.mem_of_getLast? hblob)
    obtain ⟨hread, hmatch⟩ := List.mem_filter.mp hread
    have hdelivered : offerId ∈ refOrder env reads :=
      mem_refOrder.mpr ⟨read, hread, (of_decide_eq_true hmatch).1, by simp [hpayload]⟩
    exact absurd hdelivered h

theorem copies_append (h : ∀ read ∈ reads', read.offerId ∉ refOrder env reads) :
    copies env (reads ++ reads') = copies env reads ++ copies env reads' := by
  have hall := groups_groupReads env (reads ++ reads')
  have hfirst := groups_groupReads env reads
  have hsecond := groups_groupReads env reads'
  have hapart (id : Nat) (hid : id ∈ refOrder env reads') : id ∉ refOrder env reads := by
    obtain ⟨read, hread, rfl, -⟩ := mem_refOrder.mp hid
    exact h read hread
  unfold copies
  dsimp only
  rw [hall.order, hfirst.order, hsecond.order, refOrder_append h, List.map_append]
  congr 1 <;> refine List.map_congr_left fun id hid => Prod.ext rfl ?_ <;>
    refine Std.ExtTreeMap.ext_getElem? fun mime => ?_
  · rw [hall.blobs, hfirst.blobs, refBlob_append, refBlob_of_notMem fun hmem => hapart id hmem hid,
      Option.none_or]
  · rw [hall.blobs, hsecond.blobs, refBlob_append, refBlob_of_notMem (hapart id hid),
      Option.or_none]

theorem accepted_append (env : DrainEnv) (last : Option ClipboardContent) (nextId : Nat)
    (l l' : List (Nat × Blobs)) :
    accepted env last nextId (l ++ l') = accepted env last nextId l ++
      accepted env (((accepted env last nextId l).getLast?.map (·.content)).or last)
        (nextId + (accepted env last nextId l).length) l' := by
  induction l generalizing last nextId with
  | nil => simp [accepted]
  | cons copy l ih =>
    obtain ⟨offerId, blobs⟩ := copy
    rw [List.cons_append, accepted, accepted]
    split
    · exact ih last nextId
    · rename_i content _
      split
      · exact ih last nextId
      · rw [ih, List.cons_append, List.getLast?_cons, List.length_cons, Nat.add_assoc,
          Nat.add_comm 1]
        cases (accepted env (some content) (nextId + 1) l).getLast? <;> simp

-- ---------------------------------------------------------------------------
-- A pass while no echo is awaited
-- ---------------------------------------------------------------------------

variable (clock : Clock) {d : Daemon} {pass : Pass}

theorem passEcho_quiet (hflag : d.expectEcho = none) : d.passEcho clock pass = none := by
  have hfilled : (d.filled pass).expectEcho = none := hflag
  rw [Daemon.passEcho, Daemon.echo, hfilled, firstEcho_none]

theorem passAnnounced_quiet (hflag : d.expectEcho = none)
    (hroom : (d.arrivals pass).length ≤ maxHistory) :
    d.passAnnounced clock pass = d.arrivals pass := by
  rw [passAnnounced_eq, passEcho_quiet clock hflag]
  refine List.filter_eq_self.mpr fun e he => decide_eq_true ⟨?_, by simp⟩
  obtain ⟨j, hj⟩ := List.getElem?_of_mem he
  rw [← filled_history]
  exact (mem_filled_iff hj).mpr (by omega)

def AppState.afterDrain (s : AppState) (env : DrainEnv) (clipboard : ClipState) : AppState :=
  { s with
    offers := without (refOrder env s.pendingReads) s.offers
    clipboard
    pendingReads := [] }

/-- The daemon when all arrivals of a pass are announced. -/
def Daemon.afterPass (d : Daemon) (pass : Pass) (clipboard : ClipState) : Daemon :=
  { d with
    app := (d.dispatched pass).app.afterDrain pass.drain clipboard
    snapshot := ((d.arrivals pass).map EntrySummary.of).foldl pushSummary d.snapshot
    events := d.events ++ (d.arrivals pass).map fun e => .entryAdded (.of e)
    ticks := d.ticks + 2 * (d.arrivals pass).length }

theorem step_quiet (hreq : pass.requests = []) (hflag : d.expectEcho = none)
    (hroom : (d.arrivals pass).length ≤ maxHistory) : ∃ clipboard : ClipState,
    clipboard.entries = Bounded.popWhileOver maxHistory (d.history ++ d.arrivals pass) ∧
    clipboard.nextId = d.app.clipboard.nextId + (d.arrivals pass).length ∧
    d.step clock pass = d.afterPass pass clipboard := by
  have hhistory := step_history clock d pass
  have hecho : d.passEcho clock pass = none := passEcho_quiet clock hflag
  have hann := passAnnounced_quiet clock hflag hroom
  have ho := outcomes_effect clock (d.arrivals pass) (arrivals_pairwise d pass) (d.filled pass)
    (namedBy_arrivals d pass)
  rw [step_eq, Daemon.served, hreq, List.foldl_nil] at hhistory ⊢
  obtain ⟨⟨clipboard, happ, hnext⟩, -, hsnap, hevents, hflag', hreplies, hticks, hentry⟩ := ho
  change _ = List.foldl _ _ ((d.passAnnounced clock pass).map _) at hsnap
  change _ = _ ++ (d.passAnnounced clock pass).map _ at hevents
  rw [hann] at hsnap hevents
  generalize ((d.arrivals pass).map (·.id)).foldl (fun d id => d.outcome clock (.stored id ""))
    (d.filled pass) = d' at hhistory happ hsnap hevents hflag' hreplies hticks hentry ⊢
  have happ : d'.app = (d.dispatched pass).app.afterDrain pass.drain clipboard := by
    obtain ⟨_, _, hdrain⟩ := drain_frame pass.drain (d.dispatched pass).app
    have hoffers := drain_offers pass.drain (d.dispatched pass).app
    have hfilled : (d.filled pass).app = (drainPendingReads pass.drain (d.dispatched pass).app).1 :=
      rfl
    rw [hdrain] at hoffers hfilled
    rw [happ, hfilled, AppState.afterDrain, ← hoffers]
  have hflag : d'.expectEcho = d.expectEcho := hflag'.elim (·.trans hflag.symm) (·.1)
  refine ⟨clipboard, ?_, hnext.trans (filled_nextId d pass), ?_⟩
  · rw [Daemon.history, happ, hecho, AppState.afterDrain] at hhistory
    simpa using hhistory
  · obtain ⟨_, _, _, _, _, _, _⟩ := d'
    cases happ
    cases hsnap
    cases hevents
    cases hreplies
    cases hflag
    cases hticks
    cases hentry
    rfl

theorem step_idle (hidle : d.app.pendingReads = []) (io : RequestIo) (env : DrainEnv) :
    d.step clock { events := [], io, drain := env } = d := by
  have happ : { d.app with pendingReads := [] } = d.app := by rw [← hidle]
  have hdrain : drainPendingReads env d.app = (d.app, []) := by
    rw [drainPendingReads, happ, hidle]
    rfl
  simp only [Daemon.step, Daemon.drained, Daemon.dispatched, dispatchPending, List.foldl_nil,
    hdrain, Daemon.served]

-- ---------------------------------------------------------------------------
-- One cut
-- ---------------------------------------------------------------------------

theorem getLast?_popWhileOver (xs : List α) :
    (Bounded.popWhileOver maxHistory xs).getLast? = xs.getLast? := by
  rw [Bounded.popWhileOver_eq_drop, List.getLast?_drop]
  split
  · rename_i hle
    have hnil : xs.length = 0 := by
      unfold maxHistory at hle
      omega
    rw [List.length_eq_zero_iff.mp hnil, List.getLast?_nil]
  · rfl

def passOf (io : RequestIo) (env : DrainEnv) (events : List Event) : Pass :=
  { events, io, drain := env }

variable {first second : List Event}

theorem dispatched_afterDrain (io : RequestIo) (env : DrainEnv) (s : AppState)
    (clipboard : ClipState)
    (hids : ∀ event ∈ second, ∀ id, event.names = some id →
      id ∉ refOrder env s.pendingReads) :
    Drained (refOrder env s.pendingReads) s.pendingReads clipboard (dispatchPending io s second)
        (dispatchPending io (s.afterDrain env clipboard) second) ∧
      ∀ read ∈ (dispatchPending io (s.afterDrain env clipboard) second).pendingReads,
        read.offerId ∉ refOrder env s.pendingReads := by
  have hstart : Drained (refOrder env s.pendingReads) s.pendingReads clipboard s
      (s.afterDrain env clipboard) := ⟨[], (List.append_nil _).symm, rfl⟩
  refine ⟨hstart.dispatchPending io hids, fun read hread => ?_⟩
  obtain ⟨made, hmade⟩ := dispatchPending_requested io (s.afterDrain env clipboard) second
  have hreads := hmade.reads
  rw [AppState.afterDrain, List.nil_append] at hreads
  have hmem : read ∈ (made.filter (io.flushOk ·.fd)).map Receive.read := hreads ▸ hread
  obtain ⟨r, hr, rfl⟩ := List.mem_map.mp hmem
  exact hids _ (hmade.wanted r (List.mem_filter.mp hr).1).1 _ rfl

theorem dispatched_append (d : Daemon) (io : RequestIo) (env : DrainEnv)
    (first second : List Event) : (d.dispatched (passOf io env (first ++ second))).app =
      dispatchPending io (d.dispatched (passOf io env first)).app second :=
  List.foldl_append ..

theorem arrivals_cut
    (hids : ∀ event ∈ second, ∀ id, event.names = some id →
      id ∉ refOrder env (d.dispatched (passOf io env first)).app.pendingReads)
    (clipboard : ClipState) :
    d.arrivals (passOf io env (first ++ second)) = d.arrivals (passOf io env first) ++
      accepted env (((d.arrivals (passOf io env first)).getLast?.map (·.content)).or
          (d.app.clipboard.latest.map (·.content)))
        (d.app.clipboard.nextId + (d.arrivals (passOf io env first)).length)
        (copies env (dispatchPending io ((d.dispatched (passOf io env first)).app.afterDrain env
          clipboard) second).pendingReads) := by
  obtain ⟨⟨rest, hreads, hafter⟩, hapart⟩ :=
    dispatched_afterDrain io env (d.dispatched (passOf io env first)).app clipboard hids
  rw [hafter] at hapart ⊢
  have hclip (events : List Event) :
      (d.dispatched (passOf io env events)).app.clipboard = d.app.clipboard :=
    dispatchPending_clipboard ..
  rw [Daemon.arrivals, Daemon.arrivals, AppState.arrivals, AppState.arrivals, hclip, hclip,
    dispatched_append, hreads]
  change accepted env _ _ (copies env (_ ++ rest)) = _
  rw [copies_append hapart, accepted_append]
  rfl

theorem latest_afterPass {clipboard : ClipState} {arrivals : List ClipboardEntry}
    (h : clipboard.entries = Bounded.popWhileOver maxHistory (d.history ++ arrivals)) :
    clipboard.latest.map (·.content) =
      (arrivals.getLast?.map (·.content)).or (d.app.clipboard.latest.map (·.content)) := by
  rw [ClipState.latest, h, getLast?_popWhileOver, List.getLast?_append, Option.map_or]
  rfl

theorem arrivals_afterPass {clipboard : ClipState}
    (hids : ∀ event ∈ second, ∀ id, event.names = some id →
      id ∉ refOrder env (d.dispatched (passOf io env first)).app.pendingReads)
    (hheld : clipboard.entries =
      Bounded.popWhileOver maxHistory (d.history ++ d.arrivals (passOf io env first)))
    (hnext : clipboard.nextId =
      d.app.clipboard.nextId + (d.arrivals (passOf io env first)).length) :
    d.arrivals (passOf io env (first ++ second)) = d.arrivals (passOf io env first) ++
      (d.afterPass (passOf io env first) clipboard).arrivals (passOf io env second) := by
  have hclip : (dispatchPending io ((d.dispatched (passOf io env first)).app.afterDrain env
      clipboard) second).clipboard = clipboard := dispatchPending_clipboard ..
  have hsecond : (d.afterPass (passOf io env first) clipboard).arrivals (passOf io env second) =
      (dispatchPending io ((d.dispatched (passOf io env first)).app.afterDrain env clipboard)
        second).arrivals env := rfl
  rw [arrivals_cut hids clipboard, ← latest_afterPass hheld, ← hnext, hsecond, AppState.arrivals,
    hclip]

theorem afterPass_afterPass {clipboard : ClipState}
    (hids : ∀ event ∈ second, ∀ id, event.names = some id →
      id ∉ refOrder env (d.dispatched (passOf io env first)).app.pendingReads)
    (harrivals : d.arrivals (passOf io env (first ++ second)) = d.arrivals (passOf io env first) ++
      (d.afterPass (passOf io env first) clipboard).arrivals (passOf io env second))
    (clipboard' : ClipState) :
    (d.afterPass (passOf io env first) clipboard).afterPass (passOf io env second) clipboard' =
      d.afterPass (passOf io env (first ++ second)) clipboard' := by
  obtain ⟨⟨rest, hreads, hafter⟩, hapart⟩ :=
    dispatched_afterDrain io env (d.dispatched (passOf io env first)).app clipboard hids
  rw [hafter] at hapart
  have happ : (dispatchPending io ((d.dispatched (passOf io env first)).app.afterDrain env
      clipboard) second).afterDrain env clipboard' =
        (d.dispatched (passOf io env (first ++ second))).app.afterDrain env clipboard' := by
    rw [hafter, dispatched_append, AppState.afterDrain, AppState.afterDrain, hreads,
      refOrder_append hapart, without, without, without, List.foldl_append]
  change Daemon.mk _ _ _ _ _ _ _ = Daemon.mk _ _ _ _ _ _ _
  rw [Daemon.mk.injEq]
  refine ⟨happ, ?_, ?_, rfl, rfl, ?_, rfl⟩
  · rw [harrivals, List.map_append, List.foldl_append]
    rfl
  · rw [harrivals, List.map_append, ← List.append_assoc]
    rfl
  · rw [harrivals, List.length_append, Nat.mul_add, ← Nat.add_assoc]
    rfl

/-- A queue may be cut in two where the second part names no offer id that the
first has delivered. -/
theorem step_cut (hflag : d.expectEcho = none)
    (hids : ∀ event ∈ second, ∀ id, event.names = some id →
      id ∉ refOrder env (d.dispatched (passOf io env first)).app.pendingReads)
    (hroom : (d.arrivals (passOf io env (first ++ second))).length ≤ maxHistory) :
    ((d.step clock (passOf io env first)).arrivals (passOf io env second)).length ≤ maxHistory ∧
      (d.step clock (passOf io env first)).step clock (passOf io env second) =
        d.step clock (passOf io env (first ++ second)) := by
  have hfirst : (d.arrivals (passOf io env first)).length ≤ maxHistory := by
    rw [arrivals_cut hids d.app.clipboard, List.length_append] at hroom
    omega
  obtain ⟨clipboard, hheld, hnext, hstep⟩ :=
    @step_quiet clock d (passOf io env first) rfl hflag hfirst
  have harrivals := arrivals_afterPass hids hheld hnext
  rw [hstep]
  have hsecond : ((d.afterPass (passOf io env first) clipboard).arrivals
      (passOf io env second)).length ≤ maxHistory := by
    rw [harrivals, List.length_append] at hroom
    omega
  refine ⟨hsecond, ?_⟩
  obtain ⟨clipboard₂, hheld₂, hnext₂, hstep₂⟩ :=
    @step_quiet clock (d.afterPass (passOf io env first) clipboard) (passOf io env second)
      rfl hflag hsecond
  obtain ⟨clipboard', hheld', hnext', hstep'⟩ :=
    @step_quiet clock d (passOf io env (first ++ second)) rfl hflag hroom
  have hclip : clipboard₂ = clipboard' := by
    refine ClipState.ext ?_ ?_
    · have hhistory : (d.afterPass (passOf io env first) clipboard).history =
          clipboard.entries := rfl
      rw [hheld₂, hheld', harrivals, hhistory, hheld, Bounded.popWhileOver_popWhileOver_append,
        List.append_assoc]
    · have hnext₁ : (d.afterPass (passOf io env first) clipboard).app.clipboard.nextId =
          clipboard.nextId := rfl
      rw [hnext₂, hnext', harrivals, hnext₁, hnext, List.length_append, Nat.add_assoc]
  rw [hstep₂, hstep', hclip]
  exact afterPass_afterPass hids harrivals clipboard'

-- ---------------------------------------------------------------------------
-- All cuts
-- ---------------------------------------------------------------------------

theorem selected_of_delivered {id : Nat} (hidle : d.app.pendingReads = [])
    (h : id ∈ refOrder env (d.dispatched (passOf io env first)).app.pendingReads) :
    ∃ offer : Offer, offer.protocolId = id ∧ .selection (some offer) ∈ first := by
  obtain ⟨read, hread, hid, -⟩ := mem_refOrder.mp h
  obtain ⟨made, hmade⟩ := dispatchPending_requested io d.app first
  have hreads := hmade.reads
  rw [hidle, List.nil_append] at hreads
  have hmem : read ∈ (made.filter (io.flushOk ·.fd)).map Receive.read := hreads ▸ hread
  obtain ⟨r, hr, rfl⟩ := List.mem_map.mp hmem
  exact ⟨r.offer, hid, (hmade.wanted r (List.mem_filter.mp hr).1).1⟩

theorem run_cuts (hidle : d.app.pendingReads = []) (hflag : d.expectEcho = none)
    (cuts : List (List Event)) (hlast : cuts.flatten.Pairwise SelectsLast)
    (hroom : (d.arrivals (passOf io env cuts.flatten)).length ≤ maxHistory) :
    d.run clock (cuts.map (passOf io env)) = d.step clock (passOf io env cuts.flatten) := by
  induction cuts generalizing d with
  | nil => exact (step_idle clock hidle io env).symm
  | cons first cuts ih =>
    rw [List.flatten_cons] at hlast hroom ⊢
    obtain ⟨-, hrest, hcross⟩ := List.pairwise_append.mp hlast
    have hids : ∀ event ∈ cuts.flatten, ∀ id, event.names = some id →
        id ∉ refOrder env (d.dispatched (passOf io env first)).app.pendingReads := by
      intro event hevent id hnames hdelivered
      obtain ⟨offer, rfl, hsel⟩ := selected_of_delivered hidle hdelivered
      exact hcross _ hsel event hevent offer rfl hnames
    obtain ⟨hroom', hstep⟩ := step_cut clock hflag hids hroom
    have hflag' : (d.step clock (passOf io env first)).expectEcho = none :=
      (step_frame clock d rfl).2.elim id (·.trans hflag)
    rw [← hstep, ← ih (step_receives clock d _).2.2 hflag' hrest hroom']
    rfl

-- ---------------------------------------------------------------------------
-- The protocol
-- ---------------------------------------------------------------------------

variable {r : OfferRun} {dead : List Offer} {events : List Event}

/-- What was named and was alive before the pass keeps its id through the queue. -/
theorem OfferRun.Kept.names_ne {offer : Offer} (h : r.Kept) (hdead : dead ⊆ r.app.destroyedOffers)
    (hd : Distinct r.introduced dead) (hq : r.Queued io dead events)
    (hintro : offer ∈ r.introduced) (hout : offer ∉ r.waiting) (halive : offer ∉ dead) :
    ∀ event ∈ events, event.names ≠ some offer.protocolId := by
  induction events generalizing r with
  | nil => simp
  | cons event events ih =>
    obtain ⟨hc, hnew, hrest⟩ := hq
    have hwaits (other : Offer) (hw : other ∈ r.waiting) :
        other.protocolId ≠ offer.protocolId := by
      intro hid
      obtain ⟨hintro', halive'⟩ := h.ledger.waiting_alive hw
      exact hout (hd _ hintro' _ hintro (fun hmem => halive' (hdead hmem)) halive hid ▸ hw)
    have hout' : offer ∉ (r.handle io event).waiting := by
      cases event with
      | dataOffer other =>
        intro hmem
        rcases List.mem_append.mp hmem with hmem | hmem
        · exact hout hmem
        · exact hc.1 (List.mem_singleton.mp hmem ▸ hintro)
      | selection target =>
        cases target with
        | none => exact hout
        | some other => exact fun hmem => hout (List.mem_of_mem_erase hmem)
      | primarySelection target =>
        cases target with
        | none => exact hout
        | some other => exact fun hmem => hout (List.mem_of_mem_erase hmem)
      | _ => exact hout
    have hlater := ih (h.handle io hc)
      (List.Subset.trans hdead (destroyedOffers_dispatch io r.app event)) (hd.handle io hnew) hrest
      (introduced_handle io r event hintro) hout'
    intro later hmem
    rcases List.mem_cons.mp hmem with rfl | hmem
    · intro hnames
      cases later with
      | dataOffer other => exact hnew _ hintro halive (Option.some.inj hnames).symm
      | offer other mime => exact hwaits other hc (Option.some.inj hnames)
      | selection target =>
        cases target with
        | none => cases hnames
        | some other => exact hwaits other hc (Option.some.inj hnames)
      | _ => cases hnames
    · exact hlater later hmem

theorem OfferRun.Kept.selectsLast (h : r.Kept) (hdead : dead ⊆ r.app.destroyedOffers)
    (hd : Distinct r.introduced dead) (hq : r.Queued io dead events) :
    events.Pairwise SelectsLast := by
  induction events generalizing r with
  | nil => exact .nil
  | cons event events ih =>
    obtain ⟨hc, hnew, hrest⟩ := hq
    have hkept := h.handle io hc
    have hdead' := List.Subset.trans hdead (destroyedOffers_dispatch io r.app event)
    refine List.pairwise_cons.mpr ⟨?_, ih hkept hdead' (hd.handle io hnew) hrest⟩
    rintro later hlater offer rfl
    obtain ⟨hintro, halive⟩ := h.ledger.waiting_alive hc
    have hnodup : r.waiting.Nodup :=
      (List.nodup_append.mp (List.nodup_append.mp h.ledger.nodup).1).2.1
    exact hkept.names_ne hdead' (hd.handle io hnew) hrest hintro hnodup.not_mem_erase
      (fun hmem => halive (hdead hmem)) later hlater

/-- Where the event queue is cut into passes is not seen but in the time stamps:
from any state of a dialogue in which no echo is awaited, a queue that follows
the protocol leaves the same daemon whether it is handled in one pass or in any
number, each with a wall clock of its own, as long as it brings no more copies
than the history holds. -/
theorem cuts_unobservable {clock : Clock} {seat manager device : Global} {s : Dialogue}
    (h : (dialogueSystem clock seat manager device).Reachable s) (io : RequestIo) (env : DrainEnv)
    (cuts : List (List Event × (Nat → SystemTime)))
    (hq : s.offers.Queued io s.daemon.app.destroyedOffers (cuts.map Prod.fst).flatten)
    (hflag : s.daemon.expectEcho = none)
    (hroom : (s.daemon.arrivals
      { events := (cuts.map Prod.fst).flatten, io, drain := env }).length ≤ maxHistory) :
    (s.daemon.run clock (cuts.map fun cut =>
        { events := cut.1, io, drain := { env with now := cut.2 } })).untimed =
      (s.daemon.step clock
        { events := (cuts.map Prod.fst).flatten, io, drain := env }).untimed := by
  obtain ⟨hkept, hdist⟩ := reachable_kept h
  have hidle : s.daemon.app.pendingReads = [] := by
    obtain ⟨passes, hrun⟩ := h
    rw [dialogue_daemon hrun]
    exact (pipeLedger_run clock seat manager device passes).idle
  have hroom' : (s.daemon.untimed.arrivals
      (passOf io env.untimed (cuts.map Prod.fst).flatten)).length ≤ maxHistory := by
    have harrivals := arrivals_untimed s.daemon (passOf io env (cuts.map Prod.fst).flatten)
    exact ((congrArg List.length harrivals).trans (List.length_map _)).trans_le hroom
  have hpasses : (cuts.map fun cut => ({ events := cut.1, io, drain := { env with now := cut.2 } }
      : Pass)).map Pass.untimed = (cuts.map Prod.fst).map (passOf io env.untimed) := by
    rw [List.map_map, List.map_map]
    rfl
  rw [← run_untimed, ← step_untimed, hpasses]
  exact run_cuts clock (d := s.daemon.untimed) hidle hflag _
    (hkept.selectsLast (fun _ => id) hdist hq) hroom'

def hiThenYo : List (List Event × (Nat → SystemTime)) :=
  [(selectionEvents ⟨1, 0⟩ ["text/plain"], fun _ => 1000000000),
    (selectionEvents ⟨2, 1⟩ ["text/plain"], fun _ => 2000000000)]

def hiYoEnv : DrainEnv where
  pipe fd := .ok (if fd = 0 then [0x68, 0x69] else [0x79, 0x6F])
  hasher _ := .sorted
  textHasher _ := .sorted
  now _ := 2000000000

theorem hiThenYo_cut :
    let whole := (Daemon.start 0 1 2).step .still
      { events := (hiThenYo.map Prod.fst).flatten, io := {}, drain := hiYoEnv }
    let cut := (Daemon.start 0 1 2).run .still (hiThenYo.map fun cut =>
      { events := cut.1, io := {}, drain := { hiYoEnv with now := cut.2 } })
    whole.history.map (·.preview) = ["hi", "yo"] ∧
      whole.snapshot.map (·.timestampMillis) = [2000, 2000] ∧
      cut.snapshot.map (·.timestampMillis) = [1000, 2000] ∧ cut.untimed = whole.untimed :=
  ⟨by decide +kernel, by decide +kernel, by decide +kernel,
    cuts_unobservable (System.Reachable.start rfl) {} hiYoEnv hiThenYo
      (by decide +kernel) rfl (by decide +kernel)⟩

end Uclip
