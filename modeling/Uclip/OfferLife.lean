import Uclip.Drained
import Uclip.Effects
import Uclip.Lib.Ledger
import Uclip.Lib.System

/-!
# The offers the compositor introduces

The compositor introduces an offer, announces its types and then names it in
one `Selection` or `PrimarySelection`. The daemon destroys the offer of the
regular selection when the next one comes. It ignores `PrimarySelection`, and
that offer is never destroyed.
-/

namespace Uclip

open Text (Bytes)

def Request.destroysOffer : Request → Option Offer
  | .destroyOffer destroyed => some destroyed
  | _ => none

def AppState.destroyedOffers (s : AppState) : List Offer :=
  s.requests.filterMap Request.destroysOffer

/-- The daemon with what the compositor knows: the offers it introduced, those
it has not named yet, and those a `PrimarySelection` named. -/
structure OfferRun where
  app : AppState
  introduced : List Offer := []
  waiting : List Offer := []
  ignored : List Offer := []

inductive OfferStep
  | handle (io : RequestIo) (event : Event)
  | drain (env : DrainEnv)

/-- What the protocol promises about the next event. -/
def OfferRun.Conforms (s : OfferRun) : Event → Prop
  | .dataOffer offer => offer ∉ s.introduced ∧ ∀ other ∈ s.introduced,
      other ∉ s.app.destroyedOffers → other.protocolId ≠ offer.protocolId
  | .offer offer _ => offer ∈ s.waiting
  | .selection (some offer) => offer ∈ s.waiting
  | .primarySelection (some offer) => offer ∈ s.waiting
  | _ => True

def OfferRun.noted (s : OfferRun) : Event → OfferRun
  | .dataOffer offer =>
    { s with introduced := s.introduced ++ [offer], waiting := s.waiting ++ [offer] }
  | .selection (some offer) => { s with waiting := s.waiting.erase offer }
  | .primarySelection (some offer) =>
    { s with waiting := s.waiting.erase offer, ignored := s.ignored ++ [offer] }
  | _ => s

def offerSystem : System OfferRun OfferStep where
  init s := s.app.offers = ∅ ∧ s.app.currentSelection = none ∧ s.app.destroyedOffers = [] ∧
    s.introduced = [] ∧ s.waiting = [] ∧ s.ignored = []
  step s label s' :=
    match label with
    | .handle io event =>
      s.Conforms event ∧ s' = { s.noted event with app := dispatch io s.app event }
    | .drain env => s' = { s with app := (drainPendingReads env s.app).1 }

/-- Nothing is left behind, and nothing is destroyed twice. -/
structure NoOfferLeaks (s : OfferRun) : Prop where
  proxies : ∀ offer ∈ s.introduced, offer ∉ s.app.destroyedOffers →
    s.app.currentSelection = some offer ∨ offer ∈ s.waiting
  keys : ∀ id ∈ s.app.offers, ∃ offer : Offer, offer.protocolId = id ∧
    (s.app.currentSelection = some offer ∨ offer ∈ s.waiting)
  once : s.app.destroyedOffers.Nodup

-- ---------------------------------------------------------------------------
-- The ledger of offers
-- ---------------------------------------------------------------------------

/-- The offers nobody has destroyed: of the selection, still to be named, ignored. -/
def OfferRun.held (s : OfferRun) : List Offer :=
  s.app.currentSelection.toList ++ s.waiting ++ s.ignored

structure OfferLedger (s : OfferRun) : Prop where
  balanced : Ledger.Balanced s.introduced s.app.destroyedOffers (· ∈ s.held)
  nodup : s.held.Nodup
  keys : ∀ id ∈ s.app.offers, ∃ offer ∈ s.held, offer.protocolId = id

variable {s s' : OfferRun} {offer : Offer}

structure SameOffers (s s' : AppState) : Prop where
  destroyed : s'.destroyedOffers = s.destroyedOffers
  selection : s'.currentSelection = s.currentSelection
  keys : ∀ id ∈ s'.offers, id ∈ s.offers

theorem OfferLedger.same (h : OfferLedger s) {app : AppState} (hs : SameOffers s.app app) :
    OfferLedger { s with app } := by
  have hheld : OfferRun.held { s with app } = s.held := by
    rw [OfferRun.held, hs.selection]
    rfl
  refine ⟨?_, ?_, ?_⟩
  · rw [hheld, hs.destroyed]
    exact h.balanced
  · rw [hheld]
    exact h.nodup
  · intro id hid
    rw [hheld]
    exact h.keys id (hs.keys id hid)

theorem OfferLedger.perm (h : OfferLedger s) (hi : s'.introduced = s.introduced)
    (hd : s'.app.destroyedOffers = s.app.destroyedOffers) (hp : s'.held.Perm s.held)
    (hk : ∀ id ∈ s'.app.offers, ∃ offer ∈ s.held, offer.protocolId = id) : OfferLedger s' := by
  refine ⟨?_, hp.nodup_iff.mpr h.nodup, fun id hid => ?_⟩
  · rw [hi, hd]
    exact h.balanced.congr fun offer => hp.mem_iff.symm
  · obtain ⟨offer, hoffer, rfl⟩ := hk id hid
    exact ⟨offer, hp.mem_iff.mpr hoffer, rfl⟩

-- ---------------------------------------------------------------------------
-- The selection
-- ---------------------------------------------------------------------------

theorem clearSelection_of_some {s : AppState} (h : s.currentSelection = some offer) :
    s.clearSelection =
      { s with
        currentSelection := none
        offers := s.offers.erase offer.protocolId
        requests := s.requests ++ [.destroyOffer offer] } := by
  simp [AppState.clearSelection, h, AppState.removeOffer, AppState.send]

theorem clearSelection_of_none {s : AppState} (h : s.currentSelection = none) :
    s.clearSelection = s := by
  simp [AppState.clearSelection, h]

theorem OfferLedger.clear (h : OfferLedger s) :
    OfferLedger { s with app := s.app.clearSelection } := by
  cases hsel : s.app.currentSelection with
  | none =>
    rw [clearSelection_of_none hsel]
    exact h
  | some offer =>
    have hheld : s.held = offer :: (s.waiting ++ s.ignored) := by
      rw [OfferRun.held, hsel]
      rfl
    have hn := h.nodup
    rw [hheld] at hn
    obtain ⟨hnot, hn⟩ := List.nodup_cons.mp hn
    have hdestroyed : (s.app.requests ++ [Request.destroyOffer offer]).filterMap
        Request.destroysOffer = s.app.destroyedOffers ++ [offer] := by
      simp [Request.destroysOffer, AppState.destroyedOffers]
    have hmem : offer ∈ s.held := by
      rw [hheld]
      exact List.mem_cons_self
    rw [clearSelection_of_some hsel]
    refine ⟨?_, hn, ?_⟩
    · rw [AppState.destroyedOffers, hdestroyed]
      refine (h.balanced.remove hmem).congr fun other => ?_
      rw [hheld, List.mem_cons]
      constructor
      · rintro ⟨rfl | hother, hne⟩
        · exact absurd rfl hne
        · exact hother
      · intro hother
        exact ⟨.inr hother, fun heq => hnot (heq ▸ hother)⟩
    · intro id hid
      obtain ⟨hne, hid⟩ := Std.ExtTreeMap.mem_erase.mp hid
      obtain ⟨other, hother, rfl⟩ := h.keys id hid
      rw [hheld] at hother
      rcases List.mem_cons.mp hother with rfl | hother
      · exact absurd Std.ReflCmp.compare_self hne
      · exact ⟨other, hother, rfl⟩

theorem clearOther_eq {s : AppState} (h : s.currentSelection ≠ some offer) :
    clearOther s offer = s.clearSelection := by
  unfold clearOther
  cases hsel : s.currentSelection with
  | none => rw [clearSelection_of_none hsel]
  | some old =>
    have hne : old ≠ offer := fun heq => h (heq ▸ hsel)
    simp only [ne_eq, hne, not_false_eq_true, if_true]

theorem sameOffers_requestMime (io : RequestIo) (offer : Offer) (s : AppState) (mime : String) :
    SameOffers s (requestMime io offer s mime) := by
  have hsent : ∀ fd, (s.requests ++ [Request.receive offer mime fd]).filterMap
      Request.destroysOffer = s.destroyedOffers := by
    intro fd
    simp [Request.destroysOffer, AppState.destroyedOffers]
  unfold requestMime
  dsimp only
  split
  · split
    · exact ⟨hsent _, rfl, fun _ => id⟩
    · exact ⟨hsent _, rfl, fun _ => id⟩
  · exact ⟨rfl, rfl, fun _ => id⟩

theorem SameOffers.trans {s s' s'' : AppState} (h : SameOffers s s') (h' : SameOffers s' s'') :
    SameOffers s s'' :=
  ⟨h'.destroyed.trans h.destroyed, h'.selection.trans h.selection,
    fun id hid => h.keys id (h'.keys id hid)⟩

theorem SameOffers.refl (s : AppState) : SameOffers s s := ⟨rfl, rfl, fun _ => id⟩

theorem sameOffers_requestMimes (io : RequestIo) (offer : Offer) (mimes : List String)
    (s : AppState) : SameOffers s (mimes.foldl (requestMime io offer) s) := by
  induction mimes generalizing s with
  | nil => exact .refl s
  | cons mime mimes ih => exact (sameOffers_requestMime io offer s mime).trans (ih _)

theorem sameOffers_drain (env : DrainEnv) (s : AppState) :
    SameOffers s (drainPendingReads env s).1 := by
  obtain ⟨_, _, hframe⟩ := drain_frame env s
  refine ⟨by rw [hframe]; rfl, by rw [hframe], fun id hid => ?_⟩
  rw [drain_offers, Std.ExtTreeMap.mem_iff_isSome_getElem?, getElem?_without] at hid
  split at hid
  · cases hid
  · exact Std.ExtTreeMap.mem_iff_isSome_getElem?.mpr hid

-- ---------------------------------------------------------------------------
-- Events
-- ---------------------------------------------------------------------------

theorem OfferLedger.introduce (h : OfferLedger s) (hnew : offer ∉ s.introduced)
    (hi : s'.introduced = s.introduced ++ [offer])
    (hd : s'.app.destroyedOffers = s.app.destroyedOffers)
    (hp : s'.held.Perm (s.held ++ [offer]))
    (hk : s'.app.offers = s.app.offers.insert offer.protocolId {}) : OfferLedger s' := by
  have hnot : offer ∉ s.held := fun hheld => hnew ((h.balanced.live offer).mpr hheld).1
  refine ⟨?_, hp.nodup_iff.mpr ?_, fun id hid => ?_⟩
  · rw [hi, hd]
    refine (h.balanced.add hnew).congr fun other => ?_
    rw [hp.mem_iff, List.mem_append, List.mem_singleton]
  · refine List.nodup_append.mpr ⟨h.nodup, by simp, ?_⟩
    rintro other hother last hlast rfl
    exact hnot (List.mem_singleton.mp hlast ▸ hother)
  · rw [hk] at hid
    rcases Std.ExtTreeMap.mem_insert.mp hid with heq | hid
    · exact ⟨offer, hp.mem_iff.mpr (by simp), Std.LawfulEqOrd.eq_of_compare heq⟩
    · obtain ⟨other, hother, rfl⟩ := h.keys id hid
      exact ⟨other, hp.mem_iff.mpr (List.mem_append_left _ hother), rfl⟩

theorem OfferLedger.selection_ne (h : OfferLedger s) (hw : offer ∈ s.waiting) :
    s.app.currentSelection ≠ some offer := by
  intro hsel
  have hn := h.nodup
  rw [OfferRun.held, hsel, List.append_assoc] at hn
  exact (List.nodup_cons.mp hn).1 (List.mem_append_left s.ignored hw)

theorem OfferLedger.selected (h : OfferLedger s) (hw : offer ∈ s.waiting) (io : RequestIo) :
    OfferLedger { s with
      app := dispatch io s.app (.selection (some offer))
      waiting := s.waiting.erase offer } := by
  have hcleared := h.clear
  have hset : OfferLedger { s with
      app := s.app.clearSelection.setSelection offer
      waiting := s.waiting.erase offer } := by
    refine hcleared.perm rfl rfl ?_ hcleared.keys
    simp only [OfferRun.held, AppState.setSelection, clearSelection_cleared]
    exact List.Perm.append_right _ (List.perm_cons_erase hw).symm
  simp only [dispatch, handleSelection, clearOther_eq (h.selection_ne hw)]
  split
  · exact hset
  · exact hset.same (sameOffers_requestMimes io offer _ _)

theorem perm_ignore {waiting ignored : List Offer} (hw : offer ∈ waiting) :
    (waiting.erase offer ++ (ignored ++ [offer])).Perm (waiting ++ ignored) := by
  rw [← List.append_assoc]
  have hfront : (waiting.erase offer ++ ignored ++ [offer]).Perm
      (offer :: (waiting.erase offer ++ ignored)) := List.perm_append_comm
  exact hfront.trans (List.Perm.append_right ignored (List.perm_cons_erase hw).symm)

theorem OfferLedger.handle (h : OfferLedger s) (io : RequestIo) (event : Event)
    (hc : s.Conforms event) :
    OfferLedger { s.noted event with app := dispatch io s.app event } := by
  cases event with
  | global interface object =>
    refine h.same ?_
    simp only [dispatch]
    split
    · exact ⟨rfl, rfl, fun _ => id⟩
    · split
      · exact ⟨rfl, rfl, fun _ => id⟩
      · exact .refl _
  | globalRemove => exact h
  | dataOffer offer =>
    refine h.introduce hc.1 rfl rfl ?_ rfl
    simp only [OfferRun.held, OfferRun.noted, List.append_assoc]
    exact List.Perm.append_left _ (List.Perm.append_left _ List.perm_append_comm)
  | offer offer mimeType =>
    refine h.perm rfl rfl .rfl fun id hid => ?_
    rcases Std.ExtTreeMap.mem_insert.mp hid with heq | hid
    · exact ⟨offer, List.mem_append_left _ (List.mem_append_right _ hc),
        Std.LawfulEqOrd.eq_of_compare heq⟩
    · exact h.keys id hid
  | selection offer =>
    cases offer with
    | none => exact h.clear
    | some offer => exact h.selected hc io
  | primarySelection offer =>
    cases offer with
    | none => exact h
    | some offer =>
      refine h.perm rfl rfl ?_ h.keys
      simp only [OfferRun.held, OfferRun.noted, List.append_assoc]
      exact List.Perm.append_left _ (perm_ignore hc)
  | finished =>
    have hdevice : SameOffers s.app s.app.clearDevice := ⟨rfl, rfl, fun _ => id⟩
    exact (h.same hdevice).clear
  | send source mimeType fd => exact h
  | cancelled source =>
    refine h.same ?_
    by_cases hcurrent : s.app.currentSource = some source
    · rw [dispatch_cancelled io hcurrent]
      refine ⟨?_, rfl, fun _ => id⟩
      simp [Request.destroysOffer, AppState.destroyedOffers]
    · rw [dispatch_cancelled_of_ne io hcurrent]
      exact .refl _

-- ---------------------------------------------------------------------------
-- Runs
-- ---------------------------------------------------------------------------

def OfferStep.ignored : OfferStep → Option Offer
  | .handle _ (.primarySelection offer) => offer
  | _ => none

theorem ignored_noted (s : OfferRun) (io : RequestIo) (event : Event) :
    (s.noted event).ignored = s.ignored ++ (OfferStep.ignored (.handle io event)).toList := by
  cases event with
  | selection offer => cases offer <;> simp [OfferRun.noted, OfferStep.ignored]
  | primarySelection offer => cases offer <;> simp [OfferRun.noted, OfferStep.ignored]
  | _ => simp [OfferRun.noted, OfferStep.ignored]

theorem offerLedger_run (run : offerSystem.Run labels s) :
    OfferLedger s ∧ s.ignored = labels.filterMap OfferStep.ignored := by
  induction run with
  | start hinit =>
    obtain ⟨hoffers, hsel, hdestroyed, hintroduced, hwaiting, hignored⟩ := hinit
    rename_i s
    have hheld : s.held = [] := by simp [OfferRun.held, hsel, hwaiting, hignored]
    refine ⟨⟨?_, ?_, ?_⟩, hignored⟩
    · rw [hintroduced, hdestroyed, hheld]
      exact Ledger.Balanced.empty.congr fun offer => by simp
    · rw [hheld]
      exact .nil
    · rw [hoffers]
      intro id hid
      exact absurd hid Std.ExtTreeMap.not_mem_empty
  | next run hstep ih =>
    obtain ⟨hledger, hignored⟩ := ih
    rename_i label _
    rw [List.filterMap_append, ← hignored]
    cases label with
    | handle io event =>
      obtain ⟨hc, rfl⟩ := hstep
      refine ⟨hledger.handle io event hc, ?_⟩
      rw [ignored_noted _ io]
      cases hi : OfferStep.ignored (.handle io event) <;> simp [hi]
    | drain env =>
      obtain rfl := hstep
      exact ⟨hledger.same (sameOffers_drain env _), by simp [OfferStep.ignored]⟩

theorem noOfferLeaks_iff (h : OfferLedger s) : NoOfferLeaks s ↔ s.ignored = [] := by
  constructor
  · intro hleaks
    rw [List.eq_nil_iff_forall_not_mem]
    intro offer hmem
    have hn := h.nodup
    rw [OfferRun.held] at hn
    have hheld : offer ∈ s.held := List.mem_append_right _ hmem
    obtain ⟨hintroduced, hdestroyed⟩ := (h.balanced.live offer).mpr hheld
    refine (List.nodup_append.mp hn).2.2 offer ?_ offer hmem rfl
    rw [List.mem_append, Option.mem_toList]
    exact hleaks.proxies offer hintroduced hdestroyed
  · intro hnil
    have hheld (offer : Offer) :
        offer ∈ s.held ↔ s.app.currentSelection = some offer ∨ offer ∈ s.waiting := by
      simp [OfferRun.held, hnil]
    refine ⟨fun offer hi hd => ?_, fun id hid => ?_, h.balanced.closed_nodup⟩
    · exact (hheld offer).mp ((h.balanced.live offer).mp ⟨hi, hd⟩)
    · obtain ⟨offer, hoffer, hid⟩ := h.keys id hid
      exact ⟨offer, hid, (hheld offer).mp hoffer⟩

/-- Nothing is left behind by a run exactly when no `PrimarySelection` named an offer. -/
theorem no_offer_leaks_iff (run : offerSystem.Run labels s) :
    NoOfferLeaks s ↔ ∀ label ∈ labels, label.ignored = none := by
  obtain ⟨hledger, hignored⟩ := offerLedger_run run
  rw [noOfferLeaks_iff hledger, hignored, List.filterMap_eq_nil_iff]

theorem run_handle (run : offerSystem.Run labels s) (io : RequestIo) (event : Event)
    (hc : s.Conforms event) :
    offerSystem.Run (labels ++ [.handle io event])
      { s.noted event with app := dispatch io s.app event } :=
  run.next ⟨hc, rfl⟩

def offerAnnounced : OfferRun where
  app := dispatchPending {} .new [.dataOffer ⟨1, 0⟩, .offer ⟨1, 0⟩ "text/plain"]
  introduced := [⟨1, 0⟩]
  waiting := [⟨1, 0⟩]

theorem offerAnnounced_run : offerSystem.Run
    [.handle {} (.dataOffer ⟨1, 0⟩), .handle {} (.offer ⟨1, 0⟩ "text/plain")] offerAnnounced := by
  have hstart : offerSystem.Run [] { app := .new } := .start ⟨rfl, rfl, rfl, rfl, rfl, rfl⟩
  have hintroduced := run_handle hstart {} (.dataOffer ⟨1, 0⟩) ⟨by simp, by simp⟩
  exact run_handle hintroduced {} (.offer ⟨1, 0⟩ "text/plain") List.mem_cons_self

theorem selected_offer_destroyed : ∃ labels s, offerSystem.Run labels s ∧ NoOfferLeaks s ∧
    s.app.destroyedOffers = [⟨1, 0⟩] := by
  have hselected := run_handle offerAnnounced_run {} (.selection (some ⟨1, 0⟩))
    List.mem_cons_self
  have hcleared := run_handle hselected {} (.selection none) trivial
  exact ⟨_, _, hcleared, (no_offer_leaks_iff hcleared).mpr (by decide), by decide +kernel⟩

/-- It becomes the primary selection. -/
theorem primary_offer_leaks : ∃ labels s, offerSystem.Run labels s ∧ ¬ NoOfferLeaks s := by
  have hprimary := run_handle offerAnnounced_run {} (.primarySelection (some ⟨1, 0⟩))
    List.mem_cons_self
  refine ⟨_, _, hprimary, fun hleaks => ?_⟩
  rcases hleaks.proxies ⟨1, 0⟩ (by decide) (by decide +kernel) with hsel | hwaiting
  · revert hsel
    decide +kernel
  · revert hwaiting
    decide +kernel

end Uclip
