import Uclip.Handler
import Uclip.Lib.Bounded
import Uclip.Lib.Spans

/-!
# Paging through a changing snapshot

A client reads the snapshot page by page: each `List` starts where the page
before it ended. Between two calls the Wayland thread pushes summaries, and once
the snapshot is full every push moves the rows one place to the front, some of
them past the place where the next page starts.
-/

namespace Uclip

/-- What was pushed since the call before, and the limit the client asks with. -/
structure PageCall where
  pushes : List EntrySummary
  limit : Nat

structure Visit where
  /-- How many rows had been evicted: the place of the first row among all rows ever stored. -/
  first : Nat
  rows : Snapshot
  offset : Nat
  limit : Nat
  page : List EntrySummary
  deriving DecidableEq

/-- The next offset is the offset plus the number of rows just returned. -/
def visits (snap : Snapshot) (first offset : Nat) : List PageCall → List Visit
  | [] => []
  | call :: calls =>
    let rows := call.pushes.foldl pushSummary snap
    let evicted := snap.length + call.pushes.length - rows.length
    let page := (listSnapshot rows offset call.limit).2
    ⟨first + evicted, rows, offset, call.limit, page⟩ ::
      visits rows (first + evicted) (offset + page.length) calls

/-- A whole paging, from offset 0. -/
def paging (initial : Snapshot) (calls : List PageCall) : List Visit := visits initial 0 0 calls

/-- Every row that was ever stored, oldest first. -/
def everStored (initial : Snapshot) (calls : List PageCall) : List EntrySummary :=
  initial ++ calls.flatMap (·.pushes)

namespace Visit

def held (v : Visit) : List Nat := List.range' v.first v.rows.length

def pageStart (v : Visit) : Nat := v.first + v.offset

def pageStop (v : Visit) : Nat := v.first + v.offset + v.page.length

def returned : Visit → List Nat := Spans.positions pageStart pageStop

/-- One call after the other: no page, and no row, is left behind. -/
structure Before (v w : Visit) : Prop where
  offset : w.offset = v.offset + v.page.length
  first : v.first ≤ w.first

end Visit

/-- Behind the page of one call, and moved in front of the offset of the next. -/
def Skipped (vs : List Visit) (p : Nat) : Prop :=
  ∃ pair ∈ vs.zip vs.tail,
    pair.1.first + pair.2.offset ≤ p ∧ p < pair.2.first + pair.2.offset

instance (vs : List Visit) (p : Nat) : Decidable (Skipped vs p) :=
  inferInstanceAs (Decidable (∃ pair ∈ vs.zip vs.tail, _))

structure Paged (stored : List EntrySummary) (vs : List Visit) : Prop where
  rows : ∀ v ∈ vs, v.rows.map some = v.held.map (stored[·]?)
  pages : ∀ v ∈ vs, v.page.map some = v.returned.map (stored[·]?)
  once : (vs.flatMap Visit.returned).Nodup
  ids : (stored.map (·.id)).Nodup → ((vs.flatMap (·.page)).map (·.id)).Nodup
  complete : ∀ p, (∀ v ∈ vs, p ∈ v.held) → (∃ v ∈ vs.getLast?, v.page = []) →
    ((∃ v ∈ vs, p ∈ v.returned) ↔ ¬ Skipped vs p)

variable {snap initial : Snapshot} {calls : List PageCall} {stored : List EntrySummary}
  {first offset : Nat} {v w : Visit}

/-- The pages are the answers of `handle_client`. -/
theorem visits_answered (h : v ∈ visits snap first offset calls) (id : String) :
    handleRequest v.rows ⟨1, id, .list v.offset v.limit⟩ =
      .reply (respond id (.entries v.rows.length v.page)) := by
  induction calls generalizing snap first offset with
  | nil => exact absurd h List.not_mem_nil
  | cons call calls ih =>
    rcases List.mem_cons.mp h with rfl | h
    · rfl
    · exact ih h

-- ---------------------------------------------------------------------------
-- One call after the other
-- ---------------------------------------------------------------------------

theorem visits_head (h : v ∈ (visits snap first offset calls).head?) :
    v.offset = offset ∧ first ≤ v.first := by
  cases calls with
  | nil => cases h
  | cons call calls =>
    cases h
    exact ⟨rfl, Nat.le_add_right ..⟩

theorem visits_chain (snap : Snapshot) (first offset : Nat) (calls : List PageCall) :
    (visits snap first offset calls).IsChain Visit.Before := by
  induction calls generalizing snap first offset with
  | nil => exact .nil
  | cons call calls ih =>
    refine List.isChain_cons.mpr ⟨fun w hw => ?_, ih ..⟩
    obtain ⟨hoffset, hfirst⟩ := visits_head hw
    exact ⟨hoffset, hfirst⟩

theorem Visit.pageStart_le (v : Visit) : v.pageStart ≤ v.pageStop := Nat.le_add_right ..

theorem Visit.Before.pageStop_le (h : v.Before w) : v.pageStop ≤ w.pageStart := by
  have hoffset := h.offset
  have hfirst := h.first
  rw [Visit.pageStop, Visit.pageStart]
  omega

theorem ordered_of_chain {vs : List Visit} (h : vs.IsChain Visit.Before) :
    Spans.Ordered Visit.pageStart Visit.pageStop vs :=
  h.imp fun _ _ => Visit.Before.pageStop_le

theorem before_of_mem_zip {vs : List Visit} (h : vs.IsChain Visit.Before)
    (hpair : (v, w) ∈ vs.zip vs.tail) : v.Before w := by
  induction vs with
  | nil => cases hpair
  | cons first vs ih =>
    cases vs with
    | nil => cases hpair
    | cons second vs =>
      obtain ⟨hbefore, hrest⟩ := List.isChain_cons_cons.mp h
      rcases List.mem_cons.mp hpair with heq | hpair
      · cases heq
        exact hbefore
      · exact ih hrest hpair

theorem skipped_iff {vs : List Visit} (h : vs.IsChain Visit.Before) (p : Nat) :
    Skipped vs p ↔ Spans.InGap Visit.pageStart Visit.pageStop vs p := by
  rw [Skipped, Spans.InGap]
  refine exists_congr fun pair => and_congr_right fun hpair => ?_
  obtain ⟨v, w⟩ := pair
  rw [Visit.pageStop, Visit.pageStart, (before_of_mem_zip h hpair).offset, Nat.add_assoc]

-- ---------------------------------------------------------------------------
-- The rows ever stored
-- ---------------------------------------------------------------------------

/-- The snapshot is the end of what was stored so far, from place `first` on. -/
structure Window (stored : List EntrySummary) (snap : Snapshot) (first : Nat) : Prop where
  rows : snap = stored.drop first
  first_le : first ≤ stored.length

theorem Window.start (initial : Snapshot) : Window initial initial 0 :=
  ⟨List.drop_zero.symm, Nat.zero_le _⟩

theorem Window.push (h : Window stored snap first) (hsnap : snap.length ≤ maxHistory)
    (pushes : List EntrySummary) :
    Window (stored ++ pushes) (pushes.foldl pushSummary snap)
      (first + (snap.length + pushes.length - (pushes.foldl pushSummary snap).length)) := by
  have hrows : pushes.foldl pushSummary snap = Bounded.popWhileOver maxHistory (snap ++ pushes) :=
    Bounded.foldl_push_of_le hsnap pushes
  have hlen : snap.length = stored.length - first := by rw [h.rows, List.length_drop]
  have hle := h.first_le
  rw [hrows, Bounded.length_popWhileOver, List.length_append]
  refine ⟨?_, by rw [List.length_append]; omega⟩
  have hdrop : first + (snap.length + pushes.length - min (snap.length + pushes.length) maxHistory)
      = first + (snap.length + pushes.length - maxHistory) := by omega
  rw [hdrop, Bounded.popWhileOver_eq_drop, List.length_append, ← List.drop_drop,
    List.drop_append_of_le_length hle, ← h.rows]

theorem length_pushes_le (hsnap : snap.length ≤ maxHistory) (pushes : List EntrySummary) :
    (pushes.foldl pushSummary snap).length ≤ maxHistory := by
  rw [show pushes.foldl pushSummary snap = _ from Bounded.foldl_push_of_le hsnap pushes,
    Bounded.length_popWhileOver]
  exact Nat.min_le_right ..

theorem map_some_eq {xs : List EntrySummary} {i : Nat}
    (h : ∀ j, (hj : j < xs.length) → stored[i + j]? = some xs[j]) :
    xs.map some = (List.range' i xs.length).map (stored[·]?) := by
  refine List.ext_getElem (by simp) fun j hj _ => ?_
  rw [List.length_map] at hj
  simp [h j hj]

theorem Window.rows_eq (h : Window stored snap first) (more : List EntrySummary) :
    ∀ j, (hj : j < snap.length) → (stored ++ more)[first + j]? = some snap[j] := by
  intro j hj
  obtain ⟨rfl, hle⟩ := h
  have hlt : first + j < stored.length := by
    rw [List.length_drop] at hj
    omega
  rw [List.getElem?_append_left hlt, List.getElem_drop, List.getElem?_eq_getElem hlt]

theorem Window.page_eq (h : Window stored snap first) (more : List EntrySummary)
    (offset limit : Nat) :
    ∀ j, (hj : j < (listSnapshot snap offset limit).2.length) →
      (stored ++ more)[first + offset + j]? = some (listSnapshot snap offset limit).2[j] := by
  intro j hj
  have hlt : offset + j < snap.length := by
    simp only [listSnapshot, List.length_take, List.length_drop] at hj
    omega
  rw [Nat.add_assoc, h.rows_eq more _ hlt]
  simp only [listSnapshot, List.getElem_take, List.getElem_drop]

structure Served (stored : List EntrySummary) (v : Visit) : Prop where
  rows : v.rows.map some = v.held.map (stored[·]?)
  page : v.page.map some = v.returned.map (stored[·]?)
  answer : v.page = (listSnapshot v.rows v.offset v.limit).2

theorem visits_served (hw : Window stored snap first) (hsnap : snap.length ≤ maxHistory)
    (h : v ∈ visits snap first offset calls) : Served (everStored stored calls) v := by
  induction calls generalizing stored snap first offset with
  | nil => exact absurd h List.not_mem_nil
  | cons call calls ih =>
    have hstored : everStored stored (call :: calls) =
        everStored (stored ++ call.pushes) calls := by
      simp [everStored]
    have hnext := hw.push hsnap call.pushes
    rw [hstored]
    rcases List.mem_cons.mp h with rfl | h
    · refine ⟨map_some_eq (hnext.rows_eq _), ?_, rfl⟩
      rw [Visit.returned, Spans.positions, Visit.pageStop, Visit.pageStart, Nat.add_sub_cancel_left]
      exact map_some_eq (hnext.page_eq _ _ _)
    · exact ih hnext (length_pushes_le hsnap call.pushes) h

-- ---------------------------------------------------------------------------
-- Pages, once and complete
-- ---------------------------------------------------------------------------

theorem Visit.mem_held {p : Nat} : p ∈ v.held ↔ v.first ≤ p ∧ p < v.first + v.rows.length :=
  List.mem_range'_1

theorem visits_limit (h : v ∈ visits snap first offset calls) :
    ∃ call ∈ calls, v.limit = call.limit := by
  induction calls generalizing snap first offset with
  | nil => exact absurd h List.not_mem_nil
  | cons call calls ih =>
    rcases List.mem_cons.mp h with rfl | h
    · exact ⟨call, List.mem_cons_self, rfl⟩
    · obtain ⟨call', hcall, hlimit⟩ := ih h
      exact ⟨call', List.mem_cons_of_mem _ hcall, hlimit⟩

theorem Served.past_end (h : Served stored v) (hlimit : 1 ≤ v.limit) (hpage : v.page = []) :
    v.rows.length ≤ v.offset := by
  have hlen := congrArg List.length (h.answer.symm.trans hpage)
  simp only [listSnapshot, clampLimit, maxListLimit, List.length_take, List.length_drop,
    List.length_nil] at hlen
  omega

theorem ids_nodup {vs : List Visit}
    (hpages : ∀ v ∈ vs, v.page.map some = v.returned.map (stored[·]?))
    (honce : (vs.flatMap Visit.returned).Nodup) (hids : (stored.map (·.id)).Nodup) :
    ((vs.flatMap (·.page)).map (·.id)).Nodup := by
  have hpage : ∀ v ∈ vs, (v.page.map (·.id)).map some =
      v.returned.map ((stored.map (·.id))[·]?) := by
    intro v hv
    have hmapped := congrArg (List.map (Option.map EntrySummary.id)) (hpages v hv)
    simpa [Function.comp_def] using hmapped
  have heq : ((vs.flatMap (·.page)).map (·.id)).map some =
      (vs.flatMap Visit.returned).map ((stored.map (·.id))[·]?) := by
    rw [List.map_flatMap, List.map_flatMap, List.map_flatMap]
    exact List.flatMap_congr hpage
  refine (List.nodup_map_iff (Option.some_injective _)).mp (heq ▸ honce.map_on ?_)
  intro i hi j _ hij
  obtain ⟨v, hv, hi⟩ := List.mem_flatMap.mp hi
  have hsome : stored[i]? ∈ v.page.map some := hpages v hv ▸ List.mem_map_of_mem hi
  obtain ⟨row, -, hrow⟩ := List.mem_map.mp hsome
  have hlt := (List.getElem?_eq_some_iff.mp hrow.symm).1
  exact (List.getElem?_inj (by rwa [List.length_map]) hids).mp hij

/-- A paging returns no row twice. Of the rows in the snapshot at every call up
to an empty page, it returns all but those that evictions move, between two
calls, from behind the page just returned to in front of the next offset. -/
theorem paging_complete_iff (hinitial : initial.length ≤ maxHistory)
    (hlimit : ∀ call ∈ calls, 1 ≤ call.limit) :
    Paged (everStored initial calls) (paging initial calls) := by
  have hserved : ∀ v ∈ paging initial calls, Served (everStored initial calls) v := fun v hv =>
    visits_served (.start initial) hinitial hv
  have hchain : (paging initial calls).IsChain Visit.Before := visits_chain ..
  have hordered := ordered_of_chain hchain
  have honce := Spans.nodup_positions (fun v _ => v.pageStart_le) hordered
  refine ⟨fun v hv => (hserved v hv).rows, fun v hv => (hserved v hv).page, honce,
    ids_nodup (fun v hv => (hserved v hv).page) honce, fun p hheld ⟨last, hlast, hempty⟩ => ?_⟩
  rw [skipped_iff hchain]
  refine Spans.covered_iff (fun v _ => v.pageStart_le) hordered ?_ ⟨last, hlast, ?_⟩
  · intro v hv
    have hfirst := (Visit.mem_held.mp (hheld v (List.mem_of_mem_head? hv))).1
    rw [Visit.pageStart, (visits_head hv).1]
    exact hfirst
  · have hmem := List.mem_of_mem_getLast? hlast
    obtain ⟨call, hcall, hask⟩ := visits_limit hmem
    have hend := (hserved last hmem).past_end (hask ▸ hlimit call hcall) hempty
    have hlt := (Visit.mem_held.mp (hheld last hmem)).2
    rw [Visit.pageStart]
    omega

-- ---------------------------------------------------------------------------
-- A row that is skipped
-- ---------------------------------------------------------------------------

def numbered (id : Nat) : EntrySummary := ⟨id, 0, .text, "text/plain", "", true⟩

def fullSnapshot : Snapshot := (List.range maxHistory).map numbered

def pushAfterFirst (limit : Nat) : List PageCall :=
  ⟨[], 1⟩ :: ⟨[numbered maxHistory], limit⟩ :: List.replicate 10 ⟨[], limit⟩

theorem third_row_returned : ∃ v ∈ paging fullSnapshot (pushAfterFirst 10000), 2 ∈ v.returned :=
  ((paging_complete_iff (by decide +kernel) (by decide)).complete 2 (by decide +kernel)
    (by decide +kernel)).mpr (by decide +kernel)

/-- The row after the first page is in front of the second one. -/
theorem second_row_skipped :
    ¬ ∀ initial calls, initial.length ≤ maxHistory → (∀ call ∈ calls, 1 ≤ call.limit) →
      ((everStored initial calls).map (·.id)).Nodup →
      (∃ v ∈ (paging initial calls).getLast?, v.page = []) →
      (((paging initial calls).flatMap (·.page)).map (·.id)).Nodup ∧
        ∀ row, (∀ v ∈ paging initial calls, row ∈ v.rows) →
          ∃ v ∈ paging initial calls, row ∈ v.page := by
  intro h
  have hids : (everStored fullSnapshot (pushAfterFirst 10000)).map (·.id) =
      List.range (maxHistory + 1) := by decide +kernel
  obtain ⟨-, h⟩ := h fullSnapshot (pushAfterFirst 10000) (by decide +kernel) (by decide)
    (hids ▸ List.nodup_range) (by decide +kernel)
  exact absurd (h (numbered 1) (by decide +kernel)) (by decide +kernel)

end Uclip
