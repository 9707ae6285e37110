import Uclip.Delivery
import Uclip.Lib.Trace

/-!
# What a client can make of its lines

The events that a client is written stand side by side: each starts where the
one before it stopped. A page is one of the snapshot of a moment that is not
before the events the client has been given already. So a client that adds to
the last page what it is pushed afterwards holds the newest rows of some moment,
without a gap and without a repetition.
-/

namespace Uclip

open Text (Bytes)
open Trace (Legal)

def Line.advance (position : Nat) (line : Line) : Option Nat :=
  match line.purpose with
  | .event i => if i = position then some (position + 1) else none
  | .missed low high => if low = position ∧ low ≤ high then some high else none
  | _ => some position

def standing (joined : Nat) (lines : List Line) : Option Nat := lines.foldlM Line.advance joined

def Line.added (line : Line) : Option EntrySummary :=
  match line.message with
  | .event ⟨_, event⟩ => event.added
  | _ => none

theorem standing_snoc (joined : Nat) (lines : List Line) (line : Line) :
    standing joined (lines ++ [line]) = (standing joined lines).bind (line.advance ·) := by
  simp [standing, List.foldlM_append]

theorem standing_append (joined : Nat) (before after : List Line) :
    standing joined (before ++ after) = (standing joined before).bind (standing · after) := by
  simp only [standing, List.foldlM_append]
  rfl

theorem Line.advance_plain {line : Line} (h : ¬ line.IsPush) (position : Nat) :
    line.advance position = some position := by
  unfold Line.advance
  split
  · exact absurd (.inl ⟨_, ‹_›⟩) h
  · exact absurd (.inr ⟨_, _, ‹_›⟩) h
  · rfl

namespace Server

variable {clock : Clock} {serde : Serde} {s s' : Server} {c : Nat} {client client' : Client}
  {requests : Channel Nat PendingRestore} {asked : List Asked} {line : Line}
  {labels : List ServerAct} {joined : Nat}

-- ---------------------------------------------------------------------------
-- Pages
-- ---------------------------------------------------------------------------

/-- A page that answers a `List` of the client, read when `moment` summaries had
been pushed. -/
structure PageOf (serde : Serde) (labels : List ServerAct) (s : Server) (c moment : Nat)
    (id : String) (offset total : Nat) (rows : List EntrySummary) : Prop where
  asked : ∃ request v limit, .client c (.line request) ∈ labels ∧
    parseLine serde request = .ok ⟨v, id, .list offset limit⟩ ∧
    (total, rows) = listSnapshot (Bounded.popWhileOver maxHistory
      ((s.pushed.take moment).filterMap ServerEvent.added)) offset limit
  pushed : moment ≤ s.pushed.length

/-- The line is no page, or one of a moment when all that the lines before it
give had been pushed. -/
def PageOk (serde : Serde) (labels : List ServerAct) (s : Server) (c joined : Nat)
    (before : List Line) (line : Line) : Prop :=
  ∀ id total rows, line.message = respond id (.entries total rows) →
    ∃ position moment offset, standing joined before = some position ∧ position ≤ moment ∧
      PageOf serde labels s c moment id offset total rows

structure Tiled (serde : Serde) (labels : List ServerAct) (s : Server) (c : Nat)
    (client : Client) : Prop where
  standing : standing client.joined client.lines = some client.next
  pages : Legal (PageOk serde labels s c client.joined) client.lines

theorem PageOf.mono {moment offset total : Nat} {id : String} {rows : List EntrySummary}
    (h : PageOf serde labels s c moment id offset total rows) (hg : Grows s s') (a : ServerAct) :
    PageOf serde (labels ++ [a]) s' c moment id offset total rows := by
  obtain ⟨⟨request, v, limit, hlabel, hparse, hpage⟩, hle⟩ := h
  obtain ⟨more, hmore⟩ := hg.pushed
  refine ⟨⟨request, v, limit, List.mem_append_left _ hlabel, hparse, ?_⟩,
    hle.trans hg.pushed.length_le⟩
  rwa [← hmore, List.take_append_of_le_length hle]

theorem PageOk.mono {before : List Line} (h : PageOk serde labels s c joined before line)
    (hg : Grows s s') (a : ServerAct) : PageOk serde (labels ++ [a]) s' c joined before line := by
  intro id total rows hm
  obtain ⟨position, moment, offset, hstand, hle, hpage⟩ := h id total rows hm
  exact ⟨position, moment, offset, hstand, hle, hpage.mono hg a⟩

theorem Tiled.same (h : Tiled serde labels s c client) (hg : Grows s s') (a : ServerAct)
    (hlines : client'.lines = client.lines) (hjoined : client'.joined = client.joined)
    (hnext : client'.next = client.next) : Tiled serde (labels ++ [a]) s' c client' where
  standing := by rw [hlines, hjoined, hnext, h.standing]
  pages := by
    rw [hlines, hjoined]
    exact h.pages.mono fun _ _ hok => hok.mono hg a

theorem Tiled.add (h : Tiled serde labels s c client) (hg : Grows s s') (a : ServerAct)
    (hlines : client'.lines = client.lines ++ [line]) (hjoined : client'.joined = client.joined)
    (hnext : line.advance client.next = some client'.next)
    (hpage : PageOk serde (labels ++ [a]) s' c client.joined client.lines line) :
    Tiled serde (labels ++ [a]) s' c client' where
  standing := by
    rw [hlines, hjoined, standing_snoc, h.standing]
    exact hnext
  pages := by
    rw [hlines, hjoined]
    exact Legal.snoc (h.pages.mono fun _ _ hok => hok.mono hg a) hpage

theorem Tiled.drop (h : Tiled serde labels s c client) (hg : Grows s s') (a : ServerAct)
    (hlines : client.lines = client'.lines ++ [line]) (hjoined : client'.joined = client.joined)
    (hnext : client'.next = client.next) (hline : ¬ line.IsPush) :
    Tiled serde (labels ++ [a]) s' c client' where
  standing := by
    have hstand := h.standing
    rw [hlines, standing_snoc] at hstand
    obtain ⟨position, hposition, hlast⟩ := Option.bind_eq_some_iff.mp hstand
    rw [Line.advance_plain hline] at hlast
    rw [hjoined, hnext, hposition, hlast]
  pages := by
    have hpages := h.pages
    rw [hlines] at hpages
    rw [hjoined]
    exact hpages.of_append.mono fun _ _ hok => hok.mono hg a

theorem handleLine_entries {snapshot : Snapshot} {id : String} {total : Nat}
    {rows : List EntrySummary}
    (h : handleLine serde snapshot l = .reply (respond id (.entries total rows))) :
    ∃ v offset limit, parseLine serde l = .ok ⟨v, id, .list offset limit⟩ ∧
      (total, rows) = listSnapshot snapshot offset limit := by
  unfold handleLine at h
  split at h
  · rename_i request hparse
    obtain ⟨v, rid, req⟩ := request
    cases req with
    | list offset limit =>
      simp only [handleRequest, respond, Handling.reply.injEq, Message.response.injEq,
        ResponseEnvelope.mk.injEq, DaemonResponse.entries.injEq, true_and] at h
      obtain ⟨rfl, rfl, rfl⟩ := h
      exact ⟨v, offset, limit, hparse, rfl⟩
    | _ => simp [handleRequest, respond] at h
  · rename_i message hparse
    simp only [Handling.reply.injEq] at h
    subst h
    unfold parseLine at hparse
    split at hparse
    · cases hparse
    · cases hreq : serde.request l <;> simp [hreq, Except.mapError, invalidReply, respond] at hparse

def Plain (d : Daemon) : Prop :=
  ∀ answer ∈ d.replies, ∀ total rows, answer.2 ≠ .entries total rows

theorem pageOk_of_ne {before : List Line}
    (h : ∀ id total rows, line.message ≠ respond id (.entries total rows)) :
    PageOk serde labels s c joined before line :=
  fun id total rows hm => absurd hm (h id total rows)

theorem clientStep_tiled {a : ClientAct} {summaries : List EntrySummary}
    (h : Tiled serde labels s c client) (hf : s.Follows client) (ho : s.Ordered summaries)
    (hplain : Plain s.daemon) (hg : Grows s s')
    (hs : s.ClientStep serde c client a client' requests asked) :
    Tiled serde (labels ++ [.client c a]) s' c client' := by
  have hanswered {id : String} {pending : PendingRestore} {resp : DaemonResponse}
      (hcurrent : client.current = none) (hresp : ∀ total rows, resp ≠ .entries total rows) :
      Tiled serde (labels ++ [.client c a]) s' c (client.answered id pending resp) := by
    refine h.add hg _ (by simp [Client.lines, hcurrent]; rfl) rfl rfl (pageOk_of_ne ?_)
    intro id' total rows hm
    simp only [respond, Message.response.injEq, ResponseEnvelope.mk.injEq] at hm
    exact hresp total rows hm.2.2
  cases hs with
  | @reply l message hp hl =>
    have hno : ¬ Line.IsPush
        ⟨message, if maxLineBytes < l.length then .bestEffort else .plain⟩ := by
      by_cases hlong : maxLineBytes < l.length <;> simp [Line.IsPush, hlong]
    refine h.add hg _ (by simp [Client.lines, Client.current, hp, Client.noteLine]) rfl
      (Line.advance_plain hno _) ?_
    intro id total rows hm
    obtain rfl : message = _ := hm
    obtain ⟨v, offset, limit, hparse, hpage⟩ := handleLine_entries hl
    refine ⟨client.next, s.pushed.length, offset, h.standing, ?_,
      ⟨⟨l, v, limit, by simp, hparse, ?_⟩, hg.pushed.length_le⟩⟩
    · exact hf.next.trans (List.prefix_append ..).length_le
    · rw [hpage, ho.snapshot, List.prefix_iff_eq_take.mp hg.pushed |>.symm, ho.pushed,
        filterMap_added]
  | @restore l id entryId hp _ =>
    exact h.same hg _ (by simp [Client.lines, Client.current, hp, Client.noteLine]) rfl rfl
  | @event event hp _ hevent =>
    refine h.add hg _ (by simp [Client.lines, Client.current, hp]; rfl) rfl ?_ (pageOk_of_ne ?_)
    · simp [Line.advance]
    · simp [eventMessage, respond]
  | @lagged next hp _ hlt hle =>
    refine h.add hg _ (by simp [Client.lines, Client.current, hp]; rfl) rfl ?_ (pageOk_of_ne ?_)
    · simp [Line.advance, hlt.le]
    · simp [laggedReply, respond]
  | sent hp _ _ => exact h.same hg _ (by simp [Client.lines, Client.current, hp]) rfl rfl
  | full _ _ _ => exact h.same hg _ rfl rfl rfl
  | refused hp _ => exact hanswered (by simp [Client.current, hp]) (by simp)
  | received hp hone =>
    exact hanswered (by simp [Client.current, hp]) (hplain _ (mem_replies_of_oneshot hone))
  | dropped hp _ _ => exact hanswered (by simp [Client.current, hp]) (by simp)
  | expired hp => exact hanswered (by simp [Client.current, hp]) (by simp)
  | written hp => exact h.same hg _ (by simp [Client.lines, Client.current, hp]) rfl rfl
  | @forgotten line hp hbest =>
    refine h.drop hg _ (by simp [Client.lines, Client.current, hp]; rfl) rfl rfl ?_
    rintro (⟨i, hi⟩ | ⟨low, high, hi⟩) <;> simp [hbest] at hi
  | left hp => exact h.same hg _ (by simp [Client.lines, Client.current, hp]) rfl rfl
  | broken hp => exact h.same hg _ (by simp [Client.lines, Client.current, hp]) rfl rfl

-- ---------------------------------------------------------------------------
-- Runs
-- ---------------------------------------------------------------------------

theorem act_plain {a : ServerAct} (h : Plain s.daemon) (hs : s.act clock serde a = some s') :
    Plain s'.daemon := by
  rcases act_cases hs with ⟨_, -, ht⟩ | ⟨-, rfl⟩ | ⟨_, _, _, _, _, _, -, -, -, rfl⟩
  · cases ht with
    | look _ =>
      rw [Plain, (look_frame clock s.daemon _).1]
      exact h
    | execute hasher offerHasher _ =>
      intro answer hmem total rows
      rcases handleRestore_cases clock hasher offerHasher s.daemon _ with
        ⟨_, _, -, -, hd⟩ | ⟨_, -, hd⟩ <;> rw [Server.execute, hd] at hmem
      · rcases List.mem_append.mp hmem with hmem | hmem
        · exact h answer hmem total rows
        · simp [List.mem_singleton.mp hmem]
      · rcases List.mem_append.mp hmem with hmem | hmem
        · exact h answer hmem total rows
        · simp [List.mem_singleton.mp hmem, DaemonResponse.ofError]
    | _ => exact h
  · exact h
  · exact h

structure Mirrored (serde : Serde) (labels : List ServerAct) (s : Server) : Prop where
  plain : Plain s.daemon
  clients : ∀ (c : Nat) client, s.clients[c]? = some client → Tiled serde labels s c client

theorem act_grows (h : s.Followed) (hs : s.act clock serde a = some s') : Grows s s' := by
  obtain ⟨summaries, ho⟩ := h.ordered
  obtain ⟨more, ho'⟩ := act_ordered ho hs
  refine ⟨act_events hs, ?_⟩
  rw [ho.pushed, ho'.pushed, List.map_append]
  exact List.prefix_append ..

theorem act_mirrored (hf : s.Followed) (h : Mirrored serde labels s)
    (hs : s.act clock serde a = some s') : Mirrored serde (labels ++ [a]) s' := by
  have hg := act_grows hf hs
  refine ⟨act_plain h.plain hs, ?_⟩
  have hold (k : Nat) (other : Client) (hk : s.clients[k]? = some other) :
      Tiled serde (labels ++ [a]) s' k other := (h.clients k other hk).same hg a rfl rfl rfl
  intro k other hk
  rcases act_cases hs with ⟨_, -, ht⟩ | ⟨-, rfl⟩ |
    ⟨c, a', client, client', requests, asked, rfl, hc, hstep, rfl⟩
  · rw [threadStep_clients ht] at hk
    exact hold k other hk
  · rcases getElem?_append_singleton hk with hk | rfl
    · exact hold k other hk
    · exact ⟨rfl, .nil⟩
  · rcases setClient_cases hk hc with ⟨rfl, rfl⟩ | ⟨-, hk⟩
    · obtain ⟨summaries, ho⟩ := hf.ordered
      exact clientStep_tiled (h.clients _ client hc) (hf.clients _ client hc).1 ho h.plain hg hstep
    · exact hold k other hk

theorem run_mirrored {seat manager device : Global}
    (h : (serverSystem clock serde seat manager device).Run labels s) :
    Mirrored serde labels s := by
  induction h with
  | start hinit =>
    cases hinit
    refine ⟨?_, ?_⟩
    · rintro _ ⟨⟩
    · intro c client hc
      cases hc
  | next hrun hstep ih => exact act_mirrored (reachable_followed ⟨_, hrun⟩) ih hstep

-- ---------------------------------------------------------------------------
-- What the lines add up to
-- ---------------------------------------------------------------------------

theorem added_between {summaries : List EntrySummary} {next : Nat}
    (hsent : ∀ (i : Nat) event, s.daemon.events[i]? = some event →
      ∃ summary, summaries[i]? = some summary ∧ ServerEvent.entryAdded summary = event)
    {lines : List Line} (hlines : ∀ line ∈ lines, s.LineOk next line) {position stop : Nat}
    (h : standing position lines = some stop) :
    position ≤ stop ∧
      (lines.filterMap Line.added).Sublist ((summaries.take stop).drop position) ∧
      ((∀ line ∈ lines, line.message ≠ laggedReply) →
        lines.filterMap Line.added = (summaries.take stop).drop position) := by
  induction lines generalizing position with
  | nil =>
    cases h
    simp
  | cons line lines ih =>
    obtain ⟨at', hadvance, hrest⟩ := Option.bind_eq_some_iff.mp h
    have hok := hlines line List.mem_cons_self
    obtain ⟨hle, hsub, hall⟩ := ih (fun l hl => hlines l (List.mem_cons_of_mem _ hl)) hrest
    -- A line that adds nothing and does not move.
    have hquiet (hnone : line.added = none) (hat : position ≤ at') :
        ((line :: lines).filterMap Line.added).Sublist ((summaries.take stop).drop position) := by
      rw [List.filterMap_cons, hnone]
      exact hsub.trans (List.drop_sublist_drop_left _ hat)
    unfold Line.advance at hadvance
    split at hadvance
    · rename_i i hpurpose
      split at hadvance
      · obtain rfl : i = position := ‹_›
        cases hadvance
        obtain ⟨-, event, hevent, hm⟩ := hok.event i hpurpose
        obtain ⟨summary, hsummary, rfl⟩ := hsent i event hevent
        have hadded : line.added = some summary := by
          simp [Line.added, hm, eventMessage, ServerEvent.added]
        have hget : (summaries.take stop)[i]? = some summary := by
          rw [List.getElem?_take_of_lt hle, hsummary]
        obtain ⟨hlt, hget⟩ := List.getElem?_eq_some_iff.mp hget
        rw [List.filterMap_cons, hadded, List.drop_eq_getElem_cons hlt, hget]
        refine ⟨(Nat.le_succ i).trans hle, hsub.cons_cons summary, fun hno => ?_⟩
        rw [hall fun l hl => hno l (List.mem_cons_of_mem _ hl)]
      · cases hadvance
    · rename_i low high hpurpose
      have hm := hok.missed low high hpurpose
      split at hadvance
      · rename_i hspan
        obtain ⟨rfl, hspan⟩ := hspan
        cases hadvance
        refine ⟨hspan.trans hle, hquiet (by simp [Line.added, hm, laggedReply, respond]) hspan, ?_⟩
        exact fun hno => absurd hm (hno line List.mem_cons_self)
      · cases hadvance
    · rename_i hevent _
      cases hadvance
      obtain ⟨envelope, hm⟩ := hok.response hevent
      have hnone : line.added = none := by simp [Line.added, hm]
      refine ⟨hle, hquiet hnone (Nat.le_refl _), fun hno => ?_⟩
      rw [List.filterMap_cons, hnone]
      exact hall fun l hl => hno l (List.mem_cons_of_mem _ hl)

/-- The entries that are newer than all rows. -/
def newer (rows told : List EntrySummary) : List EntrySummary :=
  told.filter fun e => ∀ row ∈ rows, row.id < e.id

/-- Of what was told, newer than the last rows known is what came later. -/
theorem newer_append {known later rows olds : List EntrySummary}
    (hs : (known ++ later).Pairwise (·.id < ·.id)) (hrows : rows <:+ known) (hne : rows ≠ [])
    (holds : olds ⊆ known) : newer rows (olds ++ later) = later := by
  obtain ⟨hknown, -, hlater⟩ := List.pairwise_append.mp hs
  obtain ⟨first, rfl⟩ := hrows
  obtain ⟨hfirst, hrows, hcross⟩ := List.pairwise_append.mp hknown
  rw [newer, List.filter_append, List.filter_eq_nil_iff.mpr, List.nil_append,
    List.filter_eq_self.mpr]
  · intro e he
    exact decide_eq_true fun row hrow => hlater row (List.mem_append_right _ hrow) e he
  · intro e he hnewer
    have hnewer := of_decide_eq_true hnewer
    rcases List.mem_append.mp (holds he) with hold | hrow
    · obtain ⟨row, hrow⟩ := List.exists_mem_of_ne_nil rows hne
      exact Nat.lt_asymm (hcross e hold row hrow) (hnewer row hrow)
    · exact Nat.lt_irrefl _ (hnewer e hrow)

theorem page_suffix {known : List EntrySummary} {offset limit total : Nat}
    {rows : List EntrySummary}
    (h : (total, rows) = listSnapshot (Bounded.popWhileOver maxHistory known) offset limit)
    (hend : offset + rows.length = total) : rows <:+ known := by
  have hsnap : Bounded.popWhileOver maxHistory known <:+ known := by
    rw [Bounded.popWhileOver_eq_drop]
    exact List.drop_suffix ..
  generalize Bounded.popWhileOver maxHistory known = snap at h hsnap
  cases h
  rw [List.length_take, List.length_drop] at hend
  have hall : (snap.drop offset).length ≤ clampLimit limit := by
    rw [List.length_drop]
    omega
  rw [List.take_of_length_le hall]
  exact (List.drop_suffix ..).trans hsnap

theorem rows_and_pushes {summaries rows told : List EntrySummary} {position moment reached : Nat}
    (hs : summaries.Pairwise (·.id < ·.id)) (hrows : rows <:+ summaries.take moment)
    (hle : position ≤ moment) (hmoment : moment ≤ summaries.length)
    (htold : told = (summaries.take reached).drop position) :
    ∃ m, reached ≤ m ∧ rows ++ newer rows told <:+ summaries.take m := by
  by_cases hne : rows = []
  · subst hne
    refine ⟨reached, Nat.le_refl _, ?_⟩
    rw [newer, List.filter_eq_self.mpr (by simp), List.nil_append, htold]
    exact List.drop_suffix ..
  · refine ⟨max moment reached, Nat.le_max_right .., ?_⟩
    have hknown : (summaries.take moment).length = moment := by
      rw [List.length_take, Nat.min_eq_left hmoment]
    have hall : summaries.take (max moment reached) =
        summaries.take moment ++ (summaries.take reached).drop moment := by
      rcases Nat.le_total moment reached with hm | hm
      · have htake := List.take_append_drop moment (summaries.take reached)
        rw [List.take_take, Nat.min_eq_left hm] at htake
        rw [Nat.max_eq_right hm, htake]
      · have hnone : (summaries.take reached).drop moment = [] := by
          rw [List.drop_eq_nil_iff, List.length_take]
          exact (Nat.min_le_left ..).trans hm
        rw [hnone, List.append_nil, Nat.max_eq_left hm]
    have hsplit : ∃ olds, olds ⊆ summaries.take moment ∧
        told = olds ++ (summaries.take reached).drop moment := by
      rcases Nat.le_total moment reached with hm | hm
      · refine ⟨(summaries.take moment).drop position, List.drop_subset .., ?_⟩
        rw [Nat.max_eq_right hm] at hall
        rw [htold, ← List.drop_append_of_le_length (hle.trans hknown.ge), ← hall]
      · refine ⟨told, ?_, ?_⟩
        · rw [htold]
          exact List.Subset.trans (List.drop_subset ..) (List.take_subset_take_left _ hm)
        · rw [List.drop_eq_nil_iff.mpr, List.append_nil]
          exact (List.length_take_le ..).trans hm
    obtain ⟨olds, holds, htold⟩ := hsplit
    have hs := hs.sublist (List.take_sublist (max moment reached) summaries)
    rw [hall] at hs
    rw [htold, newer_append hs hrows hne holds, hall]
    obtain ⟨first, hfirst⟩ := hrows
    exact ⟨first, by rw [← List.append_assoc, hfirst]⟩

end Server

/-- For every page a client was written: it answers a `List` of the client, and
shows the snapshot of a moment that is not before anything the client had been
told. If it ends with the snapshot, and the client was told of no gap since, the
rows with the newer entries told since are the last entries of some moment, up
to which the client stands at least. -/
theorem list_then_pushes {clock : Clock} {serde : Serde} {seat manager device : Global}
    {labels : List ServerAct} {s : Server} {c : Nat} {client : Client} {before after : List Line}
    {line : Line} {id : String} {total : Nat} {rows : List EntrySummary}
    (h : (serverSystem clock serde seat manager device).Run labels s)
    (hc : s.clients[c]? = some client) (hw : client.written = before ++ line :: after)
    (hm : line.message = respond id (.entries total rows)) :
    ∃ (summaries : List EntrySummary) (moment offset : Nat),
      s.pushed = summaries.map .entryAdded ∧
      Server.PageOf serde labels s c moment id offset total rows ∧
      (before.filterMap Line.added).Sublist (summaries.take moment) ∧
      ((∀ l ∈ after, l.message ≠ laggedReply) → offset + rows.length = total →
        ∃ reached m, standing client.joined client.written = some reached ∧ reached ≤ m ∧
          rows ++ Server.newer rows (after.filterMap Line.added) <:+ summaries.take m) := by
  obtain ⟨⟨summaries, ho⟩, hclients⟩ := Server.reachable_followed ⟨_, h⟩
  obtain ⟨hfollows, -⟩ := hclients c client hc
  obtain ⟨hstand, hpages⟩ := (Server.run_mirrored h).clients c client hc
  have hlines : client.lines = client.written ++ client.current.toList := rfl
  rw [hlines, standing_append] at hstand
  obtain ⟨reached, hreached, -⟩ := Option.bind_eq_some_iff.mp hstand
  rw [hlines, hw, List.append_assoc, List.cons_append] at hpages
  obtain ⟨position, moment, offset, hbefore, hle, hpage⟩ :=
    hpages before line _ rfl id total rows hm
  have hok : ∀ l ∈ client.written, s.LineOk client.next l :=
    fun l hl => hfollows.lines l (List.mem_append_left _ hl)
  have hsent (i : Nat) (event : ServerEvent) (hi : s.daemon.events[i]? = some event) :
      ∃ summary, summaries[i]? = some summary ∧ ServerEvent.entryAdded summary = event := by
    have hpushed : s.pushed[i]? = some event :=
      Server.getElem?_of_prefix (List.prefix_append ..) hi
    rw [ho.pushed, List.getElem?_map, Option.map_eq_some_iff] at hpushed
    exact hpushed
  refine ⟨summaries, moment, offset, ho.pushed, hpage, ?_, fun hno hend => ?_⟩
  · have hlines := fun l hl => hok l (hw ▸ List.mem_append_left _ hl)
    obtain ⟨-, hsub, -⟩ := Server.added_between hsent hlines hbefore
    exact hsub.trans ((List.drop_sublist ..).trans (List.take_sublist_take_left hle))
  · have hlines := fun l hl => hok l (hw ▸ List.mem_append_right _ hl)
    have hrest : standing position (line :: after) = some reached := by
      rw [hw, standing_append, hbefore] at hreached
      exact hreached
    obtain ⟨-, -, htold⟩ := Server.added_between hsent hlines hrest
    have htold := htold (List.forall_mem_cons.mpr ⟨by simp [hm, laggedReply, respond], hno⟩)
    rw [List.filterMap_cons, show line.added = none by simp [Line.added, hm, respond]] at htold
    have hmoment := hpage.pushed
    obtain ⟨_, _, limit, -, -, hread⟩ := hpage.asked
    rw [ho.pushed, ← List.map_take, filterMap_added] at hread
    rw [ho.pushed, List.length_map] at hmoment
    have hordered := List.pairwise_map.mp (List.pairwise_append.mp ho.increasing).1
    obtain ⟨m, hm, hsuffix⟩ := Server.rows_and_pushes hordered
      (Server.page_suffix hread hend) hle hmoment htold
    exact ⟨reached, m, hreached, hm, hsuffix⟩

def toldRun : List ServerAct :=
  let copy := copyPass 1 ⟨2, 2⟩ ["text/plain"] fun _ => [0x79, 0x6F]
  copyRun ++ listedRun.tail ++ [.thread (.drain copy.events copy.io copy.drain), .thread .look,
    .thread .broadcast, .client 0 .recv, .client 0 .write]

def isTold : List Line → Bool
  | [⟨.response ⟨1, "s1", .subscribed⟩, _⟩, ⟨.response ⟨1, "l1", .entries 1 [_]⟩, _⟩, push] =>
    push.message ≠ laggedReply
  | _ => false

theorem told_after_list : ∃ (s : Server) (client : Client) (push : Line) (row : EntrySummary)
    (summaries : List EntrySummary) (m : Nat),
    (serverSystem .still sampleSerde 0 1 2).Reachable s ∧ s.clients[0]? = some client ∧
      s.pushed = summaries.map .entryAdded ∧
      client.written.map (·.message) =
        [respond "s1" .subscribed, respond "l1" (.entries 1 [row]), push.message] ∧
      [row] ++ Server.newer [row] ([push].filterMap Line.added) <:+ summaries.take m := by
  have hrun : (sampleRun toldRun).any (fun s => s.clients[0]?.any fun client =>
      isTold client.written) = true := by
    decide +kernel
  obtain ⟨s, hs, hclient⟩ := (Option.any_eq_true _ _).mp hrun
  obtain ⟨client, hc, hlines⟩ := (Option.any_eq_true _ _).mp hclient
  unfold isTold at hlines
  split at hlines
  · rename_i first row second push hw
    obtain ⟨summaries, moment, offset, hpushed, hpage, -, htold⟩ :=
      @list_then_pushes _ _ _ _ _ _ _ _ _ [⟨respond "s1" .subscribed, first⟩] _ _ _ _ _
        (System.run_exec hs) hc hw rfl
    obtain ⟨_, _, _, -, -, hread⟩ := hpage.asked
    -- The page is not empty, so it was read from the start.
    have htotal := congrArg Prod.fst hread
    have hrows := congrArg (·.2.length) hread
    simp only [listSnapshot, List.length_take, List.length_drop, List.length_singleton]
      at htotal hrows
    have hoffset : offset = 0 := by omega
    obtain ⟨_, m, -, -, hsuffix⟩ :=
      htold (by simpa using of_decide_eq_true hlines) (by simp [hoffset])
    exact ⟨s, client, push, row, summaries, m, reachable_sampleRun hs, hc, hpushed,
      by rw [hw]; rfl, hsuffix⟩
  · cases hlines

end Uclip
