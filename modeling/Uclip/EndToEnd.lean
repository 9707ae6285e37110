import Uclip.Roundtrip
import Uclip.ServerRun
import Uclip.Tasks

/-!
# From a copy to a client and back

A `Restored` that a client is written answers a line of that client. The thread
that gave the answer has run passes of the loop, one of which read the copy that
the entry is of; what the source of the restore answers is what was read then.
-/

namespace Uclip

open Text (Bytes)

variable {clock : Clock} {serde : Serde} {seat manager device : Global} {s s' : Server} {c : Nat}
  {client client' : Client} {labels : List ServerAct}

-- ---------------------------------------------------------------------------
-- Requests
-- ---------------------------------------------------------------------------

def Asked.MadeBy (serde : Serde) (labels : List ServerAct) (asked : Asked) : Prop :=
  ∃ line ∈ linesOf asked.client labels, ∃ v,
    parseLine serde line = .ok ⟨v, asked.id, .restore asked.entryId⟩

theorem Asked.MadeBy.mono {asked : Asked} (h : asked.MadeBy serde labels) (a : ServerAct) :
    asked.MadeBy serde (labels ++ [a]) := by
  obtain ⟨line, hline, hparse⟩ := h
  exact ⟨line, by simp [linesOf_append, hline], hparse⟩

/-- The source of a `Restored` is the one of as many restores before it. -/
theorem Restored.answered {d : Daemon} {restored : List (ClipboardEntry × SourceData)}
    {earlier later : List (Nat × DaemonResponse)} {reply entryId : Nat} (h : Restored d restored)
    (hreplies : d.replies = earlier ++ (reply, .restored entryId) :: later) :
    ∃ e data, restored[(earlier.filterMap (·.2.restoredId)).length]? = some (e, data) ∧
      e.id = entryId := by
  have hid : (restored.map (·.1.id))[(earlier.filterMap (·.2.restoredId)).length]? =
      some entryId := by
    simp [h.ids, hreplies, DaemonResponse.restoredId]
  rw [List.getElem?_map] at hid
  obtain ⟨⟨e, data⟩, hget, he⟩ := Option.map_eq_some_iff.mp hid
  exact ⟨e, data, hget, he⟩

end Uclip
