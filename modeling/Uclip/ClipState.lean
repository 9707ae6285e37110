import Uclip.ContentLaws
import Uclip.Lib.Bounded

/-!
# The history store

`ClipState` is the bounded list of copies. Its fields are private in the
source and only `new`, `addGrouped`, `addEntry` and `remove` change them, so
what those keep is a field of the structure here: at most `maxHistory` entries,
ids strictly increasing and below the next one, every content a classification.

Ids are natural numbers: the 64-bit counter would wrap only after `2 ^ 64`
accepted copies.
-/

namespace Uclip

open Text (Bytes)

/-- Nanoseconds since the epoch; the wall clock may stand before it. -/
abbrev SystemTime := Int

structure ClipboardEntry where
  id : Nat
  timestamp : SystemTime
  content : ClipboardContent
  deriving DecidableEq

def ClipboardEntry.mimeType (e : ClipboardEntry) : String := e.content.primaryMime

def ClipboardEntry.isText (e : ClipboardEntry) : Bool := e.content.hasText

def ClipboardEntry.preview (e : ClipboardEntry) : String := e.content.preview

structure ClipState.Valid (entries : List ClipboardEntry) (nextId : Nat) : Prop where
  bounded : entries.length ≤ maxHistory
  ordered : entries.Pairwise (·.id < ·.id)
  fresh : ∀ e ∈ entries, e.id < nextId
  classified : ∀ e ∈ entries, e.content.Classified

@[ext] structure ClipState where
  entries : List ClipboardEntry
  nextId : Nat
  valid : ClipState.Valid entries nextId

namespace ClipState

def new : ClipState := ⟨[], 1, ⟨by decide, .nil, nofun, nofun⟩⟩

def latest (s : ClipState) : Option ClipboardEntry := s.entries.getLast?

def get (s : ClipState) (id : Nat) : Option ClipboardEntry := s.entries.find? (·.id == id)

theorem Valid.sublist {kept l : List ClipboardEntry} {n : Nat} (h : Valid l n)
    (hs : kept.Sublist l) : Valid kept n :=
  ⟨hs.length_le.trans h.bounded, h.ordered.sublist hs, fun e he => h.fresh e (hs.subset he),
    fun e he => h.classified e (hs.subset he)⟩

theorem Valid.push {l : List ClipboardEntry} {n : Nat} (h : Valid l n) (hc : content.Classified) :
    Valid (Bounded.push maxHistory l ⟨n, now, content⟩) (n + 1) := by
  have hsub : (Bounded.push maxHistory l ⟨n, now, content⟩).Sublist (l ++ [⟨n, now, content⟩]) :=
    Bounded.popWhileOver_sublist _
  refine ⟨?_, List.Pairwise.sublist hsub ?_, fun e he => ?_, fun e he => ?_⟩
  · rw [Bounded.push, Bounded.length_popWhileOver]
    exact Nat.min_le_right ..
  · refine List.pairwise_append.mpr ⟨h.ordered, List.pairwise_singleton .., ?_⟩
    intro e he last hl
    cases List.mem_singleton.mp hl
    exact h.fresh e he
  · rcases List.mem_append.mp (hsub.subset he) with he | he
    · exact Nat.lt_succ_of_lt (h.fresh e he)
    · cases List.mem_singleton.mp he
      exact Nat.lt_succ_self _
  · rcases List.mem_append.mp (hsub.subset he) with he | he
    · exact h.classified e he
    · cases List.mem_singleton.mp he
      exact hc

def remove (s : ClipState) (id : Nat) : Bool × ClipState :=
  let kept := s.entries.filter (·.id != id)
  (kept.length != s.entries.length, ⟨kept, s.nextId, s.valid.sublist List.filter_sublist⟩)

/-- Append an entry under the next id, evicting the oldest while over the bound. -/
def store (s : ClipState) (now : SystemTime) (content : ClipboardContent)
    (hc : content.Classified) : ClipState :=
  ⟨Bounded.push maxHistory s.entries ⟨s.nextId, now, content⟩, s.nextId + 1, s.valid.push hc⟩

/-- Push one grouped entry per copy; `some id` when it was added. A copy equal
to the last entry is dropped. -/
def addGrouped (hasher textHasher : Hasher String Bytes) (now : SystemTime) (s : ClipState)
    (blobs : Blobs) : Option Nat × ClipState :=
  match hc : ClipboardContent.fromBlobs hasher textHasher blobs with
  | none => (none, s)
  | some content =>
    if s.latest.map (·.content) = some content then (none, s)
    else (some s.nextId, s.store now content (ClipboardContent.classified_fromBlobs hc))

def addEntry (hasher textHasher : Hasher String Bytes) (now : SystemTime) (s : ClipState)
    (mimeType : String) (content : Bytes) : Option Nat × ClipState :=
  if content.isEmpty then (none, s)
  else addGrouped hasher textHasher now s ((∅ : Blobs).insert mimeType content)

-- ---------------------------------------------------------------------------
-- What each operation does
-- ---------------------------------------------------------------------------

variable {s : ClipState} {id : Nat}

theorem addGrouped_cases (hasher textHasher : Hasher String Bytes) (now : SystemTime)
    (s : ClipState) (blobs : Blobs) :
    (ClipboardContent.fromBlobs hasher textHasher blobs = none ∧
      addGrouped hasher textHasher now s blobs = (none, s)) ∨
    (∃ content, ClipboardContent.fromBlobs hasher textHasher blobs = some content ∧
      s.latest.map (·.content) = some content ∧
      addGrouped hasher textHasher now s blobs = (none, s)) ∨
    (∃ content hc, ClipboardContent.fromBlobs hasher textHasher blobs = some content ∧
      s.latest.map (·.content) ≠ some content ∧
      addGrouped hasher textHasher now s blobs = (some s.nextId, s.store now content hc)) := by
  unfold addGrouped
  split
  · exact .inl ⟨‹_›, rfl⟩
  · rename_i content hc
    split
    · exact .inr (.inl ⟨content, hc, ‹_›, rfl⟩)
    · exact .inr (.inr ⟨content, ClipboardContent.classified_fromBlobs hc, hc, ‹_›, rfl⟩)

theorem mem_of_get (h : s.get id = some e) : e ∈ s.entries ∧ e.id = id :=
  ⟨List.mem_of_find?_eq_some h, by simpa using List.find?_some h⟩

theorem eq_of_id_eq (s : ClipState) (ha : a ∈ s.entries) (hb : b ∈ s.entries) (h : a.id = b.id) :
    a = b := by
  have hn : (s.entries.map (·.id)).Nodup :=
    List.pairwise_map.mpr (s.valid.ordered.imp Nat.ne_of_lt)
  exact List.inj_on_of_nodup_map hn ha hb h

theorem get_eq_some_iff : s.get id = some e ↔ e ∈ s.entries ∧ e.id = id := by
  refine ⟨mem_of_get, fun ⟨he, hid⟩ => ?_⟩
  cases h : s.get id with
  | none => simpa [hid] using List.find?_eq_none.mp h e he
  | some e' =>
    obtain ⟨he', hid'⟩ := mem_of_get h
    exact congrArg some (s.eq_of_id_eq he' he (hid'.trans hid.symm))

theorem get_eq_none_iff : s.get id = none ↔ ∀ e ∈ s.entries, e.id ≠ id := by
  simp [get]

theorem mem_store : e ∈ (store s now content hc).entries →
    e ∈ s.entries ∨ e = ⟨s.nextId, now, content⟩ := by
  intro h
  have h := (Bounded.popWhileOver_sublist _).subset h
  simpa using h

theorem entries_store (hc : content.Classified) : (store s now content hc).entries =
    Bounded.popWhileOver maxHistory (s.entries ++ [⟨s.nextId, now, content⟩]) := rfl

theorem entries_remove (s : ClipState) (id : Nat) :
    (s.remove id).2.entries = s.entries.filter (·.id != id) := rfl

theorem latest_store (hc : content.Classified) :
    (store s now content hc).latest = some ⟨s.nextId, now, content⟩ := by
  rw [latest]
  simp only [store, Bounded.push, Bounded.popWhileOver_eq_drop]
  rw [List.getLast?_drop, if_neg]
  · simp
  · simp only [List.length_append, List.length_singleton, maxHistory]
    omega

-- ---------------------------------------------------------------------------
-- Later states
-- ---------------------------------------------------------------------------

/-- What any sequence of operations leaves true: ids are not handed out again,
and an id that is still held names the same entry as before. -/
structure Later (s s' : ClipState) : Prop where
  nextId_le : s.nextId ≤ s'.nextId
  get_of_get : ∀ {id e}, id < s.nextId → s'.get id = some e → s.get id = some e

theorem Later.refl (s : ClipState) : Later s s := ⟨Nat.le_refl _, fun _ h => h⟩

theorem Later.trans (h : Later s s') (h' : Later s' s'') : Later s s'' :=
  ⟨h.nextId_le.trans h'.nextId_le, fun hid hg =>
    h.get_of_get hid (h'.get_of_get (hid.trans_le h.nextId_le) hg)⟩

theorem later_store (hc : content.Classified) : Later s (store s now content hc) := by
  refine ⟨Nat.le_succ _, fun hid hg => ?_⟩
  obtain ⟨he, rfl⟩ := mem_of_get hg
  rcases mem_store he with he | rfl
  · exact get_eq_some_iff.mpr ⟨he, rfl⟩
  · exact absurd hid (Nat.lt_irrefl _)

theorem later_addGrouped : Later s (addGrouped hasher textHasher now s blobs).2 := by
  rcases addGrouped_cases hasher textHasher now s blobs with
    ⟨-, h⟩ | ⟨_, -, -, h⟩ | ⟨_, hc, -, -, h⟩ <;> rw [h]
  · exact .refl s
  · exact .refl s
  · exact later_store hc

theorem later_addEntry : Later s (addEntry hasher textHasher now s mimeType bytes).2 := by
  unfold addEntry
  split
  · exact .refl s
  · exact later_addGrouped

theorem later_remove : Later s (s.remove id).2 := by
  refine ⟨Nat.le_refl _, fun _ hg => ?_⟩
  obtain ⟨he, rfl⟩ := mem_of_get hg
  exact get_eq_some_iff.mpr ⟨List.mem_of_mem_filter he, rfl⟩

end ClipState

end Uclip
