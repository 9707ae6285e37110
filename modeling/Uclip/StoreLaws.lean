import Mathlib.Data.List.Induction
import Uclip.ClipState

/-!
# The history store over whole runs

`exec` runs a sequence of the calls that change a history, from the empty one.
What is held at the end is read off the ids the calls returned: an entry stays
until a removal of its id, or until an add makes the entries newer than it fill
the store. A removal of a newer entry therefore postpones its eviction.
-/

namespace Uclip

open Text (Bytes)
open ClipboardContent (fromBlobs)

inductive StoreOp
  | addGrouped (hasher textHasher : Hasher String Bytes) (now : SystemTime) (blobs : Blobs)
  | addEntry (hasher textHasher : Hasher String Bytes) (now : SystemTime) (mimeType : String)
    (content : Bytes)
  | remove (id : Nat)

namespace StoreOp

def call (s : ClipState) : StoreOp → Option Nat × ClipState
  | addGrouped hasher textHasher now blobs => s.addGrouped hasher textHasher now blobs
  | addEntry hasher textHasher now mimeType content =>
    s.addEntry hasher textHasher now mimeType content
  | remove id => (none, (s.remove id).2)

def content : StoreOp → Option (SystemTime × ClipboardContent)
  | addGrouped hasher textHasher now blobs => (fromBlobs hasher textHasher blobs).map (now, ·)
  | addEntry hasher textHasher now mimeType content =>
    if content.isEmpty then none
    else (fromBlobs hasher textHasher ((∅ : Blobs).insert mimeType content)).map (now, ·)
  | remove _ => none

def entry (op : StoreOp) (id : Nat) : Option ClipboardEntry :=
  op.content.map fun (now, content) => ⟨id, now, content⟩

def IsRemove (op : StoreOp) : Prop := ∃ id, op = .remove id

end StoreOp

namespace ClipState

def exec (ops : List StoreOp) : ClipState := ops.foldl (fun s op => (op.call s).2) .new

def returned (ops : List StoreOp) (n : Nat) : Option Nat :=
  ops[n]?.bind fun op => (op.call (exec (ops.take n))).1

def newer (s : ClipState) (id : Nat) : Nat := (s.entries.filter (id < ·.id)).length

/-- After the `n`-th call the id was not removed, and no accepted add brought
the entries newer than it to the capacity. -/
structure Survives (ops : List StoreOp) (n id : Nat) : Prop where
  kept : ∀ m > n, ops[m]? ≠ some (.remove id)
  room : ∀ m > n, (returned ops m).isSome → (exec (ops.take (m + 1))).newer id < maxHistory

structure StoreLaws (ops : List StoreOp) : Prop where
  bounded : (exec ops).entries.length ≤ maxHistory
  ordered : (exec ops).entries.Pairwise (·.id < ·.id)
  fresh : ∀ e ∈ (exec ops).entries, e.id < (exec ops).nextId
  unrepeated : ∀ m n i j, m < n → returned ops m = some i → returned ops n = some j → i ≠ j
  rejected : ∀ n op, ops[n]? = some op → ¬ op.IsRemove → returned ops n = none →
    exec (ops.take (n + 1)) = exec (ops.take n)
  found : ∀ id, ((exec ops).get id).isSome ↔
    ∃ n, returned ops n = some id ∧ Survives ops n id
  unchanged : ∀ n op id e, ops[n]? = some op → returned ops n = some id →
    (exec ops).get id = some e → op.entry id = some e

-- ---------------------------------------------------------------------------
-- One call
-- ---------------------------------------------------------------------------

variable {s : ClipState} {op : StoreOp} {ops : List StoreOp} {id : Nat}

theorem addGrouped_call (hasher textHasher : Hasher String Bytes) (now : SystemTime)
    (s : ClipState) (blobs : Blobs) :
    s.addGrouped hasher textHasher now blobs = (none, s) ∨
    ∃ content hc, fromBlobs hasher textHasher blobs = some content ∧
      s.addGrouped hasher textHasher now blobs = (some s.nextId, s.store now content hc) := by
  rcases addGrouped_cases hasher textHasher now s blobs with
    ⟨-, h⟩ | ⟨_, -, -, h⟩ | ⟨content, hc, hf, -, h⟩
  · exact .inl h
  · exact .inl h
  · exact .inr ⟨content, hc, hf, h⟩

/-- A call removes an id, or leaves the history as it is, or stores its entry
under the next id. -/
theorem call_cases (s : ClipState) (op : StoreOp) :
    (∃ id, op = .remove id) ∨
    (¬ op.IsRemove ∧ op.call s = (none, s)) ∨
    ∃ now content hc, op.content = some (now, content) ∧
      op.call s = (some s.nextId, s.store now content hc) := by
  cases op with
  | addGrouped hasher textHasher now blobs =>
    rcases addGrouped_call hasher textHasher now s blobs with h | ⟨content, hc, hf, h⟩
    · exact .inr (.inl ⟨nofun, h⟩)
    · exact .inr (.inr ⟨now, content, hc, by rw [StoreOp.content, hf]; rfl, h⟩)
  | addEntry hasher textHasher now mimeType content =>
    by_cases hempty : content.isEmpty
    · exact .inr (.inl ⟨nofun, by rw [StoreOp.call, addEntry, if_pos hempty]⟩)
    · rcases addGrouped_call hasher textHasher now s ((∅ : Blobs).insert mimeType content) with
        h | ⟨content', hc, hf, h⟩
      · exact .inr (.inl ⟨nofun, by rw [StoreOp.call, addEntry, if_neg hempty, h]⟩)
      · refine .inr (.inr ⟨now, content', hc, ?_, ?_⟩)
        · rw [StoreOp.content, if_neg hempty, hf]
          rfl
        · rw [StoreOp.call, addEntry, if_neg hempty, h]
  | remove id => exact .inl ⟨id, rfl⟩

theorem later_call (s : ClipState) (op : StoreOp) : s.Later (op.call s).2 := by
  rcases call_cases s op with ⟨id, rfl⟩ | ⟨-, h⟩ | ⟨_, _, hc, -, h⟩
  · exact later_remove
  · rw [h]
    exact .refl s
  · rw [h]
    exact later_store hc

theorem call_eq_some (h : (op.call s).1 = some id) :
    id = s.nextId ∧ ∃ now content hc, op.content = some (now, content) ∧
      (op.call s).2 = s.store now content hc := by
  rcases call_cases s op with ⟨_, rfl⟩ | ⟨-, hcall⟩ | ⟨now, content, hc, hcontent, hcall⟩
  · cases h
  · rw [hcall] at h
    cases h
  · rw [hcall] at h
    cases h
    exact ⟨rfl, now, content, hc, hcontent, by rw [hcall]⟩

theorem mem_remove : e ∈ (s.remove id).2.entries ↔ e ∈ s.entries ∧ e.id ≠ id := by
  simp [entries_remove]

theorem mem_store_iff (hc : content.Classified) :
    e ∈ (s.store now content hc).entries ↔
      e = ⟨s.nextId, now, content⟩ ∨
        e ∈ s.entries ∧ (s.store now content hc).newer e.id < maxHistory := by
  have hp : (s.entries ++ [(⟨s.nextId, now, content⟩ : ClipboardEntry)]).Pairwise
      (·.id < ·.id) := by
    refine List.pairwise_append.mpr ⟨s.valid.ordered, List.pairwise_singleton .., ?_⟩
    intro x hx y hy
    cases List.mem_singleton.mp hy
    exact s.valid.fresh x hx
  constructor
  · intro he
    rcases mem_store he with h | h
    · exact .inr ⟨h, (Bounded.mem_popWhileOver_iff_larger hp
        (List.mem_append_left _ h)).mp he⟩
    · exact .inl h
  · rintro (rfl | ⟨h, hroom⟩)
    · exact List.mem_of_getLast? (latest_store hc)
    · exact (Bounded.mem_popWhileOver_iff_larger hp (List.mem_append_left _ h)).mpr hroom

-- ---------------------------------------------------------------------------
-- One more call
-- ---------------------------------------------------------------------------

theorem exec_snoc (ops : List StoreOp) (op : StoreOp) :
    exec (ops ++ [op]) = (op.call (exec ops)).2 := by
  simp [exec]

theorem exec_take_snoc (op : StoreOp) (h : n ≤ ops.length) :
    exec ((ops ++ [op]).take n) = exec (ops.take n) := by
  rw [List.take_append_of_le_length h]

theorem getElem?_snoc_of_lt (op : StoreOp) (h : ops.length < n) : (ops ++ [op])[n]? = none := by
  rw [List.getElem?_eq_none_iff, List.length_append]
  exact h

theorem returned_snoc_of_lt (h : n < ops.length) :
    returned (ops ++ [op]) n = returned ops n := by
  rw [returned, returned, List.getElem?_append_left h, exec_take_snoc op h.le]

theorem returned_snoc_length (ops : List StoreOp) (op : StoreOp) :
    returned (ops ++ [op]) ops.length = (op.call (exec ops)).1 := by
  simp [returned]

theorem lt_length_of_returned (h : returned ops n = some id) : n < ops.length := by
  obtain ⟨op, hop, -⟩ := Option.bind_eq_some_iff.mp h
  exact (List.getElem?_eq_some_iff.mp hop).1

theorem survives_snoc (h : n < ops.length) :
    Survives (ops ++ [op]) n id ↔ Survives ops n id ∧ op ≠ .remove id ∧
      ((op.call (exec ops)).1.isSome → (op.call (exec ops)).2.newer id < maxHistory) := by
  have hlast : exec ((ops ++ [op]).take (ops.length + 1)) = (op.call (exec ops)).2 := by
    rw [← exec_snoc, List.take_of_length_le (by simp)]
  constructor
  · rintro ⟨hkept, hroom⟩
    refine ⟨⟨fun m hm => ?_, fun m hm hsome => ?_⟩, ?_, fun hsome => ?_⟩
    · by_cases hlt : m < ops.length
      · have hne := hkept m hm
        rwa [List.getElem?_append_left hlt] at hne
      · simp [List.getElem?_eq_none (Nat.le_of_not_lt hlt)]
    · obtain ⟨_, hret⟩ := Option.isSome_iff_exists.mp hsome
      have hlt := lt_length_of_returned hret
      rw [← exec_take_snoc op hlt]
      exact hroom m hm (by rwa [returned_snoc_of_lt hlt])
    · rintro rfl
      exact hkept ops.length h (by simp)
    · rw [← hlast]
      exact hroom ops.length h (by rwa [returned_snoc_length])
  · rintro ⟨⟨hkept, hroom⟩, hne, hnew⟩
    refine ⟨fun m hm => ?_, fun m hm hsome => ?_⟩
    · rcases Nat.lt_trichotomy m ops.length with hlt | rfl | hgt
      · rw [List.getElem?_append_left hlt]
        exact hkept m hm
      · simpa using hne
      · simp [getElem?_snoc_of_lt op hgt]
    · obtain ⟨_, hret⟩ := Option.isSome_iff_exists.mp hsome
      have hle := lt_length_of_returned hret
      rw [List.length_append, List.length_singleton, Nat.lt_succ_iff] at hle
      rcases hle.lt_or_eq with hlt | rfl
      · rw [exec_take_snoc op hlt]
        exact hroom m hm (by rwa [returned_snoc_of_lt hlt] at hsome)
      · rw [hlast]
        exact hnew (by rwa [returned_snoc_length] at hsome)

theorem survives_length (ops : List StoreOp) (op : StoreOp) (id : Nat) :
    Survives (ops ++ [op]) ops.length id := by
  refine ⟨fun m hm => ?_, fun m hm hsome => ?_⟩
  · simp [getElem?_snoc_of_lt op hm]
  · obtain ⟨_, hret⟩ := Option.isSome_iff_exists.mp hsome
    have := lt_length_of_returned hret
    simp only [List.length_append, List.length_singleton] at this
    omega

-- ---------------------------------------------------------------------------
-- Runs
-- ---------------------------------------------------------------------------

theorem returned_lt_nextId (h : returned ops n = some id) : id < (exec ops).nextId := by
  induction ops using List.reverseRecOn with
  | nil => cases h
  | append_singleton ops op ih =>
    rw [exec_snoc]
    have hlt := lt_length_of_returned h
    rw [List.length_append, List.length_singleton, Nat.lt_succ_iff] at hlt
    rcases hlt.lt_or_eq with hlt | rfl
    · rw [returned_snoc_of_lt hlt] at h
      exact (ih h).trans_le (later_call _ op).nextId_le
    · rw [returned_snoc_length] at h
      obtain ⟨rfl, _, _, hc, -, hs⟩ := call_eq_some h
      rw [hs]
      exact Nat.lt_succ_self _

theorem returned_ne (hlt : m < n) (hm : returned ops m = some i)
    (hn : returned ops n = some j) : i ≠ j := by
  have hlen := lt_length_of_returned hn
  have hm' : returned (ops.take n) m = some i := by
    rw [returned, List.getElem?_take_of_lt hlt, List.take_take, Nat.min_eq_left hlt.le]
    exact hm
  obtain ⟨op, -, hcall⟩ := Option.bind_eq_some_iff.mp hn
  obtain ⟨rfl, -⟩ := call_eq_some hcall
  exact (returned_lt_nextId hm').ne

/-- What is held after a run: the entries of the adds whose id survived. -/
theorem mem_exec_iff (ops : List StoreOp) (e : ClipboardEntry) :
    e ∈ (exec ops).entries ↔ ∃ n op, ops[n]? = some op ∧ returned ops n = some e.id ∧
      op.entry e.id = some e ∧ Survives ops n e.id := by
  induction ops using List.reverseRecOn with
  | nil => simp [exec, new]
  | append_singleton ops op ih =>
    -- An earlier add survives the last call; the last call adds its own entry.
    have hsplit : (∃ n o, (ops ++ [op])[n]? = some o ∧
        returned (ops ++ [op]) n = some e.id ∧ o.entry e.id = some e ∧
        Survives (ops ++ [op]) n e.id) ↔
      (e ∈ (exec ops).entries ∧ op ≠ .remove e.id ∧
        ((op.call (exec ops)).1.isSome → (op.call (exec ops)).2.newer e.id < maxHistory)) ∨
      ((op.call (exec ops)).1 = some e.id ∧ op.entry e.id = some e) := by
      rw [ih]
      constructor
      · rintro ⟨n, o, ho, hret, hentry, hsurvives⟩
        have hlt := lt_length_of_returned hret
        rw [List.length_append, List.length_singleton, Nat.lt_succ_iff] at hlt
        rcases hlt.lt_or_eq with hlt | rfl
        · rw [List.getElem?_append_left hlt] at ho
          rw [returned_snoc_of_lt hlt] at hret
          obtain ⟨hsurvives, hne, hroom⟩ := (survives_snoc hlt).mp hsurvives
          exact .inl ⟨⟨n, o, ho, hret, hentry, hsurvives⟩, hne, hroom⟩
        · obtain rfl : op = o := by simpa using ho
          rw [returned_snoc_length] at hret
          exact .inr ⟨hret, hentry⟩
      · rintro (⟨⟨n, o, ho, hret, hentry, hsurvives⟩, hne, hroom⟩ | ⟨hret, hentry⟩)
        · have hlt := lt_length_of_returned hret
          refine ⟨n, o, ?_, ?_, hentry, (survives_snoc hlt).mpr ⟨hsurvives, hne, hroom⟩⟩
          · rw [List.getElem?_append_left hlt, ho]
          · rw [returned_snoc_of_lt hlt, hret]
        · exact ⟨ops.length, op, by simp, by rw [returned_snoc_length, hret], hentry,
            survives_length ..⟩
    rw [hsplit, exec_snoc]
    rcases call_cases (exec ops) op with ⟨id, rfl⟩ | ⟨hremove, hcall⟩ |
      ⟨now, content, hc, hcontent, hcall⟩
    · simp only [StoreOp.call, mem_remove, ne_eq, StoreOp.remove.injEq, eq_comm (a := e.id)]
      simp
    · have hne : op ≠ .remove e.id := fun h => hremove ⟨_, h⟩
      simp [hcall, hne]
    · have hne : op ≠ .remove e.id := by
        rintro rfl
        cases hcontent
      rw [hcall, mem_store_iff]
      simp only [ne_eq, hne, not_false_eq_true, Option.isSome_some, true_imp_iff, true_and,
        Option.some.injEq, StoreOp.entry, hcontent, Option.map_some]
      rw [or_comm]
      refine or_congr_right ⟨?_, ?_⟩
      · rintro rfl
        exact ⟨rfl, rfl⟩
      · rintro ⟨hid, he⟩
        rw [hid, he]

theorem store_laws (ops : List StoreOp) : StoreLaws ops where
  bounded := (exec ops).valid.bounded
  ordered := (exec ops).valid.ordered
  fresh := (exec ops).valid.fresh
  unrepeated _ _ _ _ := returned_ne
  rejected n op hop hadd hnone := by
    have hstep : exec (ops.take (n + 1)) = (op.call (exec (ops.take n))).2 := by
      rw [List.take_add_one, hop]
      exact exec_snoc _ op
    rw [returned, hop, Option.bind_some] at hnone
    rcases call_cases (exec (ops.take n)) op with hr | ⟨-, hcall⟩ | ⟨_, _, _, -, hcall⟩
    · exact absurd hr hadd
    · rw [hstep, hcall]
    · rw [hcall] at hnone
      cases hnone
  found id := by
    rw [Option.isSome_iff_exists]
    constructor
    · rintro ⟨e, hget⟩
      obtain ⟨he, rfl⟩ := mem_of_get hget
      obtain ⟨n, op, -, hret, -, hsurvives⟩ := (mem_exec_iff ops e).mp he
      exact ⟨n, hret, hsurvives⟩
    · rintro ⟨n, hret, hsurvives⟩
      obtain ⟨op, hop, hcall⟩ := Option.bind_eq_some_iff.mp hret
      obtain ⟨-, now, content, -, hcontent, -⟩ := call_eq_some hcall
      refine ⟨⟨id, now, content⟩, get_eq_some_iff.mpr ⟨?_, rfl⟩⟩
      exact (mem_exec_iff ops _).mpr
        ⟨n, op, hop, hret, by rw [StoreOp.entry, hcontent]; rfl, hsurvives⟩
  unchanged n op id e hop hret hget := by
    obtain ⟨he, rfl⟩ := mem_of_get hget
    obtain ⟨m, o, ho, hret', hentry, -⟩ := (mem_exec_iff ops e).mp he
    rcases Nat.lt_trichotomy m n with hlt | rfl | hlt
    · exact absurd rfl (returned_ne hlt hret' hret)
    · cases ho.symm.trans hop
      exact hentry
    · exact absurd rfl (returned_ne hlt hret hret')

end ClipState

end Uclip
