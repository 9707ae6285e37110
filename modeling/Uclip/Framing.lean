import Uclip.Lib.Lines
import Uclip.Lib.System
import Uclip.Handler

/-!
# Reading requests off the socket

The `select!` of `handle_client`: one branch reads a line, the other waits for a
broadcast event. A poll of `read_line` moves what has arrived out of the reader
into the future, up to a newline; when the event branch wins, the future is
dropped with the bytes it holds, and the next pass clears the line anyway.
-/

namespace Uclip

open Text (Bytes)

structure Session where
  /-- Sent by the client and not read yet. -/
  arrived : Bytes := []
  /-- In the hands of the current `read_line`. -/
  taken : Bytes := []
  ended : Bool := false
  subscribed : Bool := false
  /-- The lines given to `serde_json::from_str`, oldest first. -/
  handed : List Bytes := []
  closed : Bool := false
  deriving DecidableEq, Repr

inductive SessionAct
  | arrive (chunk : Bytes)
  | finish
  | pollRead
  | event
  | hangUp
  deriving DecidableEq, Repr

namespace Session

def handleRead (serde : Serde) (s : Session) (line : Bytes) : Session :=
  if line = [] then { s with closed := true }
  else if Text.validUtf8 line = false then { s with closed := true }
  else if maxLineBytes < line.length then s
  else
    { s with
      handed := s.handed ++ [line]
      subscribed := s.subscribed || subscribes serde line }

/-- One poll of `read_line`: what it leaves, and the line when it is done. -/
def readLine (s : Session) : Session × Option Bytes :=
  match Lines.cut newline s.arrived with
  | some (line, rest) => ({ s with arrived := rest, taken := [] }, some (s.taken ++ line))
  | none =>
    if s.ended then ({ s with arrived := [], taken := [] }, some (s.taken ++ s.arrived))
    else ({ s with arrived := [], taken := s.taken ++ s.arrived }, none)

def act (serde : Serde) (s : Session) : SessionAct → Option Session
  | .arrive chunk => if s.ended then none else some { s with arrived := s.arrived ++ chunk }
  | .finish => some { s with ended := true }
  | .pollRead =>
    if s.closed then none
    else
      match s.readLine with
      | (s, some line) => some (s.handleRead serde line)
      | (s, none) => some s
  | .event => if s.subscribed && !s.closed then some { s with taken := [] } else none
  | .hangUp => some { s with closed := true }

/-- The event branch wins while `read_line` holds bytes of a line. -/
def Loses (s : Session) (a : SessionAct) : Prop := a = .event ∧ s.taken ≠ []

end Session

def sessionSystem (serde : Serde) : System Session SessionAct := .ofAct {} (Session.act serde)

def sent (acts : List SessionAct) : Bytes :=
  acts.flatMap fun
    | .arrive chunk => chunk
    | _ => []

structure GoodLine (line : Bytes) : Prop where
  isLine : Lines.IsLine newline line
  valid : Text.validUtf8 line = true
  bounded : line.length ≤ maxLineBytes

@[simp] theorem sent_append (acts acts' : List SessionAct) :
    sent (acts ++ acts') = sent acts ++ sent acts' := by
  simp [sent]

-- ---------------------------------------------------------------------------
-- One step
-- ---------------------------------------------------------------------------

namespace Session

variable {serde : Serde} {s s' : Session} {a : SessionAct} {acts : List SessionAct}

theorem handleRead_eq (serde : Serde) (s : Session) (line : Bytes) :
    ∃ handed subscribed closed,
      s.handleRead serde line = { s with handed, subscribed, closed } ∧
      (handed = s.handed ∨ handed = s.handed ++ [line]) ∧
      (GoodLine line → handed = s.handed ++ [line]) := by
  unfold handleRead
  split
  · rename_i hnil
    exact ⟨_, _, _, rfl, .inl rfl, fun h => absurd hnil h.isLine.ne_nil⟩
  · split
    · rename_i hbad
      exact ⟨_, _, _, rfl, .inl rfl, fun h => absurd h.valid (by simp [hbad])⟩
    · split
      · rename_i hlong
        exact ⟨_, _, _, rfl, .inl rfl, fun h => absurd h.bounded (Nat.not_le.mpr hlong)⟩
      · exact ⟨_, _, _, rfl, .inr rfl, fun _ => rfl⟩

theorem readLine_cases (s : Session) :
    (∃ line rest, s.arrived = line ++ rest ∧ Lines.IsLine newline line ∧
      s.readLine = ({ s with arrived := rest, taken := [] }, some (s.taken ++ line))) ∨
    (newline ∉ s.arrived ∧ s.ended = true ∧
      s.readLine = ({ s with arrived := [], taken := [] }, some (s.taken ++ s.arrived))) ∨
    (newline ∉ s.arrived ∧ s.ended = false ∧
      s.readLine = ({ s with arrived := [], taken := s.taken ++ s.arrived }, none)) := by
  unfold readLine
  cases hcut : Lines.cut newline s.arrived with
  | some found =>
    obtain ⟨line, rest⟩ := found
    obtain ⟨harrived, hline⟩ := Lines.cut_eq_some hcut
    exact .inl ⟨line, rest, harrived, hline, rfl⟩
  | none =>
    have hno := Lines.cut_eq_none.mp hcut
    cases hended : s.ended with
    | true => exact .inr (.inl ⟨hno, rfl, rfl⟩)
    | false => exact .inr (.inr ⟨hno, rfl, rfl⟩)

-- ---------------------------------------------------------------------------
-- Lost bytes stay lost
-- ---------------------------------------------------------------------------

def size (s : Session) : Nat := s.handed.flatten.length + s.taken.length + s.arrived.length

theorem size_handleRead (serde : Serde) (s : Session) (line : Bytes) :
    (s.handleRead serde line).size ≤ s.size + line.length := by
  obtain ⟨handed, subscribed, closed, heq, hhanded, -⟩ := handleRead_eq serde s line
  rw [heq, size, size]
  rcases hhanded with rfl | rfl
  · exact Nat.le_add_right _ _
  · simp only [List.flatten_append, List.flatten_singleton, List.length_append]
    omega

theorem act_size (h : s.act serde a = some s') :
    s'.size ≤ s.size + (sent [a]).length ∧
      (s.Loses a → s'.size < s.size + (sent [a]).length) := by
  cases a with
  | arrive chunk =>
    simp only [act] at h
    split at h
    · cases h
    · cases h
      refine ⟨?_, fun hl => by cases hl.1⟩
      simp only [size, sent, List.flatMap_singleton, List.length_append]
      omega
  | finish =>
    cases h
    exact ⟨Nat.le_refl _, fun hl => by cases hl.1⟩
  | pollRead =>
    simp only [act] at h
    refine ⟨?_, fun hl => by cases hl.1⟩
    split at h
    · cases h
    · rcases readLine_cases s with ⟨line, rest, harrived, -, hread⟩ | ⟨-, -, hread⟩ | ⟨-, -, hread⟩
      · rw [hread] at h
        cases h
        refine (size_handleRead ..).trans ?_
        simp only [size, harrived, List.length_append, List.length_nil]
        omega
      · rw [hread] at h
        cases h
        refine (size_handleRead ..).trans ?_
        simp only [size, List.length_append, List.length_nil]
        omega
      · rw [hread] at h
        cases h
        simp only [size, List.length_append, List.length_nil]
        omega
  | event =>
    simp only [act] at h
    split at h
    · cases h
      refine ⟨?_, fun hl => ?_⟩
      · simp only [size, List.length_nil]
        omega
      · have hpos := List.length_pos_iff.mpr hl.2
        simp only [size, List.length_nil]
        omega
    · cases h
  | hangUp =>
    cases h
    exact ⟨Nat.le_refl _, fun hl => by cases hl.1⟩

abbrev lossless (serde : Serde) : System Session SessionAct :=
  (sessionSystem serde).restrict fun s a => ¬ s.Loses a

theorem lossless_or_lost (h : (sessionSystem serde).Run acts s) :
    (lossless serde).Run acts s ∧ s.size ≤ (sent acts).length ∨ s.size < (sent acts).length := by
  induction h with
  | start hinit =>
    cases hinit
    exact .inl ⟨.start rfl, Nat.le_refl _⟩
  | @next acts s a s' _ hstep ih =>
    obtain ⟨hle, hlt⟩ := act_size hstep
    rw [sent_append, List.length_append]
    rcases ih with ⟨hrun, hsize⟩ | hsize
    · by_cases hl : s.Loses a
      · exact .inr ((hlt hl).trans_le (Nat.add_le_add_right hsize _))
      · exact .inl ⟨hrun.next ⟨hstep, hl⟩, hle.trans (Nat.add_le_add_right hsize _)⟩
    · exact .inr (hle.trans_lt (Nat.add_lt_add_right hsize _))

-- ---------------------------------------------------------------------------
-- Lossless runs
-- ---------------------------------------------------------------------------

/-- The lines handed on come first in the stream, and what was read or arrived
since is the rest of it, up to what was not sent yet. -/
structure Kept (lines : List Bytes) (s : Session) (unsent : Bytes) : Prop where
  noLine : newline ∉ s.taken
  rest : ∃ rest, lines = s.handed ++ rest ∧ s.taken ++ s.arrived ++ unsent = rest.flatten

theorem Kept.handleRead {line rest : Bytes} (hlines : ∀ l ∈ lines, GoodLine l)
    (hline : Lines.IsLine newline line) (harrived : s.arrived = line ++ rest)
    (h : Kept lines s unsent) :
    Kept lines (({ s with arrived := rest, taken := [] } : Session).handleRead serde
      (s.taken ++ line)) unsent := by
  obtain ⟨ht, later, hsplit, hrest⟩ := h
  have hlater : ∀ l ∈ later, GoodLine l := fun l hl =>
    hlines l (hsplit ▸ List.mem_append_right _ hl)
  obtain ⟨tail, rfl, htail⟩ :=
    hline.next (fun l hl => (hlater l hl).isLine) ht (harrived ▸ hrest)
  obtain ⟨handed, subscribed, closed, heq, -, hgood⟩ :=
    handleRead_eq serde { s with arrived := rest, taken := [] } (s.taken ++ line)
  rw [heq]
  refine ⟨by simp, tail, ?_, ?_⟩
  · rw [hgood (hlater _ List.mem_cons_self), hsplit]
    simp only [List.append_assoc, List.singleton_append]
  · rw [← htail, List.nil_append]

theorem Kept.handleEnd (hlines : ∀ l ∈ lines, GoodLine l) (hno : newline ∉ s.arrived)
    (h : Kept lines s []) :
    Kept lines (({ s with arrived := [], taken := [] } : Session).handleRead serde
      (s.taken ++ s.arrived)) [] := by
  obtain ⟨ht, rest, hsplit, hrest⟩ := h
  have hdone : rest = [] := Lines.eq_nil_of_no_line
    (fun l hl => (hlines l (hsplit ▸ List.mem_append_right _ hl)).isLine) ht hno
    (by rw [← hrest, List.append_nil])
  subst hdone
  have hempty : s.taken = [] ∧ s.arrived = [] := by simpa using hrest
  rw [hempty.1, hempty.2]
  exact ⟨by simp [Session.handleRead], [], by simpa [Session.handleRead] using hsplit,
    by simp [Session.handleRead]⟩

theorem act_kept (hlines : ∀ l ∈ lines, GoodLine l) (h : s.act serde a = some s')
    (hok : ¬ s.Loses a) (hended : s'.ended = true → unsent = [])
    (hk : (s.ended = true → sent [a] ++ unsent = []) → Kept lines s (sent [a] ++ unsent)) :
    Kept lines s' unsent := by
  cases a with
  | arrive chunk =>
    simp only [act] at h
    split at h
    · cases h
    · rename_i hopen
      cases h
      obtain ⟨ht, rest, hsplit, hrest⟩ := hk fun hc => absurd hc hopen
      refine ⟨ht, rest, hsplit, ?_⟩
      rw [← hrest]
      simp [sent]
  | finish =>
    cases h
    obtain ⟨ht, hrest⟩ := hk fun _ => hended rfl
    exact ⟨ht, hrest⟩
  | pollRead =>
    simp only [act] at h
    split at h
    · cases h
    · rcases readLine_cases s with ⟨line, rest, harrived, hline, hread⟩ | ⟨hno, hopen, hread⟩ |
        ⟨hno, hopen, hread⟩
      · rw [hread] at h
        cases h
        obtain ⟨handed, subscribed, closed, heq, -, -⟩ :=
          handleRead_eq serde { s with arrived := rest, taken := [] } (s.taken ++ line)
        exact (hk fun hc => hended (by rw [heq]; exact hc)).handleRead hlines hline harrived
      · rw [hread] at h
        cases h
        obtain ⟨handed, subscribed, closed, heq, -, -⟩ :=
          handleRead_eq serde { s with arrived := [], taken := [] } (s.taken ++ s.arrived)
        have hnil : unsent = [] := hended (by rw [heq]; exact hopen)
        subst hnil
        exact (hk fun _ => rfl).handleEnd hlines hno
      · rw [hread] at h
        cases h
        obtain ⟨ht, rest, hsplit, hrest⟩ := hk fun hc => hended hc
        refine ⟨by simp [ht, hno], rest, hsplit, ?_⟩
        rw [← hrest]
        simp [sent]
  | event =>
    simp only [act] at h
    split at h
    · cases h
      have hnil : s.taken = [] := by
        by_contra hne
        exact hok ⟨rfl, hne⟩
      obtain ⟨-, rest, hsplit, hrest⟩ := hk hended
      refine ⟨by simp, rest, hsplit, ?_⟩
      rw [← hrest, hnil]
      rfl
    · cases h
  | hangUp =>
    cases h
    obtain ⟨ht, hrest⟩ := hk hended
    exact ⟨ht, hrest⟩

theorem lossless_kept (hlines : ∀ l ∈ lines, GoodLine l) (h : (lossless serde).Run acts s)
    (hall : sent acts ++ unsent = lines.flatten) (hended : s.ended = true → unsent = []) :
    Kept lines s unsent := by
  induction h generalizing unsent with
  | start hinit =>
    cases hinit
    exact ⟨by simp, lines, rfl, hall⟩
  | @next acts s a s' hrun hstep ih =>
    refine act_kept hlines hstep.1 hstep.2 hended fun hopen => ih ?_ hopen
    rw [← hall, sent_append, List.append_assoc]

end Session

open Session in
/-- Whatever the chunks and the events between them: the lines handed on are
the first of the stream, and the rest of it is still to be read, exactly in the
runs in which no event wins over a half-read line; so, when everything was
read, those are the runs in which the lines handed on are the stream's. -/
theorem lines_kept_iff {lines : List Bytes} {acts : List SessionAct} {s : Session} (serde : Serde)
    (hlines : ∀ line ∈ lines, GoodLine line) (hsent : sent acts = lines.flatten)
    (hrun : (sessionSystem serde).Run acts s) :
    ((∃ rest, lines = s.handed ++ rest ∧ s.taken ++ s.arrived = rest.flatten) ↔
      (lossless serde).Run acts s) ∧
    (s.arrived = [] → (s.handed = lines ↔ (lossless serde).Run acts s)) := by
  have hkept : (lossless serde).Run acts s → Kept lines s [] := fun h =>
    lossless_kept hlines h (by simpa using hsent) fun _ => rfl
  have hlost (hn : ¬ (lossless serde).Run acts s) : s.size < lines.flatten.length := by
    rw [← hsent]
    exact (lossless_or_lost hrun).resolve_left fun h => hn h.1
  refine ⟨⟨fun ⟨rest, hsplit, hrest⟩ => ?_, fun h => ?_⟩, fun hread => ⟨fun heq => ?_, fun h => ?_⟩⟩
  · by_contra hn
    have hlt := hlost hn
    rw [hsplit, List.flatten_append, ← hrest] at hlt
    simp only [size, List.length_append] at hlt
    omega
  · simpa using (hkept h).rest
  · by_contra hn
    have hlt := hlost hn
    rw [← heq, size] at hlt
    omega
  · obtain ⟨ht, rest, hsplit, hrest⟩ := hkept h
    have hnil : rest = [] := Lines.eq_nil_of_no_line
      (fun l hl => (hlines l (hsplit ▸ List.mem_append_right _ hl)).isLine) ht
      (hread ▸ List.not_mem_nil) (by rw [← hrest, List.append_nil])
    rw [hsplit, hnil, List.append_nil]

theorem goodLine_subscribe_ping : ∀ line ∈ [subscribeLine, pingLine], GoodLine line := by
  simp only [List.forall_mem_cons, List.not_mem_nil, false_imp_iff, implies_true, and_true]
  exact ⟨⟨⟨_, rfl, by decide⟩, by decide, by decide⟩, ⟨⟨_, rfl, by decide⟩, by decide, by decide⟩⟩

theorem lossless_split_ping : (Session.lossless sampleSerde).Run
    [.arrive subscribeLine, .pollRead, .arrive (pingLine.take 9), .event,
      .arrive (pingLine.drop 9), .pollRead]
    { subscribed := true, handed := [subscribeLine, pingLine] } :=
  ((lines_kept_iff sampleSerde goodLine_subscribe_ping (by decide)
    (System.run_exec (by decide +kernel))).2 rfl).mp rfl

/-- The same after the half line was polled: its bytes are gone. -/
theorem half_line_lost : ∃ serde lines acts s, (∀ line ∈ lines, GoodLine line) ∧
    sent acts = lines.flatten ∧ (sessionSystem serde).Run acts s ∧ s.arrived = [] ∧
      s.taken = [] ∧ s.closed = false ∧ s.handed ≠ lines :=
  ⟨sampleSerde, [subscribeLine, pingLine],
    [.arrive subscribeLine, .pollRead, .arrive (pingLine.take 9), .pollRead, .event,
      .arrive (pingLine.drop 9), .pollRead],
    { subscribed := true, handed := [subscribeLine, pingLine.drop 9] },
    goodLine_subscribe_ping, by decide, System.run_exec (by decide +kernel), rfl, rfl, rfl,
    by decide⟩

end Uclip
