/-!
# Lines of a stream

A line ends in its first separator. `cut` takes the first line off a stream
that holds a separator. Lines can be told apart after they are joined.
-/

namespace Lines

variable {sep : α}

def IsLine (sep : α) (line : List α) : Prop := ∃ body, line = body ++ [sep] ∧ sep ∉ body

def cut [DecidableEq α] (sep : α) : List α → Option (List α × List α)
  | [] => none
  | a :: rest =>
    if a = sep then some ([a], rest)
    else (cut sep rest).map fun (line, rest) => (a :: line, rest)

theorem cut_eq_some [DecidableEq α] {l line rest : List α} (h : cut sep l = some (line, rest)) :
    l = line ++ rest ∧ IsLine sep line := by
  induction l generalizing line with
  | nil => cases h
  | cons a l ih =>
    rw [cut] at h
    split at h
    · rename_i ha
      cases h
      exact ⟨rfl, [], by simp [ha], by simp⟩
    · rename_i ha
      obtain ⟨⟨line', rest'⟩, hcut, heq⟩ := Option.map_eq_some_iff.mp h
      cases heq
      obtain ⟨rfl, body, rfl, hbody⟩ := ih hcut
      exact ⟨rfl, a :: body, rfl, by simp [hbody, Ne.symm ha]⟩

theorem cut_eq_none [DecidableEq α] {l : List α} : cut sep l = none ↔ sep ∉ l := by
  induction l with
  | nil => simp [cut]
  | cons a l ih =>
    rw [cut]
    split
    · rename_i ha
      simp [ha]
    · rename_i ha
      simp [ih, Ne.symm ha]

theorem IsLine.ne_nil {line : List α} (h : IsLine sep line) : line ≠ [] := by
  obtain ⟨body, rfl, -⟩ := h
  simp

theorem IsLine.append {taken line : List α} (h : IsLine sep line) (ht : sep ∉ taken) :
    IsLine sep (taken ++ line) := by
  obtain ⟨body, rfl, hbody⟩ := h
  exact ⟨taken ++ body, (List.append_assoc ..).symm, by simp [ht, hbody]⟩

/-- The first line of a stream is determined by the stream. -/
theorem IsLine.append_inj {line line' rest rest' : List α} (h : IsLine sep line)
    (h' : IsLine sep line') (heq : line ++ rest = line' ++ rest') :
    line = line' ∧ rest = rest' := by
  obtain ⟨body, rfl, hbody⟩ := h
  obtain ⟨body', rfl, hbody'⟩ := h'
  induction body generalizing body' with
  | nil =>
    cases body' with
    | nil => exact ⟨rfl, (List.cons.inj heq).2⟩
    | cons a body' =>
      obtain ⟨rfl, -⟩ := List.cons.inj heq
      exact absurd List.mem_cons_self hbody'
  | cons a body ih =>
    cases body' with
    | nil =>
      obtain ⟨rfl, -⟩ := List.cons.inj heq
      exact absurd List.mem_cons_self hbody
    | cons a' body' =>
      obtain ⟨rfl, htail⟩ := List.cons.inj heq
      obtain ⟨hline, hrest⟩ := ih (fun hm => hbody (List.mem_cons_of_mem _ hm)) body'
        (fun hm => hbody' (List.mem_cons_of_mem _ hm)) htail
      exact ⟨congrArg (a :: ·) hline, hrest⟩

theorem IsLine.flatten_eq {lines : List (List α)} {line rest : List α} (h : IsLine sep line)
    (hlines : ∀ l ∈ lines, IsLine sep l) (heq : lines.flatten = line ++ rest) :
    ∃ tail, lines = line :: tail ∧ tail.flatten = rest := by
  cases lines with
  | nil => exact absurd (List.append_eq_nil_iff.mp heq.symm).1 h.ne_nil
  | cons first tail =>
    obtain ⟨rfl, hrest⟩ := (hlines first List.mem_cons_self).append_inj h heq
    exact ⟨tail, rfl, hrest⟩

theorem flatten_eq_nil (sep : α) {lines : List (List α)} (hlines : ∀ l ∈ lines, IsLine sep l)
    (h : sep ∉ lines.flatten) : lines = [] := by
  cases lines with
  | nil => rfl
  | cons first tail =>
    obtain ⟨body, rfl, -⟩ := hlines first List.mem_cons_self
    simp at h

/-- A line that arrives behind what is held is, with it, the next line of the stream. -/
theorem IsLine.next {lines : List (List α)} {held line rest later : List α} (h : IsLine sep line)
    (hlines : ∀ l ∈ lines, IsLine sep l) (hheld : sep ∉ held)
    (heq : held ++ (line ++ rest) ++ later = lines.flatten) :
    ∃ tail, lines = (held ++ line) :: tail ∧ rest ++ later = tail.flatten := by
  have hfirst : lines.flatten = (held ++ line) ++ (rest ++ later) := by
    rw [← heq]
    simp only [List.append_assoc]
  obtain ⟨tail, rfl, htail⟩ := (h.append hheld).flatten_eq hlines hfirst
  exact ⟨tail, rfl, htail.symm⟩

theorem eq_nil_of_no_line {lines : List (List α)} {held arrived : List α}
    (hlines : ∀ l ∈ lines, IsLine sep l) (hheld : sep ∉ held) (harrived : sep ∉ arrived)
    (heq : held ++ arrived = lines.flatten) : lines = [] := by
  refine flatten_eq_nil sep hlines ?_
  rw [← heq]
  simp [hheld, harrived]

end Lines
