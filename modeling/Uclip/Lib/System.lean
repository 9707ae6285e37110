/-!
# Systems, runs and invariants

A system has initial states and labelled steps. A property of every reachable
state is proved by its two rules: it holds initially, and each step keeps it.
`restrict` keeps only the steps that meet a condition, so that "every run all
of whose steps meet the condition" is a statement about the restricted system.
-/

structure System (σ ι : Type) where
  init : σ → Prop
  step : σ → ι → σ → Prop

namespace System

variable {S : System σ ι}

/-- The states a run can be in, with the labels taken so far, oldest first. -/
inductive Run (S : System σ ι) : List ι → σ → Prop
  | start {s} : S.init s → Run S [] s
  | next {labels s label s'} : Run S labels s → S.step s label s' → Run S (labels ++ [label]) s'

def Reachable (S : System σ ι) (s : σ) : Prop := ∃ labels, S.Run labels s

theorem Reachable.start (h : S.init s) : S.Reachable s := ⟨[], .start h⟩

theorem Reachable.next (h : S.Reachable s) (hs : S.step s label s') : S.Reachable s' :=
  let ⟨_, run⟩ := h
  ⟨_, run.next hs⟩

theorem Reachable.induct {motive : σ → Prop} (h : S.Reachable s)
    (start : ∀ s, S.init s → motive s)
    (next : ∀ s label s', S.Reachable s → motive s → S.step s label s' → motive s') :
    motive s := by
  obtain ⟨labels, run⟩ := h
  induction run with
  | start hi => exact start _ hi
  | next run hs ih => exact next _ _ _ ⟨_, run⟩ ih hs

def ofAct (s₀ : σ) (act : σ → ι → Option σ) : System σ ι where
  init s := s = s₀
  step s label s' := act s label = some s'

theorem Run.exec {act : σ → ι → Option σ} (run : (ofAct s₀ act).Run labels s)
    (h : more.foldlM act s = some t) : (ofAct s₀ act).Run (labels ++ more) t := by
  induction more generalizing labels s with
  | nil =>
    cases h
    simpa using run
  | cons label more ih =>
    obtain ⟨s', hstep, hrest⟩ := Option.bind_eq_some_iff.mp h
    rw [List.append_cons]
    exact ih (run.next hstep) hrest

theorem run_exec {act : σ → ι → Option σ} (h : labels.foldlM act s₀ = some s) :
    (ofAct s₀ act).Run labels s :=
  Run.exec (.start rfl) h

/-- The steps that meet a condition on the state before them and their label. -/
def restrict (S : System σ ι) (ok : σ → ι → Prop) : System σ ι where
  init := S.init
  step s label s' := S.step s label s' ∧ ok s label

theorem Run.split {before after : List ι} (run : S.Run (before ++ label :: after) t) :
    ∃ s s', S.Run before s ∧ S.step s label s' := by
  generalize heq : before ++ label :: after = labels at run
  induction run generalizing after with
  | start => simp at heq
  | @next labels s last s' run hs ih =>
    rcases List.eq_nil_or_concat after with rfl | ⟨init, last', rfl⟩
    · obtain ⟨rfl, hl⟩ := List.append_inj' heq rfl
      cases hl
      exact ⟨s, s', run, hs⟩
    · rw [List.concat_eq_append, ← List.cons_append, ← List.append_assoc] at heq
      exact ih (List.append_inj' heq rfl).1

theorem Run.mono {T : System σ ι} (run : S.Run labels s) (init : ∀ s, S.init s → T.init s)
    (step : ∀ s label s', S.step s label s' → T.step s label s') : T.Run labels s := by
  induction run with
  | start hi => exact .start (init _ hi)
  | next _ hs ih => exact ih.next (step _ _ _ hs)

/-- To run a restricted system, check each step before it is taken. -/
theorem restrict_exec {act : σ → ι → Option σ} {ok : σ → ι → Prop}
    [∀ s label, Decidable (ok s label)]
    (h : labels.foldlM (fun s label => if ok s label then act s label else none) s₀ = some s) :
    ((ofAct s₀ act).restrict ok).Run labels s := by
  refine (run_exec h).mono (fun _ => id) fun s label s' hs => ?_
  simp only [ofAct] at hs
  split at hs
  · exact ⟨hs, ‹_›⟩
  · cases hs

/-- Zero or more steps whose labels all satisfy `mine`. -/
inductive Steps (S : System σ ι) (mine : ι → Prop) : σ → σ → Prop
  | refl {s} : Steps S mine s s
  | head {s label s' s''} : mine label → S.step s label s' → Steps S mine s' s'' →
      Steps S mine s s''

theorem Steps.invariant {mine : ι → Prop} {motive : σ → Prop} (h : S.Steps mine s t)
    (hs : motive s) (next : ∀ s label s', mine label → motive s → S.step s label s' → motive s') :
    motive t := by
  induction h with
  | refl => exact hs
  | head hm hstep _ ih => exact ih (next _ _ _ hm hs hstep)

theorem Steps.trans {mine : ι → Prop} (h : S.Steps mine s t) (h' : S.Steps mine t u) :
    S.Steps mine s u := by
  induction h with
  | refl => exact h'
  | head hm hstep _ ih => exact .head hm hstep (ih h')

theorem Reachable.steps {mine : ι → Prop} (h : S.Reachable s) (hs : S.Steps mine s t) :
    S.Reachable t :=
  hs.invariant h fun _ _ _ _ ih hstep => ih.next hstep

end System
