/-!
# Legal traces

A trace is legal when each of its actions is allowed after those before it.
-/

namespace Trace

def Legal (ok : List α → α → Prop) (trace : List α) : Prop :=
  ∀ past a rest, trace = past ++ a :: rest → ok past a

variable {ok : List α → α → Prop} {trace more : List α} {a : α}

theorem Legal.nil : Legal ok [] := fun past _ _ h => by cases past <;> cases h

theorem Legal.mono {ok' : List α → α → Prop} (h : Legal ok trace)
    (hok : ∀ past a, ok past a → ok' past a) : Legal ok' trace :=
  fun past a rest heq => hok past a (h past a rest heq)

theorem Legal.of_append (h : Legal ok (trace ++ more)) : Legal ok trace :=
  fun past a rest heq => h past a (rest ++ more) (by rw [heq]; simp)

theorem Legal.append (h : Legal ok trace)
    (hmore : ∀ past a rest, more = past ++ a :: rest → ok (trace ++ past) a) :
    Legal ok (trace ++ more) := by
  intro past a rest heq
  rcases List.append_eq_append_iff.mp heq with ⟨middle, rfl, hm⟩ | ⟨middle, ht, hm⟩
  · exact hmore middle a rest hm
  · cases middle with
    | nil =>
      rw [List.append_nil] at ht
      subst ht
      simpa using hmore [] a rest hm.symm
    | cons b middle =>
      obtain ⟨rfl, -⟩ := List.cons.inj hm
      exact h past a middle ht

theorem Legal.snoc (h : Legal ok trace) (ha : ok trace a) : Legal ok (trace ++ [a]) :=
  h.append fun past b rest heq => by
    cases past with
    | nil =>
      cases heq
      rwa [List.append_nil]
    | cons c past => simp at heq

end Trace
