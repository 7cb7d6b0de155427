import Mathlib.Data.List.Basic

/-!
# Properties of the history of a fold

A property of the final state of a fold that each step keeps exactly when it meets a
condition holds at the end if and only if it held at the start and every step met the
condition, read in the state before the step.

`forall_split_concat` and `forall_split_cons` say what one more element, at the end or at
the front, adds to a property of every element that looks back at the elements before it, and
`filterMap_concat` what it adds to what the elements yield.
-/

namespace History

variable {S C : Type}

/-- What the elements yield, for one more element. -/
theorem filterMap_concat {D : Type} (f : C → Option D) (cs : List C) (c : C) :
    (cs ++ [c]).filterMap f = cs.filterMap f ++ (f c).toList := by
  rw [List.filterMap_append]
  cases hc : f c with
  | none => rw [List.filterMap_cons_none hc]; rfl
  | some d => rw [List.filterMap_cons_some hc]; rfl

/-- A condition on every element and what comes before it, for one more element. -/
theorem forall_split_concat {P : List C → C → Prop} {cs : List C} {c : C} :
    (∀ pre d post, cs ++ [c] = pre ++ d :: post → P pre d) ↔
      (∀ pre d post, cs = pre ++ d :: post → P pre d) ∧ P cs c := by
  constructor
  · intro h
    refine ⟨fun pre d post hcs => ?_, h cs c [] rfl⟩
    exact h pre d (post ++ [c]) (by rw [hcs, List.append_assoc, List.cons_append])
  · intro ⟨hcs, hc⟩ pre d post hsplit
    rcases List.eq_nil_or_concat' post with rfl | ⟨post', e, rfl⟩
    · obtain ⟨rfl, hcd⟩ := List.append_inj' hsplit rfl
      obtain ⟨rfl, -⟩ := List.cons.inj hcd
      exact hc
    · rw [← List.cons_append, ← List.append_assoc] at hsplit
      exact hcs pre d post' (List.append_inj' hsplit rfl).1

/-- The same for one more element at the front. -/
theorem forall_split_cons {P : List C → C → Prop} {c : C} {cs : List C} :
    (∀ pre d post, c :: cs = pre ++ d :: post → P pre d) ↔
      P [] c ∧ ∀ pre d post, cs = pre ++ d :: post → P (c :: pre) d := by
  constructor
  · intro h
    refine ⟨h [] c cs rfl, fun pre d post hsplit => ?_⟩
    exact h (c :: pre) d post (by rw [hsplit]; rfl)
  · intro ⟨hc, hcs⟩ pre d post hsplit
    cases pre with
    | nil =>
      obtain ⟨rfl, -⟩ := List.cons.inj hsplit
      exact hc
    | cons e pre =>
      obtain ⟨rfl, htail⟩ := List.cons.inj hsplit
      exact hcs pre d post htail

/-- `Inv` is what every step keeps, and `Q` the condition on a step. -/
theorem foldl_iff (step : S → C → S) (Inv P : S → Prop) (Q : S → C → Prop)
    (hkeep : ∀ s c, Inv s → Inv (step s c))
    (hstep : ∀ s c, Inv s → (P (step s c) ↔ P s ∧ Q s c))
    (cs : List C) (s : S) (hs : Inv s) :
    P (cs.foldl step s) ↔
      P s ∧ ∀ pre c post, cs = pre ++ c :: post → Q (pre.foldl step s) c := by
  induction cs generalizing s with
  | nil => simp
  | cons c cs ih =>
    rw [List.foldl_cons, ih _ (hkeep s c hs), hstep s c hs, forall_split_cons, and_assoc]
    exact Iff.rfl

end History
