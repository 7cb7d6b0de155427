import Mathlib.Data.List.Infix
import Mathlib.Logic.Function.Basic

/-!
# Interleavings

Several sources append to one list.  `Interleaving parts whole` says that `whole` is made
of the items of all the sources, each with its own items in their order and with as many
of them: `parts p` are those of the source `p`.

* `Interleaving.of_isPrefix` cuts every part where the whole is cut.
* `Interleaving.filterMap` translates the items.
* `Interleaving.merge` is the whole that a schedule of turns makes of the parts:
  `merge_concat` is one more turn, and `merge_append` says that what the sources still hold
  back does not matter.
-/

variable {P α β : Type} [DecidableEq P]

/-- `whole` is an interleaving of the lists `parts p`. -/
inductive Interleaving : (P → List α) → List α → Prop
  | nil : Interleaving (fun _ => []) []
  | concat {parts : P → List α} {whole : List α} (h : Interleaving parts whole) (p : P)
      (x : α) : Interleaving (Function.update parts p (parts p ++ [x])) (whole ++ [x])

namespace Interleaving

variable {parts : P → List α} {whole : List α}

/-- The first items of the whole are an interleaving of the first items of the parts. -/
theorem of_isPrefix (h : Interleaving parts whole) {first : List α} (hfirst : first <+: whole) :
    ∃ parts', Interleaving parts' first ∧ ∀ p, parts' p <+: parts p := by
  induction h with
  | nil =>
    obtain rfl := List.prefix_nil.mp hfirst
    exact ⟨fun _ => [], .nil, fun p => List.prefix_rfl⟩
  | @concat parts whole h q x ih =>
    rcases List.prefix_concat_iff.mp hfirst with rfl | hfirst
    · exact ⟨_, .concat h q x, fun p => List.prefix_rfl⟩
    · obtain ⟨parts', hparts, hpre⟩ := ih hfirst
      refine ⟨parts', hparts, fun p => (hpre p).trans ?_⟩
      by_cases hpq : p = q
      · subst hpq
        rw [Function.update_self]
        exact List.prefix_append _ _
      · rw [Function.update_of_ne hpq]

/-- Items that are translated, or left out, one by one. -/
theorem filterMap (f : α → Option β) (h : Interleaving parts whole) :
    Interleaving (fun p => (parts p).filterMap f) (whole.filterMap f) := by
  induction h with
  | nil => exact .nil
  | @concat parts whole h q x ih =>
    rw [List.filterMap_append]
    cases hx : f x with
    | none =>
      have hparts : (fun p => (Function.update parts q (parts q ++ [x]) p).filterMap f) =
          fun p => (parts p).filterMap f := by
        funext p
        by_cases hpq : p = q
        · subst hpq
          rw [Function.update_self, List.filterMap_append, List.filterMap_cons_none hx]
          exact List.append_nil _
        · rw [Function.update_of_ne hpq]
      rw [hparts, List.filterMap_cons_none hx, List.filterMap_nil, List.append_nil]
      exact ih
    | some y =>
      have hparts : (fun p => (Function.update parts q (parts q ++ [x]) p).filterMap f) =
          Function.update (fun p => (parts p).filterMap f) q
            ((parts q).filterMap f ++ [y]) := by
        funext p
        by_cases hpq : p = q
        · subst hpq
          rw [Function.update_self, Function.update_self, List.filterMap_append,
            List.filterMap_cons_some hx]
          rfl
        · rw [Function.update_of_ne hpq, Function.update_of_ne hpq]
      rw [hparts, List.filterMap_cons_some hx, List.filterMap_nil]
      exact ih.concat q y

/-! ## A schedule -/

/-- In each turn a source gives its next item, and the turn says whether it is kept. -/
def merge (parts : P → List α) : List (P × Bool) → List α
  | [] => []
  | (p, keep) :: turns =>
    (if keep then (parts p).head?.toList else []) ++
      merge (Function.update parts p (parts p).tail) turns

/-- The number of turns of a source. -/
def turnsOf (turns : List (P × Bool)) (p : P) : Nat := (turns.map Prod.fst).count p

@[simp] theorem turnsOf_concat (turns : List (P × Bool)) (q : P) (keep : Bool) (p : P) :
    turnsOf (turns ++ [(q, keep)]) p = turnsOf turns p + if q = p then 1 else 0 := by
  simp [turnsOf, List.count_singleton]

theorem turnsOf_cons (q : P) (keep : Bool) (turns : List (P × Bool)) (p : P) :
    turnsOf ((q, keep) :: turns) p = turnsOf turns p + if q = p then 1 else 0 := by
  simp [turnsOf, List.count_cons]

/-- The items that a source holds back after its turns. -/
theorem getElem?_tail_update (parts : P → List α) (q p : P) (n : Nat) :
    (Function.update parts q (parts q).tail p)[n]? =
      (parts p)[n + if q = p then 1 else 0]? := by
  by_cases hqp : q = p
  · subst hqp
    rw [Function.update_self, List.getElem?_tail, if_pos rfl]
  · rw [Function.update_of_ne (Ne.symm hqp), if_neg hqp, Nat.add_zero]

/-- One more turn. -/
theorem merge_concat (parts : P → List α) (turns : List (P × Bool)) (p : P) (keep : Bool) :
    merge parts (turns ++ [(p, keep)]) =
      merge parts turns ++ if keep then (parts p)[turnsOf turns p]?.toList else [] := by
  induction turns generalizing parts with
  | nil => simp [merge, turnsOf, List.head?_eq_getElem?]
  | cons turn turns ih =>
    obtain ⟨q, kept⟩ := turn
    rw [List.cons_append, merge, merge, ih, getElem?_tail_update, turnsOf_cons,
      List.append_assoc]

/-- What the sources give after their last turn does not matter. -/
theorem merge_append (parts more : P → List α) (turns : List (P × Bool))
    (hturns : ∀ p, turnsOf turns p ≤ (parts p).length) :
    merge (fun p => parts p ++ more p) turns = merge parts turns := by
  induction turns generalizing parts with
  | nil => rfl
  | cons turn turns ih =>
    obtain ⟨q, keep⟩ := turn
    have hq : 1 ≤ (parts q).length := by
      have hcount := hturns q
      rw [turnsOf_cons, if_pos rfl] at hcount
      omega
    have hne : parts q ≠ [] := List.ne_nil_of_length_pos hq
    have hhead : (parts q ++ more q).head? = (parts q).head? := List.head?_append_of_ne_nil _ hne
    have htail : Function.update (fun p => parts p ++ more p) q (parts q ++ more q).tail =
        fun p => Function.update parts q (parts q).tail p ++ more p := by
      funext p
      by_cases hpq : p = q
      · subst hpq
        rw [Function.update_self, Function.update_self, List.tail_append_of_ne_nil hne]
      · rw [Function.update_of_ne hpq, Function.update_of_ne hpq]
    rw [merge, merge, hhead, htail, ih]
    intro p
    have hcount := hturns p
    rw [turnsOf_cons] at hcount
    by_cases hpq : p = q
    · subst hpq
      rw [if_pos rfl] at hcount
      rw [Function.update_self, List.length_tail]
      omega
    · rw [Function.update_of_ne hpq]
      omega

end Interleaving
