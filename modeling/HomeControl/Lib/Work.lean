import HomeControl.Lib.StepSystem
import Mathlib.Algebra.Ring.Nat
import Mathlib.Data.List.Basic

/-!
# Work that is paid for

The remaining work of a state is a number.  A costly step takes one from it, and a step may
pay in something, which it adds.  When every step keeps the books, so does every run
(`run_paid`): the costly steps and what is left to do at the end come to at most what was to
do at the start and what was paid in on the way.

`exists_rest` is the other half: when some step reduces the work of every state that has
any, then a run leads to a state that has none.
-/

namespace StepSystem

variable {S L : Type} {M : StepSystem S L} {Inv : S → Prop} {work : S → Nat}

/-- The books of a run, when each of the steps `costly` costs one. -/
theorem run_paid {costly : L → Bool} {paid : S → Nat}
    (hstep : ∀ s l s', Inv s → M.step s l = some s' →
      Inv s' ∧ (if costly l then 1 else 0) + work s' + paid s ≤ work s + paid s')
    {s t : S} (hs : Inv s) {ls : List L} (hrun : M.run s ls = some t) :
    Inv t ∧ ls.countP costly + work t + paid s ≤ work s + paid t := by
  induction ls generalizing s with
  | nil =>
    obtain rfl := Option.some.inj hrun
    refine ⟨hs, Nat.le_of_eq ?_⟩
    rw [List.countP_nil, Nat.zero_add]
  | cons l ls ih =>
    obtain ⟨u, hu, hrest⟩ := Option.bind_eq_some_iff.mp hrun
    obtain ⟨hinv, hl⟩ := hstep s l u hs hu
    obtain ⟨ht, hls⟩ := ih hinv hrest
    refine ⟨ht, ?_⟩
    rw [List.countP_cons]
    omega

/-- A run to a state with nothing left to do, when every state with work has a step of the
kind `good` that reduces it. -/
theorem exists_rest {good : L → Prop}
    (hprogress : ∀ s, Inv s → 0 < work s →
      ∃ l s', good l ∧ M.step s l = some s' ∧ Inv s' ∧ work s' < work s)
    {s : S} (hs : Inv s) :
    ∃ ls t, M.run s ls = some t ∧ (∀ l ∈ ls, good l) ∧ Inv t ∧ work t = 0 := by
  induction hn : work s using Nat.strongRecOn generalizing s with
  | _ n ih =>
    rcases Nat.eq_zero_or_pos (work s) with hzero | hpos
    · exact ⟨[], s, rfl, fun l hl => absurd hl List.not_mem_nil, hs, hzero⟩
    · obtain ⟨l, s', hl, hstep, hs', hless⟩ := hprogress s hs hpos
      obtain ⟨ls, t, hrun, hls, ht, hrest⟩ := ih (work s') (hn ▸ hless) hs' rfl
      exact ⟨l :: ls, t, run_cons hstep hrun, List.forall_mem_cons.mpr ⟨hl, hls⟩, ht, hrest⟩

/-- The work of a list of threads when one of them has made a step. -/
theorem sum_map_set {α : Type} {f : α → Nat} {l : List α} {i : Nat} {x y : α}
    (hx : l[i]? = some x) : ((l.set i y).map f).sum + f x = (l.map f).sum + f y := by
  induction l generalizing i with
  | nil => cases hx
  | cons z l ih =>
    cases i with
    | zero =>
      obtain rfl := Option.some.inj hx
      rw [List.set_cons_zero, List.map_cons, List.map_cons, List.sum_cons, List.sum_cons]
      omega
    | succ i =>
      have hrest := ih (i := i) hx
      rw [List.set_cons_succ, List.map_cons, List.map_cons, List.sum_cons, List.sum_cons]
      omega

/-- No work is left in a list exactly when none of its threads has any. -/
theorem sum_map_eq_zero_iff {α : Type} {f : α → Nat} {l : List α} :
    (l.map f).sum = 0 ↔ ∀ x ∈ l, f x = 0 := by
  induction l with
  | nil => exact ⟨fun _ x hx => absurd hx List.not_mem_nil, fun _ => rfl⟩
  | cons x l ih => rw [List.map_cons, List.sum_cons, Nat.add_eq_zero_iff, ih, List.forall_mem_cons]

end StepSystem
