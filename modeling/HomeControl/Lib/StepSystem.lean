/-!
# Step systems

A step system is a start state and an executable step function: `step s l` is
`some s'` when the step `l` is enabled in `s`, and `none` when it is not.  The
same function then carries the three uses of a model:

* `run` replays a list of labels, so a scenario is checked by evaluation;
* `ReachableWhere ok` holds of the states that a run reaches when every step of
  it meets the condition `ok`, and `Reachable` of the states of any run;
* `ReachableWhere.invariant` is the induction that every safety proof uses, and
  `ReachableWhere.project` carries reachability from one system to another that
  it refines;
* `run_history` is the same induction for a property that also speaks of the labels of
  the run;
* `along_iff` is the rule for a property that the first bad step of a run breaks at once.

Nothing here fixes the states or the labels.
-/

/-- A start state and a guarded, executable step function. -/
structure StepSystem (S L : Type) where
  start : S
  step : S → L → Option S

namespace StepSystem

variable {S L T K : Type}

/-- Replay of a list of labels from `s`.  It is `none` as soon as one of them
is not enabled. -/
def run (M : StepSystem S L) : S → List L → Option S
  | s, [] => some s
  | s, l :: ls => (M.step s l).bind fun s' => run M s' ls

/-- The states that a run reaches when each of its steps meets `ok`, read in
the state before the step. -/
inductive ReachableWhere (M : StepSystem S L) (ok : S → L → Prop) : S → Prop
  | start : ReachableWhere M ok M.start
  | step {s s' : S} {l : L} (hs : ReachableWhere M ok s) (hok : ok s l)
      (hstep : M.step s l = some s') : ReachableWhere M ok s'

/-- The states of any run. -/
def Reachable (M : StepSystem S L) : S → Prop :=
  M.ReachableWhere fun _ _ => True

variable {M : StepSystem S L} {ok : S → L → Prop}

/-- A predicate that holds at the start and that every permitted step keeps
holds in every state of a permitted run. -/
theorem ReachableWhere.invariant (Inv : S → Prop) (hstart : Inv M.start)
    (hkeep : ∀ s l s', Inv s → ok s l → M.step s l = some s' → Inv s')
    {s : S} (h : M.ReachableWhere ok s) : Inv s := by
  induction h with
  | start => exact hstart
  | step _ hok hstep ih => exact hkeep _ _ _ ih hok hstep

/-- The same rule, with the reachability of the state before the step at hand.
A proof that builds on an earlier invariant takes it from there. -/
theorem ReachableWhere.invariant' (Inv : S → Prop) (hstart : Inv M.start)
    (hkeep : ∀ s l s', M.ReachableWhere ok s → Inv s → ok s l →
      M.step s l = some s' → Inv s')
    {s : S} (h : M.ReachableWhere ok s) : Inv s := by
  induction h with
  | start => exact hstart
  | step hs hok hstep ih => exact hkeep _ _ _ hs ih hok hstep

/-- A weaker condition permits more runs. -/
theorem ReachableWhere.mono {ok' : S → L → Prop} (hle : ∀ s l, ok s l → ok' s l)
    {s : S} (h : M.ReachableWhere ok s) : M.ReachableWhere ok' s := by
  induction h with
  | start => exact .start
  | step _ hok hstep ih => exact .step ih (hle _ _ hok) hstep

/-- A run whose steps also meet `ok'` is one that `ok'` permits. -/
theorem ReachableWhere.permitted {ok' : S → L → Prop} {s : S} (h : M.ReachableWhere ok s)
    (hok' : ∀ s l s', M.ReachableWhere ok s → M.ReachableWhere ok' s → ok s l →
      M.step s l = some s' → ok' s l) : M.ReachableWhere ok' s := by
  induction h with
  | start => exact .start
  | step hs hok hstep ih => exact .step ih (hok' _ _ _ hs ih hok hstep) hstep

/-- A replay never leaves the states of the runs. -/
theorem Reachable.run {s : S} (hs : M.Reachable s) {ls : List L} {s' : S}
    (hrun : M.run s ls = some s') : M.Reachable s' := by
  induction ls generalizing s with
  | nil =>
    obtain rfl : s = s' := Option.some.inj hrun
    exact hs
  | cons l ls ih =>
    obtain ⟨t, ht, hrest⟩ := Option.bind_eq_some_iff.mp hrun
    exact ih (.step hs trivial ht) hrest

/-- The end of a replay from the start state is reachable. -/
theorem reachable_of_run {ls : List L} {s : S}
    (hrun : M.run M.start ls = some s) : M.Reachable s :=
  Reachable.run .start hrun

/-- A replay that ends in a state with the property `p` shows a reachable state
with it. -/
theorem exists_reachable (M : StepSystem S L) (ls : List L) (p : S → Bool)
    (h : (M.run M.start ls).any p = true) : ∃ s, M.Reachable s ∧ p s = true := by
  rcases hrun : M.run M.start ls with _ | s
  · rw [hrun] at h
    cases h
  · rw [hrun] at h
    exact ⟨s, reachable_of_run hrun, h⟩

/-- Replay of a list of labels that stops at a step which `ok` does not permit. -/
def runWhere (M : StepSystem S L) (ok : S → L → Prop) [∀ s l, Decidable (ok s l)] :
    S → List L → Option S
  | s, [] => some s
  | s, l :: ls => if ok s l then (M.step s l).bind fun s' => runWhere M ok s' ls else none

theorem ReachableWhere.runWhere [∀ s l, Decidable (ok s l)] {s : S}
    (hs : M.ReachableWhere ok s) {ls : List L} {s' : S}
    (hrun : M.runWhere ok s ls = some s') : M.ReachableWhere ok s' := by
  induction ls generalizing s with
  | nil =>
    obtain rfl : s = s' := Option.some.inj hrun
    exact hs
  | cons l ls ih =>
    simp only [StepSystem.runWhere] at hrun
    split at hrun
    · rename_i hok
      obtain ⟨t, ht, hrest⟩ := Option.bind_eq_some_iff.mp hrun
      exact ih (.step hs hok ht) hrest
    · cases hrun

/-- A permitted replay that ends in a state with the property `p`. -/
theorem exists_reachableWhere (M : StepSystem S L) (ok : S → L → Prop)
    [∀ s l, Decidable (ok s l)] (ls : List L) (p : S → Bool)
    (h : (M.runWhere ok M.start ls).any p = true) :
    ∃ s, M.ReachableWhere ok s ∧ p s = true := by
  rcases hrun : M.runWhere ok M.start ls with _ | s
  · rw [hrun] at h
    cases h
  · rw [hrun] at h
    exact ⟨s, ReachableWhere.runWhere .start hrun, h⟩

@[simp] theorem run_nil (s : S) : M.run s [] = some s := rfl

theorem run_cons {s t u : S} {l : L} {ls : List L} (hstep : M.step s l = some t)
    (hrest : M.run t ls = some u) : M.run s (l :: ls) = some u := by
  simp only [StepSystem.run, hstep, Option.bind_some, hrest]

theorem run_append {s t u : S} {ls ls' : List L} (hrun : M.run s ls = some t)
    (hrest : M.run t ls' = some u) : M.run s (ls ++ ls') = some u := by
  induction ls generalizing s with
  | nil =>
    obtain rfl := Option.some.inj hrun
    exact hrest
  | cons l ls ih =>
    obtain ⟨v, hv, hrun⟩ := Option.bind_eq_some_iff.mp hrun
    exact run_cons hv (ih hrun)

/-- The rule for a property of a state and of the labels that led to it. -/
theorem run_history (M : StepSystem S L) (Inv : List L → S → Prop) (hstart : Inv [] M.start)
    (hkeep : ∀ ls s l s', M.run M.start ls = some s → Inv ls s → M.step s l = some s' →
      Inv (ls ++ [l]) s')
    {ls : List L} {s : S} (hrun : M.run M.start ls = some s) : Inv ls s := by
  -- The labels that are left, from a state in which the property holds.
  have hrest : ∀ (rest front : List L) (t u : S), M.run M.start front = some t →
      Inv front t → M.run t rest = some u → Inv (front ++ rest) u := by
    intro rest
    induction rest with
    | nil =>
      intro front t u _ hinv hnil
      obtain rfl := Option.some.inj hnil
      rw [List.append_nil]
      exact hinv
    | cons l rest ih =>
      intro front t u hfront hinv hcons
      obtain ⟨v, hstep, hmore⟩ := Option.bind_eq_some_iff.mp hcons
      have hnext : M.run M.start (front ++ [l]) = some v :=
        run_append hfront (run_cons hstep (run_nil v))
      have hend := ih (front ++ [l]) v u hnext (hkeep front t l v hfront hinv hstep) hmore
      rw [List.append_assoc] at hend
      exact hend
  exact hrest ls [] M.start s (run_nil _) hstart hrun

/-- `Inv` is what good steps keep, and a bad step breaks `P` at once.  Then `P` holds in
every state along a run exactly when all steps of it are good. -/
theorem along_iff (M : StepSystem S L) (good : L → Prop) (P Inv : S → Prop)
    (hP : ∀ s, Inv s → P s)
    (hgood : ∀ s l s', Inv s → good l → M.step s l = some s' → Inv s')
    (hbad : ∀ s l s', Inv s → ¬ good l → M.step s l = some s' → ¬ P s')
    {s t : S} (hs : Inv s) {ls : List L} (hrun : M.run s ls = some t) :
    (∀ pre post u, ls = pre ++ post → M.run s pre = some u → P u) ↔ ∀ l ∈ ls, good l := by
  induction ls generalizing s with
  | nil =>
    constructor
    · intro _ l hl
      cases hl
    · intro _ pre post u hsplit hpre
      obtain ⟨rfl, -⟩ := List.append_eq_nil_iff.mp hsplit.symm
      obtain rfl := Option.some.inj hpre
      exact hP _ hs
  | cons l ls ih =>
    obtain ⟨v, hv, hrest⟩ := Option.bind_eq_some_iff.mp hrun
    rw [List.forall_mem_cons]
    constructor
    · intro h
      have hl : good l := Classical.byContradiction fun hnot =>
        hbad s l v hs hnot hv (h [l] ls v rfl (run_cons hv rfl))
      refine ⟨hl, (ih (hgood s l v hs hl hv) hrest).mp fun pre post u hsplit hpre => ?_⟩
      exact h (l :: pre) post u (by rw [hsplit]; rfl) (run_cons hv hpre)
    · intro ⟨hl, hls⟩ pre post u hsplit hpre
      cases pre with
      | nil =>
        obtain rfl := Option.some.inj hpre
        exact hP _ hs
      | cons l' pre =>
        obtain ⟨rfl, htail⟩ := List.cons.inj hsplit
        obtain ⟨w, hw, hrest'⟩ := Option.bind_eq_some_iff.mp hpre
        obtain rfl := Option.some.inj (hv.symm.trans hw)
        exact (ih (hgood s l v hs hl hv) hrest).mpr hls pre post u htail hrest'

/-- A refinement seen through a map of states.  Every step of `M` that `ok`
permits is one step of `N`, or it leaves the image unchanged; then the image of
a state that `M` reaches is one that `N` reaches. -/
theorem ReachableWhere.project {N : StepSystem T K} (f : S → T)
    (hstart : f M.start = N.start)
    (hkeep : ∀ s l s', M.ReachableWhere ok s → ok s l → M.step s l = some s' →
      f s' = f s ∨ ∃ k, N.step (f s) k = some (f s'))
    {s : S} (h : M.ReachableWhere ok s) : N.Reachable (f s) := by
  induction h with
  | start =>
    rw [hstart]
    exact .start
  | step hs hok hstep ih =>
    rcases hkeep _ _ _ hs hok hstep with heq | ⟨k, hk⟩
    · rw [heq]
      exact ih
    · exact .step ih trivial hk

end StepSystem
