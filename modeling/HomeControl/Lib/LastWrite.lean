/-!
# The last write wins

A cell that some commands set and the others leave alone holds, after a run of
commands, what the last command that sets it stored.  `lastWrite` is that value
and `foldl_observe` is the induction, for any state, any command and any
observation of the state.
-/

namespace LastWrite

variable {S C V : Type}

/-- The value that the last writing command stored, or `v` when none of them
writes. -/
def lastWrite (effect : C → Option V) (v : V) (cs : List C) : V :=
  ((cs.filterMap effect).getLast?).getD v

@[simp] theorem lastWrite_nil (effect : C → Option V) (v : V) :
    lastWrite effect v [] = v := rfl

/-- A command at the front only decides the value that is kept when no later
command writes. -/
theorem lastWrite_cons (effect : C → Option V) (v : V) (c : C) (cs : List C) :
    lastWrite effect v (c :: cs) = lastWrite effect ((effect c).getD v) cs := by
  unfold lastWrite
  cases hc : effect c with
  | none => rw [List.filterMap_cons_none hc, Option.getD_none]
  | some w =>
    rw [List.filterMap_cons_some hc, List.getLast?_cons, Option.getD_some,
      Option.getD_some]

theorem lastWrite_append (effect : C → Option V) (v : V) (cs ds : List C) :
    lastWrite effect v (cs ++ ds) =
      lastWrite effect (lastWrite effect v cs) ds := by
  induction cs generalizing v with
  | nil => rfl
  | cons c cs ih => rw [List.cons_append, lastWrite_cons, lastWrite_cons, ih]

theorem lastWrite_concat (effect : C → Option V) (v : V) (cs : List C) (c : C) :
    lastWrite effect v (cs ++ [c]) = (effect c).getD (lastWrite effect v cs) := by
  rw [lastWrite_append, lastWrite_cons, lastWrite_nil]

/-- The value comes from a command as soon as one of them writes. -/
theorem exists_effect_eq_lastWrite {effect : C → Option V} (v : V) {cs : List C}
    (h : ∃ c ∈ cs, (effect c).isSome) : ∃ c ∈ cs, effect c = some (lastWrite effect v cs) := by
  obtain ⟨c, hc, hsome⟩ := h
  obtain ⟨w, hw⟩ := Option.isSome_iff_exists.mp hsome
  have hne : cs.filterMap effect ≠ [] := List.ne_nil_of_mem (List.mem_filterMap.mpr ⟨c, hc, hw⟩)
  have hlast : (cs.filterMap effect).getLast? = some (lastWrite effect v cs) := by
    rw [lastWrite, List.getLast?_eq_some_getLast hne, Option.getD_some]
  exact List.mem_filterMap.mp (List.mem_of_getLast? hlast)

/-- The commands can be seen through a map that carries the effect. -/
theorem lastWrite_map {D : Type} {effect : C → Option V} {effect' : D → Option V}
    (f : C → D) (v : V) {cs : List C} (h : ∀ c ∈ cs, effect' (f c) = effect c) :
    lastWrite effect' v (cs.map f) = lastWrite effect v cs := by
  rw [lastWrite, lastWrite, List.filterMap_map]
  have heq : cs.filterMap (effect' ∘ f) = cs.filterMap effect := by
    induction cs with
    | nil => rfl
    | cons c cs ih =>
      have hrest := ih fun d hd => h d (List.mem_cons_of_mem _ hd)
      have hc : (effect' ∘ f) c = effect c := h c List.mem_cons_self
      rw [List.filterMap_cons, List.filterMap_cons, hc, hrest]
  rw [heq]

/-- The observation of a run is its last write, as soon as each step of the run
observes its own write.  `Inv` is what the run keeps. -/
theorem foldl_observe (step : S → C → S) (observe : S → V)
    (effect : C → Option V) (Inv : S → Prop)
    (hkeep : ∀ s c, Inv s → Inv (step s c))
    (hstep : ∀ s c, Inv s → observe (step s c) = (effect c).getD (observe s))
    (cs : List C) (s : S) (hs : Inv s) :
    observe (cs.foldl step s) = lastWrite effect (observe s) cs := by
  induction cs generalizing s with
  | nil => rfl
  | cons c cs ih =>
    rw [List.foldl_cons, ih _ (hkeep s c hs), lastWrite_cons, hstep s c hs]

end LastWrite
