import HomeControl.Lib.History
import Mathlib.Data.List.SplitBy

/-!
# Runs of one key

A reader that starts a new record whenever the key of the next item differs from the
key of the record at hand cuts its input into the maximal runs of items with one key.
`runs` is that list, the newest run first, `runs_concat` is what one more item does to
it, and `foldl_eq_map_runs` says when a fold builds one record for each run.

A key can have several runs.  `pairwise_runs_iff` says that none has exactly when the
input is `Contiguous`: no key comes back after another one.  Then the run of a key is
the sublist of all its items (`filter_eq_of_mem_runs`).
-/

namespace Runs

variable {A K R : Type} [DecidableEq K] (key : A → K)

/-- The maximal runs of items with one key, the newest first. -/
def runs (l : List A) : List (List A) :=
  (l.splitBy fun a b => decide (key a = key b)).reverse

/-- One more item: it extends the newest run or starts another. -/
def addTo (rs : List (List A)) (a : A) : List (List A) :=
  match rs with
  | [] => [[a]]
  | r :: rest =>
    if r.getLast?.map key = some (key a) then (r ++ [a]) :: rest else [a] :: r :: rest

theorem nil_notMem_runs (l : List A) : [] ∉ runs key l := by
  rw [runs, List.mem_reverse]
  exact List.nil_notMem_splitBy _ l

/-- The runs, oldest first, are the input. -/
theorem flatten_runs (l : List A) : (runs key l).reverse.flatten = l := by
  rw [runs, List.reverse_reverse, List.flatten_splitBy]

variable {key}

/-- The items of a run have one key. -/
theorem key_eq_of_mem_runs {l r : List A} (hr : r ∈ runs key l) {a b : A} (ha : a ∈ r)
    (hb : b ∈ r) : key a = key b := by
  have hchain : r.IsChain fun a b => key a = key b := by
    have h := List.isChain_of_mem_splitBy (List.mem_reverse.mp hr)
    exact h.imp fun a b hab => of_decide_eq_true hab
  have htrans : IsTrans A fun a b => key a = key b := ⟨fun a b c => Eq.trans⟩
  have hpair : r.Pairwise fun a b => key a = key b := List.isChain_iff_pairwise.mp hchain
  have hsymm : Std.Symm fun a b : A => key a = key b := ⟨fun a b => Eq.symm⟩
  by_cases hab : a = b
  · rw [hab]
  · exact hpair.forall ha hb hab

/-- An item with the key of the last run extends it. -/
theorem splitBy_concat_same {same : A → A → Bool} {l r : List A} {init : List (List A)}
    (h : l.splitBy same = init ++ [r]) {a b : A} (hb : r.getLast? = some b)
    (hsame : same b a = true) : (l ++ [a]).splitBy same = init ++ [r ++ [a]] := by
  rw [List.splitBy_eq_iff] at h ⊢
  obtain ⟨hl, hnil, hchain, hbound⟩ := h
  refine ⟨?_, ?_, ?_, ?_⟩
  · rw [hl, List.flatten_concat, List.flatten_concat, List.append_assoc]
  · intro hmem
    rcases List.mem_append.mp hmem with hmem | hmem
    · exact hnil (List.mem_append_left _ hmem)
    · simp at hmem
  · intro m hm
    rcases List.mem_append.mp hm with hm | hm
    · exact hchain m (List.mem_append_left _ hm)
    · obtain rfl := List.mem_singleton.mp hm
      have hr := hchain r (List.mem_append_right _ (List.mem_singleton_self r))
      refine List.isChain_append.mpr ⟨hr, List.isChain_singleton a, ?_⟩
      intro x hx y hy
      obtain rfl := Option.some.inj (hb.symm.trans hx)
      obtain rfl := Option.some.inj hy
      exact hsame
  · obtain ⟨hinit, -, hlast⟩ := List.isChain_append.mp hbound
    refine List.isChain_append.mpr ⟨hinit, List.isChain_singleton _, ?_⟩
    intro m hm n hn
    obtain rfl := Option.some.inj hn
    obtain ⟨hm', hr', hne⟩ := hlast m hm r rfl
    refine ⟨hm', List.append_ne_nil_of_left_ne_nil hr' _, ?_⟩
    rw [List.head_append_of_ne_nil hr']
    exact hne

theorem runs_concat (l : List A) (a : A) : runs key (l ++ [a]) = addTo key (runs key l) a := by
  rcases List.eq_nil_or_concat' (l.splitBy fun a b => decide (key a = key b)) with
    hnil | ⟨init, r, hsplit⟩
  · obtain rfl := List.splitBy_eq_nil.mp hnil
    rfl
  · have hruns : runs key l = r :: init.reverse := by
      rw [runs, hsplit, List.reverse_concat]
    have hl : l = init.flatten ++ r := by
      rw [← List.flatten_splitBy (fun a b => decide (key a = key b)) l, hsplit,
        List.flatten_concat]
    have hr : r ≠ [] := fun hr => nil_notMem_runs key l (by
      rw [hruns, hr]
      exact List.mem_cons_self)
    have hb : r.getLast? = some (r.getLast hr) := List.getLast?_eq_some_getLast hr
    rw [hruns, addTo, hb, Option.map_some]
    by_cases hkey : key (r.getLast hr) = key a
    · rw [if_pos (congrArg some hkey), runs,
        splitBy_concat_same hsplit hb (decide_eq_true hkey), List.reverse_concat]
    · have hlast : l.getLast? = some (r.getLast hr) := by
        rw [hl, List.getLast?_append, hb, Option.some_or]
      rw [if_neg fun h => hkey (Option.some.inj h), ← hruns, runs, List.splitBy_append_cons,
        List.reverse_append]
      · rfl
      · intro x hx
        obtain rfl := Option.some.inj (hlast.symm.trans hx)
        exact decide_eq_false hkey

/-- The runs are maximal: two neighbours have different keys. -/
theorem isChain_runs (l : List A) :
    (runs key l).IsChain fun r r' => ∀ a ∈ r, ∀ b ∈ r', key a ≠ key b := by
  have hchain := List.isChain_getLast_head_splitBy (fun a b => decide (key a = key b)) l
  refine List.isChain_reverse.mpr (hchain.imp_of_mem_imp ?_)
  intro r r' hr hr' hlast b hb a ha
  obtain ⟨hne, hne', hkey⟩ := hlast
  have hb' := key_eq_of_mem_runs (List.mem_reverse.mpr hr') hb (List.head_mem hne')
  have ha' := key_eq_of_mem_runs (List.mem_reverse.mpr hr) ha (List.getLast_mem hne)
  rw [hb', ha']
  exact fun h => of_decide_eq_false hkey h.symm

/-! ## Keys that come back -/

variable (key) in
/-- No key comes back: an item whose key has occurred before follows directly on an item
with that key. -/
def Contiguous (l : List A) : Prop :=
  ∀ pre b post, l = pre ++ b :: post → (∃ a ∈ pre, key a = key b) →
    pre.getLast?.map key = some (key b)

omit [DecidableEq K] in
theorem contiguous_concat {l : List A} {b : A} :
    Contiguous key (l ++ [b]) ↔ Contiguous key l ∧
      ((∃ a ∈ l, key a = key b) → l.getLast?.map key = some (key b)) :=
  History.forall_split_concat

variable (key) in
theorem mem_iff_exists_mem_runs {l : List A} {a : A} :
    a ∈ l ↔ ∃ r ∈ runs key l, a ∈ r := by
  conv_lhs => rw [← flatten_runs key l]
  simp only [List.mem_flatten, List.mem_reverse]

/-- No key has two runs exactly when no key comes back. -/
theorem pairwise_runs_iff (l : List A) :
    (runs key l).Pairwise (fun r r' => ∀ a ∈ r, ∀ b ∈ r', key a ≠ key b) ↔
      Contiguous key l := by
  induction l using List.reverseRecOn with
  | nil =>
    refine ⟨fun _ pre b post h => ?_, fun _ => List.Pairwise.nil⟩
    exact absurd h.symm (List.append_ne_nil_of_right_ne_nil _ (List.cons_ne_nil _ _))
  | append_singleton l b ih =>
    rw [runs_concat, contiguous_concat, ← ih]
    cases hruns : runs key l with
    | nil =>
      have hl : l = [] := by rw [← flatten_runs key l, hruns]; rfl
      rw [hl]
      simp [addTo]
    | cons r rest =>
      have hr : r ≠ [] := fun h => nil_notMem_runs key l (by rw [hruns, h]; exact
        List.mem_cons_self)
      have hmem : r ∈ runs key l := by rw [hruns]; exact List.mem_cons_self
      have hlast : l.getLast? = some (r.getLast hr) := by
        rw [← flatten_runs key l, hruns, List.reverse_cons, List.flatten_concat,
          List.getLast?_append, List.getLast?_eq_some_getLast hr, Option.some_or]
      rw [addTo, hlast, List.getLast?_eq_some_getLast hr, Option.map_some]
      by_cases hkey : key (r.getLast hr) = key b
      · -- The item extends the newest run, which keeps its key.
        rw [if_pos (congrArg some hkey), List.pairwise_cons, List.pairwise_cons]
        have hall : ∀ a ∈ r ++ [b], key a = key b := by
          intro a ha
          rcases List.mem_append.mp ha with ha | ha
          · exact (key_eq_of_mem_runs hmem ha (List.getLast_mem hr)).trans hkey
          · rw [List.mem_singleton.mp ha]
        constructor
        · intro ⟨hhead, htail⟩
          refine ⟨⟨fun r' hr' a ha => hhead r' hr' a (List.mem_append_left _ ha), htail⟩, ?_⟩
          exact fun _ => congrArg some hkey
        · intro ⟨⟨hhead, htail⟩, _⟩
          refine ⟨fun r' hr' a ha c hc => ?_, htail⟩
          rw [hall a ha, ← hkey]
          exact hhead r' hr' _ (List.getLast_mem hr) c hc
      · -- The item starts a run, so its key must not have occurred.
        have hnew : some (key (r.getLast hr)) ≠ some (key b) :=
          fun h => hkey (Option.some.inj h)
        rw [if_neg hnew, List.pairwise_cons, ← hruns]
        constructor
        · intro ⟨hhead, htail⟩
          refine ⟨htail, fun ⟨a, ha, hab⟩ => ?_⟩
          obtain ⟨r', hr', har'⟩ := (mem_iff_exists_mem_runs key).mp ha
          exact absurd hab.symm (hhead r' hr' b (List.mem_singleton_self b) a har')
        · intro ⟨htail, hback⟩
          refine ⟨fun r' hr' c hc a ha hca => ?_, htail⟩
          obtain rfl := List.mem_singleton.mp hc
          exact hnew (hback ⟨a, (mem_iff_exists_mem_runs key).mpr ⟨r', hr', ha⟩, hca.symm⟩)

/-- Where no key comes back, a run holds all the items of its key. -/
theorem filter_eq_of_mem_runs {l r : List A} (hl : Contiguous key l) (hr : r ∈ runs key l)
    {a : A} (ha : a ∈ r) : l.filter (fun b => decide (key b = key a)) = r := by
  have hpair := (pairwise_runs_iff l).mpr hl
  obtain ⟨newer, older, hsplit⟩ := List.append_of_mem hr
  rw [hsplit, List.pairwise_append, List.pairwise_cons] at hpair
  obtain ⟨-, ⟨holder, -⟩, hnewer⟩ := hpair
  have hkeep : r.filter (fun b => decide (key b = key a)) = r :=
    List.filter_eq_self.mpr fun b hb => decide_eq_true (key_eq_of_mem_runs hr hb ha)
  have hdrop : ∀ rs : List (List A), (∀ r' ∈ rs, ∀ b ∈ r', key b ≠ key a) →
      rs.flatten.filter (fun b => decide (key b = key a)) = [] := by
    intro rs hrs
    refine List.filter_eq_nil_iff.mpr fun b hb => ?_
    obtain ⟨r', hr', hbr'⟩ := List.mem_flatten.mp hb
    simpa using hrs r' hr' b hbr'
  conv_lhs => rw [← flatten_runs key l, hsplit]
  rw [List.reverse_append, List.reverse_cons, List.flatten_append, List.flatten_concat,
    List.filter_append, List.filter_append, hkeep,
    hdrop _ (fun r' hr' b hb => (holder r' (List.mem_reverse.mp hr') a ha b hb).symm),
    hdrop _ (fun r' hr' b hb =>
      hnewer r' (List.mem_reverse.mp hr') r List.mem_cons_self b hb a ha),
    List.nil_append, List.append_nil]

/-! ## Folds -/

/-- A fold builds one record for each run when its step does to the records what
`addTo` does to the runs. -/
theorem foldl_eq_map_runs {build : List A → R} {step : List R → A → List R}
    (hstep : ∀ rs a, [] ∉ rs → step (rs.map build) a = (addTo key rs a).map build)
    (l : List A) : l.foldl step [] = (runs key l).map build := by
  induction l using List.reverseRecOn with
  | nil => rfl
  | append_singleton l a ih =>
    rw [List.foldl_concat, ih, hstep _ a (nil_notMem_runs key l), runs_concat]

end Runs
