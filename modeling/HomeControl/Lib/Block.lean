import Mathlib.Data.List.Basic

/-!
# Memory with checked accesses

A block has a fixed number of cells, and a cell that was never written holds no value.
`load` and `store` have no result outside of the block, and `load` has none for a cell that
was never written either.  So a function that is written with them, in the `Option` monad,
has a result only when none of its accesses is undefined.

* `scan` is the loop `while (stays(*p)) p++`, `strlen` its use for a terminated string, and
  `string` reads such a string.
* The lemmas take a block apart into the cells in front of a pointer, the values that start
  there, and the cells behind them.  The pointer is the length of the first part, so what a
  function leaves alone is what stays in the other two.
-/

namespace CheckedMemory

/-- A block of `size` cells. -/
structure Block (V : Type) (size : Nat) where
  cells : List (Option V)
  length_cells : cells.length = size

variable {V : Type} {size : Nat}

namespace Block

/-- A block in which no cell has been written. -/
def fresh (V : Type) (size : Nat) : Block V size :=
  ⟨List.replicate size none, List.length_replicate⟩

/-- A block with one value in all cells. -/
def filled (size : Nat) (v : V) : Block V size :=
  ⟨List.replicate size (some v), List.length_replicate⟩

def load (b : Block V size) (i : Nat) : Option V := b.cells[i]?.join

def store (b : Block V size) (i : Nat) (v : V) : Option (Block V size) :=
  if i < size then some ⟨b.cells.set i (some v), by rw [List.length_set, b.length_cells]⟩
  else none

/-- The values `vs`, stored one by one from index `i` on. -/
def storeAll (b : Block V size) (i : Nat) : List V → Option (Block V size)
  | [] => some b
  | v :: vs => (b.store i v).bind fun b => storeAll b (i + 1) vs

/-- The loop of `scan`, with a bound on its turns. -/
def scanWithin (b : Block V size) (stays : V → Bool) : Nat → Nat → Option Nat
  | 0, _ => none
  | fuel + 1, i =>
    (b.load i).bind fun v => if stays v then b.scanWithin stays fuel (i + 1) else some i

/-- The first index from `i` on whose value does not stay. -/
def scan (b : Block V size) (stays : V → Bool) (i : Nat) : Option Nat :=
  b.scanWithin stays size i

variable [DecidableEq V]

/-- The number of values in front of the terminator. -/
def strlen (nul : V) (b : Block V size) (i : Nat) : Option Nat :=
  (b.scan (fun v => decide (v ≠ nul)) i).map (· - i)

/-- The loop of `string`, with a bound on its turns. -/
def stringWithin (nul : V) (b : Block V size) : Nat → Nat → Option (List V)
  | 0, _ => none
  | fuel + 1, i =>
    (b.load i).bind fun v =>
      if v = nul then some [] else (b.stringWithin nul fuel (i + 1)).map (v :: ·)

/-- The values in front of the terminator. -/
def string (nul : V) (b : Block V size) (i : Nat) : Option (List V) := b.stringWithin nul size i

/-! ## Accesses at the end of the first part -/

variable {b : Block V size} {pre post : List (Option V)} {vs : List V} {v nul : V}
  {stays : V → Bool}

omit [DecidableEq V] in
theorem load_eq (h : b.cells = pre ++ some v :: post) : b.load pre.length = some v := by
  rw [load, h, List.getElem?_append_right (Nat.le_refl _), Nat.sub_self]
  rfl

omit [DecidableEq V] in
theorem lt_size (h : b.cells = pre ++ (vs.map some ++ some v :: post)) : vs.length < size := by
  have hlength := congrArg List.length h
  rw [b.length_cells, List.length_append, List.length_append, List.length_map,
    List.length_cons] at hlength
  omega

omit [DecidableEq V] in
theorem exists_store {x : Option V} (h : b.cells = pre ++ x :: post) (v : V) :
    ∃ b', b.store pre.length v = some b' ∧ b'.cells = pre ++ some v :: post := by
  have hlt : pre.length < size := by
    have hlength := congrArg List.length h
    rw [b.length_cells, List.length_append, List.length_cons] at hlength
    omega
  refine ⟨_, if_pos hlt, ?_⟩
  show b.cells.set pre.length (some v) = _
  rw [h, List.set_append_right _ _ (Nat.le_refl _), Nat.sub_self]
  rfl

omit [DecidableEq V] in
theorem exists_storeAll {old : List (Option V)} (h : b.cells = pre ++ (old ++ post))
    (hlen : old.length = vs.length) :
    ∃ b', b.storeAll pre.length vs = some b' ∧ b'.cells = pre ++ (vs.map some ++ post) := by
  induction vs generalizing b pre old with
  | nil =>
    obtain rfl := List.eq_nil_of_length_eq_zero hlen
    exact ⟨b, rfl, h⟩
  | cons v vs ih =>
    cases old with
    | nil => cases hlen
    | cons x old =>
      obtain ⟨b₁, hstore, hcells⟩ := exists_store h v
      have hnext : b₁.cells = (pre ++ [some v]) ++ (old ++ post) := by
        rw [hcells, List.append_assoc]
        rfl
      obtain ⟨b₂, hrest, hend⟩ := ih hnext (Nat.succ.inj hlen)
      refine ⟨b₂, ?_, ?_⟩
      · rw [List.length_append, List.length_singleton] at hrest
        rw [storeAll, hstore, Option.bind_some, hrest]
      · rw [hend, List.append_assoc]
        rfl

omit [DecidableEq V] in
theorem scanWithin_eq {fuel : Nat} (h : b.cells = pre ++ (vs.map some ++ some v :: post))
    (hvs : ∀ w ∈ vs, stays w = true) (hv : stays v = false) (hfuel : vs.length < fuel) :
    b.scanWithin stays fuel pre.length = some (pre.length + vs.length) := by
  induction vs generalizing pre fuel with
  | nil =>
    obtain ⟨fuel, rfl⟩ := Nat.exists_eq_succ_of_ne_zero (Nat.ne_of_gt hfuel)
    rw [scanWithin, load_eq h, Option.bind_some, hv, if_neg Bool.false_ne_true]
    rfl
  | cons w vs ih =>
    rw [List.length_cons] at hfuel
    obtain ⟨fuel, rfl⟩ := Nat.exists_eq_succ_of_ne_zero (n := fuel) (by omega)
    obtain ⟨hw, hvs⟩ := List.forall_mem_cons.mp hvs
    have hnext : b.cells = (pre ++ [some w]) ++ (vs.map some ++ some v :: post) := by
      rw [h, List.append_assoc]
      rfl
    have hrest : b.scanWithin stays fuel (pre ++ [some w]).length = _ := ih hnext hvs (by omega)
    rw [List.length_append, List.length_singleton] at hrest
    rw [scanWithin, load_eq h, Option.bind_some, hw, if_pos rfl, hrest, List.length_cons]
    congr 1
    omega

omit [DecidableEq V] in
theorem scan_eq (h : b.cells = pre ++ (vs.map some ++ some v :: post))
    (hvs : ∀ w ∈ vs, stays w = true) (hv : stays v = false) :
    b.scan stays pre.length = some (pre.length + vs.length) :=
  scanWithin_eq h hvs hv (lt_size h)

theorem strlen_eq (h : b.cells = pre ++ (vs.map some ++ some nul :: post)) (hvs : nul ∉ vs) :
    b.strlen nul pre.length = some vs.length := by
  have hscan : b.scan (fun v => decide (v ≠ nul)) pre.length = some (pre.length + vs.length) :=
    scan_eq h (fun w hw => decide_eq_true fun hnul => hvs (hnul ▸ hw)) (by simp)
  rw [strlen, hscan, Option.map_some, Nat.add_sub_cancel_left]

theorem stringWithin_eq {fuel : Nat} (h : b.cells = pre ++ (vs.map some ++ some nul :: post))
    (hvs : nul ∉ vs) (hfuel : vs.length < fuel) :
    b.stringWithin nul fuel pre.length = some vs := by
  induction vs generalizing pre fuel with
  | nil =>
    obtain ⟨fuel, rfl⟩ := Nat.exists_eq_succ_of_ne_zero (Nat.ne_of_gt hfuel)
    rw [stringWithin, load_eq h, Option.bind_some, if_pos rfl]
  | cons w vs ih =>
    rw [List.length_cons] at hfuel
    obtain ⟨fuel, rfl⟩ := Nat.exists_eq_succ_of_ne_zero (n := fuel) (by omega)
    obtain ⟨hw, hvs⟩ := not_or.mp (mt List.mem_cons.mpr hvs)
    have hnext : b.cells = (pre ++ [some w]) ++ (vs.map some ++ some nul :: post) := by
      rw [h, List.append_assoc]
      rfl
    have hrest : b.stringWithin nul fuel (pre ++ [some w]).length = _ :=
      ih hnext hvs (by omega)
    rw [List.length_append, List.length_singleton] at hrest
    rw [stringWithin, load_eq h, Option.bind_some, if_neg fun h => hw h.symm, hrest,
      Option.map_some]

theorem string_eq (h : b.cells = pre ++ (vs.map some ++ some nul :: post)) (hvs : nul ∉ vs) :
    b.string nul pre.length = some vs :=
  stringWithin_eq h hvs (lt_size h)

end Block

end CheckedMemory
