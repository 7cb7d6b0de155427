import Mathlib.Logic.Function.Basic

/-!
# Cells of memory and what a reader expects of them

A block of memory is a map from offsets to values.  `memcpy` and
`Function.update` write to it.

Several threads can share one block.  A thread that has still to read some
cells has an `Expectation`: for each offset, the values that its read may find.
`Meets` says that the block holds such values now, and `Admits` that a write
stores one.  A write that an expectation admits keeps it met (`Meets.update`,
`Meets.memcpy`), and a write that it does not admit breaks it
(`not_meets_update`, `not_meets_memcpy`).  The two directions together make
"every write is admitted by every waiting reader" the exact condition under
which no reader is disturbed.
-/

namespace SharedMemory

variable {V : Type}

/-- A block of memory: the value at each offset. -/
abbrev Cells (V : Type) := Nat → V

/-- `memset`: every cell takes one value. -/
def memset (v : V) : Cells V := fun _ => v

/-- `memcpy`: the cells at the offsets of `src` take its values, and the others
stay. -/
def memcpy (dst : Cells V) (src : List V) : Cells V :=
  fun i => src.getD i (dst i)

/-- The first `n` cells. -/
def firstCells (m : Cells V) (n : Nat) : List V := (List.range n).map m

theorem memcpy_apply (dst : Cells V) (src : List V) (i : Nat) :
    memcpy dst src i = src.getD i (dst i) := rfl

theorem memcpy_of_getElem? (dst : Cells V) {src : List V} {i : Nat} {v : V}
    (h : src[i]? = some v) : memcpy dst src i = v := by
  rw [memcpy_apply, List.getD_eq_getElem?_getD, h, Option.getD_some]

theorem memcpy_of_le (dst : Cells V) {src : List V} {i : Nat}
    (h : src.length ≤ i) : memcpy dst src i = dst i := by
  rw [memcpy_apply, List.getD_eq_getElem?_getD, List.getElem?_eq_none h,
    Option.getD_none]

/-- Setting cells to the value that they have changes nothing. -/
theorem memcpy_memset_replicate (v : V) (n : Nat) :
    memcpy (memset v) (List.replicate n v) = memset v := by
  funext i
  by_cases hi : i < n
  · exact memcpy_of_getElem? _ (List.getElem?_replicate_of_lt hi)
  · exact memcpy_of_le _ (by rw [List.length_replicate]; omega)

@[simp] theorem length_firstCells (m : Cells V) (n : Nat) :
    (firstCells m n).length = n := by
  rw [firstCells, List.length_map, List.length_range]

theorem getElem?_firstCells (m : Cells V) {n i : Nat} (h : i < n) :
    (firstCells m n)[i]? = some (m i) := by
  rw [firstCells, List.getElem?_map, List.getElem?_range h, Option.map_some]

/-- Reading back what a `memcpy` stored. -/
theorem firstCells_memcpy (dst : Cells V) {src : List V} {n : Nat}
    (h : n ≤ src.length) : firstCells (memcpy dst src) n = src.take n := by
  refine List.ext_getElem? fun i => ?_
  by_cases hi : i < n
  · rw [getElem?_firstCells _ hi, List.getElem?_take_of_lt hi,
      List.getElem?_eq_getElem (by omega : i < src.length),
      memcpy_of_getElem? dst (List.getElem?_eq_getElem (by omega))]
  · rw [List.getElem?_eq_none (by rw [length_firstCells]; omega),
      List.getElem?_eq_none (by rw [List.length_take]; omega)]

/-- The values that a reader may find, offset by offset. -/
abbrev Expectation (V : Type) := Nat → V → Prop

/-- The block holds an expected value at every offset. -/
def Meets (m : Cells V) (E : Expectation V) : Prop := ∀ i, E i (m i)

/-- Every value of `src` is expected at its offset. -/
def Admits (E : Expectation V) (src : List V) : Prop :=
  ∀ i v, src[i]? = some v → E i v

theorem Meets.update {m : Cells V} {E : Expectation V} (h : Meets m E)
    {i : Nat} {v : V} (hv : E i v) : Meets (Function.update m i v) E := by
  intro j
  by_cases hj : j = i
  · subst hj
    rw [Function.update_self]
    exact hv
  · rw [Function.update_of_ne hj]
    exact h j

theorem Meets.memcpy {m : Cells V} {E : Expectation V} (h : Meets m E)
    {src : List V} (hsrc : Admits E src) : Meets (memcpy m src) E := by
  intro i
  rcases hi : src[i]? with _ | v
  · rw [memcpy_of_le m (List.getElem?_eq_none_iff.mp hi)]
    exact h i
  · rw [memcpy_of_getElem? m hi]
    exact hsrc i v hi

theorem not_meets_update {m : Cells V} {E : Expectation V} {i : Nat} {v : V}
    (hv : ¬ E i v) : ¬ Meets (Function.update m i v) E := by
  intro h
  have hi := h i
  rw [Function.update_self] at hi
  exact hv hi

theorem not_meets_memcpy {m : Cells V} {E : Expectation V} {src : List V}
    {i : Nat} {v : V} (hi : src[i]? = some v) (hv : ¬ E i v) :
    ¬ Meets (SharedMemory.memcpy m src) E := by
  intro h
  have hEi := h i
  rw [memcpy_of_getElem? m hi] at hEi
  exact hv hEi

end SharedMemory
