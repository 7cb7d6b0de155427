/-!
# A bounded first-in first-out queue

`Fifo α cap` is a queue that never holds more than `cap` items: the bound is a
field, so a queue that breaks it cannot be built.  `push?` is not enabled on a
full queue, which is how a blocking sender waits, and `pop?` not on an empty
one.
-/

/-- A queue of at most `cap` items, the oldest first. -/
structure Fifo (α : Type) (cap : Nat) where
  items : List α
  bound : items.length ≤ cap

namespace Fifo

variable {α : Type} {cap : Nat}

def empty : Fifo α cap := ⟨[], Nat.zero_le _⟩

/-- Append at the back, when there is room. -/
def push? (q : Fifo α cap) (x : α) : Option (Fifo α cap) :=
  if h : q.items.length < cap then
    some ⟨q.items ++ [x], by rw [List.length_append]; exact h⟩
  else none

/-- Take the oldest item. -/
def pop? (q : Fifo α cap) : Option (α × Fifo α cap) :=
  match q with
  | ⟨[], _⟩ => none
  | ⟨x :: xs, h⟩ => some (x, ⟨xs, Nat.le_of_succ_le h⟩)

theorem items_of_push? {q q' : Fifo α cap} {x : α} (h : q.push? x = some q') :
    q'.items = q.items ++ [x] := by
  unfold push? at h
  split at h
  · cases h
    rfl
  · cases h

theorem items_of_pop? {q q' : Fifo α cap} {x : α} (h : q.pop? = some (x, q')) :
    q.items = x :: q'.items := by
  rcases q with ⟨_ | ⟨y, ys⟩, hq⟩
  · cases h
  · cases h
    rfl

/-- A queue with room takes an item. -/
theorem exists_push? {q : Fifo α cap} (h : q.items.length < cap) (x : α) :
    ∃ q', q.push? x = some q' := by
  rw [push?, dif_pos h]
  exact ⟨_, rfl⟩

/-- A queue that is not empty has an oldest item. -/
theorem exists_pop? {q : Fifo α cap} (h : q.items ≠ []) : ∃ x q', q.pop? = some (x, q') := by
  rcases q with ⟨_ | ⟨x, xs⟩, hq⟩
  · exact absurd rfl h
  · exact ⟨x, _, rfl⟩

end Fifo
