import Mathlib.Logic.Function.Basic

/-!
# Linked lists in a heap

A heap maps addresses to nodes, and one field of a node is the link: an address, or `none`
for the null pointer.

* `Lists` says which nodes one visits by following the links from a pointer to null.
  `Lists.frame` keeps it under writes elsewhere, and `Lists.push` puts a node in front.
* `whileNext` and `forNext` are the two loops over such a list, the one that stops at null
  and the one that counts.  `whileNext_eq` and `forNext_eq` are their rules: on a list both
  visit the same nodes, without a fault.
-/

namespace LinkedList

variable {A N S : Type} {next : N → Option A}

/-- Following the links from a pointer visits these nodes, in this order, and then comes to
null. -/
inductive Lists (heap : A → Option N) (next : N → Option A) : Option A → List A → Prop
  | nil : Lists heap next none []
  | cons {a : A} {node : N} {xs : List A} (hnode : heap a = some node)
      (rest : Lists heap next (next node) xs) : Lists heap next (some a) (a :: xs)

variable {heap heap' : A → Option N} {p : Option A} {xs : List A}

/-- There is a node at each address of the list. -/
theorem Lists.isSome (h : Lists heap next p xs) : ∀ a ∈ xs, (heap a).isSome = true := by
  induction h with
  | nil => exact fun a ha => absurd ha List.not_mem_nil
  | cons hnode _ ih =>
    intro a ha
    rcases List.mem_cons.mp ha with rfl | ha
    · exact Option.isSome_of_eq_some hnode
    · exact ih a ha

/-- Writes to other nodes leave the list alone. -/
theorem Lists.frame (h : Lists heap next p xs) (hsame : ∀ a ∈ xs, heap' a = heap a) :
    Lists heap' next p xs := by
  induction h with
  | nil => exact .nil
  | cons hnode _ ih =>
    refine .cons ((hsame _ List.mem_cons_self).trans hnode) (ih fun a ha => ?_)
    exact hsame a (List.mem_cons_of_mem _ ha)

/-- A node whose link is set to the head of a list is the new head. -/
theorem Lists.push [DecidableEq A] (h : Lists heap next p xs) {a : A} (ha : a ∉ xs) {node : N}
    (hnext : next node = p) :
    Lists (Function.update heap a (some node)) next (some a) (a :: xs) := by
  have hrest : Lists (Function.update heap a (some node)) next p xs := by
    refine h.frame fun b hb => Function.update_of_ne ?_ _ _
    rintro rfl
    exact ha hb
  refine .cons (Function.update_self ..) ?_
  rw [hnext]
  exact hrest

/-! ## The two loops -/

/-- What stops a loop before its end: a null pointer or an address without a node is
dereferenced, or the fuel of a loop without a bound is used up. -/
inductive Fault where
  | dereference
  | fuel
  deriving DecidableEq, Repr

/-- `while (NULL != pointer) { body; pointer = pointer->next; }`. -/
def whileNext (heap : A → Option N) (next : N → Option A) (body : S → A → N → S) :
    Nat → Option A → S → Except Fault S
  | _, none, s => .ok s
  | 0, some _, _ => .error .fuel
  | fuel + 1, some a, s =>
    match heap a with
    | some node => whileNext heap next body fuel (next node) (body s a node)
    | none => .error .dereference

/-- `for (i = 0; i < n; i++) { body; pointer = pointer->next; }`, with the pointer at the
end. -/
def forNext (heap : A → Option N) (next : N → Option A) (body : S → A → N → S) :
    Nat → Option A → S → Except Fault (Option A × S)
  | 0, p, s => .ok (p, s)
  | n + 1, p, s =>
    match p with
    | some a =>
      match heap a with
      | some node => forNext heap next body n (next node) (body s a node)
      | none => .error .dereference
    | none => .error .dereference

/-- The body of a loop for each of these nodes. -/
def visit (heap : A → Option N) (body : S → A → N → S) (s : S) (xs : List A) : S :=
  xs.foldl (fun s a => (heap a).elim s (body s a)) s

theorem visit_cons {body : S → A → N → S} {s : S} {a : A} {node : N}
    (hnode : heap a = some node) :
    visit heap body s (a :: xs) = visit heap body (body s a node) xs := by
  rw [visit, List.foldl_cons, hnode]
  rfl

/-- The loop that stops at null visits the list. -/
theorem whileNext_eq (h : Lists heap next p xs) (body : S → A → N → S) {fuel : Nat}
    (hfuel : xs.length ≤ fuel) (s : S) :
    whileNext heap next body fuel p s = .ok (visit heap body s xs) := by
  induction h generalizing fuel s with
  | nil =>
    cases fuel with
    | zero => rfl
    | succ fuel => rfl
  | @cons a node xs hnode _ ih =>
    cases fuel with
    | zero => cases hfuel
    | succ fuel =>
      rw [whileNext, hnode, visit_cons hnode]
      exact ih (Nat.le_of_succ_le_succ hfuel) _

/-- The loop that counts to the length of the list visits it too, and ends at null. -/
theorem forNext_eq (h : Lists heap next p xs) (body : S → A → N → S) (s : S) :
    forNext heap next body xs.length p s = .ok (none, visit heap body s xs) := by
  induction h generalizing s with
  | nil => rfl
  | @cons a node xs hnode _ ih =>
    rw [List.length_cons, forNext, visit_cons hnode]
    simp only [hnode]
    exact ih _

end LinkedList
