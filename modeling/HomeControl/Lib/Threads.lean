/-!
# Threads that can detach themselves

A routine is a graph of places, numbered from the entry 0, with the moves that are possible
at each: to another place, the same with a call that detaches the thread, or the end of the
thread.  Which of them is taken is left to the environment.

* `Thread.step` makes one move.  A join of a thread returns once the thread has ended, and at
  once when the thread is detached (`Thread.joinReturns`); this stays so
  (`Thread.joinReturns_step`).
* `CanDetach` says that a routine has a path to a detaching move.  A thread is detached only
  if its routine can detach (`Thread.Legal`), and if it can, some run ends in a thread that
  is detached and still running (`exists_run_detached`).
-/

namespace Threads

/-- One move of a thread. -/
inductive Move where
  | go (next : Nat)
  | detach (next : Nat)
  | exit
  deriving DecidableEq, Repr

/-- The moves that are possible at each place. -/
structure Routine where
  moves : Nat → List Move

/-- A thread, with the place that it is at while it runs. -/
structure Thread where
  routine : Routine
  place : Option Nat
  detached : Bool

def Thread.start (g : Routine) : Thread := { routine := g, place := some 0, detached := false }

def Thread.running (t : Thread) : Bool := t.place.isSome

/-- A join of the thread returns. -/
def Thread.joinReturns (t : Thread) : Bool := t.place.isNone || t.detached

def Thread.move (t : Thread) : Move → Thread
  | .go next => { t with place := some next }
  | .detach next => { t with place := some next, detached := true }
  | .exit => { t with place := none }

/-- The thread makes the move with the number `k` among those at its place. -/
def Thread.step (t : Thread) (k : Nat) : Option Thread :=
  t.place.bind fun p => (t.routine.moves p)[k]?.map t.move

def Thread.run : Thread → List Nat → Option Thread
  | t, [] => some t
  | t, k :: ks => (t.step k).bind fun t' => t'.run ks

variable {g : Routine} {t t' : Thread} {k : Nat}

/-- What a step does: a move from the place of the thread. -/
theorem Thread.step_cases (h : t.step k = some t') :
    ∃ p m, t.place = some p ∧ m ∈ t.routine.moves p ∧ t' = t.move m := by
  obtain ⟨p, hp, hmove⟩ := Option.bind_eq_some_iff.mp h
  obtain ⟨m, hm, rfl⟩ := Option.map_eq_some_iff.mp hmove
  exact ⟨p, m, hp, List.mem_of_getElem? hm, rfl⟩

theorem Thread.routine_move (t : Thread) (m : Move) : (t.move m).routine = t.routine := by
  cases m with
  | go next => rfl
  | detach next => rfl
  | exit => rfl

theorem Thread.routine_step (h : t.step k = some t') : t'.routine = t.routine := by
  obtain ⟨p, m, -, -, rfl⟩ := Thread.step_cases h
  exact t.routine_move m

/-- Where a join returns, it still does after a step of the thread. -/
theorem Thread.joinReturns_step (h : t.step k = some t') (hjoin : t.joinReturns = true) :
    t'.joinReturns = true := by
  obtain ⟨p, m, hp, -, rfl⟩ := Thread.step_cases h
  have hdetached : t.detached = true := by
    rw [Thread.joinReturns, hp] at hjoin
    exact hjoin
  cases m with
  | go next => exact hdetached
  | detach next => rfl
  | exit => rfl

/-- A joined thread that still runs is detached. -/
theorem Thread.detached_of_running (hjoin : t.joinReturns = true) (hrun : t.running = true) :
    t.detached = true := by
  rw [Thread.joinReturns, Option.isNone_eq_false_iff.mpr hrun] at hjoin
  exact hjoin

/-! ## What a routine can do -/

/-- The places that a thread of the routine can come to. -/
inductive Visits (g : Routine) : Nat → Prop
  | start : Visits g 0
  | go {p next : Nat} (hp : Visits g p) (hm : .go next ∈ g.moves p) : Visits g next
  | detach {p next : Nat} (hp : Visits g p) (hm : .detach next ∈ g.moves p) : Visits g next

/-- A thread of the routine can come to a call that detaches it. -/
def CanDetach (g : Routine) : Prop := ∃ p next, Visits g p ∧ .detach next ∈ g.moves p

/-- The thread is at a place of its routine, and detached only if that can be. -/
structure Thread.Legal (t : Thread) : Prop where
  visits : ∀ p, t.place = some p → Visits t.routine p
  detached : t.detached = true → CanDetach t.routine

theorem Thread.legal_start (g : Routine) : (Thread.start g).Legal where
  visits p hp := by
    cases hp
    exact .start
  detached h := by cases h

theorem Thread.Legal.step (hlegal : t.Legal) (h : t.step k = some t') : t'.Legal := by
  obtain ⟨p, m, hp, hm, rfl⟩ := Thread.step_cases h
  have hvisits := hlegal.visits p hp
  cases m with
  | go next =>
    refine ⟨fun q hq => ?_, hlegal.detached⟩
    cases hq
    exact .go hvisits hm
  | detach next =>
    refine ⟨fun q hq => ?_, fun _ => ⟨p, next, hvisits, hm⟩⟩
    cases hq
    exact .detach hvisits hm
  | exit => exact ⟨fun q hq => (by cases hq), hlegal.detached⟩

theorem Thread.run_concat {ks : List Nat} (hrun : t.run ks = some t') {t'' : Thread}
    (hstep : t'.step k = some t'') : t.run (ks ++ [k]) = some t'' := by
  induction ks generalizing t with
  | nil =>
    obtain rfl : t = t' := Option.some.inj hrun
    show (t.step k).bind _ = some t''
    rw [hstep]
    rfl
  | cons j ks ih =>
    obtain ⟨u, hu, hrest⟩ := Option.bind_eq_some_iff.mp hrun
    show (t.step j).bind _ = some t''
    rw [hu]
    exact ih hrest

/-- A possible move has a number. -/
theorem Thread.exists_step {p : Nat} (hp : t.place = some p) {m : Move}
    (hm : m ∈ t.routine.moves p) : ∃ k, t.step k = some (t.move m) := by
  obtain ⟨k, hk⟩ := List.getElem?_of_mem hm
  refine ⟨k, ?_⟩
  rw [Thread.step, hp, Option.bind_some, hk]
  rfl

theorem exists_run_visits {p : Nat} (hp : Visits g p) :
    ∃ ks t, (Thread.start g).run ks = some t ∧ t.routine = g ∧ t.place = some p := by
  induction hp with
  | start => exact ⟨[], _, rfl, rfl, rfl⟩
  | go _ hm ih =>
    obtain ⟨ks, t, hrun, rfl, hplace⟩ := ih
    obtain ⟨k, hk⟩ := Thread.exists_step hplace hm
    exact ⟨ks ++ [k], _, Thread.run_concat hrun hk, rfl, rfl⟩
  | detach _ hm ih =>
    obtain ⟨ks, t, hrun, rfl, hplace⟩ := ih
    obtain ⟨k, hk⟩ := Thread.exists_step hplace hm
    exact ⟨ks ++ [k], _, Thread.run_concat hrun hk, rfl, rfl⟩

/-- A routine that can detach has a run to a thread that is detached and still runs. -/
theorem exists_run_detached (h : CanDetach g) :
    ∃ ks t, (Thread.start g).run ks = some t ∧ t.detached = true ∧ t.running = true := by
  obtain ⟨p, next, hp, hm⟩ := h
  obtain ⟨ks, t, hrun, rfl, hplace⟩ := exists_run_visits hp
  obtain ⟨k, hk⟩ := Thread.exists_step hplace hm
  exact ⟨ks ++ [k], _, Thread.run_concat hrun hk, rfl, rfl⟩

end Threads
