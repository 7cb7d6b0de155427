import HomeControl.Lib.Threads
import HomeControl.Lib.StepSystem
import HomeControl.Opening

/-!
# The end of the program

`main` walks the module list three times with one pointer: it calls each `init`, it creates
a thread for each `get`, and, when it has joined the threads, it calls each `final`.  Then it
closes the message queue and frees what the threads work on.

The second walk leaves the pointer at the end of the list, and nothing takes it back to the
head before the third.  And three of the four `get` routines detach their thread, which makes
`pthread_join` return at once.

* `program` is the step system of `main` and its threads, for any module list, and
  `MainState.Takes` says what a step does.
* `finals_eq_nil` says that no `final` is ever called, and `detached_of_closing` that what
  still runs when the queue is closed has detached itself.
* `shutsDown_iff` puts both together: the shutdown is orderly in every run exactly when no
  module has a `final` and no `get` can detach its thread.
-/

namespace HomeControl

open StepSystem Threads

/-! ## The modules -/

/-- `struct control`, as `main` reads it.  A `Bool` says that the pointer is not null, and
`get` is the routine behind the pointer. -/
structure ThreadModule extends Control where
  init : Bool
  final : Bool
  get : Option Routine

/-- `voice_get`: the test of the serial line, the test of the queue, the call of
`pthread_detach`, and the loop. -/
def voiceGet : Routine where
  moves
    | 0 => [.go 1, .exit]
    | 1 => [.go 2, .exit]
    | 2 => [.detach 3]
    | _ => [.go 3]

/-- `tcpsocket_get`: the call of `pthread_detach`, the tests of the socket and of the queue,
and the loop, which a failed `setsockopt` leaves. -/
def tcpsocketGet : Routine where
  moves
    | 0 => [.detach 1]
    | 1 => [.go 2, .exit]
    | 2 => [.go 3, .exit]
    | _ => [.go 3, .exit]

/-- `smoke_get`: the call of `pthread_detach`, the test of the queue, and the loop. -/
def smokeGet : Routine where
  moves
    | 0 => [.detach 1]
    | 1 => [.go 2, .exit]
    | _ => [.go 2]

/-- `receive_get`: `mq_getattr`, and the loop, which an error of `mq_receive` leaves.  The
call of `pthread_detach` is commented out. -/
def receiveGet : Routine where
  moves
    | 0 => [.go 1, .exit]
    | _ => [.go 1, .exit]

/-- `add_interface_to_ctrl_list`: the new module is the head. -/
def addInterfaceToCtrlList (phead : List ThreadModule) (controlInterface : ThreadModule) :
    List ThreadModule :=
  controlInterface :: phead

def voiceModule : ThreadModule := ⟨⟨ascii "voice", .voiceSet⟩, true, true, some voiceGet⟩
def socketModule : ThreadModule := ⟨⟨ascii "socket", .tcpsocketSet⟩, true, true, some tcpsocketGet⟩
def smokeModule : ThreadModule := ⟨⟨ascii "smoke", .smokeSet⟩, true, true, some smokeGet⟩
def receiveModule : ThreadModule := ⟨⟨ascii "receive", .receiveSet⟩, true, true, some receiveGet⟩

/-- The list that `main` builds. -/
def shippedModules : List ThreadModule :=
  [voiceModule, socketModule, smokeModule, receiveModule].foldl addInterfaceToCtrlList []

example : shippedModules.map ThreadModule.toControl = shippedControls := rfl

/-! ## `main` -/

/-- The place of `main`.  `creating i` and `joining i` are the two loops that count, and
`closing` and `freeing` are before `msg_queue_final` and before `free`. -/
inductive MainPlace where
  | starting
  | initializing
  | creating (i : Nat)
  | joining (i : Nat)
  | finalizing
  | closing
  | freeing
  | returned (ret : Int)
  deriving DecidableEq, Repr

/-- The state of `main` and its threads.  `pointer` is the position of a module, and `none`
for the null pointer.  `inits` and `finals` are records of the calls. -/
structure MainState where
  place : MainPlace
  pointer : Option Nat
  nodeNum : Nat
  tid : Nat → Option Thread
  inits : List Nat := []
  finals : List Nat := []

/-- The pointer to the module at a position, null behind the last one. -/
def node (mods : List ThreadModule) (i : Nat) : Option Nat :=
  if i < mods.length then some i else none

/-- `wiringPiSetup` and `msg_queue_create`. -/
def MainState.setup (mods : List ThreadModule) (s : MainState) (gpio queue : Bool) :
    Option MainState :=
  if s.place = .starting then
    if gpio && queue then some { s with place := .initializing, pointer := node mods 0 }
    else some { s with place := .returned (-1) }
  else none

/-- One turn of the first loop, or its end. -/
def MainState.init (mods : List ThreadModule) (s : MainState) : Option MainState :=
  if s.place = .initializing then
    match s.pointer with
    | some i => mods[i]?.map fun m =>
      { s with
        inits := if m.init then i :: s.inits else s.inits
        pointer := node mods (i + 1)
        nodeNum := s.nodeNum + 1 }
    | none => some { s with place := .creating 0, pointer := node mods 0 }
  else none

/-- The thread that `pthread_create` makes for a module. -/
def ThreadModule.thread (m : ThreadModule) (success : Bool) : Option Thread :=
  if success then m.get.map Thread.start else none

/-- One turn of the second loop, or its end.  The result of `pthread_create` is not looked
at. -/
def MainState.create (mods : List ThreadModule) (s : MainState) (success : Bool) :
    Option MainState :=
  match s.place with
  | .creating i =>
    if i < s.nodeNum then
      s.pointer.bind fun p => mods[p]?.map fun m =>
        { s with
          place := .creating (i + 1)
          pointer := node mods (p + 1)
          tid := Function.update s.tid i (m.thread success) }
    else some { s with place := .joining 0 }
  | _ => none

/-- One turn of the third loop, or its end.  `pthread_join` returns when the thread has ended,
and with an error when it is detached or when there is none. -/
def MainState.join (s : MainState) : Option MainState :=
  match s.place with
  | .joining i =>
    if i < s.nodeNum then
      if (s.tid i).all Thread.joinReturns then some { s with place := .joining (i + 1) } else none
    else some { s with place := .finalizing }
  | _ => none

/-- One turn of the last loop, or its end. -/
def MainState.final (mods : List ThreadModule) (s : MainState) : Option MainState :=
  if s.place = .finalizing then
    match s.pointer with
    | some i => mods[i]?.map fun m =>
      { s with
        finals := if m.final then i :: s.finals else s.finals
        pointer := node mods (i + 1) }
    | none => some { s with place := .closing }
  else none

/-- A step of a thread.  The threads end with the process. -/
def MainState.thread (s : MainState) (i k : Nat) : Option MainState :=
  match s.place with
  | .returned _ => none
  | _ => (s.tid i).bind fun t => (t.step k).map fun t' =>
    { s with tid := Function.update s.tid i (some t') }

/-- The steps of `main`, and those of the threads. -/
inductive MainLabel where
  | setup (gpio queue : Bool)
  | init
  | create (success : Bool)
  | join
  | final
  | msgQueueFinal
  | free
  | thread (i k : Nat)
  deriving DecidableEq

def MainState.step (mods : List ThreadModule) (s : MainState) : MainLabel → Option MainState
  | .setup gpio queue => s.setup mods gpio queue
  | .init => s.init mods
  | .create success => s.create mods success
  | .join => s.join
  | .final => s.final mods
  | .msgQueueFinal => if s.place = .closing then some { s with place := .freeing } else none
  | .free => if s.place = .freeing then some { s with place := .returned 0 } else none
  | .thread i k => s.thread i k

/-- The program for a module list. -/
def program (mods : List ThreadModule) : StepSystem MainState MainLabel where
  start := { place := .starting, pointer := none, nodeNum := 0, tid := fun _ => none }
  step := MainState.step mods

/-- No thread runs when the queue is closed and when the memory is freed, and a run that
returns 0 has called each `final` that is not null once. -/
structure ShutsDown (mods : List ThreadModule) (s : MainState) : Prop where
  quiet : s.place = .closing ∨ s.place = .freeing →
    ∀ i t, s.tid i = some t → t.running = false
  finals : s.place = .returned 0 → ∀ i m, mods[i]? = some m → m.final = true →
    s.finals.count i = 1

variable {mods : List ThreadModule} {s s' : MainState}

/-! ## One step -/

/-- What a step does: one turn of a loop, its end, or one of the calls in between. -/
inductive MainState.Takes (mods : List ThreadModule) (s : MainState) :
    MainLabel → MainState → Prop
  | setup (hplace : s.place = .starting) :
    Takes mods s (.setup true true) { s with place := .initializing, pointer := node mods 0 }
  | setupFails {gpio queue : Bool} (hplace : s.place = .starting) :
    Takes mods s (.setup gpio queue) { s with place := .returned (-1) }
  | init {i : Nat} {m : ThreadModule} (hplace : s.place = .initializing)
      (hpointer : s.pointer = some i) (hm : mods[i]? = some m) :
    Takes mods s .init
      { s with
        inits := if m.init then i :: s.inits else s.inits
        pointer := node mods (i + 1)
        nodeNum := s.nodeNum + 1 }
  | initEnds (hplace : s.place = .initializing) (hpointer : s.pointer = none) :
    Takes mods s .init { s with place := .creating 0, pointer := node mods 0 }
  | create {i p : Nat} {m : ThreadModule} {success : Bool} (hplace : s.place = .creating i)
      (hi : i < s.nodeNum) (hpointer : s.pointer = some p) (hm : mods[p]? = some m) :
    Takes mods s (.create success)
      { s with
        place := .creating (i + 1)
        pointer := node mods (p + 1)
        tid := Function.update s.tid i (m.thread success) }
  | createEnds {i : Nat} {success : Bool} (hplace : s.place = .creating i)
      (hi : ¬ i < s.nodeNum) : Takes mods s (.create success) { s with place := .joining 0 }
  | join {i : Nat} (hplace : s.place = .joining i) (hi : i < s.nodeNum)
      (hreturns : (s.tid i).all Thread.joinReturns = true) :
    Takes mods s .join { s with place := .joining (i + 1) }
  | joinEnds {i : Nat} (hplace : s.place = .joining i) (hi : ¬ i < s.nodeNum) :
    Takes mods s .join { s with place := .finalizing }
  | final {i : Nat} {m : ThreadModule} (hplace : s.place = .finalizing)
      (hpointer : s.pointer = some i) (hm : mods[i]? = some m) :
    Takes mods s .final
      { s with
        finals := if m.final then i :: s.finals else s.finals
        pointer := node mods (i + 1) }
  | finalEnds (hplace : s.place = .finalizing) (hpointer : s.pointer = none) :
    Takes mods s .final { s with place := .closing }
  | msgQueueFinal (hplace : s.place = .closing) :
    Takes mods s .msgQueueFinal { s with place := .freeing }
  | free (hplace : s.place = .freeing) : Takes mods s .free { s with place := .returned 0 }
  | thread {i k : Nat} {t t' : Thread} (ht : s.tid i = some t) (ht' : t.step k = some t') :
    Takes mods s (.thread i k) { s with tid := Function.update s.tid i (some t') }

theorem MainState.takes_setup {gpio queue : Bool} (hs : s.setup mods gpio queue = some s') :
    s.Takes mods (.setup gpio queue) s' := by
  unfold MainState.setup at hs
  split at hs
  · rename_i hplace
    split at hs
    · rename_i hboth
      obtain ⟨rfl, rfl⟩ := Bool.and_eq_true_iff.mp hboth
      cases hs
      exact .setup hplace
    · cases hs
      exact .setupFails hplace
  · cases hs

theorem MainState.takes_init (hs : s.init mods = some s') : s.Takes mods .init s' := by
  unfold MainState.init at hs
  split at hs
  · rename_i hplace
    split at hs
    · rename_i i hpointer
      obtain ⟨m, hm, rfl⟩ := Option.map_eq_some_iff.mp hs
      exact .init hplace hpointer hm
    · rename_i hpointer
      cases hs
      exact .initEnds hplace hpointer
  · cases hs

theorem MainState.takes_create {success : Bool} (hs : s.create mods success = some s') :
    s.Takes mods (.create success) s' := by
  unfold MainState.create at hs
  split at hs
  · rename_i i hplace
    split at hs
    · rename_i hi
      obtain ⟨p, hpointer, hmap⟩ := Option.bind_eq_some_iff.mp hs
      obtain ⟨m, hm, rfl⟩ := Option.map_eq_some_iff.mp hmap
      exact .create hplace hi hpointer hm
    · rename_i hi
      cases hs
      exact .createEnds hplace hi
  · cases hs

theorem MainState.takes_join (hs : s.join = some s') : s.Takes mods .join s' := by
  unfold MainState.join at hs
  split at hs
  · rename_i i hplace
    split at hs
    · rename_i hi
      split at hs
      · rename_i hreturns
        cases hs
        exact .join hplace hi hreturns
      · cases hs
    · rename_i hi
      cases hs
      exact .joinEnds hplace hi
  · cases hs

theorem MainState.takes_final (hs : s.final mods = some s') : s.Takes mods .final s' := by
  unfold MainState.final at hs
  split at hs
  · rename_i hplace
    split at hs
    · rename_i i hpointer
      obtain ⟨m, hm, rfl⟩ := Option.map_eq_some_iff.mp hs
      exact .final hplace hpointer hm
    · rename_i hpointer
      cases hs
      exact .finalEnds hplace hpointer
  · cases hs

theorem MainState.takes_thread {i k : Nat} (hs : s.thread i k = some s') :
    s.Takes mods (.thread i k) s' := by
  unfold MainState.thread at hs
  split at hs
  · cases hs
  · obtain ⟨t, ht, hmap⟩ := Option.bind_eq_some_iff.mp hs
    obtain ⟨t', ht', rfl⟩ := Option.map_eq_some_iff.mp hmap
    exact .thread ht ht'

/-- The step function does what `Takes` says, and nothing else. -/
theorem MainState.takes_of_step {ℓ : MainLabel} (hs : s.step mods ℓ = some s') :
    s.Takes mods ℓ s' := by
  cases ℓ with
  | setup gpio queue => exact MainState.takes_setup hs
  | init => exact MainState.takes_init hs
  | create success => exact MainState.takes_create hs
  | join => exact MainState.takes_join hs
  | final => exact MainState.takes_final hs
  | thread i k => exact MainState.takes_thread hs
  | msgQueueFinal =>
    obtain ⟨hplace, heq⟩ := Option.ite_none_right_eq_some.mp hs
    cases heq
    exact .msgQueueFinal hplace
  | free =>
    obtain ⟨hplace, heq⟩ := Option.ite_none_right_eq_some.mp hs
    cases heq
    exact .free hplace

/-! ## The three walks -/

/-- Where `main` has joined the thread with the number `i`, if there is one. -/
def MainPlace.Joined : MainPlace → Nat → Prop
  | .joining j, i => i < j
  | .finalizing, _ => True
  | .closing, _ => True
  | .freeing, _ => True
  | _, _ => False

/-- The pointer and the count at a place: behind the first two loops the pointer is null. -/
def MainPlace.Walked (mods : List ThreadModule) : MainPlace → Option Nat → Nat → Prop
  | .starting, _, n => n = 0
  | .initializing, pointer, n => pointer = node mods n ∧ n ≤ mods.length
  | .creating i, pointer, n => pointer = node mods i ∧ n = mods.length ∧ i ≤ n
  | .returned _, _, _ => True
  | _, pointer, n => pointer = none ∧ n = mods.length

/-- What holds in every state: no `final` has been called, each thread belongs to a module,
and a join of a thread that `main` has joined returns. -/
structure MainState.Tracked (mods : List ThreadModule) (s : MainState) : Prop where
  walked : s.place.Walked mods s.pointer s.nodeNum
  finals : s.finals = []
  legal : ∀ i t, s.tid i = some t →
    t.Legal ∧ ∃ m, mods[i]? = some m ∧ m.get = some t.routine
  joined : ∀ i t, s.tid i = some t → s.place.Joined i → t.joinReturns = true

theorem node_eq_none_iff {i : Nat} : node mods i = none ↔ mods.length ≤ i := by
  unfold node
  split
  · simp; omega
  · simp; omega

theorem node_eq_some_iff {i j : Nat} : node mods i = some j ↔ j = i ∧ i < mods.length := by
  unfold node
  split
  · simp; omega
  · simp; omega

/-- The walk of a state whose place is known. -/
theorem MainState.Tracked.walked_at (h : s.Tracked mods) {place : MainPlace}
    (hplace : s.place = place) : place.Walked mods s.pointer s.nodeNum := by
  rw [← hplace]
  exact h.walked

theorem tracked_program (mods : List ThreadModule) : (program mods).start.Tracked mods where
  walked := rfl
  finals := rfl
  legal i t h := by cases h
  joined i t h := by cases h

/-- A thread that is created is one of its module, and it has not moved. -/
theorem ThreadModule.thread_cases {m : ThreadModule} {success : Bool} {t : Thread}
    (h : m.thread success = some t) : ∃ g, m.get = some g ∧ t = Thread.start g := by
  unfold ThreadModule.thread at h
  split at h
  · obtain ⟨g, hg, rfl⟩ := Option.map_eq_some_iff.mp h
    exact ⟨g, hg, rfl⟩
  · cases h

/-- A new thread is one of its module, and `main` has joined none yet. -/
theorem MainState.Tracked.create (h : s.Tracked mods) {i p : Nat} {m : ThreadModule}
    {success : Bool} (hplace : s.place = .creating i) (hi : i < s.nodeNum)
    (hp : s.pointer = some p) (hm : mods[p]? = some m) :
    MainState.Tracked mods { s with
      place := .creating (i + 1)
      pointer := node mods (p + 1)
      tid := Function.update s.tid i (m.thread success) } := by
  obtain ⟨hpointer, hnum, -⟩ := h.walked_at hplace
  obtain ⟨rfl, -⟩ := node_eq_some_iff.mp (hpointer.symm.trans hp)
  refine ⟨⟨rfl, hnum, hi⟩, h.finals, fun j t ht => ?_, fun j t _ hjoined => hjoined.elim⟩
  by_cases hj : j = p
  · have hthread : m.thread success = some t := by
      rw [hj] at ht
      exact (Function.update_self p (m.thread success) s.tid).symm.trans ht
    obtain ⟨g, hg, rfl⟩ := ThreadModule.thread_cases hthread
    rw [hj]
    exact ⟨Thread.legal_start g, m, hm, hg⟩
  · exact h.legal j t ((Function.update_of_ne hj _ s.tid).symm.trans ht)

/-- The threads below the number of the join are joined. -/
theorem MainState.Tracked.joined_below (h : s.Tracked mods) {i : Nat}
    (hplace : s.place = .joining i) {j : Nat} {t : Thread} (ht : s.tid j = some t) (hj : j < i) :
    t.joinReturns = true := by
  refine h.joined j t ht ?_
  rw [hplace]
  exact hj

theorem MainState.Tracked.join (h : s.Tracked mods) {i : Nat} (hplace : s.place = .joining i)
    (hreturns : (s.tid i).all Thread.joinReturns = true) :
    MainState.Tracked mods { s with place := .joining (i + 1) } := by
  have hwalked := h.walked_at hplace
  refine ⟨hwalked, h.finals, h.legal, fun j t ht hj => ?_⟩
  have hle : j < i + 1 := hj
  by_cases hlt : j < i
  · exact h.joined_below hplace ht hlt
  · obtain rfl : j = i := by omega
    have htid : s.tid j = some t := ht
    rw [htid] at hreturns
    exact hreturns

/-- Behind the join loop every thread is joined. -/
theorem MainState.Tracked.joinEnds (h : s.Tracked mods) {i : Nat}
    (hplace : s.place = .joining i) (hi : ¬ i < s.nodeNum) :
    MainState.Tracked mods { s with place := .finalizing } := by
  have hwalked := h.walked_at hplace
  refine ⟨hwalked, h.finals, h.legal, fun j t ht _ => ?_⟩
  obtain ⟨-, m, hm, -⟩ := h.legal j t ht
  have hlen := (List.getElem?_eq_some_iff.mp hm).1
  have hnum : s.nodeNum = mods.length := hwalked.2
  exact h.joined_below hplace ht (by omega)

theorem MainState.Tracked.thread (h : s.Tracked mods) {i k : Nat} {t t' : Thread}
    (ht : s.tid i = some t) (ht' : t.step k = some t') :
    MainState.Tracked mods { s with tid := Function.update s.tid i (some t') } := by
  obtain ⟨hlegal, m, hm, hget⟩ := h.legal i t ht
  have hcases : ∀ j u, Function.update s.tid i (some t') j = some u →
      (j = i ∧ u = t') ∨ s.tid j = some u := by
    intro j u hu
    by_cases hj : j = i
    · rw [hj, Function.update_self] at hu
      exact .inl ⟨hj, (Option.some.inj hu).symm⟩
    · rw [Function.update_of_ne hj] at hu
      exact .inr hu
  refine ⟨h.walked, h.finals, fun j u hu => ?_, fun j u hu hj => ?_⟩
  · rcases hcases j u hu with ⟨rfl, rfl⟩ | hold
    · exact ⟨hlegal.step ht', m, hm, by rw [Thread.routine_step ht', hget]⟩
    · exact h.legal j u hold
  · rcases hcases j u hu with ⟨rfl, rfl⟩ | hold
    · exact Thread.joinReturns_step ht' (h.joined j t ht hj)
    · exact h.joined j u hold hj

theorem MainState.Tracked.step (h : s.Tracked mods) {ℓ : MainLabel} (hs : s.Takes mods ℓ s') :
    s'.Tracked mods := by
  cases hs with
  | setup hplace =>
    have hnum : s.nodeNum = 0 := h.walked_at hplace
    refine ⟨⟨?_, ?_⟩, h.finals, h.legal, fun i t _ hjoined => hjoined.elim⟩
    · rw [hnum]
    · show s.nodeNum ≤ mods.length
      omega
  | setupFails hplace => exact ⟨trivial, h.finals, h.legal, fun i t _ hjoined => hjoined.elim⟩
  | init hplace hi hm =>
    obtain ⟨hpointer, -⟩ := h.walked_at hplace
    obtain ⟨rfl, hlt⟩ := node_eq_some_iff.mp (hpointer.symm.trans hi)
    refine ⟨?_, h.finals, h.legal, h.joined⟩
    show MainPlace.Walked mods s.place _ _
    rw [hplace]
    exact ⟨rfl, hlt⟩
  | initEnds hplace hnone =>
    obtain ⟨hpointer, hle⟩ := h.walked_at hplace
    have hge := node_eq_none_iff.mp (hpointer.symm.trans hnone)
    refine ⟨⟨rfl, ?_, Nat.zero_le _⟩, h.finals, h.legal, fun i t _ hjoined => hjoined.elim⟩
    exact Nat.le_antisymm hle hge
  | create hplace hi hp hm => exact h.create hplace hi hp hm
  | createEnds hplace hi =>
    obtain ⟨hpointer, hnum, -⟩ := h.walked_at hplace
    refine ⟨⟨?_, hnum⟩, h.finals, h.legal, fun j t _ hjoined => absurd hjoined (Nat.not_lt_zero j)⟩
    -- The loop has counted to the end of the list, and the pointer is there too.
    exact hpointer.trans (node_eq_none_iff.mpr (by omega))
  | join hplace hi hreturns => exact h.join hplace hreturns
  | joinEnds hplace hi => exact h.joinEnds hplace hi
  | final hplace hp =>
    -- The pointer is null already: the body of the loop is never run.
    obtain ⟨hnone, -⟩ := h.walked_at hplace
    rw [hnone] at hp
    cases hp
  | finalEnds hplace =>
    have hwalked := h.walked_at hplace
    have hjoined := h.joined
    rw [hplace] at hjoined
    exact ⟨hwalked, h.finals, h.legal, fun j t ht _ => hjoined j t ht trivial⟩
  | msgQueueFinal hplace =>
    have hwalked := h.walked_at hplace
    have hjoined := h.joined
    rw [hplace] at hjoined
    exact ⟨hwalked, h.finals, h.legal, fun j t ht _ => hjoined j t ht trivial⟩
  | free hplace => exact ⟨trivial, h.finals, h.legal, fun j t _ hjoined => hjoined.elim⟩
  | thread ht ht' => exact h.thread ht ht'

theorem tracked_of_program (hs : (program mods).Reachable s) : s.Tracked mods :=
  hs.invariant (MainState.Tracked mods) (tracked_program mods) fun _ _ _ h _ hstep =>
    h.step (MainState.takes_of_step hstep)

/-- No run calls a `final`. -/
theorem finals_eq_nil (hs : (program mods).Reachable s) : s.finals = [] :=
  (tracked_of_program hs).finals

/-- A thread that runs when the queue is closed, or when the memory is freed, has detached
itself. -/
theorem detached_of_closing (hs : (program mods).Reachable s)
    (hplace : s.place = .closing ∨ s.place = .freeing) {i : Nat} {t : Thread}
    (ht : s.tid i = some t) (hrun : t.running = true) :
    t.detached = true ∧ ∃ m ∈ mods, ∃ g, m.get = some g ∧ CanDetach g := by
  have h := tracked_of_program hs
  have hjoined : s.place.Joined i := by
    rcases hplace with hplace | hplace
    · rw [hplace]
      trivial
    · rw [hplace]
      trivial
  have hdetached := Thread.detached_of_running (h.joined i t ht hjoined) hrun
  obtain ⟨hlegal, m, hm, hget⟩ := h.legal i t ht
  exact ⟨hdetached, m, List.mem_of_getElem? hm, t.routine, hget, hlegal.detached hdetached⟩

/-! ## Runs of any module list -/

/-- The threads of the modules below `n` for which `pthread_create` succeeds. -/
def createdThreads (mods : List ThreadModule) (created : Nat → Bool) (n i : Nat) :
    Option Thread :=
  if i < n then mods[i]?.bind fun m => m.thread (created i) else none

/-- A run to a place, with these threads. -/
def Arrives (mods : List ThreadModule) (place : MainPlace) (tid : Nat → Option Thread) : Prop :=
  ∃ s, (program mods).Reachable s ∧ s.place = place ∧ s.tid = tid

theorem Arrives.exists_walked {place : MainPlace} {tid : Nat → Option Thread}
    (h : Arrives mods place tid) :
    ∃ s, (program mods).Reachable s ∧ s.place = place ∧ s.tid = tid ∧
      place.Walked mods s.pointer s.nodeNum := by
  obtain ⟨s, hs, hplace, htid⟩ := h
  exact ⟨s, hs, hplace, htid, (tracked_of_program hs).walked_at hplace⟩

/-- The first loop comes to each module. -/
theorem arrives_initializing (mods : List ThreadModule) (n : Nat) (hn : n ≤ mods.length) :
    ∃ s, (program mods).Reachable s ∧ s.place = .initializing ∧ s.pointer = node mods n ∧
      s.tid = fun _ => none := by
  induction n with
  | zero =>
    have hstep : (program mods).step (program mods).start (.setup true true) = some _ := rfl
    exact ⟨_, .step .start trivial hstep, rfl, rfl, rfl⟩
  | succ n ih =>
    obtain ⟨s, hs, hplace, hpointer, htid⟩ := ih (by omega)
    have hnode : node mods n = some n := node_eq_some_iff.mpr ⟨rfl, hn⟩
    obtain ⟨m, hm⟩ : ∃ m, mods[n]? = some m := ⟨_, List.getElem?_eq_getElem hn⟩
    have hinit : s.init mods = some { s with
        inits := if m.init then n :: s.inits else s.inits
        pointer := node mods (n + 1)
        nodeNum := s.nodeNum + 1 } := by
      unfold MainState.init
      rw [if_pos hplace, hpointer, hnode]
      dsimp only
      rw [hm, Option.map_some]
    exact ⟨_, .step (l := .init) hs trivial hinit, hplace, rfl, htid⟩

/-- The second loop comes to each module, whatever `pthread_create` returns. -/
theorem arrives_creating (mods : List ThreadModule) (created : Nat → Bool) (n : Nat)
    (hn : n ≤ mods.length) :
    Arrives mods (.creating n) (createdThreads mods created n) := by
  induction n with
  | zero =>
    obtain ⟨s, hs, hplace, hpointer, htid⟩ := arrives_initializing mods mods.length (Nat.le_refl _)
    have hinit : s.init mods = some { s with
        place := .creating 0
        pointer := node mods 0 } := by
      unfold MainState.init
      rw [if_pos hplace, hpointer, node_eq_none_iff.mpr (Nat.le_refl _)]
    refine ⟨_, .step (l := .init) hs trivial hinit, rfl, htid.trans (funext fun i => ?_)⟩
    exact (if_neg (Nat.not_lt_zero i)).symm
  | succ n ih =>
    obtain ⟨s, hs, hplace, htid, hpointer, hnum, -⟩ := (ih (by omega)).exists_walked
    have hnode : node mods n = some n := node_eq_some_iff.mpr ⟨rfl, hn⟩
    obtain ⟨m, hm⟩ : ∃ m, mods[n]? = some m := ⟨_, List.getElem?_eq_getElem hn⟩
    have hcreate : s.create mods (created n) = some { s with
        place := .creating (n + 1)
        pointer := node mods (n + 1)
        tid := Function.update s.tid n (m.thread (created n)) } := by
      unfold MainState.create
      rw [hplace]
      dsimp only
      rw [if_pos (by omega), hpointer, hnode, Option.bind_some, hm, Option.map_some]
    refine ⟨_, .step (l := .create (created n)) hs trivial hcreate, rfl, funext fun i => ?_⟩
    show Function.update s.tid n _ i = _
    rw [htid]
    by_cases hi : i = n
    · rw [hi, Function.update_self, createdThreads, if_pos (Nat.lt_succ_self n), hm,
        Option.bind_some]
    · rw [Function.update_of_ne hi, createdThreads, createdThreads]
      by_cases hlt : i < n
      · rw [if_pos hlt, if_pos (by omega)]
      · rw [if_neg hlt, if_neg (by omega)]

theorem arrives_joining (mods : List ThreadModule) (created : Nat → Bool) :
    Arrives mods (.joining 0) (createdThreads mods created mods.length) := by
  obtain ⟨s, hs, hplace, htid, -, hnum, -⟩ :=
    (arrives_creating mods created mods.length (Nat.le_refl _)).exists_walked
  have hcreate : s.create mods true = some { s with place := .joining 0 } := by
    unfold MainState.create
    rw [hplace]
    dsimp only
    rw [if_neg (by omega)]
  exact ⟨_, .step (l := .create true) hs trivial hcreate, rfl, htid⟩

/-- A run of one thread, while `main` waits. -/
theorem Arrives.run {tid : Nat → Option Thread} (h : Arrives mods (.joining 0) tid) {i : Nat}
    {t t' : Thread} (ht : tid i = some t) {ks : List Nat} (hrun : t.run ks = some t') :
    Arrives mods (.joining 0) (Function.update tid i (some t')) := by
  induction ks generalizing tid t with
  | nil =>
    obtain rfl : t = t' := Option.some.inj hrun
    rwa [← ht, Function.update_eq_self]
  | cons k ks ih =>
    obtain ⟨u, hu, hrest⟩ := Option.bind_eq_some_iff.mp hrun
    obtain ⟨s, hs, hplace, rfl⟩ := h
    have hthread : s.thread i k = some { s with tid := Function.update s.tid i (some u) } := by
      unfold MainState.thread
      rw [hplace, ht]
      dsimp only
      rw [Option.bind_some, hu]
      rfl
    have hnext : Arrives mods (.joining 0) (Function.update s.tid i (some u)) :=
      ⟨_, .step (l := .thread i k) hs trivial hthread, hplace, rfl⟩
    have hlast := ih hnext (Function.update_self ..) hrest
    rwa [Function.update_idem] at hlast

theorem Arrives.join {tid : Nat → Option Thread} (h : Arrives mods (.joining 0) tid)
    (hreturns : ∀ i t, tid i = some t → t.joinReturns = true) (n : Nat) (hn : n ≤ mods.length) :
    Arrives mods (.joining n) tid := by
  induction n with
  | zero => exact h
  | succ n ih =>
    obtain ⟨s, hs, hplace, rfl, -, hnum⟩ := (ih (by omega)).exists_walked
    have hall : (s.tid n).all Thread.joinReturns = true := by
      cases ht : s.tid n with
      | none => rfl
      | some t => exact hreturns n t ht
    have hjoin : s.join = some { s with place := .joining (n + 1) } := by
      unfold MainState.join
      rw [hplace]
      dsimp only
      rw [if_pos (by omega), if_pos hall]
    exact ⟨_, .step (l := .join) hs trivial hjoin, rfl, rfl⟩

/-- Once every join returns, `main` comes to the end. -/
theorem Arrives.closing {tid : Nat → Option Thread} (h : Arrives mods (.joining 0) tid)
    (hreturns : ∀ i t, tid i = some t → t.joinReturns = true) : Arrives mods .closing tid := by
  obtain ⟨s, hs, hplace, rfl, hpointer, hnum⟩ :=
    (h.join hreturns mods.length (Nat.le_refl _)).exists_walked
  have hjoin : s.join = some { s with place := .finalizing } := by
    unfold MainState.join
    rw [hplace]
    dsimp only
    rw [if_neg (by omega)]
  have hfinal : MainState.final mods { s with place := .finalizing } =
      some { s with place := .closing } := by
    unfold MainState.final
    rw [if_pos rfl, hpointer]
  exact ⟨_, .step (l := .final) (.step (l := .join) hs trivial hjoin) trivial hfinal, rfl, rfl⟩

theorem Arrives.returned {tid : Nat → Option Thread} (h : Arrives mods .closing tid) :
    Arrives mods (.returned 0) tid := by
  obtain ⟨s, hs, hplace, rfl⟩ := h
  have hclose : (program mods).step s .msgQueueFinal = some { s with place := .freeing } :=
    if_pos hplace
  have hfree : (program mods).step { s with place := .freeing } .free =
      some { s with place := .returned 0 } := rfl
  exact ⟨_, .step (.step hs trivial hclose) trivial hfree, rfl, rfl⟩

/-! ## The main result -/

/-- A list whose modules have nothing to clean up, and whose threads stay joinable. -/
theorem shutsDown_of_joinable (hmods : ∀ m ∈ mods, m.final = false ∧
    ∀ g, m.get = some g → ¬ CanDetach g) (hs : (program mods).Reachable s) :
    ShutsDown mods s := by
  refine ⟨fun hplace i t ht => ?_, fun _ i m hm hfinal => ?_⟩
  · refine Bool.eq_false_iff.mpr fun hrun => ?_
    obtain ⟨-, m, hm, g, hg, hdetach⟩ := detached_of_closing hs hplace ht hrun
    exact (hmods m hm).2 g hg hdetach
  · rw [(hmods m (List.mem_of_getElem? hm)).1] at hfinal
    cases hfinal

/-- A run in which no thread is created returns, and no `final` has been called. -/
theorem arrives_returned (mods : List ThreadModule) :
    Arrives mods (.returned 0) fun _ => none := by
  have hnone : createdThreads mods (fun _ => false) mods.length = fun _ => none := by
    funext i
    unfold createdThreads
    split
    · cases mods[i]? with
      | none => rfl
      | some m => rfl
    · rfl
  have hjoining := arrives_joining mods fun _ => false
  rw [hnone] at hjoining
  exact (hjoining.closing fun i t ht => by cases ht).returned

/-- A thread that can detach itself can run on when the queue is closed. -/
theorem arrives_closing_running {i : Nat} {m : ThreadModule} (hm : mods[i]? = some m)
    {g : Routine} (hg : m.get = some g) (hdetach : CanDetach g) :
    ∃ tid t, Arrives mods .closing tid ∧ tid i = some t ∧ t.running = true := by
  obtain ⟨ks, t, hrun, hdetached, hrunning⟩ := exists_run_detached hdetach
  have hlen := (List.getElem?_eq_some_iff.mp hm).1
  have hjoining := arrives_joining mods fun j => decide (j = i)
  have hself : createdThreads mods (fun j => decide (j = i)) mods.length i =
      some (Thread.start g) := by
    rw [createdThreads, if_pos hlen, hm, Option.bind_some, ThreadModule.thread,
      if_pos (decide_eq_true rfl), hg, Option.map_some]
  have hother : ∀ j, j ≠ i →
      createdThreads mods (fun j => decide (j = i)) mods.length j = none := by
    intro j hj
    unfold createdThreads
    split
    · cases mods[j]? with
      | none => rfl
      | some m =>
        show m.thread (decide (j = i)) = none
        rw [decide_eq_false hj]
        rfl
    · rfl
  refine ⟨_, t, (hjoining.run hself hrun).closing fun j u hu => ?_, Function.update_self ..,
    hrunning⟩
  by_cases hj : j = i
  · rw [hj, Function.update_self] at hu
    obtain rfl := Option.some.inj hu
    rw [Thread.joinReturns, hdetached, Bool.or_true]
  · rw [Function.update_of_ne hj, hother j hj] at hu
    cases hu

/-- For every module list: every run that gets past the join loop shuts down in order, exactly
when no module has a `final` and no `get` can detach its thread. -/
theorem shutsDown_iff (mods : List ThreadModule) :
    (∀ s, (program mods).Reachable s → ShutsDown mods s) ↔
      ∀ m ∈ mods, m.final = false ∧ ∀ g, m.get = some g → ¬ CanDetach g := by
  constructor
  · intro hall m hmem
    obtain ⟨i, hm⟩ := List.getElem?_of_mem hmem
    constructor
    · refine Bool.eq_false_iff.mpr fun hfinal => ?_
      obtain ⟨s, hs, hplace, -⟩ := arrives_returned mods
      have honce := (hall s hs).finals hplace i m hm hfinal
      rw [finals_eq_nil hs] at honce
      cases honce
    · intro g hg hdetach
      obtain ⟨tid, t, ⟨s, hs, hplace, rfl⟩, ht, hrun⟩ := arrives_closing_running hm hg hdetach
      have hquiet := (hall s hs).quiet (.inl hplace) i t ht
      rw [hrun] at hquiet
      cases hquiet
  · intro hmods s hs
    exact shutsDown_of_joinable hmods hs

/-- The program as it is: all four threads are created, three detach themselves, and
`receive_get` leaves its loop. -/
def shippedRun : List MainLabel :=
  List.flatten
    [[.setup true true], List.replicate 5 .init, List.replicate 5 (.create true),
      [.thread 1 0, .thread 2 0, .thread 3 0, .thread 3 0, .thread 3 0, .thread 0 0,
        .thread 0 1],
      List.replicate 5 .join, [.final]]

/-- `main` closes the queue while three threads run, and it returns with no `final`
called. -/
theorem not_shutsDown_shipped :
    ¬ (∀ s, (program shippedModules).Reachable s → ShutsDown shippedModules s) ∧
      ∃ s, (program shippedModules).Reachable s ∧ s.place = .returned 0 ∧ s.finals = [] := by
  constructor
  · intro hall
    obtain ⟨s, hs, hend⟩ := exists_reachable (program shippedModules) shippedRun
      (fun s => decide (s.place = .closing) && (s.tid 1).any Thread.running)
      (by decide +kernel)
    rw [Bool.and_eq_true, decide_eq_true_iff] at hend
    obtain ⟨t, ht, hrun⟩ := (Option.any_eq_true _ _).mp hend.2
    have hquiet := (hall s hs).quiet (.inl hend.1) 1 t ht
    rw [hrun] at hquiet
    cases hquiet
  · obtain ⟨s, hs, hend⟩ := exists_reachable (program shippedModules)
      (shippedRun ++ [.msgQueueFinal, .free]) (fun s => decide (s.place = .returned 0))
      (by decide +kernel)
    exact ⟨s, hs, of_decide_eq_true hend, finals_eq_nil hs⟩

end HomeControl
