import HomeControl.Pipeline
import Mathlib.Data.Fintype.EquivFin

/-!
# The descriptors of the network thread

`net_init` makes the listening socket: once for `tcpsocket_init`, and once more in
`tcpsocket_get` when the first attempt has failed.  Then `tcpsocket_get` accepts one client
after the other.

Nothing on these paths closes a descriptor: `net_init` returns -1 with its socket open when
`bind` or `listen` fails, the end of a session leads back to `accept` with the client open,
and a failed `setsockopt` ends the thread with the client open.  Only `tcpsocket_final`
closes one, the listening socket.

* `network` is the step system of the two functions.  The environment decides what each call
  returns.
* `leaksNothing_iff`: along a run no descriptor is leaked exactly when no `bind`, `listen` and
  `setsockopt` fails and no session ends.
* `opens_of_run`: after any run each client that was accepted is still open.
* `network_of_pipeline`: the thread of the whole program does nothing else.
-/

namespace HomeControl

open SharedMemory StepSystem

/-! ## The thread -/

/-- The options of a client, in the order of the four calls of `setsockopt`. -/
inductive SockOption where
  | keepAlive
  | keepIdle
  | keepCnt
  | keepIntvl
  deriving DecidableEq, Repr

def SockOption.next : SockOption → Option SockOption
  | .keepAlive => some .keepIdle
  | .keepIdle => some .keepCnt
  | .keepCnt => some .keepIntvl
  | .keepIntvl => none

/-- The places.  The first five are in `net_init`, called by `main` or, with `retry`, by
`tcpsocket_get`; `returned` is its return. -/
inductive NetPlace where
  | socket (retry : Bool)
  | bind (retry : Bool) (fd : Nat)
  | listen (retry : Bool) (fd : Nat)
  | returned (retry : Bool) (ret : Option Nat)
  | detached
  | testQueue
  | accepting
  | setsockopt (option : SockOption) (fd : Nat)
  | receiving (fd : Nat)
  | exited
  deriving DecidableEq, Repr

/-- The thread.  `socketFd` is `none` for -1.  `listeners` are the descriptors that `socket`
returned and `clients` those of `accept`, as long as they are open. -/
structure Network where
  place : NetPlace
  socketFd : Option Nat
  listeners : List Nat
  clients : List Nat
  tcp : TcpsocketGet

/-- The steps, with what the calls return. -/
inductive NetLabel where
  | socket (fd : Option Nat)
  | bind (success : Bool)
  | listen (success : Bool)
  | returned
  | testSocket
  | testQueue (ready : Bool)
  | accept (fd : Option Nat)
  | setsockopt (success : Bool)
  | recv (r : IoResult)
  | sent
  deriving DecidableEq

/-- `socket`.  The system does not return a descriptor that is open. -/
def Network.socket (s : Network) (fd : Option Nat) : Option Network :=
  match s.place with
  | .socket retry =>
    match fd with
    | none => some { s with place := .returned retry none }
    | some fd =>
      if fd ∈ s.listeners ++ s.clients then none
      else some { s with place := .bind retry fd, listeners := fd :: s.listeners }
  | _ => none

def Network.bind (s : Network) (success : Bool) : Option Network :=
  match s.place with
  | .bind retry fd =>
    if success then some { s with place := .listen retry fd }
    else some { s with place := .returned retry none }
  | _ => none

def Network.listen (s : Network) (success : Bool) : Option Network :=
  match s.place with
  | .listen retry fd =>
    if success then some { s with place := .returned retry (some fd) }
    else some { s with place := .returned retry none }
  | _ => none

/-- The assignment of `socket_fd`; after a second failure the thread ends. -/
def Network.returned (s : Network) : Option Network :=
  match s.place with
  | .returned false ret => some { s with place := .detached, socketFd := ret }
  | .returned true ret =>
    some { s with place := if ret = none then .exited else .testQueue, socketFd := ret }
  | _ => none

/-- The test of `socket_fd` at the start of `tcpsocket_get`. -/
def Network.testSocket (s : Network) : Option Network :=
  if s.place = .detached then
    some { s with place := if s.socketFd = none then .socket true else .testQueue }
  else none

/-- The tests of the argument and of the queue. -/
def Network.testQueue (s : Network) (ready : Bool) : Option Network :=
  if s.place = .testQueue then
    some { s with place := if ready then .accepting else .exited }
  else none

def Network.accept (s : Network) (fd : Option Nat) : Option Network :=
  if s.place = .accepting then
    match fd with
    | none => some { s with tcp := s.tcp.accept false false }
    | some fd =>
      if fd ∈ s.listeners ++ s.clients then none
      else some { s with place := .setsockopt .keepAlive fd, clients := fd :: s.clients }
  else none

def Network.setsockopt (s : Network) (success : Bool) : Option Network :=
  match s.place with
  | .setsockopt option fd =>
    if success then
      match option.next with
      | some option' => some { s with place := .setsockopt option' fd }
      | none => some { s with place := .receiving fd, tcp := s.tcp.accept true true }
    else some { s with place := .exited, tcp := s.tcp.accept true false }
  | _ => none

def Network.recv (s : Network) (r : IoResult) : Option Network :=
  match s.place with
  | .receiving fd =>
    if s.tcp.sending = none ∧ r.stored.length ≤ SIZE then
      some { s with
        place := if r.ret > 0 then .receiving fd else .accepting
        tcp := s.tcp.recv r }
    else none
  | _ => none

def Network.step (s : Network) : NetLabel → Option Network
  | .socket fd => s.socket fd
  | .bind success => s.bind success
  | .listen success => s.listen success
  | .returned => s.returned
  | .testSocket => s.testSocket
  | .testQueue ready => s.testQueue ready
  | .accept fd => s.accept fd
  | .setsockopt success => s.setsockopt success
  | .recv r => s.recv r
  | .sent => if s.tcp.sending = none then none else some { s with tcp := s.tcp.returned }

/-- The call of `tcpsocket_init` in `main`, and then the thread. -/
def network : StepSystem Network NetLabel where
  start :=
    { place := .socket false, socketFd := none, listeners := [], clients := [], tcp := .start }
  step := Network.step

/-- `tcpsocket_final`: `close(socket_fd)`, and `socket_fd = -1`. -/
def Network.final (s : Network) : Network :=
  { s with socketFd := none, listeners := s.listeners.filter fun fd => s.socketFd ≠ some fd }

/-- Whenever `accept` is about to be called, the listening socket is the only descriptor;
`net_init` returns -1 with none, and the thread ends without a client. -/
structure Network.NoLeak (s : Network) : Prop where
  accepting : s.place = .accepting →
    ∃ fd, s.socketFd = some fd ∧ s.listeners = [fd] ∧ s.clients = []
  failed : ∀ retry, s.place = .returned retry none → s.listeners = [] ∧ s.clients = []
  exited : s.place = .exited → s.clients = []

/-- Every state along a run is without a leak. -/
def LeaksNothing (ls : List NetLabel) : Prop :=
  ∀ pre post s, ls = pre ++ post → network.run network.start pre = some s → s.NoLeak

/-- A call of `bind`, `listen` or `setsockopt` succeeds, and a call of `recv` returns
bytes. -/
def NetLabel.Harmless : NetLabel → Prop
  | .bind success => success = true
  | .listen success => success = true
  | .setsockopt success => success = true
  | .recv r => r.ret > 0
  | _ => True

instance (ℓ : NetLabel) : Decidable ℓ.Harmless :=
  match ℓ with
  | .bind success => inferInstanceAs (Decidable (success = true))
  | .listen success => inferInstanceAs (Decidable (success = true))
  | .setsockopt success => inferInstanceAs (Decidable (success = true))
  | .recv r => inferInstanceAs (Decidable (r.ret > 0))
  | .socket _ | .returned | .testSocket | .testQueue _ | .accept _ | .sent =>
    inferInstanceAs (Decidable True)

variable {s t : Network}

/-! ## One step -/

/-- What a step does, by the outcome of its call. -/
inductive Network.Takes (s : Network) : NetLabel → Network → Prop
  | noSocket {retry : Bool} (hplace : s.place = .socket retry) :
    Takes s (.socket none) { s with place := .returned retry none }
  | socket {retry : Bool} {fd : Nat} (hplace : s.place = .socket retry) :
    Takes s (.socket (some fd)) { s with place := .bind retry fd, listeners := fd :: s.listeners }
  | bind {retry : Bool} {fd : Nat} (hplace : s.place = .bind retry fd) :
    Takes s (.bind true) { s with place := .listen retry fd }
  | bindFails {retry : Bool} {fd : Nat} (hplace : s.place = .bind retry fd) :
    Takes s (.bind false) { s with place := .returned retry none }
  | listen {retry : Bool} {fd : Nat} (hplace : s.place = .listen retry fd) :
    Takes s (.listen true) { s with place := .returned retry (some fd) }
  | listenFails {retry : Bool} {fd : Nat} (hplace : s.place = .listen retry fd) :
    Takes s (.listen false) { s with place := .returned retry none }
  | returned {ret : Option Nat} (hplace : s.place = .returned false ret) :
    Takes s .returned { s with place := .detached, socketFd := ret }
  | retried {ret : Option Nat} (hplace : s.place = .returned true ret) :
    Takes s .returned
      { s with place := if ret = none then .exited else .testQueue, socketFd := ret }
  | testSocket (hplace : s.place = .detached) :
    Takes s .testSocket { s with place := if s.socketFd = none then .socket true else .testQueue }
  | testQueue {ready : Bool} (hplace : s.place = .testQueue) :
    Takes s (.testQueue ready) { s with place := if ready then .accepting else .exited }
  | acceptFails (hplace : s.place = .accepting) : Takes s (.accept none) s
  | accept {fd : Nat} (hplace : s.place = .accepting) :
    Takes s (.accept (some fd))
      { s with place := .setsockopt .keepAlive fd, clients := fd :: s.clients }
  | option {option option' : SockOption} {fd : Nat} (hplace : s.place = .setsockopt option fd)
      (hnext : option.next = some option') :
    Takes s (.setsockopt true) { s with place := .setsockopt option' fd }
  | lastOption {option : SockOption} {fd : Nat} (hplace : s.place = .setsockopt option fd)
      (hnext : option.next = none) :
    Takes s (.setsockopt true) { s with place := .receiving fd, tcp := s.tcp.accept true true }
  | optionFails {option : SockOption} {fd : Nat} (hplace : s.place = .setsockopt option fd) :
    Takes s (.setsockopt false) { s with place := .exited, tcp := s.tcp.accept true false }
  | recv {fd : Nat} {r : IoResult} (hplace : s.place = .receiving fd) (hret : r.ret > 0) :
    Takes s (.recv r) { s with place := .receiving fd, tcp := s.tcp.recv r }
  | recvEnds {fd : Nat} {r : IoResult} (hplace : s.place = .receiving fd) (hret : ¬ r.ret > 0) :
    Takes s (.recv r) { s with place := .accepting, tcp := s.tcp.recv r }
  | sent : Takes s .sent { s with tcp := s.tcp.returned }

theorem Network.takes_socket {fd : Option Nat} (ht : s.socket fd = some t) :
    s.Takes (.socket fd) t := by
  unfold Network.socket at ht
  split at ht
  · rename_i retry hplace
    split at ht
    · cases ht
      exact .noSocket hplace
    · split at ht
      · cases ht
      · cases ht
        exact .socket hplace
  · cases ht

theorem Network.takes_bind {success : Bool} (ht : s.bind success = some t) :
    s.Takes (.bind success) t := by
  unfold Network.bind at ht
  split at ht
  · rename_i retry fd hplace
    cases success with
    | true =>
      cases ht
      exact .bind hplace
    | false =>
      cases ht
      exact .bindFails hplace
  · cases ht

theorem Network.takes_listen {success : Bool} (ht : s.listen success = some t) :
    s.Takes (.listen success) t := by
  unfold Network.listen at ht
  split at ht
  · rename_i retry fd hplace
    cases success with
    | true =>
      cases ht
      exact .listen hplace
    | false =>
      cases ht
      exact .listenFails hplace
  · cases ht

theorem Network.takes_returned (ht : s.returned = some t) : s.Takes .returned t := by
  unfold Network.returned at ht
  split at ht
  · rename_i ret hplace
    cases ht
    exact .returned hplace
  · rename_i ret hplace
    cases ht
    exact .retried hplace
  · cases ht

theorem Network.takes_accept {fd : Option Nat} (ht : s.accept fd = some t) :
    s.Takes (.accept fd) t := by
  unfold Network.accept at ht
  split at ht
  · rename_i hplace
    split at ht
    · cases ht
      exact .acceptFails hplace
    · split at ht
      · cases ht
      · cases ht
        exact .accept hplace
  · cases ht

theorem Network.takes_setsockopt {success : Bool} (ht : s.setsockopt success = some t) :
    s.Takes (.setsockopt success) t := by
  unfold Network.setsockopt at ht
  split at ht
  · rename_i option fd hplace
    cases success with
    | true =>
      rw [if_pos rfl] at ht
      split at ht
      · rename_i option' hnext
        cases ht
        exact .option hplace hnext
      · rename_i hnext
        cases ht
        exact .lastOption hplace hnext
    | false =>
      cases ht
      exact .optionFails hplace
  · cases ht

theorem Network.takes_recv {r : IoResult} (ht : s.recv r = some t) : s.Takes (.recv r) t := by
  unfold Network.recv at ht
  split at ht
  · rename_i fd hplace
    split at ht
    · by_cases hret : r.ret > 0
      · rw [if_pos hret] at ht
        cases ht
        exact .recv hplace hret
      · rw [if_neg hret] at ht
        cases ht
        exact .recvEnds hplace hret
    · cases ht
  · cases ht

/-- The step function does what `Takes` says, and nothing else. -/
theorem Network.takes_of_step {ℓ : NetLabel} (ht : s.step ℓ = some t) : s.Takes ℓ t := by
  cases ℓ with
  | socket fd => exact Network.takes_socket ht
  | bind success => exact Network.takes_bind ht
  | listen success => exact Network.takes_listen ht
  | returned => exact Network.takes_returned ht
  | accept fd => exact Network.takes_accept ht
  | setsockopt success => exact Network.takes_setsockopt ht
  | recv r => exact Network.takes_recv ht
  | testSocket =>
    obtain ⟨hplace, heq⟩ := Option.ite_none_right_eq_some.mp ht
    cases heq
    exact .testSocket hplace
  | testQueue ready =>
    obtain ⟨hplace, heq⟩ := Option.ite_none_right_eq_some.mp ht
    cases heq
    exact .testQueue hplace
  | sent =>
    obtain ⟨-, heq⟩ := Option.ite_none_left_eq_some.mp ht
    cases heq
    exact .sent

/-! ## Runs without a failure -/

/-- What is open at a place, as long as nothing has failed. -/
def NetPlace.Holds : NetPlace → Option Nat → List Nat → List Nat → Prop
  | .socket _, socketFd, listeners, clients => socketFd = none ∧ listeners = [] ∧ clients = []
  | .bind _ fd, socketFd, listeners, clients => socketFd = none ∧ listeners = [fd] ∧ clients = []
  | .listen _ fd, socketFd, listeners, clients =>
    socketFd = none ∧ listeners = [fd] ∧ clients = []
  | .returned _ ret, _, listeners, clients => listeners = ret.toList ∧ clients = []
  | .detached, socketFd, listeners, clients => listeners = socketFd.toList ∧ clients = []
  | .testQueue, socketFd, listeners, clients =>
    ∃ fd, socketFd = some fd ∧ listeners = [fd] ∧ clients = []
  | .accepting, socketFd, listeners, clients =>
    ∃ fd, socketFd = some fd ∧ listeners = [fd] ∧ clients = []
  | .setsockopt _ client, _, _, clients => clients = [client]
  | .receiving client, _, _, clients => clients = [client]
  | .exited, _, _, clients => clients = []

def Network.Held (s : Network) : Prop := s.place.Holds s.socketFd s.listeners s.clients

theorem held_start : network.start.Held := ⟨rfl, rfl, rfl⟩

theorem Network.Held.at_place (h : s.Held) {place : NetPlace} (hplace : s.place = place) :
    place.Holds s.socketFd s.listeners s.clients := by
  rw [← hplace]
  exact h

theorem Network.Held.noLeak (h : s.Held) : s.NoLeak where
  accepting hplace := h.at_place hplace
  failed _ hplace := h.at_place hplace
  exited hplace := h.at_place hplace

theorem Network.Held.testSocket (h : s.Held) (hplace : s.place = .detached) :
    Network.Held { s with place := if s.socketFd = none then .socket true else .testQueue } := by
  obtain ⟨hlisteners, hclients⟩ := h.at_place hplace
  cases hfd : s.socketFd with
  | none =>
    rw [hfd] at hlisteners
    exact ⟨rfl, hlisteners, hclients⟩
  | some fd =>
    rw [hfd] at hlisteners
    exact ⟨fd, rfl, hlisteners, hclients⟩

/-- A harmless step keeps what is open in order. -/
theorem Network.Held.step (h : s.Held) {ℓ : NetLabel} (hℓ : ℓ.Harmless) (ht : s.Takes ℓ t) :
    t.Held := by
  cases ht with
  | noSocket hplace => exact (h.at_place hplace).2
  | socket hplace =>
    obtain ⟨hfd, hlisteners, hclients⟩ := h.at_place hplace
    exact ⟨hfd, congrArg _ hlisteners, hclients⟩
  | bind hplace =>
    have hheld := h.at_place hplace
    exact hheld
  | bindFails hplace => cases hℓ
  | listen hplace => exact (h.at_place hplace).2
  | listenFails hplace => cases hℓ
  | returned hplace => exact h.at_place hplace
  | @retried ret hplace =>
    obtain ⟨hlisteners, hclients⟩ := h.at_place hplace
    cases ret with
    | none => exact hclients
    | some fd => exact ⟨fd, rfl, hlisteners, hclients⟩
  | testSocket hplace => exact h.testSocket hplace
  | @testQueue ready hplace =>
    obtain ⟨fd, hfd, hlisteners, hclients⟩ := h.at_place hplace
    cases ready with
    | true => exact ⟨fd, hfd, hlisteners, hclients⟩
    | false => exact hclients
  | acceptFails hplace => exact h
  | accept hplace =>
    obtain ⟨-, -, -, hclients⟩ := h.at_place hplace
    exact congrArg _ hclients
  | option hplace =>
    have hheld := h.at_place hplace
    exact hheld
  | lastOption hplace =>
    have hheld := h.at_place hplace
    exact hheld
  | optionFails hplace => cases hℓ
  | recv hplace => exact h.at_place hplace
  | recvEnds hplace hret => exact absurd hℓ hret
  | sent => exact h

/-- `net_init` has failed with its socket open. -/
theorem not_noLeak_of_failed {retry : Bool} {fd : Nat} (hplace : s.place = .returned retry none)
    (hlisteners : s.listeners = [fd]) : ¬ s.NoLeak := by
  intro h
  rw [(h.failed retry hplace).1] at hlisteners
  cases hlisteners

/-- Every other step leaks: the socket of `net_init`, or the client that was accepted. -/
theorem Network.Held.leaks (h : s.Held) {ℓ : NetLabel} (hℓ : ¬ ℓ.Harmless) (ht : s.Takes ℓ t) :
    ¬ t.NoLeak := by
  cases ht with
  | bindFails hplace => exact not_noLeak_of_failed rfl (h.at_place hplace).2.1
  | listenFails hplace => exact not_noLeak_of_failed rfl (h.at_place hplace).2.1
  | @optionFails option client hplace =>
    intro hnone
    have hclients : s.clients = [client] := h.at_place hplace
    rw [show s.clients = [] from hnone.exited rfl] at hclients
    cases hclients
  | @recvEnds client r hplace hret =>
    intro hnone
    have hclients : s.clients = [client] := h.at_place hplace
    obtain ⟨-, -, -, hempty⟩ := hnone.accepting rfl
    rw [show s.clients = [] from hempty] at hclients
    cases hclients
  | bind hplace => exact absurd rfl hℓ
  | listen hplace => exact absurd rfl hℓ
  | option hplace => exact absurd rfl hℓ
  | lastOption hplace => exact absurd rfl hℓ
  | recv hplace hret => exact absurd hret hℓ
  | _ => exact absurd trivial hℓ

/-- For every run: no state along it has a leak exactly when no `bind`, `listen` or
`setsockopt` fails in it and no `recv` returns 0 or less. -/
theorem leaksNothing_iff (ls : List NetLabel) (s : Network)
    (hrun : network.run network.start ls = some s) :
    LeaksNothing ls ↔ ∀ ℓ ∈ ls, ℓ.Harmless :=
  along_iff network NetLabel.Harmless Network.NoLeak Network.Held (fun _ h => h.noLeak)
    (fun _ _ _ h hgood ht => h.step hgood (Network.takes_of_step ht))
    (fun _ _ _ h hbad ht => h.leaks hbad (Network.takes_of_step ht))
    held_start hrun

/-- A client that is connected and has sent a command. -/
def connectedSession : List NetLabel :=
  [.socket (some 3), .bind true, .listen true, .returned, .testSocket, .testQueue true,
    .accept (some 4), .setsockopt true, .setsockopt true, .setsockopt true, .setsockopt true,
    .recv (some [0xAA, 0x55, 0x41, 0x00, 0x55, 0xAA]), .sent]

theorem leaksNothing_connectedSession : LeaksNothing connectedSession :=
  (leaksNothing_iff connectedSession _ rfl).mpr (by decide)

/-- The client leaves, and `accept` is called with its descriptor open. -/
theorem not_leaksNothing_endedSession :
    ¬ ∀ ls s, network.run network.start ls = some s → LeaksNothing ls := by
  intro hall
  have hend := hall (connectedSession ++ [.recv (some [])]) _ rfl _ [] _
    (List.append_nil _).symm rfl
  obtain ⟨fd, -, -, hclients⟩ := hend.accepting rfl
  cases hclients

/-! ## What stays open -/

/-- The descriptor that a step makes in `net_init`. -/
def NetLabel.listener? : NetLabel → Option Nat
  | .socket fd => fd
  | _ => none

/-- The descriptor of a client that a step accepts. -/
def NetLabel.client? : NetLabel → Option Nat
  | .accept fd => fd
  | _ => none

/-- A step opens what its call returns, and closes nothing. -/
theorem Network.Takes.opens {ℓ : NetLabel} (ht : s.Takes ℓ t) :
    t.listeners = ℓ.listener?.toList ++ s.listeners ∧
      t.clients = ℓ.client?.toList ++ s.clients := by
  cases ht with
  | _ => exact ⟨rfl, rfl⟩

/-- After every run each client that was accepted is open, and each socket of
`net_init`. -/
theorem opens_of_run {ls : List NetLabel} {s t : Network} (hrun : network.run s ls = some t) :
    t.listeners = (ls.filterMap NetLabel.listener?).reverse ++ s.listeners ∧
      t.clients = (ls.filterMap NetLabel.client?).reverse ++ s.clients := by
  induction ls generalizing s with
  | nil =>
    obtain rfl := Option.some.inj hrun
    exact ⟨rfl, rfl⟩
  | cons ℓ ls ih =>
    obtain ⟨u, hu, hrest⟩ := Option.bind_eq_some_iff.mp hrun
    obtain ⟨hlisteners, hclients⟩ := (Network.takes_of_step hu).opens
    obtain ⟨hlisteners', hclients'⟩ := ih hrest
    rw [hlisteners', hclients', hlisteners, hclients, List.filterMap_cons, List.filterMap_cons]
    constructor
    · cases ℓ.listener? with
      | none => rfl
      | some fd => simp
    · cases ℓ.client? with
      | none => rfl
      | some fd => simp

/-- `tcpsocket_final` closes what is left when nothing has leaked. -/
theorem Network.NoLeak.final (h : s.NoLeak) (hplace : s.place = .accepting) :
    s.final.socketFd = none ∧ s.final.listeners = [] ∧ s.final.clients = [] := by
  obtain ⟨fd, hfd, hlisteners, hclients⟩ := h.accepting hplace
  refine ⟨rfl, ?_, hclients⟩
  simp [Network.final, hfd, hlisteners]

/-! ## The thread of the whole program -/

/-- The thread is where the program has it. -/
structure Network.Follows (n : Network) (s : Pipeline) : Prop where
  tcp : n.tcp = s.tcp
  accepting : s.tcp.place = .accepting → n.place = .accepting
  connected : s.tcp.place = .connected → ∃ fd, n.place = .receiving fd

/-- Some descriptor is free. -/
theorem exists_fresh (fds : List Nat) : ∃ fd, fd ∉ fds := by
  obtain ⟨fd, hfd⟩ := Infinite.exists_notMem_finset fds.toFinset
  exact ⟨fd, fun hmem => hfd (List.mem_toFinset.mpr hmem)⟩

/-- The calls of `accept` and `setsockopt` for one client. -/
theorem network_accepts {n : Network} (hn : network.Reachable n) (hplace : n.place = .accepting)
    (optionsSet : Bool) :
    ∃ n' fd, network.Reachable n' ∧ n'.tcp = n.tcp.accept true optionsSet ∧
      n'.place = if optionsSet then .receiving fd else .exited := by
  obtain ⟨fd, hfresh⟩ := exists_fresh (n.listeners ++ n.clients)
  let accepted : Network :=
    { n with place := .setsockopt .keepAlive fd, clients := fd :: n.clients }
  have haccept : network.step n (.accept (some fd)) = some accepted := by
    show n.accept (some fd) = _
    unfold Network.accept
    rw [if_pos hplace]
    exact if_neg hfresh
  have haccepted : network.Reachable accepted := .step hn trivial haccept
  cases optionsSet with
  | true =>
    have hset : network.run accepted (List.replicate 4 (.setsockopt true)) = some _ := rfl
    exact ⟨_, fd, haccepted.run hset, rfl, rfl⟩
  | false =>
    have hset : network.run accepted [.setsockopt false] = some _ := rfl
    exact ⟨_, fd, haccepted.run hset, rfl, rfl⟩

theorem Network.Follows.send {n : Network} {s u : Pipeline} (h : n.Follows s) {m : Msg}
    {success : Bool} (hu : s.send m success = some u) : n.Follows u := by
  rcases Pipeline.send_cases hu with ⟨-, q, -, rfl⟩ | ⟨-, rfl⟩
  · exact ⟨h.tcp, h.accepting, h.connected⟩
  · exact h

theorem Network.Follows.tcpAccept {n : Network} {s : Pipeline} (h : n.Follows s)
    (hn : network.Reachable n) (hplace : s.tcp.place = .accepting) (accepted optionsSet : Bool) :
    ∃ n', network.Reachable n' ∧
      n'.Follows { s with tcp := s.tcp.accept accepted optionsSet } := by
  cases accepted with
  | false => exact ⟨n, hn, h⟩
  | true =>
    obtain ⟨n', fd, hn', htcp, hplace'⟩ := network_accepts hn (h.accepting hplace) optionsSet
    rw [h.tcp] at htcp
    refine ⟨n', hn', htcp, ?_, ?_⟩
    · cases optionsSet with
      | true => exact fun hacc => by cases hacc
      | false => exact fun hacc => by cases hacc
    · cases optionsSet with
      | true => exact fun _ => ⟨fd, hplace'⟩
      | false => exact fun hconn => by cases hconn

theorem Network.Follows.tcpRecv {n : Network} {s : Pipeline} (h : n.Follows s)
    (hn : network.Reachable n) {r : IoResult} (hplace : s.tcp.place = .connected)
    (hidle : s.tcp.sending = none) (hlen : r.stored.length ≤ SIZE) :
    ∃ n', network.Reachable n' ∧ n'.Follows { s with
      tcp := s.tcp.recv r
      tcpReads := s.tcpReads ++ [r]
      tcpCalls := s.tcpCalls ++ (s.tcp.recv r).sending.toList } := by
  obtain ⟨fd, hfd⟩ := h.connected hplace
  have hrecv : network.step n (.recv r) = some { n with
      place := if r.ret > 0 then .receiving fd else .accepting
      tcp := n.tcp.recv r } := by
    show n.recv r = _
    unfold Network.recv
    rw [hfd]
    exact if_pos ⟨by rw [h.tcp]; exact hidle, hlen⟩
  have hconnected := TcpsocketGet.place_recv hplace r
  refine ⟨_, .step hn trivial hrecv, congrArg (fun tcp => tcp.recv r) h.tcp, fun hacc => ?_,
    fun hconn => ?_⟩
  · have hret : ¬ r.ret > 0 := by
      rw [← hconnected]
      intro hconn
      rw [show (s.tcp.recv r).place = .accepting from hacc] at hconn
      cases hconn
    exact if_neg hret
  · exact ⟨fd, if_pos (hconnected.mp hconn)⟩

/-- Every state of the whole program has its network thread in a state of `network`. -/
theorem network_of_pipeline {s : Pipeline} (hs : pipeline.Reachable s) :
    ∃ n, network.Reachable n ∧ n.Follows s := by
  refine hs.invariant (fun s => ∃ n, network.Reachable n ∧ n.Follows s) ?_ ?_
  · have hrun : network.run network.start
        [.socket (some 0), .bind true, .listen true, .returned, .testSocket, .testQueue true] =
          some _ := rfl
    exact ⟨_, reachable_of_run hrun, rfl, fun _ => rfl, fun h => by cases h⟩
  · rintro s ℓ s' ⟨n, hn, h⟩ - hstep
    cases Pipeline.takes_of_step hstep with
    | @tcpAccept accepted optionsSet hplace => exact h.tcpAccept hn hplace accepted optionsSet
    | tcpRecv hplace hidle hlen => exact h.tcpRecv hn hplace hidle hlen
    | @tcpSend m success u hm hu =>
      have hsending : n.tcp.sending ≠ none := by
        rw [h.tcp, hm]
        exact Option.some_ne_none m
      have hsent := h.send hu
      refine ⟨_, .step (l := .sent) hn trivial (if_neg hsending), ?_, hsent.accepting,
        hsent.connected⟩
      exact congrArg TcpsocketGet.returned hsent.tcp
    | voiceSend hm hu =>
      have hsent := h.send hu
      exact ⟨n, hn, hsent.tcp, hsent.accepting, hsent.connected⟩
    | smokeSend hm hu =>
      have hsent := h.send hu
      exact ⟨n, hn, hsent.tcp, hsent.accepting, hsent.connected⟩
    | _ => exact ⟨n, hn, h.tcp, h.accepting, h.connected⟩

end HomeControl
