import HomeControl.Descriptors
import HomeControl.World

/-!
# The serial line

`serial_fd` is a global variable of the voice module.  `main` opens the line once; `voice_get`
and every `voice_set` thread test the variable, and when it is -1 they open the line again,
without a lock.  `SerialLine` is the step system of these threads, one access to the variable
at a time.

* `line_shared` says that in the runs in which no thread finds -1 while another opens the line,
  one descriptor is opened at most, and every read and write uses it.
* `line_kept` says that when `main` has opened the line, every thread of every run uses the
  descriptor of `main`.
* `line_raced` says what the others can come to: from any state in which two threads are about
  to open the line, a second descriptor can be opened, and an announcement can be written to -1
  although the line is open.
* `refines_voiceSet` connects the places to those that the handlers' model has for a voice
  thread.
-/

namespace HomeControl

open SharedMemory StepSystem

/-! ## `uart_Open` -/

def BAUD : Int := 115200

/-- `uart_Open`, where `fd` is what `open` comes to. -/
def uartOpen (baud : Int) (fd : Option Nat) : Int :=
  if baud = 9600 ∨ baud = 115200 then
    match fd with
    | some n => n
    | none => -1
  else -2

theorem uartOpen_some (n : Nat) : uartOpen BAUD (some n) = n := rfl

theorem uartOpen_none : uartOpen BAUD none = -1 := rfl

/-! ## The threads -/

/-- The places of `voice_get` and `voice_set` between two accesses to `serial_fd`.  From
`opening` to `assigning` the thread is in `serial_fd = voice_init()`, which stores the
descriptor, reads it again for its result, and stores that. -/
inductive SerialPlace where
  | test
  | opening
  | storing (v : Int)
  | returning
  | assigning (v : Int)
  | retest
  | ready
  | exited
  deriving DecidableEq, Repr

/-- A thread; `loops` is true for `voice_get`, which reads the line again and again, and false
for `voice_set`, which writes to it once. -/
structure SerialThread where
  loops : Bool
  place : SerialPlace := .test
  deriving DecidableEq, Repr

/-- The variable and the threads.  The two lists are records, the newest entry first: the
descriptors that `open` returned, and the arguments of `uart_Getstr` and `uart_Puts`. -/
structure SerialLine where
  serialFd : Int
  threads : List SerialThread := []
  opened : List Nat := []
  used : List Int := []

inductive SerialLabel where
  | create (loops : Bool)
  | access (i : Nat) (fd : Option Nat)
  deriving DecidableEq, Repr

/-- The thread `t`, at index `i`, goes on to a place. -/
def SerialLine.goto (s : SerialLine) (i : Nat) (t : SerialThread) (place : SerialPlace) :
    SerialLine :=
  { s with threads := s.threads.set i { t with place := place } }

/-- The next access of the thread `t`, at index `i`.  The line is never closed, so that `open`
returns a new descriptor or fails. -/
def SerialLine.access (s : SerialLine) (i : Nat) (t : SerialThread) (fd : Option Nat) :
    Option SerialLine :=
  match t.place with
  | .test => some (s.goto i t (if s.serialFd = -1 then .opening else .ready))
  | .opening =>
    if fd.all (· ∉ s.opened) then
      some { s.goto i t (.storing (uartOpen BAUD fd)) with opened := fd.toList ++ s.opened }
    else none
  | .storing v => some { s.goto i t .returning with serialFd := v }
  | .returning => some (s.goto i t (.assigning s.serialFd))
  | .assigning v => some { s.goto i t .retest with serialFd := v }
  | .retest => some (s.goto i t (if s.serialFd = -1 then .exited else .ready))
  | .ready =>
    some { s.goto i t (if t.loops then .ready else .exited) with used := s.serialFd :: s.used }
  | .exited => none

def SerialLine.step (s : SerialLine) : SerialLabel → Option SerialLine
  | .create loops => some { s with threads := s.threads ++ [{ loops := loops }] }
  | .access i fd => s.threads[i]?.bind fun t => s.access i t fd

/-- The threads after `main` has called `voice_init`; `first` is what its `open` came to. -/
def serialLine (first : Option Nat) : StepSystem SerialLine SerialLabel where
  start := { serialFd := uartOpen BAUD first, opened := first.toList }
  step := SerialLine.step

/-! ## Who is opening the line -/

/-- The thread is in `voice_init`, or about to store its result. -/
def SerialPlace.initialising : SerialPlace → Bool
  | .opening | .storing _ | .returning | .assigning _ => true
  | _ => false

/-- A thread finds -1 only while no other is opening the line. -/
def Exclusive (s : SerialLine) : SerialLabel → Prop
  | .create _ => True
  | .access i _ => ∀ t, s.threads[i]? = some t → t.place = .test → s.serialFd = -1 →
    ∀ u ∈ s.threads, u.place.initialising = false

instance (s : SerialLine) (ℓ : SerialLabel) : Decidable (Exclusive s ℓ) :=
  match ℓ with
  | .create _ => isTrue trivial
  | .access i _ => inferInstanceAs (Decidable (∀ t ∈ s.threads[i]?, t.place = .test →
      s.serialFd = -1 → ∀ u ∈ s.threads, u.place.initialising = false))

/-- What `serial_fd` is to be, by what was opened. -/
def SerialLine.line (s : SerialLine) : Int :=
  match s.opened with
  | [] => -1
  | n :: _ => n

/-- What the place of a thread says. -/
def SerialThread.Settled (s : SerialLine) (t : SerialThread) : Prop :=
  match t.place with
  | .opening => s.opened = []
  | .storing v => s.serialFd = -1 ∧ v = s.line
  | .assigning v => v = s.serialFd
  | .ready => s.serialFd ≠ -1
  | _ => True

/-- One thread at most is opening the line, and unless it has yet to store the descriptor,
`serial_fd` is the one that was opened. -/
structure SerialLine.Settled (s : SerialLine) : Prop where
  sole : ∀ (i j : Nat) (t u : SerialThread), s.threads[i]? = some t → s.threads[j]? = some u →
    t.place.initialising = true → u.place.initialising = true → i = j
  threads : ∀ (i : Nat) (t : SerialThread), s.threads[i]? = some t → t.Settled s
  short : s.opened.length ≤ 1
  agrees : (∀ t ∈ s.threads, ∀ v, t.place ≠ .storing v) → s.serialFd = s.line
  used : ∀ fd ∈ s.used, ∃ n : Nat, s.opened = [n] ∧ fd = n

variable {s s' : SerialLine} {i : Nat} {t : SerialThread} {fd : Option Nat}

theorem line_eq_neg_one (h : s.line = -1) : s.opened = [] := by
  unfold SerialLine.line at h
  split at h
  · assumption
  · omega

theorem SerialLine.settled_start (first : Option Nat) : (serialLine first).start.Settled where
  sole i j t u ht := by cases ht
  threads i t ht := by cases ht
  short := by cases first <;> simp [serialLine]
  agrees _ := by cases first <;> rfl
  used fd hfd := by cases hfd

/-! ## What a step keeps -/

theorem SerialLine.goto_cases (ht : s.threads[i]? = some t) {place : SerialPlace} {k : Nat}
    {u : SerialThread} (hu : (s.goto i t place).threads[k]? = some u) :
    (k = i ∧ u = { t with place := place }) ∨ (k ≠ i ∧ s.threads[k]? = some u) :=
  getElem?_set_cases ht hu

/-- The thread that is opening the line is the only one. -/
theorem SerialLine.Settled.others (h : s.Settled) (ht : s.threads[i]? = some t)
    (hinit : t.place.initialising = true) {k : Nat} {u : SerialThread} (hk : k ≠ i)
    (hu : s.threads[k]? = some u) : u.place.initialising = false := by
  by_contra hnot
  exact hk (h.sole k i u t hu ht (Bool.eq_true_of_not_eq_false hnot) hinit)

theorem SerialThread.settled_of_not_initialising (hinit : t.place.initialising = false)
    (hready : t.place = .ready → s.serialFd ≠ -1) : t.Settled s := by
  unfold SerialThread.Settled
  split
  all_goals first
    | exact hready ‹_›
    | exact trivial
    | rw [‹t.place = _›] at hinit; cases hinit

theorem SerialThread.settled_congr (hfd : s'.serialFd = s.serialFd) (hopened : s'.opened = s.opened)
    (ht : t.Settled s) : t.Settled s' := by
  unfold SerialThread.Settled SerialLine.line at ht ⊢
  rw [hfd, hopened]
  exact ht

/-- A thread goes on to a place, and to open the line only when no other does. -/
theorem SerialLine.Settled.goto (h : s.Settled) (ht : s.threads[i]? = some t) {place : SerialPlace}
    (hinit : place.initialising = true → t.place.initialising = true ∨
      ∀ u ∈ s.threads, u.place.initialising = false)
    (hthreads : s'.threads = (s.goto i t place).threads)
    (hself : SerialThread.Settled s' { t with place := place })
    (hothers : ∀ (k : Nat) (u : SerialThread), k ≠ i → s.threads[k]? = some u → u.Settled s')
    (hshort : s'.opened.length ≤ 1)
    (hagrees : (∀ u ∈ s'.threads, ∀ v, u.place ≠ .storing v) → s'.serialFd = s'.line)
    (hused : ∀ fd ∈ s'.used, ∃ n : Nat, s'.opened = [n] ∧ fd = n) : s'.Settled where
  sole j k u w hu hw huinit hwinit := by
    have halone : ∀ (l : Nat) (x : SerialThread), l ≠ i → s.threads[l]? = some x →
        x.place.initialising = true → place.initialising = true → False := by
      intro l x hl hx hxinit hplace
      rcases hinit hplace with htinit | hnone
      · rw [h.others ht htinit hl hx] at hxinit
        cases hxinit
      · rw [hnone x (List.mem_of_getElem? hx)] at hxinit
        cases hxinit
    rw [hthreads] at hu hw
    rcases SerialLine.goto_cases ht hu with ⟨rfl, rfl⟩ | ⟨hj, hold⟩
    · rcases SerialLine.goto_cases ht hw with ⟨rfl, -⟩ | ⟨hk, hold⟩
      · rfl
      · exact (halone k w hk hold hwinit huinit).elim
    · rcases SerialLine.goto_cases ht hw with ⟨rfl, rfl⟩ | ⟨-, hold'⟩
      · exact (halone j u hj hold huinit hwinit).elim
      · exact h.sole j k u w hold hold' huinit hwinit
  threads k u hu := by
    rw [hthreads] at hu
    rcases SerialLine.goto_cases ht hu with ⟨rfl, rfl⟩ | ⟨hk, hu⟩
    · exact hself
    · exact hothers k u hk hu
  short := hshort
  agrees := hagrees
  used := hused

/-- A step that stores nothing in `serial_fd` and opens nothing. -/
theorem SerialLine.Settled.move (h : s.Settled) (ht : s.threads[i]? = some t) {place : SerialPlace}
    (hinit : place.initialising = true → t.place.initialising = true ∨
      ∀ u ∈ s.threads, u.place.initialising = false)
    (hbefore : ∀ v, t.place ≠ .storing v)
    (hself : SerialThread.Settled s { t with place := place }) : (s.goto i t place).Settled := by
  refine h.goto ht hinit rfl (SerialThread.settled_congr rfl rfl hself)
    (fun k u _ hu => SerialThread.settled_congr rfl rfl (h.threads k u hu)) h.short ?_ h.used
  intro hnone
  refine h.agrees fun u hu v hv => ?_
  obtain ⟨k, hk⟩ := List.mem_iff_getElem?.mp hu
  by_cases hki : k = i
  · subst hki
    obtain rfl := Option.some.inj (hk.symm.trans ht)
    exact hbefore v hv
  · have hstays : (s.goto i t place).threads[k]? = some u :=
      (List.getElem?_set_ne (Ne.symm hki)).trans hk
    exact hnone u (List.mem_of_getElem? hstays) v hv

/-- One case for each place. -/
theorem SerialLine.Settled.access (h : s.Settled) (ht : s.threads[i]? = some t)
    (hok : t.place = .test → s.serialFd = -1 → ∀ u ∈ s.threads, u.place.initialising = false)
    (hs : s.access i t fd = some s') : s'.Settled := by
  have hself := h.threads i t ht
  have hothers : t.place.initialising = true → ∀ (r : SerialLine),
      (∀ u ∈ s.threads, u.place = .ready → r.serialFd ≠ -1) →
      ∀ (k : Nat) (u : SerialThread), k ≠ i → s.threads[k]? = some u → u.Settled r := by
    intro hinit r hready k u hk hu
    exact SerialThread.settled_of_not_initialising (h.others ht hinit hk hu)
      (hready u (List.mem_of_getElem? hu))
  have hquiet : s.serialFd = -1 → ∀ u ∈ s.threads, u.place ≠ .ready := by
    intro hfd u hu hplace
    obtain ⟨k, hk⟩ := List.mem_iff_getElem?.mp hu
    have hsettled := h.threads k u hk
    simp only [SerialThread.Settled, hplace] at hsettled
    exact hsettled hfd
  cases hplace : t.place with
  | test =>
    simp only [SerialLine.access, hplace] at hs
    obtain rfl := Option.some.inj hs
    by_cases hfd : s.serialFd = -1
    · have hnone := hok hplace hfd
      rw [if_pos hfd]
      refine h.move ht (fun _ => .inr hnone) (by simp [hplace]) (line_eq_neg_one ?_)
      rw [← h.agrees fun u hu v hv => ?_, hfd]
      have hfalse := hnone u hu
      rw [hv] at hfalse
      cases hfalse
    · rw [if_neg hfd]
      exact h.move ht (fun hinit => by cases hinit) (by simp [hplace]) hfd
  | opening =>
    simp only [SerialThread.Settled, hplace] at hself
    simp only [SerialLine.access, hplace] at hs
    obtain ⟨-, heq⟩ := Option.ite_none_right_eq_some.mp hs
    obtain rfl := Option.some.inj heq
    have hinit : t.place.initialising = true := by rw [hplace]; rfl
    have hfd : s.serialFd = -1 := by
      rw [h.agrees fun u hu v hv => ?_, SerialLine.line, hself]
      obtain ⟨k, hk⟩ := List.mem_iff_getElem?.mp hu
      by_cases hki : k = i
      · subst hki
        obtain rfl := Option.some.inj (hk.symm.trans ht)
        rw [hplace] at hv
        cases hv
      · have hfalse := h.others ht hinit hki hk
        rw [hv] at hfalse
        cases hfalse
    refine h.goto ht (fun _ => .inl hinit) rfl ⟨hfd, ?_⟩
      (hothers hinit _ fun u hu hready => absurd hready (hquiet hfd u hu)) ?_ ?_ ?_
    · cases fd with
      | none => simp [SerialLine.line, hself, uartOpen_none]
      | some n => simp [SerialLine.line, uartOpen_some]
    · rw [hself]
      cases fd with
      | none => exact Nat.zero_le 1
      | some n => exact Nat.le_refl 1
    · intro hnone
      have hat : (s.goto i t (.storing (uartOpen BAUD fd))).threads[i]? =
          some { t with place := .storing (uartOpen BAUD fd) } :=
        List.getElem?_set_self (List.getElem?_eq_some_iff.mp ht).1
      exact absurd rfl (hnone _ (List.mem_of_getElem? hat) _)
    · intro f hf
      obtain ⟨n, hopened, -⟩ := h.used f hf
      rw [hself] at hopened
      cases hopened
  | storing v =>
    simp only [SerialThread.Settled, hplace] at hself
    simp only [SerialLine.access, hplace] at hs
    obtain rfl := Option.some.inj hs
    have hinit : t.place.initialising = true := by rw [hplace]; rfl
    refine h.goto ht (fun _ => .inl hinit) rfl trivial (hothers hinit _ fun u hu hready => ?_)
      h.short (fun _ => hself.2) h.used
    exact absurd hready (hquiet hself.1 u hu)
  | returning =>
    simp only [SerialLine.access, hplace] at hs
    obtain rfl := Option.some.inj hs
    have hinit : t.place.initialising = true := by rw [hplace]; rfl
    exact h.move ht (fun _ => .inl hinit) (by simp [hplace]) rfl
  | assigning v =>
    simp only [SerialThread.Settled, hplace] at hself
    simp only [SerialLine.access, hplace] at hs
    obtain rfl := Option.some.inj hs
    have hmove : (s.goto i t .retest).Settled :=
      h.move ht (fun hinit => by cases hinit) (by simp [hplace]) trivial
    rw [hself]
    exact hmove
  | retest =>
    simp only [SerialLine.access, hplace] at hs
    obtain rfl := Option.some.inj hs
    by_cases hfd : s.serialFd = -1
    · rw [if_pos hfd]
      exact h.move ht (fun hinit => by cases hinit) (by simp [hplace]) trivial
    · rw [if_neg hfd]
      exact h.move ht (fun hinit => by cases hinit) (by simp [hplace]) hfd
  | ready =>
    simp only [SerialThread.Settled, hplace] at hself
    simp only [SerialLine.access, hplace] at hs
    obtain rfl := Option.some.inj hs
    have hmove : (s.goto i t (if t.loops then .ready else .exited)).Settled := by
      refine h.move ht (fun hinit => ?_) (by simp [hplace]) ?_
      · split at hinit <;> cases hinit
      · split
        · exact hself
        · exact trivial
    have hline : s.serialFd = s.line := by
      refine h.agrees fun u hu v hv => ?_
      obtain ⟨k, hk⟩ := List.mem_iff_getElem?.mp hu
      have hsettled := h.threads k u hk
      simp only [SerialThread.Settled, hv] at hsettled
      exact hself hsettled.1
    have hopened : ∃ n : Nat, s.opened = [n] ∧ s.serialFd = n := by
      have hshort := h.short
      unfold SerialLine.line at hline
      rcases hlist : s.opened with _ | ⟨n, rest⟩
      · rw [hlist] at hline
        exact absurd hline hself
      · rw [hlist] at hline hshort
        obtain rfl : rest = [] := List.length_eq_zero_iff.mp (by
          rw [List.length_cons] at hshort
          omega)
        exact ⟨n, rfl, hline⟩
    refine ⟨hmove.sole, fun k u hu => SerialThread.settled_congr rfl rfl (hmove.threads k u hu),
      hmove.short, hmove.agrees, fun f hf => ?_⟩
    rcases List.mem_cons.mp hf with rfl | hf
    · exact hopened
    · exact h.used f hf
  | exited =>
    simp only [SerialLine.access, hplace] at hs
    cases hs

theorem SerialLine.Settled.create (h : s.Settled) (loops : Bool) :
    SerialLine.Settled { s with threads := s.threads ++ [{ loops := loops }] } where
  sole j k u w hu hw huinit hwinit := by
    rcases getElem?_concat_cases hu with hu | ⟨-, rfl⟩
    · rcases getElem?_concat_cases hw with hw | ⟨-, rfl⟩
      · exact h.sole j k u w hu hw huinit hwinit
      · cases hwinit
    · cases huinit
  threads k u hu := by
    rcases getElem?_concat_cases hu with hu | ⟨-, rfl⟩
    · exact SerialThread.settled_congr rfl rfl (h.threads k u hu)
    · exact trivial
  short := h.short
  agrees hnone := h.agrees fun u hu => hnone u (List.mem_append_left _ hu)
  used := h.used

theorem settled_of_exclusive {first : Option Nat}
    (hs : (serialLine first).ReachableWhere Exclusive s) : s.Settled := by
  refine hs.invariant SerialLine.Settled (SerialLine.settled_start first) ?_
  intro s ℓ s' h hok hstep
  cases ℓ with
  | create loops =>
    obtain rfl := Option.some.inj hstep
    exact h.create loops
  | access i fd =>
    obtain ⟨t, ht, haccess⟩ := Option.bind_eq_some_iff.mp hstep
    exact h.access ht (hok t ht) haccess

/-- The line is open, and no thread has found it closed. -/
structure SerialLine.Kept (n : Nat) (s : SerialLine) : Prop where
  serialFd : s.serialFd = n
  opened : s.opened = [n]
  threads : ∀ t ∈ s.threads, t.place.initialising = false
  used : ∀ fd ∈ s.used, fd = n

theorem SerialLine.Kept.access {n : Nat} (h : s.Kept n) (ht : s.threads[i]? = some t)
    (hs : s.access i t fd = some s') : s'.Kept n := by
  have hopen : s.serialFd ≠ -1 := by
    rw [h.serialFd]
    omega
  have hinit := h.threads t (List.mem_of_getElem? ht)
  have hthreads : ∀ place : SerialPlace, place.initialising = false →
      ∀ u ∈ (s.goto i t place).threads, u.place.initialising = false := by
    intro place hplace u hu
    rcases List.mem_or_eq_of_mem_set hu with hu | rfl
    · exact h.threads u hu
    · exact hplace
  cases hplace : t.place with
  | test =>
    simp only [SerialLine.access, hplace, if_neg hopen] at hs
    obtain rfl := Option.some.inj hs
    exact ⟨h.serialFd, h.opened, hthreads _ rfl, h.used⟩
  | retest =>
    simp only [SerialLine.access, hplace, if_neg hopen] at hs
    obtain rfl := Option.some.inj hs
    exact ⟨h.serialFd, h.opened, hthreads _ rfl, h.used⟩
  | ready =>
    simp only [SerialLine.access, hplace] at hs
    obtain rfl := Option.some.inj hs
    refine ⟨h.serialFd, h.opened, hthreads _ ?_, fun f hf => ?_⟩
    · split <;> rfl
    · rcases List.mem_cons.mp hf with rfl | hf
      · exact h.serialFd
      · exact h.used f hf
  | exited =>
    simp only [SerialLine.access, hplace] at hs
    cases hs
  | opening | storing v | returning | assigning v =>
    rw [hplace] at hinit
    cases hinit

/-- When `main` has opened the line, then in every run, whatever the order of the threads and
however many there are, no thread opens it again, and every call uses the descriptor of
`main`. -/
theorem line_kept (n : Nat) (s : SerialLine) (hs : (serialLine (some n)).Reachable s) :
    s.serialFd = n ∧ s.opened = [n] ∧ ∀ fd ∈ s.used, fd = n := by
  have hkept : s.Kept n := by
    refine hs.invariant (SerialLine.Kept n) ⟨rfl, rfl, fun t ht => ?_, fun fd hfd => ?_⟩ ?_
    · cases ht
    · cases hfd
    · intro s ℓ s' h _ hstep
      cases ℓ with
      | create loops =>
        obtain rfl := Option.some.inj hstep
        refine ⟨h.serialFd, h.opened, fun t ht => ?_, h.used⟩
        rcases List.mem_append.mp ht with ht | ht
        · exact h.threads t ht
        · rw [List.mem_singleton.mp ht]
          rfl
      | access i fd =>
        obtain ⟨t, ht, haccess⟩ := Option.bind_eq_some_iff.mp hstep
        exact h.access ht haccess
  exact ⟨hkept.serialFd, hkept.opened, hkept.used⟩

/-- `voice_get` and an announcement use the descriptor of `main`. -/
theorem line_kept_voiceGet :
    ∃ s, (serialLine (some 3)).Reachable s ∧ s.used = [3, 3] ∧
      s.serialFd = (3 : Nat) ∧ s.opened = [3] ∧ ∀ fd ∈ s.used, fd = (3 : Nat) := by
  obtain ⟨s, hs, hused⟩ := exists_reachable (serialLine (some 3))
    [.create true, .access 0 none, .create false, .access 0 none, .access 1 none, .access 1 none]
    (fun s => s.used == [3, 3]) (by decide +kernel)
  exact ⟨s, hs, beq_iff_eq.mp hused, line_kept 3 s hs⟩

/-! ## Two threads that open the line -/

section Race

variable {first : Option Nat}

theorem SerialLine.getElem?_goto (ht : s.threads[i]? = some t) (place : SerialPlace) :
    (s.goto i t place).threads[i]? = some { t with place := place } :=
  List.getElem?_set_self (List.getElem?_eq_some_iff.mp ht).1

theorem SerialLine.step_access (ht : s.threads[i]? = some t) (h : s.access i t fd = some s') :
    (serialLine first).step s (.access i fd) = some s' := by
  show (s.threads[i]?.bind fun t => s.access i t fd) = some s'
  rw [ht, Option.bind_some, h]

/-- A thread opens the line, up to the store of the descriptor. -/
theorem run_storing (ht : s.threads[i]? = some t) (hplace : t.place = .opening)
    (hfd : fd.all (· ∉ s.opened) = true) :
    (serialLine first).run s [.access i fd, .access i fd] =
      some { s.goto i t .returning with
        serialFd := uartOpen BAUD fd, opened := fd.toList ++ s.opened } := by
  let r : SerialLine := { s.goto i t (.storing (uartOpen BAUD fd)) with
    opened := fd.toList ++ s.opened }
  have hr : r.threads[i]? = some { t with place := .storing (uartOpen BAUD fd) } :=
    SerialLine.getElem?_goto ht _
  have hopen : s.access i t fd = some r := by
    simp only [SerialLine.access, hplace]
    exact if_pos hfd
  refine run_cons (SerialLine.step_access ht hopen) (run_cons (SerialLine.step_access hr ?_) rfl)
  simp [SerialLine.access, SerialLine.goto, r]

/-- After the store it comes to use the line, when the line is open. -/
theorem run_ready (ht : s.threads[i]? = some t) (hplace : t.place = .returning)
    (hopen : s.serialFd ≠ -1) :
    (serialLine first).run s [.access i none, .access i none, .access i none] =
      some (s.goto i t .ready) := by
  let r : SerialLine := s.goto i t (.assigning s.serialFd)
  let r' : SerialLine := s.goto i t .retest
  have hr : r.threads[i]? = some { t with place := .assigning s.serialFd } :=
    SerialLine.getElem?_goto ht _
  have hr' : r'.threads[i]? = some { t with place := .retest } := SerialLine.getElem?_goto ht _
  have hreturn : s.access i t none = some r := by
    simp only [SerialLine.access, hplace]
    rfl
  have hassign : r.access i { t with place := .assigning s.serialFd } none = some r' := by
    simp [SerialLine.access, SerialLine.goto, r, r']
  have hretest : r'.access i { t with place := .retest } none = some (s.goto i t .ready) := by
    simp [SerialLine.access, SerialLine.goto, r', hopen]
  exact run_cons (SerialLine.step_access ht hreturn) (run_cons (SerialLine.step_access hr hassign)
    (run_cons (SerialLine.step_access hr' hretest) rfl))

end Race

/-- Where two threads are about to open the line: the run can go on so that both open it, and
one descriptor is lost; and it can go on so that one opens it, the other fails and stores -1,
and the first then writes to -1, with the line open. -/
theorem line_raced (first : Option Nat) (s : SerialLine) (i j : Nat) (t u : SerialThread)
    (hij : i ≠ j) (ht : s.threads[i]? = some t) (hu : s.threads[j]? = some u)
    (hopening : t.place = .opening ∧ u.place = .opening) :
    (∃ ls r, (serialLine first).run s ls = some r ∧ r.opened.length = s.opened.length + 2) ∧
    (∃ ls r, (serialLine first).run s ls = some r ∧ r.opened ≠ [] ∧ r.used = -1 :: s.used) := by
  obtain ⟨n, hn⟩ := exists_fresh s.opened
  have hfresh : (some n).all (fun m => decide (m ∉ s.opened)) = true := by simpa using hn
  have hfirst := @run_storing s i t (some n) first ht hopening.1 hfresh
  let r : SerialLine := { s.goto i t .returning with
    serialFd := uartOpen BAUD (some n), opened := (some n).toList ++ s.opened }
  have hrj : r.threads[j]? = some u := (List.getElem?_set_ne hij).trans hu
  have hri : r.threads[i]? = some { t with place := .returning } := SerialLine.getElem?_goto ht _
  constructor
  · obtain ⟨m, hm⟩ := exists_fresh r.opened
    have hfresh' : (some m).all (fun k => decide (k ∉ r.opened)) = true := by simpa using hm
    exact ⟨_, _, run_append hfirst (@run_storing r j u (some m) first hrj hopening.2 hfresh'), rfl⟩
  · have hopen : r.serialFd ≠ -1 := by
      show uartOpen BAUD (some n) ≠ -1
      rw [uartOpen_some]
      omega
    have hready := @run_ready r i _ first hri rfl hopen
    let v : SerialLine := r.goto i { t with place := .returning } .ready
    have hvj : v.threads[j]? = some u := (List.getElem?_set_ne hij).trans hrj
    have hfails := @run_storing v j u none first hvj hopening.2 rfl
    let w : SerialLine := { v.goto j u .returning with
      serialFd := uartOpen BAUD none, opened := (none : Option Nat).toList ++ v.opened }
    have hwi : w.threads[i]? = some { t with place := .ready } :=
      (List.getElem?_set_ne (Ne.symm hij)).trans (SerialLine.getElem?_goto hri _)
    have huses : (serialLine first).step w (.access i none) = some
        { w.goto i { t with place := .ready } (if t.loops then .ready else .exited) with
          used := w.serialFd :: w.used } := SerialLine.step_access hwi rfl
    have hrun := run_append hfirst (run_append hready
      (run_append hfails (run_cons huses (run_nil _))))
    exact ⟨_, _, hrun, List.cons_ne_nil _ _, rfl⟩

/-- Two announcements, after `main` has failed to open the line. -/
theorem line_raced_voiceSet :
    ∃ s, (serialLine none).Reachable s ∧ s.opened = [] ∧ s.used = [] ∧
      (∃ ls r, (serialLine none).run s ls = some r ∧ r.opened.length = s.opened.length + 2) ∧
      (∃ ls r, (serialLine none).run s ls = some r ∧ r.opened ≠ [] ∧ r.used = -1 :: s.used) := by
  obtain ⟨s, hs, hplaces⟩ := exists_reachable (serialLine none)
    [.create false, .create false, .access 0 none, .access 1 none]
    (fun s => s.opened == [] && s.used == [] &&
      s.threads == [⟨false, .opening⟩, ⟨false, .opening⟩]) (by decide)
  simp only [Bool.and_eq_true, beq_iff_eq] at hplaces
  obtain ⟨⟨hopened, hused⟩, hthreads⟩ := hplaces
  exact ⟨s, hs, hopened, hused, line_raced none s 0 1 ⟨false, .opening⟩ ⟨false, .opening⟩
    (by decide) (by rw [hthreads]; rfl) (by rw [hthreads]; rfl) ⟨rfl, rfl⟩⟩

/-! ## The voice threads of the handlers' model -/

/-- The place that the handlers' model has for a place of `voice_set`. -/
def SerialPlace.toVoicePc : SerialPlace → VoicePc
  | .ready => .puts
  | .exited => .exited
  | _ => .start

/-- A step of `voice_set` is one of its thread in the handlers' model, where `serial` says
whether `serial_fd` is now other than -1, or there the thread stays where it is. -/
theorem refines_voiceSet (ht : s.threads[i]? = some t) (hset : t.loops = false)
    (hs : s.access i t fd = some s') (v : VoiceSet) (hv : v.pc = t.place.toVoicePc)
    (buffer : Buffer) :
    ∃ t', s'.threads[i]? = some t' ∧ t'.loops = false ∧
      (t'.place.toVoicePc = v.pc ∨
        t'.place.toVoicePc = (v.next (decide (s.serialFd ≠ -1)) buffer).pc) := by
  have hat : ∀ place : SerialPlace, s'.threads = (s.goto i t place).threads →
      s'.threads[i]? = some { t with place := place } := by
    intro place hthreads
    rw [hthreads]
    exact SerialLine.getElem?_goto ht place
  -- A step inside of `voice_init` is none in the handlers' model.
  have hinside : ∀ place : SerialPlace, s'.threads = (s.goto i t place).threads →
      place.toVoicePc = .start → v.pc = .start → ∃ t', s'.threads[i]? = some t' ∧
        t'.loops = false ∧ (t'.place.toVoicePc = v.pc ∨
          t'.place.toVoicePc = (v.next (decide (s.serialFd ≠ -1)) buffer).pc) :=
    fun place hthreads hto hfrom => ⟨_, hat place hthreads, hset, .inl (hto.trans hfrom.symm)⟩
  cases hplace : t.place with
  | test =>
    rw [hplace] at hv
    simp only [SerialLine.access, hplace] at hs
    obtain rfl := Option.some.inj hs
    by_cases hfd : s.serialFd = -1
    · rw [if_pos hfd] at hat hinside ⊢
      exact hinside _ rfl rfl hv
    · refine ⟨_, hat _ rfl, hset, .inr ?_⟩
      simp [VoiceSet.next, hv, SerialPlace.toVoicePc, hfd]
  | opening =>
    rw [hplace] at hv
    simp only [SerialLine.access, hplace] at hs
    obtain ⟨-, heq⟩ := Option.ite_none_right_eq_some.mp hs
    obtain rfl := Option.some.inj heq
    exact hinside _ rfl rfl hv
  | storing x | returning | assigning x =>
    rw [hplace] at hv
    simp only [SerialLine.access, hplace] at hs
    obtain rfl := Option.some.inj hs
    exact hinside _ rfl rfl hv
  | retest =>
    rw [hplace] at hv
    simp only [SerialLine.access, hplace] at hs
    obtain rfl := Option.some.inj hs
    refine ⟨_, hat _ rfl, hset, .inr ?_⟩
    by_cases hfd : s.serialFd = -1
    · simp [VoiceSet.next, hv, SerialPlace.toVoicePc, hfd]
    · simp [VoiceSet.next, hv, SerialPlace.toVoicePc, hfd]
  | ready =>
    rw [hplace] at hv
    simp only [SerialLine.access, hplace] at hs
    obtain rfl := Option.some.inj hs
    refine ⟨_, hat _ rfl, hset, .inr ?_⟩
    simp [VoiceSet.next, hv, SerialPlace.toVoicePc, hset]
  | exited =>
    simp only [SerialLine.access, hplace] at hs
    cases hs

end HomeControl
