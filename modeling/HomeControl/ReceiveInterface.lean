import HomeControl.Lib.History
import HomeControl.Lib.LastWrite
import HomeControl.Capacity

/-!
# The consumer

`receive_get` reads one message after the other into the same buffer, tests the first six
bytes of the buffer, and copies as many bytes as the message has.  Neither the test nor the
copy asks whether the message has six bytes, and the buffer is not cleared between two
messages, as the two producers clear theirs.

* `ReceiveGet.loop` is the thread over a list of results of `mq_receive`, from a buffer with
  any content.  Its result has, for each message, what the handler finds that was started for
  it.
* `Verdict.Own` says that a message was judged by its own bytes.
* `own_iff_not_completed` says when all are: unless a message of less than six bytes is
  completed to a command by what earlier messages have left.
* `inbound_turn` says that a turn of the loop is two steps of `inbound`.
-/

namespace HomeControl

open SharedMemory LastWrite

/-! ## The loop -/

/-- What `mq_receive` comes to: a message of at most `mq_msgsize` bytes, or an error that is
`EAGAIN` or another. -/
inductive MqReceive (msgsize : Nat) where
  | received (m : Msg) (fits : m.length ≤ msgsize)
  | error (eagain : Bool)

/-- One turn of the loop: the result of `mq_receive`, and what `recv_msg->buffer` holds when
the copy is made.  The handlers that were started before write to it too. -/
structure Turn (msgsize : Nat) where
  result : MqReceive msgsize
  recvBuffer : Buffer

/-- A message, and the content of `recv_msg->buffer` with which a handler was started for it,
if one was. -/
structure Verdict where
  message : Msg
  started : Option Buffer

/-- The test, the `memcpy` of `read_len` bytes, and `pthread_create`. -/
def ReceiveGet.judge (s : ReceiveGet) (m : Msg) (recvBuffer : Buffer) : Verdict where
  message := m
  started :=
    if validData s.buffer then some (memcpy recvBuffer (firstCells s.buffer m.length)) else none

variable {msgsize : Nat}

/-- `receive_get`, from the first call of `mq_receive` on. -/
def ReceiveGet.loop (s : ReceiveGet) : List (Turn msgsize) → List Verdict
  | [] => []
  | t :: ts =>
    match t.result with
    | .received m _ =>
      (s.receive m).judge m t.recvBuffer :: loop { s.receive m with readLen := none } ts
    | .error eagain => if (s.error eagain).running then (s.error eagain).loop ts else []

/-- `receive_get` with its buffer allocated and cleared.  `heap` is what lies behind an
allocation of less than six bytes; it is taken not to change. -/
def ReceiveGet.allocated (msgsize : Nat) (heap : Buffer) : ReceiveGet :=
  { ReceiveGet.start with buffer := memcpy heap (.replicate msgsize 0) }

/-- The messages that are received until an error ends the thread. -/
def messages : List (Turn msgsize) → List Msg
  | [] => []
  | t :: ts =>
    match t.result with
    | .received m _ => m :: messages ts
    | .error true => messages ts
    | .error false => []

/-! ## What a message is judged by -/

/-- The message itself has six bytes, and they are those of a command. -/
def OwnCommand (m : Msg) : Prop :=
  6 ≤ m.length ∧ m[0]? = some 0xAA ∧ m[1]? = some 0x55 ∧ m[4]? = some 0x55 ∧ m[5]? = some 0xAA

/-- A handler is started for the message exactly when it is itself a command, and with its
own bytes. -/
structure Verdict.Own (v : Verdict) : Prop where
  started : v.started.isSome = true ↔ OwnCommand v.message
  copied : ∀ b, v.started = some b → firstCells b 6 = v.message.take 6

/-- The first bytes of the buffer after these messages: each is that of the last message
long enough to have it, or what was there at first. -/
def leftBy (first : Buffer) (ms : List Msg) : Buffer :=
  fun i => lastWrite (fun m => m[i]?) (first i) ms

/-- The message is shorter than a command, and with what is left of those before it the
buffer passes the test. -/
def Completed (first : Buffer) (pre : List Msg) (m : Msg) : Prop :=
  m.length < 6 ∧ validData (leftBy first (pre ++ [m])) = true

theorem leftBy_cons (first : Buffer) (m : Msg) (ms : List Msg) :
    leftBy first (m :: ms) = leftBy (memcpy first m) ms := by
  funext i
  rw [leftBy, lastWrite_cons, ← List.getD_eq_getElem?_getD]
  rfl

theorem completed_cons (first : Buffer) (m : Msg) (pre : List Msg) (n : Msg) :
    Completed first (m :: pre) n ↔ Completed (memcpy first m) pre n := by
  rw [Completed, List.cons_append, leftBy_cons]
  exact Iff.rfl

/-- On a message of six bytes the test reads nothing else. -/
theorem validData_memcpy_iff (b : Buffer) {m : Msg} (hlen : 6 ≤ m.length) :
    validData (memcpy b m) = true ↔ OwnCommand m := by
  have hcell : ∀ i, i < 6 → ∀ v, (memcpy b m i = v ↔ m[i]? = some v) := by
    intro i hi v
    have hget := List.getElem?_eq_getElem (show i < m.length by omega)
    rw [memcpy_of_getElem? b hget, hget, Option.some.injEq]
  rw [validData_iff, OwnCommand, hcell 0 (by omega), hcell 1 (by omega), hcell 4 (by omega),
    hcell 5 (by omega), and_iff_right hlen]

/-- What was received is what is copied, whatever its length. -/
theorem started_judge (s : ReceiveGet) (m : Msg) (recvBuffer : Buffer) :
    ((s.receive m).judge m recvBuffer).started =
      if validData (memcpy s.buffer m) then some (memcpy recvBuffer m) else none := by
  show (if validData (memcpy s.buffer m) then
    some (memcpy recvBuffer (firstCells (memcpy s.buffer m) m.length)) else none) = _
  rw [firstCells_memcpy s.buffer (Nat.le_refl m.length), List.take_length]

/-- One message is judged by its own bytes exactly when it is not completed. -/
theorem own_judge_iff (s : ReceiveGet) (m : Msg) (recvBuffer : Buffer) :
    ((s.receive m).judge m recvBuffer).Own ↔ ¬ Completed s.buffer [] m := by
  have hstarted := started_judge s m recvBuffer
  have hleft : leftBy s.buffer [m] = memcpy s.buffer m := leftBy_cons s.buffer m []
  rw [Completed, List.nil_append, hleft]
  by_cases hlen : m.length < 6
  · have hnot : ¬ OwnCommand m := fun h => absurd h.1 (by omega)
    rw [and_iff_right hlen]
    constructor
    · intro h hvalid
      refine hnot (h.started.mp ?_)
      rw [hstarted, if_pos hvalid]
      rfl
    · intro hinvalid
      rw [if_neg hinvalid] at hstarted
      refine ⟨iff_of_false ?_ hnot, fun b hb => ?_⟩
      · rw [hstarted]
        exact Bool.false_ne_true
      · rw [hstarted] at hb
        cases hb
  · have hown := validData_memcpy_iff s.buffer (Nat.le_of_not_lt hlen)
    refine iff_of_true ?_ fun h => hlen h.1
    by_cases hvalid : validData (memcpy s.buffer m) = true
    · rw [if_pos hvalid] at hstarted
      refine ⟨iff_of_true ?_ (hown.mp hvalid), fun b hb => ?_⟩
      · rw [hstarted]
        rfl
      · obtain rfl := Option.some.inj (hstarted.symm.trans hb)
        exact firstCells_memcpy recvBuffer (Nat.le_of_not_lt hlen)
    · rw [if_neg hvalid] at hstarted
      refine ⟨iff_of_false ?_ fun h => hvalid (hown.mpr h), fun b hb => ?_⟩
      · rw [hstarted]
        exact Bool.false_ne_true
      · rw [hstarted] at hb
        cases hb

/-- From any state of the thread: the messages are judged by their own bytes exactly when
none is completed by what is left of those before it. -/
theorem ReceiveGet.own_loop_iff (s : ReceiveGet) (hrun : s.running = true)
    (ts : List (Turn msgsize)) :
    (∀ v ∈ s.loop ts, v.Own) ↔
      ∀ pre m post, messages ts = pre ++ m :: post → ¬ Completed s.buffer pre m := by
  induction ts generalizing s with
  | nil =>
    constructor
    · intro _ pre m post h
      exact absurd h.symm (List.append_ne_nil_of_right_ne_nil _ (List.cons_ne_nil _ _))
    · intro _ v hv
      cases hv
  | cons t ts ih =>
    obtain ⟨result, recvBuffer⟩ := t
    cases result with
    | received m hfits =>
      simp only [ReceiveGet.loop, messages]
      rw [List.forall_mem_cons, own_judge_iff, History.forall_split_cons]
      refine and_congr_right fun _ => (ih { s.receive m with readLen := none } hrun).trans ?_
      simp only [completed_cons]
      exact Iff.rfl
    | error eagain =>
      cases eagain with
      | true =>
        simp only [ReceiveGet.loop, messages, ReceiveGet.error, if_true, hrun]
        exact ih s hrun
      | false =>
        simp only [ReceiveGet.loop, messages, ReceiveGet.error, Bool.false_eq_true, if_false]
        constructor
        · intro _ pre m post h
          exact absurd h.symm (List.append_ne_nil_of_right_ne_nil _ (List.cons_ne_nil _ _))
        · intro _ v hv
          cases hv

/-- For every size of a message, every list of results of `mq_receive` and whatever the
handlers write: each message is judged by its own bytes, exactly when no message of less
than six bytes is completed to a command by the bytes that earlier messages have left. -/
theorem own_iff_not_completed (msgsize : Nat) (heap : Buffer) (ts : List (Turn msgsize)) :
    (∀ v ∈ (ReceiveGet.allocated msgsize heap).loop ts, v.Own) ↔
      ∀ pre m post, messages ts = pre ++ m :: post →
        ¬ Completed (memcpy heap (.replicate msgsize 0)) pre m :=
  ReceiveGet.own_loop_iff _ rfl ts

/-- A command, and then a message without a byte. -/
def emptyAfterCommand : List (Turn SIZE) :=
  [⟨.received [0xAA, 0x55, 0x44, 0x00, 0x55, 0xAA] (by decide), memset 0⟩,
    ⟨.received [] (by decide), memset 0⟩]

/-- A handler is started for a message without a byte. -/
theorem not_own_emptyAfterCommand :
    ¬ ∀ v ∈ (ReceiveGet.allocated SIZE (memset 0)).loop emptyAfterCommand, v.Own := by
  intro hall
  have hsecond := (hall _ (List.mem_cons_of_mem _ List.mem_cons_self)).started
  have hstarted := hsecond.mp (by decide +kernel)
  exact absurd hstarted.1 (by decide)

/-! ## The thread in the whole program -/

/-- A handler is started for what `pipeline` calls accepted. -/
theorem accepted_receive (s : ReceiveGet) (m : Msg) (recvBuffer : Buffer) :
    (s.receive m).accepted =
      if ((s.receive m).judge m recvBuffer).started.isSome then [m] else [] := by
  unfold ReceiveGet.accepted ReceiveGet.judge
  rw [ReceiveGet.held_receive]
  split
  · rfl
  · rfl

/-- One turn of the loop is a call of `mq_receive` and a dispatch in `inbound`. -/
theorem inbound_turn {s : Inbound} (hallocated : s.allocated = true)
    (hrun : s.receiver.running = true) (hidle : s.receiver.readLen = none) {m : Msg}
    (hfits : m.length ≤ msgsize) :
    ∃ t u, s.step msgsize (.mqReceive m) = some t ∧ t.step msgsize .dispatch = some u ∧
      u.receiver = { s.receiver.receive m with readLen := none } ∧
      u.recvBuffer =
        ((s.receiver.receive m).judge m s.recvBuffer).started.getD s.recvBuffer := by
  refine ⟨_, _, if_pos ⟨hallocated, hrun, hidle, hfits⟩, rfl, ?_, ?_⟩
  · dsimp only
    split
    · rfl
    · rfl
  · dsimp only [ReceiveGet.judge]
    split
    · rfl
    · rfl

end HomeControl
