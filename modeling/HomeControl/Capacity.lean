import HomeControl.Pipeline

/-!
# The inbound copies and the sizes of their destinations

Three threads copy what comes from outside: `tcpsocket_get` into `readbuf`, `voice_get` into
its `buffer`, and `receive_get` into its two allocations.  The lengths come from different
places: `recv` is asked for `SIZE` bytes, `uart_Getstr` for `sizeof(buffer)`, and
`mq_receive` for the `mq_msgsize` of the queue, which may have been there before with
another one than `SIZE`.

* `inbound` is the step system of the three threads.  The environment decides what each call
  returns, up to the length that it was asked for.  The state keeps every index that a copy
  or a `memset` has written.
* `Inbound.exists_records` says that this record is complete.
* `inside_iff_recvs`: every index lies inside its destination exactly when every `recv` so far
  returned at most the six bytes of `readbuf`.
* `inbound_of_pipeline`: the threads of the whole program do nothing else.
-/

namespace HomeControl

open SharedMemory StepSystem

/-- The destinations.  `buffer` and `recvBuffer` are the two allocations of
`receive_get`. -/
inductive Dest where
  | readbuf
  | voiceBuffer
  | buffer
  | recvBuffer
  deriving DecidableEq, Repr

/-- The bytes of a destination: `char readbuf[6]`, `unsigned char buffer[6]`, and twice
`malloc(attr.mq_msgsize)`. -/
def capacity (msgsize : Nat) : Dest → Nat
  | .readbuf => 6
  | .voiceBuffer => 6
  | .buffer => msgsize
  | .recvBuffer => msgsize

/-- One byte written. -/
structure Write where
  dest : Dest
  index : Nat
  deriving DecidableEq, Repr

/-- The first `n` bytes of a destination, one write each. -/
def span (dest : Dest) (n : Nat) : List Write := (List.range n).map (Write.mk dest)

/-- The three threads.  `writes` are the bytes written so far and `recvs` the results of
`recv`. -/
structure Inbound where
  voice : VoiceGet
  tcp : TcpsocketGet
  receiver : ReceiveGet
  recvBuffer : Buffer
  allocated : Bool := false
  writes : List Write := []
  recvs : List IoResult := []

/-- What a destination holds. -/
def Inbound.cells (s : Inbound) : Dest → Buffer
  | .readbuf => s.tcp.readbuf
  | .voiceBuffer => s.voice.buffer
  | .buffer => s.receiver.buffer
  | .recvBuffer => s.recvBuffer

/-- Records a copy or a `memset` of `n` bytes. -/
def Inbound.write (s : Inbound) (dest : Dest) (n : Nat) : Inbound :=
  { s with writes := s.writes ++ span dest n }

/-- The steps.  A `Bool` is what a call reports. -/
inductive InboundLabel where
  | voiceRead (r : IoResult)
  | voiceSent
  | tcpAccept (accepted optionsSet : Bool)
  | tcpRecv (r : IoResult)
  | tcpSent
  | mqGetattr (success : Bool)
  | mqReceive (m : Msg)
  | mqError (eagain : Bool)
  | dispatch
  deriving DecidableEq

/-- `uart_Getstr`, and the `memset` of the buffer where something was read and nothing is
to be sent. -/
def Inbound.voiceRead (msgsize : Nat) (s : Inbound) (r : IoResult) : Option Inbound :=
  if s.voice.sending = none ∧ r.stored.length ≤ capacity msgsize .voiceBuffer then
    let t := { s.write .voiceBuffer r.stored.length with voice := s.voice.read r }
    if r.ret > 0 ∧ t.voice.sending = none then some (t.write .voiceBuffer 6) else some t
  else none

/-- The `memset` of `readbuf`, and `recv`. -/
def Inbound.tcpRecv (s : Inbound) (r : IoResult) : Option Inbound :=
  if s.tcp.place = .connected ∧ s.tcp.sending = none ∧ r.stored.length ≤ SIZE then
    some { (s.write .readbuf 6).write .readbuf r.stored.length with
      tcp := s.tcp.recv r
      recvs := s.recvs ++ [r] }
  else none

/-- `mq_getattr`, the two calls of `malloc`, and a `memset` of each. -/
def Inbound.mqGetattr (msgsize : Nat) (s : Inbound) (success : Bool) : Option Inbound :=
  if s.receiver.running = true ∧ s.allocated = false then
    if success then
      some { (s.write .recvBuffer msgsize).write .buffer msgsize with
        allocated := true
        receiver := { s.receiver with buffer := memcpy s.receiver.buffer (.replicate msgsize 0) }
        recvBuffer := memcpy s.recvBuffer (.replicate msgsize 0) }
    else some { s with receiver := { s.receiver with running := false } }
  else none

def Inbound.mqReceive (msgsize : Nat) (s : Inbound) (m : Msg) : Option Inbound :=
  if s.allocated = true ∧ s.receiver.running = true ∧ s.receiver.readLen = none ∧
      m.length ≤ msgsize then
    some { s.write .buffer m.length with receiver := s.receiver.receive m }
  else none

/-- The `memcpy` of `read_len` bytes, when the test passes. -/
def Inbound.dispatch (s : Inbound) : Option Inbound :=
  s.receiver.readLen.map fun readLen =>
    let t := { s with receiver := { s.receiver with readLen := none } }
    if validData s.receiver.buffer then
      { t.write .recvBuffer readLen with
        recvBuffer := memcpy s.recvBuffer (firstCells s.receiver.buffer readLen) }
    else t

/-- One step of one thread. -/
def Inbound.step (msgsize : Nat) (s : Inbound) : InboundLabel → Option Inbound
  | .voiceRead r => s.voiceRead msgsize r
  | .voiceSent =>
    if s.voice.sending = none then none
    else some { s.write .voiceBuffer 6 with voice := s.voice.returned }
  | .tcpAccept accepted optionsSet =>
    if s.tcp.place = .accepting then
      some { s with tcp := s.tcp.accept accepted optionsSet }
    else none
  | .tcpRecv r => s.tcpRecv r
  | .tcpSent =>
    if s.tcp.sending = none then none else some { s with tcp := s.tcp.returned }
  | .mqGetattr success => s.mqGetattr msgsize success
  | .mqReceive m => s.mqReceive msgsize m
  | .mqError eagain =>
    if s.allocated = true ∧ s.receiver.running = true ∧ s.receiver.readLen = none then
      some { s with receiver := s.receiver.error eagain }
    else none
  | .dispatch => s.dispatch

/-- The three threads at their start, with the initialiser of `buffer` in `voice_get`
done. -/
def inbound (msgsize : Nat) : StepSystem Inbound InboundLabel where
  start :=
    { voice := .start, tcp := .start, receiver := .start, recvBuffer := memset 0,
      writes := span .voiceBuffer 6 }
  step := Inbound.step msgsize

/-- Every index written lies inside its destination. -/
def Inbound.Inside (msgsize : Nat) (s : Inbound) : Prop :=
  ∀ w ∈ s.writes, w.index < capacity msgsize w.dest

variable {msgsize : Nat} {s t : Inbound}

/-! ## Where the writes lie -/

theorem mem_span {dest : Dest} {n : Nat} {w : Write} :
    w ∈ span dest n ↔ w.dest = dest ∧ w.index < n := by
  rw [span, List.mem_map]
  constructor
  · rintro ⟨i, hi, rfl⟩
    exact ⟨rfl, List.mem_range.mp hi⟩
  · rintro ⟨rfl, hi⟩
    exact ⟨w.index, List.mem_range.mpr hi, rfl⟩

/-- A copy from the start of a destination stays inside exactly when it is not longer. -/
theorem inside_span {dest : Dest} {n : Nat} :
    (∀ w ∈ span dest n, w.index < capacity msgsize w.dest) ↔ n ≤ capacity msgsize dest := by
  constructor
  · intro h
    by_contra hlong
    have hlast := h ⟨dest, capacity msgsize dest⟩
      (mem_span.mpr ⟨rfl, Nat.lt_of_not_le hlong⟩)
    exact Nat.lt_irrefl _ hlast
  · intro hn w hw
    obtain ⟨rfl, hi⟩ := mem_span.mp hw
    omega

theorem Inbound.inside_write {dest : Dest} {n : Nat} :
    (s.write dest n).Inside msgsize ↔ s.Inside msgsize ∧ n ≤ capacity msgsize dest := by
  rw [Inbound.Inside, Inbound.write, List.forall_mem_append, inside_span]
  exact Iff.rfl

/-- A copy that fits makes no difference. -/
theorem Inbound.inside_write_of_le {dest : Dest} {n : Nat} (hn : n ≤ capacity msgsize dest) :
    (s.write dest n).Inside msgsize ↔ s.Inside msgsize :=
  inside_write.trans (and_iff_left hn)

/-- What holds in every state: the length that `receive_get` holds is one that
`mq_receive` may return, the buffer of `voice_get` is clear behind its six bytes, and the
writes stay inside exactly when the results of `recv` fit. -/
structure Inbound.Tracked (msgsize : Nat) (s : Inbound) : Prop where
  readLen : ∀ n, s.receiver.readLen = some n → n ≤ msgsize
  voiceBeyond : ∀ i, 6 ≤ i → s.voice.buffer i = 0
  inside : s.Inside msgsize ↔ ∀ r ∈ s.recvs, r.stored.length ≤ 6

theorem tracked_start (msgsize : Nat) : (inbound msgsize).start.Tracked msgsize where
  readLen n h := by cases h
  voiceBeyond i _ := rfl
  inside := by
    constructor
    · intro _ r hr
      cases hr
    · intro _
      exact inside_span.mpr (Nat.le_refl 6)

/-- A read copies its bytes, and the buffer keeps them or is cleared. -/
theorem VoiceGet.buffer_read (v : VoiceGet) (r : IoResult) :
    (v.read r).buffer = memcpy v.buffer r.stored ∨
      (r.ret > 0 ∧ (v.read r).sending = none ∧ (v.read r).buffer = memset 0) := by
  unfold VoiceGet.read
  by_cases hret : r.ret > 0
  · rw [if_pos hret]
    by_cases hvalid : validData (memcpy v.buffer r.stored) = true
    · rw [if_pos hvalid]
      exact .inl rfl
    · rw [if_neg hvalid]
      exact .inr ⟨hret, rfl, rfl⟩
  · rw [if_neg hret]
    exact .inl rfl

/-- Reads of at most six bytes leave the cells behind them as they are. -/
theorem VoiceGet.beyond_read {v : VoiceGet} (h : ∀ i, 6 ≤ i → v.buffer i = 0) {r : IoResult}
    (hlen : r.stored.length ≤ 6) : ∀ i, 6 ≤ i → (v.read r).buffer i = 0 := by
  intro i hi
  rcases v.buffer_read r with hbuffer | ⟨-, -, hbuffer⟩
  · rw [hbuffer, memcpy_of_le _ (by omega)]
    exact h i hi
  · rw [hbuffer]
    rfl

theorem Inbound.Tracked.voiceRead (h : s.Tracked msgsize) {r : IoResult}
    (ht : s.voiceRead msgsize r = some t) : t.Tracked msgsize := by
  unfold Inbound.voiceRead at ht
  split at ht
  · rename_i hguard
    have hlen : r.stored.length ≤ 6 := hguard.2
    have hread : (s.write .voiceBuffer r.stored.length).Inside msgsize ↔ s.Inside msgsize :=
      inside_write_of_le hlen
    have hbeyond := VoiceGet.beyond_read h.voiceBeyond hlen
    dsimp only at ht
    split at ht
    · cases ht
      refine ⟨h.readLen, hbeyond, ?_⟩
      have hclear : ((s.write .voiceBuffer r.stored.length).write .voiceBuffer 6).Inside msgsize ↔
          (s.write .voiceBuffer r.stored.length).Inside msgsize :=
        inside_write_of_le (Nat.le_refl 6)
      exact hclear.trans (hread.trans h.inside)
    · cases ht
      exact ⟨h.readLen, hbeyond, hread.trans h.inside⟩
  · cases ht

theorem Inbound.Tracked.tcpRecv (h : s.Tracked msgsize) {r : IoResult}
    (ht : s.tcpRecv r = some t) : t.Tracked msgsize := by
  unfold Inbound.tcpRecv at ht
  split at ht
  · cases ht
    refine ⟨h.readLen, h.voiceBeyond, ?_⟩
    have hrecv : ((s.write .readbuf 6).write .readbuf r.stored.length).Inside msgsize ↔
        s.Inside msgsize ∧ r.stored.length ≤ 6 := by
      rw [inside_write, inside_write_of_le (Nat.le_refl 6)]
      exact Iff.rfl
    refine hrecv.trans ?_
    rw [h.inside, List.forall_mem_append, List.forall_mem_singleton]
  · cases ht

theorem Inbound.Tracked.mqGetattr (h : s.Tracked msgsize) {success : Bool}
    (ht : s.mqGetattr msgsize success = some t) : t.Tracked msgsize := by
  unfold Inbound.mqGetattr at ht
  split at ht
  · split at ht
    · cases ht
      refine ⟨h.readLen, h.voiceBeyond, ?_⟩
      have hfirst : (s.write .recvBuffer msgsize).Inside msgsize ↔ s.Inside msgsize :=
        inside_write_of_le (Nat.le_refl msgsize)
      have hsecond : ((s.write .recvBuffer msgsize).write .buffer msgsize).Inside msgsize ↔
          (s.write .recvBuffer msgsize).Inside msgsize :=
        inside_write_of_le (Nat.le_refl msgsize)
      exact hsecond.trans (hfirst.trans h.inside)
    · cases ht
      exact ⟨h.readLen, h.voiceBeyond, h.inside⟩
  · cases ht

theorem Inbound.Tracked.mqReceive (h : s.Tracked msgsize) {m : Msg}
    (ht : s.mqReceive msgsize m = some t) : t.Tracked msgsize := by
  unfold Inbound.mqReceive at ht
  split at ht
  · rename_i hguard
    have hlen : m.length ≤ msgsize := hguard.2.2.2
    cases ht
    refine ⟨fun n hn => ?_, h.voiceBeyond, ?_⟩
    · have hm : m.length = n := Option.some.inj hn
      omega
    · have hreceive : (s.write .buffer m.length).Inside msgsize ↔ s.Inside msgsize :=
        inside_write_of_le hlen
      exact hreceive.trans h.inside
  · cases ht

theorem Inbound.Tracked.dispatch (h : s.Tracked msgsize) (ht : s.dispatch = some t) :
    t.Tracked msgsize := by
  obtain ⟨n, hn, rfl⟩ := Option.map_eq_some_iff.mp ht
  have hlen : n ≤ msgsize := h.readLen n hn
  by_cases hvalid : validData s.receiver.buffer = true
  · rw [if_pos hvalid]
    refine ⟨fun n' hn' => (by cases hn'), h.voiceBeyond, ?_⟩
    have hcopy : (s.write .recvBuffer n).Inside msgsize ↔ s.Inside msgsize :=
      inside_write_of_le hlen
    exact hcopy.trans h.inside
  · rw [if_neg hvalid]
    exact ⟨fun n' hn' => (by cases hn'), h.voiceBeyond, h.inside⟩

theorem Inbound.Tracked.step (h : s.Tracked msgsize) {ℓ : InboundLabel}
    (ht : s.step msgsize ℓ = some t) : t.Tracked msgsize := by
  cases ℓ with
  | voiceRead r => exact h.voiceRead ht
  | tcpRecv r => exact h.tcpRecv ht
  | mqGetattr success => exact h.mqGetattr ht
  | mqReceive m => exact h.mqReceive ht
  | dispatch => exact h.dispatch ht
  | voiceSent =>
    simp only [Inbound.step] at ht
    split at ht
    · cases ht
    · cases ht
      refine ⟨h.readLen, fun i _ => rfl, ?_⟩
      have hclear : (s.write .voiceBuffer 6).Inside msgsize ↔ s.Inside msgsize :=
        inside_write_of_le (Nat.le_refl 6)
      exact hclear.trans h.inside
  | tcpAccept accepted optionsSet =>
    simp only [Inbound.step] at ht
    split at ht
    · cases ht
      exact ⟨h.readLen, h.voiceBeyond, h.inside⟩
    · cases ht
  | tcpSent =>
    simp only [Inbound.step] at ht
    split at ht
    · cases ht
    · cases ht
      exact ⟨h.readLen, h.voiceBeyond, h.inside⟩
  | mqError eagain =>
    simp only [Inbound.step] at ht
    split at ht
    · cases ht
      refine ⟨fun n hn => h.readLen n ?_, h.voiceBeyond, h.inside⟩
      have herror : (s.receiver.error eagain).readLen = s.receiver.readLen := by
        unfold ReceiveGet.error
        split <;> rfl
      exact herror.symm.trans hn
    · cases ht

theorem tracked_of_reachable (hs : (inbound msgsize).Reachable s) : s.Tracked msgsize :=
  hs.invariant (Inbound.Tracked msgsize) (tracked_start msgsize) fun _ _ _ h _ ht => h.step ht

/-! ## The record of the writes -/

/-- `new` are the writes between two states: they come behind the earlier ones, and each
byte of a destination that differs is among them. -/
def Records (s t : Inbound) (new : List Write) : Prop :=
  t.writes = s.writes ++ new ∧ ∀ dest i, t.cells dest i ≠ s.cells dest i → ⟨dest, i⟩ ∈ new

/-- The four destinations one by one. -/
theorem Records.of_cells {new : List Write} (hwrites : t.writes = s.writes ++ new)
    (hreadbuf : ∀ i, t.tcp.readbuf i ≠ s.tcp.readbuf i → ⟨.readbuf, i⟩ ∈ new)
    (hvoice : ∀ i, t.voice.buffer i ≠ s.voice.buffer i → ⟨.voiceBuffer, i⟩ ∈ new)
    (hbuffer : ∀ i, t.receiver.buffer i ≠ s.receiver.buffer i → ⟨.buffer, i⟩ ∈ new)
    (hrecvBuffer : ∀ i, t.recvBuffer i ≠ s.recvBuffer i → ⟨.recvBuffer, i⟩ ∈ new) :
    Records s t new := by
  refine ⟨hwrites, fun dest i hne => ?_⟩
  cases dest with
  | readbuf => exact hreadbuf i hne
  | voiceBuffer => exact hvoice i hne
  | buffer => exact hbuffer i hne
  | recvBuffer => exact hrecvBuffer i hne

/-- A destination that stays as it is. -/
theorem mem_of_unchanged {b b' : Buffer} (h : b' = b) {dest : Dest} {new : List Write} :
    ∀ i, b' i ≠ b i → ⟨dest, i⟩ ∈ new :=
  fun i hne => absurd (congrFun h i) hne

/-- A `memcpy` changes bytes at the offsets of its source only. -/
theorem mem_span_of_memcpy {b : Buffer} {src : List UInt8} (dest : Dest) {i : Nat}
    (h : memcpy b src i ≠ b i) : ⟨dest, i⟩ ∈ span dest src.length := by
  refine mem_span.mpr ⟨rfl, ?_⟩
  by_contra hle
  exact h (memcpy_of_le b (Nat.le_of_not_lt hle))

/-- Clearing the buffer of `voice_get` changes its six bytes only. -/
theorem Inbound.Tracked.mem_span_of_clear (h : s.Tracked msgsize) {i : Nat}
    (hne : (0 : UInt8) ≠ s.voice.buffer i) : ⟨.voiceBuffer, i⟩ ∈ span .voiceBuffer 6 := by
  refine mem_span.mpr ⟨rfl, ?_⟩
  by_contra hle
  exact hne (h.voiceBeyond i (Nat.le_of_not_lt hle)).symm

theorem Inbound.Tracked.records_voiceRead (h : s.Tracked msgsize) {r : IoResult}
    (ht : s.voiceRead msgsize r = some t) : ∃ new, Records s t new := by
  unfold Inbound.voiceRead at ht
  split at ht
  · have hcopied : (s.voice.read r).buffer = memcpy s.voice.buffer r.stored →
        ∀ i, (s.voice.read r).buffer i ≠ s.voice.buffer i →
          Write.mk .voiceBuffer i ∈ span .voiceBuffer r.stored.length := by
      intro hbuffer i hne
      rw [hbuffer] at hne
      exact mem_span_of_memcpy _ hne
    dsimp only at ht
    split at ht
    · cases ht
      refine ⟨span .voiceBuffer r.stored.length ++ span .voiceBuffer 6,
        .of_cells (List.append_assoc _ _ _) (mem_of_unchanged rfl)
          (fun i hne => List.mem_append.mpr ?_) (mem_of_unchanged rfl) (mem_of_unchanged rfl)⟩
      rcases s.voice.buffer_read r with hbuffer | ⟨-, -, hbuffer⟩
      · exact .inl (hcopied hbuffer i hne)
      · refine .inr (h.mem_span_of_clear fun hzero => hne ?_)
        exact (congrFun hbuffer i).trans hzero
    · rename_i hkept
      cases ht
      refine ⟨_, .of_cells rfl (mem_of_unchanged rfl) (fun i hne => ?_) (mem_of_unchanged rfl)
        (mem_of_unchanged rfl)⟩
      rcases s.voice.buffer_read r with hbuffer | ⟨hret, hnone, -⟩
      · exact hcopied hbuffer i hne
      · exact absurd ⟨hret, hnone⟩ hkept
  · cases ht

theorem records_tcpRecv {r : IoResult} (ht : s.tcpRecv r = some t) : ∃ new, Records s t new := by
  unfold Inbound.tcpRecv at ht
  split at ht
  · cases ht
    have hbuffer : (s.tcp.recv r).readbuf = memcpy (clearReadbuf s.tcp.readbuf) r.stored := by
      unfold TcpsocketGet.recv
      split <;> rfl
    refine ⟨span .readbuf 6 ++ span .readbuf r.stored.length,
      .of_cells (List.append_assoc _ _ _) (fun i hne => ?_) (mem_of_unchanged rfl)
        (mem_of_unchanged rfl) (mem_of_unchanged rfl)⟩
    have hnew : memcpy (clearReadbuf s.tcp.readbuf) r.stored i ≠ s.tcp.readbuf i :=
      fun heq => hne ((congrFun hbuffer i).trans heq)
    by_cases hclear : clearReadbuf s.tcp.readbuf i = s.tcp.readbuf i
    · rw [← hclear] at hnew
      exact List.mem_append_right _ (mem_span_of_memcpy _ hnew)
    · exact List.mem_append_left _ (mem_span_of_memcpy _ hclear)
  · cases ht

theorem records_mqGetattr {success : Bool} (ht : s.mqGetattr msgsize success = some t) :
    ∃ new, Records s t new := by
  unfold Inbound.mqGetattr at ht
  split at ht
  · split at ht
    · cases ht
      have hset : ∀ (b : Buffer) (dest : Dest) (i : Nat),
          memcpy b (List.replicate msgsize 0) i ≠ b i → ⟨dest, i⟩ ∈ span dest msgsize := by
        intro b dest i hne
        have hmem := mem_span_of_memcpy dest hne
        rwa [List.length_replicate] at hmem
      exact ⟨span .recvBuffer msgsize ++ span .buffer msgsize,
        .of_cells (List.append_assoc _ _ _) (mem_of_unchanged rfl) (mem_of_unchanged rfl)
          (fun i hne => List.mem_append_right _ (hset _ _ i hne))
          (fun i hne => List.mem_append_left _ (hset _ _ i hne))⟩
    · cases ht
      exact ⟨[], .of_cells (List.append_nil _).symm (mem_of_unchanged rfl) (mem_of_unchanged rfl)
        (mem_of_unchanged rfl) (mem_of_unchanged rfl)⟩
  · cases ht

theorem records_mqReceive {m : Msg} (ht : s.mqReceive msgsize m = some t) :
    ∃ new, Records s t new := by
  unfold Inbound.mqReceive at ht
  split at ht
  · cases ht
    exact ⟨_, .of_cells rfl (mem_of_unchanged rfl) (mem_of_unchanged rfl)
      (fun i hne => mem_span_of_memcpy _ hne) (mem_of_unchanged rfl)⟩
  · cases ht

theorem records_dispatch (ht : s.dispatch = some t) : ∃ new, Records s t new := by
  obtain ⟨n, -, rfl⟩ := Option.map_eq_some_iff.mp ht
  by_cases hvalid : validData s.receiver.buffer = true
  · rw [if_pos hvalid]
    refine ⟨span .recvBuffer n, .of_cells rfl (mem_of_unchanged rfl) (mem_of_unchanged rfl)
      (mem_of_unchanged rfl) fun i hne => ?_⟩
    have hmem := mem_span_of_memcpy .recvBuffer hne
    rwa [length_firstCells] at hmem
  · rw [if_neg hvalid]
    exact ⟨[], .of_cells (List.append_nil _).symm (mem_of_unchanged rfl) (mem_of_unchanged rfl)
      (mem_of_unchanged rfl) (mem_of_unchanged rfl)⟩

/-- The record of the writes is complete: every step of a run adds the bytes that it
changes. -/
theorem Inbound.exists_records (hs : (inbound msgsize).Reachable s) {ℓ : InboundLabel}
    (ht : s.step msgsize ℓ = some t) : ∃ new, Records s t new := by
  have h := tracked_of_reachable hs
  cases ℓ with
  | voiceRead r => exact h.records_voiceRead ht
  | tcpRecv r => exact records_tcpRecv ht
  | mqGetattr success => exact records_mqGetattr ht
  | mqReceive m => exact records_mqReceive ht
  | dispatch => exact records_dispatch ht
  | voiceSent =>
    simp only [Inbound.step] at ht
    split at ht
    · cases ht
    · cases ht
      exact ⟨_, .of_cells rfl (mem_of_unchanged rfl) (fun i hne => h.mem_span_of_clear hne)
        (mem_of_unchanged rfl) (mem_of_unchanged rfl)⟩
  | tcpAccept accepted optionsSet =>
    simp only [Inbound.step] at ht
    split at ht
    · cases ht
      have hreadbuf : (s.tcp.accept accepted optionsSet).readbuf = s.tcp.readbuf := by
        unfold TcpsocketGet.accept
        split
        · split <;> rfl
        · rfl
      exact ⟨[], .of_cells (List.append_nil _).symm (mem_of_unchanged hreadbuf)
        (mem_of_unchanged rfl) (mem_of_unchanged rfl) (mem_of_unchanged rfl)⟩
    · cases ht
  | tcpSent =>
    simp only [Inbound.step] at ht
    split at ht
    · cases ht
    · cases ht
      exact ⟨[], .of_cells (List.append_nil _).symm (mem_of_unchanged rfl) (mem_of_unchanged rfl)
        (mem_of_unchanged rfl) (mem_of_unchanged rfl)⟩
  | mqError eagain =>
    simp only [Inbound.step] at ht
    split at ht
    · cases ht
      have hbuffer : (s.receiver.error eagain).buffer = s.receiver.buffer := by
        unfold ReceiveGet.error
        split <;> rfl
      exact ⟨[], .of_cells (List.append_nil _).symm (mem_of_unchanged rfl) (mem_of_unchanged rfl)
        (mem_of_unchanged hbuffer) (mem_of_unchanged rfl)⟩
    · cases ht

/-! ## The main result -/

/-- For every `mq_msgsize` and every run: the indices written so far lie inside their
destinations exactly when every `recv` so far returned at most six bytes. -/
theorem inside_iff_recvs (msgsize : Nat) (s : Inbound) (hs : (inbound msgsize).Reachable s) :
    s.Inside msgsize ↔ ∀ r ∈ s.recvs, r.stored.length ≤ 6 :=
  (tracked_of_reachable hs).inside

/-- A command of one client, a failed `recv`, and a message with more bytes than a
command. -/
theorem inside_iff_recvs_command :
    ∃ s, (inbound SIZE).Reachable s ∧ s.recvs.length = 2 ∧
      (∀ r ∈ s.recvs, r.stored.length ≤ 6) ∧ s.Inside SIZE := by
  obtain ⟨s, hs, hend⟩ := exists_reachable (inbound SIZE)
    [.mqGetattr true, .tcpAccept true true, .tcpRecv (some [0xAA, 0x55, 0x41, 0x00, 0x55, 0xAA]),
      .tcpSent, .tcpRecv none, .mqReceive [0xAA, 0x55, 0x41, 0x00, 0x55, 0xAA, 0x0A], .dispatch]
    (fun s => s.recvs.length == 2 && s.recvs.all fun r => decide (r.stored.length ≤ 6))
    (by decide +kernel)
  simp only [Bool.and_eq_true, beq_iff_eq, List.all_eq_true, decide_eq_true_eq] at hend
  exact ⟨s, hs, hend.1, hend.2, (inside_iff_recvs SIZE s hs).mpr hend.2⟩

/-- Two commands in one `recv` leave `readbuf`. -/
theorem not_inside_two_commands : ¬ ∀ s, (inbound SIZE).Reachable s → s.Inside SIZE := by
  intro hall
  obtain ⟨s, hs, hend⟩ := exists_reachable (inbound SIZE)
    [.tcpAccept true true, .tcpRecv (some [0xAA, 0x55, 0x41, 0x00, 0x55, 0xAA,
      0xAA, 0x55, 0x42, 0x00, 0x55, 0xAA])]
    (fun s => s.writes.any fun w => decide (w = ⟨.readbuf, 11⟩)) (by decide +kernel)
  simp only [List.any_eq_true, decide_eq_true_eq] at hend
  obtain ⟨w, hw, rfl⟩ := hend
  have hinside := hall s hs ⟨.readbuf, 11⟩ hw
  exact absurd hinside (by decide)

/-! ## The threads of the whole program -/

/-- The three threads are where the program has them. -/
structure Inbound.Follows (t : Inbound) (s : Pipeline) : Prop where
  allocated : t.allocated = true
  voice : t.voice = s.voice
  tcp : t.tcp = s.tcp
  receiver : t.receiver = s.receiver
  recvs : t.recvs = s.tcpReads

/-- A send touches none of the three threads. -/
theorem Inbound.Follows.send {t : Inbound} {s u : Pipeline} (h : t.Follows s) {m : Msg}
    {success : Bool} (hu : s.send m success = some u) : t.Follows u := by
  rcases Pipeline.send_cases hu with ⟨-, q, -, rfl⟩ | ⟨-, rfl⟩
  · exact ⟨h.allocated, h.voice, h.tcp, h.receiver, h.recvs⟩
  · exact h

/-- What waits in the queue is a command, so `mq_receive` may return it. -/
theorem Pipeline.Faithful.length_popped {s : Pipeline} (h : s.Faithful) {m : Msg}
    {q : Fifo Msg mqMaxmsg} (hpop : s.queue.pop? = some (m, q)) : m.length ≤ SIZE := by
  have hmem : m ∈ s.sent := by
    rw [← h.order, Fifo.items_of_pop? hpop]
    exact List.mem_append_right _ List.mem_cons_self
  obtain ⟨f, rfl⟩ := h.commands m hmem
  rw [Frame.length_bytes]
  decide

theorem Inbound.Follows.voiceRead {t : Inbound} {s s' : Pipeline} (h : t.Follows s)
    {r : IoResult} (hstep : s.Takes (.voiceRead r) s') :
    ∃ t', t.voiceRead SIZE r = some t' ∧ t'.Follows s' := by
  cases hstep with
  | voiceRead hidle hlen =>
    have hread : t.voice.read r = s.voice.read r := by rw [h.voice]
    unfold Inbound.voiceRead
    rw [if_pos (by rw [h.voice]; exact ⟨hidle, hlen⟩)]
    dsimp only
    split
    · exact ⟨_, rfl, h.allocated, hread, h.tcp, h.receiver, h.recvs⟩
    · exact ⟨_, rfl, h.allocated, hread, h.tcp, h.receiver, h.recvs⟩

theorem Inbound.Follows.tcpRecv {t : Inbound} {s s' : Pipeline} (h : t.Follows s)
    {r : IoResult} (hstep : s.Takes (.tcpRecv r) s') :
    ∃ t', t.tcpRecv r = some t' ∧ t'.Follows s' := by
  cases hstep with
  | tcpRecv hplace hidle hlen =>
    unfold Inbound.tcpRecv
    rw [if_pos (by rw [h.tcp]; exact ⟨hplace, hidle, hlen⟩)]
    refine ⟨_, rfl, h.allocated, h.voice, ?_, h.receiver, ?_⟩
    · show t.tcp.recv r = s.tcp.recv r
      rw [h.tcp]
    · show t.recvs ++ [r] = s.tcpReads ++ [r]
      rw [h.recvs]

theorem Inbound.Follows.mqReceive {t : Inbound} {s s' : Pipeline} (h : t.Follows s)
    (hfaithful : s.Faithful) (hstep : s.Takes .mqReceive s') :
    ∃ m t', t.mqReceive SIZE m = some t' ∧ t'.Follows s' := by
  cases hstep with
  | @mqReceive m q hrun hidle hpop =>
    have henabled : t.allocated = true ∧ t.receiver.running = true ∧
        t.receiver.readLen = none ∧ m.length ≤ SIZE := by
      rw [h.receiver]
      exact ⟨h.allocated, hrun, hidle, hfaithful.length_popped hpop⟩
    refine ⟨m, _, if_pos henabled, h.allocated, h.voice, h.tcp, ?_, h.recvs⟩
    show t.receiver.receive m = s.receiver.receive m
    rw [h.receiver]

theorem Inbound.Follows.dispatch {t : Inbound} {s s' : Pipeline} (h : t.Follows s)
    (hstep : s.Takes .dispatch s') : ∃ t', t.dispatch = some t' ∧ t'.Follows s' := by
  cases hstep with
  | dispatch hn =>
    refine ⟨_, by rw [Inbound.dispatch, h.receiver, hn, Option.map_some], ?_⟩
    dsimp only
    split
    · exact ⟨h.allocated, h.voice, h.tcp, rfl, h.recvs⟩
    · exact ⟨h.allocated, h.voice, h.tcp, rfl, h.recvs⟩

/-- A step of the program is a step of one of the three threads, or it leaves them where
they are. -/
theorem Inbound.Follows.step {t : Inbound} {s s' : Pipeline} (h : t.Follows s)
    (hfaithful : s.Faithful) {ℓ : PipelineLabel} (hstep : s.Takes ℓ s') :
    t.Follows s' ∨ ∃ k t', t.step SIZE k = some t' ∧ t'.Follows s' := by
  cases ℓ with
  | voiceRead r => exact .inr ⟨.voiceRead r, h.voiceRead hstep⟩
  | tcpRecv r => exact .inr ⟨.tcpRecv r, h.tcpRecv hstep⟩
  | mqReceive =>
    obtain ⟨m, ht⟩ := h.mqReceive hfaithful hstep
    exact .inr ⟨.mqReceive m, ht⟩
  | dispatch => exact .inr ⟨.dispatch, h.dispatch hstep⟩
  | voiceSend success =>
    cases hstep with
    | @voiceSend m _ u hm hu =>
      have hsending : t.voice.sending ≠ none := by
        rw [h.voice, hm]
        exact Option.some_ne_none m
      have hsent := h.send hu
      exact .inr ⟨.voiceSent, _, if_neg hsending, hsent.allocated, rfl, hsent.tcp,
        hsent.receiver, hsent.recvs⟩
  | tcpSend success =>
    cases hstep with
    | @tcpSend m _ u hm hu =>
      have hsending : t.tcp.sending ≠ none := by
        rw [h.tcp, hm]
        exact Option.some_ne_none m
      have hsent := h.send hu
      refine .inr ⟨.tcpSent, _, if_neg hsending, hsent.allocated, hsent.voice, ?_,
        hsent.receiver, hsent.recvs⟩
      show t.tcp.returned = u.tcp.returned
      rw [hsent.tcp]
  | smokeSend success =>
    cases hstep with
    | smokeSend hm hu =>
      have hsent := h.send hu
      exact .inl ⟨hsent.allocated, hsent.voice, hsent.tcp, hsent.receiver, hsent.recvs⟩
  | tcpAccept accepted optionsSet =>
    cases hstep with
    | tcpAccept hplace =>
      rw [← h.tcp] at hplace
      refine .inr ⟨.tcpAccept accepted optionsSet, _, if_pos hplace, h.allocated, h.voice, ?_,
        h.receiver, h.recvs⟩
      show t.tcp.accept accepted optionsSet = s.tcp.accept accepted optionsSet
      rw [h.tcp]
  | smokeRead status =>
    cases hstep with
    | smokeRead => exact .inl ⟨h.allocated, h.voice, h.tcp, h.receiver, h.recvs⟩
  | mqError eagain =>
    cases hstep with
    | mqError hrun hidle =>
      rw [← h.receiver] at hrun hidle
      refine .inr ⟨.mqError eagain, _, if_pos ⟨h.allocated, hrun, hidle⟩, h.allocated, h.voice,
        h.tcp, ?_, h.recvs⟩
      show t.receiver.error eagain = s.receiver.error eagain
      rw [h.receiver]

/-- Every state of the whole program has its three threads in a state of `inbound`, with
the same results of `recv`. -/
theorem inbound_of_pipeline {s : Pipeline} (hs : pipeline.Reachable s) :
    ∃ t, (inbound SIZE).Reachable t ∧ t.Follows s := by
  refine hs.invariant' (fun s => ∃ t, (inbound SIZE).Reachable t ∧ t.Follows s) ?_ ?_
  · -- `receive_get` has its allocations before the program takes its first step.
    have hstart : (inbound SIZE).step (inbound SIZE).start (.mqGetattr true) = some _ := rfl
    refine ⟨_, .step .start trivial hstart, rfl, rfl, rfl, ?_, rfl⟩
    show ReceiveGet.mk (memcpy (memset 0) (List.replicate SIZE 0)) none true = .start
    rw [memcpy_memset_replicate]
    rfl
  · rintro s ℓ s' hs ⟨t, ht, hfollows⟩ - hstep
    rcases hfollows.step (faithful_of_reachable hs) (Pipeline.takes_of_step hstep) with
      hstays | ⟨k, t', hk, hfollows'⟩
    · exact ⟨t, ht, hstays⟩
    · exact ⟨t', .step ht trivial hk, hfollows'⟩

end HomeControl
