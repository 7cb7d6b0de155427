import HomeControl.Lib.Fifo
import HomeControl.Lib.History
import HomeControl.Lib.Interleaving
import HomeControl.Lib.StepSystem
import HomeControl.VoiceInterface
import HomeControl.SocketInterface
import HomeControl.SmokeInterface

/-!
# From the producers to the handlers

Three producers send to one POSIX message queue and `receive_get` takes from it.
`pipeline` is the step system of the four threads.  The environment decides what
each `read`, `recv` and `digitalRead` returns, and whether a send or a receive
fails; a send to a full queue and a receive from an empty one wait, so these steps
are not enabled.

`Pipeline.Takes` says what a step does, and every invariant is proved from it.

* `Pipeline.Faithful` is the invariant of the queue: each producer sends its own commands
  only, and what was dispatched, what `receive_get` holds and what waits in the queue are
  the messages that were sent, in order.
* `Pipeline.Accounted` ties what was sent to the calls.  `requests` and `returns` read off a
  run what each producer asked of `send_message` and which calls have ended how, and the
  messages that were sent are the requests of the calls that succeeded, in the order of
  their ends.
* `pipeline_faithful` puts both together, for every run.
-/

namespace HomeControl

open SharedMemory StepSystem
open History (filterMap_concat)
open Interleaving (merge turnsOf)

/-- `mq_maxmsg`. -/
def mqMaxmsg : Nat := 10

/-- The local state of `receive_get`.  `readLen` is set while a received message has
yet to be tested and dispatched. -/
structure ReceiveGet where
  buffer : Buffer
  readLen : Option Nat
  running : Bool

def ReceiveGet.start : ReceiveGet :=
  { buffer := memset 0, readLen := none, running := true }

/-- `mq_receive` returned the length of a message. -/
def ReceiveGet.receive (s : ReceiveGet) (m : Msg) : ReceiveGet :=
  { s with buffer := memcpy s.buffer m, readLen := some m.length }

/-- `mq_receive` returned -1: `EAGAIN` is tried again, any other error ends the
thread. -/
def ReceiveGet.error (s : ReceiveGet) (eagain : Bool) : ReceiveGet :=
  if eagain then s else { s with running := false }

/-- The bytes that the `memcpy` to `recv_msg->buffer` is about to copy. -/
def ReceiveGet.held (s : ReceiveGet) : List Msg :=
  s.readLen.toList.map (firstCells s.buffer)

/-- The message that a handler is started for: the one that was received, if it
passes the test. -/
def ReceiveGet.accepted (s : ReceiveGet) : List Msg :=
  if validData s.buffer then s.held else []

/-- The four threads and the queue.  The lists are records of what happened: the
results of each `read` and `recv`, the arguments of the calls of `send_message`, the
messages of the successful sends, and those that a handler was started for. -/
structure Pipeline where
  voice : VoiceGet
  tcp : TcpsocketGet
  smoke : SmokeGet
  queue : Fifo Msg mqMaxmsg
  receiver : ReceiveGet
  voiceReads : List IoResult := []
  voiceCalls : List Msg := []
  tcpReads : List IoResult := []
  tcpCalls : List Msg := []
  sent : List Msg := []
  dispatched : List Msg := []

/-- The steps.  A `Bool` is what a call reports: that it succeeded, or for `mqError`
that `errno` is `EAGAIN`. -/
inductive PipelineLabel where
  | voiceRead (r : IoResult)
  | voiceSend (success : Bool)
  | tcpAccept (accepted optionsSet : Bool)
  | tcpRecv (r : IoResult)
  | tcpSend (success : Bool)
  | smokeRead (status : Int)
  | smokeSend (success : Bool)
  | mqReceive
  | mqError (eagain : Bool)
  | dispatch
  deriving DecidableEq

/-- `mq_send`, from the call to the return. -/
def Pipeline.send (s : Pipeline) (m : Msg) (success : Bool) : Option Pipeline :=
  if success then (s.queue.push? m).map fun q => { s with queue := q, sent := s.sent ++ [m] }
  else some s

/-- `uart_Getstr` asks for 6 bytes, so its result has at most 6. -/
def Pipeline.voiceRead (s : Pipeline) (r : IoResult) : Option Pipeline :=
  if s.voice.sending = none ∧ r.stored.length ≤ 6 then
    some { s with
      voice := s.voice.read r
      voiceReads := s.voiceReads ++ [r]
      voiceCalls := s.voiceCalls ++ (s.voice.read r).sending.toList }
  else none

def Pipeline.tcpRecv (s : Pipeline) (r : IoResult) : Option Pipeline :=
  if s.tcp.place = .connected ∧ s.tcp.sending = none ∧ r.stored.length ≤ SIZE then
    some { s with
      tcp := s.tcp.recv r
      tcpReads := s.tcpReads ++ [r]
      tcpCalls := s.tcpCalls ++ (s.tcp.recv r).sending.toList }
  else none

def Pipeline.mqReceive (s : Pipeline) : Option Pipeline :=
  if s.receiver.running = true ∧ s.receiver.readLen = none then
    s.queue.pop?.map fun (m, q) => { s with queue := q, receiver := s.receiver.receive m }
  else none

def Pipeline.dispatch (s : Pipeline) : Option Pipeline :=
  if s.receiver.readLen = none then none
  else some { s with
    receiver := { s.receiver with readLen := none }
    dispatched := s.dispatched ++ s.receiver.accepted }

/-- One step of one thread. -/
def Pipeline.step (s : Pipeline) : PipelineLabel → Option Pipeline
  | .voiceRead r => s.voiceRead r
  | .voiceSend success =>
    s.voice.sending.bind fun m =>
      (s.send m success).map fun t => { t with voice := t.voice.returned }
  | .tcpAccept accepted optionsSet =>
    if s.tcp.place = .accepting then
      some { s with tcp := s.tcp.accept accepted optionsSet }
    else none
  | .tcpRecv r => s.tcpRecv r
  | .tcpSend success =>
    s.tcp.sending.bind fun m =>
      (s.send m success).map fun t => { t with tcp := t.tcp.returned }
  | .smokeRead status =>
    if s.smoke.sending = none then some { s with smoke := s.smoke.read status } else none
  | .smokeSend success =>
    s.smoke.sending.bind fun m =>
      (s.send m success).map fun t => { t with smoke := t.smoke.returned success }
  | .mqReceive => s.mqReceive
  | .mqError eagain =>
    if s.receiver.running = true ∧ s.receiver.readLen = none then
      some { s with receiver := s.receiver.error eagain }
    else none
  | .dispatch => s.dispatch

/-- The program with an empty queue. -/
def pipeline : StepSystem Pipeline PipelineLabel where
  start :=
    { voice := .start, tcp := .start, smoke := .start, queue := .empty, receiver := .start }
  step := Pipeline.step

/-! ## One step -/

/-- What a step does. -/
inductive Pipeline.Takes (s : Pipeline) : PipelineLabel → Pipeline → Prop
  | voiceRead {r : IoResult} (hidle : s.voice.sending = none) (hlen : r.stored.length ≤ 6) :
    Takes s (.voiceRead r)
      { s with
        voice := s.voice.read r
        voiceReads := s.voiceReads ++ [r]
        voiceCalls := s.voiceCalls ++ (s.voice.read r).sending.toList }
  | voiceSend {m : Msg} {success : Bool} {t : Pipeline} (hm : s.voice.sending = some m)
      (ht : s.send m success = some t) :
    Takes s (.voiceSend success) { t with voice := t.voice.returned }
  | tcpAccept {accepted optionsSet : Bool} (hplace : s.tcp.place = .accepting) :
    Takes s (.tcpAccept accepted optionsSet) { s with tcp := s.tcp.accept accepted optionsSet }
  | tcpRecv {r : IoResult} (hplace : s.tcp.place = .connected) (hidle : s.tcp.sending = none)
      (hlen : r.stored.length ≤ SIZE) :
    Takes s (.tcpRecv r)
      { s with
        tcp := s.tcp.recv r
        tcpReads := s.tcpReads ++ [r]
        tcpCalls := s.tcpCalls ++ (s.tcp.recv r).sending.toList }
  | tcpSend {m : Msg} {success : Bool} {t : Pipeline} (hm : s.tcp.sending = some m)
      (ht : s.send m success = some t) :
    Takes s (.tcpSend success) { t with tcp := t.tcp.returned }
  | smokeRead {status : Int} (hidle : s.smoke.sending = none) :
    Takes s (.smokeRead status) { s with smoke := s.smoke.read status }
  | smokeSend {m : Msg} {success : Bool} {t : Pipeline} (hm : s.smoke.sending = some m)
      (ht : s.send m success = some t) :
    Takes s (.smokeSend success) { t with smoke := t.smoke.returned success }
  | mqReceive {m : Msg} {q : Fifo Msg mqMaxmsg} (hrun : s.receiver.running = true)
      (hidle : s.receiver.readLen = none) (hpop : s.queue.pop? = some (m, q)) :
    Takes s .mqReceive { s with queue := q, receiver := s.receiver.receive m }
  | mqError {eagain : Bool} (hrun : s.receiver.running = true)
      (hidle : s.receiver.readLen = none) :
    Takes s (.mqError eagain) { s with receiver := s.receiver.error eagain }
  | dispatch {n : Nat} (hn : s.receiver.readLen = some n) :
    Takes s .dispatch
      { s with
        receiver := { s.receiver with readLen := none }
        dispatched := s.dispatched ++ s.receiver.accepted }

theorem Pipeline.takes_dispatch {s t : Pipeline} (ht : s.dispatch = some t) :
    s.Takes .dispatch t := by
  obtain ⟨hheld, heq⟩ := Option.ite_none_left_eq_some.mp ht
  obtain ⟨n, hn⟩ := Option.ne_none_iff_exists'.mp hheld
  cases heq
  exact .dispatch hn

/-- The step function does what `Takes` says, and nothing else. -/
theorem Pipeline.takes_of_step {s t : Pipeline} {ℓ : PipelineLabel} (ht : s.step ℓ = some t) :
    s.Takes ℓ t := by
  cases ℓ with
  | voiceRead r =>
    obtain ⟨⟨hidle, hlen⟩, heq⟩ := Option.ite_none_right_eq_some.mp ht
    cases heq
    exact .voiceRead hidle hlen
  | voiceSend success =>
    obtain ⟨m, hm, hrest⟩ := Option.bind_eq_some_iff.mp ht
    obtain ⟨u, hu, rfl⟩ := Option.map_eq_some_iff.mp hrest
    exact .voiceSend hm hu
  | tcpAccept accepted optionsSet =>
    obtain ⟨hplace, heq⟩ := Option.ite_none_right_eq_some.mp ht
    cases heq
    exact .tcpAccept hplace
  | tcpRecv r =>
    obtain ⟨⟨hplace, hidle, hlen⟩, heq⟩ := Option.ite_none_right_eq_some.mp ht
    cases heq
    exact .tcpRecv hplace hidle hlen
  | tcpSend success =>
    obtain ⟨m, hm, hrest⟩ := Option.bind_eq_some_iff.mp ht
    obtain ⟨u, hu, rfl⟩ := Option.map_eq_some_iff.mp hrest
    exact .tcpSend hm hu
  | smokeRead status =>
    obtain ⟨hidle, heq⟩ := Option.ite_none_right_eq_some.mp ht
    cases heq
    exact .smokeRead hidle
  | smokeSend success =>
    obtain ⟨m, hm, hrest⟩ := Option.bind_eq_some_iff.mp ht
    obtain ⟨u, hu, rfl⟩ := Option.map_eq_some_iff.mp hrest
    exact .smokeSend hm hu
  | mqReceive =>
    obtain ⟨⟨hrun, hidle⟩, hmap⟩ := Option.ite_none_right_eq_some.mp ht
    obtain ⟨⟨m, q⟩, hpop, rfl⟩ := Option.map_eq_some_iff.mp hmap
    exact .mqReceive hrun hidle hpop
  | mqError eagain =>
    obtain ⟨⟨hrun, hidle⟩, heq⟩ := Option.ite_none_right_eq_some.mp ht
    cases heq
    exact .mqError hrun hidle
  | dispatch => exact Pipeline.takes_dispatch ht

/-! ## What one send and one receive do -/

/-- A send appends to the queue, or it fails and changes nothing. -/
theorem Pipeline.send_cases {s t : Pipeline} {m : Msg} {success : Bool}
    (h : s.send m success = some t) :
    (success = true ∧ ∃ q, q.items = s.queue.items ++ [m] ∧
      t = { s with queue := q, sent := s.sent ++ [m] }) ∨ (success = false ∧ t = s) := by
  unfold Pipeline.send at h
  cases success with
  | true =>
    rw [if_pos rfl] at h
    obtain ⟨q, hq, rfl⟩ := Option.map_eq_some_iff.mp h
    exact .inl ⟨rfl, q, Fifo.items_of_push? hq, rfl⟩
  | false =>
    rw [if_neg Bool.false_ne_true] at h
    exact .inr ⟨rfl, (Option.some.inj h).symm⟩

/-- What was received is held until it is dispatched. -/
theorem ReceiveGet.held_receive (s : ReceiveGet) (m : Msg) : (s.receive m).held = [m] := by
  show [firstCells (memcpy s.buffer m) m.length] = [m]
  rw [firstCells_memcpy _ (Nat.le_refl _), List.take_length]

/-- A held command passes the test. -/
theorem ReceiveGet.accepted_eq_held {s : ReceiveGet}
    (h : ∀ m ∈ s.held, ∃ f : Frame, m = f.bytes) : s.accepted = s.held := by
  unfold ReceiveGet.accepted
  cases hlen : s.readLen with
  | none =>
    have hnil : s.held = [] := by
      rw [ReceiveGet.held, hlen]
      rfl
    rw [hnil, ite_self]
  | some n =>
    have hheld : s.held = [firstCells s.buffer n] := by
      rw [ReceiveGet.held, hlen]
      rfl
    obtain ⟨f, hf⟩ := h _ (by rw [hheld]; exact List.mem_singleton_self _)
    have hn : n = 6 := by
      have hlength := congrArg List.length hf
      rw [length_firstCells, Frame.length_bytes] at hlength
      exact hlength
    have hvalid : validData s.buffer = true := by
      rw [hn] at hf
      have hcell : ∀ i, i < 6 → f.bytes[i]? = some (s.buffer i) := by
        intro i hi
        rw [← hf, getElem?_firstCells _ hi]
      refine validData_iff.mpr ⟨?_, ?_, ?_, ?_⟩
      · exact (Option.some.inj (hcell 0 (by omega))).symm
      · exact (Option.some.inj (hcell 1 (by omega))).symm
      · exact (Option.some.inj (hcell 4 (by omega))).symm
      · exact (Option.some.inj (hcell 5 (by omega))).symm
    rw [if_pos hvalid]

/-! ## The invariant -/

/-- What holds in every state of the four threads. -/
structure Pipeline.Faithful (s : Pipeline) : Prop where
  voiceClear : s.voice.Clear
  voiceSending : ∀ m, s.voice.sending = some m → ∃ f : Frame, m = f.bytes
  voiceCalls : s.voiceCalls = (s.voiceReads.filterMap IoResult.frame?).map Frame.bytes
  tcpSending : ∀ m, s.tcp.sending = some m → ∃ f : Frame, m = f.bytes
  tcpCalls : s.tcpCalls = (s.tcpReads.filterMap IoResult.frame?).map Frame.bytes
  smokeFramed : s.smoke.Framed
  smokeSending : ∀ m, s.smoke.sending = some m → ∃ f : Frame, m = f.bytes
  commands : ∀ m ∈ s.sent, ∃ f : Frame, m = f.bytes
  order : s.dispatched ++ s.receiver.held ++ s.queue.items = s.sent

theorem faithful_start : pipeline.start.Faithful where
  voiceClear := VoiceGet.clear_start
  voiceSending m h := by cases h
  voiceCalls := rfl
  tcpSending m h := by cases h
  tcpCalls := rfl
  smokeFramed := SmokeGet.framed_start
  smokeSending m h := by cases h
  commands m h := by cases h
  order := rfl

/-- A send keeps the invariant, whatever thread makes it. -/
theorem Pipeline.Faithful.send {s t : Pipeline} (h : s.Faithful) {m : Msg}
    (hm : ∃ f : Frame, m = f.bytes) {success : Bool} (ht : s.send m success = some t) :
    t.Faithful := by
  rcases Pipeline.send_cases ht with ⟨-, q, hq, rfl⟩ | ⟨-, rfl⟩
  · refine { h with commands := ?_, order := ?_ }
    · intro n hn
      rcases List.mem_append.mp hn with hn | hn
      · exact h.commands n hn
      · rw [List.mem_singleton.mp hn]
        exact hm
    · show s.dispatched ++ s.receiver.held ++ q.items = s.sent ++ [m]
      rw [hq, ← List.append_assoc, h.order]
  · exact h

/-- A frame taken from one more result. -/
theorem calls_concat (reads : List IoResult) (r : IoResult) :
    ((reads ++ [r]).filterMap IoResult.frame?).map Frame.bytes =
      (reads.filterMap IoResult.frame?).map Frame.bytes ++
        (r.frame?.map Frame.bytes).toList := by
  rw [filterMap_concat, List.map_append, Option.toList_map]

theorem Pipeline.Faithful.voiceRead {s : Pipeline} (h : s.Faithful) {r : IoResult}
    (hidle : s.voice.sending = none) (hlen : r.stored.length ≤ 6) :
    Pipeline.Faithful { s with
      voice := s.voice.read r
      voiceReads := s.voiceReads ++ [r]
      voiceCalls := s.voiceCalls ++ (s.voice.read r).sending.toList } := by
  have hsend := VoiceGet.sending_read h.voiceClear hidle hlen
  refine { h with voiceClear := ?_, voiceSending := ?_, voiceCalls := ?_ }
  · exact VoiceGet.clear_read h.voiceClear hidle r
  · intro m hm
    obtain ⟨f, -, hf⟩ := Option.map_eq_some_iff.mp (hsend.symm.trans hm)
    exact ⟨f, hf.symm⟩
  · show s.voiceCalls ++ _ = _
    rw [calls_concat, h.voiceCalls, hsend]

theorem Pipeline.Faithful.tcpRecv {s : Pipeline} (h : s.Faithful)
    (hidle : s.tcp.sending = none) (r : IoResult) :
    Pipeline.Faithful { s with
      tcp := s.tcp.recv r
      tcpReads := s.tcpReads ++ [r]
      tcpCalls := s.tcpCalls ++ (s.tcp.recv r).sending.toList } := by
  have hsend := TcpsocketGet.sending_recv hidle r
  refine { h with tcpSending := ?_, tcpCalls := ?_ }
  · intro m hm
    obtain ⟨f, -, hf⟩ := Option.map_eq_some_iff.mp (hsend.symm.trans hm)
    exact ⟨f, hf.symm⟩
  · show s.tcpCalls ++ _ = _
    rw [calls_concat, h.tcpCalls, hsend]

theorem Pipeline.Faithful.mqReceive {s : Pipeline} (h : s.Faithful) {m : Msg}
    {q : Fifo Msg mqMaxmsg} (hidle : s.receiver.readLen = none)
    (hpop : s.queue.pop? = some (m, q)) :
    Pipeline.Faithful { s with queue := q, receiver := s.receiver.receive m } := by
  refine { h with order := ?_ }
  have hitems := Fifo.items_of_pop? hpop
  have hnone : s.receiver.held = [] := by
    rw [ReceiveGet.held, hidle]
    rfl
  have horder := h.order
  rw [hnone, List.append_nil, hitems] at horder
  show s.dispatched ++ (s.receiver.receive m).held ++ q.items = s.sent
  rw [ReceiveGet.held_receive, List.append_assoc]
  exact horder

/-- What `receive_get` holds is a command. -/
theorem Pipeline.Faithful.held {s : Pipeline} (h : s.Faithful) :
    ∀ m ∈ s.receiver.held, ∃ f : Frame, m = f.bytes := by
  intro m hm
  refine h.commands m ?_
  rw [← h.order]
  exact List.mem_append_left _ (List.mem_append_right _ hm)

theorem Pipeline.Faithful.dispatch {s : Pipeline} (h : s.Faithful) :
    Pipeline.Faithful { s with
      receiver := { s.receiver with readLen := none }
      dispatched := s.dispatched ++ s.receiver.accepted } := by
  refine { h with order := ?_ }
  show s.dispatched ++ s.receiver.accepted ++ [] ++ s.queue.items = s.sent
  rw [ReceiveGet.accepted_eq_held h.held, List.append_nil]
  exact h.order

theorem Pipeline.Faithful.smokeRead {s : Pipeline} (h : s.Faithful) (status : Int) :
    Pipeline.Faithful { s with smoke := s.smoke.read status } := by
  refine { h with smokeFramed := SmokeGet.framed_read h.smokeFramed status, smokeSending := ?_ }
  intro m hm
  have hsend : (s.smoke.read status).sending = some m := hm
  rcases SmokeGet.read_cases h.smokeFramed status with
    ⟨-, -, hs⟩ | ⟨-, -, -, hs⟩ | ⟨-, -, -, hs⟩
  · exact ⟨alarmFrame, Option.some.inj (hsend.symm.trans hs)⟩
  · exact ⟨allClearFrame, Option.some.inj (hsend.symm.trans hs)⟩
  · exact h.smokeSending m (hs.symm.trans hsend)

/-- One case for each kind of step. -/
theorem Pipeline.Faithful.step {s s' : Pipeline} (h : s.Faithful) {ℓ : PipelineLabel}
    (hstep : s.Takes ℓ s') : s'.Faithful := by
  cases hstep with
  | voiceRead hidle hlen => exact h.voiceRead hidle hlen
  | @tcpRecv r hplace hidle hlen => exact h.tcpRecv hidle r
  | mqReceive hrun hidle hpop => exact h.mqReceive hidle hpop
  | dispatch => exact h.dispatch
  | @voiceSend m success t hm ht =>
    refine { h.send (h.voiceSending m hm) ht with
      voiceClear := VoiceGet.clear_returned t.voice, voiceSending := ?_ }
    intro n hn
    cases hn
  | @tcpSend m success t hm ht =>
    refine { h.send (h.tcpSending m hm) ht with tcpSending := ?_ }
    intro n hn
    cases hn
  | @smokeSend m success t hm ht =>
    have hsent := h.send (h.smokeSending m hm) ht
    refine { hsent with
      smokeFramed := SmokeGet.framed_returned hsent.smokeFramed success, smokeSending := ?_ }
    intro n hn
    cases hn
  | @tcpAccept accepted optionsSet =>
    refine { h with tcpSending := ?_ }
    intro m hm
    exact h.tcpSending m ((s.tcp.sending_accept accepted optionsSet).symm.trans hm)
  | @smokeRead status => exact h.smokeRead status
  | @mqError eagain =>
    refine { h with order := ?_ }
    have hheld : (s.receiver.error eagain).held = s.receiver.held := by
      unfold ReceiveGet.error
      split <;> rfl
    show s.dispatched ++ (s.receiver.error eagain).held ++ s.queue.items = s.sent
    rw [hheld]
    exact h.order

theorem faithful_of_reachable {s : Pipeline} (hs : pipeline.Reachable s) : s.Faithful :=
  hs.invariant Pipeline.Faithful faithful_start fun _ _ _ h _ hstep =>
    h.step (Pipeline.takes_of_step hstep)

/-! ## From the readings to the queue -/

/-- The threads that send to the queue. -/
inductive Producer where
  | voice
  | tcp
  | smoke
  deriving DecidableEq

/-- The message of a producer whose `mq_send` has not returned. -/
def Pipeline.sending (s : Pipeline) : Producer → Option Msg
  | .voice => s.voice.sending
  | .tcp => s.tcp.sending
  | .smoke => s.smoke.sending

/-- The result of `read` or `recv` that a producer gets in a step. -/
def PipelineLabel.result? : Producer → PipelineLabel → Option IoResult
  | .voice, .voiceRead r => some r
  | .tcp, .tcpRecv r => some r
  | _, _ => none

/-- The reading of the smoke sensor in a step. -/
def PipelineLabel.reading? : PipelineLabel → Option Int
  | .smokeRead status => some status
  | _ => none

/-- The producer whose `mq_send` returns in a step, and whether the call succeeded. -/
def PipelineLabel.return? : PipelineLabel → Option (Producer × Bool)
  | .voiceSend success => some (.voice, success)
  | .tcpSend success => some (.tcp, success)
  | .smokeSend success => some (.smoke, success)
  | _ => none

/-- What `smoke_get` has to send for a reading: the alarm for `LOW`, and the all-clear for
`HIGH` when there was an alarm and no `HIGH` since. -/
def smokeRequest (alarmed : Bool) (status : Int) : Option Frame :=
  if status = LOW then some alarmFrame
  else if status = HIGH ∧ alarmed = true then some allClearFrame
  else none

def alarmedAfter (alarmed : Bool) (status : Int) : Bool :=
  if status = LOW then true else if status = HIGH then false else alarmed

def smokeRequests : Bool → List Int → List Frame
  | _, [] => []
  | alarmed, status :: readings =>
    (smokeRequest alarmed status).toList ++ smokeRequests (alarmedAfter alarmed status) readings

/-- What the producers have to send after a run: the commands that `voice_get` and
`tcpsocket_get` each got as one result, and those for the readings of the smoke sensor. -/
def requests (ls : List PipelineLabel) : Producer → List Msg
  | .voice => ((ls.filterMap (PipelineLabel.result? .voice)).filterMap IoResult.frame?).map
      Frame.bytes
  | .tcp => ((ls.filterMap (PipelineLabel.result? .tcp)).filterMap IoResult.frame?).map
      Frame.bytes
  | .smoke => (smokeRequests false (ls.filterMap PipelineLabel.reading?)).map Frame.bytes

/-- The calls of `mq_send` that returned in a run, in order. -/
def returns (ls : List PipelineLabel) : List (Producer × Bool) :=
  ls.filterMap PipelineLabel.return?

/-- There was an alarm in the run, and no `HIGH` since. -/
def alarmed (ls : List PipelineLabel) : Bool :=
  (ls.filterMap PipelineLabel.reading?).foldl alarmedAfter false

/-- What a step gives a producer to send. -/
def PipelineLabel.request (alarmed : Bool) (ℓ : PipelineLabel) : Producer → Option Msg
  | .voice => ((ℓ.result? .voice).bind IoResult.frame?).map Frame.bytes
  | .tcp => ((ℓ.result? .tcp).bind IoResult.frame?).map Frame.bytes
  | .smoke => (ℓ.reading?.bind (smokeRequest alarmed)).map Frame.bytes

theorem smokeRequests_concat (b : Bool) (readings : List Int) (status : Int) :
    smokeRequests b (readings ++ [status]) =
      smokeRequests b readings ++ (smokeRequest (readings.foldl alarmedAfter b) status).toList := by
  induction readings generalizing b with
  | nil => exact List.append_nil _
  | cons r readings ih =>
    rw [List.cons_append, smokeRequests, smokeRequests, ih, List.append_assoc]
    rfl

/-- A step adds its own request. -/
theorem requests_concat (ls : List PipelineLabel) (ℓ : PipelineLabel) (p : Producer) :
    requests (ls ++ [ℓ]) p = requests ls p ++ (ℓ.request (alarmed ls) p).toList := by
  have hresult : ∀ q, ((ls ++ [ℓ]).filterMap (PipelineLabel.result? q)).filterMap
      IoResult.frame? = (ls.filterMap (PipelineLabel.result? q)).filterMap IoResult.frame? ++
        ((ℓ.result? q).bind IoResult.frame?).toList := by
    intro q
    rw [filterMap_concat, List.filterMap_append]
    cases ℓ.result? q with
    | none => rfl
    | some r => rw [Option.toList_some, ← List.nil_append [r], filterMap_concat]; rfl
  cases p with
  | voice =>
    rw [requests, hresult, List.map_append, ← Option.toList_map]
    rfl
  | tcp =>
    rw [requests, hresult, List.map_append, ← Option.toList_map]
    rfl
  | smoke =>
    rw [requests, filterMap_concat]
    cases hread : ℓ.reading? with
    | none =>
      rw [PipelineLabel.request, hread]
      simp only [Option.toList_none, List.append_nil, Option.bind_none, Option.map_none]
      rfl
    | some status =>
      rw [PipelineLabel.request, hread, Option.toList_some, smokeRequests_concat,
        List.map_append, ← Option.toList_map]
      rfl

theorem returns_concat (ls : List PipelineLabel) (ℓ : PipelineLabel) :
    returns (ls ++ [ℓ]) = returns ls ++ ℓ.return?.toList :=
  filterMap_concat _ _ _

theorem alarmed_concat (ls : List PipelineLabel) (ℓ : PipelineLabel) :
    alarmed (ls ++ [ℓ]) = ℓ.reading?.elim (alarmed ls) (alarmedAfter (alarmed ls)) := by
  unfold alarmed
  rw [filterMap_concat, List.foldl_append]
  cases ℓ.reading? <;> rfl

/-- A step that gives a producer nothing to send. -/
theorem requests_concat_of_none {ls : List PipelineLabel} {ℓ : PipelineLabel} {p : Producer}
    (hnone : ℓ.request (alarmed ls) p = none) : requests (ls ++ [ℓ]) p = requests ls p := by
  rw [requests_concat, hnone]
  exact List.append_nil _

theorem alarmed_concat_of_none {ls : List PipelineLabel} {ℓ : PipelineLabel}
    (hnone : ℓ.reading? = none) : alarmed (ls ++ [ℓ]) = alarmed ls := by
  rw [alarmed_concat, hnone]
  rfl

/-- Where a call returns, no producer gets a result or a reading. -/
theorem PipelineLabel.request_of_return {ℓ : PipelineLabel} {x : Producer × Bool}
    (hreturn : ℓ.return? = some x) :
    ℓ.reading? = none ∧ ∀ b p, ℓ.request b p = none := by
  cases ℓ with
  | voiceSend success => exact ⟨rfl, fun b p => by cases p <;> rfl⟩
  | tcpSend success => exact ⟨rfl, fun b p => by cases p <;> rfl⟩
  | smokeSend success => exact ⟨rfl, fun b p => by cases p <;> rfl⟩
  | _ => cases hreturn

/-- What the producers had to send is what they sent, but for the calls that failed and the
one that each of them is in. -/
structure Pipeline.Accounted (ls : List PipelineLabel) (s : Pipeline) : Prop where
  voiceCalls : s.voiceCalls = requests ls .voice
  tcpCalls : s.tcpCalls = requests ls .tcp
  switched : s.smoke.switchStatus = 1 ↔ alarmed ls = true
  calls : ∀ p, ∃ ended, requests ls p = ended ++ (s.sending p).toList ∧
    ended.length = turnsOf (returns ls) p
  sent : s.sent = merge (requests ls) (returns ls)

theorem accounted_start : pipeline.start.Accounted [] where
  voiceCalls := rfl
  tcpCalls := rfl
  switched := by decide
  calls p := ⟨[], by cases p <;> rfl, rfl⟩
  sent := rfl

theorem Pipeline.Accounted.turns_le {ls : List PipelineLabel} {s : Pipeline} (h : s.Accounted ls)
    (p : Producer) : turnsOf (returns ls) p ≤ (requests ls p).length := by
  obtain ⟨ended, hended, hlength⟩ := h.calls p
  rw [hended, List.length_append]
  omega

/-- A request of this step changes nothing of what was sent before. -/
theorem Pipeline.Accounted.merge_requests {ls : List PipelineLabel} {s : Pipeline}
    (h : s.Accounted ls) (ℓ : PipelineLabel) :
    merge (requests (ls ++ [ℓ])) (returns ls) = s.sent := by
  have hmore : requests (ls ++ [ℓ]) =
      fun p => requests ls p ++ (ℓ.request (alarmed ls) p).toList :=
    funext (requests_concat ls ℓ)
  rw [hmore, Interleaving.merge_append _ _ _ h.turns_le, h.sent]

/-- A step in which no call returns: a producer may have got something to send. -/
theorem Pipeline.Accounted.offers {ls : List PipelineLabel} {s t : Pipeline} (h : s.Accounted ls)
    {ℓ : PipelineLabel} (hnone : ℓ.return? = none)
    (hsending : ∀ p, (t.sending p).toList =
      (s.sending p).toList ++ (ℓ.request (alarmed ls) p).toList)
    (hsent : t.sent = s.sent)
    (hvoice : t.voiceCalls = s.voiceCalls ++ (ℓ.request (alarmed ls) .voice).toList)
    (htcp : t.tcpCalls = s.tcpCalls ++ (ℓ.request (alarmed ls) .tcp).toList)
    (hswitch : t.smoke.switchStatus = 1 ↔ alarmed (ls ++ [ℓ]) = true) :
    t.Accounted (ls ++ [ℓ]) := by
  have hreturns : returns (ls ++ [ℓ]) = returns ls := by
    rw [returns_concat, hnone]
    exact List.append_nil _
  refine ⟨?_, ?_, hswitch, fun p => ?_, ?_⟩
  · rw [hvoice, h.voiceCalls, requests_concat]
  · rw [htcp, h.tcpCalls, requests_concat]
  · obtain ⟨ended, hended, hlength⟩ := h.calls p
    refine ⟨ended, ?_, by rw [hreturns]; exact hlength⟩
    rw [requests_concat, hended, hsending, List.append_assoc]
  · rw [hreturns, h.merge_requests, hsent]

/-- A step that gives no producer anything to send, and in which no call returns. -/
theorem Pipeline.Accounted.idle {ls : List PipelineLabel} {s t : Pipeline} (h : s.Accounted ls)
    {ℓ : PipelineLabel} (hnone : ℓ.return? = none) (hread : ℓ.reading? = none)
    (hrequest : ∀ p, ℓ.request (alarmed ls) p = none)
    (hsending : ∀ p, t.sending p = s.sending p)
    (hrecords : t.sent = s.sent ∧ t.voiceCalls = s.voiceCalls ∧ t.tcpCalls = s.tcpCalls)
    (hswitch : t.smoke.switchStatus = s.smoke.switchStatus) : t.Accounted (ls ++ [ℓ]) := by
  obtain ⟨hsent, hvoice, htcp⟩ := hrecords
  refine h.offers hnone (fun p => ?_) hsent ?_ ?_ ?_
  · rw [hsending, hrequest]
    exact (List.append_nil _).symm
  · rw [hvoice, hrequest]
    exact (List.append_nil _).symm
  · rw [htcp, hrequest]
    exact (List.append_nil _).symm
  · rw [hswitch, alarmed_concat_of_none hread]
    exact h.switched

/-- The producer `p`, which was idle, gets a result or a reading. -/
theorem Pipeline.Accounted.reads {ls : List PipelineLabel} {s t : Pipeline} (h : s.Accounted ls)
    {ℓ : PipelineLabel} {p : Producer} (hnone : ℓ.return? = none) (hidle : s.sending p = none)
    (hgets : t.sending p = ℓ.request (alarmed ls) p)
    (hothers : ∀ q, q ≠ p → t.sending q = s.sending q ∧ ℓ.request (alarmed ls) q = none)
    (hsent : t.sent = s.sent)
    (hvoice : t.voiceCalls = s.voiceCalls ++ (ℓ.request (alarmed ls) .voice).toList)
    (htcp : t.tcpCalls = s.tcpCalls ++ (ℓ.request (alarmed ls) .tcp).toList)
    (hswitch : t.smoke.switchStatus = 1 ↔ alarmed (ls ++ [ℓ]) = true) :
    t.Accounted (ls ++ [ℓ]) := by
  refine h.offers hnone (fun q => ?_) hsent hvoice htcp hswitch
  by_cases hq : q = p
  · rw [hq, hgets, hidle]
    rfl
  · rw [(hothers q hq).1, (hothers q hq).2]
    exact (List.append_nil _).symm

/-- A send, with what it leaves alone. -/
theorem Pipeline.send_keeps {s t : Pipeline} {m : Msg} {success : Bool}
    (ht : s.send m success = some t) :
    t.voice = s.voice ∧ t.tcp = s.tcp ∧ t.smoke = s.smoke ∧ t.voiceCalls = s.voiceCalls ∧
      t.tcpCalls = s.tcpCalls ∧ t.sent = s.sent ++ if success then [m] else [] := by
  rcases Pipeline.send_cases ht with ⟨rfl, q, -, rfl⟩ | ⟨rfl, rfl⟩
  · exact ⟨rfl, rfl, rfl, rfl, rfl, rfl⟩
  · exact ⟨rfl, rfl, rfl, rfl, rfl, (List.append_nil _).symm⟩

/-- The call of `mq_send` that `p` is in returns. -/
theorem Pipeline.Accounted.ends {ls : List PipelineLabel} {s u t : Pipeline}
    (h : s.Accounted ls) {ℓ : PipelineLabel} {p : Producer} {success : Bool} {m : Msg}
    (hreturn : ℓ.return? = some (p, success)) (hm : s.sending p = some m)
    (hu : s.send m success = some u) (hidle : t.sending p = none)
    (hothers : ∀ q, q ≠ p → t.sending q = u.sending q)
    (hrecords : t.sent = u.sent ∧ t.voiceCalls = u.voiceCalls ∧ t.tcpCalls = u.tcpCalls)
    (hswitch : t.smoke.switchStatus = u.smoke.switchStatus) : t.Accounted (ls ++ [ℓ]) := by
  obtain ⟨hvoiceKept, htcpKept, hsmokeKept, hvoice, htcp, hsent⟩ := Pipeline.send_keeps hu
  obtain ⟨hread, hrequest⟩ := PipelineLabel.request_of_return hreturn
  have hkept : ∀ q, u.sending q = s.sending q := fun q => by
    cases q with
    | voice => exact congrArg VoiceGet.sending hvoiceKept
    | tcp => exact congrArg TcpsocketGet.sending htcpKept
    | smoke => exact congrArg SmokeGet.sending hsmokeKept
  have hreturns : returns (ls ++ [ℓ]) = returns ls ++ [(p, success)] := by
    rw [returns_concat, hreturn]
    rfl
  have hsame : ∀ q, requests (ls ++ [ℓ]) q = requests ls q :=
    fun q => requests_concat_of_none (hrequest _ q)
  obtain ⟨ended, hended, hlength⟩ := h.calls p
  rw [hm, Option.toList_some] at hended
  refine ⟨?_, ?_, ?_, fun q => ?_, ?_⟩
  · rw [hrecords.2.1, hvoice, h.voiceCalls, hsame]
  · rw [hrecords.2.2, htcp, h.tcpCalls, hsame]
  · rw [hswitch, hsmokeKept, alarmed_concat_of_none hread]
    exact h.switched
  · rw [hsame, hreturns, Interleaving.turnsOf_concat]
    by_cases hq : q = p
    · subst hq
      refine ⟨ended ++ [m], ?_, ?_⟩
      · rw [hidle, hended]
        exact (List.append_nil _).symm
      · rw [List.length_append, hlength, if_pos rfl, List.length_singleton]
    · obtain ⟨before, hbefore, hcount⟩ := h.calls q
      refine ⟨before, ?_, ?_⟩
      · rw [hothers q hq, hkept]
        exact hbefore
      · rw [if_neg (Ne.symm hq)]
        exact hcount
  · have hnext : (requests ls p)[turnsOf (returns ls) p]? = some m := by
      rw [hended, ← hlength, List.getElem?_concat_length]
    rw [hreturns, Interleaving.merge_concat, h.merge_requests, hsame, hnext, hrecords.1, hsent]
    rfl

/-- The switch of `smoke_get` is on exactly after an alarm, and the message of a reading is
the one that the reading asks for. -/
theorem SmokeGet.read_requests {s : SmokeGet} (h : s.Framed) (hidle : s.sending = none)
    {b : Bool} (hb : s.switchStatus = 1 ↔ b = true) (status : Int) :
    ((s.read status).switchStatus = 1 ↔ alarmedAfter b status = true) ∧
      (s.read status).sending = (smokeRequest b status).map Frame.bytes := by
  unfold alarmedAfter smokeRequest
  rcases SmokeGet.read_cases h status with
    ⟨rfl, hswitch, hsend⟩ | ⟨rfl, hon, hswitch, hsend⟩ | ⟨hlow, hhigh, hswitch, hsend⟩
  · rw [hswitch, hsend]
    exact ⟨⟨fun _ => rfl, fun _ => rfl⟩, rfl⟩
  · rw [hswitch, hsend, if_neg LOW_ne_HIGH.symm, if_neg LOW_ne_HIGH.symm, if_pos rfl,
      if_pos ⟨rfl, hb.mp hon⟩]
    exact ⟨by decide, rfl⟩
  · have hno : ¬ (status = HIGH ∧ b = true) := fun hboth => hhigh ⟨hboth.1, hb.mpr hboth.2⟩
    rw [hswitch, hsend, hidle, if_neg hlow, if_neg hlow, if_neg hno]
    refine ⟨?_, rfl⟩
    by_cases hh : status = HIGH
    · rw [if_pos hh]
      exact ⟨fun hon => absurd ⟨hh, hon⟩ hhigh, fun hfalse => absurd hfalse Bool.false_ne_true⟩
    · rw [if_neg hh]
      exact hb

/-- One case for each kind of step. -/
theorem Pipeline.Accounted.step {ls : List PipelineLabel} {s t : Pipeline} (h : s.Accounted ls)
    (hf : s.Faithful) {ℓ : PipelineLabel} (hstep : s.Takes ℓ t) : t.Accounted (ls ++ [ℓ]) := by
  cases hstep with
  | @voiceRead r hidle hlen =>
    have hsend := VoiceGet.sending_read hf.voiceClear hidle hlen
    refine h.reads (p := .voice) rfl hidle hsend (fun q hq => ?_) rfl ?_
      (List.append_nil _).symm ?_
    · cases q with
      | voice => exact absurd rfl hq
      | tcp => exact ⟨rfl, rfl⟩
      | smoke => exact ⟨rfl, rfl⟩
    · exact congrArg (s.voiceCalls ++ ·.toList) hsend
    · rw [alarmed_concat_of_none rfl]
      exact h.switched
  | @tcpRecv r hplace hidle hlen =>
    have hsend := TcpsocketGet.sending_recv hidle r
    refine h.reads (p := .tcp) rfl hidle hsend (fun q hq => ?_) rfl
      (List.append_nil _).symm ?_ ?_
    · cases q with
      | voice => exact ⟨rfl, rfl⟩
      | tcp => exact absurd rfl hq
      | smoke => exact ⟨rfl, rfl⟩
    · exact congrArg (s.tcpCalls ++ ·.toList) hsend
    · rw [alarmed_concat_of_none rfl]
      exact h.switched
  | @smokeRead status hidle =>
    obtain ⟨hon, hsend⟩ := SmokeGet.read_requests hf.smokeFramed hidle h.switched status
    refine h.reads (p := .smoke) rfl hidle hsend (fun q hq => ?_) rfl
      (List.append_nil _).symm (List.append_nil _).symm ?_
    · cases q with
      | voice => exact ⟨rfl, rfl⟩
      | tcp => exact ⟨rfl, rfl⟩
      | smoke => exact absurd rfl hq
    · rw [alarmed_concat]
      exact hon
  | @tcpAccept accepted optionsSet hplace =>
    refine h.idle rfl rfl (fun p => by cases p <;> rfl) (fun p => ?_) ⟨rfl, rfl, rfl⟩ rfl
    cases p with
    | voice => rfl
    | tcp => exact TcpsocketGet.sending_accept s.tcp accepted optionsSet
    | smoke => rfl
  | mqReceive hrun hidle hpop =>
    exact h.idle rfl rfl (fun p => by cases p <;> rfl) (fun p => by cases p <;> rfl)
      ⟨rfl, rfl, rfl⟩ rfl
  | mqError hrun hidle =>
    exact h.idle rfl rfl (fun p => by cases p <;> rfl) (fun p => by cases p <;> rfl)
      ⟨rfl, rfl, rfl⟩ rfl
  | dispatch hn =>
    exact h.idle rfl rfl (fun p => by cases p <;> rfl) (fun p => by cases p <;> rfl)
      ⟨rfl, rfl, rfl⟩ rfl
  | voiceSend hm hu =>
    refine h.ends rfl hm hu rfl (fun q hq => ?_) ⟨rfl, rfl, rfl⟩ rfl
    cases q with
    | voice => exact absurd rfl hq
    | tcp => rfl
    | smoke => rfl
  | tcpSend hm hu =>
    refine h.ends rfl hm hu rfl (fun q hq => ?_) ⟨rfl, rfl, rfl⟩ rfl
    cases q with
    | voice => rfl
    | tcp => exact absurd rfl hq
    | smoke => rfl
  | smokeSend hm hu =>
    refine h.ends rfl hm hu rfl (fun q hq => ?_) ⟨rfl, rfl, rfl⟩ rfl
    cases q with
    | voice => rfl
    | tcp => rfl
    | smoke => exact absurd rfl hq

theorem accounted_of_run {ls : List PipelineLabel} {s : Pipeline}
    (hrun : pipeline.run pipeline.start ls = some s) : s.Accounted ls := by
  refine run_history pipeline (fun ls s => s.Accounted ls) accounted_start ?_ hrun
  intro ls s ℓ t hs h hstep
  exact h.step (faithful_of_reachable (reachable_of_run hs)) (Pipeline.takes_of_step hstep)

/-- The pipeline neither corrupts, loses, duplicates nor reorders what it accepted, in any
interleaving of the four threads.  `voice_get` and `tcpsocket_get` call `send_message`
exactly for the results that themselves are commands.  Each producer has a call open for
its next request or none at all, and the messages that were sent are the requests whose
calls returned with success, in the order of the returns.  Everything that was enqueued is a
command of six bytes; and the dispatched messages, the one that `receive_get` holds and the
content of the queue are the messages that were sent, in order. -/
theorem pipeline_faithful (ls : List PipelineLabel) (s : Pipeline)
    (hrun : pipeline.run pipeline.start ls = some s) :
    s.voiceCalls = requests ls .voice ∧
      s.tcpCalls = requests ls .tcp ∧
      (∀ p, (requests ls p).drop (turnsOf (returns ls) p) = (s.sending p).toList) ∧
      s.sent = merge (requests ls) (returns ls) ∧
      (∀ m ∈ s.sent, ∃ f : Frame, m = f.bytes) ∧
      s.dispatched ++ s.receiver.held ++ s.queue.items = s.sent := by
  have hf := faithful_of_reachable (reachable_of_run hrun)
  have h := accounted_of_run hrun
  refine ⟨h.voiceCalls, h.tcpCalls, fun p => ?_, h.sent, hf.commands, hf.order⟩
  obtain ⟨ended, hended, hlength⟩ := h.calls p
  rw [hended, ← hlength, List.drop_left]

/-- A command of the voice module, an alarm whose `mq_send` fails, and another that is
sent: the two sent messages are dispatched in the order of the sends. -/
theorem pipeline_faithful_two :
    ∃ ls s, pipeline.run pipeline.start ls = some s ∧
      requests ls .voice = [[0xAA, 0x55, 0x41, 0x00, 0x55, 0xAA]] ∧
      requests ls .smoke = [alarmFrame.bytes, alarmFrame.bytes] ∧
      s.sent = [alarmFrame.bytes, [0xAA, 0x55, 0x41, 0x00, 0x55, 0xAA]] ∧
      s.voiceCalls = requests ls .voice ∧ s.tcpCalls = requests ls .tcp ∧
      (∀ p, (requests ls p).drop (turnsOf (returns ls) p) = (s.sending p).toList) ∧
      s.sent = merge (requests ls) (returns ls) ∧
      (∀ m ∈ s.sent, ∃ f : Frame, m = f.bytes) ∧
      s.dispatched ++ s.receiver.held ++ s.queue.items = s.sent := by
  obtain ⟨ls, hls⟩ : ∃ ls : List PipelineLabel, ls =
    [.voiceRead (some [0xAA, 0x55, 0x41, 0x00, 0x55, 0xAA]), .smokeRead LOW, .smokeSend false,
      .smokeRead LOW, .smokeSend true, .voiceSend true, .mqReceive, .dispatch, .mqReceive] :=
    ⟨_, rfl⟩
  have hend : (pipeline.run pipeline.start ls).any (fun s =>
      s.sent == [alarmFrame.bytes, [0xAA, 0x55, 0x41, 0x00, 0x55, 0xAA]]) = true := by
    rw [hls]
    decide +kernel
  cases hrun : pipeline.run pipeline.start ls with
  | none =>
    rw [hrun] at hend
    cases hend
  | some s =>
    rw [hrun] at hend
    exact ⟨ls, s, hrun, by rw [hls]; decide +kernel, by rw [hls]; decide +kernel,
      beq_iff_eq.mp hend, pipeline_faithful ls s hrun⟩

end HomeControl
